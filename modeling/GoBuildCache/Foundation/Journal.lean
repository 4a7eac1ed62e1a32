import Mathlib

/-!
# A journal of changes

Elements are added to a set and dropped from it, each under its key. A `Journal` remembers of every
element whether the last change added it or dropped it. It is replayed on a set by adding the keys
of all elements of the one kind and then dropping the keys of all elements of the other. The replay
does what the changes do one after the other, unless an element was added after another element
with the same key was dropped (`replay_ofChanges`).
-/

/-- A change of a set. -/
inductive SetChange (α : Type*) where
  /-- An element is added. -/
  | add (a : α)
  /-- An element is dropped. -/
  | drop (a : α)

/-- The elements that were added last and those that were dropped last. -/
structure Journal (α : Type*) where
  /-- The elements added. -/
  added : Finset α
  /-- The elements dropped. -/
  dropped : Finset α

variable {α β : Type*} [DecidableEq α] [DecidableEq β]

namespace SetChange

variable (key : α → β)

/-- What a change does to a set of keys. -/
def apply (s : Finset β) : SetChange α → Finset β
  | .add a => insert (key a) s
  | .drop a => s.erase (key a)

/-- An element is dropped, and then another one with its key is added. -/
def Clash : SetChange α → SetChange α → Prop
  | .drop a, .add b => a ≠ b ∧ key a = key b
  | _, _ => False

instance : DecidableRel (Clash key)
  | .drop a, .add b => inferInstanceAs (Decidable (a ≠ b ∧ key a = key b))
  | .drop _, .drop _ => isFalse id
  | .add _, .add _ => isFalse id
  | .add _, .drop _ => isFalse id

end SetChange

namespace Journal

open SetChange

/-- A journal without changes. -/
def empty : Journal α :=
  ⟨∅, ∅⟩

/-- A change is written down. -/
def record (j : Journal α) : SetChange α → Journal α
  | .add a => ⟨insert a j.added, j.dropped.erase a⟩
  | .drop a => ⟨j.added.erase a, insert a j.dropped⟩

/-- The journal of changes. -/
def ofChanges (changes : List (SetChange α)) : Journal α :=
  changes.foldl record empty

/-- The keys of the one kind are added, then those of the other are dropped. -/
def replay (key : α → β) (s : Finset β) (j : Journal α) : Finset β :=
  (s ∪ j.added.image key) \ j.dropped.image key

variable {key : α → β} {s : Finset β} {j : Journal α} {changes : List (SetChange α)} {a b : α}

lemma ofChanges_concat (changes : List (SetChange α)) (c : SetChange α) :
    ofChanges (changes ++ [c]) = (ofChanges changes).record c := by
  rw [ofChanges, List.foldl_concat, ofChanges]

/-- What the journal holds as dropped was dropped. -/
lemma drop_mem_of_mem_dropped (ha : a ∈ (ofChanges changes).dropped) : .drop a ∈ changes := by
  induction changes using List.reverseRecOn with
  | nil => exact absurd ha (Finset.notMem_empty a)
  | append_singleton changes c ih =>
    rw [ofChanges_concat] at ha
    cases c with
    | add b => exact List.mem_append_left _ (ih (Finset.mem_of_mem_erase ha))
    | drop b =>
      rcases Finset.mem_insert.mp ha with rfl | ha
      · exact List.mem_append_right _ (List.mem_singleton_self _)
      · exact List.mem_append_left _ (ih ha)

omit [DecidableEq α] in
lemma mem_replay {k : β} :
    k ∈ j.replay key s ↔ (k ∈ s ∨ k ∈ j.added.image key) ∧ k ∉ j.dropped.image key := by
  rw [replay, Finset.mem_sdiff, Finset.mem_union]

/-- Only the key of an element is lost when the element is erased. -/
lemma mem_image_erase {k : β} (hk : k ≠ key b) (t : Finset α) :
    k ∈ (t.erase b).image key ↔ k ∈ t.image key := by
  simp only [Finset.mem_image, Finset.mem_erase]
  constructor
  · rintro ⟨a, ⟨-, ha⟩, rfl⟩
    exact ⟨a, ha, rfl⟩
  · rintro ⟨a, ha, rfl⟩
    exact ⟨a, ⟨fun hab => hk (congrArg key hab), ha⟩, rfl⟩

/-- An element is added whose key no other dropped element has. -/
lemma replay_record_add (hdropped : ∀ a ∈ j.dropped, key a = key b → a = b) :
    (j.record (.add b)).replay key s = insert (key b) (j.replay key s) := by
  ext k
  rw [Finset.mem_insert, mem_replay, mem_replay, record, Finset.image_insert, Finset.mem_insert]
  by_cases hk : k = key b
  · have hkept : key b ∉ (j.dropped.erase b).image key := by
      rw [Finset.mem_image]
      rintro ⟨a, ha, heq⟩
      obtain ⟨hne, ha⟩ := Finset.mem_erase.mp ha
      exact hne (hdropped a ha heq)
    simp [hk, hkept]
  · rw [mem_image_erase hk]
    simp [hk]

/-- An element is dropped. -/
lemma replay_record_drop : (j.record (.drop b)).replay key s = (j.replay key s).erase (key b) := by
  ext k
  rw [Finset.mem_erase, mem_replay, mem_replay, record, Finset.image_insert, Finset.mem_insert]
  by_cases hk : k = key b
  · simp [hk]
  · rw [mem_image_erase hk]
    simp [hk]

/-- Replaying the journal of changes does what the changes do one after the other. -/
theorem replay_ofChanges (hclash : changes.Pairwise fun c d => ¬ Clash key c d) :
    (ofChanges changes).replay key s = changes.foldl (apply key) s := by
  induction changes using List.reverseRecOn with
  | nil => simp [ofChanges, empty, replay]
  | append_singleton changes c ih =>
    obtain ⟨hbefore, -, hlast⟩ := List.pairwise_append.mp hclash
    rw [ofChanges_concat, List.foldl_concat, ← ih hbefore]
    cases c with
    | add b =>
      refine replay_record_add fun a ha heq => ?_
      by_contra hne
      exact hlast _ (drop_mem_of_mem_dropped ha) _ (List.mem_singleton_self _) ⟨hne, heq⟩
    | drop b => exact replay_record_drop

end Journal
