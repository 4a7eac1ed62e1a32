import Mathlib

/-!
# Lists in order of recency

The entries of a list stand in the order of their last use, the latest one first. Every entry has a
name and a cost. An entry that is used moves to the front (`touch`), a new one replaces the entry of
its name (`insert`), and when the entries cost too much, the ones at the end go (`trim`), but never
the last one left. `trim_spec` says that `trim` drops no more than it must.
-/

namespace Recency

variable {α κ : Type*}

/-- What all entries cost. -/
def cost (size : α → ℤ) (l : List α) : ℤ :=
  (l.map size).sum

/-- The entries cost no more than the bound, or there are not two of them. -/
def Fits (size : α → ℤ) (bound : ℤ) (l : List α) : Prop :=
  cost size l ≤ bound ∨ l.length ≤ 1

instance (size : α → ℤ) (bound : ℤ) (l : List α) : Decidable (Fits size bound l) :=
  inferInstanceAs (Decidable (_ ∨ _))

/-- `trim` on the reversed list. -/
def trimRev (size : α → ℤ) (bound : ℤ) : List α → List α
  | [] => []
  | a :: rest =>
    if Fits size bound (a :: rest).reverse then (a :: rest).reverse else trimRev size bound rest

/-- Drops entries at the end until the others fit. -/
def trim (size : α → ℤ) (bound : ℤ) (l : List α) : List α :=
  trimRev size bound l.reverse

/-- `kept` is the longest part of `l`, from its front, that fits. -/
structure Trimmed (size : α → ℤ) (bound : ℤ) (l kept : List α) : Prop where
  /-- What is dropped stood at the end. -/
  isPrefix : kept <+: l
  /-- What is kept fits. -/
  fits : Fits size bound kept
  /-- With one entry more, it would not. -/
  maximal : ∀ longer, longer <+: l → kept.length < longer.length → ¬ Fits size bound longer

section Trim

variable {size : α → ℤ} {bound : ℤ}

@[simp]
lemma cost_cons (a : α) (l : List α) : cost size (a :: l) = size a + cost size l := by
  simp [cost]

lemma cost_perm {l l' : List α} (h : l.Perm l') : cost size l = cost size l' :=
  (h.map size).sum_eq

lemma cost_le_of_subperm {l l' : List α} (h : l.Subperm l') (hsize : ∀ a ∈ l', 0 ≤ size a) :
    cost size l ≤ cost size l' := by
  obtain ⟨l₁, hperm, hsub⟩ := h
  rw [← cost_perm hperm]
  exact (hsub.map size).sum_le_sum (by simpa using hsize)

lemma cost_nonneg {l : List α} (h : ∀ a ∈ l, 0 ≤ size a) : 0 ≤ cost size l :=
  List.sum_nonneg (by simpa using h)

lemma trim_concat (l : List α) (a : α) :
    trim size bound (l ++ [a]) =
      if Fits size bound (l ++ [a]) then l ++ [a] else trim size bound l := by
  simp [trim, trimRev]

lemma trim_of_fits {l : List α} (h : Fits size bound l) : trim size bound l = l := by
  rcases List.eq_nil_or_concat l with rfl | ⟨init, a, rfl⟩
  · rfl
  · rw [List.concat_eq_append] at h ⊢
    rw [trim_concat, if_pos h]

theorem trim_spec (size : α → ℤ) (bound : ℤ) (l : List α) :
    Trimmed size bound l (trim size bound l) := by
  induction l using List.reverseRecOn with
  | nil =>
    refine ⟨List.nil_prefix, Or.inr (Nat.zero_le _), ?_⟩
    intro longer hlonger hlt
    rw [List.prefix_nil.mp hlonger] at hlt
    exact absurd hlt (lt_irrefl _)
  | append_singleton l a ih =>
    rw [trim_concat]
    split_ifs with hfits
    · refine ⟨List.prefix_rfl, hfits, ?_⟩
      intro longer hlonger hlt
      exact absurd hlonger.length_le (not_le.mpr hlt)
    · refine ⟨ih.isPrefix.trans (List.prefix_append l [a]), ih.fits, ?_⟩
      intro longer hlonger hlt
      rcases List.prefix_concat_iff.mp hlonger with rfl | hshorter
      · exact hfits
      · exact ih.maximal longer hshorter hlt

/-- The first entry stays. -/
lemma Trimmed.head_mem {a : α} {l kept : List α} (h : Trimmed size bound (a :: l) kept) :
    kept.head? = some a := by
  have hne : kept ≠ [] := by
    rintro rfl
    refine h.maximal [a] ?_ (by simp) (Or.inr le_rfl)
    exact List.prefix_append [a] l
  obtain ⟨rest, hrest⟩ := h.isPrefix
  obtain ⟨b, kept, rfl⟩ := List.exists_cons_of_ne_nil hne
  rw [List.cons_append] at hrest
  rw [List.head?_cons, (List.cons.inj hrest).1]

end Trim

/-- Entries with the same cost are trimmed alike. -/
lemma trim_map {β : Type*} (f : α → β) (size : β → ℤ) (bound : ℤ) (l : List α) :
    trim size bound (l.map f) = (trim (size ∘ f) bound l).map f := by
  have hfits : ∀ l : List α, Fits size bound (l.map f) ↔ Fits (size ∘ f) bound l := by
    intro l
    simp [Fits, cost]
  induction l using List.reverseRecOn with
  | nil => rfl
  | append_singleton l a ih =>
    have hconcat := hfits (l ++ [a])
    rw [List.map_append, List.map_singleton] at hconcat ⊢
    rw [trim_concat, trim_concat, ih, apply_ite (List.map f), List.map_append, List.map_singleton]
    simp only [hconcat]

/-! ## Names -/

section Names

variable [DecidableEq κ] {name : α → κ}

/-- Drops the entry of a name. -/
def erase (name : α → κ) (k : κ) (l : List α) : List α :=
  l.filter (name · ≠ k)

/-- A new entry comes to the front, in place of the one with its name. -/
def insert (name : α → κ) (a : α) (l : List α) : List α :=
  a :: erase name (name a) l

/-- The entry of a name comes to the front. -/
def touch (name : α → κ) (k : κ) (l : List α) : List α :=
  match l.find? (name · = k) with
  | none => l
  | some a => insert name a l

lemma mem_erase {k : κ} {a : α} {l : List α} : a ∈ erase name k l ↔ a ∈ l ∧ name a ≠ k := by
  simp [erase]

lemma erase_sublist (k : κ) (l : List α) : (erase name k l).Sublist l :=
  List.filter_sublist

lemma erase_eq_self {k : κ} {l : List α} (h : ∀ a ∈ l, name a ≠ k) : erase name k l = l := by
  refine List.filter_eq_self.mpr ?_
  intro a ha
  simpa using h a ha

lemma erase_cons_self (a : α) (l : List α) :
    erase name (name a) (a :: l) = erase name (name a) l := by
  simp [erase]

lemma erase_cons_of_ne {k : κ} {a : α} (h : name a ≠ k) (l : List α) :
    erase name k (a :: l) = a :: erase name k l := by
  simp [erase, h]

lemma find_eq_some {l : List α} (hl : (l.map name).Nodup) {a : α} (ha : a ∈ l) :
    l.find? (name · = name a) = some a := by
  induction l with
  | nil => cases ha
  | cons b l ih =>
    rw [List.map_cons, List.nodup_cons] at hl
    rcases List.mem_cons.mp ha with rfl | ha
    · simp
    · have hne : name b ≠ name a := by
        intro heq
        exact hl.1 (heq ▸ List.mem_map_of_mem ha)
      rw [List.find?_cons_of_neg (by simpa using hne)]
      exact ih hl.2 ha

/-- An entry that moves to the front leaves the others where they are. -/
lemma insert_perm {l : List α} (hl : (l.map name).Nodup) {a : α} (ha : a ∈ l) :
    (insert name a l).Perm l := by
  induction l with
  | nil => cases ha
  | cons b l ih =>
    rw [List.map_cons, List.nodup_cons] at hl
    rcases List.mem_cons.mp ha with rfl | ha
    · have hrest : erase name (name a) l = l := by
        refine erase_eq_self ?_
        intro b hb heq
        exact hl.1 (heq ▸ List.mem_map_of_mem hb)
      rw [insert, erase_cons_self, hrest]
    · have hne : name b ≠ name a := by
        intro heq
        exact hl.1 (heq ▸ List.mem_map_of_mem ha)
      rw [insert, erase_cons_of_ne hne]
      exact (List.Perm.swap b a _).trans ((ih hl.2 ha).cons b)

/-- Only the entry of the name goes. -/
lemma cost_erase {size : α → ℤ} {l : List α} (hl : (l.map name).Nodup) {a : α} (ha : a ∈ l) :
    cost size (erase name (name a) l) = cost size l - size a := by
  have hcost : cost size (insert name a l) = cost size l := cost_perm (insert_perm hl ha)
  rw [insert, cost_cons] at hcost
  omega

lemma touch_eq_self {k : κ} {l : List α} (h : ∀ a ∈ l, name a ≠ k) : touch name k l = l := by
  have hfind : l.find? (name · = k) = none := by simpa using h
  simp [touch, hfind]

lemma touch_of_mem {l : List α} (hl : (l.map name).Nodup) {a : α} (ha : a ∈ l) :
    touch name (name a) l = insert name a l := by
  simp [touch, find_eq_some hl ha]

lemma touch_perm {k : κ} {l : List α} (hl : (l.map name).Nodup) : (touch name k l).Perm l := by
  rw [touch]
  split
  · exact List.Perm.refl l
  · next a hfind => exact insert_perm hl (List.mem_of_find?_eq_some hfind)

lemma erase_map {β : Type*} (f : β → α) (k : κ) (l : List β) :
    erase name k (l.map f) = (erase (name ∘ f) k l).map f := by
  simp [erase, List.filter_map, Function.comp_def]

lemma insert_map {β : Type*} (f : β → α) (b : β) (l : List β) :
    insert name (f b) (l.map f) = (insert (name ∘ f) b l).map f := by
  rw [insert, insert, erase_map, List.map_cons, Function.comp_apply]

lemma touch_map {β : Type*} (f : β → α) (k : κ) (l : List β) :
    touch name k (l.map f) = (touch (name ∘ f) k l).map f := by
  have hfind : (l.map f).find? (name · = k) = (l.find? ((name ∘ f) · = k)).map f := by
    rw [List.find?_map]
    rfl
  rw [touch, touch, hfind]
  rcases l.find? ((name ∘ f) · = k) with _ | b
  · rfl
  · exact insert_map f b l

/-- Changes to the entry of a name do not matter when it goes. -/
lemma erase_map_of_name {f : α → α} {k : κ} {l : List α} (hname : ∀ a ∈ l, name (f a) = name a)
    (hother : ∀ a ∈ l, name a ≠ k → f a = a) : erase name k (l.map f) = erase name k l := by
  have herase : erase (name ∘ f) k l = erase name k l := by
    refine List.filter_congr ?_
    intro a ha
    rw [Function.comp_apply, hname a ha]
  rw [erase_map, herase]
  refine (List.map_congr_left ?_).trans (List.map_id _)
  intro a ha
  exact hother a (mem_erase.mp ha).1 (mem_erase.mp ha).2

end Names

end Recency
