import GoBuildCache.Client.IndexMerge
import GoBuildCache.Foundation.FiniteMap
import GoBuildCache.Foundation.MergeBack

/-!
# The client's set of keys is a set of prefixes

The calls on a `KeySet` are translated with the steps that the runtime is free in (`Runtime`): the
order in which a map lists its keys, and what stands in the array behind a slice that is grown. The
buffers are folded into the slice in place, from its end, with checked reads and writes.

A `KeySet` denotes a `PrefixSet`: a width and a finite set of keys. Whatever calls have built it
(`KeySetBuild`), none of them runs into a fault and the result denotes the prefix set that the
calls describe.
-/

open ByteString BitString SortedList Checked MergeBack

namespace GoBuildCache

/-- What a call on a set leaves to the runtime. -/
structure Runtime (K : Type) [LinearOrder K] extends MapOrder K where
  /-- What stands behind the slice of a set when it is grown by the keys added. -/
  spare : HashSet K → List K
  /-- There is room for them. -/
  length_spare : ∀ s, (spare s).length = s.pending.card

/-! ## Sorted sets -/

namespace HashSet

section Calls

variable {K : Type} [LinearOrder K] (r : Runtime K)

/-- Removes a key. -/
def remove (s : HashSet K) (k : K) : HashSet K :=
  if k ∈ s.pending then { s with pending := s.pending.erase k }
  else if containsSorted s.sorted k then
    let s := { s with removed := insert k s.removed }
    if compactAt ≤ s.removed.card then s.compact else s
  else s

namespace InPlace

/-- Folds the buffers into the slice: the removed keys are taken out, and the added ones are merged
in from the end. -/
def compact (s : HashSet K) : Checked (HashSet K) :=
  let sorted := s.sorted.filter (· ∉ s.removed)
  if s.pending = ∅ then .ok ⟨sorted, ∅, ∅⟩
  else do
    let add := (r.values s.pending).insertionSort (· ≤ ·)
    let n := sorted.length
    let sorted ← mergeBack add (n + add.length) (sorted ++ r.spare s) n add.length (n + add.length)
    .ok ⟨sorted, ∅, ∅⟩

/-- Adds a key. -/
def add (s : HashSet K) (k : K) : Checked (HashSet K) :=
  if k ∈ s.removed then .ok { s with removed := s.removed.erase k }
  else if k ∈ s.pending then .ok s
  else if containsSorted s.sorted k then .ok s
  else
    let s := { s with pending := insert k s.pending }
    if compactAt ≤ s.pending.card then compact r s else .ok s

/-- Removes a key. -/
def remove (s : HashSet K) (k : K) : Checked (HashSet K) :=
  if k ∈ s.pending then .ok { s with pending := s.pending.erase k }
  else if containsSorted s.sorted k then
    let s := { s with removed := insert k s.removed }
    if compactAt ≤ s.removed.card then compact r s else .ok s
  else .ok s

/-- Every key, in the order in which they are listed. -/
def all (s : HashSet K) : List K :=
  s.sorted.filter (· ∉ s.removed) ++ r.values s.pending

end InPlace

end Calls

section Spec

variable {K : Type} [LinearOrder K] {r : Runtime K} {s : HashSet K} {k x : K}

lemma Valid.erase_pending (hs : s.Valid) : Valid { s with pending := s.pending.erase k } :=
  ⟨hs.ascending, hs.removed, fun x hx => hs.pending x (Finset.mem_of_mem_erase hx)⟩

lemma Valid.insert_removed (hs : s.Valid) (hk : k ∈ s.sorted) :
    Valid { s with removed := insert k s.removed } := by
  refine ⟨hs.ascending, ?_, hs.pending⟩
  intro x hx
  rcases Finset.mem_insert.mp hx with rfl | hx
  · exact hk
  · exact hs.removed x hx

lemma Valid.remove (hs : s.Valid) (k : K) : (s.remove k).Valid := by
  unfold HashSet.remove
  split_ifs with hpending hsorted
  · exact hs.erase_pending
  · have hinsert := hs.insert_removed ((containsSorted_iff hs.ascending).mp hsorted)
    dsimp only
    split_ifs
    · exact hinsert.compact
    · exact hinsert
  · exact hs

/-- Removing a key removes it from the members. -/
lemma mem_all_remove (hs : s.Valid) : x ∈ (s.remove k).all ↔ x ≠ k ∧ x ∈ s.all := by
  unfold remove
  split_ifs with hpending hsorted
  · have hk : k ∉ s.sorted := hs.pending k hpending
    simp only [mem_all, Finset.mem_erase]
    by_cases hx : x = k
    · simp [hx, hk]
    · simp [hx]
  · have hinsert : x ∈ all { s with removed := insert k s.removed } ↔ x ≠ k ∧ x ∈ s.all := by
      simp only [mem_all, Finset.mem_insert]
      by_cases hx : x = k
      · simp [hx, hpending]
      · simp [hx]
    dsimp only
    split_ifs
    · rw [mem_all_compact, hinsert]
    · exact hinsert
  · have hk : k ∉ s.all := by
      rw [mem_all, ← containsSorted_iff hs.ascending]
      tauto
    exact ⟨fun hx => ⟨fun heq => hk (heq ▸ hx), hx⟩, And.right⟩

/-- `contains` is membership. -/
lemma contains_iff (hs : s.Valid) : s.contains k = true ↔ k ∈ s.all := by
  rw [contains, mem_all, ← containsSorted_iff hs.ascending]
  split_ifs with hremoved hpending
  · have hk : k ∉ s.pending := fun h => hs.pending k h (hs.removed k hremoved)
    simp [hremoved, hk]
  · simp [hpending]
  · simp [hremoved, hpending]

/-- `len` counts the members. -/
lemma len_eq (hs : s.Valid) : s.len = s.all.length := by
  have hnodup : s.sorted.Nodup := hs.ascending.imp ne_of_lt
  have hsub : s.removed ⊆ s.sorted.toFinset := fun k hk => List.mem_toFinset.mpr (hs.removed k hk)
  have hslice : (s.sorted.filter (· ∉ s.removed)).length
      = (s.sorted.toFinset \ s.removed).card := by
    rw [← List.toFinset_card_of_nodup (hnodup.filter _)]
    congr 1
    ext x
    simp
  have hcard := Finset.card_sdiff_add_card_eq_card hsub
  rw [List.toFinset_card_of_nodup hnodup] at hcard
  rw [len, all, List.length_append, hslice, Finset.length_sort]
  omega

namespace InPlace

/-- The buffers are folded in place as `HashSet.compact` folds them. -/
lemma compact_eq (hs : s.Valid) : compact r s = .ok s.compact := by
  have hslice : (s.sorted.filter (· ∉ s.removed)).Pairwise (· ≤ ·) :=
    (hs.ascending.imp le_of_lt).filter _
  have hadd : (r.values s.pending).insertionSort (· ≤ ·) = s.pending.sort (· ≤ ·) :=
    List.Perm.eq_of_pairwise' (r := (· ≤ ·)) (List.pairwise_insertionSort _ _)
      (Finset.pairwise_sort _ _) ((List.perm_insertionSort _ _).trans (r.perm_sort _))
  rw [compact, HashSet.compact]
  split_ifs with hpending
  · simp [hpending]
  · have hspare : (r.spare s).length = (s.pending.sort (· ≤ ·)).length := by
      rw [r.length_spare, Finset.length_sort]
    rw [hadd]
    dsimp only
    rw [mergeBack_eq_merge hslice (Finset.pairwise_sort _ _) hspare]
    rfl

lemma add_eq (hs : s.Valid) (k : K) : add r s k = .ok (s.add k) := by
  unfold add HashSet.add
  split_ifs with hremoved hpending hsorted
  · rfl
  · rfl
  · rfl
  · have hk : k ∉ s.sorted := fun hk => hsorted ((containsSorted_iff hs.ascending).mpr hk)
    dsimp only
    split_ifs
    · exact compact_eq (hs.insert_pending hk)
    · rfl

lemma remove_eq (hs : s.Valid) (k : K) : remove r s k = .ok (s.remove k) := by
  unfold remove HashSet.remove
  split_ifs with hpending hsorted
  · rfl
  · dsimp only
    split_ifs
    · exact compact_eq (hs.insert_removed ((containsSorted_iff hs.ascending).mp hsorted))
    · rfl
  · rfl

/-- Adding keys one after the other. -/
lemma foldlM_add_eq {α : Type} (r : α → Runtime K) (f : α → K) (xs : List α) (hs : s.Valid) :
    xs.foldlM (fun s a => add (r a) s (f a)) s = .ok (xs.foldl (fun s a => s.add (f a)) s) := by
  induction xs generalizing s with
  | nil => rfl
  | cons a xs ih => rw [List.foldlM_cons, add_eq hs, ok_bind, ih (hs.add (f a)), List.foldl_cons]

lemma all_perm (r : Runtime K) (s : HashSet K) : (all r s).Perm s.all :=
  (r.perm_sort _).append_left _

end InPlace

end Spec

end HashSet

/-! ## Sets of leading bits -/

namespace KeySet.InPlace

variable (r : Runtime IndexKey)

/-- Claims a hash. -/
def add (s : KeySet) (h : Hash) : Checked KeySet := do
  let keys ← HashSet.InPlace.add r s.keys (s.key h)
  .ok { s with keys := keys }

/-- Drops a hash. -/
def remove (s : KeySet) (h : Hash) : Checked KeySet := do
  let keys ← HashSet.InPlace.remove r s.keys (s.key h)
  .ok { s with keys := keys }

/-- Keeps fewer bits of every key. -/
def narrowTo (s : KeySet) (shift : ℕ) : Checked KeySet := do
  let keys ← HashSet.InPlace.compact r s.keys
  let narrow : KeySet := ⟨keys, shift⟩
  .ok ⟨{ keys with sorted := dropRepeats (keys.sorted.map narrow.maskKey) }, shift⟩

/-- Adds the members of another set, on the bits that both hold. -/
def addAll (s other : KeySet) : Checked KeySet := do
  let s ← (if s.shift < other.shift then narrowTo r s other.shift else .ok s)
  let keys ← (HashSet.InPlace.all r other.keys).foldlM
    (fun keys k => HashSet.InPlace.add r keys (s.maskKey k)) s.keys
  .ok { s with keys := keys }

end KeySet.InPlace

/-! ## Prefix sets -/

/-- The leading bits of a key, with zeros in place of the last `shift` bits. -/
def leadingBits (shift : ℕ) (k : IndexKey) : IndexKey :=
  .ofValue 8 (k.value / 2 ^ shift * 2 ^ shift)

/-- A set of prefixes of a width; of the eight bytes of a prefix the last `shift` bits are not part
of it. -/
structure PrefixSet where
  /-- The number of bits that are not held. -/
  shift : ℕ
  /-- The prefixes. -/
  members : Finset IndexKey

lemma value_leadingBits (shift : ℕ) (k : IndexKey) :
    (leadingBits shift k).value = k.value / 2 ^ shift * 2 ^ shift := by
  have hle : k.value / 2 ^ shift * 2 ^ shift ≤ k.value := Nat.div_mul_le_self ..
  exact FixedBytes.value_ofValue (lt_of_le_of_lt hle k.value_lt)

lemma leadingBits_leadingBits (shift : ℕ) (k : IndexKey) :
    leadingBits shift (leadingBits shift k) = leadingBits shift k := by
  refine FixedBytes.value_injective ?_
  rw [value_leadingBits, value_leadingBits, Nat.mul_div_cancel _ (by positivity)]

namespace PrefixSet

/-- The prefix of a hash. -/
def prefixOf (p : PrefixSet) (h : Hash) : IndexKey :=
  leadingBits p.shift (keyOf h)

/-- The set of the keys of a list. -/
def ofKeys (keys : List IndexKey) (widthBits : ℕ) : PrefixSet :=
  ⟨64 - widthBits, keys.toFinset⟩

/-- The set with the prefix of a hash. -/
def insert (p : PrefixSet) (h : Hash) : PrefixSet :=
  { p with members := Insert.insert (p.prefixOf h) p.members }

/-- The set without the prefix of a hash. -/
def erase (p : PrefixSet) (h : Hash) : PrefixSet :=
  { p with members := p.members.erase (p.prefixOf h) }

/-- The set on fewer bits. -/
def narrow (p : PrefixSet) (shift : ℕ) : PrefixSet :=
  if p.shift < shift then ⟨shift, p.members.image (leadingBits shift)⟩ else p

/-- The prefixes of both sets, on the bits that both hold. -/
def union (p q : PrefixSet) : PrefixSet :=
  let p := p.narrow q.shift
  { p with members := p.members ∪ q.members.image (leadingBits p.shift) }

/-- Every prefix ends with the bits that are not held. -/
def Masked (p : PrefixSet) : Prop :=
  ∀ k ∈ p.members, leadingBits p.shift k = k

lemma Masked.union {p : PrefixSet} (hp : p.Masked) (q : PrefixSet) : (p.union q).Masked := by
  have hnarrow : (p.narrow q.shift).Masked := by
    rw [narrow]
    split_ifs
    · intro k hk
      obtain ⟨x, -, rfl⟩ := Finset.mem_image.mp hk
      exact leadingBits_leadingBits ..
    · exact hp
  intro k hk
  rcases Finset.mem_union.mp hk with hk | hk
  · exact hnarrow k hk
  · obtain ⟨x, -, rfl⟩ := Finset.mem_image.mp hk
    exact leadingBits_leadingBits ..

end PrefixSet

/-- The set of keys has its slice and buffers in order, and its members are the prefixes. -/
structure KeySet.Denotes (s : KeySet) (p : PrefixSet) : Prop where
  /-- The slice and the buffers. -/
  valid : s.keys.Valid
  /-- The width. -/
  shift : s.shift = p.shift
  /-- The members. -/
  members : ∀ k, k ∈ s.keys.all ↔ k ∈ p.members

namespace KeySet

variable {s o : KeySet} {p q : PrefixSet} (r : Runtime IndexKey)

lemma maskKey_eq (s : KeySet) : s.maskKey = leadingBits s.shift := by
  funext k
  exact FixedBytes.value_injective ((value_maskKey s k).trans (value_leadingBits s.shift k).symm)

lemma Denotes.key (hs : Denotes s p) (h : Hash) : s.key h = p.prefixOf h := by
  rw [KeySet.key, maskKey_eq, hs.shift, PrefixSet.prefixOf]

lemma denotes_adoptSortedKeysAt (keys : List IndexKey) (widthBits : ℕ) :
    Denotes (.adoptSortedKeysAt keys widthBits) (.ofKeys keys widthBits) where
  valid := HashSet.valid_adoptSorted keys
  shift := rfl
  members := fun _ => (HashSet.mem_all_adoptSorted keys).trans List.mem_toFinset.symm

/-- Claiming a hash inserts its prefix. -/
lemma Denotes.add (hs : Denotes s p) (h : Hash) :
    ∃ t, KeySet.InPlace.add r s h = .ok t ∧ Denotes t (p.insert h) := by
  refine ⟨{ s with keys := s.keys.add (s.key h) }, ?_, hs.valid.add _, hs.shift, ?_⟩
  · rw [KeySet.InPlace.add, HashSet.InPlace.add_eq hs.valid, ok_bind]
  · intro k
    rw [HashSet.mem_all_add hs.valid, hs.members, hs.key]
    exact Finset.mem_insert.symm

/-- Dropping a hash erases its prefix. -/
lemma Denotes.remove (hs : Denotes s p) (h : Hash) :
    ∃ t, KeySet.InPlace.remove r s h = .ok t ∧ Denotes t (p.erase h) := by
  refine ⟨{ s with keys := s.keys.remove (s.key h) }, ?_, hs.valid.remove _, hs.shift, ?_⟩
  · rw [KeySet.InPlace.remove, HashSet.InPlace.remove_eq hs.valid, ok_bind]
  · intro k
    rw [HashSet.mem_all_remove hs.valid, hs.members, hs.key]
    exact Finset.mem_erase.symm

/-- A set is brought to the bits that another one has as well. -/
lemma Denotes.narrow (hs : Denotes s p) (shift : ℕ) :
    ∃ t, (if s.shift < shift then KeySet.InPlace.narrowTo r s shift else .ok s) = .ok t ∧
      Denotes t (p.narrow shift) := by
  rw [hs.shift, PrefixSet.narrow]
  split_ifs
  · refine ⟨s.narrowTo shift, ?_, valid_narrowTo hs.valid shift, rfl, ?_⟩
    · rw [KeySet.InPlace.narrowTo, HashSet.InPlace.compact_eq hs.valid, ok_bind]
      rfl
    · intro k
      rw [mem_all_narrowTo, maskKey_eq]
      simp only [hs.members, Finset.mem_image]
  · exact ⟨s, rfl, hs⟩

/-- Adding a set unites the prefixes. -/
lemma Denotes.addAll (hs : Denotes s p) (ho : Denotes o q) :
    ∃ t, KeySet.InPlace.addAll r s o = .ok t ∧ Denotes t (p.union q) := by
  obtain ⟨t, hnarrow, ht⟩ := hs.narrow r q.shift
  obtain ⟨hvalid, hmem⟩ :=
    HashSet.foldl_add_spec t.maskKey (HashSet.InPlace.all r o.keys) ht.valid
  refine ⟨⟨_, t.shift⟩, ?_, hvalid, ht.shift, ?_⟩
  · rw [KeySet.InPlace.addAll, ho.shift, hnarrow, ok_bind,
      HashSet.InPlace.foldlM_add_eq (fun _ => r) t.maskKey _ ht.valid, ok_bind]
  · intro k
    rw [hmem, ht.members, PrefixSet.union, Finset.mem_union, Finset.mem_image, or_comm, maskKey_eq,
      ht.shift]
    simp only [(HashSet.InPlace.all_perm r o.keys).mem_iff, ho.members]

end KeySet

/-! ## Sets that calls have built -/

/-- The calls that build a set. -/
inductive KeySetBuild where
  /-- A list of keys is adopted. -/
  | adoptSortedKeysAt (keys : List IndexKey) (widthBits : ℕ)
  /-- A hash is claimed. -/
  | add (set : KeySetBuild) (r : Runtime IndexKey) (h : Hash)
  /-- A hash is dropped. -/
  | remove (set : KeySetBuild) (r : Runtime IndexKey) (h : Hash)
  /-- Another set is added. -/
  | addAll (set : KeySetBuild) (r : Runtime IndexKey) (other : KeySetBuild)

namespace KeySetBuild

/-- What the calls compute. -/
def run : KeySetBuild → Checked KeySet
  | .adoptSortedKeysAt keys widthBits => .ok (.adoptSortedKeysAt keys widthBits)
  | .add b r h => do KeySet.InPlace.add r (← b.run) h
  | .remove b r h => do KeySet.InPlace.remove r (← b.run) h
  | .addAll b r other => do KeySet.InPlace.addAll r (← b.run) (← other.run)

/-- What the calls mean. -/
def content : KeySetBuild → PrefixSet
  | .adoptSortedKeysAt keys widthBits => .ofKeys keys widthBits
  | .add b _ h => b.content.insert h
  | .remove b _ h => b.content.erase h
  | .addAll b _ other => b.content.union other.content

/-- Every adopted list is of a width that a blob can have. -/
def Widths : KeySetBuild → Prop
  | .adoptSortedKeysAt _ widthBits => 32 ≤ widthBits ∧ widthBits ≤ 64
  | .add b _ _ | .remove b _ _ => b.Widths
  | .addAll b _ other => b.Widths ∧ other.Widths

/-- Every adopted list is a list of prefixes of its width. -/
def Masked : KeySetBuild → Prop
  | .adoptSortedKeysAt keys widthBits => (PrefixSet.ofKeys keys widthBits).Masked
  | .add b _ _ | .remove b _ _ => b.Masked
  | .addAll b _ other => b.Masked ∧ other.Masked

/-- The calls run into no fault, and the set they build denotes what they mean. -/
lemma run_denotes (b : KeySetBuild) : ∃ s, b.run = .ok s ∧ s.Denotes b.content := by
  induction b with
  | adoptSortedKeysAt keys widthBits =>
    exact ⟨_, rfl, KeySet.denotes_adoptSortedKeysAt keys widthBits⟩
  | add b r h ih =>
    obtain ⟨s, hrun, hs⟩ := ih
    rw [run, hrun, ok_bind]
    exact hs.add r h
  | remove b r h ih =>
    obtain ⟨s, hrun, hs⟩ := ih
    rw [run, hrun, ok_bind]
    exact hs.remove r h
  | addAll b r other ih ihother =>
    obtain ⟨s, hrun, hs⟩ := ih
    obtain ⟨o, horun, ho⟩ := ihother
    rw [run, hrun, ok_bind, horun, ok_bind]
    exact hs.addAll r ho

/-- Calls lead to a width that a blob can have. -/
lemma shift_content_le (b : KeySetBuild) (hb : b.Widths) : b.content.shift ≤ 32 := by
  induction b with
  | adoptSortedKeysAt keys widthBits =>
    have hwidth : 32 ≤ widthBits := hb.1
    change 64 - widthBits ≤ 32
    omega
  | add b r h ih => exact ih hb
  | remove b r h ih => exact ih hb
  | addAll b r other ih ihother =>
    have hshift : (b.content.narrow other.content.shift).shift ≤ 32 := by
      rw [PrefixSet.narrow]
      split_ifs
      · exact ihother hb.2
      · exact ih hb.1
    exact hshift

/-- If the adopted lists are masked, so are all prefixes. -/
lemma masked_content (b : KeySetBuild) (hb : b.Masked) : b.content.Masked := by
  induction b with
  | adoptSortedKeysAt keys widthBits => exact hb
  | add b r h ih =>
    intro k hk
    rcases Finset.mem_insert.mp hk with rfl | hk
    · exact leadingBits_leadingBits ..
    · exact ih hb k hk
  | remove b r h ih =>
    intro k hk
    exact ih hb k (Finset.mem_of_mem_erase hk)
  | addAll b r other ih ihother => exact (ih hb.1).union _

end KeySetBuild

/-- Sets of keys are sets of prefixes. Whatever calls have built a set, at widths from 32 to 64
bits and with whatever the runtime is free in, they run into no fault; the slice is ascending, the
removed keys are in it and the added ones are not; `contains`, `len` and `all` are those of the
prefix set that the calls describe, whose keys are prefixes of its width if those of the adopted
lists were. -/
theorem keySet_denotes_prefixSet (b : KeySetBuild) (hb : b.Widths) :
    ∃ s, b.run = .ok s ∧ s.keys.Valid ∧ s.shift = b.content.shift ∧
      32 ≤ s.width ∧ s.width ≤ 64 ∧
      (∀ h, s.contains h = true ↔ b.content.prefixOf h ∈ b.content.members) ∧
      s.len = b.content.members.card ∧
      (∀ r, (HashSet.InPlace.all r s.keys).Nodup ∧
        (HashSet.InPlace.all r s.keys).toFinset = b.content.members) ∧
      (b.Masked → b.content.Masked) := by
  obtain ⟨s, hrun, hs⟩ := b.run_denotes
  have hshift := b.shift_content_le hb
  have hmembers : s.keys.all.toFinset = b.content.members := by
    ext k
    rw [List.mem_toFinset, hs.members]
  refine ⟨s, hrun, hs.valid, hs.shift, ?_, ?_, ?_, ?_, ?_, b.masked_content⟩
  · rw [KeySet.width, hs.shift]
    omega
  · exact Nat.sub_le ..
  · intro h
    rw [KeySet.contains, HashSet.contains_iff hs.valid, hs.members, hs.key]
  · rw [KeySet.len, HashSet.len_eq hs.valid, ← List.toFinset_card_of_nodup hs.valid.nodup_all,
      hmembers]
  · intro r
    have hperm := HashSet.InPlace.all_perm r s.keys
    refine ⟨hperm.nodup_iff.mpr hs.valid.nodup_all, ?_⟩
    rw [List.toFinset_eq_of_perm _ _ hperm, hmembers]

/-- A runtime that lists maps in the order of their keys and clears what is behind a slice. -/
def plainRuntime (n : ℕ) : Runtime (FixedBytes n) where
  toMapOrder := keyOrder (FixedBytes n)
  spare s := List.replicate s.pending.card (.ofValue n 0)
  length_spare _ := List.length_replicate

/-- A set of whole keys that holds a hash and is given a key of 32 bits. -/
def narrowedBuild : KeySetBuild :=
  .addAll (.add (.adoptSortedKeysAt [] 64) (plainRuntime 8) (.ofValue 32 (2 ^ 200 + 2 ^ 192)))
    (plainRuntime 8) (.adoptSortedKeysAt [.ofValue 8 (2 ^ 40)] 32)

theorem keySet_denotes_prefixSet_narrowed :
    ∃ s, narrowedBuild.run = .ok s ∧ s.width = 32 ∧ s.len = 2 := by
  have hwidths : narrowedBuild.Widths := ⟨⟨by decide, by decide⟩, by decide, by decide⟩
  obtain ⟨s, hrun, _, hshift, _, _, _, hlen, _⟩ := keySet_denotes_prefixSet narrowedBuild hwidths
  refine ⟨s, hrun, ?_, ?_⟩
  · rw [KeySet.width, hshift]
    decide +kernel
  · rw [hlen]
    decide +kernel

end GoBuildCache
