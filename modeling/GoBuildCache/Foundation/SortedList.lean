import Mathlib

/-!
# Ascending lists as sets

A set of elements of a linear order is held as a strictly ascending list. `sortDedupe` makes one
from any list, `mergeDedupe` makes the union of two, `collapse` makes the image under a monotone
function, and `containsSorted` looks an element up by binary search. Each operation is described
by its members and by the fact that its result is strictly ascending again.
-/

namespace SortedList

variable {α β : Type*} [LinearOrder α] [LinearOrder β]

/-- The list is strictly ascending. -/
abbrev Ascending (l : List α) : Prop :=
  l.Pairwise (· < ·)

/-- A set has only one such list. -/
lemma Ascending.eq_of_mem_iff {a b : List α} (ha : Ascending a) (hb : Ascending b)
    (h : ∀ x, x ∈ a ↔ x ∈ b) : a = b := by
  have hperm : a.Perm b := (List.perm_ext_iff_of_nodup ha.nodup hb.nodup).mpr h
  exact hperm.eq_of_pairwise (fun x y _ _ hxy hyx => absurd (hxy.trans hyx) (lt_irrefl x)) ha hb

/-! ## Dropping repeated neighbours -/

omit [LinearOrder α] in
/-- Dropping an element that equals the one kept before it loses no member. -/
lemma mem_destutter_ne [DecidableEq α] {l : List α} {x : α} :
    x ∈ l.destutter (· ≠ ·) ↔ x ∈ l := by
  have haux : ∀ (l : List α) (a : α), x ∈ l.destutter' (· ≠ ·) a ↔ x = a ∨ x ∈ l := by
    intro l
    induction l with
    | nil => simp
    | cons b l ih =>
      intro a
      rw [List.destutter'_cons]
      split_ifs with hab
      · simp [ih]
      · obtain rfl : a = b := not_not.mp hab
        simp [ih]
  cases l with
  | nil => simp
  | cons a l => rw [List.destutter_cons', haux, List.mem_cons]

/-- Drops every element that equals the one kept before it. -/
def dropRepeats (l : List α) : List α :=
  l.destutter (· ≠ ·)

lemma dropRepeats_eq_dedup {l : List α} (hl : l.Pairwise (· ≤ ·)) : dropRepeats l = l.dedup :=
  hl.destutter_eq_dedup

@[simp]
lemma mem_dropRepeats {l : List α} {x : α} : x ∈ dropRepeats l ↔ x ∈ l :=
  mem_destutter_ne

/-- A list that ascends with repetitions ascends strictly without them. -/
lemma ascending_dropRepeats {l : List α} (hl : l.Pairwise (· ≤ ·)) :
    Ascending (dropRepeats l) := by
  rw [dropRepeats_eq_dedup hl]
  have hle : l.dedup.Pairwise (· ≤ ·) := hl.sublist l.dedup_sublist
  exact (hle.and l.nodup_dedup).imp fun h => lt_of_le_of_ne h.1 h.2

lemma length_dropRepeats_le (l : List α) : (dropRepeats l).length ≤ l.length :=
  (l.destutter_sublist (· ≠ ·)).length_le

/-! ## Sorting -/

/-- Sorts a list and drops repetitions. -/
def sortDedupe (l : List α) : List α :=
  dropRepeats (l.insertionSort (· ≤ ·))

@[simp]
lemma mem_sortDedupe {l : List α} {x : α} : x ∈ sortDedupe l ↔ x ∈ l := by
  rw [sortDedupe, mem_dropRepeats, List.mem_insertionSort]

lemma ascending_sortDedupe (l : List α) : Ascending (sortDedupe l) :=
  ascending_dropRepeats (List.pairwise_insertionSort (· ≤ ·) l)

lemma length_sortDedupe_le (l : List α) : (sortDedupe l).length ≤ l.length := by
  have h := length_dropRepeats_le (l.insertionSort (· ≤ ·))
  rwa [List.length_insertionSort] at h

/-! ## Merging -/

/-- Merges `x`, followed by what `rest` merges, into an ascending list. -/
def mergeHead (x : α) (rest : List α → List α) : List α → List α
  | [] => x :: rest []
  | y :: ys =>
    if x < y then x :: rest (y :: ys)
    else if y < x then y :: mergeHead x rest ys
    else x :: rest ys

/-- Merges two ascending lists, keeping an element of both once. -/
def mergeDedupe : List α → List α → List α
  | [], b => b
  | x :: xs, b => mergeHead x (mergeDedupe xs) b

lemma mem_mergeHead {x : α} {rest : List α → List α} {P : α → Prop}
    (hrest : ∀ ys z, z ∈ rest ys ↔ P z ∨ z ∈ ys) (b : List α) (z : α) :
    z ∈ mergeHead x rest b ↔ (z = x ∨ P z) ∨ z ∈ b := by
  induction b with
  | nil => simp [mergeHead, hrest]
  | cons y ys ih =>
    simp only [mergeHead]
    split_ifs with h₁ h₂
    · simp only [List.mem_cons, hrest]
      tauto
    · simp only [List.mem_cons, ih]
      tauto
    · have hxy : x = y := le_antisymm (not_lt.mp h₂) (not_lt.mp h₁)
      simp only [List.mem_cons, hrest, hxy]
      tauto

/-- The merge holds the elements of both lists. -/
@[simp]
lemma mem_mergeDedupe {a b : List α} {z : α} : z ∈ mergeDedupe a b ↔ z ∈ a ∨ z ∈ b := by
  induction a generalizing b z with
  | nil => simp [mergeDedupe]
  | cons x xs ih =>
    rw [mergeDedupe, mem_mergeHead (fun ys z => ih), List.mem_cons]

lemma ascending_mergeHead {x : α} {xs : List α} (hxs : ∀ z ∈ xs, x < z)
    (hrest : ∀ b, Ascending b → Ascending (mergeDedupe xs b)) {b : List α} (hb : Ascending b) :
    Ascending (mergeHead x (mergeDedupe xs) b) := by
  induction b with
  | nil =>
    refine List.pairwise_cons.mpr ⟨fun z hz => hxs z ?_, hrest [] List.Pairwise.nil⟩
    simpa using hz
  | cons y ys ih =>
    obtain ⟨hy, hys⟩ := List.pairwise_cons.mp hb
    simp only [mergeHead]
    split_ifs with h₁ h₂
    · refine List.pairwise_cons.mpr ⟨fun z hz => ?_, hrest _ hb⟩
      rcases mem_mergeDedupe.mp hz with hz | hz
      · exact hxs z hz
      · rcases List.mem_cons.mp hz with rfl | hz
        · exact h₁
        · exact h₁.trans (hy z hz)
    · refine List.pairwise_cons.mpr ⟨fun z hz => ?_, ih hys⟩
      have hz' : z ∈ mergeDedupe (x :: xs) ys := hz
      rcases mem_mergeDedupe.mp hz' with hz | hz
      · rcases List.mem_cons.mp hz with rfl | hz
        · exact h₂
        · exact h₂.trans (hxs z hz)
      · exact hy z hz
    · have hxy : x = y := le_antisymm (not_lt.mp h₂) (not_lt.mp h₁)
      refine List.pairwise_cons.mpr ⟨fun z hz => ?_, hrest _ hys⟩
      rcases mem_mergeDedupe.mp hz with hz | hz
      · exact hxs z hz
      · exact hxy ▸ hy z hz

/-- Merging two ascending lists gives an ascending list. -/
lemma ascending_mergeDedupe {a b : List α} (ha : Ascending a) (hb : Ascending b) :
    Ascending (mergeDedupe a b) := by
  induction a generalizing b with
  | nil => exact hb
  | cons x xs ih =>
    obtain ⟨hx, hxs⟩ := List.pairwise_cons.mp ha
    exact ascending_mergeHead hx (fun b hb => ih hxs hb) hb

/-! ## Images under a monotone function -/

/-- The image of an ascending list under a monotone function, repetitions dropped. -/
def collapse (f : α → β) (l : List α) : List β :=
  dropRepeats (l.map f)

lemma pairwise_map_of_monotone {f : α → β} (hf : Monotone f) {l : List α} (hl : Ascending l) :
    (l.map f).Pairwise (· ≤ ·) :=
  List.pairwise_map.mpr (hl.imp fun h => hf h.le)

omit [LinearOrder α] in
@[simp]
lemma mem_collapse {f : α → β} {l : List α} {y : β} :
    y ∈ collapse f l ↔ ∃ x ∈ l, f x = y := by
  rw [collapse, mem_dropRepeats, List.mem_map]

lemma ascending_collapse {f : α → β} (hf : Monotone f) {l : List α} (hl : Ascending l) :
    Ascending (collapse f l) :=
  ascending_dropRepeats (pairwise_map_of_monotone hf hl)

omit [LinearOrder α] in
lemma length_collapse_le (f : α → β) (l : List α) : (collapse f l).length ≤ l.length := by
  simpa [collapse] using length_dropRepeats_le (l.map f)

/-! ## Binary search -/

/-- The loop of a binary search between `i` and `j`; `fuel` bounds the number of rounds. -/
def searchLoop (f : ℕ → Bool) : ℕ → ℕ → ℕ → ℕ
  | 0, i, _ => i
  | fuel + 1, i, j =>
    if i < j then
      let h := (i + j) / 2
      if !f h then searchLoop f fuel (h + 1) j else searchLoop f fuel i h
    else i

/-- The smallest index below `n` at which the monotone predicate `f` holds, or `n`. -/
def search (n : ℕ) (f : ℕ → Bool) : ℕ :=
  searchLoop f n 0 n

/-- The loop narrows down to the border between the indices where `f` fails and holds. -/
lemma searchLoop_spec {f : ℕ → Bool} {n : ℕ} (hf : ∀ i j, i ≤ j → j < n → f i = true → f j = true)
    {fuel i j : ℕ} (hij : i ≤ j) (hjn : j ≤ n) (hfuel : j - i ≤ fuel)
    (hlow : ∀ k < i, f k = false) (hhigh : ∀ k, j ≤ k → k < n → f k = true) :
    ∀ k < n, (f k = true ↔ searchLoop f fuel i j ≤ k) := by
  induction fuel generalizing i j with
  | zero =>
    intro k hk
    have hji : j = i := by omega
    rw [searchLoop]
    constructor
    · intro h
      by_contra hlt
      simp [hlow k (by omega)] at h
    · intro h
      exact hhigh k (by omega) hk
  | succ fuel ih =>
    simp only [searchLoop]
    split_ifs with hlt hmid
    · refine ih (by omega) hjn (by omega) (fun k hk => ?_) hhigh
      by_contra hk'
      have hfk := hf k ((i + j) / 2) (by omega) (by omega) (by simpa using hk')
      simp [hfk] at hmid
    · refine ih (by omega) (by omega) (by omega) hlow fun k hk hkn => ?_
      exact hf _ k hk hkn (by simpa using hmid)
    · intro k hk
      constructor
      · intro h
        by_contra hki
        simp [hlow k (by omega)] at h
      · intro h
        exact hhigh k (by omega) hk

/-- Binary search on a monotone predicate: it holds exactly from the returned index on. -/
lemma search_spec {f : ℕ → Bool} {n : ℕ} (hf : ∀ i j, i ≤ j → j < n → f i = true → f j = true)
    {k : ℕ} (hk : k < n) : f k = true ↔ search n f ≤ k :=
  searchLoop_spec hf (Nat.zero_le n) le_rfl (by omega) (by simp) (by intros; omega) k hk

lemma searchLoop_le (f : ℕ → Bool) {fuel i j : ℕ} (hij : i ≤ j) : searchLoop f fuel i j ≤ j := by
  induction fuel generalizing i j with
  | zero => exact hij
  | succ fuel ih =>
    simp only [searchLoop]
    split_ifs
    · exact ih (by omega)
    · exact (ih (by omega)).trans (by omega)
    · exact hij

lemma search_le (n : ℕ) (f : ℕ → Bool) : search n f ≤ n :=
  searchLoop_le f (Nat.zero_le n)

/-- Looks an element up by binary search. -/
def containsSorted (l : List α) (x : α) : Bool :=
  l[search l.length fun k => l[k]?.any (x ≤ ·)]? == some x

/-- Binary search in an ascending list finds exactly its members. -/
lemma containsSorted_iff {l : List α} (hl : Ascending l) {x : α} :
    containsSorted l x = true ↔ x ∈ l := by
  have hmono : ∀ i j, i ≤ j → j < l.length →
      (l[i]?.any (x ≤ ·)) = true → (l[j]?.any (x ≤ ·)) = true := by
    intro i j hij hj hi
    rw [List.getElem?_eq_getElem (by omega)] at hi
    rw [List.getElem?_eq_getElem hj]
    rcases hij.eq_or_lt with rfl | hlt
    · exact hi
    · have hltl := List.pairwise_iff_getElem.mp hl i j (by omega) hj hlt
      simp only [Option.any_some, decide_eq_true_eq] at hi ⊢
      exact hi.trans hltl.le
  rw [containsSorted, beq_iff_eq]
  constructor
  · intro h
    exact List.mem_of_getElem? h
  · intro hx
    obtain ⟨k, hk, rfl⟩ := List.mem_iff_getElem.mp hx
    set i := search l.length fun m => l[m]?.any (l[k] ≤ ·) with hi
    have hik : i ≤ k := (search_spec hmono hk).mp (by simp [List.getElem?_eq_getElem hk])
    have hile : (l[i]?.any (l[k] ≤ ·)) = true := (search_spec hmono (by omega)).mpr le_rfl
    rw [List.getElem?_eq_getElem (by omega)] at hile ⊢
    rcases hik.eq_or_lt with heq | hlt
    · simp [heq]
    · have hltl := List.pairwise_iff_getElem.mp hl i k (by omega) hk hlt
      simp only [Option.any_some, decide_eq_true_eq] at hile
      exact absurd hltl (not_lt.mpr hile)

end SortedList
