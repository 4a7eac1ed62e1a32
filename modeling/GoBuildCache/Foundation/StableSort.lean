import GoBuildCache.Foundation.SortedList

/-!
# Sorting by merging

Insertion sort is stable: elements that the order does not tell apart keep their places. If a list
is made of two parts that are sorted already, sorting it is merging the parts, the first one going
first where the order does not tell two elements apart (`insertionSort_append`). Binary search cuts
a list where a condition begins to hold (`take_search`, `drop_search`).
-/

namespace SortedList

/-! ## Merging two sorted parts -/

section Merge

variable {α : Type*} {r : α → α → Prop} [DecidableRel r]

/-- An element that comes before all of the first list is inserted as its head. -/
lemma orderedInsert_merge [IsTrans α r] {a : α} {xs : List α} (ha : ∀ x ∈ xs, r a x)
    (ys : List α) :
    (xs.merge ys (r · ·)).orderedInsert r a = (a :: xs).merge ys (r · ·) := by
  induction ys with
  | nil =>
    cases xs with
    | nil => simp
    | cons x xs => simp [ha x]
  | cons y ys ih =>
    by_cases hay : r a y
    · have hhead : (a :: xs).merge (y :: ys) (r · ·) = a :: xs.merge (y :: ys) (r · ·) := by
        simp [hay]
      rw [hhead]
      cases xs with
      | nil => simp [hay]
      | cons x xs =>
        rw [List.cons_merge_cons]
        split_ifs
        · simp [ha x]
        · simp [hay]
    · -- nothing of the first list comes before `y` either, so `y` heads both sides
      have hskip : xs.merge (y :: ys) (r · ·) = y :: xs.merge ys (r · ·) := by
        cases xs with
        | nil => simp
        | cons x xs =>
          have hxy : ¬ r x y := fun h => hay (IsTrans.trans _ _ _ (ha x (List.mem_cons_self ..)) h)
          simp [hxy]
      rw [hskip, List.cons_merge_cons]
      simp only [decide_eq_true_eq, hay, if_false]
      rw [List.orderedInsert, if_neg hay, ih]

/-- Sorting a list made of two sorted parts is merging them. -/
theorem insertionSort_append [IsTrans α r] {xs ys : List α} (hxs : xs.Pairwise r)
    (hys : ys.Pairwise r) : (xs ++ ys).insertionSort r = xs.merge ys (r · ·) := by
  induction xs with
  | nil => simpa using hys.insertionSort_eq
  | cons x xs ih =>
    obtain ⟨hx, hxs⟩ := List.pairwise_cons.mp hxs
    rw [List.cons_append, List.insertionSort_cons, ih hxs, orderedInsert_merge hx]

omit [DecidableRel r] in
/-- A merge only compares elements of the first list with elements of the second. -/
lemma merge_congr {le le' : α → α → Bool} {xs ys : List α}
    (h : ∀ x ∈ xs, ∀ y ∈ ys, le x y = le' x y) : xs.merge ys le = xs.merge ys le' := by
  induction xs generalizing ys with
  | nil => simp
  | cons x xs ihx =>
    induction ys with
    | nil => simp
    | cons y ys ihy =>
      rw [List.cons_merge_cons, List.cons_merge_cons, h x (by simp) y (by simp)]
      have hx : xs.merge (y :: ys) le = xs.merge (y :: ys) le' :=
        ihx fun x' hx' y' hy' => h x' (by simp [hx']) y' hy'
      have hy := ihy fun x' hx' y' hy' => h x' hx' y' (by simp [hy'])
      rw [hx, hy]

end Merge

/-! ## Cutting a list by binary search -/

section Cut

variable {α : Type*} (p : α → Bool) {f : ℕ → Bool} {l : List α}

/-- A condition that stays true along the list holds exactly from the index on that the search
returns. -/
lemma search_le_iff (hp : l.Pairwise fun a b => p a = true → p b = true)
    (hf : ∀ i (hi : i < l.length), f i = p l[i]) {k : ℕ} (hk : k < l.length) :
    p l[k] = true ↔ search l.length f ≤ k := by
  rw [← hf k hk]
  refine search_spec (fun i j hij hj hi => ?_) hk
  rw [hf j hj]
  rw [hf i (by omega)] at hi
  rcases hij.eq_or_lt with rfl | hlt
  · exact hi
  · exact List.pairwise_iff_getElem.mp hp i j (by omega) hj hlt hi

/-- The part before the index is where the condition fails. -/
lemma not_of_mem_take_search (hp : l.Pairwise fun a b => p a = true → p b = true)
    (hf : ∀ i (hi : i < l.length), f i = p l[i]) {a : α}
    (ha : a ∈ l.take (search l.length f)) : p a = false := by
  obtain ⟨k, hk, rfl⟩ := List.mem_take_iff_getElem.mp ha
  by_contra h
  have hkl : k < l.length := by omega
  have hle := (search_le_iff p hp hf hkl).mp (by simpa using h)
  omega

/-- The part from the index on is where it holds. -/
lemma of_mem_drop_search (hp : l.Pairwise fun a b => p a = true → p b = true)
    (hf : ∀ i (hi : i < l.length), f i = p l[i]) {a : α}
    (ha : a ∈ l.drop (search l.length f)) : p a = true := by
  obtain ⟨k, hk, rfl⟩ := List.mem_drop_iff_getElem.mp ha
  exact (search_le_iff p hp hf (by omega)).mpr (by omega)

theorem drop_search (hp : l.Pairwise fun a b => p a = true → p b = true)
    (hf : ∀ i (hi : i < l.length), f i = p l[i]) :
    l.drop (search l.length f) = l.filter p := by
  have hbefore : (l.take (search l.length f)).filter p = [] :=
    List.filter_eq_nil_iff.mpr fun a ha => by simp [not_of_mem_take_search p hp hf ha]
  have hafter : (l.drop (search l.length f)).filter p = l.drop (search l.length f) :=
    List.filter_eq_self.mpr fun a ha => of_mem_drop_search p hp hf ha
  conv_rhs => rw [← List.take_append_drop (search l.length f) l, List.filter_append, hbefore,
    hafter, List.nil_append]

theorem take_search (hp : l.Pairwise fun a b => p a = true → p b = true)
    (hf : ∀ i (hi : i < l.length), f i = p l[i]) :
    l.take (search l.length f) = l.filter (!p ·) := by
  have hbefore : (l.take (search l.length f)).filter (!p ·) = l.take (search l.length f) :=
    List.filter_eq_self.mpr fun a ha => by simp [not_of_mem_take_search p hp hf ha]
  have hafter : (l.drop (search l.length f)).filter (!p ·) = [] :=
    List.filter_eq_nil_iff.mpr fun a ha => by simp [of_mem_drop_search p hp hf ha]
  conv_rhs => rw [← List.take_append_drop (search l.length f) l, List.filter_append, hbefore,
    hafter, List.append_nil]

/-- Two searches cut out the part between them. -/
theorem drop_take_search (p' : α → Bool) {f' : ℕ → Bool}
    (hp : l.Pairwise fun a b => p a = true → p b = true)
    (hp' : l.Pairwise fun a b => p' a = true → p' b = true)
    (hf : ∀ i (hi : i < l.length), f i = p l[i]) (hf' : ∀ i (hi : i < l.length), f' i = p' l[i]) :
    (l.take (search l.length f')).drop (search l.length f) = l.filter fun a => p a && !p' a := by
  rw [← List.filter_filter, ← take_search p' hp' hf']
  set lo := search l.length f with hlo
  set hi := search l.length f'
  have hbefore : ((l.take hi).take lo).filter p = [] := by
    refine List.filter_eq_nil_iff.mpr fun a ha => ?_
    rw [List.take_take] at ha
    simp [not_of_mem_take_search p hp hf (List.take_subset_take_left l (Nat.min_le_left lo hi) ha)]
  have hafter : ((l.take hi).drop lo).filter p = (l.take hi).drop lo := by
    refine List.filter_eq_self.mpr fun a ha => ?_
    rw [List.drop_take] at ha
    exact of_mem_drop_search p hp hf (List.mem_of_mem_take ha)
  conv_rhs => rw [← List.take_append_drop lo (l.take hi), List.filter_append, hbefore, hafter,
    List.nil_append]

end Cut

end SortedList
