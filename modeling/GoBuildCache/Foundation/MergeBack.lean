import GoBuildCache.Foundation.Checked

/-!
# Merging into the free end of an array

A sorted list stands at the front of an array that has room for the elements of another sorted list.
The loop `mergeBack` fills the array from its end: it compares the last elements that are left of
both lists and writes the greater one. It never overwrites an element that it still has to read, and
it leaves the merge of both lists in the array, whatever stood in the free end before
(`mergeBack_eq_merge`).
-/

open Checked

namespace MergeBack

variable {α : Type} [LinearOrder α]

/-- The loop, with `i` elements of the array and `j` elements of `add` left. The next position to be
written is the one before `w`. -/
def mergeBack (add : List α) : ℕ → List α → ℕ → ℕ → ℕ → Checked (List α)
  | 0, buf, _, j, _ => if 0 < j then .error .unfinished else .ok buf
  | fuel + 1, buf, i, j, w =>
    if 0 < j then do
      let y ← get add (j - 1)
      if 0 < i then do
        let x ← get buf (i - 1)
        if y < x then do
          let buf ← set buf (w - 1) x
          mergeBack add fuel buf (i - 1) j (w - 1)
        else do
          let buf ← set buf (w - 1) y
          mergeBack add fuel buf i (j - 1) (w - 1)
      else do
        let buf ← set buf (w - 1) y
        mergeBack add fuel buf i (j - 1) (w - 1)
    else .ok buf

variable {xs ys gap done : List α} {x y : α}

/-! ## Merges of lists that end with a greatest element -/

/-- A sorted list of the elements of two sorted lists is their merge. -/
lemma merge_eq_of_perm {zs : List α} (hxs : xs.Pairwise (· ≤ ·)) (hys : ys.Pairwise (· ≤ ·))
    (hzs : zs.Pairwise (· ≤ ·)) (hperm : (xs ++ ys).Perm zs) : xs.merge ys (· ≤ ·) = zs :=
  List.Perm.eq_of_pairwise' (r := (· ≤ ·)) (hxs.merge hys) hzs
    ((List.merge_perm_append ..).trans hperm)

/-- A list stays sorted if an element is put at its end that is not less than any other. -/
lemma pairwise_concat {zs : List α} (hzs : zs.Pairwise (· ≤ ·)) (hle : ∀ a ∈ zs, a ≤ x) :
    (zs ++ [x]).Pairwise (· ≤ ·) := by
  refine List.pairwise_append.mpr ⟨hzs, List.pairwise_singleton _ x, ?_⟩
  intro a ha b hb
  rw [List.mem_singleton.mp hb]
  exact hle a ha

lemma le_last (hxs : (xs ++ [x]).Pairwise (· ≤ ·)) {a : α} (ha : a ∈ xs) : a ≤ x :=
  (List.pairwise_append.mp hxs).2.2 a ha x (List.mem_singleton_self x)

lemma forall_le_of_last_le (hxs : (xs ++ [x]).Pairwise (· ≤ ·)) (hxy : x ≤ y) :
    ∀ a ∈ xs ++ [x], a ≤ y := by
  intro a ha
  rcases List.mem_append.mp ha with ha | ha
  · exact (le_last hxs ha).trans hxy
  · exact (List.mem_singleton.mp ha).le.trans hxy

lemma merge_concat_left (hxs : (xs ++ [x]).Pairwise (· ≤ ·)) (hys : ys.Pairwise (· ≤ ·))
    (hle : ∀ b ∈ ys, b ≤ x) :
    (xs ++ [x]).merge ys (· ≤ ·) = xs.merge ys (· ≤ ·) ++ [x] := by
  have hinit : xs.Pairwise (· ≤ ·) := (List.pairwise_append.mp hxs).1
  refine merge_eq_of_perm hxs hys (pairwise_concat (hinit.merge hys) ?_) ?_
  · intro a ha
    rcases List.mem_merge.mp ha with ha | ha
    · exact le_last hxs ha
    · exact hle a ha
  · rw [List.append_assoc]
    refine (List.perm_append_comm.append_left xs).trans ?_
    rw [← List.append_assoc]
    exact (List.merge_perm_append ..).symm.append_right [x]

lemma merge_concat_right (hxs : xs.Pairwise (· ≤ ·)) (hys : (ys ++ [y]).Pairwise (· ≤ ·))
    (hle : ∀ a ∈ xs, a ≤ y) :
    xs.merge (ys ++ [y]) (· ≤ ·) = xs.merge ys (· ≤ ·) ++ [y] := by
  have hinit : ys.Pairwise (· ≤ ·) := (List.pairwise_append.mp hys).1
  refine merge_eq_of_perm hxs hys (pairwise_concat (hxs.merge hinit) ?_) ?_
  · intro a ha
    rcases List.mem_merge.mp ha with ha | ha
    · exact hle a ha
    · exact le_last hys ha
  · rw [← List.append_assoc]
    exact (List.merge_perm_append ..).symm.append_right [y]

/-! ## The loop -/

section Round

variable {rest : List α} {fuel : ℕ}

omit [LinearOrder α] in
/-- The last position of a gap is written. -/
lemma set_gap {n : ℕ} (hgap : gap.length = n + 1) (xs done : List α) :
    ∃ free, free.length = n ∧ ∀ z,
      set (xs ++ gap ++ done) (xs.length + n) z = .ok (xs ++ free ++ z :: done) := by
  rcases List.eq_nil_or_concat' gap with rfl | ⟨free, last, rfl⟩
  · exact absurd hgap (by simp)
  · have hfree : free.length = n := by simpa using hgap
    refine ⟨free, hfree, ?_⟩
    intro z
    have hsplit : xs ++ (free ++ [last]) ++ done = xs ++ free ++ last :: done := by simp
    rw [hsplit, ← hfree, ← List.length_append, set_append_cons]

/-- A round with an element of the array that is greater: it moves to the end of the gap, and its
own position becomes free. -/
lemma mergeBack_move (hgap : gap.length = ys.length + 1) (hlt : y < x) :
    ∃ free, free.length = ys.length + 1 ∧
      mergeBack (ys ++ y :: rest) (fuel + 1) (xs ++ [x] ++ gap ++ done) (xs.length + 1)
          (ys.length + 1) (xs.length + 1 + (ys.length + 1))
        = mergeBack (ys ++ y :: rest) fuel (xs ++ free ++ x :: done) xs.length (ys.length + 1)
          (xs.length + (ys.length + 1)) := by
  obtain ⟨free, hfree, hset⟩ := set_gap hgap (xs ++ [x]) done
  refine ⟨x :: free, by rw [List.length_cons, hfree], ?_⟩
  have hget : get (xs ++ [x] ++ gap ++ done) xs.length = .ok x := by
    rw [List.append_assoc, List.append_assoc]
    exact get_append_cons xs _ x
  rw [List.length_append, List.length_singleton] at hset
  rw [mergeBack, if_pos (Nat.succ_pos _), Nat.add_sub_cancel, get_append_cons, ok_bind,
    if_pos (Nat.succ_pos _), Nat.add_sub_cancel, hget, ok_bind, if_pos hlt, ← Nat.add_assoc,
    Nat.add_sub_cancel, hset, ok_bind]
  congr 1
  · simp
  · omega

/-- A round in which nothing that is left in the array is greater than the last element of the
other list. -/
lemma mergeBack_take (hgap : gap.length = ys.length + 1) (hle : ∀ a ∈ xs, a ≤ y) :
    ∃ free, free.length = ys.length ∧
      mergeBack (ys ++ y :: rest) (fuel + 1) (xs ++ gap ++ done) xs.length (ys.length + 1)
          (xs.length + (ys.length + 1))
        = mergeBack (ys ++ y :: rest) fuel (xs ++ free ++ y :: done) xs.length ys.length
          (xs.length + ys.length) := by
  obtain ⟨free, hfree, hset⟩ := set_gap hgap xs done
  refine ⟨free, hfree, ?_⟩
  rw [mergeBack, if_pos (Nat.succ_pos _), Nat.add_sub_cancel, get_append_cons, ok_bind,
    ← Nat.add_assoc, Nat.add_sub_cancel]
  rcases List.eq_nil_or_concat' xs with rfl | ⟨xs, x, rfl⟩
  · rw [if_neg (by simp), hset, ok_bind]
  · have hget : get (xs ++ [x] ++ gap ++ done) xs.length = .ok x := by
      rw [List.append_assoc, List.append_assoc]
      exact get_append_cons xs _ x
    have hlast : ¬ y < x := not_lt.mpr (hle x (by simp))
    rw [List.length_append, List.length_singleton] at hset ⊢
    rw [if_pos (Nat.succ_pos _), Nat.add_sub_cancel, hget, ok_bind, if_neg hlast, hset, ok_bind]

/-- What is left of both lists is merged before what has been written. -/
lemma mergeBack_of_gap (rest done : List α) (hfuel : xs.length + ys.length ≤ fuel)
    (hxs : xs.Pairwise (· ≤ ·)) (hys : ys.Pairwise (· ≤ ·)) (hgap : gap.length = ys.length) :
    mergeBack (ys ++ rest) fuel (xs ++ gap ++ done) xs.length ys.length (xs.length + ys.length)
      = .ok (xs.merge ys (· ≤ ·) ++ done) := by
  induction fuel generalizing xs ys gap done rest with
  | zero =>
    have hx : xs = [] := List.eq_nil_of_length_eq_zero (by omega)
    have hy : ys = [] := List.eq_nil_of_length_eq_zero (by omega)
    have hg : gap = [] := List.eq_nil_of_length_eq_zero (by simp [hgap, hy])
    simp [mergeBack, hx, hy, hg]
  | succ fuel ih =>
    rcases List.eq_nil_or_concat' ys with rfl | ⟨ys, y, rfl⟩
    · have hg : gap = [] := List.eq_nil_of_length_eq_zero hgap
      simp [mergeBack, hg]
    rw [List.length_append, List.length_singleton] at hfuel hgap ⊢
    rw [List.append_assoc, List.singleton_append]
    by_cases hle : ∀ a ∈ xs, a ≤ y
    · obtain ⟨free, hfree, hround⟩ := mergeBack_take hgap hle
      have hinit : ys.Pairwise (· ≤ ·) := (List.pairwise_append.mp hys).1
      rw [hround, ih _ _ (by omega) hxs hinit hfree, merge_concat_right hxs hys hle]
      simp
    · rcases List.eq_nil_or_concat' xs with rfl | ⟨xs, x, rfl⟩
      · exact absurd hle (by simp)
      have hlt : y < x := by
        by_contra hxy
        exact hle (forall_le_of_last_le hxs (not_lt.mp hxy))
      have hinit : xs.Pairwise (· ≤ ·) := (List.pairwise_append.mp hxs).1
      rw [List.length_append, List.length_singleton] at hfuel ⊢
      obtain ⟨free, hfree, hround⟩ := mergeBack_move hgap hlt
      have hlen : (ys ++ [y]).length = ys.length + 1 := List.length_append ..
      have hrec := ih rest (x :: done) (by rw [hlen]; omega) hinit hys
        (hfree.trans hlen.symm)
      rw [hlen, List.append_assoc, List.singleton_append] at hrec
      rw [hround, hrec, merge_concat_left hxs hys (forall_le_of_last_le hys hlt.le),
        List.append_assoc, List.singleton_append]

end Round

/-- The loop leaves the merge of both lists in the array. -/
theorem mergeBack_eq_merge (hxs : xs.Pairwise (· ≤ ·)) (hys : ys.Pairwise (· ≤ ·))
    (hgap : gap.length = ys.length) :
    mergeBack ys (xs.length + ys.length) (xs ++ gap) xs.length ys.length (xs.length + ys.length)
      = .ok (xs.merge ys (· ≤ ·)) := by
  have h := mergeBack_of_gap [] [] le_rfl hxs hys hgap
  simpa using h

end MergeBack
