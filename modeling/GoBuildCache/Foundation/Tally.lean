import GoBuildCache.Foundation.FiniteMap

/-!
# Tallies

A tally is a finite map from names to integers. A name that is not in it counts as zero. `total` is
the sum of the counts; it is what a loop over the map adds up, in whatever order the map is listed
(`sum_values`).
-/

/-- A finite map of counts. -/
abbrev Tally (α : Type) : Type := Finmap fun _ : α => ℤ

namespace Tally

variable {α : Type} [DecidableEq α] {t : Tally α} {a : α}

/-- The count of a name. -/
def count (t : Tally α) (a : α) : ℤ :=
  (t.lookup a).getD 0

/-- The sum of the counts. -/
def total (t : Tally α) : ℤ :=
  ∑ a ∈ t.keys, t.count a

lemma count_insert (t : Tally α) (a b : α) (n : ℤ) :
    count (t.insert a n) b = if b = a then n else t.count b := by
  split_ifs with h
  · rw [h, count, Finmap.lookup_insert, Option.getD_some]
  · rw [count, Finmap.lookup_insert_of_ne _ h, count]

lemma count_of_notMem (h : a ∉ t.keys) : t.count a = 0 := by
  rw [count, Finmap.lookup_eq_none.mpr fun hmem => h (Finmap.mem_keys.mpr hmem), Option.getD_none]

lemma keys_insert (t : Tally α) (a : α) (n : ℤ) : (t.insert a n).keys = insert a t.keys := by
  ext b
  rw [Finmap.mem_keys, Finmap.mem_insert, Finset.mem_insert, Finmap.mem_keys]

@[simp]
lemma total_empty : total (∅ : Tally α) = 0 := by
  simp [total]

/-- A count that changes changes the total. -/
lemma total_insert (t : Tally α) (a : α) (n : ℤ) :
    total (t.insert a n) = t.total - t.count a + n := by
  have hsum : ∑ b ∈ t.keys.erase a, count (t.insert a n) b = ∑ b ∈ t.keys.erase a, t.count b := by
    refine Finset.sum_congr rfl ?_
    intro b hb
    rw [count_insert, if_neg (Finset.ne_of_mem_erase hb)]
  have hrest : ∑ b ∈ t.keys.erase a, t.count b = t.total - t.count a := by
    by_cases ha : a ∈ t.keys
    · rw [total, ← Finset.sum_erase_add _ _ ha, add_sub_cancel_right]
    · rw [Finset.erase_eq_of_notMem ha, count_of_notMem ha, sub_zero, total]
  have hkeys : insert a t.keys = insert a (t.keys.erase a) := by
    ext b
    simp only [Finset.mem_insert, Finset.mem_erase]
    tauto
  rw [total, keys_insert, hkeys, Finset.sum_insert (Finset.notMem_erase a _), hsum, hrest,
    count_insert, if_pos rfl, add_comm]

/-- A count is at most the total, if no count is negative. -/
lemma count_le_total (h : ∀ b, 0 ≤ t.count b) (a : α) : t.count a ≤ t.total := by
  by_cases ha : a ∈ t.keys
  · exact Finset.single_le_sum (fun b _ => h b) ha
  · rw [count_of_notMem ha]
    exact Finset.sum_nonneg fun b _ => h b

/-- A loop over the map adds up the total. -/
lemma sum_values (order : MapOrder α) (t : Tally α) :
    ((order.values t.keys).map t.count).sum = t.total := by
  rw [total, Finset.sum, ← order.values_eq, Multiset.map_coe, Multiset.sum_coe]

end Tally
