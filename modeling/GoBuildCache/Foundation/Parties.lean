import Mathlib

/-!
# Systems of parties

The local states of the parties of a system are held in a list, and a step changes one of them. The
lemmas say what becomes of the others, of a sum over all parties, and of a relation between the
local states before and after the step.
-/

namespace Parties

variable {α : Type*} {l : List α} {i : ℕ} {a : α}

/-- Only the party that changes has another state. -/
lemma getElem?_set (h : l[i]? = some a) (b : α) (j : ℕ) :
    (l.set i b)[j]? = if j = i then some b else l[j]? := by
  obtain ⟨hi, -⟩ := List.getElem?_eq_some_iff.mp h
  rw [List.getElem?_set]
  by_cases hj : i = j
  · subst hj
    rw [if_pos rfl, if_pos hi, if_pos rfl]
  · rw [if_neg hj, if_neg (Ne.symm hj)]

lemma modify_eq_set (h : l[i]? = some a) (f : α → α) : l.modify i f = l.set i (f a) := by
  rw [List.modify_eq_set_getElem?, h]
  rfl

/-- A party keeps its state when others come. -/
lemma getElem?_append_of_eq_some (h : l[i]? = some a) (l' : List α) : (l ++ l')[i]? = some a :=
  (List.getElem?_append_left (List.getElem?_eq_some_iff.mp h).1).trans h

/-- A party of a system that one has come to. -/
lemma getElem?_concat_cases {b : α} (h : (l ++ [b])[i]? = some a) :
    l[i]? = some a ∨ i = l.length ∧ b = a := by
  obtain ⟨hi, -⟩ := List.getElem?_eq_some_iff.mp h
  rw [List.length_append, List.length_singleton] at hi
  rcases Nat.lt_succ_iff_lt_or_eq.mp hi with hlt | rfl
  · exact .inl ((List.getElem?_append_left hlt).symm.trans h)
  · exact .inr ⟨rfl, Option.some.inj (List.getElem?_concat_length.symm.trans h)⟩

/-- A sum changes by the difference. -/
lemma sum_map_set {M : Type*} [AddCommMonoid M] (w : α → M) (h : l[i]? = some a) (b : α) :
    ((l.set i b).map w).sum + w a = (l.map w).sum + w b := by
  induction l generalizing i with
  | nil => cases h
  | cons x l ih =>
    cases i with
    | zero =>
      obtain rfl : x = a := by simpa using h
      simp only [List.set_cons_zero, List.map_cons, List.sum_cons]
      abel
    | succ i =>
      have hrest := ih (i := i) (by simpa using h)
      simp only [List.set_cons_succ, List.map_cons, List.sum_cons, add_assoc, hrest]

/-- A balance between the parties and the rest of the system is kept, if what the party gains is
what the rest loses. -/
lemma sum_map_set_add_eq {M : Type*} [AddCancelCommMonoid M] (w : α → M) (h : l[i]? = some a)
    {b : α} {r total r' total' : M} (hbefore : (l.map w).sum + r = total)
    (hchange : r' + total + w b = r + total' + w a) : ((l.set i b).map w).sum + r' = total' := by
  have hset := sum_map_set w h b
  refine add_right_cancel (b := w a + r) ?_
  calc ((l.set i b).map w).sum + r' + (w a + r)
      = (((l.set i b).map w).sum + w a) + (r' + r) := by abel
    _ = ((l.map w).sum + r) + (r' + w b) := by rw [hset]; abel
    _ = r' + total + w b := by rw [hbefore]; abel
    _ = total' + (w a + r) := by rw [hchange]; abel

/-- A relation that holds of a party that changes, and of all others with themselves, holds between
the states before and after. -/
lemma forall₂_set {r : α → α → Prop} (hrefl : ∀ a ∈ l, r a a) (h : l[i]? = some a) {b : α}
    (hab : r a b) : List.Forall₂ r l (l.set i b) := by
  induction l generalizing i with
  | nil => cases h
  | cons x l ih =>
    rw [List.forall_mem_cons] at hrefl
    cases i with
    | zero =>
      obtain rfl : x = a := by simpa using h
      exact .cons hab (List.forall₂_same.mpr hrefl.2)
    | succ i => exact .cons hrefl.1 (ih hrefl.2 (by simpa using h))

end Parties
