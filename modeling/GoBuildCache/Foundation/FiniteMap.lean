import Mathlib

/-!
# Finite maps

Maps from keys to values with finitely many keys are those of Mathlib. A map can be listed in any
order (`MapOrder`), and inserting all its pairs, in whatever order, makes it again
(`insertAll_eq`).
-/

/-- The order in which a map lists its keys. -/
structure MapOrder (K : Type) where
  /-- The keys, in that order. -/
  values : Finset K → List K
  /-- Each is listed once. -/
  values_eq : ∀ keys, (values keys : Multiset K) = keys.val

lemma MapOrder.mem_values {K : Type} (order : MapOrder K) (keys : Finset K) (k : K) :
    k ∈ order.values keys ↔ k ∈ keys := by
  rw [← Multiset.mem_coe, order.values_eq, Finset.mem_val]

lemma MapOrder.perm_sort {K : Type} [LinearOrder K] (order : MapOrder K) (keys : Finset K) :
    (order.values keys).Perm (keys.sort (· ≤ ·)) :=
  Multiset.coe_eq_coe.mp ((order.values_eq keys).trans (keys.sort_eq _).symm)

/-- The order of the keys themselves. -/
def keyOrder (K : Type) [LE K] [DecidableLE K] [IsTrans K (· ≤ ·)]
    [Std.Antisymm fun a b : K => a ≤ b] [Std.Total fun a b : K => a ≤ b] : MapOrder K where
  values keys := keys.sort (· ≤ ·)
  values_eq keys := keys.sort_eq (· ≤ ·)

namespace Finmap

variable {α β : Type} [DecidableEq α] {m : Finmap fun _ : α => β} {ps : List (α × β)} {a : α}

/-- Inserts pairs one after the other. -/
def insertAll (m : Finmap fun _ : α => β) (ps : List (α × β)) : Finmap fun _ : α => β :=
  ps.foldl (fun m p => m.insert p.1 p.2) m

lemma lookup_insertAll_of_notMem (ha : ∀ p ∈ ps, p.1 ≠ a) :
    (m.insertAll ps).lookup a = m.lookup a := by
  induction ps generalizing m with
  | nil => rfl
  | cons p ps ih =>
    have hne : a ≠ p.1 := (ha p (List.mem_cons_self ..)).symm
    rw [insertAll, List.foldl_cons, ← insertAll, ih fun q hq => ha q (List.mem_cons_of_mem p hq),
      lookup_insert_of_ne _ hne]

/-- A key has the value of a map whose pairs are inserted. -/
lemma lookup_insertAll_of_mem {start : Finmap fun _ : α => β}
    (hpairs : ∀ p ∈ ps, m.lookup p.1 = some p.2) (ha : ∃ p ∈ ps, p.1 = a) :
    (start.insertAll ps).lookup a = m.lookup a := by
  induction ps generalizing start with
  | nil =>
    obtain ⟨p, hp, -⟩ := ha
    exact absurd hp List.not_mem_nil
  | cons p ps ih =>
    have hps : ∀ q ∈ ps, m.lookup q.1 = some q.2 := fun q hq =>
      hpairs q (List.mem_cons_of_mem p hq)
    rw [insertAll, List.foldl_cons, ← insertAll]
    by_cases hlater : ∃ q ∈ ps, q.1 = a
    · exact ih hps hlater
    · have hfirst : p.1 = a := by
        obtain ⟨q, hq, hqa⟩ := ha
        rcases List.mem_cons.mp hq with rfl | hq
        · exact hqa
        · exact absurd ⟨q, hq, hqa⟩ hlater
      rw [lookup_insertAll_of_notMem fun q hq hqa => hlater ⟨q, hq, hqa⟩, ← hfirst, lookup_insert,
        hpairs p (List.mem_cons_self ..)]

/-- Inserting pairs of a map makes the map, if all its keys are among them. -/
theorem insertAll_eq (hpairs : ∀ p ∈ ps, m.lookup p.1 = some p.2)
    (hkeys : ∀ a ∈ m, ∃ p ∈ ps, p.1 = a) : insertAll ∅ ps = m := by
  refine ext_lookup ?_
  intro a
  by_cases ha : a ∈ m
  · exact lookup_insertAll_of_mem hpairs (hkeys a ha)
  · have hnone : m.lookup a = none := lookup_eq_none.mpr ha
    rw [lookup_insertAll_of_notMem, hnone, lookup_empty]
    rintro p hp rfl
    exact absurd (hpairs p hp) (by simp [hnone])

end Finmap
