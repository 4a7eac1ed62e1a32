import Mathlib

/-!
# Compaction in place

A filter may write what it keeps to the front of the storage that it reads from: it never writes
behind the element that it reads, so it does not lose one (`compact_eq_selected`).
-/

namespace Compaction

variable {α : Type*}

/-- One round of the loop: the element at `idx` is written behind the ones kept so far, if it is to
be kept. The state is the storage, and how many elements are kept. -/
def compactStep (kept : List Bool) (state : List α × ℕ) (idx : ℕ) : List α × ℕ :=
  match state.1[idx]?, kept[idx]? with
  | some x, some true => (state.1.set state.2 x, state.2 + 1)
  | _, _ => state

/-- The first `n` rounds of the loop. -/
def compactRounds (cells : List α) (kept : List Bool) (n : ℕ) : List α × ℕ :=
  (List.range n).foldl (compactStep kept) (cells, 0)

/-- What is in front after the loop. -/
def compact (cells : List α) (kept : List Bool) : List α :=
  let state := compactRounds cells kept cells.length
  state.1.take state.2

/-- The elements to be kept. -/
def selected (cells : List (α × Bool)) : List α :=
  cells.filterMap fun c => if c.2 then some c.1 else none

/-- What holds after `n` rounds. -/
structure Compacted (cells : List α) (kept : List Bool) (n : ℕ) (state : List α × ℕ) : Prop where
  /-- Writing is not ahead of reading. -/
  behind : state.2 ≤ n
  /-- What has not been read is as it was. -/
  unread : state.1.drop n = cells.drop n
  /-- What has been read and is to be kept is in front. -/
  front : state.1.take state.2 = selected ((cells.zip kept).take n)

variable {cells : List α} {kept : List Bool}

lemma Compacted.step {n : ℕ} {state : List α × ℕ} (h : Compacted cells kept n state)
    (hn : n < cells.length) (hkept : kept.length = cells.length) :
    Compacted cells kept (n + 1) (compactStep kept state n) := by
  have hunread : state.1.drop (n + 1) = cells.drop (n + 1) := by
    rw [← List.drop_drop, h.unread, List.drop_drop]
  have hread : state.1[n]? = some cells[n] := by
    have hhead := congrArg (fun l => l[0]?) h.unread
    simpa [List.getElem?_drop, List.getElem?_eq_getElem hn] using hhead
  have hnext : selected ((cells.zip kept).take (n + 1)) =
      selected ((cells.zip kept).take n) ++ if kept[n] then [cells[n]] else [] := by
    have hzip : n < (cells.zip kept).length := by simp [hkept, hn]
    rw [List.take_succ_eq_append_getElem hzip, selected, List.filterMap_append, selected,
      List.getElem_zip]
    cases kept[n] <;> simp
  cases hk : kept[n] with
  | false =>
    have hstep : compactStep kept state n = state := by
      simp [compactStep, hread, List.getElem?_eq_getElem (hkept ▸ hn), hk]
    rw [hstep]
    refine ⟨h.behind.trans (Nat.le_succ n), hunread, ?_⟩
    rw [hnext, h.front, hk]
    simp
  | true =>
    have hstep : compactStep kept state n = (state.1.set state.2 cells[n], state.2 + 1) := by
      simp [compactStep, hread, List.getElem?_eq_getElem (hkept ▸ hn), hk]
    have hroom : state.2 < state.1.length :=
      h.behind.trans_lt (List.getElem?_eq_some_iff.mp hread).1
    rw [hstep]
    refine ⟨Nat.succ_le_succ h.behind, ?_, ?_⟩
    · rw [List.drop_set_of_lt (Nat.lt_succ_of_le h.behind), hunread]
    · rw [hnext, ← h.front, hk]
      simp [List.take_add_one, hroom, List.take_set_of_le le_rfl]

/-- The elements to be kept are in front, in their order. -/
theorem compact_eq_selected (hkept : kept.length = cells.length) :
    compact cells kept = selected (cells.zip kept) := by
  have hrounds : ∀ n ≤ cells.length, Compacted cells kept n (compactRounds cells kept n) := by
    intro n
    induction n with
    | zero => exact fun _ => ⟨le_rfl, rfl, rfl⟩
    | succ n ih =>
      intro hn
      rw [compactRounds, List.range_succ, List.foldl_append]
      exact (ih (by omega)).step hn hkept
  have hall : (cells.zip kept).take cells.length = cells.zip kept :=
    List.take_of_length_le (by simp)
  exact (hrounds cells.length le_rfl).front.trans (congrArg selected hall)

end Compaction
