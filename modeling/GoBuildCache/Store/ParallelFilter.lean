import GoBuildCache.Foundation.Compaction
import GoBuildCache.Foundation.Parties
import GoBuildCache.Foundation.Transition
import GoBuildCache.Store.Serve

/-!
# The parallel filter

A batch request does its work for the single keys in parallel. The workers of `parallelFilter` take
the positions of the items from a shared counter and write what the function answers to the results;
when they have ended, the results that are to be kept are moved to the front of the same slice.

Every position is with one worker or done (`Inv.claims`), so that no result is written twice. From
this, and from the compaction in place, `parallelFilter_eq_selected`: whatever the schedule, each
item is passed to the function exactly once, and the result is that of a filter which goes through
the items one by one. `selected_mapIdx_serve` says that this is the filter with which the batch
reads are modelled.
-/

open Transition Compaction

namespace GoBuildCache

/-- Where a worker is. -/
inductive FilterWorker where
  /-- At the head of its loop. -/
  | idle
  /-- It has taken a position from the counter. -/
  | claimed (idx : ℕ)
  /-- It has called the function. -/
  | running (idx : ℕ)
  /-- It has found no item left. -/
  | ended
  deriving DecidableEq

/-- A call of `parallelFilter`. -/
structure ParallelFilter (R : Type) where
  /-- The next position. -/
  pos : ℕ
  /-- The workers. -/
  workers : List FilterWorker
  /-- What the function has answered. -/
  results : List R
  /-- Whether it is to be kept. -/
  kept : List Bool
  /-- The positions of the items that the function has been called with. -/
  calls : List ℕ
  /-- Those for which it has returned. -/
  returned : List ℕ
  /-- The result of the call. -/
  out : Option (List R)

namespace ParallelFilter

variable {T R : Type}

/-- What can happen. -/
inductive Label where
  /-- A worker takes the next position, under the lock. -/
  | claim (w : ℕ)
  /-- A worker calls the function. -/
  | call (w : ℕ)
  /-- The function returns, and the worker writes what it has answered. -/
  | finish (w : ℕ)
  /-- All workers have ended, and the results are compacted. -/
  | collect

/-- A worker moves. -/
def moveWorker (s : ParallelFilter R) (w : ℕ) (state : FilterWorker) : ParallelFilter R :=
  { s with workers := s.workers.set w state }

/-- One step. The function is called once for each item, so what it answers is a function of the
item and its position, whatever else it depends on. -/
def step (items : List T) (fn : ℕ → T → R × Bool) (s : ParallelFilter R) :
    Label → Option (ParallelFilter R)
  | .claim w => s.workers[w]?.bind fun state =>
    match state with
    | .idle =>
      if items.length ≤ s.pos then some { s.moveWorker w .ended with pos := s.pos + 1 }
      else some { s.moveWorker w (.claimed s.pos) with pos := s.pos + 1 }
    | _ => none
  | .call w => s.workers[w]?.bind fun state =>
    match state with
    | .claimed idx => some { s.moveWorker w (.running idx) with calls := s.calls ++ [idx] }
    | _ => none
  | .finish w => s.workers[w]?.bind fun state =>
    match state with
    | .running idx => items[idx]?.map fun item =>
      { s.moveWorker w .idle with
        results := s.results.set idx (fn idx item).1
        kept := s.kept.set idx (fn idx item).2
        returned := s.returned ++ [idx] }
    | _ => none
  | .collect =>
    if s.out.isNone = true ∧ ∀ state ∈ s.workers, state = .ended then
      some { s with out := some (compact s.results s.kept) }
    else none

/-- How many workers a request may have. -/
def batchKeyWorkers (gomaxprocs : ℕ) : ℕ :=
  max 4 gomaxprocs

/-- The start of a call. A single worker is the loop of the caller itself, which has the counter as
its variable. -/
def start [Inhabited R] (gomaxprocs : ℕ) (items : List T) : ParallelFilter R :=
  let n := items.length
  if n = 0 then ⟨0, [], [], [], [], [], some []⟩
  else
    ⟨0, List.replicate (min (batchKeyWorkers gomaxprocs) n) .idle, List.replicate n default,
      List.replicate n false, [], [], none⟩

/-! ## Who has a position -/

/-- The position that a worker has. -/
def held : FilterWorker → Multiset ℕ
  | .idle => 0
  | .claimed idx => {idx}
  | .running idx => {idx}
  | .ended => 0

/-- The position for which the function runs. -/
def inCall : FilterWorker → Multiset ℕ
  | .idle => 0
  | .claimed _ => 0
  | .running idx => {idx}
  | .ended => 0

/-- How many steps a worker has before it asks for the next position, and to end. -/
def stepsLeft : FilterWorker → ℕ
  | .idle => 1
  | .claimed _ => 3
  | .running _ => 2
  | .ended => 0

variable {items : List T} {fn : ℕ → T → R × Bool} {s s' t : ParallelFilter R} {w : ℕ}

/-- What holds at any time. -/
structure Inv (items : List T) (fn : ℕ → T → R × Bool) (s : ParallelFilter R) : Prop where
  /-- The results have the length of the items. -/
  results_length : s.results.length = items.length
  /-- So do the marks. -/
  kept_length : s.kept.length = items.length
  /-- A position that has been given out is with one worker, or done. -/
  claims : (s.workers.map held).sum + s.returned = Multiset.range (min s.pos items.length)
  /-- The function has been called for those that are done, and those for which it runs. -/
  calls : (s.workers.map inCall).sum + s.returned = s.calls
  /-- What the function has answered is in its place. -/
  written : ∀ idx ∈ s.returned, ∀ item, items[idx]? = some item →
    s.results[idx]? = some (fn idx item).1 ∧ s.kept[idx]? = some (fn idx item).2
  /-- A worker ends when no item is left. -/
  exhausted : .ended ∈ s.workers → items.length ≤ s.pos
  /-- There is a worker if there is an item. -/
  manned : items ≠ [] → s.workers ≠ []
  /-- The results are compacted when all workers have ended. -/
  collected : ∀ out ∈ s.out,
    (∀ state ∈ s.workers, state = .ended) ∧ out = compact s.results s.kept

lemma inv_start [Inhabited R] (gomaxprocs : ℕ) (items : List T) (fn : ℕ → T → R × Bool) :
    Inv items fn (start gomaxprocs items) := by
  by_cases hn : items.length = 0
  · have hnil : items = [] := List.length_eq_zero_iff.mp hn
    subst hnil
    constructor <;> simp [start, compact, compactRounds]
  · have hworkers : min (batchKeyWorkers gomaxprocs) items.length ≠ 0 := by
      unfold batchKeyWorkers
      omega
    rw [start, if_neg hn]
    constructor <;> simp [held, inCall, hworkers]

/-- Every step is of one of these kinds. -/
lemma step_cases {l : Label} (h : step items fn s l = some s') :
    (∃ w, s.workers[w]? = some .idle ∧ items.length ≤ s.pos ∧
      s' = { s.moveWorker w .ended with pos := s.pos + 1 }) ∨
    (∃ w, s.workers[w]? = some .idle ∧ s.pos < items.length ∧
      s' = { s.moveWorker w (.claimed s.pos) with pos := s.pos + 1 }) ∨
    (∃ w idx, s.workers[w]? = some (.claimed idx) ∧
      s' = { s.moveWorker w (.running idx) with calls := s.calls ++ [idx] }) ∨
    (∃ w idx item, s.workers[w]? = some (.running idx) ∧ items[idx]? = some item ∧
      s' = { s.moveWorker w .idle with
        results := s.results.set idx (fn idx item).1
        kept := s.kept.set idx (fn idx item).2
        returned := s.returned ++ [idx] }) ∨
    (s.out = none ∧ (∀ state ∈ s.workers, state = .ended) ∧
      s' = { s with out := some (compact s.results s.kept) }) := by
  cases l with
  | claim w =>
    obtain ⟨state, hw, h⟩ := Option.bind_eq_some_iff.mp h
    cases state with
    | idle =>
      dsimp only at h
      split_ifs at h with hlast
      · exact .inl ⟨w, hw, hlast, (Option.some.inj h).symm⟩
      · exact .inr (.inl ⟨w, hw, not_le.mp hlast, (Option.some.inj h).symm⟩)
    | claimed idx => cases h
    | running idx => cases h
    | ended => cases h
  | call w =>
    obtain ⟨state, hw, h⟩ := Option.bind_eq_some_iff.mp h
    cases state with
    | claimed idx => exact .inr (.inr (.inl ⟨w, idx, hw, (Option.some.inj h).symm⟩))
    | idle => cases h
    | running idx => cases h
    | ended => cases h
  | finish w =>
    obtain ⟨state, hw, h⟩ := Option.bind_eq_some_iff.mp h
    cases state with
    | running idx =>
      obtain ⟨item, hitem, rfl⟩ := Option.map_eq_some_iff.mp h
      exact .inr (.inr (.inr (.inl ⟨w, idx, item, hw, hitem, rfl⟩)))
    | idle => cases h
    | claimed idx => cases h
    | ended => cases h
  | collect =>
    simp only [step] at h
    split_ifs at h with hends
    exact .inr (.inr (.inr (.inr
      ⟨Option.isNone_iff_eq_none.mp hends.1, hends.2, (Option.some.inj h).symm⟩)))

/-- There is no result while a worker has not ended. -/
lemma Inv.out_eq_none (h : Inv items fn s) {state : FilterWorker}
    (hw : s.workers[w]? = some state) (hstate : state ≠ .ended) : s.out = none := by
  rcases hout : s.out with _ | out
  · rfl
  · exact absurd ((h.collected out hout).1 state (List.mem_of_getElem? hw)) hstate

/-- A position that a worker has is not done, and is one of the items. -/
lemma Inv.not_returned (h : Inv items fn s) {idx : ℕ} {state : FilterWorker}
    (hw : s.workers[w]? = some state) (hheld : held state = {idx}) :
    idx ∉ s.returned ∧ idx < items.length := by
  have hmem : idx ∈ (s.workers.map held).sum :=
    Multiset.mem_of_le (List.single_le_sum (fun _ _ => Multiset.zero_le _) _
      (List.mem_map_of_mem (List.mem_of_getElem? hw))) (by simp [hheld])
  have hnodup : ((s.workers.map held).sum + s.returned).Nodup := by
    rw [h.claims]
    exact Multiset.nodup_range _
  refine ⟨?_, ?_⟩
  · intro hdone
    exact Multiset.disjoint_left.mp (Multiset.nodup_add.mp hnodup).2.2 hmem (by simpa using hdone)
  · have hrange : idx ∈ Multiset.range (min s.pos items.length) := by
      rw [← h.claims]
      exact Multiset.mem_add.mpr (.inl hmem)
    exact (Multiset.mem_range.mp hrange).trans_le (min_le_right _ _)

/-- A step of a worker. -/
lemma Inv.move (h : Inv items fn s) {state state' : FilterWorker}
    (hw : s.workers[w]? = some state) (hstate : state ≠ .ended) {pos : ℕ} {results : List R}
    {kept : List Bool} {calls returned : List ℕ} (hpos : s.pos ≤ pos)
    (hends : state' = .ended → items.length ≤ pos)
    (hresults : results.length = items.length) (hkept : kept.length = items.length)
    (hclaims : returned + Multiset.range (min s.pos items.length) + held state' =
      s.returned + Multiset.range (min pos items.length) + held state)
    (hcalls : (returned + s.calls + inCall state' : Multiset ℕ) =
      s.returned + calls + inCall state)
    (hwritten : ∀ idx ∈ returned, ∀ item, items[idx]? = some item →
      results[idx]? = some (fn idx item).1 ∧ kept[idx]? = some (fn idx item).2) :
    Inv items fn { s.moveWorker w state' with
      pos := pos, results := results, kept := kept, calls := calls, returned := returned } where
  results_length := hresults
  kept_length := hkept
  claims := Parties.sum_map_set_add_eq held hw h.claims hclaims
  calls := Parties.sum_map_set_add_eq inCall hw h.calls hcalls
  written := hwritten
  exhausted hmem := by
    rcases List.mem_or_eq_of_mem_set hmem with hold | hnew
    · exact (h.exhausted hold).trans hpos
    · exact hends hnew.symm
  manned hitems := by simpa [moveWorker] using h.manned hitems
  collected out hout := by
    have hnone := h.out_eq_none hw hstate
    simp [moveWorker, hnone] at hout

lemma Inv.step {l : Label} (h : Inv items fn s) (hstep : step items fn s l = some s') :
    Inv items fn s' := by
  rcases step_cases hstep with ⟨w, hw, hlast, rfl⟩ | ⟨w, hw, hnext, rfl⟩ | ⟨w, idx, hw, rfl⟩ |
    ⟨w, idx, item, hw, hitem, rfl⟩ | ⟨hnone, hends, rfl⟩
  · refine h.move hw (by simp) (Nat.le_succ _) (fun _ => hlast.trans (Nat.le_succ _))
      h.results_length h.kept_length ?_ rfl h.written
    rw [min_eq_right hlast, min_eq_right (hlast.trans (Nat.le_succ _))]
    rfl
  · refine h.move hw (by simp) (Nat.le_succ _) (by simp) h.results_length h.kept_length ?_ rfl
      h.written
    simp only [moveWorker, held, min_eq_left hnext.le, min_eq_left (Nat.succ_le_of_lt hnext),
      Multiset.range_succ, ← Multiset.singleton_add, add_zero]
    abel
  · refine h.move hw (by simp) le_rfl (by simp) h.results_length h.kept_length rfl ?_ h.written
    simp only [moveWorker, inCall, ← Multiset.coe_add, Multiset.coe_singleton, add_zero,
      add_assoc]
  · obtain ⟨hnot, hlt⟩ := h.not_returned hw rfl
    refine h.move hw (by simp) le_rfl (by simp) ?_ ?_ ?_ ?_ ?_
    · rw [List.length_set, h.results_length]
    · rw [List.length_set, h.kept_length]
    · simp only [held, ← Multiset.coe_add, Multiset.coe_singleton, add_zero]
      abel
    · simp only [inCall, ← Multiset.coe_add, Multiset.coe_singleton, add_zero]
      abel
    · intro idx' hidx' item' hitem'
      rcases List.mem_append.mp hidx' with hold | hnew
      · have hne : idx ≠ idx' := fun heq => hnot (heq ▸ hold)
        rw [List.getElem?_set_ne hne, List.getElem?_set_ne hne]
        exact h.written idx' hold item' hitem'
      · obtain rfl := List.mem_singleton.mp hnew
        obtain rfl := Option.some.inj (hitem.symm.trans hitem')
        rw [List.getElem?_set_self (h.results_length.symm ▸ hlt),
          List.getElem?_set_self (h.kept_length.symm ▸ hlt)]
        exact ⟨rfl, rfl⟩
  · refine { h with collected := ?_ }
    intro out hout
    exact ⟨hends, (Option.some.inj hout).symm⟩

/-! ## Steps and result -/

/-- Whether the results still have to be compacted. -/
def collectLeft : Option (List R) → ℕ
  | none => 1
  | some _ => 0

/-- How many steps are left. -/
def cost (items : List T) (s : ParallelFilter R) : ℕ :=
  3 * (items.length - s.pos) + (s.workers.map stepsLeft).sum + collectLeft s.out

/-- Every step is one step less. -/
lemma cost_step {l : Label} (hstep : step items fn s l = some s') :
    cost items s' + 1 = cost items s := by
  rcases step_cases hstep with ⟨w, hw, hlast, rfl⟩ | ⟨w, hw, hnext, rfl⟩ | ⟨w, idx, hw, rfl⟩ |
    ⟨w, idx, item, hw, -, rfl⟩ | ⟨hnone, -, rfl⟩
  · have hsum := Parties.sum_map_set stepsLeft hw .ended
    simp only [stepsLeft] at hsum
    simp only [cost, moveWorker]
    omega
  · have hsum := Parties.sum_map_set stepsLeft hw (.claimed s.pos)
    simp only [stepsLeft] at hsum
    simp only [cost, moveWorker]
    omega
  · have hsum := Parties.sum_map_set stepsLeft hw (.running idx)
    simp only [stepsLeft] at hsum
    simp only [cost, moveWorker]
    omega
  · have hsum := Parties.sum_map_set stepsLeft hw .idle
    simp only [stepsLeft] at hsum
    simp only [cost, moveWorker]
    omega
  · simp only [cost, hnone, collectLeft]

lemma cost_run {ls : List Label} (hrun : run (step items fn) s ls = some t) :
    ls.length + cost items t = cost items s := by
  induction ls generalizing s with
  | nil =>
    obtain rfl : s = t := by simpa [run] using hrun
    simp
  | cons l ls ih =>
    obtain ⟨s', hstep, hrest⟩ := run_cons hrun
    have hone := cost_step hstep
    have hmore := ih hrest
    rw [List.length_cons]
    omega

/-- As long as there is no result, there is a step. -/
lemma Inv.progress (h : Inv items fn s) (hnone : s.out = none) :
    ∃ l s', ParallelFilter.step items fn s l = some s' := by
  by_cases hends : ∀ state ∈ s.workers, state = .ended
  · exact ⟨.collect, _, if_pos ⟨by rw [hnone]; rfl, hends⟩⟩
  · push Not at hends
    obtain ⟨state, hmem, hstate⟩ := hends
    obtain ⟨w, hw⟩ := List.mem_iff_getElem?.mp hmem
    cases state with
    | idle =>
      refine ⟨.claim w, ?_⟩
      simp only [ParallelFilter.step, hw, Option.bind_some]
      split_ifs
      · exact ⟨_, rfl⟩
      · exact ⟨_, rfl⟩
    | claimed idx =>
      refine ⟨.call w, ?_⟩
      simp only [ParallelFilter.step, hw, Option.bind_some]
      exact ⟨_, rfl⟩
    | running idx =>
      obtain ⟨-, hlt⟩ := h.not_returned hw rfl
      refine ⟨.finish w, ?_⟩
      simp only [ParallelFilter.step, hw, Option.bind_some, List.getElem?_eq_getElem hlt,
        Option.map_some]
      exact ⟨_, rfl⟩
    | ended => exact absurd rfl hstate

/-- No item is passed to the function twice. -/
lemma Inv.nodup_calls (h : Inv items fn s) :
    s.calls.Nodup ∧ ∀ idx ∈ s.calls, idx < items.length := by
  have hle : (s.calls : Multiset ℕ) ≤ Multiset.range (min s.pos items.length) := by
    rw [← h.calls, ← h.claims]
    refine add_le_add_left ?_ _
    refine List.Forall₂.sum_le_sum (List.forall₂_map_left_iff.mpr
      (List.forall₂_map_right_iff.mpr (List.forall₂_same.mpr ?_)))
    rintro (_ | _ | _ | _) - <;> simp [held, inCall]
  refine ⟨Multiset.coe_nodup.mp (Multiset.nodup_of_le hle (Multiset.nodup_range _)), ?_⟩
  intro idx hidx
  have hrange := Multiset.mem_of_le hle (Multiset.mem_coe.mpr hidx)
  exact (Multiset.mem_range.mp hrange).trans_le (min_le_right _ _)

/-- When all workers have ended, every item is done. -/
lemma Inv.all_returned (h : Inv items fn s) (hends : ∀ state ∈ s.workers, state = .ended) :
    (s.returned : Multiset ℕ) = Multiset.range items.length ∧
      (s.calls : Multiset ℕ) = Multiset.range items.length := by
  have hzero : ∀ f : FilterWorker → Multiset ℕ, f .ended = 0 → (s.workers.map f).sum = 0 := by
    intro f hf
    refine List.sum_eq_zero ?_
    intro x hx
    obtain ⟨state, hmem, rfl⟩ := List.mem_map.mp hx
    rw [hends state hmem, hf]
  have hpos : min s.pos items.length = items.length := by
    rcases eq_or_ne items [] with rfl | hitems
    · simp
    · obtain ⟨state, hmem⟩ := List.exists_mem_of_ne_nil _ (h.manned hitems)
      exact min_eq_right (h.exhausted (hends state hmem ▸ hmem))
  have hclaims := h.claims
  have hcalls := h.calls
  rw [hzero held rfl, zero_add, hpos] at hclaims
  rw [hzero inCall rfl, zero_add, hclaims] at hcalls
  exact ⟨hclaims, hcalls.symm⟩

/-- Then the results are what the function has answered, in the order of the items. -/
lemma Inv.zip_eq (h : Inv items fn s) (hends : ∀ state ∈ s.workers, state = .ended) :
    s.results.zip s.kept = items.mapIdx fn := by
  refine List.ext_getElem? ?_
  intro idx
  rw [List.getElem?_mapIdx]
  rcases hitem : items[idx]? with _ | item
  · have hout : items.length ≤ idx := List.getElem?_eq_none_iff.mp hitem
    rw [Option.map_none, List.getElem?_eq_none_iff, List.length_zip, h.results_length]
    exact (min_le_left _ _).trans hout
  · have hlt : idx < items.length := (List.getElem?_eq_some_iff.mp hitem).1
    have hmem : idx ∈ s.returned := by
      rw [← Multiset.mem_coe, (h.all_returned hends).1]
      exact Multiset.mem_range.mpr hlt
    obtain ⟨hresult, hkept⟩ := h.written idx hmem item hitem
    rw [List.getElem?_zip_eq_some.mpr ⟨hresult, hkept⟩]
    rfl

/-- For every schedule: no item is passed to the function twice, the schedule ends after a bounded
number of steps and only with a result, and the result is that of a filter which goes through the
items one by one, each of which has been passed to the function. -/
theorem parallelFilter_eq_selected [Inhabited R] (items : List T) (fn : ℕ → T → R × Bool)
    (gomaxprocs : ℕ) {ls : List Label} {t : ParallelFilter R}
    (hrun : run (step items fn) (start gomaxprocs items) ls = some t) :
    (t.calls.Nodup ∧ ∀ idx ∈ t.calls, idx < items.length) ∧
      ls.length ≤ 3 * items.length + min (batchKeyWorkers gomaxprocs) items.length + 1 ∧
      (t.out = none → ∃ l t', step items fn t l = some t') ∧
      ∀ out, t.out = some out →
        t.calls.Perm (List.range items.length) ∧ out = selected (items.mapIdx fn) := by
  have hinv : Inv items fn t :=
    run_invariant_of_step (fun _ _ _ h hstep => h.step hstep)
      (inv_start gomaxprocs items fn) hrun
  have hcost := cost_run hrun
  refine ⟨hinv.nodup_calls, ?_, hinv.progress, ?_⟩
  · have hstart : cost items (start gomaxprocs items : ParallelFilter R) ≤
        3 * items.length + min (batchKeyWorkers gomaxprocs) items.length + 1 := by
      rw [start]
      split_ifs with hn
      · simp [cost, hn, collectLeft]
      · simp [cost, stepsLeft, collectLeft]
    omega
  · intro out hout
    obtain ⟨hends, rfl⟩ := hinv.collected out hout
    refine ⟨Multiset.coe_eq_coe.mp (hinv.all_returned hends).2, ?_⟩
    rw [compact_eq_selected (hinv.kept_length.trans hinv.results_length.symm), hinv.zip_eq hends]

/-- Three items, of which the second is dropped, and a schedule of three workers. -/
theorem parallelFilter_eq_selected_threeItems :
    ∃ t : ParallelFilter ℕ,
      run (step [10, 20, 30] fun _ x => (x, x ≠ 20)) (start 2 [10, 20, 30])
        [.claim 0, .claim 1, .call 1, .claim 2, .call 0, .finish 1, .call 2, .claim 1, .finish 2,
          .finish 0, .claim 0, .claim 2, .collect] = some t ∧
      t.out = some [10, 30] ∧ t.calls.Perm (List.range 3) := by
  have hout : (run (step [10, 20, 30] fun _ x => (x, x ≠ 20)) (start 2 [10, 20, 30])
      [.claim 0, .claim 1, .call 1, .claim 2, .call 0, .finish 1, .call 2, .claim 1, .finish 2,
        .finish 0, .claim 0, .claim 2, .collect]).map (·.out) = some (some [10, 30]) := by
    decide +kernel
  obtain ⟨t, hrun, hresult⟩ := Option.map_eq_some_iff.mp hout
  obtain ⟨-, -, -, hall⟩ := parallelFilter_eq_selected [10, 20, 30] _ 2 hrun
  exact ⟨t, hrun, hresult, (hall _ hresult).1⟩

/-- The filter that carries the store from one item to the next keeps what is selected, where the
answer for an item is the one in the store that the items before it leave. -/
theorem selected_mapIdx_serve [Inhabited R] (fn : Storage → T → Option R × Storage) (s : Storage)
    (items : List T) :
    (Storage.parallelFilter fn s items).1 =
      selected (items.mapIdx fun i item =>
        let answer := (fn (Storage.parallelFilter fn s (items.take i)).2 item).1
        (answer.getD default, answer.isSome)) := by
  induction items generalizing s with
  | nil => rfl
  | cons item items ih =>
    rw [Storage.parallelFilter, List.mapIdx_cons, ih]
    rcases hanswer : (fn s item).1 with _ | answer
    · simp [selected, Storage.parallelFilter, hanswer]
    · simp [selected, Storage.parallelFilter, hanswer]

end ParallelFilter

end GoBuildCache
