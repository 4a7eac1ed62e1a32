import GoBuildCache.Foundation.Parties
import GoBuildCache.Foundation.Transition

/-!
# The pool that prepares uploads

`submit` hands a job to the workers of the pool through a buffered channel, unless the pool is
closing. `Close` closes the `stop` channel and waits for the workers. A worker that sees the `stop`
channel closed prepares what is left in the buffer and ends when it finds the buffer empty.

A `select` with two ready cases takes either one: a `submit` under way when the pool closes may
still put its job into the buffer. If a worker is left, it prepares the job; if all have ended,
nobody does, and `await` blocks for ever (`submit_after_drain`). As long as that does not happen,
each job whose `submit` returned true is prepared exactly once (`accepted_prepared`).
-/

open Transition

namespace GoBuildCache

/-- Where a worker is. -/
inductive PrepWorker (J : Type) where
  /-- It waits for a job or for the pool to close. -/
  | selecting
  /-- It has received a job; the flag says whether it has seen the pool close. -/
  | preparing (job : J) (closing : Bool)
  /-- It has prepared a job. -/
  | counting (closing : Bool)
  /-- It has seen the pool close, and looks for what is left. -/
  | draining
  /-- It has ended. -/
  | ended
  deriving DecidableEq

/-- Whether a worker has ended. -/
def PrepWorker.isEnded {J : Type} : PrepWorker J → Bool
  | .ended => true
  | _ => false

/-- Where a call of `submit` is. -/
inductive SubmitState where
  /-- It has counted the job, and waits for room or for the pool to close. -/
  | selecting
  /-- It has returned true. -/
  | accepted
  /-- It has returned false. -/
  | refused
  deriving DecidableEq

/-- A call of `submit`. -/
structure Submit (J : Type) where
  /-- The job. -/
  job : J
  /-- Where the call is. -/
  state : SubmitState
  deriving DecidableEq

/-- The pool. -/
structure PrepPool (J : Type) where
  /-- How many jobs the buffer of the channel holds. -/
  capacity : ℕ
  /-- The buffer. -/
  jobs : List J
  /-- Whether the `stop` channel is closed. -/
  stop : Bool
  /-- The workers. -/
  workers : List (PrepWorker J)
  /-- The calls of `submit` so far. -/
  submits : List (Submit J)
  /-- Jobs submitted and not prepared yet. -/
  pending : ℤ
  /-- The jobs that `prepare` has been called with. -/
  prepared : List J
  /-- Whether `Close` has returned. -/
  closeReturned : Bool

namespace PrepPool

variable {J : Type}

/-- What can happen. -/
inductive Label (J : Type) where
  /-- `submit` is called. -/
  | submit (job : J)
  /-- The `i`-th `submit` puts its job into the channel. -/
  | send (i : ℕ)
  /-- The `i`-th `submit` sees the pool close. -/
  | refuse (i : ℕ)
  /-- `Close` is called. -/
  | close
  /-- `Close` returns. -/
  | closeReturns
  /-- A worker receives a job. -/
  | receive (w : ℕ)
  /-- A worker sees the pool close. -/
  | seeStop (w : ℕ)
  /-- A worker prepares its job. -/
  | prepare (w : ℕ)
  /-- A worker counts its job as prepared. -/
  | count (w : ℕ)
  /-- A worker finds the buffer empty. -/
  | finish (w : ℕ)

/-- A worker moves. -/
def moveWorker (p : PrepPool J) (w : ℕ) (state : PrepWorker J) : PrepPool J :=
  { p with workers := p.workers.set w state }

/-- A call of `submit` moves. -/
def moveSubmit (p : PrepPool J) (i : ℕ) (c : Submit J) (state : SubmitState) : PrepPool J :=
  { p with submits := p.submits.set i { c with state := state } }

/-- The worker after it has prepared a job. -/
def resumed (closing : Bool) : PrepWorker J :=
  if closing then .draining else .selecting

/-- One step. -/
def step (p : PrepPool J) : Label J → Option (PrepPool J)
  | .submit job =>
    some { p with submits := p.submits ++ [⟨job, .selecting⟩], pending := p.pending + 1 }
  | .send i => p.submits[i]?.bind fun c =>
    if c.state = .selecting ∧ p.jobs.length < p.capacity then
      some { p.moveSubmit i c .accepted with jobs := p.jobs ++ [c.job] }
    else none
  | .refuse i => p.submits[i]?.bind fun c =>
    if c.state = .selecting ∧ p.stop = true then
      some { p.moveSubmit i c .refused with pending := p.pending - 1 }
    else none
  | .close => if p.stop then none else some { p with stop := true }
  | .closeReturns =>
    if p.stop = true ∧ p.workers.all PrepWorker.isEnded = true then
      some { p with closeReturned := true }
    else none
  | .receive w => p.workers[w]?.bind fun state =>
    match state, p.jobs with
    | .selecting, job :: jobs => some { p.moveWorker w (.preparing job false) with jobs := jobs }
    | .draining, job :: jobs => some { p.moveWorker w (.preparing job true) with jobs := jobs }
    | _, _ => none
  | .seeStop w => p.workers[w]?.bind fun state =>
    match state with
    | .selecting => if p.stop then some (p.moveWorker w .draining) else none
    | _ => none
  | .prepare w => p.workers[w]?.bind fun state =>
    match state with
    | .preparing job closing =>
      some { p.moveWorker w (.counting closing) with prepared := p.prepared ++ [job] }
    | _ => none
  | .count w => p.workers[w]?.bind fun state =>
    match state with
    | .counting closing =>
      some { p.moveWorker w (resumed closing) with pending := p.pending - 1 }
    | _ => none
  | .finish w => p.workers[w]?.bind fun state =>
    match state, p.jobs with
    | .draining, [] => some (p.moveWorker w .ended)
    | _, _ => none

/-- A new pool. -/
def newPrepPool (workers : ℕ) : PrepPool J :=
  ⟨workers * 4, [], false, List.replicate workers .selecting, [], 0, [], false⟩

/-! ## Jobs and counts -/

/-- The job of a `submit` that has returned true. -/
def acceptedJob (c : Submit J) : Multiset J :=
  match c.state with
  | .accepted => {c.job}
  | _ => 0

/-- Whether a `submit` has counted its job and not returned. -/
def underWay (c : Submit J) : ℕ :=
  match c.state with
  | .selecting => 1
  | _ => 0

/-- The job that a worker has not prepared yet. -/
def heldJob : PrepWorker J → Multiset J
  | .preparing job _ => {job}
  | _ => 0

/-- Whether a worker has a job that is not counted as prepared. -/
def busy : PrepWorker J → ℕ
  | .preparing _ _ => 1
  | .counting _ => 1
  | _ => 0

/-- The jobs whose `submit` has returned true. -/
def accepted (p : PrepPool J) : Multiset J :=
  (p.submits.map acceptedJob).sum

/-- The jobs that workers hold. -/
def held (p : PrepPool J) : Multiset J :=
  (p.workers.map heldJob).sum

variable {p p' t : PrepPool J} {w i : ℕ}

/-- What holds at any time. -/
structure Inv (p : PrepPool J) : Prop where
  /-- An accepted job has been prepared, is held by a worker or is in the buffer. -/
  balance : p.accepted = p.prepared + p.jobs + p.held
  /-- The count of the pool. -/
  pending : p.pending =
    (p.submits.map underWay).sum + p.jobs.length + (p.workers.map busy).sum
  /-- The last worker leaves nothing in the buffer. -/
  drained : p.workers.all PrepWorker.isEnded = true → p.jobs = []
  /-- `Close` waits for the workers. -/
  closed : p.closeReturned = true → p.workers.all PrepWorker.isEnded = true

lemma inv_new (workers : ℕ) : Inv (newPrepPool workers : PrepPool J) where
  balance := by simp [accepted, held, newPrepPool, heldJob]
  pending := by simp [newPrepPool, busy]
  drained _ := rfl
  closed h := by cases h

/-- A step of a worker. -/
lemma Inv.worker {state state' : PrepWorker J} {jobs prepared : List J} {pending : ℤ} (h : p.Inv)
    (hw : p.workers[w]? = some state) (hleft : state.isEnded = false)
    (hjobs : (p.prepared + p.jobs + heldJob state : Multiset J) =
      prepared + jobs + heldJob state')
    (hpending : pending + p.jobs.length + busy state = p.pending + jobs.length + busy state')
    (hdrained : state'.isEnded = true → jobs = []) :
    Inv { p.moveWorker w state' with jobs := jobs, prepared := prepared, pending := pending } where
  balance := by
    have hheld := Parties.sum_map_set heldJob hw state'
    have hbefore := h.balance
    simp only [accepted, held] at hbefore
    simp only [accepted, held, moveWorker]
    refine add_right_cancel (b := heldJob state) ?_
    calc (p.submits.map acceptedJob).sum + heldJob state
        = p.prepared + p.jobs + heldJob state + (p.workers.map heldJob).sum := by
          rw [hbefore, add_right_comm]
      _ = prepared + jobs + ((p.workers.map heldJob).sum + heldJob state') := by
          rw [hjobs, add_assoc, add_comm (heldJob state')]
      _ = _ := by
          rw [← hheld, ← add_assoc]
  pending := by
    have hbusy := Parties.sum_map_set busy hw state'
    have hbefore := h.pending
    simp only [moveWorker]
    omega
  drained := by
    intro hended
    refine hdrained (List.all_eq_true.mp hended state' ?_)
    exact List.mem_set (List.getElem?_eq_some_iff.mp hw).1 state'
  closed := by
    intro hclosed
    have hended := List.all_eq_true.mp (h.closed hclosed) state (List.mem_of_getElem? hw)
    rw [hleft] at hended
    cases hended

/-- A worker without a job receives one. -/
lemma Inv.receive {state : PrepWorker J} {job : J} {jobs : List J} (h : p.Inv)
    (hw : p.workers[w]? = some state) (hleft : state.isEnded = false) (hheld : heldJob state = 0)
    (hbusy : busy state = 0) (hjobs : p.jobs = job :: jobs) (closing : Bool) :
    Inv { p.moveWorker w (.preparing job closing) with jobs := jobs } := by
  refine h.worker hw hleft ?_ ?_ fun hended => by cases hended
  · have hcons : ((job :: jobs : List J) : Multiset J) = jobs + {job} := by
      rw [← Multiset.cons_coe, ← Multiset.singleton_add, add_comm]
    rw [hheld, hjobs, hcons, add_zero, ← add_assoc]
    rfl
  · have hone : busy (.preparing job closing) = 1 := rfl
    simp only [hjobs, hbusy, hone, List.length_cons, moveWorker]
    omega

/-- A worker prepares the job that it holds. -/
lemma Inv.prepare {job : J} {closing : Bool} (h : p.Inv)
    (hw : p.workers[w]? = some (.preparing job closing)) :
    Inv { p.moveWorker w (.counting closing) with prepared := p.prepared ++ [job] } := by
  refine h.worker hw rfl ?_ rfl fun hended => by cases hended
  rw [← Multiset.coe_add, Multiset.coe_singleton]
  simp only [heldJob, moveWorker, add_zero]
  exact add_right_comm _ _ _

/-- A worker counts the job that it has prepared. -/
lemma Inv.count {closing : Bool} (h : p.Inv) (hw : p.workers[w]? = some (.counting closing)) :
    Inv { p.moveWorker w (resumed closing) with pending := p.pending - 1 } := by
  refine h.worker hw rfl ?_ ?_ ?_
  · cases closing <;> rfl
  · cases closing <;> simp [busy, resumed, moveWorker] <;> ring
  · cases closing <;> simp [resumed, PrepWorker.isEnded]

/-- A `submit` begins. -/
lemma Inv.enter (h : p.Inv) (job : J) :
    Inv { p with submits := p.submits ++ [⟨job, .selecting⟩], pending := p.pending + 1 } where
  balance := by
    have hbefore := h.balance
    simpa [accepted, held, acceptedJob] using hbefore
  pending := by
    have hbefore := h.pending
    simp only [List.map_append, List.sum_append, List.map_singleton, List.sum_singleton, underWay]
    omega
  drained := h.drained
  closed := h.closed

/-- A `submit` returns. -/
lemma Inv.submit {c : Submit J} {state : SubmitState} {jobs : List J} {pending : ℤ} (h : p.Inv)
    (hc : p.submits[i]? = some c) (hselecting : c.state = .selecting)
    (hjobs : (jobs : Multiset J) = p.jobs + acceptedJob { c with state := state })
    (hpending : pending + p.jobs.length + 1 =
      p.pending + jobs.length + underWay { c with state := state })
    (hdrained : p.workers.all PrepWorker.isEnded = true → jobs = p.jobs) :
    Inv { p.moveSubmit i c state with jobs := jobs, pending := pending } where
  balance := by
    have haccepted := Parties.sum_map_set acceptedJob hc { c with state := state }
    have hbefore := h.balance
    simp only [accepted, held] at hbefore
    have hnone : acceptedJob c = 0 := by simp [acceptedJob, hselecting]
    simp only [accepted, held, moveSubmit]
    rw [hnone, add_zero, hbefore] at haccepted
    rw [haccepted, hjobs]
    abel
  pending := by
    have hsum := Parties.sum_map_set underWay hc { c with state := state }
    have hbefore := h.pending
    have hone : underWay c = 1 := by simp [underWay, hselecting]
    simp only [moveSubmit]
    omega
  drained := by
    intro hended
    exact (hdrained hended).trans (h.drained hended)
  closed := h.closed

/-- A job goes into the channel only as long as a worker is left. -/
def WorkerLeft (p : PrepPool J) : Label J → Prop
  | .send _ => p.workers.all PrepWorker.isEnded = false
  | _ => True

instance (p : PrepPool J) (l : Label J) : Decidable (p.WorkerLeft l) := by
  cases l <;> unfold WorkerLeft <;> infer_instance

lemma Inv.step {l : Label J} (h : p.Inv) (hleft : p.WorkerLeft l)
    (hp' : step p l = some p') : p'.Inv := by
  cases l with
  | submit job =>
    obtain rfl := Option.some.inj hp'
    exact h.enter job
  | send i =>
    obtain ⟨c, hc, hp'⟩ := Option.bind_eq_some_iff.mp hp'
    split_ifs at hp' with hready
    obtain rfl := Option.some.inj hp'
    refine h.submit hc hready.1 ?_ ?_ ?_
    · exact (Multiset.coe_add p.jobs [c.job]).symm
    · simp only [List.length_append, List.length_singleton, underWay, moveSubmit]
      omega
    · intro hended
      rw [WorkerLeft, hended] at hleft
      cases hleft
  | refuse i =>
    obtain ⟨c, hc, hp'⟩ := Option.bind_eq_some_iff.mp hp'
    split_ifs at hp' with hready
    obtain rfl := Option.some.inj hp'
    refine h.submit hc hready.1 ?_ ?_ fun _ => rfl
    · exact (add_zero _).symm
    · simp only [underWay, moveSubmit]
      omega
  | close =>
    simp only [PrepPool.step] at hp'
    split_ifs at hp'
    obtain rfl := Option.some.inj hp'
    exact ⟨h.balance, h.pending, h.drained, h.closed⟩
  | closeReturns =>
    simp only [PrepPool.step] at hp'
    split_ifs at hp' with hready
    obtain rfl := Option.some.inj hp'
    exact ⟨h.balance, h.pending, h.drained, fun _ => hready.2⟩
  | receive w =>
    obtain ⟨state, hw, hp'⟩ := Option.bind_eq_some_iff.mp hp'
    split at hp'
    · rename_i job jobs hjobs
      obtain rfl := Option.some.inj hp'
      exact h.receive hw rfl rfl rfl hjobs false
    · rename_i job jobs hjobs
      obtain rfl := Option.some.inj hp'
      exact h.receive hw rfl rfl rfl hjobs true
    · cases hp'
  | seeStop w =>
    obtain ⟨state, hw, hp'⟩ := Option.bind_eq_some_iff.mp hp'
    split at hp'
    · split_ifs at hp'
      obtain rfl := Option.some.inj hp'
      exact h.worker hw rfl rfl rfl fun hended => by cases hended
    · cases hp'
  | prepare w =>
    obtain ⟨state, hw, hp'⟩ := Option.bind_eq_some_iff.mp hp'
    split at hp'
    · obtain rfl := Option.some.inj hp'
      exact h.prepare hw
    · cases hp'
  | count w =>
    obtain ⟨state, hw, hp'⟩ := Option.bind_eq_some_iff.mp hp'
    split at hp'
    · obtain rfl := Option.some.inj hp'
      exact h.count hw
    · cases hp'
  | finish w =>
    obtain ⟨state, hw, hp'⟩ := Option.bind_eq_some_iff.mp hp'
    split at hp'
    · rename_i hjobs
      obtain rfl := Option.some.inj hp'
      exact h.worker hw rfl rfl rfl fun _ => hjobs
    · cases hp'

/-! ## What becomes of accepted jobs -/

lemma held_eq_zero (hended : p.workers.all PrepWorker.isEnded = true) :
    p.held = 0 ∧ (p.workers.map busy).sum = 0 := by
  have hall : ∀ state ∈ p.workers, heldJob state = 0 ∧ busy state = 0 := by
    intro state hstate
    have hone := List.all_eq_true.mp hended state hstate
    cases state with
    | ended => exact ⟨rfl, rfl⟩
    | _ => cases hone
  constructor
  · rw [held, List.map_eq_map_iff.mpr fun state hstate => (hall state hstate).1]
    simp
  · rw [List.map_eq_map_iff.mpr fun state hstate => (hall state hstate).2]
    simp

/-- Whether a worker can receive, prepare or count a job. -/
def goesOn (p : PrepPool J) (w : ℕ) : Bool :=
  (p.step (.receive w)).isSome || (p.step (.prepare w)).isSome || (p.step (.count w)).isSome

/-- A worker that has not ended can go on if there is a job in the buffer or one in its hands. -/
lemma goesOn_eq_true {state : PrepWorker J} (hw : p.workers[w]? = some state)
    (hjob : p.jobs ≠ [] ∧ state.isEnded = false ∨ heldJob state ≠ 0) : p.goesOn w = true := by
  rcases hjobs : p.jobs with _ | ⟨job, jobs⟩ <;> rcases state with _ | _ | _ | _ | _ <;>
    simp_all [goesOn, step, heldJob, PrepWorker.isEnded]

/-- An accepted job that has not been prepared is not forgotten: a worker can go on. -/
lemma Inv.exists_goesOn (h : p.Inv) (hleft : p.accepted ≠ p.prepared) :
    ∃ w, p.goesOn w = true := by
  by_cases hjobs : p.jobs = []
  · have hheld : p.held ≠ 0 := by
      intro hnone
      refine hleft ?_
      rw [h.balance, hjobs, hnone, Multiset.coe_nil, add_zero, add_zero]
    obtain ⟨state, hstate, hjob⟩ : ∃ state ∈ p.workers, heldJob state ≠ 0 := by
      by_contra hnone
      simp only [not_exists, not_and, not_not] at hnone
      refine hheld ?_
      rw [held, List.map_eq_map_iff.mpr hnone]
      simp
    obtain ⟨w, hw⟩ := List.mem_iff_getElem?.mp hstate
    exact ⟨w, goesOn_eq_true hw (.inr hjob)⟩
  · have hended : ¬ p.workers.all PrepWorker.isEnded = true := fun hended =>
      hjobs (h.drained hended)
    obtain ⟨state, hstate, hended⟩ : ∃ state ∈ p.workers, state.isEnded = false := by
      simpa using hended
    obtain ⟨w, hw⟩ := List.mem_iff_getElem?.mp hstate
    exact ⟨w, goesOn_eq_true hw (.inl ⟨hjobs, hended⟩)⟩

/-- Jobs are those whose `submit` returned true, and no others, with their multiplicities. As long
as no job goes into the channel of a pool whose workers have all ended: `prepare` is called with
accepted jobs only, and at most once for each; while one is left, a worker can go on; and when
`Close` and all calls of `submit` have returned, each has been prepared once and `await` does not
block. -/
theorem accepted_prepared (workers : ℕ) (ls : List (Label J))
    (hguard : Guarded step WorkerLeft (newPrepPool workers) ls)
    (hrun : run step (newPrepPool workers) ls = some t) :
    (t.prepared : Multiset J) ≤ t.accepted ∧ 0 ≤ t.pending ∧
      (t.accepted ≠ t.prepared → ∃ w, t.goesOn w = true) ∧
      (t.closeReturned = true → (∀ c ∈ t.submits, c.state ≠ .selecting) →
        t.accepted = t.prepared ∧ t.pending = 0) := by
  have hinv : t.Inv :=
    run_invariant (fun _ _ _ hs hleft h => hs.step hleft h) (inv_new workers) hguard hrun
  refine ⟨?_, ?_, hinv.exists_goesOn, ?_⟩
  · rw [hinv.balance, add_assoc]
    exact Multiset.le_add_right _ _
  · rw [hinv.pending]
    omega
  · intro hclosed hreturned
    have hended := hinv.closed hclosed
    obtain ⟨hheld, hbusy⟩ := held_eq_zero hended
    have hjobs := hinv.drained hended
    have hnone : (t.submits.map underWay).sum = 0 := by
      rw [List.sum_eq_zero]
      intro n hn
      obtain ⟨c, hc, rfl⟩ := List.mem_map.mp hn
      have hstate := hreturned c hc
      rcases hc' : c.state with _ | _ | _
      · exact absurd hc' hstate
      · simp [underWay, hc']
      · simp [underWay, hc']
    constructor
    · rw [hinv.balance, hheld, hjobs, Multiset.coe_nil, add_zero, add_zero]
    · rw [hinv.pending, hnone, hjobs, hbusy]
      rfl

/-- Two workers; one job is submitted before the pool closes, one after. -/
def closeAmidSubmits : List (Label ℕ) :=
  [.submit 7, .send 0, .submit 8, .close, .seeStop 0, .send 1, .receive 0, .prepare 0, .count 0,
    .receive 0, .prepare 0, .count 0, .finish 0, .seeStop 1, .finish 1, .closeReturns]

theorem accepted_prepared_closeAmidSubmits :
    ∃ t, run step (newPrepPool 2) closeAmidSubmits = some t ∧ t.prepared = [7, 8] ∧
      t.accepted = {7, 8} ∧ t.pending = 0 := by
  have hguard : Guarded step WorkerLeft (newPrepPool 2) closeAmidSubmits := by
    decide +kernel
  have hend : (run step (newPrepPool 2) closeAmidSubmits).map
      (fun t => (t.prepared, t.closeReturned, t.submits)) =
      some ([7, 8], true, [⟨7, .accepted⟩, ⟨8, .accepted⟩]) := by
    decide +kernel
  obtain ⟨t, hrun, hend⟩ := Option.map_eq_some_iff.mp hend
  simp only [Prod.mk.injEq] at hend
  obtain ⟨hprepared, hclosed, hsubmits⟩ := hend
  obtain ⟨-, -, -, hends⟩ := accepted_prepared 2 closeAmidSubmits hguard hrun
  obtain ⟨haccepted, hpending⟩ := hends hclosed (by rw [hsubmits]; decide)
  exact ⟨t, hrun, hprepared, by rw [haccepted, hprepared]; rfl, hpending⟩

/-- The pool closes while a `submit` is under way. Both workers find the buffer empty and end, and
then the `submit` puts its job into the buffer. -/
def sendAfterDrain : List (Label ℕ) :=
  [.submit 7, .close, .seeStop 0, .finish 0, .seeStop 1, .finish 1, .closeReturns, .send 0]

/-- A job whose `submit` has returned true is not prepared, and `await` blocks although `Close` and
all calls of `submit` have returned and the workers have ended. -/
theorem submit_after_drain :
    (run step (newPrepPool 2) sendAfterDrain).map
      (fun t => (t.submits, t.closeReturned, t.workers, t.prepared, t.pending)) =
      some ([⟨7, .accepted⟩], true, [.ended, .ended], [], 1) := by
  decide +kernel

end PrepPool

end GoBuildCache
