import Mathlib

/-!
# Slots

The server works on a bounded number of requests at a time. A request takes a free slot if there is
one (`tryTake`), and otherwise waits in one of two queues (`take`): demand requests before
look-ahead ones. A slot that is released goes to the front of the first queue that is not empty, and
becomes free if both are (`releaseLocked`). A wait ends without the lock when the slot is granted,
the time is up or the context ends, so a grant and the end of a wait may cross; the waiter finds out
which was first when it takes the lock again (`settle`).
-/

namespace GoBuildCache

/-! ## The queue of slots -/

/-- Where a request is on its way through `admit`. -/
inductive AdmitStage where
  /-- It has arrived. -/
  | arrived
  /-- `tryTake` has found no free slot. -/
  | missed
  /-- It is in the `select` of `take`. -/
  | waiting
  /-- Its time is up or its context has ended, and it waits for the lock. -/
  | ended
  /-- It has been admitted. -/
  | admitted
  /-- It has been admitted, and has given its slot back. -/
  | released
  /-- It has been turned away. -/
  | refused
  deriving DecidableEq

/-- The free slots, and the requests that wait for one in the order of arrival. -/
structure SlotQueue where
  /-- The number of free slots. -/
  free : ℤ
  /-- The requests that a build waits for. -/
  demand : List ℕ
  /-- The requests that look ahead. -/
  prefetch : List ℕ

namespace SlotQueue

/-- How many requests wait. -/
def waiting (q : SlotQueue) : ℕ :=
  q.demand.length + q.prefetch.length

/-- Takes a free slot without waiting. -/
def tryTake (q : SlotQueue) : Bool × SlotQueue :=
  if q.free = 0 then (false, q) else (true, { q with free := q.free - 1 })

/-- Puts a request at the end of the queue of its class. -/
def pushBack (q : SlotQueue) (prefetch : Bool) (i : ℕ) : SlotQueue :=
  if prefetch then { q with prefetch := q.prefetch ++ [i] }
  else { q with demand := q.demand ++ [i] }

/-- Takes a request out of the queue of its class. -/
def remove (q : SlotQueue) (prefetch : Bool) (i : ℕ) : SlotQueue :=
  if prefetch then { q with prefetch := q.prefetch.erase i }
  else { q with demand := q.demand.erase i }

/-- The first half of `take`: the request is admitted, turned away or queued. -/
def take (q : SlotQueue) (maxQueued : ℕ) (prefetch : Bool) (i : ℕ) : AdmitStage × SlotQueue :=
  if 0 < q.free then (.admitted, { q with free := q.free - 1 })
  else if maxQueued ≤ q.waiting then (.refused, q)
  else (.waiting, q.pushBack prefetch i)

/-- Hands a slot to the front of the first queue that is not empty; `none` makes it free. -/
def releaseLocked (q : SlotQueue) : Option ℕ × SlotQueue :=
  match q.demand, q.prefetch with
  | i :: rest, _ => (some i, { q with demand := rest })
  | [], i :: rest => (some i, { q with prefetch := rest })
  | [], [] => (none, { q with free := q.free + 1 })

end SlotQueue

/-! ## Requests -/

/-- A request, with the `granted` flag of its waiter. -/
structure AdmitRequest where
  /-- Whether it looks ahead. -/
  prefetch : Bool
  /-- Where it is. -/
  stage : AdmitStage
  /-- Whether it has been handed a slot. -/
  granted : Bool
  /-- Whether its context has ended. -/
  ctxDone : Bool
  /-- How many requests were queued before it was. -/
  ticket : ℕ

namespace AdmitRequest

/-- The request has not come back from `take`. -/
def InTake (r : AdmitRequest) : Prop :=
  r.stage = .waiting ∨ r.stage = .ended

instance (r : AdmitRequest) : Decidable r.InTake :=
  inferInstanceAs (Decidable (_ ∨ _))

/-- The request waits for a slot. -/
def Queued (r : AdmitRequest) : Prop :=
  r.InTake ∧ r.granted = false

/-- The request has been handed a slot, and has not come back with it. -/
def Granted (r : AdmitRequest) : Prop :=
  r.InTake ∧ r.granted = true

instance (r : AdmitRequest) : Decidable r.Granted :=
  inferInstanceAs (Decidable (_ ∧ _))

/-- How many slots the request has. -/
def slots (r : AdmitRequest) : ℕ :=
  (if r.stage = .admitted then 1 else 0) + if r.Granted then 1 else 0

end AdmitRequest

/-- The slots, and all requests so far. -/
structure Admission where
  /-- The slots. -/
  slots : SlotQueue
  /-- The requests. -/
  requests : List AdmitRequest
  /-- How many requests have been queued. -/
  tickets : ℕ

namespace Admission

/-- Changes a request. -/
def set (s : Admission) (i : ℕ) (r : AdmitRequest) : Admission :=
  { s with requests := s.requests.set i r }

/-- Releases a slot, and tells the request that gets it. -/
def releaseLocked (s : Admission) : Admission :=
  { s with
    slots := s.slots.releaseLocked.2
    requests :=
      match s.slots.releaseLocked.1 with
      | none => s.requests
      | some i => s.requests.modify i fun r => { r with granted := true } }

/-- What a request, or its environment, does. -/
inductive Action where
  /-- It calls `tryTake`. -/
  | tryTake
  /-- It calls `take`. -/
  | take
  /-- It sees that it has been handed a slot. -/
  | ready
  /-- Its time is up. -/
  | timeout
  /-- Its context ends. -/
  | ctxEnd
  /-- It sees that its context has ended. -/
  | ctxDone
  /-- After the end of its wait, it takes the lock and comes back from `take`. -/
  | settle
  /-- It releases its admission. -/
  | release

/-- What can happen. -/
inductive Label where
  /-- A request arrives. -/
  | arrive (prefetch : Bool)
  /-- The `i`-th request does something. -/
  | act (i : ℕ) (a : Action)

/-- `tryTake` for a request. -/
def tryTake (s : Admission) (i : ℕ) (r : AdmitRequest) : Admission :=
  let tried := s.slots.tryTake
  { s with slots := tried.2 }.set i { r with stage := if tried.1 then .admitted else .missed }

/-- The first half of `take` for a request. A new waiter has been granted nothing. -/
def take (s : Admission) (maxQueued i : ℕ) (r : AdmitRequest) : Admission :=
  let entered := s.slots.take maxQueued r.prefetch i
  if entered.1 = .waiting then
    { s with
      slots := entered.2
      requests := s.requests.set i
        { r with stage := .waiting, granted := false, ticket := s.tickets }
      tickets := s.tickets + 1 }
  else { s with slots := entered.2 }.set i { r with stage := entered.1 }

/-- The second half of `take`, after the wait has ended. A request that has been handed a slot
meanwhile gives it back if its context has ended. -/
def settle (s : Admission) (i : ℕ) (r : AdmitRequest) : Admission :=
  if r.granted = false then
    { s with slots := s.slots.remove r.prefetch i }.set i { r with stage := .refused }
  else if r.ctxDone then (s.set i { r with stage := .refused }).releaseLocked
  else s.set i { r with stage := .admitted }

/-- The `i`-th request, which is `r`, does something; `none` if it cannot. -/
def advance (maxQueued : ℕ) (s : Admission) (i : ℕ) (r : AdmitRequest) : Action → Option Admission
  | .tryTake => if r.stage = .arrived then some (s.tryTake i r) else none
  | .take =>
    if r.stage = .arrived ∨ r.stage = .missed then some (s.take maxQueued i r) else none
  | .ready =>
    if r.stage = .waiting ∧ r.granted = true then some (s.set i { r with stage := .admitted })
    else none
  | .timeout => if r.stage = .waiting then some (s.set i { r with stage := .ended }) else none
  | .ctxEnd => some (s.set i { r with ctxDone := true })
  | .ctxDone =>
    if r.stage = .waiting ∧ r.ctxDone = true then some (s.set i { r with stage := .ended })
    else none
  | .settle => if r.stage = .ended then some (s.settle i r) else none
  | .release =>
    -- only the first release of an admission reaches the queue
    if r.stage = .admitted then some (s.set i { r with stage := .released }).releaseLocked
    else if r.stage = .released then some s
    else none

/-- One step. -/
def step (maxQueued : ℕ) (s : Admission) : Label → Option Admission
  | .arrive prefetch =>
    some { s with requests := s.requests ++ [⟨prefetch, .arrived, false, false, 0⟩] }
  | .act i a => s.requests[i]?.bind fun r => s.advance maxQueued i r a

/-- No request has arrived. -/
def start (n : ℕ) : Admission :=
  ⟨⟨n, [], []⟩, [], 0⟩

end Admission

end GoBuildCache
