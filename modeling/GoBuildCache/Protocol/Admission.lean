import GoBuildCache.Foundation.Parties
import GoBuildCache.Foundation.Transition
import GoBuildCache.Protocol.Slots

/-!
# Admission

In every state no slot is lost or made up, free slots and waiting requests exclude each other, and
grants go to the oldest request of the first class (`slots_conserved`). The queues list exactly the
requests that wait, in the order of their tickets (`Lists`), so a request that leaves the queue when
its wait ends leaves no trace, and a grant that crosses the end of a wait is given on.
-/

open Transition

namespace GoBuildCache

namespace Admission

/-! ## The invariant -/

/-- The ticket of a request. -/
def ticketOf (requests : List AdmitRequest) (i : ℕ) : ℕ :=
  (requests[i]?.map (·.ticket)).getD 0

/-- The list is the queue of a class, in the order of tickets. -/
structure Lists (requests : List AdmitRequest) (tickets : ℕ) (prefetch : Bool) (queue : List ℕ) :
    Prop where
  /-- It has the waiting requests of the class. -/
  mem : ∀ i, i ∈ queue ↔ ∃ r, requests[i]? = some r ∧ r.Queued ∧ r.prefetch = prefetch
  /-- Older ones come first. -/
  ordered : queue.Pairwise fun i j => ticketOf requests i < ticketOf requests j
  /-- Later requests get later tickets. -/
  fresh : ∀ i ∈ queue, ticketOf requests i < tickets

/-- The slots of all requests. -/
def slotsOut (s : Admission) : ℕ :=
  (s.requests.map (·.slots)).sum

/-- There are `n` slots, and the queues are in order. -/
structure Orderly (n : ℤ) (maxQueued : ℕ) (s : Admission) : Prop where
  /-- Every slot is free or with one request. -/
  conserved : s.slots.free + s.slotsOut = n
  /-- There is no debt of slots. -/
  nonneg : 0 ≤ s.slots.free
  /-- No request waits while a slot is free. -/
  exclusive : 0 < s.slots.free → s.slots.demand = [] ∧ s.slots.prefetch = []
  /-- The queues are bounded. -/
  bounded : s.slots.waiting ≤ maxQueued
  /-- The first queue. -/
  demand : Lists s.requests s.tickets false s.slots.demand
  /-- The second queue. -/
  prefetch : Lists s.requests s.tickets true s.slots.prefetch

section Queues

variable {requests : List AdmitRequest} {tickets i : ℕ} {r r' : AdmitRequest} {b : Bool}
  {queue : List ℕ}

lemma ticketOf_eq (hr : requests[i]? = some r) : ticketOf requests i = r.ticket := by
  rw [ticketOf, hr]
  rfl

/-- A ticket changes only with its request. -/
lemma ticketOf_set (hr : requests[i]? = some r) (hticket : r'.ticket = r.ticket) (j : ℕ) :
    ticketOf (requests.set i r') j = ticketOf requests j := by
  rw [ticketOf, ticketOf, Parties.getElem?_set hr]
  split_ifs with hj
  · rw [hj, hr, Option.map_some, Option.map_some, hticket]
  · rfl

lemma Lists.nodup (h : Lists requests tickets b queue) : queue.Nodup :=
  h.ordered.imp fun hlt => fun heq => by
    subst heq
    exact lt_irrefl _ hlt

/-- A request may change as long as it keeps its place. -/
lemma Lists.set (h : Lists requests tickets b queue) (hr : requests[i]? = some r)
    (hqueued : r'.Queued ↔ r.Queued) (hclass : r'.prefetch = r.prefetch)
    (hticket : r'.ticket = r.ticket) : Lists (requests.set i r') tickets b queue := by
  refine ⟨?_, ?_, ?_⟩
  · intro j
    rw [h.mem j, Parties.getElem?_set hr]
    split_ifs with hj
    · subst hj
      simp [hr, hqueued, hclass]
    · rfl
  · simp only [ticketOf_set hr hticket]
    exact h.ordered
  · intro j hj
    rw [ticketOf_set hr hticket]
    exact h.fresh j hj

/-- A new request that does not wait is in no queue. -/
lemma Lists.append (h : Lists requests tickets b queue) (hr : ¬ r.Queued) :
    Lists (requests ++ [r]) tickets b queue := by
  have hold : ∀ i ∈ queue, ticketOf (requests ++ [r]) i = ticketOf requests i := by
    intro i hi
    obtain ⟨r₀, hr₀, -⟩ := (h.mem i).mp hi
    rw [ticketOf, ticketOf, List.getElem?_append_left (List.getElem?_eq_some_iff.mp hr₀).1]
  refine ⟨?_, h.ordered.imp_of_mem ?_, ?_⟩
  · intro i
    rw [h.mem i]
    constructor
    · rintro ⟨r₀, hr₀, hqueued⟩
      refine ⟨r₀, ?_, hqueued⟩
      rw [List.getElem?_append_left (List.getElem?_eq_some_iff.mp hr₀).1, hr₀]
    · rintro ⟨r₀, hr₀, hqueued, hclass⟩
      rw [List.getElem?_append] at hr₀
      split_ifs at hr₀
      · exact ⟨r₀, hr₀, hqueued, hclass⟩
      · obtain rfl := List.mem_singleton.mp (List.mem_of_getElem? hr₀)
        exact absurd hqueued hr
  · intro i j hi hj hlt
    rw [hold _ hi, hold _ hj]
    exact hlt
  · intro i hi
    rw [hold i hi]
    exact h.fresh i hi

/-- A request that stops waiting leaves the queue. -/
lemma Lists.dequeue (h : Lists requests tickets b queue) (hr : requests[i]? = some r)
    (hqueued : ¬ r'.Queued) (hticket : r'.ticket = r.ticket) :
    Lists (requests.set i r') tickets b (queue.erase i) := by
  refine ⟨?_, ?_, ?_⟩
  · intro j
    rw [h.nodup.mem_erase_iff, h.mem j, Parties.getElem?_set hr]
    split_ifs with hj
    · simp [hj, hqueued]
    · simp [hj]
  · simp only [ticketOf_set hr hticket]
    exact h.ordered.sublist List.erase_sublist
  · intro j hj
    rw [ticketOf_set hr hticket]
    exact h.fresh j (List.mem_of_mem_erase hj)

/-- A request that starts to wait comes last in its queue. -/
lemma Lists.enqueue (h : Lists requests tickets b queue) (hr : requests[i]? = some r)
    (hidle : ¬ r.Queued) (hqueued : r'.Queued) (hticket : r'.ticket = tickets) :
    Lists (requests.set i r') (tickets + 1) b
      (if r'.prefetch = b then queue ++ [i] else queue) := by
  have hnot : i ∉ queue := by
    rw [h.mem i, hr]
    rintro ⟨r₀, hr₀, hq, -⟩
    obtain rfl := Option.some.inj hr₀
    exact hidle hq
  have hsame : ∀ j ∈ queue, ticketOf (requests.set i r') j = ticketOf requests j := by
    intro j hj
    have hne : j ≠ i := by
      rintro rfl
      exact hnot hj
    rw [ticketOf, Parties.getElem?_set hr, if_neg hne]
    rfl
  have hlast : ticketOf (requests.set i r') i = tickets := by
    rw [ticketOf, Parties.getElem?_set hr, if_pos rfl, Option.map_some, hticket]
    rfl
  have hmem : ∀ j, (∃ r₁, (requests.set i r')[j]? = some r₁ ∧ r₁.Queued ∧ r₁.prefetch = b) ↔
      j ∈ queue ∨ j = i ∧ r'.prefetch = b := by
    intro j
    rw [Parties.getElem?_set hr]
    split_ifs with hj
    · subst hj
      simp [hqueued, hnot]
    · simp [h.mem j, hj]
  have hordered : queue.Pairwise
      fun i₁ i₂ => ticketOf (requests.set i r') i₁ < ticketOf (requests.set i r') i₂ :=
    h.ordered.imp_of_mem fun hj hk hlt => by rwa [hsame _ hj, hsame _ hk]
  have hfresh : ∀ j ∈ queue, ticketOf (requests.set i r') j < tickets + 1 := fun j hj => by
    rw [hsame j hj]
    exact (h.fresh j hj).trans (Nat.lt_succ_self _)
  split_ifs with hclass
  · refine ⟨?_, ?_, ?_⟩
    · intro j
      rw [hmem j]
      simp [hclass]
    · refine List.pairwise_append.mpr ⟨hordered, List.pairwise_singleton _ _, fun j hj k hk => ?_⟩
      obtain rfl := List.mem_singleton.mp hk
      rw [hlast, hsame j hj]
      exact h.fresh j hj
    · intro j hj
      rcases List.mem_append.mp hj with hj | hj
      · exact hfresh j hj
      · obtain rfl := List.mem_singleton.mp hj
        rw [hlast]
        exact Nat.lt_succ_self _
  · refine ⟨?_, hordered, hfresh⟩
    intro j
    rw [hmem j]
    simp [hclass]

/-- The front of a queue is the oldest of its class. -/
lemma Lists.ticket_lt {rest : List ℕ} (h : Lists requests tickets b (i :: rest))
    (hr : requests[i]? = some r) {j : ℕ} (hj : requests[j]? = some r') (hqueued : r'.Queued)
    (hclass : r'.prefetch = b) (hne : j ≠ i) : r.ticket < r'.ticket := by
  have hmem : j ∈ rest := by
    have hcons := (h.mem j).mpr ⟨r', hj, hqueued, hclass⟩
    exact (List.mem_cons.mp hcons).resolve_left hne
  rw [← ticketOf_eq hr, ← ticketOf_eq hj]
  exact List.rel_of_pairwise_cons h.ordered hmem

end Queues

section Steps

variable {s : Admission} {n n' : ℤ} {maxQueued i : ℕ} {r r' : AdmitRequest}

lemma slotsOut_set (hr : s.requests[i]? = some r) (r' : AdmitRequest) :
    (s.set i r').slotsOut + r.slots = s.slotsOut + r'.slots :=
  Parties.sum_map_set AdmitRequest.slots hr r'

/-- A request changes in its place. -/
lemma Orderly.set (h : s.Orderly n maxQueued) (hr : s.requests[i]? = some r)
    (hqueued : r'.Queued ↔ r.Queued) (hclass : r'.prefetch = r.prefetch)
    (hticket : r'.ticket = r.ticket) (hn' : n' + r.slots = n + r'.slots) :
    (s.set i r').Orderly n' maxQueued where
  conserved := by
    have hsum := slotsOut_set hr r'
    have hn := h.conserved
    simp only [Admission.set] at hsum ⊢
    omega
  nonneg := h.nonneg
  exclusive := h.exclusive
  bounded := h.bounded
  demand := h.demand.set hr hqueued hclass hticket
  prefetch := h.prefetch.set hr hqueued hclass hticket

/-- A free slot is taken. -/
lemma Orderly.spend (h : s.Orderly n maxQueued) (hfree : 0 < s.slots.free) :
    ({ s with slots := { s.slots with free := s.slots.free - 1 } } : Admission).Orderly
      (n - 1) maxQueued where
  conserved := by
    have hn := h.conserved
    change s.slots.free - 1 + (s.slotsOut : ℤ) = n - 1
    omega
  nonneg := by
    change 0 ≤ s.slots.free - 1
    omega
  exclusive := fun _ => h.exclusive hfree
  bounded := h.bounded
  demand := h.demand
  prefetch := h.prefetch

/-- A waiting request leaves its queue. -/
lemma Orderly.dequeue (h : s.Orderly n maxQueued) (hr : s.requests[i]? = some r)
    (hqueued : ¬ r'.Queued) (hticket : r'.ticket = r.ticket) (hn' : n' + r.slots = n + r'.slots) :
    ({ s with slots := s.slots.remove r.prefetch i }.set i r').Orderly n' maxQueued := by
  have hother : ∀ {b queue}, Lists s.requests s.tickets b queue → r.prefetch ≠ b →
      queue.erase i = queue := by
    intro b queue hlist hclass
    refine List.erase_of_not_mem fun hi => hclass ?_
    obtain ⟨r₀, hr₀, -, hr₀class⟩ := (hlist.mem i).mp hi
    obtain rfl := Option.some.inj (hr.symm.trans hr₀)
    exact hr₀class
  have hslots : s.slots.remove r.prefetch i
      = ⟨s.slots.free, s.slots.demand.erase i, s.slots.prefetch.erase i⟩ := by
    unfold SlotQueue.remove
    split_ifs with hclass
    · rw [hother h.demand (by simp [hclass])]
    · rw [hother h.prefetch hclass]
  rw [hslots]
  refine ⟨?_, h.nonneg, ?_, ?_, h.demand.dequeue hr hqueued hticket,
    h.prefetch.dequeue hr hqueued hticket⟩
  · have hsum := slotsOut_set hr r'
    have hn := h.conserved
    change s.slots.free + ((s.set i r').slotsOut : ℤ) = _
    omega
  · intro hfree
    obtain ⟨hdemand, hprefetch⟩ := h.exclusive hfree
    change s.slots.demand.erase i = [] ∧ s.slots.prefetch.erase i = []
    rw [hdemand, hprefetch]
    exact ⟨rfl, rfl⟩
  · have hbound := h.bounded
    have hdemand := (List.erase_sublist (a := i) (l := s.slots.demand)).length_le
    have hprefetch := (List.erase_sublist (a := i) (l := s.slots.prefetch)).length_le
    change (s.slots.demand.erase i).length + (s.slots.prefetch.erase i).length ≤ maxQueued
    unfold SlotQueue.waiting at hbound
    omega

/-- A request starts to wait. -/
lemma Orderly.enqueue (h : s.Orderly n maxQueued) (hr : s.requests[i]? = some r)
    (hidle : ¬ r.Queued) (hqueued : r'.Queued) (hticket : r'.ticket = s.tickets)
    (hn' : n' + r.slots = n + r'.slots) (hfree : ¬ 0 < s.slots.free)
    (hroom : s.slots.waiting < maxQueued) :
    ({ s.set i r' with
        slots := s.slots.pushBack r'.prefetch i
        tickets := s.tickets + 1 } : Admission).Orderly n' maxQueued := by
  have hdemand := h.demand.enqueue hr hidle hqueued hticket
  have hprefetch := h.prefetch.enqueue hr hidle hqueued hticket
  have hsum := slotsOut_set hr r'
  have hn := h.conserved
  have hconserved : s.slots.free + ((s.set i r').slotsOut : ℤ) = n' := by omega
  rcases hclass : r'.prefetch with _ | _
  · rw [hclass, if_pos rfl] at hdemand
    rw [hclass, if_neg (by simp)] at hprefetch
    refine ⟨hconserved, h.nonneg, fun hpos => absurd hpos hfree, ?_, hdemand, hprefetch⟩
    change (s.slots.demand ++ [i]).length + s.slots.prefetch.length ≤ maxQueued
    unfold SlotQueue.waiting at hroom
    rw [List.length_append, List.length_singleton]
    omega
  · rw [hclass, if_neg (by simp)] at hdemand
    rw [hclass, if_pos rfl] at hprefetch
    refine ⟨hconserved, h.nonneg, fun hpos => absurd hpos hfree, ?_, hdemand, hprefetch⟩
    change s.slots.demand.length + (s.slots.prefetch ++ [i]).length ≤ maxQueued
    unfold SlotQueue.waiting at hroom
    rw [List.length_append, List.length_singleton]
    omega

/-! ## Grants -/

/-- Of the waiting requests, this one is first: it is of the first class if any is, and the oldest
of its class. -/
def Oldest (s : Admission) (i : ℕ) (r : AdmitRequest) : Prop :=
  r.Queued ∧ ∀ j r', s.requests[j]? = some r' → r'.Queued → j ≠ i →
    (r'.prefetch = false → r.prefetch = false) ∧ (r'.prefetch = r.prefetch → r.ticket < r'.ticket)

/-- A released slot becomes free, or goes to the first request. -/
lemma Orderly.releaseLocked_cases (h : s.Orderly n maxQueued) :
    s.slots.demand = [] ∧ s.slots.prefetch = [] ∧
        s.releaseLocked = { s with slots := { s.slots with free := s.slots.free + 1 } } ∨
      ∃ i r, s.requests[i]? = some r ∧ s.Oldest i r ∧ s.releaseLocked
        = { s with slots := s.slots.remove r.prefetch i }.set i { r with granted := true } := by
  rcases hdemand : s.slots.demand with _ | ⟨i, rest⟩
  · rcases hprefetch : s.slots.prefetch with _ | ⟨i, rest⟩
    · refine Or.inl ⟨rfl, rfl, ?_⟩
      simp [releaseLocked, SlotQueue.releaseLocked, hdemand, hprefetch]
    · right
      have hlist := h.prefetch
      rw [hprefetch] at hlist
      obtain ⟨r, hr, hqueued, hclass⟩ := (hlist.mem i).mp (List.mem_cons_self ..)
      refine ⟨i, r, hr,
        ⟨hqueued, fun j r' hj hqueued' hne => ⟨?_, ?_⟩⟩, ?_⟩
      · intro hclass'
        have hmem := (h.demand.mem j).mpr ⟨r', hj, hqueued', hclass'⟩
        rw [hdemand] at hmem
        cases hmem
      · intro heq
        exact hlist.ticket_lt hr hj hqueued' (heq.trans hclass) hne
      · simp [releaseLocked, SlotQueue.releaseLocked, hdemand, hprefetch, SlotQueue.remove, hclass,
          Admission.set, Parties.modify_eq_set hr]
  · right
    have hlist := h.demand
    rw [hdemand] at hlist
    obtain ⟨r, hr, hqueued, hclass⟩ := (hlist.mem i).mp (List.mem_cons_self ..)
    refine ⟨i, r, hr, ⟨hqueued, fun j r' hj hqueued' hne => ⟨fun _ => hclass, ?_⟩⟩, ?_⟩
    · intro heq
      exact hlist.ticket_lt hr hj hqueued' (heq.trans hclass) hne
    · simp [releaseLocked, SlotQueue.releaseLocked, hdemand, SlotQueue.remove, hclass,
        Admission.set, Parties.modify_eq_set hr]

/-- A release adds a slot. -/
lemma Orderly.releaseLocked (h : s.Orderly n maxQueued) :
    s.releaseLocked.Orderly (n + 1) maxQueued := by
  rcases h.releaseLocked_cases with ⟨hdemand, hprefetch, heq⟩ | ⟨i, r, hr, holdest, heq⟩
  all_goals rw [heq]
  · have hn := h.conserved
    have hfree := h.nonneg
    refine ⟨?_, ?_, fun _ => ⟨hdemand, hprefetch⟩, h.bounded, h.demand, h.prefetch⟩
    · change s.slots.free + 1 + (s.slotsOut : ℤ) = n + 1
      omega
    · change 0 ≤ s.slots.free + 1
      omega
  · obtain ⟨⟨htake, hgranted⟩, -⟩ := holdest
    have hbefore : r.slots = 0 := by
      rcases htake with hstage | hstage <;>
        simp [AdmitRequest.slots, AdmitRequest.Granted, hstage, hgranted]
    have hafter : ({ r with granted := true } : AdmitRequest).slots = 1 := by
      rcases htake with hstage | hstage <;>
        simp [AdmitRequest.slots, AdmitRequest.Granted, AdmitRequest.InTake, hstage]
    exact h.dequeue hr (fun hq => by simp [AdmitRequest.Queued] at hq) rfl
      (by rw [hbefore, hafter]; simp)

/-! ## Single steps -/

/-- A request outside `take` is in no queue, and has a slot if it is admitted. -/
lemma not_queued_of_not_inTake (hr : ¬ r.InTake) : ¬ r.Queued := fun hq => hr hq.1

lemma slots_of_not_inTake (hr : ¬ r.InTake) :
    r.slots = if r.stage = .admitted then 1 else 0 := by
  have hgranted : ¬ r.Granted := fun hg => hr hg.1
  rw [AdmitRequest.slots, if_neg hgranted, add_zero]

/-- A request that was not in `take` goes on without entering it. -/
lemma Orderly.set_outside (h : s.Orderly n maxQueued) (hr : s.requests[i]? = some r)
    (hout : ¬ r.InTake) {stage : AdmitStage}
    (hout' : ¬ ({ r with stage := stage } : AdmitRequest).InTake)
    (hn' : n' + (if r.stage = .admitted then 1 else 0) = n + if stage = .admitted then 1 else 0) :
    (s.set i { r with stage := stage }).Orderly n' maxQueued := by
  refine h.set hr (iff_of_false (not_queued_of_not_inTake hout') (not_queued_of_not_inTake hout))
    rfl rfl ?_
  rw [slots_of_not_inTake hout, slots_of_not_inTake hout']
  push_cast
  exact hn'

/-- A request that has a slot gives it back. -/
lemma Orderly.giveBack (h : s.Orderly n maxQueued) (hr : s.requests[i]? = some r)
    (hqueued : ¬ r.Queued) (hslots : r.slots = 1) {stage : AdmitStage}
    (hstage : stage = .released ∨ stage = .refused) :
    (s.set i { r with stage := stage }).Orderly (n - 1) maxQueued := by
  have hout : ¬ ({ r with stage := stage } : AdmitRequest).InTake := by
    rcases hstage with rfl | rfl <;> simp [AdmitRequest.InTake]
  have hnot : stage ≠ .admitted := by
    rcases hstage with rfl | rfl <;> simp
  refine h.set hr (iff_of_false (not_queued_of_not_inTake hout) hqueued) rfl rfl ?_
  rw [slots_of_not_inTake hout, if_neg hnot, hslots]
  simp

lemma slots_of_granted (hr : r.Granted) : r.slots = 1 := by
  have hnot : r.stage ≠ .admitted := by
    rcases hr.1 with hstage | hstage <;> simp [hstage]
  rw [AdmitRequest.slots, if_neg hnot, if_pos hr]

lemma slots_of_admitted (hr : r.stage = .admitted) : r.slots = 1 := by
  rw [slots_of_not_inTake (by simp [AdmitRequest.InTake, hr]), if_pos hr]

lemma Orderly.tryTake (h : s.Orderly n maxQueued) (hr : s.requests[i]? = some r)
    (hstage : r.stage = .arrived) : (s.tryTake i r).Orderly n maxQueued := by
  have hout : ¬ r.InTake := by simp [AdmitRequest.InTake, hstage]
  by_cases hfree : s.slots.free = 0
  · rw [Admission.tryTake, SlotQueue.tryTake, if_pos hfree]
    exact h.set_outside hr hout (by simp [AdmitRequest.InTake]) (by simp [hstage])
  · have hpos : 0 < s.slots.free := lt_of_le_of_ne h.nonneg (Ne.symm hfree)
    rw [Admission.tryTake, SlotQueue.tryTake, if_neg hfree]
    exact (h.spend hpos).set_outside hr hout (by simp [AdmitRequest.InTake]) (by simp [hstage])

lemma Orderly.take (h : s.Orderly n maxQueued) (hr : s.requests[i]? = some r)
    (hstage : r.stage = .arrived ∨ r.stage = .missed) :
    (s.take maxQueued i r).Orderly n maxQueued := by
  have hout : ¬ r.InTake := by
    rcases hstage with hstage | hstage <;> simp [AdmitRequest.InTake, hstage]
  have hnot : r.stage ≠ .admitted := by
    rcases hstage with hstage | hstage <;> simp [hstage]
  by_cases hfree : 0 < s.slots.free
  · have hentered : s.slots.take maxQueued r.prefetch i
        = (.admitted, { s.slots with free := s.slots.free - 1 }) := by
      rw [SlotQueue.take, if_pos hfree]
    rw [Admission.take, hentered, if_neg (by simp)]
    exact (h.spend hfree).set_outside hr hout (by simp [AdmitRequest.InTake]) (by simp [hnot])
  by_cases hfull : maxQueued ≤ s.slots.waiting
  · have hentered : s.slots.take maxQueued r.prefetch i = (.refused, s.slots) := by
      rw [SlotQueue.take, if_neg hfree, if_pos hfull]
    rw [Admission.take, hentered, if_neg (by simp)]
    exact h.set_outside hr hout (by simp [AdmitRequest.InTake]) (by simp [hnot])
  · have hentered : s.slots.take maxQueued r.prefetch i
        = (.waiting, s.slots.pushBack r.prefetch i) := by
      rw [SlotQueue.take, if_neg hfree, if_neg hfull]
    rw [Admission.take, hentered, if_pos rfl]
    have hqueued : ({ r with
        stage := .waiting
        granted := false
        ticket := s.tickets } : AdmitRequest).Queued := ⟨Or.inl rfl, rfl⟩
    refine h.enqueue hr (not_queued_of_not_inTake hout) hqueued rfl ?_ hfree (not_le.mp hfull)
    rw [slots_of_not_inTake hout, if_neg hnot]
    simp [AdmitRequest.slots, AdmitRequest.Granted]

/-- A wait ends, and the request keeps its place until it takes the lock. -/
lemma Orderly.endWait (h : s.Orderly n maxQueued) (hr : s.requests[i]? = some r)
    (hstage : r.stage = .waiting) : (s.set i { r with stage := .ended }).Orderly n maxQueued := by
  refine h.set hr ?_ rfl rfl ?_
  · simp [AdmitRequest.Queued, AdmitRequest.InTake, hstage]
  · simp [AdmitRequest.slots, AdmitRequest.Granted, AdmitRequest.InTake, hstage]

/-- A request that has been handed a slot comes back with it. -/
lemma Orderly.keepGrant (h : s.Orderly n maxQueued) (hr : s.requests[i]? = some r)
    (hgranted : r.Granted) : (s.set i { r with stage := .admitted }).Orderly n maxQueued := by
  refine h.set hr (iff_of_false ?_ ?_) rfl rfl ?_
  · simp [AdmitRequest.Queued, AdmitRequest.InTake]
  · simp [AdmitRequest.Queued, hgranted.2]
  · rw [slots_of_admitted (r := { r with stage := .admitted }) rfl, slots_of_granted hgranted]

lemma Orderly.settle (h : s.Orderly n maxQueued) (hr : s.requests[i]? = some r)
    (hstage : r.stage = .ended) : (s.settle i r).Orderly n maxQueued := by
  have hout : ¬ ({ r with stage := .refused } : AdmitRequest).InTake := by
    simp [AdmitRequest.InTake]
  unfold Admission.settle
  split_ifs with hgranted hctx
  · refine h.dequeue hr (not_queued_of_not_inTake hout) rfl ?_
    rw [slots_of_not_inTake hout]
    simp [AdmitRequest.slots, AdmitRequest.Granted, hstage, hgranted]
  · have hset := h.giveBack hr (fun hq => hgranted hq.2)
      (slots_of_granted ⟨Or.inr hstage, by simpa using hgranted⟩) (Or.inr rfl)
    simpa using hset.releaseLocked
  · exact h.keepGrant hr ⟨Or.inr hstage, by simpa using hgranted⟩

/-- Whatever a request does, the slots stay in order. -/
lemma Orderly.advance (h : s.Orderly n maxQueued) (hr : s.requests[i]? = some r) {a : Action}
    {s' : Admission} (ha : s.advance maxQueued i r a = some s') : s'.Orderly n maxQueued := by
  cases a with
  | tryTake =>
    simp only [Admission.advance] at ha
    split_ifs at ha with hstage
    obtain rfl := Option.some.inj ha
    exact h.tryTake hr hstage
  | take =>
    simp only [Admission.advance] at ha
    split_ifs at ha with hstage
    obtain rfl := Option.some.inj ha
    exact h.take hr hstage
  | ready =>
    simp only [Admission.advance] at ha
    split_ifs at ha with hready
    obtain rfl := Option.some.inj ha
    exact h.keepGrant hr ⟨Or.inl hready.1, hready.2⟩
  | timeout =>
    simp only [Admission.advance] at ha
    split_ifs at ha with hstage
    obtain rfl := Option.some.inj ha
    exact h.endWait hr hstage
  | ctxEnd =>
    obtain rfl := Option.some.inj ha
    exact h.set hr Iff.rfl rfl rfl rfl
  | ctxDone =>
    simp only [Admission.advance] at ha
    split_ifs at ha with hdone
    obtain rfl := Option.some.inj ha
    exact h.endWait hr hdone.1
  | settle =>
    simp only [Admission.advance] at ha
    split_ifs at ha with hstage
    obtain rfl := Option.some.inj ha
    exact h.settle hr hstage
  | release =>
    simp only [Admission.advance] at ha
    split_ifs at ha with hstage hreleased
    · obtain rfl := Option.some.inj ha
      have hset := h.giveBack hr (by simp [AdmitRequest.Queued, AdmitRequest.InTake, hstage])
        (slots_of_admitted hstage) (Or.inl rfl)
      simpa using hset.releaseLocked
    · obtain rfl := Option.some.inj ha
      exact h

/-- Only a release grants a slot, and the first request gets it. -/
lemma Orderly.oldest_of_releaseLocked (h : s.Orderly n maxQueued) {j : ℕ} {r r' : AdmitRequest}
    (hr : s.requests[j]? = some r) (hr' : s.releaseLocked.requests[j]? = some r')
    (hgranted : r.granted = false) (hgranted' : r'.granted = true) : s.Oldest j r := by
  rcases h.releaseLocked_cases with ⟨-, -, heq⟩ | ⟨k, rk, hrk, holdest, heq⟩
  · rw [heq] at hr'
    obtain rfl := Option.some.inj (hr.symm.trans hr')
    rw [hgranted] at hgranted'
    cases hgranted'
  · rw [heq] at hr'
    change (s.requests.set k { rk with granted := true })[j]? = some r' at hr'
    rw [Parties.getElem?_set hrk] at hr'
    split_ifs at hr' with hj
    · subst hj
      obtain rfl := Option.some.inj (hr.symm.trans hrk)
      exact holdest
    · obtain rfl := Option.some.inj (hr.symm.trans hr')
      rw [hgranted] at hgranted'
      cases hgranted'

/-- Who is first does not depend on requests that do not wait. -/
lemma oldest_of_set {j : ℕ} {rj : AdmitRequest} (hr : s.requests[i]? = some r)
    (hidle : ¬ r.Queued) (h : (s.set i r').Oldest j rj) : s.Oldest j rj := by
  refine ⟨h.1, ?_⟩
  intro k rk hk hqueued hkj
  have hki : k ≠ i := by
    rintro rfl
    obtain rfl := Option.some.inj (hr.symm.trans hk)
    exact hidle hqueued
  refine h.2 k rk ?_ hqueued hkj
  change (s.requests.set i r')[k]? = some rk
  rw [Parties.getElem?_set hr, if_neg hki, hk]

/-- What the action of a request can do to the flags: nothing is granted, or the request gives back
a slot. -/
lemma Orderly.advance_cases (h : s.Orderly n maxQueued) (hr : s.requests[i]? = some r) {a : Action}
    {s' : Admission} (ha : s.advance maxQueued i r a = some s') :
    s' = s ∨ (∃ r', s'.requests = s.requests.set i r' ∧ (r'.granted = true → r.granted = true)) ∨
      ∃ r' m, s' = (s.set i r').releaseLocked ∧ (s.set i r').Orderly m maxQueued ∧ ¬ r.Queued ∧
        ¬ r'.Queued ∧ r'.granted = r.granted := by
  cases a with
  | tryTake =>
    simp only [Admission.advance] at ha
    split_ifs at ha with hstage
    obtain rfl := Option.some.inj ha
    exact Or.inr (Or.inl ⟨_, rfl, id⟩)
  | take =>
    simp only [Admission.advance] at ha
    split_ifs at ha with hstage
    obtain rfl := Option.some.inj ha
    rw [Admission.take]
    split_ifs
    · exact Or.inr (Or.inl ⟨_, rfl, fun hfalse => by cases hfalse⟩)
    · exact Or.inr (Or.inl ⟨_, rfl, id⟩)
  | ready =>
    simp only [Admission.advance] at ha
    split_ifs at ha
    obtain rfl := Option.some.inj ha
    exact Or.inr (Or.inl ⟨_, rfl, id⟩)
  | timeout =>
    simp only [Admission.advance] at ha
    split_ifs at ha
    obtain rfl := Option.some.inj ha
    exact Or.inr (Or.inl ⟨_, rfl, id⟩)
  | ctxEnd =>
    obtain rfl := Option.some.inj ha
    exact Or.inr (Or.inl ⟨_, rfl, id⟩)
  | ctxDone =>
    simp only [Admission.advance] at ha
    split_ifs at ha
    obtain rfl := Option.some.inj ha
    exact Or.inr (Or.inl ⟨_, rfl, id⟩)
  | settle =>
    simp only [Admission.advance] at ha
    split_ifs at ha with hstage
    obtain rfl := Option.some.inj ha
    unfold Admission.settle
    split_ifs with hgranted hctx
    · exact Or.inr (Or.inl ⟨_, rfl, id⟩)
    · have hqueued : ¬ r.Queued := fun hq => hgranted hq.2
      exact Or.inr (Or.inr ⟨_, n - 1, rfl, h.giveBack hr hqueued
        (slots_of_granted ⟨Or.inr hstage, by simpa using hgranted⟩) (Or.inr rfl), hqueued,
        by simp [AdmitRequest.Queued, AdmitRequest.InTake], rfl⟩)
    · exact Or.inr (Or.inl ⟨_, rfl, id⟩)
  | release =>
    simp only [Admission.advance] at ha
    split_ifs at ha with hstage
    · obtain rfl := Option.some.inj ha
      have hqueued : ¬ r.Queued := by simp [AdmitRequest.Queued, AdmitRequest.InTake, hstage]
      exact Or.inr (Or.inr ⟨_, n - 1, rfl,
        h.giveBack hr hqueued (slots_of_admitted hstage) (Or.inl rfl), hqueued,
        by simp [AdmitRequest.Queued, AdmitRequest.InTake], rfl⟩)
    · exact Or.inl (Option.some.inj ha).symm

/-- Every grant goes to the first of the waiting requests. -/
lemma Orderly.oldest_of_advance (h : s.Orderly n maxQueued) (hr : s.requests[i]? = some r)
    {a : Action} {s' : Admission} (ha : s.advance maxQueued i r a = some s') {j : ℕ}
    {rj rj' : AdmitRequest} (hj : s.requests[j]? = some rj) (hj' : s'.requests[j]? = some rj')
    (hgranted : rj.granted = false) (hgranted' : rj'.granted = true) : s.Oldest j rj := by
  -- a request that has kept its flag has not been granted anything
  have hkept : ¬ rj.granted = rj'.granted := by
    rw [hgranted, hgranted']
    simp
  rcases h.advance_cases hr ha with rfl | ⟨r', hrequests, hflag⟩ |
    ⟨r', m, rfl, hset, hidle, hidle', hflag⟩
  · obtain rfl := Option.some.inj (hj.symm.trans hj')
    exact absurd rfl hkept
  · rw [hrequests, Parties.getElem?_set hr] at hj'
    split_ifs at hj' with hji
    · subst hji
      obtain rfl := Option.some.inj hj'
      obtain rfl := Option.some.inj (hr.symm.trans hj)
      rw [hflag hgranted'] at hgranted
      cases hgranted
    · obtain rfl := Option.some.inj (hj.symm.trans hj')
      exact absurd rfl hkept
  · by_cases hji : j = i
    · subst hji
      obtain rfl := Option.some.inj (hr.symm.trans hj)
      have hri : (s.set j r').requests[j]? = some r' := by
        change (s.requests.set j r')[j]? = some r'
        rw [Parties.getElem?_set hr, if_pos rfl]
      exact absurd (hset.oldest_of_releaseLocked hri hj' (hflag.trans hgranted) hgranted').1 hidle'
    · have hrj : (s.set i r').requests[j]? = some rj := by
        change (s.requests.set i r')[j]? = some rj
        rw [Parties.getElem?_set hr, if_neg hji, hj]
      exact oldest_of_set hr hidle
        (hset.oldest_of_releaseLocked hrj hj' hgranted hgranted')

end Steps

/-! ## Runs -/

/-- How many requests hold a slot. -/
def held (s : Admission) : ℕ :=
  s.requests.countP (·.stage = .admitted)

/-- How many waiters have been handed a slot and have not come back with it. -/
def due (s : Admission) : ℕ :=
  s.requests.countP (·.Granted)

lemma slotsOut_eq (s : Admission) : s.slotsOut = s.held + s.due := by
  unfold slotsOut held due
  induction s.requests with
  | nil => rfl
  | cons r rest ih =>
    rw [List.map_cons, List.sum_cons, ih, List.countP_cons, List.countP_cons, AdmitRequest.slots]
    simp only [decide_eq_true_eq]
    omega

/-- What is promised about the slots. -/
structure SlotGuarantee (n maxQueued : ℕ) (s : Admission) : Prop where
  /-- Every slot is free, held, or on its way to a waiter. -/
  conserved : s.slots.free + s.held + s.due = n
  /-- The number of free slots is not negative. -/
  nonneg : 0 ≤ s.slots.free
  /-- No request waits while a slot is free. -/
  exclusive : ¬ (0 < s.slots.free ∧ 0 < s.slots.waiting)
  /-- The number of waiting requests is bounded. -/
  bounded : s.slots.waiting ≤ maxQueued
  /-- A request that has been turned away has no slot, and is not in a queue. -/
  refused : ∀ i r, s.requests[i]? = some r → r.stage = .refused →
    r.slots = 0 ∧ i ∉ s.slots.demand ∧ i ∉ s.slots.prefetch
  /-- A slot is granted to the first of the waiting requests. -/
  granted : ∀ l s', step maxQueued s l = some s' → ∀ i r r', s.requests[i]? = some r →
    s'.requests[i]? = some r' → r.granted = false → r'.granted = true → s.Oldest i r

lemma Orderly.slotGuarantee {n maxQueued : ℕ} {s : Admission} (h : s.Orderly n maxQueued) :
    SlotGuarantee n maxQueued s where
  conserved := by
    have hn := h.conserved
    rw [slotsOut_eq] at hn
    push_cast at hn
    omega
  nonneg := h.nonneg
  exclusive := by
    rintro ⟨hfree, hwaiting⟩
    obtain ⟨hdemand, hprefetch⟩ := h.exclusive hfree
    simp [SlotQueue.waiting, hdemand, hprefetch] at hwaiting
  bounded := h.bounded
  refused := by
    intro i r hr hstage
    have hout : ¬ r.InTake := by simp [AdmitRequest.InTake, hstage]
    have hnot : ∀ {b queue}, Lists s.requests s.tickets b queue → i ∉ queue := by
      intro b queue hlist hi
      obtain ⟨r', hr', hqueued, -⟩ := (hlist.mem i).mp hi
      obtain rfl := Option.some.inj (hr.symm.trans hr')
      exact not_queued_of_not_inTake hout hqueued
    refine ⟨?_, hnot h.demand, hnot h.prefetch⟩
    rw [slots_of_not_inTake hout, hstage, if_neg (by simp)]
  granted := by
    intro l s' hs' i r r' hr hr' hgranted hgranted'
    cases l with
    | arrive prefetch =>
      obtain rfl := Option.some.inj hs'
      change (s.requests ++ [_])[i]? = some r' at hr'
      rw [List.getElem?_append_left (List.getElem?_eq_some_iff.mp hr).1, hr] at hr'
      obtain rfl := Option.some.inj hr'
      rw [hgranted] at hgranted'
      cases hgranted'
    | act k a =>
      obtain ⟨rk, hrk, ha⟩ := Option.bind_eq_some_iff.mp hs'
      exact h.oldest_of_advance hrk ha hr hr' hgranted hgranted'

/-- A new request has no slot, and does not wait. -/
lemma Orderly.arrive {n : ℤ} {maxQueued : ℕ} {s : Admission} (h : s.Orderly n maxQueued)
    (prefetch : Bool) :
    ({ s with requests := s.requests ++ [⟨prefetch, .arrived, false, false, 0⟩] } :
      Admission).Orderly n maxQueued where
  conserved := by
    have hn := h.conserved
    have hsum : (({ s with requests := s.requests ++ [⟨prefetch, .arrived, false, false, 0⟩] } :
        Admission).slotsOut) = s.slotsOut := by
      simp [slotsOut, AdmitRequest.slots, AdmitRequest.Granted]
    rw [hsum]
    exact hn
  nonneg := h.nonneg
  exclusive := h.exclusive
  bounded := h.bounded
  demand := h.demand.append (by simp [AdmitRequest.Queued, AdmitRequest.InTake])
  prefetch := h.prefetch.append (by simp [AdmitRequest.Queued, AdmitRequest.InTake])

/-- However requests are interleaved, the promises about the slots hold. -/
theorem slots_conserved (n maxQueued : ℕ) (ls : List Label) (s : Admission)
    (hrun : run (step maxQueued) (start n) ls = some s) : SlotGuarantee n maxQueued s := by
  have hstart : (start n).Orderly n maxQueued := by
    have hempty : ∀ b, Lists [] 0 b [] := fun b => ⟨by simp, List.Pairwise.nil, by simp⟩
    exact ⟨by simp [start, slotsOut], by simp [start], fun _ => ⟨rfl, rfl⟩, Nat.zero_le _,
      hempty false, hempty true⟩
  refine Orderly.slotGuarantee
    (run_invariant_of_step (I := fun s => s.Orderly n maxQueued) ?_ hstart hrun)
  intro s l s' hs hs'
  cases l with
  | arrive prefetch =>
    obtain rfl := Option.some.inj hs'
    exact hs.arrive prefetch
  | act i a =>
    obtain ⟨r, hr, ha⟩ := Option.bind_eq_some_iff.mp hs'
    exact hs.advance hr ha

/-- The only slot is held while a look-ahead and a demand request queue up; the demand request is
served first, and the other one gives up. -/
def crossedWaits : List Label :=
  [.arrive false, .act 0 .tryTake, .arrive true, .act 1 .tryTake, .act 1 .take, .arrive false,
    .act 2 .take, .act 1 .timeout, .act 0 .release, .act 2 .ready, .act 1 .settle]

theorem slots_conserved_crossedWaits :
    ∃ s, run (step 2) (start 1) crossedWaits = some s ∧ s.held = 1 ∧
      s.requests.map (·.stage) = [.released, .refused, .admitted] ∧ SlotGuarantee 1 2 s := by
  obtain ⟨s, hs, hheld, hstages⟩ : ∃ s ∈ run (step 2) (start 1) crossedWaits, s.held = 1 ∧
      s.requests.map (·.stage) = [.released, .refused, .admitted] := by
    decide
  exact ⟨s, hs, hheld, hstages, slots_conserved 1 2 crossedWaits s hs⟩

end Admission

end GoBuildCache
