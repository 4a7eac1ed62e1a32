import GoBuildCache.Client.Retry
import GoBuildCache.Foundation.Parties
import GoBuildCache.Foundation.Transition

/-!
# A server that does not answer

A request that gets no answer marks the server as down, and from then on requests are not sent,
except for one every five seconds that finds out whether the server is back (`mayAsk`). The build
depends on some objects, and `Fetch` does not take a miss for an answer while the server is down: it
waits until a request is answered or the next probe is due (`awaitAnswer`). Requests and fetches are
goroutines; a step is one atomic operation on what they share.

A probe comes at least five seconds after the probe before it and after the last request that has
reported silence (`probes_are_spaced`). A fetch does not sleep through the return of the server: it
takes its channel before it looks whether the server is down, so that the request that brings the
server back closes that channel (`fetch_is_woken`).
-/

open Transition

namespace GoBuildCache

/-- How often a request goes out while the server is down. -/
def downProbeEvery : Duration := 5 * second

/-- How far a request is. -/
inductive ProbePhase where
  /-- It asks whether it may go out. -/
  | asking
  /-- It has seen that the server is down. -/
  | barred
  /-- It has read the clock. -/
  | clocked (now : ℤ)
  /-- It has read when the next probe is due. -/
  | loaded (now next : ℤ)
  /-- It has gone out. -/
  | sent
  /-- It has brought the server back, and wakes the fetches next. -/
  | back
  /-- It reports that there was no answer, and has read the clock. -/
  | silent (now : ℤ)
  /-- It has put the next probe off. -/
  | deferred (now : ℤ)
  /-- It is done. -/
  | done
  deriving DecidableEq

/-- How far a call of `Fetch` is. -/
inductive FetchPhase where
  /-- It looks whether the server is down. -/
  | checking
  /-- It looks the object up. -/
  | looking (wasDown : Bool)
  /-- It has not found the object. -/
  | missed (wasDown : Bool)
  /-- It calls `awaitAnswer`. -/
  | awaiting
  /-- It has a channel that is closed when the server is back. -/
  | holding (ch : ℕ)
  /-- It has seen that the server is down. -/
  | timing (ch : ℕ)
  /-- It sleeps until the channel is closed or the time has come. -/
  | parked (ch : ℕ) (due : ℤ)
  /-- It has returned. -/
  | returned (found : Bool)
  deriving DecidableEq

/-- What the goroutines of a backend share. -/
structure Outage where
  /-- The clock, in nanoseconds. -/
  clock : ℤ
  /-- Since when the server is down; zero if it is up. -/
  downSince : ℤ
  /-- When the next probe is due. -/
  probeAt : ℤ
  /-- The channel of `upSignal`, if there is one. The others are closed. -/
  ch : Option ℕ
  /-- How many channels have been made. -/
  made : ℕ
  /-- The requests. -/
  requests : List ProbePhase
  /-- The calls of `Fetch`. -/
  fetches : List FetchPhase
  /-- The probes, and the requests that have reported silence, with their readings of the clock; the
  latest comes first. -/
  log : List (Bool × ℤ)

namespace Outage

/-- What a request can do. -/
inductive AskLabel where
  /-- `mayAsk` looks whether the server is down. -/
  | load
  /-- `mayAsk` reads the clock. -/
  | readClock
  /-- `mayAsk` reads when the next probe is due. -/
  | loadNext
  /-- `mayAsk` compares and swaps. -/
  | swapProbe
  /-- The request fails in some other way. -/
  | fail
  /-- It is answered: `noteAnswered` marks the server as up. -/
  | answered
  /-- `noteAnswered` closes the channel. -/
  | fire
  /-- It is not answered: `noteNoAnswer` reads the clock. -/
  | silence
  /-- `noteNoAnswer` puts the next probe off. -/
  | defer
  /-- `noteNoAnswer` marks the server as down. -/
  | markDown

/-- What a call of `Fetch` can do. -/
inductive FetchLabel where
  /-- It looks whether the server is down. -/
  | check
  /-- The lookup returns. -/
  | lookup (found : Bool)
  /-- It looks again. -/
  | recheck
  /-- `awaitAnswer` takes the channel. -/
  | wait
  /-- `awaitAnswer` looks whether the server is down. -/
  | look
  /-- `awaitAnswer` sets its timer. -/
  | setTimer
  /-- `awaitAnswer` returns. -/
  | wake

/-- What can happen. -/
inductive Label where
  /-- The time passes. -/
  | tick (d : ℕ)
  /-- A request is made. -/
  | request
  /-- `Fetch` is called. -/
  | fetch
  /-- A request takes a step. -/
  | ask (i : ℕ) (l : AskLabel)
  /-- A call of `Fetch` takes a step. -/
  | await (j : ℕ) (l : FetchLabel)

/-- A request goes on. -/
def goto (s : Outage) (i : ℕ) (p : ProbePhase) : Outage :=
  { s with requests := s.requests.set i p }

/-- A step of a request. -/
def ask (s : Outage) (i : ℕ) : AskLabel → ProbePhase → Option Outage
  | .load, .asking => some (s.goto i (if s.downSince = 0 then .sent else .barred))
  | .readClock, .barred => some (s.goto i (.clocked s.clock))
  | .loadNext, .clocked now => some (s.goto i (.loaded now s.probeAt))
  | .swapProbe, .loaded now next =>
    if next ≤ now ∧ s.probeAt = next then
      some { s.goto i .sent with probeAt := now + downProbeEvery, log := (true, now) :: s.log }
    else some (s.goto i .done)
  | .fail, .sent => some (s.goto i .done)
  | .answered, .sent =>
    if s.downSince = 0 then some (s.goto i .done)
    else some { s.goto i .back with downSince := 0 }
  | .fire, .back => some { s.goto i .done with ch := none }
  | .silence, .sent => some (s.goto i (.silent s.clock))
  | .defer, .silent now =>
    some { s.goto i (.deferred now) with
      probeAt := now + downProbeEvery, log := (false, now) :: s.log }
  | .markDown, .deferred now =>
    some { s.goto i .done with downSince := if s.downSince = 0 then now else s.downSince }
  | _, _ => none

/-- A call of `Fetch` goes on. -/
def turn (s : Outage) (j : ℕ) (p : FetchPhase) : Outage :=
  { s with fetches := s.fetches.set j p }

/-- A step of a call of `Fetch`. -/
def await (s : Outage) (j : ℕ) : FetchLabel → FetchPhase → Option Outage
  | .check, .checking => some (s.turn j (.looking (s.downSince ≠ 0)))
  | .lookup found, .looking wasDown =>
    some (s.turn j (if found then .returned true else .missed wasDown))
  | .recheck, .missed wasDown =>
    -- A miss is final only if the server was up before and after the lookup.
    some (s.turn j (if s.downSince ≠ 0 then .awaiting
      else if wasDown then .checking else .returned false))
  | .wait, .awaiting =>
    match s.ch with
    | some c => some (s.turn j (.holding c))
    | none => some { s.turn j (.holding s.made) with ch := some s.made, made := s.made + 1 }
  | .look, .holding c => some (s.turn j (if s.downSince = 0 then .checking else .timing c))
  | .setTimer, .timing c => some (s.turn j (.parked c s.probeAt))
  | .wake, .parked c due =>
    if s.ch ≠ some c ∨ due ≤ s.clock then some (s.turn j .checking) else none
  | _, _ => none

/-- One step. -/
def step (s : Outage) : Label → Option Outage
  | .tick d => some { s with clock := s.clock + d }
  | .request => some { s with requests := s.requests ++ [.asking] }
  | .fetch => some { s with fetches := s.fetches ++ [.checking] }
  | .ask i l => s.requests[i]?.bind fun p => s.ask i l p
  | .await j l => s.fetches[j]?.bind fun p => s.await j l p

/-- A backend that has just been opened. -/
def start (clock : ℤ) : Outage :=
  ⟨clock, 0, 0, none, 0, [], [], []⟩

/-! ## What is kept -/

/-- An event of the log comes late enough after the one before it. -/
def Spaced (later earlier : Bool × ℤ) : Prop :=
  later.1 = true → earlier.2 + downProbeEvery ≤ later.2

/-- The channel will be closed: the server is down, or the request that has brought it back has yet
to close the channel. -/
def Returning (s : Outage) : Prop :=
  s.downSince ≠ 0 ∨ .back ∈ s.requests

/-- The channel that a fetch has was made, and will be closed if the fetch relies on it. -/
def Heeded (s : Outage) : FetchPhase → Prop
  | .holding c => c < s.made
  | .timing c | .parked c _ => c < s.made ∧ (s.ch = some c → s.Returning)
  | _ => True

/-- What holds at any time. -/
structure Inv (s : Outage) : Prop where
  /-- The next probe is due five seconds after the last event. -/
  due : ∀ e ∈ s.log.head?, s.probeAt = e.2 + downProbeEvery
  /-- The probes have kept to that. -/
  spaced : s.log.IsChain Spaced
  /-- The channel was made. -/
  channel : ∀ c ∈ s.ch, c < s.made
  /-- The fetches will be woken. -/
  heeded : ∀ p ∈ s.fetches, s.Heeded p

variable {s t : Outage} {i j : ℕ} {p q : ProbePhase}

lemma Heeded.mono {f : FetchPhase} (h : s.Heeded f) (hmade : s.made ≤ t.made)
    (hch : ∀ c, c < s.made → t.ch = some c → s.ch = some c)
    (hreturning : s.Returning → t.Returning) : t.Heeded f := by
  cases f with
  | holding c => exact lt_of_lt_of_le h hmade
  | timing c | parked c _ =>
    exact ⟨lt_of_lt_of_le h.1 hmade, fun hc => hreturning (h.2 (hch c h.1 hc))⟩
  | _ => trivial

/-- A request goes on, and does not mark the server as up unless it is about to wake the fetches. -/
lemma Inv.goto (h : Inv s) (hi : s.requests[i]? = some p) (hp : p ≠ .back) {downSince : ℤ}
    (hdown : s.downSince ≠ 0 → downSince ≠ 0 ∨ q = .back) :
    Inv { s.goto i q with downSince } := by
  refine ⟨h.due, h.spaced, h.channel, fun f hf => (h.heeded f hf).mono le_rfl (fun _ _ => id) ?_⟩
  rintro (hne | hback)
  · refine (hdown hne).imp_right ?_
    rintro rfl
    exact List.mem_set (List.getElem?_eq_some_iff.mp hi).1 _
  · obtain ⟨n, hn⟩ := List.mem_iff_getElem?.mp hback
    have hne : n ≠ i := by
      rintro rfl
      exact hp (Option.some.inj (hi.symm.trans hn))
    refine .inr (List.mem_of_getElem? (i := n) ?_)
    rw [Outage.goto, Parties.getElem?_set hi, if_neg hne, hn]

/-- The next probe is put off. -/
lemma Inv.putOff (h : Inv s) {e : Bool × ℤ} (he : e.1 = true → s.probeAt ≤ e.2) :
    Inv { s with probeAt := e.2 + downProbeEvery, log := e :: s.log } where
  due := by
    rintro e' ⟨⟩
    rfl
  spaced := by
    refine List.isChain_cons.mpr ⟨fun e' he' hprobed => ?_, h.spaced⟩
    rw [← h.due e' he']
    exact he hprobed
  channel := h.channel
  heeded := h.heeded

lemma Inv.ask (h : Inv s) (hi : s.requests[i]? = some p) {l : AskLabel}
    (hask : s.ask i l p = some t) : Inv t := by
  cases l <;> cases p <;> try cases hask
  case swapProbe.loaded now next =>
    simp only [Outage.ask] at hask
    split_ifs at hask with hdue <;> obtain rfl := Option.some.inj hask
    · exact (h.goto hi nofun .inl).putOff (e := (true, now)) fun _ => hdue.2.trans_le hdue.1
    · exact h.goto hi nofun .inl
  case answered.sent =>
    simp only [Outage.ask] at hask
    split_ifs at hask <;> obtain rfl := Option.some.inj hask
    · exact h.goto hi nofun .inl
    · exact h.goto hi nofun fun _ => .inr rfl
  case fire.back.refl => exact ⟨h.due, h.spaced, nofun, fun f hf => by
      cases f <;> first | trivial | exact h.heeded _ hf | exact ⟨(h.heeded _ hf).1, nofun⟩⟩
  case defer.silent.refl now =>
    exact (h.goto hi nofun .inl).putOff (e := (false, now)) nofun
  case markDown.deferred.refl now =>
    refine h.goto hi nofun fun hne => .inl ?_
    rwa [if_neg hne]
  all_goals exact h.goto hi nofun .inl

lemma Inv.turn (h : Inv s) {f : FetchPhase} (hf : s.Heeded f) : Inv (s.turn j f) := by
  refine ⟨h.due, h.spaced, h.channel, fun f' hf' => ?_⟩
  rcases List.mem_or_eq_of_mem_set hf' with hf' | rfl
  · exact h.heeded f' hf'
  · exact hf

lemma Inv.await (h : Inv s) {f : FetchPhase} (hj : s.fetches[j]? = some f) {l : FetchLabel}
    (hawait : s.await j l f = some t) : Inv t := by
  have hf := h.heeded f (List.mem_of_getElem? hj)
  cases l <;> cases f <;> try cases hawait
  case check.checking.refl => exact h.turn trivial
  case lookup.looking.refl found wasDown => cases found <;> exact h.turn trivial
  case recheck.missed.refl wasDown =>
    refine h.turn ?_
    split_ifs <;> trivial
  case wait.awaiting =>
    simp only [Outage.await] at hawait
    split at hawait <;> obtain rfl := Option.some.inj hawait
    · rename_i c hc
      exact h.turn (h.channel c hc)
    · rename_i hnone
      refine ⟨h.due, h.spaced, ?_, fun f hf => ?_⟩
      · rintro c ⟨⟩
        exact Nat.lt_succ_self _
      · rcases List.mem_or_eq_of_mem_set hf with hf | rfl
        · refine (h.heeded f hf).mono (Nat.le_succ _) ?_ id
          rintro c hc ⟨⟩
          exact absurd hc (lt_irrefl _)
        · exact Nat.lt_succ_self _
  case look.holding.refl c =>
    refine h.turn ?_
    split_ifs with hup
    · trivial
    · exact ⟨hf, fun _ => .inl hup⟩
  case setTimer.timing.refl c => exact h.turn hf
  case wake.parked =>
    simp only [Outage.await] at hawait
    split_ifs at hawait
    obtain rfl := Option.some.inj hawait
    exact h.turn trivial

lemma Inv.step (h : Inv s) {l : Label} (hstep : step s l = some t) : Inv t := by
  cases l with
  | ask i l =>
    obtain ⟨p, hi, hask⟩ := Option.bind_eq_some_iff.mp hstep
    exact h.ask hi hask
  | await j l =>
    obtain ⟨f, hj, hawait⟩ := Option.bind_eq_some_iff.mp hstep
    exact h.await hj hawait
  | tick d =>
    obtain rfl := Option.some.inj hstep
    exact ⟨h.due, h.spaced, h.channel, h.heeded⟩
  | request =>
    obtain rfl := Option.some.inj hstep
    exact ⟨h.due, h.spaced, h.channel, fun f hf => (h.heeded f hf).mono le_rfl (fun _ _ => id)
      (Or.imp_right (List.mem_append_left _))⟩
  | fetch =>
    obtain rfl := Option.some.inj hstep
    refine ⟨h.due, h.spaced, h.channel, fun f hf => ?_⟩
    rcases List.mem_append.mp hf with hf | hf
    · exact h.heeded f hf
    · rw [List.mem_singleton.mp hf]
      trivial

lemma inv_run {clock : ℤ} {ls : List Label} (hrun : run Outage.step (start clock) ls = some s) :
    Inv s :=
  run_invariant_of_step (fun _ _ _ h hstep => h.step hstep)
    ⟨by simp [start], .nil, by simp [start], by simp [start]⟩ hrun

/-- **Probes are spaced.** However the requests interleave, every probe comes at least five seconds
after the probe or the report of silence before it. -/
theorem probes_are_spaced (clock : ℤ) (ls : List Label)
    (hrun : run Outage.step (start clock) ls = some s) (before after : List (Bool × ℤ))
    (probed : ℤ) (e : Bool × ℤ) (hlog : s.log = after ++ (true, probed) :: e :: before) :
    e.2 + downProbeEvery ≤ probed := by
  have hchain := (inv_run hrun).spaced
  rw [hlog] at hchain
  have hpair := (List.isChain_append.mp hchain).2.1
  exact (List.isChain_cons_cons.mp hpair).1 rfl

/-- A request is not answered. Five seconds later there is a probe, and a fetch goes to sleep; then
another request is answered that has been out all the time. -/
def answeredLate : List Label :=
  [.request, .request, .ask 0 .load, .ask 1 .load, .ask 0 .silence, .ask 0 .defer, .ask 0 .markDown,
    .tick 5000000000, .request, .ask 2 .load, .ask 2 .readClock, .ask 2 .loadNext,
    .ask 2 .swapProbe, .fetch, .await 0 .check, .await 0 (.lookup false), .await 0 .recheck,
    .await 0 .wait, .await 0 .look, .await 0 .setTimer, .ask 1 .answered, .ask 1 .fire]

/-- The probe comes five seconds after the silence. -/
theorem probes_are_spaced_answeredLate :
    ∃ s, run Outage.step (start 1) answeredLate = some s ∧
      s.log = [(true, 5000000001), (false, 1)] ∧ 1 + downProbeEvery ≤ 5000000001 := by
  obtain ⟨s, hs, hlog⟩ := Option.map_eq_some_iff.mp (show (run Outage.step (start 1)
    answeredLate).map (·.log) = some [(true, 5000000001), (false, 1)] by decide +kernel)
  exact ⟨s, hs, hlog, probes_are_spaced 1 answeredLate hs [] [] 5000000001 (false, 1) hlog⟩

/-- **A fetch does not sleep through the return of the server.** If the server is up, and the
request that has brought it back has closed the channel, every fetch that sleeps can wake up. -/
theorem fetch_is_woken (clock : ℤ) (ls : List Label)
    (hrun : run Outage.step (start clock) ls = some s) (hup : s.downSince = 0)
    (hfired : .back ∉ s.requests) (j c : ℕ) (due : ℤ) (hj : s.fetches[j]? = some (.parked c due)) :
    s.step (.await j .wake) = some (s.turn j .checking) := by
  obtain ⟨-, hreturning⟩ := (inv_run hrun).heeded _ (List.mem_of_getElem? hj)
  have hclosed : s.ch ≠ some c := fun hc => (hreturning hc).elim (absurd hup) hfired
  rw [Outage.step, hj, Option.bind_some]
  exact if_pos (.inl hclosed)

/-- The fetch wakes up before the next probe is due. -/
theorem fetch_is_woken_answeredLate :
    ∃ s, run Outage.step (start 1) answeredLate = some s ∧
      s.fetches = [.parked 0 10000000001] ∧ s.clock = 5000000001 ∧
      s.step (.await 0 .wake) = some (s.turn 0 .checking) := by
  obtain ⟨s, hs, hobs⟩ := Option.map_eq_some_iff.mp (show (run Outage.step (start 1)
    answeredLate).map (fun s => (s.fetches, s.clock, s.downSince, s.requests)) =
      some ([.parked 0 10000000001], 5000000001, 0, [.done, .done, .sent]) by decide +kernel)
  obtain ⟨hfetches, hclock, hup, hrequests⟩ : s.fetches = _ ∧ s.clock = _ ∧ s.downSince = _ ∧
      s.requests = _ := by
    simpa only [Prod.mk.injEq] using hobs
  refine ⟨s, hs, hfetches, hclock, ?_⟩
  exact fetch_is_woken 1 answeredLate hs hup (by rw [hrequests]; decide) 0 0 10000000001
    (by rw [hfetches]; rfl)

end Outage

end GoBuildCache
