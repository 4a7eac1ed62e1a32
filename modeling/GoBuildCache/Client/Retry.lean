import GoBuildCache.Foundation.Parties
import GoBuildCache.Foundation.Text
import GoBuildCache.Foundation.Transition
import GoBuildCache.Index.State

/-!
# Retries and the server's quiet period

A server that has too much to do answers with a transient status and asks for quiet with
`Retry-After`. All requests of a backend go through `doRetry`: it notes the end of the quiet period
in a deadline that all calls share, and sends nothing before it has seen the deadline pass. Calls
run at the same time, and raise the deadline with a compare-and-swap loop.

The deadline never moves back, and a request is sent only after every deadline that was set before
its check (`quiet_honoured`). The deadline is what the server has asked for, up to `retryMaxDelay`,
unless the number of seconds wraps around as a `time.Duration` (`parseRetryAfter_eq_iff`): then a
request for a long quiet period can be taken for none (`retryAfter_wraps`).
-/

open ByteString Transition

namespace GoBuildCache

/-! ## The header -/

/-- `time.Second`. -/
def second : Duration := 10 ^ 9

/-- The bound of the first backoff. -/
def retryBaseDelay : Duration := 100 * 10 ^ 6

/-- The bound of every backoff. -/
def retryMaxDelay : Duration := 2 * 10 ^ 9

/-- What a response with this `Retry-After` asks for at the time `now`. -/
def parseRetryAfter (parseTime : Bytes → Option Time) (now : Time) (v : Bytes) : Duration :=
  let capped (d : Duration) := if retryMaxDelay < d then retryMaxDelay else d
  if v = [] then 0
  else match atoi v with
    | some secs => if secs ≤ 0 then 0 else capped (int64 (secs * second))
    | none => match parseTime v with
      | some t => if timeSince t now ≤ 0 then 0 else capped (timeSince t now)
      | none => 0

/-- The quiet period that a server asks for with `n` seconds. -/
def askedQuiet (n : ℤ) : Duration :=
  min (n * second) retryMaxDelay

/-- As many seconds do not become negative or too few when they are counted in nanoseconds. -/
def SecondsFit (n : ℤ) : Prop :=
  askedQuiet n ≤ n * second % 2 ^ 64 ∧ n * second % 2 ^ 64 < 2 ^ 63

lemma parseRetryAfter_of_atoi (parseTime : Bytes → Option Time) (now : Time) {v : Bytes} {n : ℤ}
    (hv : atoi v = some n) (hn : 1 ≤ n) :
    parseRetryAfter parseTime now v = min (int64 (n * second)) retryMaxDelay := by
  have hne : v ≠ [] := by
    rintro rfl
    simp [atoi] at hv
  have hpos : ¬ n ≤ 0 := by omega
  simp only [parseRetryAfter, if_neg hne, hv, if_neg hpos]
  split_ifs with hlong
  · exact (min_eq_right hlong.le).symm
  · exact (min_eq_left (not_lt.mp hlong)).symm

/-- A positive number that is cut off survives the wrap-around exactly if what is left of it is
not negative and not too small. -/
lemma min_int64_eq_iff {x m : ℤ} (hx : 0 < x) (hm : 0 < m) :
    min (int64 x) m = min x m ↔ min x m ≤ x % 2 ^ 64 ∧ x % 2 ^ 64 < 2 ^ 63 := by
  rcases int64_cases x with ⟨hbit, heq⟩ | ⟨hbit, heq⟩
  · rw [heq]
    omega
  · rw [heq]
    omega

/-- The code honours the number of seconds exactly if it fits. -/
lemma parseRetryAfter_eq_iff (parseTime : Bytes → Option Time) (now : Time) {v : Bytes} {n : ℤ}
    (hv : atoi v = some n) (hn : 1 ≤ n) :
    parseRetryAfter parseTime now v = askedQuiet n ↔ SecondsFit n := by
  rw [parseRetryAfter_of_atoi parseTime now hv hn]
  refine min_int64_eq_iff ?_ (by decide)
  exact Int.mul_pos (by omega) (by decide)

/-! ## The clock -/

/-- The time from which `UnixNano` counts. -/
def unixEpoch : Time := 62135596800 * 10 ^ 9

/-- `UnixNano` of a time, which is an `int64`. -/
def unixNano (t : Time) : ℤ :=
  int64 (t - unixEpoch)

/-- The time with this `UnixNano`. -/
def unixTime (n : ℤ) : Time :=
  unixEpoch + n

/-- A time that `UnixNano` can represent is not moved back by it. -/
lemma le_unixTime_unixNano {t : Time} (h : t < unixEpoch + 2 ^ 63) :
    t ≤ unixTime (unixNano t) := by
  have hle : t - unixEpoch ≤ int64 (t - unixEpoch) := le_int64 (sub_lt_iff_lt_add'.mpr h)
  exact sub_le_iff_le_add'.mp hle

/-! ## The calls -/

/-- Whether another attempt may help. -/
def transientStatus (code : ℕ) : Bool :=
  500 ≤ code || code == 429

/-- How an attempt can end. -/
inductive RetryAnswer where
  /-- No answer has come in time. -/
  | noAnswer
  /-- The request has failed in another way. -/
  | failure
  /-- A response with this status and `Retry-After`, which is empty if there is none. -/
  | response (status : ℕ) (retryAfter : Bytes)
  deriving DecidableEq

/-- The variables `resp` and `err` of a call. -/
inductive RetryResult where
  /-- Both are `nil`. -/
  | unset
  /-- The caller has given up. -/
  | canceled
  /-- The answer of a call that has sent nothing because of the quiet period. -/
  | heldBack
  /-- The server has stopped answering. -/
  | serverDown
  /-- The last attempt has ended in this way. -/
  | answered (a : RetryAnswer)
  deriving DecidableEq

/-- A transient answer whose request for quiet is being noted. -/
structure Shed where
  /-- Its `Retry-After`. -/
  header : Bytes
  /-- The quiet period. -/
  retryAfter : Duration
  /-- When `noteShed` was called. -/
  time : Time
  /-- The end of the quiet period, as `UnixNano`. -/
  untilNano : ℤ

/-- How far a call is. -/
inductive RetryPhase where
  /-- It begins an attempt. -/
  | checking
  /-- It has read the deadline when `seen` answers had been processed. -/
  | loaded (shedUntil : ℤ) (seen : ℕ)
  /-- It has found that the deadline has passed. -/
  | passed (seen : ℕ)
  /-- It has found that the server may be asked. -/
  | allowed (seen : ℕ)
  /-- It has sent its request. -/
  | waiting
  /-- It has read the `Retry-After` of a transient answer. -/
  | parsed (header : Bytes) (retryAfter : Duration)
  /-- It is about to read the deadline in order to raise it. -/
  | noting (shed : Shed)
  /-- It has read the deadline, and is about to compare and swap. -/
  | swapping (shed : Shed) (cur : ℤ)
  /-- It has processed the answer. -/
  | noted (retryAfter : Duration)
  /-- It sleeps. -/
  | sleeping (wakeAt : Time)
  /-- It has returned. -/
  | returned

/-- A call of `doRetry`. -/
structure RetryCall where
  /-- How often it may try again. -/
  maxRetries : ℤ
  /-- The number of the attempt. -/
  attempt : ℕ
  /-- What it returns. -/
  result : RetryResult
  /-- How far it is. -/
  phase : RetryPhase

/-- A transient answer that has been processed. -/
structure ProcessedAnswer where
  /-- Its `Retry-After`. -/
  header : Bytes
  /-- When it was processed: when `noteShed` was called, if it was. -/
  time : Time
  /-- The shared deadline afterwards. -/
  deadline : Time
  deriving DecidableEq

/-- A request that has been sent. -/
structure SentRequest where
  /-- The call. -/
  call : ℕ
  /-- When it was sent. -/
  time : Time
  /-- How many answers had been processed when its attempt began the check for quiet. -/
  seen : ℕ
  deriving DecidableEq

/-- The calls of a backend and the deadline that they share, and their history. -/
structure RetryBackend where
  /-- The time. -/
  now : Time
  /-- Whether the backend shuts down, which ends every sleep. -/
  stopped : Bool
  /-- The deadline, as `UnixNano`. -/
  shedUntil : ℤ
  /-- The calls. -/
  calls : List RetryCall
  /-- The transient answers that have been processed. -/
  processed : List ProcessedAnswer
  /-- The requests that have been sent. -/
  sent : List SentRequest

namespace RetryBackend

/-- What a call can do. -/
inductive CallLabel where
  /-- It finds that its caller has given up. -/
  | giveUp
  /-- It reads the deadline. -/
  | load
  /-- It compares the deadline with the time; `r` is the random part of a sleep. -/
  | compare (r : ℕ)
  /-- It finds out whether the server may be asked, as `mayAsk` says. -/
  | ask (mayAsk : Bool)
  /-- It sends its request. -/
  | send
  /-- The attempt ends. -/
  | answer (a : RetryAnswer)
  /-- It calls `noteShed`. -/
  | note
  /-- `noteShed` reads the deadline. -/
  | loadShed
  /-- `noteShed` compares and swaps. -/
  | swap
  /-- It returns or goes to sleep; `r` is the random part of the sleep. -/
  | backoff (r : ℕ)
  /-- It wakes up. -/
  | wake

/-- What can happen. -/
inductive Label where
  /-- Time passes. -/
  | tick (d : ℕ)
  /-- The backend shuts down. -/
  | stop
  /-- A call begins. -/
  | begin (maxRetries : ℤ)
  /-- A call takes a step. -/
  | call (c : ℕ) (l : CallLabel)

/-- The deadline. -/
def deadline (s : RetryBackend) : Time :=
  unixTime s.shedUntil

/-- A call changes. -/
def setCall (s : RetryBackend) (c : ℕ) (k : RetryCall) : RetryBackend :=
  { s with calls := s.calls.set c k }

/-- A call goes on. -/
def goto (s : RetryBackend) (c : ℕ) (k : RetryCall) (phase : RetryPhase) : RetryBackend :=
  s.setCall c { k with phase := phase }

/-- A call returns. -/
def ret (s : RetryBackend) (c : ℕ) (k : RetryCall) (result : RetryResult) : RetryBackend :=
  s.setCall c { k with result := result, phase := .returned }

/-- A call has processed an answer. -/
def finish (s : RetryBackend) (c : ℕ) (k : RetryCall) (header : Bytes) (retryAfter : Duration)
    (time : Time) : RetryBackend :=
  { s.goto c k (.noted retryAfter) with
    processed := s.processed ++ [⟨header, time, s.deadline⟩] }

/-- The result of a call that ends without another attempt. -/
def orElse (result fallback : RetryResult) : RetryResult :=
  if result = .unset then fallback else result

/-- The bound of the random part of a sleep. -/
def jitter (attempt : ℕ) : Duration :=
  let d := int64 (retryBaseDelay * 2 ^ attempt)
  if retryMaxDelay < d ∨ d ≤ 0 then retryMaxDelay else d

/-- How long `sleepBackoff` sleeps if nothing stops it. -/
def backoffDelay (r : ℕ) (atLeast : Duration) : Duration :=
  if 0 < atLeast then max r (min atLeast retryMaxDelay) else r

/-- A call gets an answer. -/
def answered (parseTime : Bytes → Option Time) (s : RetryBackend) (c : ℕ) (k : RetryCall)
    (a : RetryAnswer) : RetryBackend :=
  let k' := { k with result := .answered a }
  match a with
  | .noAnswer => s.ret c k (.answered a)
  | .failure => s.goto c k' (.noted 0)
  | .response status header =>
    if transientStatus status then
      let retryAfter := parseRetryAfter parseTime s.now header
      if 0 < retryAfter then s.goto c k' (.parsed header retryAfter)
      else s.finish c k' header retryAfter s.now
    else s.ret c k (.answered a)

/-- A step of a call. -/
def callStep (parseTime : Bytes → Option Time) (s : RetryBackend) (c : ℕ) (k : RetryCall) :
    CallLabel → RetryPhase → Option RetryBackend
  | .giveUp, .checking => some (s.ret c k (orElse k.result .canceled))
  | .load, .checking => some (s.goto c k (.loaded s.shedUntil s.processed.length))
  | .compare r, .loaded shedUntil seen =>
    let quiet := timeSince (unixTime shedUntil) s.now
    if 0 < quiet then
      if k.maxRetries ≤ k.attempt then some (s.ret c k (orElse k.result .heldBack))
      else if jitter k.attempt < r then none
      else some (s.goto c k (.sleeping (s.now + int64 (quiet + r))))
    else some (s.goto c k (.passed seen))
  | .ask mayAsk, .passed seen =>
    if mayAsk then some (s.goto c k (.allowed seen)) else some (s.ret c k .serverDown)
  | .send, .allowed seen =>
    some { s.goto c k .waiting with sent := s.sent ++ [⟨c, s.now, seen⟩] }
  | .answer a, .waiting => some (s.answered parseTime c k a)
  | .note, .parsed header retryAfter =>
    some (s.goto c k (.noting ⟨header, retryAfter, s.now, unixNano (s.now + retryAfter)⟩))
  | .loadShed, .noting shed => some (s.goto c k (.swapping shed s.shedUntil))
  | .swap, .swapping shed cur =>
    if shed.untilNano ≤ cur then some (s.finish c k shed.header shed.retryAfter shed.time)
    else if s.shedUntil = cur then
      some ({ s with shedUntil := shed.untilNano }.finish c k shed.header shed.retryAfter shed.time)
    else some (s.goto c k (.noting shed))
  | .backoff r, .noted retryAfter =>
    if k.maxRetries ≤ k.attempt then some (s.ret c k k.result)
    else if jitter k.attempt < r then none
    else some (s.goto c k (.sleeping (s.now + backoffDelay r retryAfter)))
  | .wake, .sleeping wakeAt =>
    if s.stopped ∨ wakeAt ≤ s.now then
      some (s.setCall c { k with attempt := k.attempt + 1, phase := .checking })
    else none
  | _, _ => none

/-- One step. -/
def step (parseTime : Bytes → Option Time) (s : RetryBackend) : Label → Option RetryBackend
  | .tick d => some { s with now := s.now + d }
  | .stop => some { s with stopped := true }
  | .begin maxRetries => some { s with calls := s.calls ++ [⟨maxRetries, 0, .unset, .checking⟩] }
  | .call c l => s.calls[c]?.bind fun k => s.callStep parseTime c k l k.phase

/-- A backend whose server has not asked for quiet. -/
def start (now : Time) : RetryBackend :=
  ⟨now, false, 0, [], [], []⟩

/-- How many requests a call has sent. -/
def sends (s : RetryBackend) (c : ℕ) : ℕ :=
  s.sent.countP (·.call == c)

end RetryBackend

/-! ## What the server has asked for -/

/-- The answer asks for `n` seconds. -/
def ProcessedAnswer.Asks (p : ProcessedAnswer) (n : ℤ) : Prop :=
  atoi p.header = some n ∧ 1 ≤ n

/-- The seconds fit a `time.Duration`, and the end of the quiet period fits `UnixNano`. -/
def ProcessedAnswer.Fits (p : ProcessedAnswer) (n : ℤ) : Prop :=
  SecondsFit n ∧ p.time + askedQuiet n < unixEpoch + 2 ^ 63

/-- The deadline is not before what the server has asked for. -/
def ProcessedAnswer.Honoured (p : ProcessedAnswer) : Prop :=
  ∀ n, p.Asks n → p.Fits n → p.time + askedQuiet n ≤ p.deadline

/-- A later deadline is as good. -/
lemma ProcessedAnswer.Honoured.mono {header : Bytes} {time d d' : Time}
    (h : ProcessedAnswer.Honoured ⟨header, time, d⟩) (hle : d ≤ d') :
    ProcessedAnswer.Honoured ⟨header, time, d'⟩ :=
  fun n hasks hfits => (h n hasks hfits).trans hle

namespace RetryBackend

variable {parseTime : Bytes → Option Time} {s s' t : RetryBackend} {c : ℕ} {k k' : RetryCall}

/-- An answer that asks for no quiet, as the code sees it, does not ask for as many seconds as
fit. -/
lemma honoured_of_nonpos {header : Bytes} {now d : Time}
    (h : ¬ 0 < parseRetryAfter parseTime now header) :
    ProcessedAnswer.Honoured ⟨header, now, d⟩ := by
  rintro n ⟨hasks, hn⟩ ⟨hfit, -⟩
  refine absurd ?_ h
  rw [(parseRetryAfter_eq_iff parseTime now hasks hn).mpr hfit]
  exact lt_min (Int.mul_pos (by omega) (by decide)) (by decide)

/-- The end of the quiet period as `noteShed` computes it. -/
lemma honoured_unixNano {header : Bytes} {now now' : Time} :
    ProcessedAnswer.Honoured ⟨header, now',
      unixTime (unixNano (now' + parseRetryAfter parseTime now header))⟩ := by
  rintro n ⟨hasks, hn⟩ ⟨hfit, htime⟩
  rw [(parseRetryAfter_eq_iff parseTime now hasks hn).mpr hfit]
  exact le_unixTime_unixNano htime

/-! ## The invariant -/

/-- The deadlines that the first `seen` answers have left behind have passed at the time `time`. -/
def Passed (s : RetryBackend) (seen : ℕ) (time : Time) : Prop :=
  seen ≤ s.processed.length ∧ ∀ p ∈ s.processed.take seen, p.deadline ≤ time

/-- What a call knows. -/
def PhaseOk (parseTime : Bytes → Option Time) (s : RetryBackend) : RetryPhase → Prop
  | .loaded shedUntil seen => s.Passed seen (unixTime shedUntil)
  | .passed seen => s.Passed seen s.now
  | .allowed seen => s.Passed seen s.now
  | .parsed header retryAfter => ∃ now, retryAfter = parseRetryAfter parseTime now header
  | .noting shed => ProcessedAnswer.Honoured ⟨shed.header, shed.time, unixTime shed.untilNano⟩
  | .swapping shed cur =>
    cur ≤ s.shedUntil ∧
      ProcessedAnswer.Honoured ⟨shed.header, shed.time, unixTime shed.untilNano⟩
  | .checking | .waiting | .noted _ | .sleeping _ | .returned => True

/-- Whether the attempt may have sent a request. -/
def spent : RetryPhase → ℕ
  | .checking | .loaded _ _ | .passed _ | .allowed _ => 0
  | .waiting | .parsed _ _ | .noting _ | .swapping _ _ | .noted _ | .sleeping _ | .returned => 1

lemma spent_le_one (phase : RetryPhase) : spent phase ≤ 1 := by
  cases phase <;> simp [spent]

/-- Whether there will be another attempt. -/
def ahead : RetryPhase → ℕ
  | .sleeping _ => 1
  | .checking | .loaded _ _ | .passed _ | .allowed _ | .waiting | .parsed _ _ | .noting _
  | .swapping _ _ | .noted _ | .returned => 0

/-- What holds for a call. -/
structure CallOk (parseTime : Bytes → Option Time) (s : RetryBackend) (c : ℕ) (k : RetryCall) :
    Prop where
  /-- What it knows is right. -/
  phase : PhaseOk parseTime s k.phase
  /-- It has sent no more than one request for each attempt. -/
  sends_le : s.sends c ≤ k.attempt + spent k.phase
  /-- The attempts are bounded. -/
  attempt_le : ((k.attempt + ahead k.phase : ℕ) : ℤ) ≤ max k.maxRetries 0

/-- What holds at any time. -/
structure Inv (parseTime : Bytes → Option Time) (s : RetryBackend) : Prop where
  /-- The calls are right. -/
  calls : ∀ c k, s.calls[c]? = some k → CallOk parseTime s c k
  /-- The server gets what it has asked for. -/
  honoured : ∀ p ∈ s.processed, p.Honoured
  /-- The deadline has not moved back. -/
  deadline_le : ∀ p ∈ s.processed, p.deadline ≤ s.deadline
  /-- Requests were sent after the deadlines that their calls have seen. -/
  sent : ∀ x ∈ s.sent, s.Passed x.seen x.time
  /-- They are requests of the calls. -/
  sent_call : ∀ x ∈ s.sent, x.call < s.calls.length

/-- What a step does: it keeps the invariant, and does not move the deadline back. -/
structure Kept (parseTime : Bytes → Option Time) (s s' : RetryBackend) : Prop where
  /-- The invariant holds afterwards. -/
  inv : s'.Inv parseTime
  /-- The deadline is not earlier. -/
  shedUntil_le : s.shedUntil ≤ s'.shedUntil

lemma inv_start (parseTime : Bytes → Option Time) (now : Time) : Inv parseTime (start now) where
  calls := by simp [start]
  honoured := by simp [start]
  deadline_le := by simp [start]
  sent := by simp [start]
  sent_call := by simp [start]

/-- Answers are processed after those that were processed before, and time does not go back. -/
lemma Passed.mono {seen : ℕ} {time time' : Time} (h : s.Passed seen time)
    (hprocessed : s.processed <+: s'.processed) (htime : time ≤ time') :
    s'.Passed seen time' := by
  obtain ⟨more, hmore⟩ := hprocessed
  refine ⟨h.1.trans ?_, ?_⟩
  · rw [← hmore, List.length_append]
    exact Nat.le_add_right _ _
  · rw [← hmore, List.take_append_of_le_length h.1]
    exact fun p hp => (h.2 p hp).trans htime

lemma PhaseOk.mono {phase : RetryPhase} (h : PhaseOk parseTime s phase)
    (hprocessed : s.processed <+: s'.processed) (hnow : s.now ≤ s'.now)
    (hshed : s.shedUntil ≤ s'.shedUntil) : PhaseOk parseTime s' phase := by
  cases phase with
  | loaded shedUntil seen => exact Passed.mono h hprocessed le_rfl
  | passed seen => exact Passed.mono h hprocessed hnow
  | allowed seen => exact Passed.mono h hprocessed hnow
  | parsed header retryAfter => exact h
  | noting shed => exact h
  | swapping shed cur => exact ⟨h.1.trans hshed, h.2⟩
  | checking | waiting | noted _ | sleeping _ | returned => trivial

/-- A call goes on, other calls do not; answers may have been processed, and the deadline raised. -/
lemma Inv.update (h : s.Inv parseTime) (hc : s.calls[c]? = some k)
    (hcalls : s'.calls = s.calls.set c k') (hnow : s'.now = s.now)
    (hprocessed : s.processed <+: s'.processed) (hshed : s.shedUntil ≤ s'.shedUntil)
    (hsent : s'.sent = s.sent) (hphase : PhaseOk parseTime s' k'.phase)
    (hsends : s.sends c ≤ k'.attempt + spent k'.phase)
    (hattempt : ((k'.attempt + ahead k'.phase : ℕ) : ℤ) ≤ max k'.maxRetries 0)
    (hnew : ∀ p ∈ s'.processed, p ∈ s.processed ∨ p.Honoured ∧ p.deadline ≤ s'.deadline) :
    Kept parseTime s s' := by
  have hsends_eq : ∀ c', s'.sends c' = s.sends c' := by
    intro c'
    rw [sends, hsent, sends]
  have hdeadline : s.deadline ≤ s'.deadline := Int.add_le_add_left hshed unixEpoch
  refine ⟨⟨?_, ?_, ?_, ?_, ?_⟩, hshed⟩
  · intro c' k₀ hk₀
    rw [hcalls, Parties.getElem?_set hc] at hk₀
    split_ifs at hk₀ with heq
    · obtain rfl := Option.some.inj hk₀
      subst heq
      exact ⟨hphase, (hsends_eq c').trans_le hsends, hattempt⟩
    · have hold := h.calls c' k₀ hk₀
      exact ⟨hold.phase.mono hprocessed hnow.ge hshed, (hsends_eq c').trans_le hold.sends_le,
        hold.attempt_le⟩
  · intro p hp
    rcases hnew p hp with hold | hnew
    · exact h.honoured p hold
    · exact hnew.1
  · intro p hp
    rcases hnew p hp with hold | hnew
    · exact (h.deadline_le p hold).trans hdeadline
    · exact hnew.2
  · intro x hx
    rw [hsent] at hx
    exact (h.sent x hx).mono hprocessed le_rfl
  · intro x hx
    rw [hsent] at hx
    rw [hcalls, List.length_set]
    exact h.sent_call x hx

/-- A call goes on, and nothing else happens. -/
lemma Inv.setCall (h : s.Inv parseTime) (hc : s.calls[c]? = some k)
    (hphase : PhaseOk parseTime s k'.phase) (hsends : s.sends c ≤ k'.attempt + spent k'.phase)
    (hattempt : ((k'.attempt + ahead k'.phase : ℕ) : ℤ) ≤ max k'.maxRetries 0) :
    Kept parseTime s (s.setCall c k') :=
  h.update hc rfl rfl (List.prefix_refl _) le_rfl rfl
    (hphase.mono (List.prefix_refl _) le_rfl le_rfl) hsends hattempt fun _ hp => .inl hp

/-- A call has processed an answer. -/
lemma Inv.finish (h : s.Inv parseTime) (hc : s.calls[c]? = some k) {shedUntil : ℤ}
    {header : Bytes} {retryAfter : Duration} {time : Time} {result : RetryResult}
    (hshed : s.shedUntil ≤ shedUntil) (hphase : spent k.phase = 1)
    (hhonoured : ProcessedAnswer.Honoured ⟨header, time, unixTime shedUntil⟩) :
    Kept parseTime s ({ s with shedUntil := shedUntil }.finish c { k with result := result }
      header retryAfter time) := by
  have hk := h.calls c k hc
  refine h.update hc rfl rfl (List.prefix_append _ _) hshed rfl trivial ?_ ?_ ?_
  · have hle := hk.sends_le
    rw [hphase] at hle
    exact hle
  · refine le_trans ?_ hk.attempt_le
    exact Int.ofNat_le.mpr (Nat.add_le_add_left (Nat.zero_le _) _)
  · intro p hp
    rcases List.mem_append.mp hp with hold | hnew
    · exact .inl hold
    · rw [List.mem_singleton.mp hnew]
      exact .inr ⟨hhonoured, le_rfl⟩

/-- A call goes on within its attempt. -/
lemma Inv.goto (h : s.Inv parseTime) (hc : s.calls[c]? = some k) {phase : RetryPhase}
    {result : RetryResult} (hphase : PhaseOk parseTime s phase)
    (hspent : spent k.phase ≤ spent phase) (hahead : ahead phase = 0) :
    Kept parseTime s (s.setCall c { k with result := result, phase := phase }) := by
  have hk := h.calls c k hc
  refine h.setCall hc hphase ?_ ?_
  · exact hk.sends_le.trans (Nat.add_le_add_left hspent _)
  · refine le_trans ?_ hk.attempt_le
    change ((k.attempt + ahead phase : ℕ) : ℤ) ≤ _
    rw [hahead]
    exact Int.ofNat_le.mpr (Nat.le_add_right _ _)

/-- A call that may try again goes to sleep. -/
lemma Inv.sleep (h : s.Inv parseTime) (hc : s.calls[c]? = some k) {wakeAt : Time}
    (hretry : ¬ k.maxRetries ≤ k.attempt) :
    Kept parseTime s (s.goto c k (.sleeping wakeAt)) := by
  refine h.setCall hc trivial ?_ ?_
  · exact (h.calls c k hc).sends_le.trans (Nat.add_le_add_left (spent_le_one _) _)
  · simp only [ahead]
    omega

/-- A call that has found the deadline passed sends its request. -/
lemma Inv.send (h : s.Inv parseTime) (hc : s.calls[c]? = some k) {seen : ℕ}
    (hphase : k.phase = .allowed seen) :
    Kept parseTime s { s.goto c k .waiting with sent := s.sent ++ [⟨c, s.now, seen⟩] } := by
  have hk := h.calls c k hc
  have hpassed := hk.phase
  have hsends := hk.sends_le
  rw [hphase] at hpassed hsends
  have hspent : spent k.phase ≤ spent .waiting := hphase ▸ Nat.zero_le _
  obtain ⟨hold, hshed⟩ : Kept parseTime s (s.goto c k .waiting) := h.goto hc trivial hspent rfl
  refine ⟨⟨?_, hold.honoured, hold.deadline_le, ?_, ?_⟩, hshed⟩
  · intro c' k₀ hk₀
    have hcall := hold.calls c' k₀ hk₀
    refine ⟨hcall.phase, ?_, hcall.attempt_le⟩
    by_cases heq : c' = c
    · -- the request is counted for the call that has sent it
      subst heq
      change (s.calls.set c' _)[c']? = some k₀ at hk₀
      rw [Parties.getElem?_set hc, if_pos rfl] at hk₀
      obtain rfl := Option.some.inj hk₀
      simp only [sends, List.countP_append, List.countP_singleton, beq_self_eq_true, if_true,
        spent] at hsends ⊢
      omega
    · have hne : (c == c') = false := by simpa using Ne.symm heq
      have hsame := hcall.sends_le
      simp only [sends, List.countP_append, List.countP_singleton, hne] at hsame ⊢
      exact hsame
  · intro x hx
    rcases List.mem_append.mp hx with hx | hx
    · exact hold.sent x hx
    · rw [List.mem_singleton.mp hx]
      exact hpassed
  · intro x hx
    rcases List.mem_append.mp hx with hx | hx
    · exact hold.sent_call x hx
    · rw [List.mem_singleton.mp hx]
      change c < (s.calls.set c _).length
      rw [List.length_set]
      exact (List.getElem?_eq_some_iff.mp hc).1

lemma Inv.answered (h : s.Inv parseTime) (hc : s.calls[c]? = some k) (hphase : k.phase = .waiting)
    (a : RetryAnswer) : Kept parseTime s (s.answered parseTime c k a) := by
  have hspent : spent k.phase = 1 := by rw [hphase, spent]
  cases a with
  | noAnswer => exact h.goto hc trivial hspent.le rfl
  | failure => exact h.goto hc trivial hspent.le rfl
  | response status header =>
    simp only [RetryBackend.answered]
    split_ifs with htransient hquiet
    · exact h.goto hc ⟨s.now, rfl⟩ hspent.le rfl
    · exact h.finish hc le_rfl hspent (honoured_of_nonpos hquiet)
    · exact h.goto hc trivial hspent.le rfl

/-- The deadline has passed when a call finds that there is no quiet period. -/
lemma unixTime_le_of_timeSince {shedUntil : ℤ} {now : Time}
    (h : ¬ 0 < timeSince (unixTime shedUntil) now) : unixTime shedUntil ≤ now := by
  by_contra hlater
  refine h (lt_max_of_lt_right (lt_min (by decide) ?_))
  exact Int.sub_pos.mpr (not_le.mp hlater)

/-- A call compares the deadline that it has read with the time. -/
lemma Inv.compare (h : s.Inv parseTime) (hc : s.calls[c]? = some k) {shedUntil : ℤ} {seen r : ℕ}
    (hphase : k.phase = .loaded shedUntil seen)
    (hstep : callStep parseTime s c k (.compare r) (.loaded shedUntil seen) = some s') :
    Kept parseTime s s' := by
  have hknows := (h.calls c k hc).phase
  have hspent : spent k.phase = 0 := by rw [hphase, spent]
  rw [hphase] at hknows
  simp only [RetryBackend.callStep] at hstep
  split_ifs at hstep with hquiet hlast hrandom
  · obtain rfl := Option.some.inj hstep
    exact h.goto hc trivial (hspent ▸ Nat.zero_le _) rfl
  · obtain rfl := Option.some.inj hstep
    exact h.sleep hc hlast
  · obtain rfl := Option.some.inj hstep
    have hpassed := unixTime_le_of_timeSince hquiet
    exact h.goto hc (Passed.mono hknows (List.prefix_refl _) hpassed) hspent.le rfl

/-- `noteShed` raises the deadline, finds it late enough, or has to read it again. -/
lemma Inv.swap (h : s.Inv parseTime) (hc : s.calls[c]? = some k) {shed : Shed} {cur : ℤ}
    (hphase : k.phase = .swapping shed cur)
    (hstep : callStep parseTime s c k .swap (.swapping shed cur) = some s') :
    Kept parseTime s s' := by
  have hknows := (h.calls c k hc).phase
  have hspent : spent k.phase = 1 := by rw [hphase, spent]
  rw [hphase] at hknows
  simp only [RetryBackend.callStep] at hstep
  split_ifs at hstep with hlow hsame
  · obtain rfl := Option.some.inj hstep
    -- the deadline is late enough, and was when it was read
    have hlate : unixTime shed.untilNano ≤ unixTime s.shedUntil :=
      Int.add_le_add_left (hlow.trans hknows.1) unixEpoch
    exact h.finish hc le_rfl hspent (hknows.2.mono hlate)
  · obtain rfl := Option.some.inj hstep
    refine h.finish hc ?_ hspent hknows.2
    omega
  · obtain rfl := Option.some.inj hstep
    exact h.goto hc hknows.2 hspent.le rfl

/-- A step of a call keeps the invariant, and does not move the deadline back. -/
lemma Inv.callStep {l : CallLabel} (h : s.Inv parseTime) (hc : s.calls[c]? = some k)
    (hstep : callStep parseTime s c k l k.phase = some s') : Kept parseTime s s' := by
  have hk := h.calls c k hc
  have hknows := hk.phase
  cases hphase : k.phase with
  | checking =>
    rw [hphase] at hstep
    have hspent : spent k.phase = 0 := by rw [hphase, spent]
    cases l <;> simp only [RetryBackend.callStep, reduceCtorEq] at hstep
    · obtain rfl := Option.some.inj hstep
      exact h.goto hc trivial (hspent ▸ Nat.zero_le _) rfl
    · obtain rfl := Option.some.inj hstep
      refine h.goto hc ⟨le_rfl, ?_⟩ hspent.le rfl
      rw [List.take_length]
      exact h.deadline_le
  | loaded shedUntil seen =>
    rw [hphase] at hstep
    cases l <;> simp only [reduceCtorEq, RetryBackend.callStep] at hstep
    exact h.compare hc hphase hstep
  | passed seen =>
    rw [hphase] at hstep hknows
    have hspent : spent k.phase = 0 := by rw [hphase, spent]
    cases l <;> simp only [RetryBackend.callStep, reduceCtorEq] at hstep
    split_ifs at hstep
    · obtain rfl := Option.some.inj hstep
      exact h.goto hc hknows hspent.le rfl
    · obtain rfl := Option.some.inj hstep
      exact h.goto hc trivial (hspent ▸ Nat.zero_le _) rfl
  | allowed seen =>
    rw [hphase] at hstep
    cases l <;> simp only [RetryBackend.callStep, reduceCtorEq] at hstep
    obtain rfl := Option.some.inj hstep
    exact h.send hc hphase
  | waiting =>
    rw [hphase] at hstep
    cases l <;> simp only [RetryBackend.callStep, reduceCtorEq] at hstep
    obtain rfl := Option.some.inj hstep
    exact h.answered hc hphase _
  | parsed header retryAfter =>
    rw [hphase] at hstep hknows
    have hspent : spent k.phase = 1 := by rw [hphase, spent]
    cases l <;> simp only [RetryBackend.callStep, reduceCtorEq] at hstep
    obtain rfl := Option.some.inj hstep
    obtain ⟨now, rfl⟩ := hknows
    exact h.goto hc honoured_unixNano hspent.le rfl
  | noting shed =>
    rw [hphase] at hstep hknows
    have hspent : spent k.phase = 1 := by rw [hphase, spent]
    cases l <;> simp only [RetryBackend.callStep, reduceCtorEq] at hstep
    obtain rfl := Option.some.inj hstep
    exact h.goto hc ⟨le_rfl, hknows⟩ hspent.le rfl
  | swapping shed cur =>
    rw [hphase] at hstep
    cases l <;> simp only [reduceCtorEq, RetryBackend.callStep] at hstep
    exact h.swap hc hphase hstep
  | noted retryAfter =>
    rw [hphase] at hstep
    have hspent : spent k.phase = 1 := by rw [hphase, spent]
    cases l <;> simp only [RetryBackend.callStep, reduceCtorEq] at hstep
    split_ifs at hstep with hlast
    · obtain rfl := Option.some.inj hstep
      exact h.goto hc trivial hspent.le rfl
    · obtain rfl := Option.some.inj hstep
      exact h.sleep hc hlast
  | sleeping wakeAt =>
    have hattempt := hk.attempt_le
    have hsends := hk.sends_le
    rw [hphase] at hstep hattempt hsends
    cases l <;> simp only [RetryBackend.callStep, reduceCtorEq] at hstep
    split_ifs at hstep
    obtain rfl := Option.some.inj hstep
    exact h.setCall hc trivial hsends hattempt
  | returned =>
    rw [hphase] at hstep
    cases l <;> simp [RetryBackend.callStep] at hstep

/-- Every step keeps the invariant, and does not move the deadline back. -/
lemma Inv.step {l : Label} (h : s.Inv parseTime) (hstep : step parseTime s l = some s') :
    Kept parseTime s s' := by
  cases l with
  | tick d =>
    obtain rfl := Option.some.inj hstep
    have hnow : s.now ≤ s.now + d := le_add_of_nonneg_right (Int.natCast_nonneg d)
    refine ⟨⟨?_, h.honoured, h.deadline_le, h.sent, h.sent_call⟩, le_rfl⟩
    intro c k hc
    have hk := h.calls c k hc
    exact ⟨hk.phase.mono (List.prefix_refl _) hnow le_rfl, hk.sends_le, hk.attempt_le⟩
  | stop =>
    obtain rfl := Option.some.inj hstep
    refine ⟨⟨?_, h.honoured, h.deadline_le, h.sent, h.sent_call⟩, le_rfl⟩
    intro c k hc
    have hk := h.calls c k hc
    exact ⟨hk.phase.mono (List.prefix_refl _) le_rfl le_rfl, hk.sends_le, hk.attempt_le⟩
  | begin maxRetries =>
    obtain rfl := Option.some.inj hstep
    refine ⟨⟨?_, h.honoured, h.deadline_le, h.sent, ?_⟩, le_rfl⟩
    · intro c k hc
      rcases Parties.getElem?_concat_cases hc with hold | ⟨rfl, rfl⟩
      · have hk := h.calls c k hold
        exact ⟨hk.phase.mono (List.prefix_refl _) le_rfl le_rfl, hk.sends_le, hk.attempt_le⟩
      · refine ⟨trivial, ?_, le_max_right _ _⟩
        -- no request has been sent for a call that did not exist
        refine (List.countP_eq_zero.mpr ?_).le
        intro x hx
        simpa using (h.sent_call x hx).ne
    · intro x hx
      rw [List.length_append]
      exact (h.sent_call x hx).trans_le (Nat.le_add_right _ _)
  | call c l =>
    obtain ⟨k, hc, hstep⟩ := Option.bind_eq_some_iff.mp hstep
    exact h.callStep hc hstep

/-- A server's request for quiet is honoured. After an answer that asks for `n` seconds has been
processed, the deadline is at least that much later, up to `retryMaxDelay`, if the seconds fit. The
deadline never moves back. A request is sent no earlier than the deadline that any answer has left
behind which was processed before the check for quiet began. And a call sends at most
`maxRetries + 1` requests, or one if `maxRetries` is negative. -/
theorem quiet_honoured (parseTime : Bytes → Option Time) (now : Time) {ls ls' : List Label}
    (hs : run (step parseTime) (start now) ls = some s)
    (ht : run (step parseTime) s ls' = some t) :
    (∀ p ∈ s.processed, ∀ n, p.Asks n → p.Fits n → p.time + askedQuiet n ≤ p.deadline) ∧
      (∀ p ∈ s.processed, p.deadline ≤ s.deadline) ∧ s.deadline ≤ t.deadline ∧
      (∀ x ∈ s.sent, ∀ p ∈ s.processed.take x.seen, p.deadline ≤ x.time) ∧
      ∀ c k, s.calls[c]? = some k → (s.sends c : ℤ) ≤ max k.maxRetries 0 + 1 := by
  have hinv : s.Inv parseTime :=
    run_invariant_of_step (fun _ _ _ h hstep => (h.step hstep).inv) (inv_start parseTime now) hs
  have hlate : Kept parseTime s t := by
    refine run_invariant_of_step ?_ ⟨hinv, le_rfl⟩ ht
    intro u l u' hu hstep
    have hnext := hu.inv.step hstep
    exact ⟨hnext.inv, hu.shedUntil_le.trans hnext.shedUntil_le⟩
  refine ⟨hinv.honoured, hinv.deadline_le, Int.add_le_add_left hlate.shedUntil_le unixEpoch,
    fun x hx => (hinv.sent x hx).2, ?_⟩
  intro c k hc
  have hk := hinv.calls c k hc
  have hsends := hk.sends_le
  have hattempt := hk.attempt_le
  have hspent := spent_le_one k.phase
  omega

/-- A parser of dates, for headers that are numbers. -/
def noDate : Bytes → Option Time := fun _ => none

/-- An attempt that finds no quiet period, and its answer. -/
def attempt (c : ℕ) (header : Bytes) : List Label :=
  [.call c .load, .call c (.compare 0), .call c (.ask true), .call c .send,
    .call c (.answer (.response 503 header))]

/-- A call is answered with a quiet period of one second, and another one is held back. -/
def oneSecond : List Label :=
  List.flatten [[.begin 1, .begin 0], attempt 0 (ascii "1"),
    [.call 0 .note, .call 0 .loadShed, .call 0 .swap, .call 1 .load, .call 1 (.compare 0),
      .call 0 (.backoff 0), .tick (10 ^ 9), .call 0 .wake], attempt 0 []]

theorem quiet_honoured_oneSecond :
    ∃ s, run (step noDate) (start unixEpoch) oneSecond = some s ∧
      s.processed[0]? = some ⟨ascii "1", unixEpoch, unixEpoch + 10 ^ 9⟩ ∧
      (∀ p ∈ s.processed, ∀ n, p.Asks n → p.Fits n → p.time + askedQuiet n ≤ p.deadline) ∧
      ProcessedAnswer.Asks ⟨ascii "1", unixEpoch, unixEpoch + 10 ^ 9⟩ 1 ∧
      ProcessedAnswer.Fits ⟨ascii "1", unixEpoch, unixEpoch + 10 ^ 9⟩ 1 ∧
      s.sent = [⟨0, unixEpoch, 0⟩, ⟨0, unixEpoch + 10 ^ 9, 1⟩] ∧
      ∀ x ∈ s.sent, ∀ p ∈ s.processed.take x.seen, p.deadline ≤ x.time := by
  have hrun : (run (step noDate) (start unixEpoch) oneSecond).map
      (fun s => (s.processed[0]?, s.sent)) =
        some (some ⟨ascii "1", unixEpoch, unixEpoch + 10 ^ 9⟩,
          [⟨0, unixEpoch, 0⟩, ⟨0, unixEpoch + 10 ^ 9, 1⟩]) := by
    decide +kernel
  obtain ⟨s, hs, heq⟩ := Option.map_eq_some_iff.mp hrun
  obtain ⟨hprocessed, hsent⟩ := Prod.mk.inj heq
  have hstay : run (step noDate) s [] = some s := rfl
  obtain ⟨hhonoured, -, -, hlater, -⟩ := quiet_honoured noDate unixEpoch hs hstay
  exact ⟨s, hs, hprocessed, hhonoured, ⟨by decide +kernel, le_rfl⟩,
    ⟨⟨by decide +kernel, by decide +kernel⟩, by decide +kernel⟩, hsent, hlater⟩

/-- A call whose first answer asks for very many seconds. -/
def longQuiet : List Label :=
  List.flatten [[.begin 1], attempt 0 (ascii "9223372037"),
    [.call 0 (.backoff 0), .call 0 .wake], attempt 0 []]

/-- The seconds wrap around to a negative duration: the deadline is not set, and the next request
is sent at once. -/
theorem retryAfter_wraps :
    ∃ s, run (step noDate) (start unixEpoch) longQuiet = some s ∧
      s.processed[0]? = some ⟨ascii "9223372037", unixEpoch, unixEpoch⟩ ∧
      ProcessedAnswer.Asks ⟨ascii "9223372037", unixEpoch, unixEpoch⟩ 9223372037 ∧
      s.deadline < unixEpoch + askedQuiet 9223372037 ∧
      s.sent = [⟨0, unixEpoch, 0⟩, ⟨0, unixEpoch, 1⟩] := by
  have hrun : (run (step noDate) (start unixEpoch) longQuiet).map
      (fun s => (s.processed[0]?, s.deadline, s.sent)) =
        some (some ⟨ascii "9223372037", unixEpoch, unixEpoch⟩, unixEpoch,
          [⟨0, unixEpoch, 0⟩, ⟨0, unixEpoch, 1⟩]) := by
    decide +kernel
  obtain ⟨s, hs, heq⟩ := Option.map_eq_some_iff.mp hrun
  obtain ⟨hprocessed, hrest⟩ := Prod.mk.inj heq
  obtain ⟨hdeadline, hsent⟩ := Prod.mk.inj hrest
  refine ⟨s, hs, hprocessed, ⟨by decide +kernel, by decide +kernel⟩, ?_, hsent⟩
  rw [hdeadline]
  decide +kernel

end RetryBackend

end GoBuildCache
