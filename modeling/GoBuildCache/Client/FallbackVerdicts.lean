import GoBuildCache.Foundation.Bytes
import GoBuildCache.Foundation.Transition

/-!
# Verdicts on the fallback of a module

A command without a manifest of its own fetches what the fallback of its module names, in parts,
as long as the build uses what has come. The fetch pauses when as many keys have landed as the next
verdict is due at. A paused fetch goes on, with the threshold doubled, when the build has used a
fifth of what was fetched, and stops for good when the build has made enough lookups without that
(`judgeLocked`). Before each part, `waitTurn` holds the fetch back until it may send more.

The fetcher, the requests under way and the lookups of the build are the parties. `waitTurn` looks
at the state under the lock, and if it has to wait it does so for the channel that was current then:
`signal` closes that channel and makes another. In any run the counters agree with each other, and
the fetcher does not wait for a verdict that nobody will give (`fallback_consistent`).
-/

open ByteString Transition

namespace GoBuildCache

/-- How many keys land before the first verdict. -/
def lookAheadJudgeAfter : ℤ := 256

/-- The share of the fetched entries that a build has to use, in percent. -/
def lookAheadMinUse : ℤ := 20

/-- How many keys a part has at most. -/
def batchMaxKeys : ℕ := 128

/-- The state of one fetch of a fallback. -/
structure ManifestFallback where
  /-- What has been fetched and the build has not used. -/
  brought : Finset Bytes
  /-- The channel that is closed when a pause ends. Those with a smaller number are closed. -/
  wake : ℕ
  /-- The number of landed keys at the next verdict. -/
  due : ℤ
  /-- The keys of the requests that came back. -/
  landed : ℤ
  /-- The entries that the requests brought. -/
  fetched : ℤ
  /-- The fetched entries that the build then used. -/
  used : ℤ
  /-- The lookups of the build. -/
  lookups : ℤ
  /-- The lookups when the pause began. -/
  pausedAt : ℤ
  /-- Whether a verdict is awaited. -/
  paused : Bool
  /-- Whether the fetch has been stopped. -/
  stopped : Bool

namespace ManifestFallback

/-- The state at the start. -/
def new : ManifestFallback :=
  ⟨∅, 0, lookAheadJudgeAfter, 0, 0, 0, 0, 0, false, false⟩

/-- Ends a wait. -/
def signal (f : ManifestFallback) : ManifestFallback :=
  { f with wake := f.wake + 1 }

/-- Decides a paused sample, if it can be decided. -/
def judgeLocked (f : ManifestFallback) : ManifestFallback :=
  if f.used * 100 ≥ f.fetched * lookAheadMinUse then
    signal { f with due := f.due * 2, paused := false }
  else if f.lookups - f.pausedAt < (f.fetched + 1).tdiv 2 then f
  else signal { f with paused := false, stopped := true }

/-- Takes in one entry. -/
def bring (f : ManifestFallback) (id : Bytes) : ManifestFallback :=
  if id ∈ f.brought then f
  else { f with brought := insert id f.brought, fetched := f.fetched + 1 }

/-- Records a request that came back. -/
def noteLanded (f : ManifestFallback) (keys : ℕ) (arrived : List Bytes) : ManifestFallback :=
  let f := arrived.foldl bring { f with landed := f.landed + keys }
  if f.landed ≥ f.due ∧ f.paused = false ∧ f.stopped = false then
    judgeLocked { f with paused := true, pausedAt := f.lookups }
  else f

/-- Takes out an entry that the build has used. -/
def use (f : ManifestFallback) (actionID : Bytes) (atHand : Bool) : ManifestFallback :=
  if atHand = true ∧ actionID ∈ f.brought then
    { f with brought := f.brought.erase actionID, used := f.used + 1 }
  else f

/-- Counts a lookup. -/
def noteLookup (f : ManifestFallback) (actionID : Bytes) (atHand : Bool) : ManifestFallback :=
  let f := use { f with lookups := f.lookups + 1 } actionID atHand
  if f.paused then judgeLocked f else f

/-- What `waitTurn` comes to under the lock. -/
inductive Turn where
  /-- The fetch has been stopped. -/
  | stop
  /-- The next part may be sent. -/
  | go
  /-- The fetch has to wait until a channel is closed. -/
  | wait (wake : ℕ)
  deriving DecidableEq

/-- The part of `waitTurn` under the lock. -/
def waitTurn (f : ManifestFallback) (dispatched : ℤ) : Turn :=
  if f.stopped then .stop
  else if dispatched < f.due ∧ f.paused = false then .go
  else .wait f.wake

end ManifestFallback

/-- Where the fetcher is. -/
inductive FetcherState where
  /-- Before `waitTurn` looks at the state. -/
  | atTurn
  /-- `waitTurn` waits for a channel. -/
  | waiting (wake : ℕ)
  /-- `waitTurn` has returned true. -/
  | granted
  /-- A part is offered to the workers. -/
  | offering (keys : ℕ)
  /-- The fetch is over. -/
  | ended
  deriving DecidableEq

/-- The fetch of a fallback. -/
structure FallbackFetch where
  /-- The shared state. -/
  fallback : ManifestFallback
  /-- The keys dispatched so far. -/
  dispatched : ℤ
  /-- Where the fetcher is. -/
  fetcher : FetcherState
  /-- The numbers of keys of the requests under way. -/
  inFlight : List ℕ
  /-- Whether the fetch has been cancelled, or the client is closing. -/
  closing : Bool

namespace FallbackFetch

/-- What can happen. -/
inductive Label where
  /-- `waitTurn` looks at the state. -/
  | check
  /-- `waitTurn` sees its channel closed. -/
  | wake
  /-- `waitTurn` sees that the fetch is cancelled. -/
  | leave
  /-- The fetcher cuts the next part. -/
  | dispatch (keys : ℕ)
  /-- A worker takes the part. -/
  | deliver
  /-- The fetcher sees that the fetch is cancelled, and no worker takes the part. -/
  | drop
  /-- No ids are left. -/
  | finish
  /-- A request comes back. -/
  | landed (i : ℕ) (arrived : List Bytes)
  /-- The build looks an action up. -/
  | lookup (actionID : Bytes) (atHand : Bool)
  /-- The fetch is cancelled, or the client starts to close. -/
  | close

/-- One step. -/
def step (s : FallbackFetch) : Label → Option FallbackFetch
  | .check =>
    if s.fetcher = .atTurn then
      match s.fallback.waitTurn s.dispatched with
      | .stop => some { s with fetcher := .ended }
      | .go => some { s with fetcher := .granted }
      | .wait w => some { s with fetcher := .waiting w }
    else none
  | .wake =>
    match s.fetcher with
    | .waiting w => if w < s.fallback.wake then some { s with fetcher := .atTurn } else none
    | _ => none
  | .leave =>
    match s.fetcher with
    | .waiting _ => if s.closing then some { s with fetcher := .ended } else none
    | _ => none
  | .dispatch keys =>
    if s.fetcher = .granted ∧ 1 ≤ keys ∧ keys ≤ batchMaxKeys then
      some { s with dispatched := s.dispatched + keys, fetcher := .offering keys }
    else none
  | .deliver =>
    match s.fetcher with
    | .offering keys => some { s with fetcher := .atTurn, inFlight := s.inFlight ++ [keys] }
    | _ => none
  | .drop =>
    match s.fetcher with
    | .offering _ => if s.closing then some { s with fetcher := .atTurn } else none
    | _ => none
  | .finish => if s.fetcher = .atTurn then some { s with fetcher := .ended } else none
  | .landed i arrived => s.inFlight[i]?.map fun keys =>
    { s with
      fallback := s.fallback.noteLanded keys arrived
      inFlight := s.inFlight.eraseIdx i }
  | .lookup actionID atHand => some { s with fallback := s.fallback.noteLookup actionID atHand }
  | .close => some { s with closing := true }

/-- Nothing has been fetched. -/
def start : FallbackFetch := ⟨.new, 0, .atTurn, [], false⟩

/-- `waitTurn` is called and blocks: it has to wait, or waits, for a channel that is open, and the
fetch is not cancelled. -/
def blocked (s : FallbackFetch) : Bool :=
  !s.closing &&
    match s.fetcher with
    | .atTurn =>
      match s.fallback.waitTurn s.dispatched with
      | .wait _ => true
      | _ => false
    | .waiting w => decide (s.fallback.wake ≤ w)
    | _ => false

end FallbackFetch

/-! ## The counters -/

namespace ManifestFallback

variable {f f' : ManifestFallback} {dispatched : ℤ}

/-- The counters agree with each other and with the number of keys dispatched. -/
structure Sound (f : ManifestFallback) (dispatched : ℤ) : Prop where
  /-- Every fetched entry is used or not. -/
  balance : f.used + f.brought.card = f.fetched
  /-- What has landed has been dispatched. -/
  landed_le : f.landed ≤ dispatched
  /-- The last part may go beyond the threshold. -/
  lt_due : dispatched < f.due + 128
  /-- The threshold is never small. -/
  due_ge : 256 ≤ f.due
  /-- A fetch that goes on has not reached the threshold. -/
  running : f.paused = false → f.stopped = false → f.landed < f.due

/-- What a lookup or a request that comes back does to a fetch that waits. Unless the channel is
closed, the threshold stays and a pause goes on. -/
structure Progress (f f' : ManifestFallback) : Prop where
  /-- The threshold is not lowered. -/
  due_le : f.due ≤ f'.due
  /-- A closed channel stays closed. -/
  wake_le : f.wake ≤ f'.wake
  /-- A stop stays. -/
  stopped : f.stopped = true → f'.stopped = true
  /-- Without a signal. -/
  still : f'.wake = f.wake →
    f'.due = f.due ∧ f'.stopped = f.stopped ∧ (f.paused = true → f'.paused = true)

lemma Progress.trans {g : ManifestFallback} (h : Progress f g) (h' : Progress g f') :
    Progress f f' := by
  refine ⟨h.due_le.trans h'.due_le, h.wake_le.trans h'.wake_le, fun hf => h'.stopped (h.stopped hf),
    ?_⟩
  intro hwake
  have hg : g.wake = f.wake := le_antisymm (h'.wake_le.trans hwake.le) h.wake_le
  obtain ⟨hdue, hstopped, hpaused⟩ := h.still hg
  obtain ⟨hdue', hstopped', hpaused'⟩ := h'.still (hwake.trans hg.symm)
  exact ⟨hdue'.trans hdue, hstopped'.trans hstopped, fun hf => hpaused' (hpaused hf)⟩

/-- What does not touch the threshold, the channel and the flags. -/
lemma progress_of_eq (hdue : f'.due = f.due) (hwake : f'.wake = f.wake)
    (hstopped : f'.stopped = f.stopped) (hpaused : f.paused = true → f'.paused = true) :
    Progress f f' :=
  ⟨hdue.ge, hwake.ge, fun h => hstopped.trans h, fun _ => ⟨hdue, hstopped, hpaused⟩⟩

lemma progress_judgeLocked (hdue : 0 ≤ f.due) : Progress f f.judgeLocked := by
  rw [judgeLocked]
  split_ifs with huse hwait
  · refine ⟨?_, Nat.le_succ _, fun h => h, fun h => absurd h (Nat.succ_ne_self _)⟩
    simp only [signal]
    omega
  · exact progress_of_eq rfl rfl rfl fun h => h
  · exact ⟨le_rfl, Nat.le_succ _, fun _ => rfl, fun h => absurd h (Nat.succ_ne_self _)⟩

/-- A verdict moves the threshold beyond all that has been dispatched, or stops the fetch. -/
lemma Sound.judgeLocked (h : Sound f dispatched) : Sound f.judgeLocked dispatched := by
  have hlanded := h.landed_le
  have hdispatched := h.lt_due
  have hdue := h.due_ge
  rw [ManifestFallback.judgeLocked]
  split_ifs with huse hwait
  · refine ⟨h.balance, hlanded, ?_, ?_, fun _ _ => ?_⟩ <;> simp only [signal] <;> omega
  · exact h
  · exact ⟨h.balance, hlanded, hdispatched, hdue, fun _ hrunning => by cases hrunning⟩

lemma foldl_bring (arrived : List Bytes) (f : ManifestFallback) :
    ∃ (brought : Finset Bytes) (fetched : ℤ),
      arrived.foldl bring f = { f with brought := brought, fetched := fetched } ∧
        fetched - brought.card = f.fetched - f.brought.card := by
  induction arrived generalizing f with
  | nil => exact ⟨f.brought, f.fetched, rfl, rfl⟩
  | cons id arrived ih =>
    rw [List.foldl_cons]
    obtain ⟨brought, fetched, heq, hcard⟩ := ih (f.bring id)
    rw [heq, bring]
    rw [bring] at hcard
    split_ifs at hcard ⊢ with hid
    · exact ⟨brought, fetched, rfl, hcard⟩
    · refine ⟨brought, fetched, rfl, ?_⟩
      rw [hcard, Finset.card_insert_of_notMem hid]
      push_cast
      ring

lemma use_eq (f : ManifestFallback) (actionID : Bytes) (atHand : Bool) :
    ∃ (brought : Finset Bytes) (used : ℤ),
      f.use actionID atHand = { f with brought := brought, used := used } ∧
        used + brought.card = f.used + f.brought.card := by
  rw [use]
  split_ifs with h
  · refine ⟨_, _, rfl, ?_⟩
    rw [← Finset.card_erase_add_one h.2]
    push_cast
    ring
  · exact ⟨f.brought, f.used, rfl, rfl⟩

/-- A request of at most the keys under way comes back. -/
lemma Sound.noteLanded (h : Sound f dispatched) (keys : ℕ) (hkeys : f.landed + keys ≤ dispatched)
    (arrived : List Bytes) :
    Sound (f.noteLanded keys arrived) dispatched ∧ Progress f (f.noteLanded keys arrived) ∧
      (f.noteLanded keys arrived).landed = f.landed + keys := by
  obtain ⟨brought, fetched, heq, hcard⟩ :=
    foldl_bring arrived { f with landed := f.landed + keys }
  have hbalance : f.used + brought.card = fetched := by
    have hbefore := h.balance
    simp only at hcard
    omega
  simp only [ManifestFallback.noteLanded, heq]
  split_ifs with hpause
  · have hsound : Sound { f with
        brought := brought, landed := f.landed + keys, fetched := fetched, paused := true,
        pausedAt := f.lookups } dispatched :=
      ⟨hbalance, hkeys, h.lt_due, h.due_ge, fun hrunning => by cases hrunning⟩
    refine ⟨hsound.judgeLocked, ?_, ?_⟩
    · refine Progress.trans ?_ (progress_judgeLocked ?_)
      · exact progress_of_eq rfl rfl rfl fun _ => rfl
      · have hdue := h.due_ge
        simp only
        omega
    · rw [ManifestFallback.judgeLocked]
      split_ifs <;> rfl
  · refine ⟨⟨hbalance, hkeys, h.lt_due, h.due_ge, ?_⟩, progress_of_eq rfl rfl rfl fun h => h, rfl⟩
    intro hpaused hstopped
    exact not_le.mp fun hge => hpause ⟨hge, hpaused, hstopped⟩

lemma Sound.noteLookup (h : Sound f dispatched) (actionID : Bytes) (atHand : Bool) :
    Sound (f.noteLookup actionID atHand) dispatched ∧ Progress f (f.noteLookup actionID atHand) ∧
      (f.noteLookup actionID atHand).landed = f.landed := by
  obtain ⟨brought, used, heq, hcard⟩ := use_eq { f with lookups := f.lookups + 1 } actionID atHand
  have hsound : Sound { f with brought := brought, used := used, lookups := f.lookups + 1 }
      dispatched :=
    ⟨hcard.trans h.balance, h.landed_le, h.lt_due, h.due_ge, h.running⟩
  simp only [ManifestFallback.noteLookup, heq]
  split_ifs with hpaused
  · refine ⟨hsound.judgeLocked, ?_, ?_⟩
    · refine Progress.trans ?_ (progress_judgeLocked ?_)
      · exact progress_of_eq rfl rfl rfl fun h => h
      · have hdue := h.due_ge
        simp only
        omega
    · rw [ManifestFallback.judgeLocked]
      split_ifs <;> rfl
  · exact ⟨hsound, progress_of_eq rfl rfl rfl fun h => h, rfl⟩

lemma eq_wake_of_waitTurn {w : ℕ} (h : f.waitTurn dispatched = .wait w) : w = f.wake := by
  rw [waitTurn] at h
  split_ifs at h
  exact (Turn.wait.inj h).symm

lemma lt_due_of_waitTurn (h : f.waitTurn dispatched = .go) : dispatched < f.due := by
  rw [waitTurn] at h
  split_ifs at h with _ hgo
  exact hgo.1

/-- A wait goes on as long as there is no signal. -/
lemma Progress.waitTurn (h : Progress f f') (hwake : f'.wake = f.wake)
    (hwait : f.waitTurn dispatched = .wait f.wake) :
    f'.waitTurn dispatched = .wait f'.wake := by
  obtain ⟨hdue, hstopped, hpaused⟩ := h.still hwake
  simp only [ManifestFallback.waitTurn, hdue, hstopped] at hwait ⊢
  split_ifs at hwait with hstop hgo
  rw [if_neg hstop, if_neg]
  rintro ⟨hlt, hrunning⟩
  refine hgo ⟨hlt, ?_⟩
  by_contra hp
  rw [hpaused (by simpa using hp)] at hrunning
  cases hrunning

end ManifestFallback

/-! ## The fetch -/

namespace FallbackFetch

open ManifestFallback

variable {s s' t : FallbackFetch} {l : Label} {f : ManifestFallback}

/-- The keys of a part that no worker has taken yet. -/
def offered : FetcherState → ℕ
  | .offering keys => keys
  | _ => 0

/-- What holds at any time. -/
structure Inv (s : FallbackFetch) : Prop where
  /-- The counters. -/
  sound : s.fallback.Sound s.dispatched
  /-- What has been dispatched has landed, is under way or is offered to a worker. -/
  flight_le : s.fallback.landed + s.inFlight.sum + offered s.fetcher ≤ s.dispatched
  /-- Only a fetch that has been cancelled drops a part. -/
  flight_eq : s.closing = false →
    s.fallback.landed + s.inFlight.sum + offered s.fetcher = s.dispatched
  /-- What `waitTurn` has granted stays granted. -/
  granted : s.fetcher = .granted → s.dispatched < s.fallback.due
  /-- The channel that the fetcher waits for is closed, or it has to wait. -/
  waiting : ∀ w, s.fetcher = .waiting w →
    w < s.fallback.wake ∨ s.fallback.waitTurn s.dispatched = .wait w

lemma inv_start : Inv start where
  sound := by
    refine ⟨rfl, le_rfl, ?_, ?_, fun _ _ => ?_⟩ <;> decide
  flight_le := by simp [start, new, offered]
  flight_eq _ := by simp [start, new, offered]
  granted h := by cases h
  waiting _ h := by cases h

/-- A step of the fetcher that dispatches nothing. -/
lemma Inv.fetcher {fetcher : FetcherState} {inFlight : List ℕ} (h : s.Inv)
    (hflight : inFlight.sum + offered fetcher = s.inFlight.sum + offered s.fetcher ∨
      inFlight.sum + offered fetcher ≤ s.inFlight.sum + offered s.fetcher ∧ s.closing = true)
    (hgranted : fetcher = .granted → s.dispatched < s.fallback.due)
    (hwaiting : ∀ w, fetcher = .waiting w → s.fallback.waitTurn s.dispatched = .wait w) :
    Inv { s with fetcher := fetcher, inFlight := inFlight } := by
  have hle := h.flight_le
  refine ⟨h.sound, ?_, ?_, hgranted, fun w hw => .inr (hwaiting w hw)⟩
  · simp only
    omega
  · intro hopen
    have heq := h.flight_eq hopen
    rcases hflight with hsame | ⟨-, hclosing⟩
    · simp only
      omega
    · exact absurd (hclosing.symm.trans hopen) (by decide)

/-- The fetcher cuts a part off. -/
lemma Inv.dispatch (h : s.Inv) (hgranted : s.fetcher = .granted) {keys : ℕ}
    (hmax : keys ≤ batchMaxKeys) :
    Inv { s with dispatched := s.dispatched + keys, fetcher := .offering keys } := by
  have hlt := h.granted hgranted
  have hle := h.flight_le
  have hlanded := h.sound.landed_le
  have hkeys : (keys : ℤ) ≤ 128 := by exact_mod_cast hmax
  rw [hgranted] at hle
  refine ⟨⟨h.sound.balance, ?_, ?_, h.sound.due_ge, h.sound.running⟩, ?_, ?_, by simp, by simp⟩
  · simp only
    omega
  · simp only
    omega
  · simp only [offered] at hle ⊢
    omega
  · intro hopen
    have heq := h.flight_eq hopen
    rw [hgranted] at heq
    simp only [offered] at heq ⊢
    omega

/-- A step of the others. -/
lemma Inv.others {inFlight : List ℕ} (h : s.Inv) (hsound : f.Sound s.dispatched)
    (hprogress : Progress s.fallback f)
    (hflight : f.landed + inFlight.sum = s.fallback.landed + s.inFlight.sum) :
    Inv { s with fallback := f, inFlight := inFlight } where
  sound := hsound
  flight_le := by
    have hle := h.flight_le
    simp only
    omega
  flight_eq := by
    intro hopen
    have heq := h.flight_eq hopen
    simp only
    omega
  granted hgranted := (h.granted hgranted).trans_le hprogress.due_le
  waiting := by
    intro w hw
    rcases h.waiting w hw with hlt | hwait
    · exact .inl (hlt.trans_le hprogress.wake_le)
    · obtain rfl := eq_wake_of_waitTurn hwait
      rcases hprogress.wake_le.lt_or_eq with hlt | heq
      · exact .inl hlt
      · exact .inr (heq ▸ hprogress.waitTurn heq.symm hwait)

lemma sum_eraseIdx {inFlight : List ℕ} {i keys : ℕ} (h : inFlight[i]? = some keys) :
    keys + (inFlight.eraseIdx i).sum = inFlight.sum := by
  obtain ⟨hi, rfl⟩ := List.getElem?_eq_some_iff.mp h
  rw [← List.sum_cons]
  exact (List.getElem_cons_eraseIdx_perm hi).sum_eq

lemma Inv.step (h : s.Inv) (hs' : step s l = some s') : s'.Inv := by
  cases l with
  | check =>
    simp only [FallbackFetch.step] at hs'
    split_ifs at hs' with hturn
    split at hs' <;> rename_i hanswer <;> obtain rfl := Option.some.inj hs'
    · exact h.fetcher (.inl (by simp [hturn, offered])) (by simp) (by simp)
    · exact h.fetcher (.inl (by simp [hturn, offered])) (fun _ => lt_due_of_waitTurn hanswer)
        (by simp)
    · refine h.fetcher (.inl (by simp [hturn, offered])) (by simp) ?_
      rintro w ⟨⟩
      exact hanswer
  | wake =>
    simp only [FallbackFetch.step] at hs'
    split at hs'
    · rename_i w hw
      split_ifs at hs'
      obtain rfl := Option.some.inj hs'
      exact h.fetcher (.inl (by simp [hw, offered])) (by simp) (by simp)
    · cases hs'
  | leave =>
    simp only [FallbackFetch.step] at hs'
    split at hs'
    · rename_i w hw
      split_ifs at hs'
      obtain rfl := Option.some.inj hs'
      exact h.fetcher (.inl (by simp [hw, offered])) (by simp) (by simp)
    · cases hs'
  | dispatch keys =>
    simp only [FallbackFetch.step] at hs'
    split_ifs at hs' with hgranted
    obtain rfl := Option.some.inj hs'
    exact h.dispatch hgranted.1 hgranted.2.2
  | deliver =>
    simp only [FallbackFetch.step] at hs'
    split at hs'
    · rename_i keys hoffering
      obtain rfl := Option.some.inj hs'
      exact h.fetcher (.inl (by simp [hoffering, offered])) (by simp) (by simp)
    · cases hs'
  | drop =>
    simp only [FallbackFetch.step] at hs'
    split at hs'
    · rename_i keys hoffering
      split_ifs at hs' with hclosing
      obtain rfl := Option.some.inj hs'
      exact h.fetcher (.inr ⟨by simp [offered], hclosing⟩) (by simp) (by simp)
    · cases hs'
  | finish =>
    simp only [FallbackFetch.step] at hs'
    split_ifs at hs' with hturn
    obtain rfl := Option.some.inj hs'
    exact h.fetcher (.inl (by simp [hturn, offered])) (by simp) (by simp)
  | landed i arrived =>
    obtain ⟨keys, hkeys, rfl⟩ := Option.map_eq_some_iff.mp hs'
    have hsum := sum_eraseIdx hkeys
    have hle := h.flight_le
    obtain ⟨hsound, hprogress, hlanded⟩ := h.sound.noteLanded keys (by omega) arrived
    exact h.others hsound hprogress (by omega)
  | lookup actionID atHand =>
    obtain rfl := Option.some.inj hs'
    obtain ⟨hsound, hprogress, hlanded⟩ := h.sound.noteLookup actionID atHand
    exact h.others hsound hprogress (by rw [hlanded])
  | close =>
    obtain rfl := Option.some.inj hs'
    exact ⟨h.sound, h.flight_le, fun hopen => (by cases hopen), h.granted, h.waiting⟩

/-- If nothing is under way and no verdict is awaited, `waitTurn` lets the fetcher go on. -/
lemma Inv.not_blocked (h : s.Inv) (hflight : s.inFlight = []) (hpaused : s.fallback.paused = false)
    (hstopped : s.fallback.stopped = false) : s.blocked = false := by
  rcases hclosing : s.closing with _ | _
  swap
  · simp [blocked, hclosing]
  have hgo : offered s.fetcher = 0 → s.fallback.waitTurn s.dispatched = .go := by
    intro hnone
    have heq := h.flight_eq hclosing
    have hlt := h.sound.running hpaused hstopped
    rw [hflight, hnone, List.sum_nil] at heq
    have hdue : s.dispatched < s.fallback.due := by omega
    rw [waitTurn, hstopped, if_neg (by decide), if_pos ⟨hdue, hpaused⟩]
  rcases hfetcher : s.fetcher with _ | w | _ | keys | _
  · simp [blocked, hfetcher, hgo (by simp [hfetcher, offered])]
  · have hwoken : w < s.fallback.wake := by
      rcases h.waiting w hfetcher with hlt | hwait
      · exact hlt
      · rw [hgo (by simp [hfetcher, offered])] at hwait
        cases hwait
    simp [blocked, hfetcher, hwoken]
  all_goals simp [blocked, hfetcher]

/-- A stop is never undone. -/
lemma Inv.stopped_of_step (h : s.Inv) (hs' : FallbackFetch.step s l = some s')
    (hstopped : s.fallback.stopped = true) : s'.fallback.stopped = true := by
  cases l with
  | landed i arrived =>
    obtain ⟨keys, hkeys, rfl⟩ := Option.map_eq_some_iff.mp hs'
    have hsum := sum_eraseIdx hkeys
    have hle := h.flight_le
    exact (h.sound.noteLanded keys (by omega) arrived).2.1.stopped hstopped
  | lookup actionID atHand =>
    obtain rfl := Option.some.inj hs'
    exact (h.sound.noteLookup actionID atHand).2.1.stopped hstopped
  | _ =>
    have hsame : s'.fallback = s.fallback := by
      grind [FallbackFetch.step]
    rw [hsame]
    exact hstopped

/-- In every run, with any parts, arrivals and lookups in any order: the counters balance, the
threshold stays ahead of what is dispatched, a stop is final, and when nothing is under way and no
verdict is awaited `waitTurn` does not block. -/
theorem fallback_consistent (ls : List Label) (hrun : run step start ls = some t) :
    t.fallback.used + t.fallback.brought.card = t.fallback.fetched ∧
      t.fallback.landed ≤ t.dispatched ∧ t.dispatched < t.fallback.due + 128 ∧
      (t.fallback.paused = false → t.fallback.stopped = false →
        t.fallback.landed < t.fallback.due) ∧
      (t.fallback.stopped = true → ∀ ls' t', run step t ls' = some t' →
        t'.fallback.stopped = true) ∧
      (t.inFlight = [] → t.fallback.paused = false → t.fallback.stopped = false →
        t.blocked = false) := by
  have hinv : t.Inv := run_invariant_of_step (fun _ _ _ hs h => hs.step h) inv_start hrun
  refine ⟨hinv.sound.balance, hinv.sound.landed_le, hinv.sound.lt_due, hinv.sound.running, ?_,
    hinv.not_blocked⟩
  intro hstopped ls' t' hrun'
  have hlater : t'.Inv ∧ t'.fallback.stopped = true := by
    refine run_invariant_of_step (I := fun s => s.Inv ∧ s.fallback.stopped = true) ?_
      ⟨hinv, hstopped⟩ hrun'
    rintro s l s' ⟨hs, hstop⟩ hs'
    exact ⟨hs.step hs', hs.stopped_of_step hs' hstop⟩
  exact hlater.2

/-- Two parts land while the fetcher waits, the fetch pauses, and the build uses the one entry that
came. -/
def usedEntry : List Label :=
  [.check, .dispatch 128, .deliver, .check, .dispatch 128, .deliver, .check, .landed 0 [[1]],
    .landed 0 [], .lookup [1] true]

theorem fallback_consistent_usedEntry :
    ∃ t, run step start usedEntry = some t ∧ t.fetcher = .waiting 0 ∧ t.fallback.due = 512 ∧
      t.fallback.used + t.fallback.brought.card = t.fallback.fetched ∧ t.blocked = false := by
  have hend : (run step start usedEntry).map (fun t =>
      (t.fetcher, t.fallback.due, t.inFlight, t.fallback.paused, t.fallback.stopped)) =
      some (.waiting 0, 512, [], false, false) := by
    decide +kernel
  obtain ⟨t, hrun, hend⟩ := Option.map_eq_some_iff.mp hend
  simp only [Prod.mk.injEq] at hend
  obtain ⟨hfetcher, hdue, hflight, hpaused, hstopped⟩ := hend
  obtain ⟨hbalance, -, -, -, -, hblocked⟩ := fallback_consistent usedEntry hrun
  exact ⟨t, hrun, hfetcher, hdue, hbalance, hblocked hflight hpaused hstopped⟩

end FallbackFetch

end GoBuildCache
