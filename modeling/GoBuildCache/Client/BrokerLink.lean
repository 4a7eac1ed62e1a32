import GoBuildCache.Client.BrokerWire
import GoBuildCache.Foundation.Parties
import GoBuildCache.Foundation.Table
import GoBuildCache.Foundation.Transition

/-!
# The link to the owner

A process that asks the owner has one link, and any number of calls of `ask` share it. A call takes
a number, registers a channel with one slot under it, sends its request and receives from its
channel. One reader takes the records off the ring and hands each to the channel registered under
its id (`deliver`); when the ring fails, it hands the failure to all channels (`fail`). The table of
channels is locked, the rest is not, so a reply can come before its request has been sent, or after
its call has given up.

Every step of a call, of the reader and of the ring is a step of `step`. The values that have been
sent on channels, and the calls that are due one, are recorded beside the state.
-/

open ByteString Transition

namespace GoBuildCache

/-- How a call of `ask` ends. -/
inductive AskResult (E : Type) where
  /-- With what its channel gave it. -/
  | reply (r : Reply E)
  /-- The request could not be sent. -/
  | sendError (e : E)
  /-- `errBrokerMiss`: the link was closed before. -/
  | closed
  deriving DecidableEq

/-- Where a call of `ask` is. -/
inductive AskStage (E : Type) where
  /-- It has a number and a channel. -/
  | numbered
  /-- Its channel is registered, and it sends the request. -/
  | registered
  /-- The request could not be sent, and the channel is still registered. -/
  | unsent (e : E)
  /-- It receives from its channel. -/
  | receiving
  /-- It has returned. -/
  | returned (result : AskResult E)
  deriving DecidableEq

/-- A call of `ask`. -/
structure Ask (E : Type) where
  /-- Its number. -/
  id : ℕ
  /-- Where it is. -/
  stage : AskStage E
  /-- The value in the slot of its channel. -/
  waiter : Option (Reply E)
  deriving DecidableEq

/-- Where the reader is. -/
inductive ReaderStage (E : Type) where
  /-- It waits for a record. -/
  | receiving
  /-- It has a reply for an id. -/
  | delivering (id : ℕ) (r : Reply E)
  /-- It has taken the channel of a call out of the table, and sends a reply on it. -/
  | sending (i : ℕ) (r : Reply E)
  /-- The ring has failed. -/
  | failing (e : E)
  /-- It sends the failure on the channels of these calls. -/
  | waking (e : E) (waiters : List ℕ)
  /-- It has returned. -/
  | ended
  deriving DecidableEq

/-- The link. -/
structure BrokerLink (E : Type) where
  /-- The last number. -/
  next : ℕ
  /-- For every id the call whose channel is registered. -/
  waiting : Table (fun w : ℕ × ℕ => w.1)
  /-- `fail` has run. -/
  closed : Bool
  /-- The calls. -/
  asks : List (Ask E)
  /-- The reader. -/
  reader : ReaderStage E
  /-- The records that the reader has read, with their types. -/
  records : List (ℕ × Bytes)
  /-- The calls on whose channels a value has been sent. -/
  sends : List ℕ
  /-- The calls for which a reply was read, or the link failed, while they were registered. -/
  due : List ℕ

namespace BrokerLink

variable {E : Type}

/-- The reply of a link that has failed. -/
def failure (e : E) : Reply E :=
  ⟨0, .zero, [], some (.channel e)⟩

/-- A new link. -/
def start : BrokerLink E :=
  ⟨0, .empty, false, [], .receiving, [], [], []⟩

/-- A step of a call of `ask`. -/
inductive AskAction (E : Type) where
  /-- It locks the table, and registers its channel or finds the link closed. -/
  | register
  /-- `SendTyped` returns. -/
  | sendTyped (err : Option E)
  /-- After a failed send: the channel leaves the table, and the call returns. -/
  | withdraw
  /-- It receives from its channel, and returns. -/
  | receive

/-- A step of a call, of the reader or of the ring. -/
inductive Label (E : Type) where
  /-- `ask` is called: it takes a number and makes a channel. -/
  | ask
  /-- A call goes on. -/
  | act (i : ℕ) (action : AskAction E)
  /-- `Recv` gives the reader a record. -/
  | recv (typ : ℕ) (rec : Bytes)
  /-- `Recv` fails. -/
  | recvError (e : E)
  /-- `deliver` takes the channel out of the table. -/
  | take
  /-- `deliver` sends on it. -/
  | deliver
  /-- `fail` takes the table. -/
  | fail
  /-- `fail` sends on one of the channels. -/
  | wake (n : ℕ)
  /-- `fail` has sent on all of them. -/
  | finish

/-- The call of an index is at another stage. -/
def move (b : BrokerLink E) (i : ℕ) (a : Ask E) : BrokerLink E :=
  { b with asks := b.asks.set i a }

/-- The reader sends a value on the channel of a call; a channel that has a value already blocks
it. -/
def send (b : BrokerLink E) (i : ℕ) (r : Reply E) : Option (BrokerLink E) :=
  match b.asks[i]? with
  | some a =>
    if a.waiter = none then
      some { b.move i { a with waiter := some r } with sends := i :: b.sends }
    else none
  | none => none

/-- A step of a call of `ask`. -/
def advance (b : BrokerLink E) (i : ℕ) (a : Ask E) : AskAction E → Option (BrokerLink E)
  | .register =>
    match a.stage with
    | .numbered =>
      if b.closed then some (b.move i { a with stage := .returned .closed })
      else
        some { b.move i { a with stage := .registered } with waiting := b.waiting.put 0 (a.id, i) }
    | _ => none
  | .sendTyped err =>
    match a.stage with
    | .registered =>
      some (b.move i { a with stage := match err with | none => .receiving | some e => .unsent e })
    | _ => none
  | .withdraw =>
    match a.stage with
    | .unsent e =>
      some { b.move i { a with stage := .returned (.sendError e) } with
        waiting := b.waiting.erase a.id }
    | _ => none
  | .receive =>
    match a.stage, a.waiter with
    | .receiving, some r => some (b.move i { a with stage := .returned (.reply r), waiter := none })
    | _, _ => none

/-- A step. -/
def step (b : BrokerLink E) : Label E → Option (BrokerLink E)
  | .ask =>
    some { b with next := b.next + 1, asks := b.asks ++ [⟨b.next + 1, .numbered, none⟩] }
  | .act i action => (b.asks[i]?).bind fun a => b.advance i a action
  | .recv typ rec =>
    match b.reader with
    | .receiving =>
      match readReply E typ rec with
      | none => some { b with records := (typ, rec) :: b.records }
      | some (id, r) =>
        some { b with
          records := (typ, rec) :: b.records
          reader := .delivering id r
          due := ((b.waiting.find id).map (·.2)).toList ++ b.due }
    | _ => none
  | .recvError e =>
    match b.reader with
    | .receiving => some { b with reader := .failing e }
    | _ => none
  | .take =>
    match b.reader with
    | .delivering id r =>
      match b.waiting.find id with
      | some (_, i) => some { b with waiting := b.waiting.erase id, reader := .sending i r }
      | none => some { b with waiting := b.waiting.erase id, reader := .receiving }
    | _ => none
  | .deliver =>
    match b.reader with
    | .sending i r => (b.send i r).map fun b => { b with reader := .receiving }
    | _ => none
  | .fail =>
    match b.reader with
    | .failing e =>
      some { b with
        waiting := .empty
        closed := true
        reader := .waking e (b.waiting.rows.map (·.2))
        due := b.waiting.rows.map (·.2) ++ b.due }
    | _ => none
  | .wake n =>
    match b.reader with
    | .waking e waiters =>
      (waiters[n]?).bind fun i =>
        (b.send i (failure e)).map fun b => { b with reader := .waking e (waiters.eraseIdx n) }
    | _ => none
  | .finish =>
    match b.reader with
    | .waking _ [] => some { b with reader := .ended }
    | _ => none

/-- What a step can do. -/
inductive Goes (b : BrokerLink E) : BrokerLink E → Prop
  | ask :
    Goes b { b with next := b.next + 1, asks := b.asks ++ [⟨b.next + 1, .numbered, none⟩] }
  | turnedAway {i : ℕ} {a : Ask E} (hi : b.asks[i]? = some a) (hstage : a.stage = .numbered)
    (hclosed : b.closed = true) : Goes b (b.move i { a with stage := .returned .closed })
  | registered {i : ℕ} {a : Ask E} (hi : b.asks[i]? = some a) (hstage : a.stage = .numbered)
    (hclosed : b.closed = false) :
    Goes b { b.move i { a with stage := .registered } with waiting := b.waiting.put 0 (a.id, i) }
  | sent {i : ℕ} {a : Ask E} (hi : b.asks[i]? = some a) (hstage : a.stage = .registered)
    (err : Option E) :
    Goes b (b.move i { a with stage := match err with | none => .receiving | some e => .unsent e })
  | withdrawn {i : ℕ} {a : Ask E} {e : E} (hi : b.asks[i]? = some a)
    (hstage : a.stage = .unsent e) :
    Goes b { b.move i { a with stage := .returned (.sendError e) } with
      waiting := b.waiting.erase a.id }
  | received {i : ℕ} {a : Ask E} {r : Reply E} (hi : b.asks[i]? = some a)
    (hstage : a.stage = .receiving) (hslot : a.waiter = some r) :
    Goes b (b.move i { a with stage := .returned (.reply r), waiter := none })
  | skipped {typ : ℕ} {rec : Bytes} (hreader : b.reader = .receiving) :
    Goes b { b with records := (typ, rec) :: b.records }
  | read {typ : ℕ} {rec : Bytes} {id : ℕ} {r : Reply E} (hreader : b.reader = .receiving)
    (hrec : readReply E typ rec = some (id, r)) :
    Goes b { b with
      records := (typ, rec) :: b.records
      reader := .delivering id r
      due := ((b.waiting.find id).map (·.2)).toList ++ b.due }
  | failing {e : E} (hreader : b.reader = .receiving) : Goes b { b with reader := .failing e }
  | taken {id i : ℕ} {r : Reply E} (hreader : b.reader = .delivering id r)
    (hrow : (id, i) ∈ b.waiting.rows) :
    Goes b { b with waiting := b.waiting.erase id, reader := .sending i r }
  | dropped {id : ℕ} {r : Reply E} (hreader : b.reader = .delivering id r)
    (hrow : ∀ i, (id, i) ∉ b.waiting.rows) :
    Goes b { b with waiting := b.waiting.erase id, reader := .receiving }
  | delivered {i : ℕ} {a : Ask E} {r : Reply E} (hreader : b.reader = .sending i r)
    (hi : b.asks[i]? = some a) (hslot : a.waiter = none) :
    Goes b { b.move i { a with waiter := some r } with
      sends := i :: b.sends, reader := .receiving }
  | failed {e : E} (hreader : b.reader = .failing e) :
    Goes b { b with
      waiting := .empty
      closed := true
      reader := .waking e (b.waiting.rows.map (·.2))
      due := b.waiting.rows.map (·.2) ++ b.due }
  | woken {e : E} {waiters : List ℕ} {n i : ℕ} {a : Ask E} (hreader : b.reader = .waking e waiters)
    (hn : waiters[n]? = some i) (hi : b.asks[i]? = some a) (hslot : a.waiter = none) :
    Goes b { b.move i { a with waiter := some (failure e) } with
      sends := i :: b.sends, reader := .waking e (waiters.eraseIdx n) }
  | finished {e : E} (hreader : b.reader = .waking e []) : Goes b { b with reader := .ended }

variable {b b' : BrokerLink E} {i : ℕ}

lemma send_eq_some {r : Reply E} (h : b.send i r = some b') :
    ∃ a, b.asks[i]? = some a ∧ a.waiter = none ∧
      b' = { b.move i { a with waiter := some r } with sends := i :: b.sends } := by
  rw [send] at h
  split at h
  · next a hi =>
    split_ifs at h with hslot
    exact ⟨a, hi, hslot, (Option.some.inj h).symm⟩
  · cases h

lemma goes_of_advance {a : Ask E} {action : AskAction E} (hi : b.asks[i]? = some a)
    (h : b.advance i a action = some b') : b.Goes b' := by
  cases action with
  | register =>
    rcases hstage : a.stage with _ | _ | _ | _ | _ <;> simp only [advance, hstage] at h
    · split_ifs at h with hclosed
      · cases h
        exact .turnedAway hi hstage hclosed
      · cases h
        exact .registered hi hstage (by simpa using hclosed)
    all_goals cases h
  | sendTyped err =>
    rcases hstage : a.stage with _ | _ | _ | _ | _ <;> simp only [advance, hstage] at h <;> cases h
    exact .sent hi hstage err
  | withdraw =>
    rcases hstage : a.stage with _ | _ | e | _ | _ <;> simp only [advance, hstage] at h <;> cases h
    exact .withdrawn hi hstage
  | receive =>
    rcases hstage : a.stage with _ | _ | _ | _ | _ <;> rcases hslot : a.waiter with _ | r <;>
      simp only [advance, hstage, hslot] at h <;> cases h
    exact .received hi hstage hslot

theorem goes_of_step {l : Label E} (h : b.step l = some b') : b.Goes b' := by
  cases l with
  | ask =>
    cases h
    exact .ask
  | act i action =>
    obtain ⟨a, hi, hact⟩ := Option.bind_eq_some_iff.mp h
    exact goes_of_advance hi hact
  | recv typ rec =>
    rcases hreader : b.reader with _ | _ | _ | _ | _ | _ <;> simp only [step, hreader] at h
    · rcases hrec : readReply E typ rec with _ | ⟨id, r⟩ <;> simp only [hrec] at h <;> cases h
      · exact hreader ▸ .skipped hreader
      · exact .read hreader hrec
    all_goals cases h
  | recvError e =>
    rcases hreader : b.reader with _ | _ | _ | _ | _ | _ <;> simp only [step, hreader] at h <;>
      cases h
    exact .failing hreader
  | take =>
    rcases hreader : b.reader with _ | ⟨id, r⟩ | _ | _ | _ | _ <;> simp only [step, hreader] at h
    on_goal 2 =>
      rcases hfind : b.waiting.find id with _ | ⟨id', i⟩ <;> simp only [hfind] at h <;> cases h
      · refine .dropped hreader ?_
        intro i hrow
        rw [Table.find_eq_some_iff.mpr ⟨hrow, rfl⟩] at hfind
        cases hfind
      · obtain ⟨hrow, rfl⟩ := Table.find_eq_some_iff.mp hfind
        exact .taken hreader hrow
    all_goals cases h
  | deliver =>
    rcases hreader : b.reader with _ | _ | ⟨i, r⟩ | _ | _ | _ <;> simp only [step, hreader] at h
    on_goal 3 =>
      obtain ⟨c, hsend, rfl⟩ := Option.map_eq_some_iff.mp h
      obtain ⟨a, hi, hslot, rfl⟩ := send_eq_some hsend
      exact .delivered hreader hi hslot
    all_goals cases h
  | fail =>
    rcases hreader : b.reader with _ | _ | _ | e | _ | _ <;> simp only [step, hreader] at h <;>
      cases h
    exact .failed hreader
  | wake n =>
    rcases hreader : b.reader with _ | _ | _ | _ | ⟨e, waiters⟩ | _ <;>
      simp only [step, hreader] at h
    on_goal 5 =>
      obtain ⟨i, hn, hmap⟩ := Option.bind_eq_some_iff.mp h
      obtain ⟨c, hsend, rfl⟩ := Option.map_eq_some_iff.mp hmap
      obtain ⟨a, hi, hslot, rfl⟩ := send_eq_some hsend
      exact .woken hreader hn hi hslot
    all_goals cases h
  | finish =>
    rcases hreader : b.reader with _ | _ | _ | _ | ⟨e, _ | _⟩ | _ <;>
      simp only [step, hreader] at h <;> cases h
    exact .finished hreader

end BrokerLink

end GoBuildCache
