import GoBuildCache.Client.BrokerWire
import GoBuildCache.Foundation.Parties
import GoBuildCache.Foundation.Transition

/-!
# Lookups and stores at the owner

The owner answers every request of a child on a goroutine of its own. Lookups of one action share a
flight: the first asks the cache of the owner and publishes what it finds, the others wait for it.
Stores of one action share a flight as well: the first stores the body, and the others look whether
it is there afterwards.

A lookup that begins after a store of its action was answered should find the entry. It does not
when it joins a flight that has asked the cache before the store (`lookup_joins_old_flight`), and
this is the only way to miss (`lookup_reads_store`). The cache of the owner is a map that grows: a
request reads or writes it in one step, and other users of the cache may add entries at any time.
-/

open ByteString Transition

namespace GoBuildCache

/-- `getFlight`: a lookup in progress. -/
structure GetFlight where
  /-- Its action. -/
  action : Hash
  /-- What the cache of the owner had, when it has been asked. -/
  result : Option (Option (Entry × Bytes))
  /-- The waiters have been woken. -/
  done : Bool
  deriving DecidableEq

/-- Where a lookup is. -/
inductive LookupStage where
  /-- It has begun. -/
  | begun
  /-- It is the first one of a flight, and asks the cache. -/
  | flying (f : ℕ)
  /-- It has what the cache has, and takes the flight out of the map. -/
  | finishing (f : ℕ)
  /-- It wakes the waiters. -/
  | closing (f : ℕ)
  /-- It waits for a flight. -/
  | joined (f : ℕ)
  /-- It has been answered, with an entry and a tier or with a miss. -/
  | answered (r : Option (Entry × Bytes))
  deriving DecidableEq

/-- A lookup. -/
structure Lookup where
  /-- Its action. -/
  action : Hash
  /-- A store of the action had been answered without error when it began. -/
  afterStore : Bool
  /-- Where it is. -/
  stage : LookupStage
  deriving DecidableEq

/-- The flight that a lookup will take its answer from. -/
def LookupStage.flight : LookupStage → Option ℕ
  | .flying f | .finishing f | .closing f | .joined f => some f
  | .begun | .answered _ => none

/-- Where a store is. -/
inductive StoreStage where
  /-- It has begun. -/
  | begun
  /-- It waits for a flight. -/
  | joined (f : ℕ)
  /-- The flight is over, and it asks the cache. -/
  | rechecking
  /-- It opens the file; with the flight it is the first one of. -/
  | opening (own : Option ℕ)
  /-- It stores the body. -/
  | storing (own : Option ℕ)
  /-- It takes its flight out of the map. -/
  | finishing (f : ℕ) (r : Except Bytes Entry)
  /-- It wakes the waiters. -/
  | closing (f : ℕ) (r : Except Bytes Entry)
  /-- It has been answered, with an entry or with the text of an error. -/
  | answered (r : Except Bytes Entry)

/-- The store returns; one with a flight has to finish it before. -/
def StoreStage.leave (own : Option ℕ) (r : Except Bytes Entry) : StoreStage :=
  match own with
  | some f => .finishing f r
  | none => .answered r

/-- What the store returns. -/
def StoreStage.result : StoreStage → Option (Except Bytes Entry)
  | .finishing _ r | .closing _ r | .answered r => some r
  | .begun | .joined _ | .rechecking | .opening _ | .storing _ => none

lemma StoreStage.result_leave (own : Option ℕ) (r : Except Bytes Entry) :
    (StoreStage.leave own r).result = some r := by
  cases own <;> rfl

/-- The store has succeeded, and has been answered or is about to be. -/
def StoreStage.Succeeds (stage : StoreStage) : Prop :=
  ∃ e, stage.result = some (.ok e)

/-- A store. -/
structure Store where
  /-- Its action. -/
  action : Hash
  /-- The path of the body. -/
  path : Bytes
  /-- Where it is. -/
  stage : StoreStage

/-- The store has been answered without error. -/
def Store.Stored (s : Store) (action : Hash) : Bool :=
  match s.stage with
  | .answered (.ok _) => s.action = action
  | _ => false

/-- The broker at the owner. -/
structure BrokerServer where
  /-- The cache of the owner. -/
  owner : Hash → Option Entry
  /-- The lookups in progress. -/
  gets : Hash → Option ℕ
  /-- The stores in progress. -/
  puts : Hash → Option ℕ
  /-- The flights of lookups. -/
  getFlights : List GetFlight
  /-- Which flights of stores are over. -/
  putFlights : List Bool
  /-- The lookups. -/
  lookups : List Lookup
  /-- The stores. -/
  stores : List Store

namespace BrokerServer

/-- A broker that has had no requests. -/
def start (owner : Hash → Option Entry) : BrokerServer :=
  ⟨owner, fun _ => none, fun _ => none, [], [], [], []⟩

/-- A step of a lookup. -/
inductive LookupAction where
  /-- It starts a flight or joins one. -/
  | startGet
  /-- It asks the cache, which names the tier of an entry. -/
  | ownerGet (tier : Bytes)
  /-- `finishGet` takes the flight out of the map. -/
  | finishGet
  /-- `finishGet` wakes the waiters. -/
  | closeDone
  /-- The flight is over. -/
  | wake

/-- A step of a store. -/
inductive StoreAction where
  /-- It starts a flight or joins one. -/
  | startPut
  /-- The flight is over. -/
  | wake
  /-- It asks the cache. -/
  | ownerGet
  /-- It opens the file, or finds that it cannot. -/
  | openFile (err : Option Bytes)
  /-- It stores the body in the cache, or finds that it cannot. -/
  | ownerPut (r : Except Bytes Entry)
  /-- `finishPut` takes the flight out of the map. -/
  | finishPut
  /-- `finishPut` wakes the waiters. -/
  | closeDone

/-- A step. -/
inductive Label where
  /-- A lookup begins. -/
  | beginLookup (action : Hash)
  /-- A lookup goes on. -/
  | lookup (i : ℕ) (act : LookupAction)
  /-- A store begins. -/
  | beginStore (action : Hash) (path : Bytes)
  /-- A store goes on. -/
  | store (i : ℕ) (act : StoreAction)
  /-- Another user of the cache adds an entry. -/
  | learn (action : Hash) (e : Entry)

/-- A lookup is at another stage. -/
def moveLookup (b : BrokerServer) (i : ℕ) (stage : LookupStage) : BrokerServer :=
  { b with lookups := b.lookups.modify i fun l => { l with stage := stage } }

/-- A store is at another stage. -/
def moveStore (b : BrokerServer) (i : ℕ) (stage : StoreStage) : BrokerServer :=
  { b with stores := b.stores.modify i fun s => { s with stage := stage } }

/-- `startGet`: the flight of an action, and whether it is new. -/
def startGet (b : BrokerServer) (action : Hash) : ℕ × Bool × BrokerServer :=
  match b.gets action with
  | some f => (f, false, b)
  | none =>
    (b.getFlights.length, true,
      { b with
        getFlights := b.getFlights ++ [⟨action, none, false⟩]
        gets := Function.update b.gets action (some b.getFlights.length) })

/-- `startPut`: the flight of an action, and whether it is new. -/
def startPut (b : BrokerServer) (action : Hash) : ℕ × Bool × BrokerServer :=
  match b.puts action with
  | some f => (f, false, b)
  | none =>
    (b.putFlights.length, true,
      { b with
        putFlights := b.putFlights ++ [false]
        puts := Function.update b.puts action (some b.putFlights.length) })

/-- What a lookup does. -/
def lookupStep (b : BrokerServer) (i : ℕ) (l : Lookup) : LookupAction → Option BrokerServer
  | .startGet =>
    match l.stage with
    | .begun =>
      let (f, mine, b) := b.startGet l.action
      some (b.moveLookup i (if mine then .flying f else .joined f))
    | _ => none
  | .ownerGet tier =>
    match l.stage with
    | .flying f =>
      let found := (b.owner l.action).map fun e => (e, tier)
      some { b.moveLookup i (.finishing f) with
        getFlights := b.getFlights.modify f fun g => { g with result := some found } }
    | _ => none
  | .finishGet =>
    match l.stage with
    | .finishing f =>
      some { b.moveLookup i (.closing f) with gets := Function.update b.gets l.action none }
    | _ => none
  | .closeDone =>
    match l.stage with
    | .closing f =>
      (b.getFlights[f]?).bind fun g => g.result.map fun r =>
        { b.moveLookup i (.answered r) with
          getFlights := b.getFlights.modify f fun g => { g with done := true } }
    | _ => none
  | .wake =>
    match l.stage with
    | .joined f =>
      (b.getFlights[f]?).bind fun g =>
        if g.done then g.result.map fun r => b.moveLookup i (.answered r) else none
    | _ => none

/-- What a store does. -/
def storeStep (b : BrokerServer) (i : ℕ) (s : Store) : StoreAction → Option BrokerServer
  | .startPut =>
    match s.stage with
    | .begun =>
      let (f, mine, b) := b.startPut s.action
      some (b.moveStore i (if mine then .opening (some f) else .joined f))
    | _ => none
  | .wake =>
    match s.stage with
    | .joined f => if b.putFlights[f]? = some true then some (b.moveStore i .rechecking) else none
    | _ => none
  | .ownerGet =>
    match s.stage with
    | .rechecking =>
      some (b.moveStore i (match b.owner s.action with
        | some e => .answered (.ok e)
        | none => .opening none))
    | _ => none
  | .openFile err =>
    match s.stage with
    | .opening own =>
      some (b.moveStore i
        (if s.path = [] then .leave own (.error (ascii "cache broker: truncated record"))
        else match err with
          | some text => .leave own (.error text)
          | none => .storing own))
    | _ => none
  | .ownerPut r =>
    match s.stage with
    | .storing own =>
      some { b.moveStore i (.leave own r) with
        owner := match r with
          | .ok e => Function.update b.owner s.action (some e)
          | .error _ => b.owner }
    | _ => none
  | .finishPut =>
    match s.stage with
    | .finishing f r =>
      some { b.moveStore i (.closing f r) with puts := Function.update b.puts s.action none }
    | _ => none
  | .closeDone =>
    match s.stage with
    | .closing f r =>
      some { b.moveStore i (.answered r) with putFlights := b.putFlights.set f true }
    | _ => none

/-- A step. -/
def step (b : BrokerServer) : Label → Option BrokerServer
  | .beginLookup action =>
    some { b with lookups := b.lookups ++ [⟨action, b.stores.any (·.Stored action), .begun⟩] }
  | .lookup i act => (b.lookups[i]?).bind fun l => b.lookupStep i l act
  | .beginStore action path => some { b with stores := b.stores ++ [⟨action, path, .begun⟩] }
  | .store i act => (b.stores[i]?).bind fun s => b.storeStep i s act
  | .learn action e => some { b with owner := Function.update b.owner action (some e) }

/-- The flight of an action has asked the cache, which did not have it. -/
def OldMiss (b : BrokerServer) (action : Hash) : Prop :=
  ∃ f ∈ b.gets action, ∃ g ∈ b.getFlights[f]?, g.result = some none

instance (b : BrokerServer) (action : Hash) : Decidable (b.OldMiss action) :=
  inferInstanceAs (Decidable (∃ f ∈ b.gets action, ∃ g ∈ b.getFlights[f]?, g.result = some none))

/-- A lookup that began after a store was answered does not join a flight that has missed. -/
def JoinsNoMiss (b : BrokerServer) : Label → Prop
  | .lookup i .startGet => ∀ l ∈ b.lookups[i]?, l.afterStore = true → ¬ b.OldMiss l.action
  | _ => True

instance (b : BrokerServer) : (l : Label) → Decidable (b.JoinsNoMiss l)
  | .lookup i .startGet =>
    inferInstanceAs (Decidable (∀ l ∈ b.lookups[i]?, l.afterStore = true → ¬ b.OldMiss l.action))
  | .lookup _ (.ownerGet _) | .lookup _ .finishGet | .lookup _ .closeDone | .lookup _ .wake
  | .beginLookup _ | .beginStore .. | .store .. | .learn .. => inferInstanceAs (Decidable True)

/-! ## What a step keeps -/

/-- The cache has an entry for an action. -/
def Has (b : BrokerServer) (action : Hash) : Prop :=
  b.owner action ≠ none

/-- The cache forgets nothing, and a flight misses only what the cache does not have. -/
structure Grows (b b' : BrokerServer) : Prop where
  /-- The cache forgets nothing. -/
  owner : ∀ action, b.Has action → b'.Has action
  /-- Flights stay, with their actions and their results. -/
  flights : ∀ (f : ℕ) (g : GetFlight), b.getFlights[f]? = some g →
    ∃ g' : GetFlight, b'.getFlights[f]? = some g' ∧ g'.action = g.action ∧
      (g'.result = some none → g.result = some none ∨ ¬ b.Has g.action)

lemma Grows.of_eq {b b' : BrokerServer} (howner : b'.owner = b.owner)
    (hflights : b'.getFlights = b.getFlights) : b.Grows b' := by
  refine ⟨fun action h => ?_, fun f g hg => ⟨g, hflights ▸ hg, rfl, Or.inl⟩⟩
  rw [Has, howner]
  exact h

/-- What holds of a lookup. -/
structure LookupInv (b : BrokerServer) (l : Lookup) : Prop where
  /-- What has been stored is there. -/
  stored : l.afterStore = true → b.Has l.action
  /-- Its flight is one of its action, and has not missed. -/
  flight : ∀ f ∈ l.stage.flight, ∃ g, b.getFlights[f]? = some g ∧ g.action = l.action ∧
    (l.afterStore = true → g.result ≠ some none)
  /-- It is not answered with a miss. -/
  answer : l.afterStore = true → l.stage ≠ .answered none

/-- What holds of the broker. -/
structure Inv (b : BrokerServer) : Prop where
  /-- The cache has what has been stored. -/
  stores : ∀ s ∈ b.stores, s.stage.Succeeds → b.Has s.action
  /-- The flights in the map are those of their actions. -/
  gets : ∀ action f, b.gets action = some f → ∃ g, b.getFlights[f]? = some g ∧ g.action = action
  /-- The lookups. -/
  lookups : ∀ l ∈ b.lookups, b.LookupInv l

variable {b b' : BrokerServer} {l : Lookup} {i : ℕ}

lemma LookupInv.grows (h : b.LookupInv l) (hgrows : b.Grows b') : b'.LookupInv l where
  stored := fun hafter => hgrows.owner _ (h.stored hafter)
  flight := by
    intro f hf
    obtain ⟨g, hg, haction, hmiss⟩ := h.flight f hf
    obtain ⟨g', hg', haction', hmiss'⟩ := hgrows.flights f g hg
    refine ⟨g', hg', haction'.trans haction, ?_⟩
    intro hafter hresult
    rcases hmiss' hresult with hold | habsent
    · exact hmiss hafter hold
    · exact habsent (haction ▸ h.stored hafter)
  answer := h.answer

lemma LookupInv.restage (h : b.LookupInv l) {stage : LookupStage}
    (hflight : ∀ f ∈ stage.flight, f ∈ l.stage.flight)
    (hanswer : l.afterStore = true → stage ≠ .answered none) :
    b.LookupInv { l with stage := stage } :=
  ⟨h.stored, fun f hf => h.flight f (hflight f hf), hanswer⟩

/-- A step keeps the invariant if it does for what it changes. -/
lemma Inv.update (h : b.Inv) (hgrows : b.Grows b')
    (hstores : ∀ s ∈ b'.stores, s ∈ b.stores ∨ (s.stage.Succeeds → b'.Has s.action))
    (hgets : ∀ action f, b'.gets action = some f → b.gets action = some f ∨
      ∃ g, b'.getFlights[f]? = some g ∧ g.action = action)
    (hlookups : ∀ l ∈ b'.lookups, l ∈ b.lookups ∨ b'.LookupInv l) : b'.Inv where
  stores := by
    intro s hs hstage
    rcases hstores s hs with hold | hnew
    · exact hgrows.owner _ (h.stores s hold hstage)
    · exact hnew hstage
  gets := by
    intro action f hf
    rcases hgets action f hf with hold | hnew
    · obtain ⟨g, hg, haction⟩ := h.gets action f hold
      obtain ⟨g', hg', haction', -⟩ := hgrows.flights f g hg
      exact ⟨g', hg', haction'.trans haction⟩
    · exact hnew
  lookups := by
    intro l hl
    rcases hlookups l hl with hold | hnew
    · exact (h.lookups l hold).grows hgrows
    · exact hnew

lemma mem_moveLookup {stage : LookupStage} (hi : b.lookups[i]? = some l) {x : Lookup}
    (hx : x ∈ (b.moveLookup i stage).lookups) :
    x ∈ b.lookups ∨ x = { l with stage := stage } := by
  change x ∈ b.lookups.modify i _ at hx
  rw [Parties.modify_eq_set hi] at hx
  exact List.mem_or_eq_of_mem_set hx

lemma mem_moveStore {stage : StoreStage} {s : Store} (hi : b.stores[i]? = some s) {x : Store}
    (hx : x ∈ (b.moveStore i stage).stores) : x ∈ b.stores ∨ x = { s with stage := stage } := by
  change x ∈ b.stores.modify i _ at hx
  rw [Parties.modify_eq_set hi] at hx
  exact List.mem_or_eq_of_mem_set hx

/-- A change to a flight that keeps its action. -/
lemma Grows.modify {f : ℕ} {g : GetFlight} (hg : b.getFlights[f]? = some g)
    {change : GetFlight → GetFlight} (howner : b'.owner = b.owner)
    (hflights : b'.getFlights = b.getFlights.modify f change)
    (haction : (change g).action = g.action)
    (hresult : (change g).result = some none → g.result = some none ∨ ¬ b.Has g.action) :
    b.Grows b' := by
  refine ⟨?_, ?_⟩
  · intro action h
    rw [Has, howner]
    exact h
  · intro f' g' hg'
    rw [hflights, Parties.modify_eq_set hg, Parties.getElem?_set hg]
    split_ifs with hf
    · subst hf
      obtain rfl := Option.some.inj (hg.symm.trans hg')
      exact ⟨_, rfl, haction, hresult⟩
    · exact ⟨g', hg', rfl, Or.inl⟩

/-- A new flight. -/
lemma Grows.append {new : GetFlight} (howner : b'.owner = b.owner)
    (hflights : b'.getFlights = b.getFlights ++ [new]) : b.Grows b' := by
  refine ⟨?_, ?_⟩
  · intro action h
    rw [Has, howner]
    exact h
  · intro f g hg
    refine ⟨g, ?_, rfl, Or.inl⟩
    rw [hflights, List.getElem?_append_left (List.getElem?_eq_some_iff.mp hg).1, hg]

/-- A lookup starts a flight or joins one. -/
lemma Inv.startGet (h : b.Inv) (hi : b.lookups[i]? = some l) (hstage : l.stage = .begun)
    (hjoins : l.afterStore = true → ¬ b.OldMiss l.action)
    (hstep : b.lookupStep i l .startGet = some b') : b'.Inv := by
  have hl := h.lookups l (List.mem_of_getElem? hi)
  rcases hget : b.gets l.action with _ | f
  · simp only [lookupStep, hstage, BrokerServer.startGet, hget] at hstep
    obtain rfl := Option.some.inj hstep
    have hnew : (b.getFlights ++ [⟨l.action, none, false⟩])[b.getFlights.length]? =
        some ⟨l.action, none, false⟩ := List.getElem?_concat_length
    refine h.update (.append rfl rfl) (fun _ => Or.inl) ?_ ?_
    · intro action f hf
      change Function.update b.gets l.action (some b.getFlights.length) action = some f at hf
      rcases eq_or_ne action l.action with rfl | hne
      · rw [Function.update_self] at hf
        obtain rfl := Option.some.inj hf
        exact Or.inr ⟨_, hnew, rfl⟩
      · rw [Function.update_of_ne hne] at hf
        exact Or.inl hf
    · intro x hx
      rcases mem_moveLookup (b := { b with getFlights := _, gets := _ }) hi hx with hold | rfl
      · exact Or.inl hold
      · refine Or.inr ⟨hl.stored, ?_, fun _ => nofun⟩
        intro f hf
        obtain rfl : b.getFlights.length = f := Option.some.inj hf
        exact ⟨_, hnew, rfl, fun _ => nofun⟩
  · simp only [lookupStep, hstage, BrokerServer.startGet, hget] at hstep
    obtain rfl := Option.some.inj hstep
    refine h.update (.of_eq rfl rfl) (fun _ => Or.inl) (fun _ _ => Or.inl) ?_
    intro x hx
    rcases mem_moveLookup hi hx with hold | rfl
    · exact Or.inl hold
    · obtain ⟨g, hg, haction⟩ := h.gets _ f hget
      refine Or.inr ⟨hl.stored, ?_, fun _ => nofun⟩
      intro f' hf'
      obtain rfl : f = f' := Option.some.inj hf'
      exact ⟨g, hg, haction, fun hafter hmiss => hjoins hafter ⟨f, hget, g, hg, hmiss⟩⟩

/-- A lookup goes on with its flight, which keeps to the cache. -/
lemma Inv.moveLookup (h : b.Inv) (hi : b.lookups[i]? = some l) {stage : LookupStage}
    (hnext : b.LookupInv { l with stage := stage }) (hgrows : b.Grows b')
    (hlookups : b'.lookups = (b.moveLookup i stage).lookups) (hstores : b'.stores = b.stores)
    (hgets : ∀ action f, b'.gets action = some f → b.gets action = some f) : b'.Inv := by
  refine h.update hgrows ?_ (fun action f hf => Or.inl (hgets action f hf)) ?_
  · rw [hstores]
    exact fun _ => Or.inl
  · intro x hx
    rw [hlookups] at hx
    rcases mem_moveLookup hi hx with hold | rfl
    · exact Or.inl hold
    · exact Or.inr (hnext.grows hgrows)

/-- A lookup may be answered with the result of its flight. -/
lemma LookupInv.answered (h : b.LookupInv l) {f : ℕ} (hf : f ∈ l.stage.flight) {g : GetFlight}
    (hg : b.getFlights[f]? = some g) {r : Option (Entry × Bytes)}
    (hr : g.result = some r) : b.LookupInv { l with stage := .answered r } := by
  refine h.restage (by simp [LookupStage.flight]) ?_
  intro hafter hnone
  cases hnone
  obtain ⟨g', hg', -, hmiss⟩ := h.flight f hf
  obtain rfl := Option.some.inj (hg.symm.trans hg')
  exact hmiss hafter hr

/-- A lookup goes on. -/
lemma Inv.lookupStep (h : b.Inv) (hi : b.lookups[i]? = some l) {act : LookupAction}
    (hguard : b.JoinsNoMiss (.lookup i act)) (hstep : b.lookupStep i l act = some b') :
    b'.Inv := by
  have hl := h.lookups l (List.mem_of_getElem? hi)
  cases act with
  | startGet =>
    rcases hstage : l.stage with _ | _ | _ | _ | _ | _
    · exact h.startGet hi hstage (hguard l hi) hstep
    all_goals
      simp only [BrokerServer.lookupStep, hstage] at hstep
      cases hstep
  | ownerGet tier =>
    rcases hstage : l.stage with _ | f | _ | _ | _ | _ <;>
      simp only [BrokerServer.lookupStep, hstage] at hstep <;> cases hstep
    obtain ⟨g, hg, haction, -⟩ := hl.flight f (by rw [hstage]; rfl)
    have hnext : b.LookupInv { l with stage := .finishing f } :=
      hl.restage (by rw [hstage]; exact fun _ => id) (fun _ => nofun)
    refine h.moveLookup hi hnext (.modify hg rfl rfl rfl ?_) rfl rfl (fun _ _ => id)
    intro hmiss
    have hnone : b.owner l.action = none := by simpa using hmiss
    rw [haction]
    exact Or.inr fun hhas => hhas hnone
  | finishGet =>
    rcases hstage : l.stage with _ | _ | f | _ | _ | _ <;>
      simp only [BrokerServer.lookupStep, hstage] at hstep <;> cases hstep
    have hnext : b.LookupInv { l with stage := .closing f } :=
      hl.restage (by rw [hstage]; exact fun _ => id) (fun _ => nofun)
    refine h.moveLookup hi hnext (.of_eq rfl rfl) rfl rfl ?_
    intro action f' hf'
    change Function.update b.gets l.action none action = some f' at hf'
    rcases eq_or_ne action l.action with rfl | hne
    · rw [Function.update_self] at hf'
      cases hf'
    · rwa [Function.update_of_ne hne] at hf'
  | closeDone =>
    rcases hstage : l.stage with _ | _ | _ | f | _ | _ <;>
      simp only [BrokerServer.lookupStep, hstage] at hstep
    case closing =>
      obtain ⟨g, hg, hmap⟩ := Option.bind_eq_some_iff.mp hstep
      obtain ⟨r, hr, rfl⟩ := Option.map_eq_some_iff.mp hmap
      have hnext := hl.answered (by rw [hstage]; rfl) hg hr
      exact h.moveLookup hi hnext (.modify hg rfl rfl rfl Or.inl) rfl rfl (fun _ _ => id)
    all_goals cases hstep
  | wake =>
    rcases hstage : l.stage with _ | _ | _ | _ | f | _ <;>
      simp only [BrokerServer.lookupStep, hstage] at hstep
    case joined =>
      obtain ⟨g, hg, hmap⟩ := Option.bind_eq_some_iff.mp hstep
      split_ifs at hmap with hdone
      obtain ⟨r, hr, rfl⟩ := Option.map_eq_some_iff.mp hmap
      have hnext := hl.answered (by rw [hstage]; rfl) hg hr
      exact h.moveLookup hi hnext (.of_eq rfl rfl) rfl rfl (fun _ _ => id)
    all_goals cases hstep

/-- A store that does not change the cache, and comes to a success only with an entry in it. -/
lemma Inv.moveStore (h : b.Inv) {s : Store} (hi : b.stores[i]? = some s) {stage : StoreStage}
    (hstores : b'.stores = (b.moveStore i stage).stores)
    (hstage : stage.Succeeds → b.Has s.action) (howner : b'.owner = b.owner)
    (hgets : b'.gets = b.gets) (hflights : b'.getFlights = b.getFlights)
    (hlookups : b'.lookups = b.lookups) : b'.Inv := by
  refine h.update (.of_eq howner hflights) ?_ ?_ ?_
  · intro x hx
    rw [hstores] at hx
    rcases mem_moveStore hi hx with hold | rfl
    · exact Or.inl hold
    · rw [Has, howner]
      exact Or.inr hstage
  · rw [hgets]
    exact fun _ _ => Or.inl
  · rw [hlookups]
    exact fun _ => Or.inl

/-- A store puts an entry into the cache. -/
lemma Inv.ownerPut (h : b.Inv) {s : Store} (hi : b.stores[i]? = some s) (own : Option ℕ)
    (e : Entry) :
    ({ b.moveStore i (.leave own (.ok e)) with
        owner := Function.update b.owner s.action (some e) } : BrokerServer).Inv := by
  have hhas : ∀ action, action = s.action ∨ b.Has action →
      Function.update b.owner s.action (some e) action ≠ none := by
    intro action haction
    rcases eq_or_ne action s.action with rfl | hne
    · rw [Function.update_self]
      nofun
    · rw [Function.update_of_ne hne]
      exact haction.resolve_left hne
  refine h.update ⟨fun action h => hhas action (Or.inr h), ?_⟩ ?_ (fun _ _ => Or.inl)
    (fun _ => Or.inl)
  · intro f g hg
    exact ⟨g, hg, rfl, Or.inl⟩
  · intro x hx
    rcases mem_moveStore hi hx with hold | rfl
    · exact Or.inl hold
    · exact Or.inr fun _ => hhas _ (Or.inl rfl)

/-- A store goes on. -/
lemma Inv.storeStep (h : b.Inv) {s : Store} (hi : b.stores[i]? = some s) {act : StoreAction}
    (hstep : b.storeStep i s act = some b') : b'.Inv := by
  have hs := h.stores s (List.mem_of_getElem? hi)
  cases act with
  | startPut =>
    rcases hstage : s.stage with _ | _ | _ | _ | _ | _ | _ | _
    case begun =>
      rcases hput : b.puts s.action with _ | f <;>
        simp only [BrokerServer.storeStep, hstage, BrokerServer.startPut, hput] at hstep <;>
        cases hstep <;> exact h.moveStore hi rfl nofun rfl rfl rfl rfl
    all_goals
      simp only [BrokerServer.storeStep, hstage] at hstep
      cases hstep
  | wake =>
    rcases hstage : s.stage with _ | _ | _ | _ | _ | _ | _ | _ <;>
      simp only [BrokerServer.storeStep, hstage] at hstep
    case joined =>
      split_ifs at hstep
      cases hstep
      exact h.moveStore hi rfl nofun rfl rfl rfl rfl
    all_goals cases hstep
  | ownerGet =>
    rcases hstage : s.stage with _ | _ | _ | _ | _ | _ | _ | _ <;>
      simp only [BrokerServer.storeStep, hstage] at hstep <;> cases hstep
    rcases howner : b.owner s.action with _ | e
    · exact h.moveStore hi rfl nofun rfl rfl rfl rfl
    · refine h.moveStore hi rfl (fun _ => ?_) rfl rfl rfl rfl
      rw [Has, howner]
      nofun
  | openFile err =>
    rcases hstage : s.stage with _ | _ | _ | own | _ | _ | _ | _ <;>
      simp only [BrokerServer.storeStep, hstage] at hstep <;> cases hstep
    refine h.moveStore hi rfl ?_ rfl rfl rfl rfl
    rintro ⟨e, hr⟩
    split_ifs at hr
    · rw [StoreStage.result_leave] at hr
      cases hr
    · cases err with
      | none => cases hr
      | some text =>
        rw [StoreStage.result_leave] at hr
        cases hr
  | ownerPut r =>
    rcases hstage : s.stage with _ | _ | _ | _ | own | _ | _ | _ <;>
      simp only [BrokerServer.storeStep, hstage] at hstep <;> cases hstep
    cases r with
    | ok e => exact h.ownerPut hi own e
    | error text =>
      refine h.moveStore hi rfl ?_ rfl rfl rfl rfl
      rintro ⟨e, hr⟩
      rw [StoreStage.result_leave] at hr
      cases hr
  | finishPut =>
    rcases hstage : s.stage with _ | _ | _ | _ | _ | ⟨f, r⟩ | _ | _ <;>
      simp only [BrokerServer.storeStep, hstage] at hstep <;> cases hstep
    refine h.moveStore hi rfl ?_ rfl rfl rfl rfl
    intro hst
    refine hs ?_
    rw [hstage]
    exact hst
  | closeDone =>
    rcases hstage : s.stage with _ | _ | _ | _ | _ | _ | ⟨f, r⟩ | _ <;>
      simp only [BrokerServer.storeStep, hstage] at hstep <;> cases hstep
    refine h.moveStore hi rfl ?_ rfl rfl rfl rfl
    intro hst
    refine hs ?_
    rw [hstage]
    exact hst

/-- A lookup that begins after a store was answered without error finds the cache with the entry. -/
lemma Inv.has_of_stored (h : b.Inv) {action : Hash}
    (hany : b.stores.any (·.Stored action) = true) : b.Has action := by
  obtain ⟨s, hs, hstored⟩ := List.any_eq_true.mp hany
  rw [Store.Stored] at hstored
  split at hstored
  · next e hstage =>
    obtain rfl : s.action = action := by simpa using hstored
    exact h.stores s hs ⟨e, by rw [hstage]; rfl⟩
  · cases hstored

theorem Inv.step (h : b.Inv) {label : Label} (hguard : b.JoinsNoMiss label)
    (hstep : b.step label = some b') : b'.Inv := by
  cases label with
  | beginLookup action =>
    cases hstep
    refine h.update (.of_eq rfl rfl) (fun _ => Or.inl) (fun _ _ => Or.inl) ?_
    intro l hl
    rcases List.mem_append.mp hl with hold | hnew
    · exact Or.inl hold
    · rw [List.mem_singleton.mp hnew]
      exact Or.inr ⟨h.has_of_stored, by simp [LookupStage.flight], fun _ => nofun⟩
  | lookup i act =>
    obtain ⟨l, hi, hact⟩ := Option.bind_eq_some_iff.mp hstep
    exact h.lookupStep hi hguard hact
  | beginStore action path =>
    cases hstep
    refine h.update (.of_eq rfl rfl) ?_ (fun _ _ => Or.inl) (fun _ => Or.inl)
    intro s hs
    rcases List.mem_append.mp hs with hold | hnew
    · exact Or.inl hold
    · rw [List.mem_singleton.mp hnew]
      exact Or.inr nofun
  | store i act =>
    obtain ⟨s, hi, hact⟩ := Option.bind_eq_some_iff.mp hstep
    exact h.storeStep hi hact
  | learn action e =>
    cases hstep
    refine h.update ⟨?_, fun f g hg => ⟨g, hg, rfl, Or.inl⟩⟩ (fun _ => Or.inl)
      (fun _ _ => Or.inl) (fun _ => Or.inl)
    intro action' h'
    change Function.update b.owner action (some e) action' ≠ none
    rcases eq_or_ne action' action with rfl | hne
    · rw [Function.update_self]
      nofun
    · rw [Function.update_of_ne hne]
      exact h'

/-! ## Lookups after stores -/

/-- If no lookup that began after a store joins a flight that has missed, no such lookup is answered
with a miss. -/
theorem lookup_reads_store (owner : Hash → Option Entry) (ls : List Label)
    (hguard : Guarded step JoinsNoMiss (start owner) ls)
    (hrun : run step (start owner) ls = some b) :
    ∀ l ∈ b.lookups, l.afterStore = true → l.stage ≠ .answered none := by
  have hinv : b.Inv := by
    refine run_invariant ?_ ?_ hguard hrun
    · intro s l s' hs hg hstep
      exact hs.step hg hstep
    · exact ⟨nofun, nofun, nofun⟩
  intro l hl hafter
  exact (hinv.lookups l hl).answer hafter

/-- A lookup misses, then a store of its action is answered without error. -/
def missedStore : List Label :=
  [.beginLookup zeroHash, .lookup 0 .startGet, .lookup 0 (.ownerGet tierDisk),
    .beginStore zeroHash [1], .store 0 .startPut, .store 0 (.openFile none),
    .store 0 (.ownerPut (.ok .zero)), .store 0 .finishPut, .store 0 .closeDone]

/-- The flight of the lookup leaves the map, and two more lookups share another one. -/
def newFlight : List Label :=
  missedStore ++ [.lookup 0 .finishGet, .beginLookup zeroHash, .beginLookup zeroHash,
    .lookup 1 .startGet, .lookup 2 .startGet, .lookup 0 .closeDone,
    .lookup 1 (.ownerGet tierDisk), .lookup 1 .finishGet, .lookup 1 .closeDone, .lookup 2 .wake]

theorem lookup_reads_store_newFlight :
    ∃ b, run step (start fun _ => none) newFlight = some b ∧
      b.lookups.map (·.stage) = [.answered none, .answered (some (.zero, tierDisk)),
        .answered (some (.zero, tierDisk))] ∧
      ∀ l ∈ b.lookups, l.afterStore = true → l.stage ≠ .answered none := by
  obtain ⟨b, hrun, hstages⟩ : ∃ b ∈ run step (start fun _ => none) newFlight,
      b.lookups.map (·.stage) = [.answered none, .answered (some (.zero, tierDisk)),
        .answered (some (.zero, tierDisk))] := by
    decide +kernel
  exact ⟨b, hrun, hstages, lookup_reads_store _ newFlight (by decide +kernel) hrun⟩

/-- Another lookup joins the flight before it leaves the map. -/
def oldFlight : List Label :=
  missedStore ++ [.beginLookup zeroHash, .lookup 1 .startGet, .lookup 0 .finishGet,
    .lookup 0 .closeDone, .lookup 1 .wake]

/-- A lookup that begins after a store is answered with the miss of an earlier one. -/
theorem lookup_joins_old_flight :
    ∃ b, run step (start fun _ => none) oldFlight = some b ∧
      ∃ l ∈ b.lookups, l.afterStore = true ∧ l.stage = .answered none := by
  obtain ⟨b, hrun, hmiss⟩ : ∃ b ∈ run step (start fun _ => none) oldFlight,
      ∃ l ∈ b.lookups, l.afterStore = true ∧ l.stage = .answered none := by
    decide +kernel
  exact ⟨b, hrun, hmiss⟩

end BrokerServer

end GoBuildCache
