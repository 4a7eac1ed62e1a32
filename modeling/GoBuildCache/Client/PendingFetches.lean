import GoBuildCache.Foundation.FiniteMap
import GoBuildCache.Foundation.Parties
import GoBuildCache.Key

/-!
# Fetches that lookups wait for

A manifest names actions that a build will look up, and a client fetches them ahead in chunks.
`markPending` makes a record for each action id of a chunk and enters it in a table. Until the
request of its chunk goes out (`send`), a lookup takes the action over and leaves the table alone;
then it waits for the record's channel, which is closed when the entry has landed or the chunk has
finished (`release`).

Each function here runs under the manifest's lock. Records are reached through pointers: a pointer
is a position in a heap. Closing a channel twice and following a nil pointer are panics.

The chunks own their records. `Tabled` says what holds of the table and the records at any time, for
any owners: an action in the table has an open record of a chunk that has not finished, and no
lookup has claimed it. Each function keeps that, and records only evolve (`Evolves`).
-/

open ByteString

namespace GoBuildCache

/-- One action id that a chunk names. -/
structure PendingFetch where
  /-- The request of the chunk went out. -/
  onWire : Bool
  /-- A lookup took the id before the request went out. -/
  claimed : Bool
  /-- The record has been released. -/
  closed : Bool
  /-- The channel that lookups wait for is closed. -/
  done : Bool
  deriving DecidableEq

/-- A map from action ids to pointers. -/
abbrev FetchTable : Type := Finmap fun _ : Bytes => ℕ

/-- The records of a manifest, and its table. -/
structure BuildManifest where
  /-- The records made so far. -/
  heap : List PendingFetch
  /-- The ids that chunks name, until they land. -/
  pending : FetchTable
  /-- A channel has been closed twice, or a nil pointer followed. -/
  panicked : Bool

/-- The ids of one request. -/
structure PendingChunk where
  /-- Their records. -/
  fetches : FetchTable
  /-- The ids. -/
  ids : List Bytes

namespace BuildManifest

/-- A manifest without records. -/
def new : BuildManifest := ⟨[], ∅, false⟩

/-- Makes the record of one id. -/
def markOne (c : PendingChunk) (m : BuildManifest) (id : Bytes) : PendingChunk × BuildManifest :=
  ({ c with fetches := c.fetches.insert id m.heap.length },
    { m with
      heap := m.heap ++ [⟨false, false, false, false⟩]
      pending := m.pending.insert id m.heap.length })

/-- Makes the records of a chunk. -/
def markPending (m : BuildManifest) (ids : List Bytes) : PendingChunk × BuildManifest :=
  ids.foldl (fun cm id => markOne cm.1 cm.2 id) (⟨∅, ids⟩, m)

/-- What a lookup of an id comes to before it leaves the lock. -/
inductive Await where
  /-- The id is not in the table. -/
  | absent
  /-- The lookup has taken the id over. -/
  | tookOver
  /-- The lookup waits for the channel of a record. -/
  | waits (fetch : ℕ)
  deriving DecidableEq

/-- The part of a lookup under the lock. -/
def awaitPrefetch (m : BuildManifest) (actionID : Bytes) : Await × BuildManifest :=
  match m.pending.lookup actionID with
  | none => (.absent, m)
  | some a =>
    match m.heap[a]? with
    | none => (.absent, { m with panicked := true })
    | some fetch =>
      if !fetch.onWire then
        (.tookOver, { m with
          heap := m.heap.set a { fetch with claimed := true }
          pending := m.pending.erase actionID })
      else (.waits a, m)

/-- Puts one id of a chunk on the wire, unless a lookup has claimed it. -/
def sendOne (c : PendingChunk) (m : BuildManifest) (id : Bytes) : Option Bytes × BuildManifest :=
  match c.fetches.lookup id with
  | none => (none, { m with panicked := true })
  | some a =>
    match m.heap[a]? with
    | none => (none, { m with panicked := true })
    | some fetch =>
      if fetch.claimed then (none, m)
      else (some id, { m with heap := m.heap.set a { fetch with onWire := true } })

/-- Puts a chunk on the wire and answers the ids it still asks for. -/
def send (c : PendingChunk) (m : BuildManifest) : List Bytes → List Bytes × BuildManifest
  | [] => ([], m)
  | id :: ids =>
    let one := sendOne c m id
    let rest := send c one.2 ids
    (one.1.toList ++ rest.1, rest.2)

/-- Closes the channel of a record and drops it from the table. -/
def release (m : BuildManifest) (id : Bytes) (a : ℕ) : BuildManifest :=
  match m.heap[a]? with
  | none => { m with panicked := true }
  | some fetch =>
    if fetch.closed then m
    else
      { heap := m.heap.set a { fetch with closed := true, done := true }
        pending := if m.pending.lookup id = some a then m.pending.erase id else m.pending
        panicked := m.panicked || fetch.done }

/-- Releases the records of a chunk for some ids. -/
def releaseAll (c : PendingChunk) (m : BuildManifest) (ids : List Bytes) : BuildManifest :=
  ids.foldl
    (fun m id => match c.fetches.lookup id with
      | some a => m.release id a
      | none => m)
    m

/-- Releases the lookups that wait for ids that have landed. -/
def landed (c : PendingChunk) (m : BuildManifest) (ids : List Bytes) : BuildManifest :=
  releaseAll c m ids

/-- Releases every id of a chunk that has not landed. -/
def finish (order : MapOrder Bytes) (c : PendingChunk) (m : BuildManifest) : BuildManifest :=
  releaseAll c m (order.values c.fetches.keys)

/-! ## How records evolve -/

/-- What may become of a record. It stays on the wire and closed, and it is claimed only before it
is on the wire. -/
structure Becomes (f f' : PendingFetch) : Prop where
  /-- A record on the wire is no longer claimed. -/
  onWire : f.onWire = true → f'.onWire = true ∧ f'.claimed = f.claimed
  /-- A claim stays. -/
  claimed : f.claimed = true → f'.claimed = true
  /-- A record is not opened again. -/
  closed : f.closed = true → f'.closed = true

lemma Becomes.refl (f : PendingFetch) : Becomes f f :=
  ⟨fun h => ⟨h, rfl⟩, fun h => h, fun h => h⟩

lemma Becomes.trans {f₁ f₂ f₃ : PendingFetch} (h : Becomes f₁ f₂) (h' : Becomes f₂ f₃) :
    Becomes f₁ f₃ := by
  refine ⟨?_, fun hf => h'.claimed (h.claimed hf), fun hf => h'.closed (h.closed hf)⟩
  intro hwire
  obtain ⟨hwire₂, heq⟩ := h.onWire hwire
  obtain ⟨hwire₃, heq'⟩ := h'.onWire hwire₂
  exact ⟨hwire₃, heq'.trans heq⟩

/-- Every record is still there, as it may have become. -/
def Evolves (m m' : BuildManifest) : Prop :=
  ∀ (a : ℕ) (f : PendingFetch), m.heap[a]? = some f → ∃ f', m'.heap[a]? = some f' ∧ Becomes f f'

lemma Evolves.refl (m : BuildManifest) : Evolves m m :=
  fun _ f hf => ⟨f, hf, Becomes.refl f⟩

lemma Evolves.trans {m₁ m₂ m₃ : BuildManifest} (h : Evolves m₁ m₂) (h' : Evolves m₂ m₃) :
    Evolves m₁ m₃ := by
  intro a f hf
  obtain ⟨f₂, hf₂, hbecomes⟩ := h a f hf
  obtain ⟨f₃, hf₃, hbecomes'⟩ := h' a f₂ hf₂
  exact ⟨f₃, hf₃, hbecomes.trans hbecomes'⟩

/-- A change of one record. -/
lemma evolves_set {m m' : BuildManifest} {a : ℕ} {f f' : PendingFetch} (hf : m.heap[a]? = some f)
    (hheap : m'.heap = m.heap.set a f') (hbecomes : Becomes f f') : Evolves m m' := by
  intro b g hg
  rw [hheap, Parties.getElem?_set hf]
  by_cases hb : b = a
  · subst hb
    obtain rfl : f = g := Option.some.inj (hf.symm.trans hg)
    exact ⟨f', if_pos rfl, hbecomes⟩
  · exact ⟨g, (if_neg hb).trans hg, Becomes.refl g⟩

/-! ## The table and the records -/

/-- The records are owned: chunk `i` has the records `owner i`. A record's channel is closed when it
is released, no two chunks share a record, an id in the table has an open and unclaimed record of a
chunk that has not finished, and all records of a chunk that has finished are closed. -/
structure Tabled (owner : ℕ → FetchTable) (finished : ℕ → Bool) (m : BuildManifest) : Prop where
  /-- Nothing has panicked. -/
  calm : m.panicked = false
  /-- A released record has a closed channel, and an open one has not. -/
  done : ∀ (a : ℕ) (f : PendingFetch), m.heap[a]? = some f → f.done = f.closed
  /-- Owned records have been made. -/
  lt : ∀ i id a, (owner i).lookup id = some a → a < m.heap.length
  /-- A record has one owner. -/
  alone : ∀ i id j id' a, (owner i).lookup id = some a → (owner j).lookup id' = some a →
    i = j ∧ id = id'
  /-- What is in the table. -/
  pending : ∀ id a, m.pending.lookup id = some a →
    ∃ (i : ℕ) (f : PendingFetch), (owner i).lookup id = some a ∧ finished i = false ∧
      m.heap[a]? = some f ∧ f.closed = false ∧ f.claimed = false
  /-- What has finished. -/
  finished : ∀ i id a (f : PendingFetch), finished i = true → (owner i).lookup id = some a →
    m.heap[a]? = some f → f.closed = true

variable {owner : ℕ → FetchTable} {finished : ℕ → Bool} {m : BuildManifest} {i a : ℕ}
  {id : Bytes} {c : PendingChunk}

/-- An owned record. -/
lemma Tabled.exists_fetch (h : Tabled owner finished m) (ha : (owner i).lookup id = some a) :
    ∃ f, m.heap[a]? = some f :=
  ⟨_, List.getElem?_eq_getElem (h.lt i id a ha)⟩

/-- A record changes, and ids may leave the table. What stays in the table is open and unclaimed. -/
lemma Tabled.set {f f' : PendingFetch} (h : Tabled owner finished m) (hf : m.heap[a]? = some f)
    (hdone : f'.done = f'.closed) (hclosed : f.closed = true → f'.closed = true)
    {pending : FetchTable}
    (hpending : ∀ id b, pending.lookup id = some b →
      m.pending.lookup id = some b ∧ (b = a → f'.closed = false ∧ f'.claimed = false)) :
    Tabled owner finished { m with heap := m.heap.set a f', pending := pending } where
  calm := h.calm
  done := by
    intro b g hg
    rw [Parties.getElem?_set hf] at hg
    split_ifs at hg with hb
    · obtain rfl := Option.some.inj hg
      exact hdone
    · exact h.done b g hg
  lt := by
    intro i id b hb
    rw [List.length_set]
    exact h.lt i id b hb
  alone := h.alone
  pending := by
    intro id b hb
    obtain ⟨hb, hopen⟩ := hpending id b hb
    obtain ⟨i, g, howner, hunfinished, hg, hg'⟩ := h.pending id b hb
    by_cases hba : b = a
    · refine ⟨i, f', howner, hunfinished, ?_, hopen hba⟩
      rw [Parties.getElem?_set hf, if_pos hba]
    · refine ⟨i, g, howner, hunfinished, ?_, hg'⟩
      rw [Parties.getElem?_set hf, if_neg hba]
      exact hg
  finished := by
    intro i id b g hfinished howner hg
    rw [Parties.getElem?_set hf] at hg
    split_ifs at hg with hb
    · subst hb
      obtain rfl := Option.some.inj hg
      exact hclosed (h.finished i id b f hfinished howner hf)
    · exact h.finished i id b g hfinished howner hg

/-- An id that stays in the table when another is dropped has another record. -/
lemma Tabled.lookup_erase {p : Prop} {id' : Bytes} {b : ℕ} (h : Tabled owner finished m)
    (ha : (owner i).lookup id = some a) (hb : (m.pending.erase id).lookup id' = some b) :
    m.pending.lookup id' = some b ∧ (b = a → p) := by
  have hne : id' ≠ id := by
    rintro rfl
    rw [Finmap.lookup_erase] at hb
    cases hb
  rw [Finmap.lookup_erase_ne hne] at hb
  refine ⟨hb, ?_⟩
  rintro rfl
  obtain ⟨j, -, howner, -⟩ := h.pending id' b hb
  exact absurd (h.alone j id' i id b howner ha).2 hne

/-! ## Making records -/

/-- The owners after a record is made. -/
lemma lookup_update_insert (howner : owner i = c.fetches) (n j : ℕ) (id' : Bytes) :
    (Function.update owner i (c.fetches.insert id n) j).lookup id' =
      if j = i ∧ id' = id then some n else (owner j).lookup id' := by
  by_cases hj : j = i
  · subst hj
    rw [Function.update_self, howner]
    by_cases hid : id' = id
    · rw [hid, Finmap.lookup_insert, if_pos ⟨rfl, rfl⟩]
    · rw [Finmap.lookup_insert_of_ne _ hid, if_neg fun h => hid h.2]
  · rw [Function.update_of_ne hj, if_neg fun h => hj h.1]

lemma Tabled.markOne (h : Tabled owner finished m) (howner : owner i = c.fetches)
    (hunfinished : finished i = false) (id : Bytes) :
    Tabled (Function.update owner i (markOne c m id).1.fetches) finished (markOne c m id).2 where
  calm := h.calm
  done := by
    intro a f hf
    rcases Parties.getElem?_concat_cases hf with hf | ⟨-, rfl⟩
    · exact h.done a f hf
    · rfl
  lt := by
    intro j id' a ha
    simp only [BuildManifest.markOne, List.length_append, List.length_singleton]
    rw [BuildManifest.markOne, lookup_update_insert howner] at ha
    split_ifs at ha
    · obtain rfl := Option.some.inj ha
      exact Nat.lt_succ_self _
    · exact Nat.lt_succ_of_lt (h.lt j id' a ha)
  alone := by
    intro j id₁ k id₂ a hj hk
    rw [BuildManifest.markOne, lookup_update_insert howner] at hj hk
    split_ifs at hj hk with h₁ h₂ h₂
    · exact ⟨h₁.1.trans h₂.1.symm, h₁.2.trans h₂.2.symm⟩
    · obtain rfl := Option.some.inj hj
      exact absurd (h.lt k id₂ _ hk) (lt_irrefl _)
    · obtain rfl := Option.some.inj hk
      exact absurd (h.lt j id₁ _ hj) (lt_irrefl _)
    · exact h.alone j id₁ k id₂ a hj hk
  pending := by
    intro id' a ha
    by_cases hid : id' = id
    · subst hid
      rw [BuildManifest.markOne, Finmap.lookup_insert] at ha
      obtain rfl := Option.some.inj ha
      refine ⟨i, ⟨false, false, false, false⟩, ?_, hunfinished, ?_, rfl, rfl⟩
      · rw [BuildManifest.markOne, lookup_update_insert howner, if_pos ⟨rfl, rfl⟩]
      · exact List.getElem?_concat_length
    · rw [BuildManifest.markOne, Finmap.lookup_insert_of_ne _ hid] at ha
      obtain ⟨j, f, hj, hunfinished, hf, hopen⟩ := h.pending id' a ha
      refine ⟨j, f, ?_, hunfinished, ?_, hopen⟩
      · rw [BuildManifest.markOne, lookup_update_insert howner, if_neg fun h => hid h.2]
        exact hj
      · exact Parties.getElem?_append_of_eq_some hf _
  finished := by
    intro j id' a f hfinished ha hf
    have hj : j ≠ i := by
      rintro rfl
      rw [hunfinished] at hfinished
      cases hfinished
    rw [Function.update_of_ne hj] at ha
    rw [BuildManifest.markOne, List.getElem?_append_left (h.lt j id' a ha)] at hf
    exact h.finished j id' a f hfinished ha hf

/-- The records of a chunk are made one after the other. -/
lemma Tabled.foldl_markOne (hunfinished : finished i = false) (ids : List Bytes) :
    ∀ (owner : ℕ → FetchTable) (cm : PendingChunk × BuildManifest), Tabled owner finished cm.2 →
      owner i = cm.1.fetches →
      let cm' := ids.foldl (fun cm id => BuildManifest.markOne cm.1 cm.2 id) cm
      Tabled (Function.update owner i cm'.1.fetches) finished cm'.2 ∧ Evolves cm.2 cm'.2 ∧
        cm'.1.ids = cm.1.ids ∧ ∀ id, id ∈ cm'.1.fetches ↔ id ∈ cm.1.fetches ∨ id ∈ ids := by
  induction ids with
  | nil =>
    intro owner cm h howner
    refine ⟨?_, Evolves.refl cm.2, rfl, by simp⟩
    rw [List.foldl_nil, ← howner, Function.update_eq_self]
    exact h
  | cons id ids ih =>
    intro owner cm h howner
    obtain ⟨htabled, hevolves, hids, hmem⟩ :=
      ih (Function.update owner i (BuildManifest.markOne cm.1 cm.2 id).1.fetches)
        (BuildManifest.markOne cm.1 cm.2 id) (h.markOne howner hunfinished id)
        (Function.update_self i _ owner)
    rw [Function.update_idem] at htabled
    refine ⟨htabled, Evolves.trans ?_ hevolves, hids, ?_⟩
    · intro a f hf
      exact ⟨f, Parties.getElem?_append_of_eq_some hf _, Becomes.refl f⟩
    · intro id'
      rw [List.foldl_cons, hmem, BuildManifest.markOne, Finmap.mem_insert, List.mem_cons]
      tauto

/-- A chunk that had no records gets one for each of its ids. -/
lemma Tabled.markPending (h : Tabled owner finished m) (howner : owner i = ∅)
    (hunfinished : finished i = false) (ids : List Bytes) :
    Tabled (Function.update owner i (m.markPending ids).1.fetches) finished (m.markPending ids).2 ∧
      Evolves m (m.markPending ids).2 ∧ (m.markPending ids).1.ids = ids ∧
      ∀ id, id ∈ (m.markPending ids).1.fetches ↔ id ∈ ids := by
  obtain ⟨htabled, hevolves, hids, hmem⟩ :=
    Tabled.foldl_markOne hunfinished ids owner (⟨∅, ids⟩, m) h howner
  refine ⟨htabled, hevolves, hids, ?_⟩
  intro id
  rw [BuildManifest.markPending, hmem]
  exact or_iff_right (Finmap.notMem_empty)

/-! ## Requests -/

/-- One id of a chunk: it is on the wire, or a lookup has claimed it. -/
lemma Tabled.sendOne (h : Tabled owner finished m) (howner : owner i = c.fetches)
    (ha : (owner i).lookup id = some a) :
    Tabled owner finished (sendOne c m id).2 ∧ Evolves m (sendOne c m id).2 ∧
      ∃ f, (sendOne c m id).2.heap[a]? = some f ∧
        ((sendOne c m id).1 = none ∧ f.claimed = true ∨
          (sendOne c m id).1 = some id ∧ f.onWire = true ∧ f.claimed = false) := by
  obtain ⟨f, hf⟩ := h.exists_fetch ha
  simp only [BuildManifest.sendOne, ← howner, ha, hf]
  split_ifs with hclaimed
  · exact ⟨h, Evolves.refl m, f, hf, .inl ⟨rfl, hclaimed⟩⟩
  · rw [Bool.not_eq_true] at hclaimed
    refine ⟨?_, ?_, _, List.getElem?_set_self (h.lt i id a ha), .inr ⟨rfl, rfl, hclaimed⟩⟩
    · refine h.set hf ?_ ?_ ?_
      · exact h.done a f hf
      · exact fun hclosed => hclosed
      · intro id' b hb
        refine ⟨hb, ?_⟩
        rintro rfl
        obtain ⟨-, g, -, -, hg, hopen⟩ := h.pending id' b hb
        rw [Option.some.inj (hf.symm.trans hg)]
        exact hopen
    · exact evolves_set hf rfl ⟨fun _ => ⟨rfl, rfl⟩, fun h => h, fun h => h⟩

/-- A chunk goes on the wire. What it still asks for no lookup has claimed, and every other id one
has. -/
lemma Tabled.send (h : Tabled owner finished m) (howner : owner i = c.fetches) (ids : List Bytes)
    (hids : ∀ id ∈ ids, id ∈ c.fetches) :
    Tabled owner finished (send c m ids).2 ∧ Evolves m (send c m ids).2 ∧
      (∀ id ∈ (send c m ids).1, ∃ a f, (owner i).lookup id = some a ∧
        (send c m ids).2.heap[a]? = some f ∧ f.onWire = true ∧ f.claimed = false) ∧
      ∀ id ∈ ids, ∃ a f, (owner i).lookup id = some a ∧
        (send c m ids).2.heap[a]? = some f ∧ (f.claimed = true ∨ f.onWire = true) := by
  induction ids generalizing m with
  | nil => exact ⟨h, Evolves.refl m, by simp [BuildManifest.send], by simp⟩
  | cons id ids ih =>
    obtain ⟨a, ha⟩ := Finmap.mem_iff.mp (hids id List.mem_cons_self)
    rw [← howner] at ha
    obtain ⟨htabled, hevolves, f, hf, hone⟩ := h.sendOne howner ha
    obtain ⟨htabled', hevolves', hasked, hall⟩ :=
      ih htabled fun id' hid' => hids id' (List.mem_cons_of_mem id hid')
    obtain ⟨f', hf', hbecomes⟩ := hevolves' a f hf
    refine ⟨htabled', hevolves.trans hevolves', ?_, ?_⟩
    · intro id' hid'
      rcases List.mem_append.mp hid' with hmem | hmem
      · rcases hone with ⟨hnone, -⟩ | ⟨hsome, honwire, hfree⟩
        · rw [hnone] at hmem
          cases hmem
        · rw [hsome, Option.toList_some, List.mem_singleton] at hmem
          subst hmem
          obtain ⟨honwire', hsame⟩ := hbecomes.onWire honwire
          exact ⟨a, f', ha, hf', honwire', hsame.trans hfree⟩
      · exact hasked id' hmem
    · intro id' hid'
      rcases List.mem_cons.mp hid' with rfl | hmem
      · rcases hone with ⟨-, hf⟩ | ⟨-, hf, -⟩
        · exact ⟨a, f', ha, hf', .inl (hbecomes.claimed hf)⟩
        · exact ⟨a, f', ha, hf', .inr (hbecomes.onWire hf).1⟩
      · exact hall id' hmem

/-! ## Lookups -/

/-- A lookup takes an id over that is in the table and not on the wire. -/
lemma pending_of_tookOver (h : (m.awaitPrefetch id).1 = .tookOver) :
    ∃ a f, m.pending.lookup id = some a ∧ m.heap[a]? = some f ∧ f.onWire = false := by
  simp only [BuildManifest.awaitPrefetch] at h
  split at h
  · cases h
  rename_i a ha
  split at h
  · cases h
  rename_i f hf
  split_ifs at h with hwire
  exact ⟨a, f, ha, hf, by simpa using hwire⟩

/-- A lookup claims a record that is not on the wire, or waits for one that is. -/
lemma Tabled.awaitPrefetch (h : Tabled owner finished m) (id : Bytes) :
    Tabled owner finished (m.awaitPrefetch id).2 ∧ Evolves m (m.awaitPrefetch id).2 ∧
      ((m.awaitPrefetch id).1 = .tookOver → ∃ i a f, (owner i).lookup id = some a ∧
        (m.awaitPrefetch id).2.heap[a]? = some f ∧ f.claimed = true) ∧
      ∀ a, (m.awaitPrefetch id).1 = .waits a → ∃ i f, (owner i).lookup id = some a ∧
        (m.awaitPrefetch id).2.heap[a]? = some f ∧ f.onWire = true := by
  rcases hentry : m.pending.lookup id with _ | a
  · simp only [BuildManifest.awaitPrefetch, hentry]
    exact ⟨h, Evolves.refl m, by simp, by simp⟩
  obtain ⟨i, f, howner, -, hf, -⟩ := h.pending id a hentry
  simp only [BuildManifest.awaitPrefetch, hentry, hf]
  by_cases hwire : f.onWire = true
  · simp only [hwire, Bool.not_true, Bool.false_eq_true, if_false]
    refine ⟨h, Evolves.refl m, by simp, ?_⟩
    intro b hb
    obtain rfl := Await.waits.inj hb
    exact ⟨i, f, howner, hf, hwire⟩
  · simp only [hwire, Bool.not_false, if_true]
    refine ⟨?_, ?_, ?_, by simp⟩
    · refine h.set hf ?_ ?_ ?_
      · exact h.done a f hf
      · exact fun hclosed => hclosed
      · intro id' b hb
        exact h.lookup_erase howner hb
    · exact evolves_set hf rfl ⟨fun h => absurd h hwire, fun _ => rfl, fun h => h⟩
    · intro _
      exact ⟨i, a, _, howner, List.getElem?_set_self (h.lt i id a howner), rfl⟩

/-! ## Releasing records -/

/-- A record of a chunk is released: it is closed, and it is no longer in the table. -/
lemma Tabled.release (h : Tabled owner finished m) (ha : (owner i).lookup id = some a) :
    Tabled owner finished (m.release id a) ∧ Evolves m (m.release id a) ∧
      ∃ f, (m.release id a).heap[a]? = some f ∧ f.closed = true := by
  obtain ⟨f, hf⟩ := h.exists_fetch ha
  simp only [BuildManifest.release, hf]
  split_ifs with hclosed hentry
  · exact ⟨h, Evolves.refl m, f, hf, hclosed⟩
  all_goals
    have hopen : f.done = false := (h.done a f hf).trans (by simpa using hclosed)
    refine ⟨?_, evolves_set hf rfl ⟨fun hwire => ⟨hwire, rfl⟩, fun h => h, fun _ => rfl⟩, _,
      List.getElem?_set_self (h.lt i id a ha), rfl⟩
    rw [hopen, Bool.or_false]
    refine h.set hf rfl (fun _ => rfl) ?_
    intro id' b hb
  · exact h.lookup_erase ha hb
  · -- the id has a record of another chunk
    refine ⟨hb, ?_⟩
    rintro rfl
    obtain ⟨j, -, howner, -⟩ := h.pending id' b hb
    rw [(h.alone j id' i id b howner ha).2] at hb
    exact absurd hb hentry

/-- Records of a chunk are released one after the other. -/
lemma Tabled.releaseAll (h : Tabled owner finished m) (hc : owner i = c.fetches)
    (ids : List Bytes) :
    Tabled owner finished (m.releaseAll c ids) ∧ Evolves m (m.releaseAll c ids) ∧
      ∀ id ∈ ids, ∀ a, (owner i).lookup id = some a →
        ∃ f, (m.releaseAll c ids).heap[a]? = some f ∧ f.closed = true := by
  induction ids generalizing m with
  | nil => exact ⟨h, Evolves.refl m, by simp⟩
  | cons id ids ih =>
    rw [BuildManifest.releaseAll, List.foldl_cons, ← BuildManifest.releaseAll]
    rcases hid : c.fetches.lookup id with _ | a
    · obtain ⟨htabled, hevolves, hclosed⟩ := ih h
      refine ⟨htabled, hevolves, ?_⟩
      intro id' hid' b hb
      rcases List.mem_cons.mp hid' with rfl | hmem
      · rw [hc, hid] at hb
        cases hb
      · exact hclosed id' hmem b hb
    · obtain ⟨htabled, hevolves, f, hf, hfclosed⟩ := h.release (hc ▸ hid)
      obtain ⟨htabled', hevolves', hclosed⟩ := ih htabled
      refine ⟨htabled', hevolves.trans hevolves', ?_⟩
      intro id' hid' b hb
      rcases List.mem_cons.mp hid' with rfl | hmem
      · obtain rfl : a = b := Option.some.inj (hid.symm.trans (hc ▸ hb))
        obtain ⟨f', hf', hbecomes⟩ := hevolves' a f hf
        exact ⟨f', hf', hbecomes.closed hfclosed⟩
      · exact hclosed id' hmem b hb

/-- A chunk that has finished has no open record. -/
lemma Tabled.finish (h : Tabled owner finished m) (hc : owner i = c.fetches)
    (order : MapOrder Bytes) :
    Tabled owner (Function.update finished i true) (m.finish order c) ∧
      Evolves m (m.finish order c) := by
  obtain ⟨htabled, hevolves, hclosed⟩ := h.releaseAll hc (order.values c.fetches.keys)
  have hall : ∀ id a, (owner i).lookup id = some a →
      ∃ f, (m.finish order c).heap[a]? = some f ∧ f.closed = true := by
    intro id a ha
    refine hclosed id ?_ a ha
    rw [order.mem_values, Finmap.mem_keys, ← Finmap.lookup_isSome, ← hc, ha]
    rfl
  refine ⟨⟨htabled.calm, htabled.done, htabled.lt, htabled.alone, ?_, ?_⟩, hevolves⟩
  · intro id a ha
    obtain ⟨j, f, howner, hunfinished, hf, hopen, hfree⟩ := htabled.pending id a ha
    refine ⟨j, f, howner, ?_, hf, hopen, hfree⟩
    have hji : j ≠ i := by
      rintro rfl
      obtain ⟨f', hf', hf'closed⟩ := hall id a howner
      rw [Option.some.inj (hf.symm.trans hf'), hf'closed] at hopen
      cases hopen
    rw [Function.update_of_ne hji]
    exact hunfinished
  · intro j id a f hfinished howner hf
    by_cases hji : j = i
    · subst hji
      obtain ⟨f', hf', hf'closed⟩ := hall id a howner
      rw [Option.some.inj (hf.symm.trans hf')]
      exact hf'closed
    · rw [Function.update_of_ne hji] at hfinished
      exact htabled.finished j id a f hfinished howner hf

end BuildManifest

end GoBuildCache
