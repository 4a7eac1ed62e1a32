import GoBuildCache.Client.PendingFetches
import GoBuildCache.Client.Uploads
import GoBuildCache.Foundation.Transition

/-!
# Fetches ahead and lookups

Two loops fetch ahead what a manifest names. `fetchManifest` marks all its chunks, and its workers
send one after the other and ask for what no lookup has claimed. `fetchFallback` marks a chunk when
a worker takes it, sends it, and asks for all of its ids. Lookups come at any time.

A state has the records, the chunks and the calls of `AwaitPrefetch`. The calls on one chunk may
come in any order after it has been marked, which includes the order of either loop. No run closes a
channel twice or leaves a lookup to wait for ever (`awaitPrefetch_ends`). A lookup that takes an id
over is the only one that asks for it in the first loop, and in the second one as long as no lookup
comes between the two calls of a worker (`claimed_left_out`).
-/

open ByteString
open Transition

namespace GoBuildCache

open BuildManifest

/-- The loop that fetches. -/
inductive FetchLoop where
  /-- `fetchManifest`. -/
  | manifest
  /-- `fetchFallback`. -/
  | fallback
  deriving DecidableEq

/-- One chunk. -/
structure ChunkFetch where
  /-- Its ids. -/
  ids : List Bytes
  /-- What `markPending` has answered. -/
  chunk : Option PendingChunk
  /-- What `send` has answered. -/
  sent : Option (List Bytes)
  /-- The request that has been sent. -/
  asked : Option (List Key)
  /-- Whether `finish` has been called. -/
  finished : Bool

/-- The records of a chunk. -/
def ChunkFetch.fetches (f : ChunkFetch) : FetchTable :=
  match f.chunk with
  | some c => c.fetches
  | none => ∅

/-- Where a call of `AwaitPrefetch` is. -/
inductive LookupState where
  /-- It has returned: the id was not in the table. -/
  | absent
  /-- It has returned: the id was in the table, and its chunk had not been sent. -/
  | tookOver
  /-- It waits for the channel of a record. -/
  | waiting (fetch : ℕ)
  /-- It has returned after it waited. -/
  | waited
  /-- It has returned because the wait took too long. -/
  | gaveUp
  deriving DecidableEq

/-- A call of `AwaitPrefetch`. -/
structure PrefetchLookup where
  /-- The id that is looked up. -/
  actionID : Bytes
  /-- Where it is. -/
  state : LookupState
  deriving DecidableEq

/-- The records, the chunks and the lookups. -/
structure ManifestFetch where
  /-- The records and the table. -/
  manifest : BuildManifest
  /-- The chunks. -/
  chunks : List ChunkFetch
  /-- The lookups so far. -/
  lookups : List PrefetchLookup

/-- The keys of the ids that the client does not hold. -/
def stillAbsent (keyPrefix : Bytes) (held : Hash → Bool) (ids : List Bytes) : List Key :=
  ids.filterMap fun actionID =>
    match parseActionHash actionID with
    | some h => if held h then none else some (WebBackend.key keyPrefix actionID)
    | none => some (WebBackend.key keyPrefix actionID)

/-- The keys that a worker asks for, when it has called `send`. -/
def FetchLoop.request (loop : FetchLoop) (keyPrefix : Bytes) (held : Hash → Bool)
    (part sent : List Bytes) : Option (List Key) :=
  match loop with
  | .manifest =>
    let keys := stillAbsent keyPrefix held sent
    if keys = [] then none else some keys
  | .fallback => some (part.map (WebBackend.key keyPrefix))

namespace ManifestFetch

/-- What can happen. -/
inductive Label where
  /-- A chunk is marked. -/
  | mark (i : ℕ)
  /-- A chunk is put on the wire. -/
  | send (i : ℕ)
  /-- The request of a chunk is made, when the client holds some objects. -/
  | ask (i : ℕ) (held : Hash → Bool)
  /-- Entries of a chunk have landed. -/
  | landed (i : ℕ) (ids : List Bytes)
  /-- A chunk ends, and its records are listed in some order. -/
  | finish (i : ℕ) (order : MapOrder Bytes)
  /-- A lookup calls `AwaitPrefetch`. -/
  | lookup (actionID : Bytes)
  /-- A lookup that waits sees its channel closed. -/
  | wake (j : ℕ)
  /-- A lookup has waited too long. -/
  | giveUp (j : ℕ)

/-- Where a lookup is when it has left the lock. -/
def entered : Await → LookupState
  | .absent => .absent
  | .tookOver => .tookOver
  | .waits a => .waiting a

/-- A step of a lookup that waits. -/
def leave (s : ManifestFetch) (j : ℕ) (woken : BuildManifest → ℕ → Bool) (state : LookupState) :
    Option ManifestFetch :=
  s.lookups[j]?.bind fun l =>
    match l.state with
    | .waiting a =>
      if woken s.manifest a then
        some { s with lookups := s.lookups.set j { l with state := state } }
      else none
    | _ => none

/-- Whether the channel of a record is closed. -/
def isDone (m : BuildManifest) (a : ℕ) : Bool :=
  match m.heap[a]? with
  | some fetch => fetch.done
  | none => false

/-- One step. -/
def step (loop : FetchLoop) (keyPrefix : Bytes) (s : ManifestFetch) : Label → Option ManifestFetch
  | .mark i => s.chunks[i]?.bind fun f =>
    match f.chunk with
    | none =>
      let (c, m) := s.manifest.markPending f.ids
      some { s with manifest := m, chunks := s.chunks.set i { f with chunk := some c } }
    | some _ => none
  | .send i => s.chunks[i]?.bind fun f =>
    match f.chunk, f.sent with
    | some c, none =>
      let (ids, m) := send c s.manifest c.ids
      some { s with manifest := m, chunks := s.chunks.set i { f with sent := some ids } }
    | _, _ => none
  | .ask i held => s.chunks[i]?.bind fun f =>
    match f.sent, f.asked with
    | some ids, none =>
      some { s with
        chunks := s.chunks.set i { f with asked := loop.request keyPrefix held f.ids ids } }
    | _, _ => none
  | .landed i ids => s.chunks[i]?.bind fun f =>
    match f.chunk with
    | some c => some { s with manifest := landed c s.manifest ids }
    | none => none
  | .finish i order => s.chunks[i]?.bind fun f =>
    match f.chunk, f.finished with
    | some c, false =>
      some { s with
        manifest := finish order c s.manifest
        chunks := s.chunks.set i { f with finished := true } }
    | _, _ => none
  | .lookup actionID =>
    let (await, m) := s.manifest.awaitPrefetch actionID
    some { s with manifest := m, lookups := s.lookups ++ [⟨actionID, entered await⟩] }
  | .wake j => s.leave j isDone .waited
  | .giveUp j => s.leave j (fun _ _ => true) .gaveUp

/-- Nothing has been marked. -/
def start (chunks : List (List Bytes)) : ManifestFetch :=
  ⟨.new, chunks.map fun ids => ⟨ids, none, none, none, false⟩, []⟩

variable {loop : FetchLoop} {keyPrefix : Bytes} {s s' t : ManifestFetch} {m m' : BuildManifest}
  {f f' : ChunkFetch} {i j : ℕ}

/-- An action id. -/
def idA : Bytes := List.replicate 64 0x61

/-- Another action id. -/
def idB : Bytes := List.replicate 64 0x62

/-! ## What holds of one chunk -/

/-- The chunk has a record for an id, of which something holds. -/
def Fetches (m : BuildManifest) (f : ChunkFetch) (id : Bytes) (p : PendingFetch → Prop) : Prop :=
  ∃ a g, f.fetches.lookup id = some a ∧ m.heap[a]? = some g ∧ p g

lemma Fetches.evolves {id : Bytes} {p q : PendingFetch → Prop} (h : Fetches m f id p)
    (hevolves : Evolves m m') (hp : ∀ g g', p g → Becomes g g' → q g') : Fetches m' f id q := by
  obtain ⟨a, g, ha, hg, hpg⟩ := h
  obtain ⟨g', hg', hbecomes⟩ := hevolves a g hg
  exact ⟨a, g', ha, hg', hp g g' hpg hbecomes⟩

/-- What the worker of a chunk has done with it. -/
structure Served (loop : FetchLoop) (keyPrefix : Bytes) (m : BuildManifest) (f : ChunkFetch) :
    Prop where
  /-- Nothing comes before the mark. -/
  unmarked : f.chunk = none → f.sent = none ∧ f.finished = false
  /-- A marked chunk has a record for each of its ids. -/
  marked : ∀ c, f.chunk = some c → c.ids = f.ids ∧ ∀ id, id ∈ c.fetches ↔ id ∈ f.ids
  /-- What `send` has answered is on the wire, and no lookup claims it. -/
  sent : ∀ ids, f.sent = some ids → ∀ id ∈ ids,
    Fetches m f id fun g => g.onWire = true ∧ g.claimed = false
  /-- What `send` has not answered, a lookup has claimed. -/
  left : f.sent.isSome = true → ∀ id ∈ f.ids,
    Fetches m f id fun g => g.claimed = true ∨ g.onWire = true
  /-- The first loop asks for what `send` has answered. -/
  asked : loop = .manifest → ∀ keys, f.asked = some keys → ∃ ids, f.sent = some ids ∧
    ∀ key ∈ keys, ∃ id ∈ ids, key = WebBackend.key keyPrefix id

lemma served_start (ids : List Bytes) :
    Served loop keyPrefix m ⟨ids, none, none, none, false⟩ where
  unmarked _ := ⟨rfl, rfl⟩
  marked _ h := by cases h
  sent _ h := by cases h
  left h := by cases h
  asked _ _ h := by cases h

lemma Served.evolves (h : Served loop keyPrefix m f) (hevolves : Evolves m m') :
    Served loop keyPrefix m' f where
  unmarked := h.unmarked
  marked := h.marked
  sent := by
    intro ids hids id hid
    refine (h.sent ids hids id hid).evolves hevolves ?_
    rintro g g' ⟨hwire, hfree⟩ hbecomes
    obtain ⟨hwire', hsame⟩ := hbecomes.onWire hwire
    exact ⟨hwire', hsame.trans hfree⟩
  left := by
    intro hsent id hid
    refine (h.left hsent id hid).evolves hevolves ?_
    rintro g g' (hclaimed | hwire) hbecomes
    · exact .inl (hbecomes.claimed hclaimed)
    · exact .inr (hbecomes.onWire hwire).1
  asked := h.asked

lemma Served.mem_ids {id : Bytes} {a : ℕ} (h : Served loop keyPrefix m f)
    (ha : f.fetches.lookup id = some a) : id ∈ f.ids := by
  rcases hc : f.chunk with _ | c
  · simp [ChunkFetch.fetches, hc] at ha
  · simp only [ChunkFetch.fetches, hc] at ha
    exact ((h.marked c hc).2 id).mp (Finmap.mem_iff.mpr ⟨a, ha⟩)

lemma mem_stillAbsent {held : Hash → Bool} {ids : List Bytes} {key : Key}
    (h : key ∈ stillAbsent keyPrefix held ids) :
    ∃ id ∈ ids, key = WebBackend.key keyPrefix id := by
  obtain ⟨id, hid, hkey⟩ := List.mem_filterMap.mp h
  refine ⟨id, hid, ?_⟩
  split at hkey
  · split_ifs at hkey
    exact (Option.some.inj hkey).symm
  · exact (Option.some.inj hkey).symm

/-! ## What holds of the whole -/

/-- The records of each chunk. -/
def owner (s : ManifestFetch) (i : ℕ) : FetchTable :=
  match s.chunks[i]? with
  | some f => f.fetches
  | none => ∅

/-- The chunks that have finished. -/
def finishedAt (s : ManifestFetch) (i : ℕ) : Bool :=
  match s.chunks[i]? with
  | some f => f.finished
  | none => false

lemma owner_set (hf : s.chunks[i]? = some f) :
    owner { s with manifest := m, chunks := s.chunks.set i f' } =
      Function.update s.owner i f'.fetches := by
  funext j
  simp only [owner, Parties.getElem?_set hf, Function.update_apply]
  by_cases hj : j = i <;> simp [hj]

lemma finishedAt_set (hf : s.chunks[i]? = some f) :
    finishedAt { s with manifest := m, chunks := s.chunks.set i f' } =
      Function.update s.finishedAt i f'.finished := by
  funext j
  simp only [finishedAt, Parties.getElem?_set hf, Function.update_apply]
  by_cases hj : j = i <;> simp [hj]

lemma owner_eq (hf : s.chunks[i]? = some f) : s.owner i = f.fetches := by
  rw [owner, hf]

lemma finishedAt_eq (hf : s.chunks[i]? = some f) : s.finishedAt i = f.finished := by
  rw [finishedAt, hf]

/-- What a lookup waits for, or has claimed, is a record of a chunk. -/
def Justified (s : ManifestFetch) (l : PrefetchLookup) : Prop :=
  match l.state with
  | .waiting a => ∃ i g, (s.owner i).lookup l.actionID = some a ∧
      s.manifest.heap[a]? = some g ∧ g.onWire = true
  | .tookOver => ∃ i a g, (s.owner i).lookup l.actionID = some a ∧
      s.manifest.heap[a]? = some g ∧ g.claimed = true
  | _ => True

/-- What holds at any time. -/
structure Inv (loop : FetchLoop) (keyPrefix : Bytes) (s : ManifestFetch) : Prop where
  /-- The table and the records. -/
  tabled : Tabled s.owner s.finishedAt s.manifest
  /-- The chunks. -/
  served : ∀ f ∈ s.chunks, Served loop keyPrefix s.manifest f
  /-- The lookups. -/
  justified : ∀ l ∈ s.lookups, s.Justified l

lemma Justified.evolves {l : PrefetchLookup} (h : s.Justified l)
    (howner : ∀ i id a, (s.owner i).lookup id = some a → (s'.owner i).lookup id = some a)
    (hevolves : Evolves s.manifest s'.manifest) : s'.Justified l := by
  rcases l with ⟨id, _ | _ | a | _ | _⟩
  · trivial
  · obtain ⟨i, a, g, ha, hg, hclaimed⟩ := h
    obtain ⟨g', hg', hbecomes⟩ := hevolves a g hg
    exact ⟨i, a, g', howner i id a ha, hg', hbecomes.claimed hclaimed⟩
  · obtain ⟨i, g, ha, hg, hwire⟩ := h
    obtain ⟨g', hg', hbecomes⟩ := hevolves a g hg
    exact ⟨i, g', howner i id a ha, hg', (hbecomes.onWire hwire).1⟩
  · trivial
  · trivial

/-- A step of a chunk keeps what holds, if it keeps what holds of the table and of that chunk. -/
lemma Inv.set (h : s.Inv loop keyPrefix) (hf : s.chunks[i]? = some f)
    (hkept : f.chunk = none ∨ f'.chunk = f.chunk)
    (htabled : Tabled (Function.update s.owner i f'.fetches)
      (Function.update s.finishedAt i f'.finished) m')
    (hevolves : Evolves s.manifest m') (hserved : Served loop keyPrefix m' f') :
    Inv loop keyPrefix { s with manifest := m', chunks := s.chunks.set i f' } where
  tabled := by
    rw [owner_set hf, finishedAt_set hf]
    exact htabled
  served := by
    intro g hg
    rcases List.mem_or_eq_of_mem_set hg with hg | rfl
    · exact (h.served g hg).evolves hevolves
    · exact hserved
  justified := by
    intro l hl
    refine (h.justified l hl).evolves ?_ hevolves
    intro j id a ha
    rw [owner_set hf, Function.update_apply]
    split_ifs with hj
    · subst hj
      rw [owner_eq hf] at ha
      rcases hkept with hnone | hsame
      · simp [ChunkFetch.fetches, hnone] at ha
      · rw [ChunkFetch.fetches, hsame]
        exact ha
    · exact ha

/-- The table does not depend on what else a chunk has. -/
lemma tabled_update (hf : s.chunks[i]? = some f) (hchunk : f'.chunk = f.chunk)
    (hfinished : f'.finished = f.finished) (hm : Tabled s.owner s.finishedAt m) :
    Tabled (Function.update s.owner i f'.fetches) (Function.update s.finishedAt i f'.finished)
      m := by
  rw [ChunkFetch.fetches, hchunk, ← ChunkFetch.fetches, hfinished, ← owner_eq hf,
    ← finishedAt_eq hf, Function.update_eq_self, Function.update_eq_self]
  exact hm

lemma inv_start (chunks : List (List Bytes)) : Inv loop keyPrefix (start chunks) := by
  have howner : (start chunks).owner = fun _ => ∅ := by
    funext i
    simp only [owner, start, List.getElem?_map]
    cases chunks[i]? <;> rfl
  refine ⟨⟨rfl, by simp [start, new], ?_, ?_, ?_, ?_⟩, ?_, by simp [start]⟩
  · intro i id a ha
    simp [howner] at ha
  · intro i id j id' a ha
    simp [howner] at ha
  · intro id a ha
    simp [start, new] at ha
  · intro i id a f _ ha
    simp [howner] at ha
  · intro f hf
    obtain ⟨ids, -, rfl⟩ := List.mem_map.mp hf
    exact served_start ids

/-! ## Each step -/

lemma Inv.mark (h : s.Inv loop keyPrefix) (hf : s.chunks[i]? = some f) (hc : f.chunk = none) :
    Inv loop keyPrefix { s with
      manifest := (s.manifest.markPending f.ids).2
      chunks := s.chunks.set i { f with chunk := some (s.manifest.markPending f.ids).1 } } := by
  have hserved := h.served f (List.mem_of_getElem? hf)
  obtain ⟨hsent, hunfinished⟩ := hserved.unmarked hc
  have howner : s.owner i = ∅ := by
    rw [owner_eq hf, ChunkFetch.fetches, hc]
  obtain ⟨htabled, hevolves, hids, hmem⟩ :=
    h.tabled.markPending howner ((finishedAt_eq hf).trans hunfinished) f.ids
  refine h.set hf (.inl hc) ?_ hevolves ?_
  · rw [← finishedAt_eq hf, Function.update_eq_self]
    exact htabled
  · refine ⟨by simp, ?_, by simp [hsent], by simp [hsent], hserved.asked⟩
    rintro c ⟨⟩
    exact ⟨hids, hmem⟩

lemma Inv.send {c : PendingChunk} (h : s.Inv loop keyPrefix) (hf : s.chunks[i]? = some f)
    (hc : f.chunk = some c) (hsent : f.sent = none) :
    Inv loop keyPrefix { s with
      manifest := (send c s.manifest c.ids).2
      chunks := s.chunks.set i { f with sent := some (send c s.manifest c.ids).1 } } := by
  have hserved := h.served f (List.mem_of_getElem? hf)
  obtain ⟨hids, hmem⟩ := hserved.marked c hc
  have howner : s.owner i = c.fetches := by
    rw [owner_eq hf, ChunkFetch.fetches, hc]
  obtain ⟨htabled, hevolves, hwire, hleft⟩ :=
    h.tabled.send howner c.ids fun id hid => (hmem id).mpr (hids ▸ hid)
  rw [owner_eq hf] at hwire hleft
  refine h.set hf (.inr rfl) (tabled_update hf rfl rfl htabled) hevolves ?_
  refine ⟨?_, hserved.marked, ?_, ?_, ?_⟩
  · intro hnone
    rw [hc] at hnone
    cases hnone
  · rintro ids ⟨⟩ id hid
    exact hwire id hid
  · intro _ id hid
    exact hleft id (hids.symm ▸ hid)
  · intro hloop keys hkeys
    obtain ⟨ids, hids, -⟩ := hserved.asked hloop keys hkeys
    rw [hsent] at hids
    cases hids

lemma Inv.ask {ids : List Bytes} {held : Hash → Bool} (h : s.Inv loop keyPrefix)
    (hf : s.chunks[i]? = some f) (hsent : f.sent = some ids) :
    Inv loop keyPrefix { s with
      chunks := s.chunks.set i { f with asked := loop.request keyPrefix held f.ids ids } } := by
  have hserved := h.served f (List.mem_of_getElem? hf)
  refine h.set hf (.inr rfl) (tabled_update hf rfl rfl h.tabled) (Evolves.refl _) ?_
  refine ⟨hserved.unmarked, hserved.marked, hserved.sent, hserved.left, ?_⟩
  rintro rfl keys hkeys
  refine ⟨ids, hsent, ?_⟩
  intro key hkey
  simp only [FetchLoop.request] at hkeys
  split_ifs at hkeys
  obtain rfl := Option.some.inj hkeys
  exact mem_stillAbsent hkey

lemma Inv.landed {c : PendingChunk} (h : s.Inv loop keyPrefix) (hf : s.chunks[i]? = some f)
    (hc : f.chunk = some c) (ids : List Bytes) :
    Inv loop keyPrefix { s with manifest := landed c s.manifest ids } := by
  have howner : s.owner i = c.fetches := by
    rw [owner_eq hf, ChunkFetch.fetches, hc]
  obtain ⟨htabled, hevolves, -⟩ := h.tabled.releaseAll howner ids
  refine ⟨htabled, fun g hg => (h.served g hg).evolves hevolves, ?_⟩
  intro l hl
  exact (h.justified l hl).evolves (fun _ _ _ ha => ha) hevolves

lemma Inv.finish {c : PendingChunk} (h : s.Inv loop keyPrefix) (hf : s.chunks[i]? = some f)
    (hc : f.chunk = some c) (order : MapOrder Bytes) :
    Inv loop keyPrefix { s with
      manifest := finish order c s.manifest
      chunks := s.chunks.set i { f with finished := true } } := by
  have hserved := h.served f (List.mem_of_getElem? hf)
  have howner : s.owner i = c.fetches := by
    rw [owner_eq hf, ChunkFetch.fetches, hc]
  obtain ⟨htabled, hevolves⟩ := h.tabled.finish howner order
  have hserved' := hserved.evolves hevolves
  refine h.set hf (.inr rfl) ?_ hevolves ?_
  · have hkept : Function.update s.owner i f.fetches = s.owner := by
      rw [← owner_eq hf, Function.update_eq_self]
    exact hkept.symm ▸ htabled
  · refine ⟨?_, hserved'.marked, hserved'.sent, hserved'.left, hserved'.asked⟩
    intro hnone
    rw [hc] at hnone
    cases hnone

lemma Inv.lookup (h : s.Inv loop keyPrefix) (id : Bytes) :
    Inv loop keyPrefix { s with
      manifest := (s.manifest.awaitPrefetch id).2
      lookups := s.lookups ++ [⟨id, entered (s.manifest.awaitPrefetch id).1⟩] } := by
  obtain ⟨htabled, hevolves, htook, hwaits⟩ := h.tabled.awaitPrefetch id
  refine ⟨htabled, fun g hg => (h.served g hg).evolves hevolves, ?_⟩
  intro l hl
  rcases List.mem_append.mp hl with hl | hl
  · exact (h.justified l hl).evolves (fun _ _ _ ha => ha) hevolves
  · obtain rfl := List.mem_singleton.mp hl
    rcases hawait : (s.manifest.awaitPrefetch id).1 with _ | _ | a
    · trivial
    · exact htook hawait
    · exact hwaits a hawait

/-- A lookup that leaves claims nothing. -/
lemma Inv.leave {woken : BuildManifest → ℕ → Bool} {state : LookupState}
    (h : s.Inv loop keyPrefix) (hstate : state = .waited ∨ state = .gaveUp)
    (hs' : s.leave j woken state = some s') : Inv loop keyPrefix s' := by
  obtain ⟨l, -, hl'⟩ := Option.bind_eq_some_iff.mp hs'
  split at hl'
  · split_ifs at hl'
    obtain rfl := Option.some.inj hl'
    refine ⟨h.tabled, h.served, ?_⟩
    intro k hk
    rcases List.mem_or_eq_of_mem_set hk with hk | rfl
    · exact h.justified k hk
    · rcases hstate with rfl | rfl <;> trivial
  · cases hl'

lemma Inv.step {l : Label} (h : s.Inv loop keyPrefix) (hs' : step loop keyPrefix s l = some s') :
    Inv loop keyPrefix s' := by
  cases l with
  | mark i =>
    obtain ⟨f, hf, hs'⟩ := Option.bind_eq_some_iff.mp hs'
    split at hs'
    · rename_i hc
      obtain rfl := Option.some.inj hs'
      exact h.mark hf hc
    · cases hs'
  | send i =>
    obtain ⟨f, hf, hs'⟩ := Option.bind_eq_some_iff.mp hs'
    split at hs'
    · rename_i c hc hsent
      obtain rfl := Option.some.inj hs'
      exact h.send hf hc hsent
    · cases hs'
  | ask i held =>
    obtain ⟨f, hf, hs'⟩ := Option.bind_eq_some_iff.mp hs'
    split at hs'
    · rename_i ids hsent _
      obtain rfl := Option.some.inj hs'
      exact h.ask hf hsent
    · cases hs'
  | landed i ids =>
    obtain ⟨f, hf, hs'⟩ := Option.bind_eq_some_iff.mp hs'
    split at hs'
    · rename_i c hc
      obtain rfl := Option.some.inj hs'
      exact h.landed hf hc ids
    · cases hs'
  | finish i order =>
    obtain ⟨f, hf, hs'⟩ := Option.bind_eq_some_iff.mp hs'
    split at hs'
    · rename_i c hc _
      obtain rfl := Option.some.inj hs'
      exact h.finish hf hc order
    · cases hs'
  | lookup id =>
    obtain rfl := Option.some.inj hs'
    exact h.lookup id
  | wake j => exact h.leave (.inl rfl) hs'
  | giveUp j =>
    have hleave : s.leave j (fun _ _ => true) .gaveUp = some s' := hs'
    exact h.leave (.inr rfl) hleave

/-! ## Waits -/

/-- What a lookup waits for, and what ends the wait. -/
structure WaitsFor (s : ManifestFetch) (id : Bytes) (a : ℕ) (f : ChunkFetch) (c : PendingChunk) :
    Prop where
  /-- The chunk is one of those fetched. -/
  mem : f ∈ s.chunks
  /-- The mark has answered `c`. -/
  chunk : f.chunk = some c
  /-- `c` has the record. -/
  fetch : c.fetches.lookup id = some a
  /-- It is on the wire. -/
  onWire : ∃ g, s.manifest.heap[a]? = some g ∧ g.onWire = true
  /-- The end of the chunk closes the channel. -/
  closes : ∀ order, isDone (BuildManifest.finish order c s.manifest) a = true
  /-- When the chunk has ended, the channel is closed. -/
  closed : f.finished = true → isDone s.manifest a = true

lemma Inv.waitsFor {id : Bytes} {a : ℕ} (h : s.Inv loop keyPrefix)
    (hl : ⟨id, .waiting a⟩ ∈ s.lookups) : ∃ f c, s.WaitsFor id a f c := by
  obtain ⟨i, g, ha, hg, hwire⟩ := h.justified _ hl
  rcases hf : s.chunks[i]? with _ | f
  · simp [owner, hf] at ha
  rcases hc : f.chunk with _ | c
  · simp [owner_eq hf, ChunkFetch.fetches, hc] at ha
  have howner : s.owner i = c.fetches := by
    rw [owner_eq hf, ChunkFetch.fetches, hc]
  refine ⟨f, c, List.mem_of_getElem? hf, hc, howner ▸ ha, ⟨g, hg, hwire⟩, ?_, ?_⟩
  · intro order
    obtain ⟨htabled, hevolves⟩ := h.tabled.finish howner order
    obtain ⟨g', hg', -⟩ := hevolves a g hg
    have hclosed := htabled.finished i id a g' (Function.update_self ..) ha hg'
    rw [isDone, hg']
    exact (htabled.done a g' hg').trans hclosed
  · intro hfinished
    have hclosed := h.tabled.finished i id a g ((finishedAt_eq hf).trans hfinished) ha hg
    rw [isDone, hg]
    exact (h.tabled.done a g hg).trans hclosed

/-- When all chunks have finished, nothing is in the table. -/
lemma Inv.pending_eq_empty (h : s.Inv loop keyPrefix)
    (hfinished : ∀ f ∈ s.chunks, f.finished = true) : s.manifest.pending = ∅ := by
  refine Finmap.ext_lookup ?_
  intro id
  rw [Finmap.lookup_empty]
  refine Option.eq_none_iff_forall_ne_some.mpr ?_
  intro a ha
  obtain ⟨i, -, howner, hunfinished, -⟩ := h.tabled.pending id a ha
  rcases hf : s.chunks[i]? with _ | f
  · simp [owner, hf] at howner
  · rw [finishedAt_eq hf, hfinished f (List.mem_of_getElem? hf)] at hunfinished
    cases hunfinished

/-- A lookup whose channel is closed goes on. -/
lemma wake_isSome {id : Bytes} {a : ℕ} (hl : s.lookups[j]? = some ⟨id, .waiting a⟩)
    (hdone : isDone s.manifest a = true) : (step loop keyPrefix s (.wake j)).isSome = true := by
  simp [ManifestFetch.step, ManifestFetch.leave, hl, hdone]

/-- Every wait ends, for any chunks and in any order of calls. Nothing panics, which includes that
no channel is closed twice; a lookup waits for a record on the wire that the end of its chunk
closes; and when all chunks have finished, the table is empty and every lookup goes on. -/
theorem awaitPrefetch_ends (loop : FetchLoop) (keyPrefix : Bytes) (chunks : List (List Bytes))
    (ls : List Label) (hrun : run (step loop keyPrefix) (start chunks) ls = some t) :
    t.manifest.panicked = false ∧
      (∀ id a, ⟨id, .waiting a⟩ ∈ t.lookups → ∃ f c, t.WaitsFor id a f c) ∧
      ((∀ f ∈ t.chunks, f.finished = true) → t.manifest.pending = ∅ ∧
        ∀ j id a, t.lookups[j]? = some ⟨id, .waiting a⟩ →
          (step loop keyPrefix t (.wake j)).isSome = true) := by
  have hinv : t.Inv loop keyPrefix :=
    run_invariant_of_step (fun _ _ _ hs h => hs.step h) (inv_start chunks) hrun
  refine ⟨hinv.tabled.calm, fun id a hl => hinv.waitsFor hl, ?_⟩
  intro hfinished
  refine ⟨hinv.pending_eq_empty hfinished, ?_⟩
  intro j id a hl
  obtain ⟨f, c, hwaits⟩ := hinv.waitsFor (List.mem_of_getElem? hl)
  exact wake_isSome hl (hwaits.closed (hfinished f hwaits.mem))

/-- Two chunks name one id. A lookup waits for the record of the first chunk, and another takes over
the record of the second. -/
def sharedID (order : MapOrder Bytes) : List Label :=
  [.mark 0, .send 0, .lookup idA, .mark 1, .lookup idA, .send 1, .finish 1 order, .finish 0 order]

theorem awaitPrefetch_ends_sharedID :
    ∃ t, run (step .fallback []) (start [[idA], [idA]]) (sharedID (keyOrder Bytes)) = some t ∧
      t.manifest.pending = ∅ ∧ t.lookups = [⟨idA, .waiting 0⟩, ⟨idA, .tookOver⟩] ∧
      (step .fallback [] t (.wake 0)).isSome = true := by
  have hend : (run (step .fallback []) (start [[idA], [idA]]) (sharedID (keyOrder Bytes))).map
      (fun t => (t.lookups, t.chunks.all (·.finished))) =
      some ([⟨idA, .waiting 0⟩, ⟨idA, .tookOver⟩], true) := by
    decide +kernel
  obtain ⟨t, hrun, hend⟩ := Option.map_eq_some_iff.mp hend
  obtain ⟨hlookups, hfinished⟩ := Prod.mk.inj hend
  obtain ⟨-, -, hends⟩ := awaitPrefetch_ends .fallback [] [[idA], [idA]] _ hrun
  obtain ⟨hpending, hwake⟩ := hends (List.all_eq_true.mp hfinished)
  refine ⟨t, hrun, hpending, hlookups, hwake 0 idA 0 ?_⟩
  rw [hlookups]
  rfl

/-! ## Claims -/

/-- In `fetchFallback`, no lookup of an id comes when its chunk has been marked and not been put on
the wire. -/
def BetweenCalls (loop : FetchLoop) (s : ManifestFetch) : Label → Prop
  | .lookup id => loop = .fallback → ∀ f ∈ s.chunks, id ∈ f.ids → f.chunk.isSome = true →
    f.sent.isSome = true
  | _ => True

/-- An id of a chunk on the wire is not taken over. -/
lemma Inv.not_tookOver {id : Bytes} (h : s.Inv loop keyPrefix)
    (hsent : ∀ f ∈ s.chunks, id ∈ f.ids → f.chunk.isSome = true → f.sent.isSome = true) :
    (s.manifest.awaitPrefetch id).1 ≠ .tookOver := by
  intro htook
  obtain ⟨a, g, ha, hg, hwire⟩ := pending_of_tookOver htook
  obtain ⟨i, g', howner, -, hg', -, hfree⟩ := h.tabled.pending id a ha
  obtain rfl : g = g' := Option.some.inj (hg.symm.trans hg')
  rcases hf : s.chunks[i]? with _ | f
  · simp [owner, hf] at howner
  rw [owner_eq hf] at howner
  have hmem := List.mem_of_getElem? hf
  have hserved := h.served f hmem
  have hid := hserved.mem_ids howner
  have hmarked : f.chunk.isSome = true := by
    rcases hc : f.chunk with _ | c
    · simp [ChunkFetch.fetches, hc] at howner
    · rfl
  obtain ⟨b, k, hb, hk, hleft⟩ := hserved.left (hsent f hmem hid hmarked) id hid
  obtain rfl : a = b := Option.some.inj (howner.symm.trans hb)
  obtain rfl : g = k := Option.some.inj (hg.symm.trans hk)
  rcases hleft with hclaimed | honwire
  · rw [hfree] at hclaimed
    cases hclaimed
  · rw [hwire] at honwire
    cases honwire

/-- A chunk keeps its ids. -/
lemma map_ids_set (hf : s.chunks[i]? = some f) (hids : f'.ids = f.ids) :
    (s.chunks.set i f').map ChunkFetch.ids = s.chunks.map ChunkFetch.ids := by
  refine List.ext_getElem? ?_
  intro j
  rw [List.getElem?_map, List.getElem?_map, Parties.getElem?_set hf]
  split_ifs with hj
  · rw [hj, hf, Option.map_some, Option.map_some, hids]
  · rfl

/-- A lookup that leaves takes nothing over. -/
lemma leave_frame {woken : BuildManifest → ℕ → Bool} {state : LookupState}
    (hstate : state ≠ .tookOver) (hs' : s.leave j woken state = some s') :
    s'.chunks = s.chunks ∧ ∀ k ∈ s'.lookups, k.state = .tookOver → k ∈ s.lookups := by
  obtain ⟨l, -, hl'⟩ := Option.bind_eq_some_iff.mp hs'
  split at hl'
  · split_ifs at hl'
    obtain rfl := Option.some.inj hl'
    refine ⟨rfl, ?_⟩
    intro k hk htook
    rcases List.mem_or_eq_of_mem_set hk with hk | rfl
    · exact hk
    · exact absurd htook hstate
  · cases hl'

lemma entered_eq_tookOver {await : Await} (h : entered await = .tookOver) : await = .tookOver := by
  cases await with
  | tookOver => rfl
  | _ => cases h

/-- The chunks keep their ids, and a lookup that takes an id over does so when it comes. -/
lemma step_frame {l : Label} (hs' : step loop keyPrefix s l = some s') :
    s'.chunks.map ChunkFetch.ids = s.chunks.map ChunkFetch.ids ∧
      ∀ k ∈ s'.lookups, k.state = .tookOver → k ∈ s.lookups ∨
        l = .lookup k.actionID ∧ (s.manifest.awaitPrefetch k.actionID).1 = .tookOver := by
  cases l with
  | lookup id =>
    obtain rfl := Option.some.inj hs'
    refine ⟨rfl, ?_⟩
    intro k hk htook
    rcases List.mem_append.mp hk with hk | hk
    · exact .inl hk
    · obtain rfl := List.mem_singleton.mp hk
      exact .inr ⟨rfl, entered_eq_tookOver htook⟩
  | wake j =>
    obtain ⟨hchunks, hkeeps⟩ := leave_frame (by decide) hs'
    exact ⟨by rw [hchunks], fun k hk htook => .inl (hkeeps k hk htook)⟩
  | giveUp j =>
    have hleave : s.leave j (fun _ _ => true) .gaveUp = some s' := hs'
    obtain ⟨hchunks, hkeeps⟩ := leave_frame (by decide) hleave
    exact ⟨by rw [hchunks], fun k hk htook => .inl (hkeeps k hk htook)⟩
  | _ =>
    obtain ⟨f, hf, hs'⟩ := Option.bind_eq_some_iff.mp hs'
    split at hs'
    · obtain rfl := Option.some.inj hs'
      refine ⟨?_, fun k hk _ => .inl hk⟩
      first | rfl | exact map_ids_set hf rfl
    · cases hs'

/-- Distinct ids are in distinct chunks. -/
lemma eq_of_mem_ids {id : Bytes} (hdistinct : (s.chunks.map ChunkFetch.ids).flatten.Nodup)
    (hf : f ∈ s.chunks) (hf' : f' ∈ s.chunks) (hid : id ∈ f.ids) (hid' : id ∈ f'.ids) :
    f = f' := by
  have hdisjoint := List.pairwise_map.mp (List.nodup_flatten.mp hdistinct).2
  have : Std.Symm fun f g : ChunkFetch => f.ids.Disjoint g.ids := ⟨fun _ _ h => h.symm⟩
  by_contra hne
  exact hdisjoint.forall hf hf' hne hid hid'

lemma key_injective (keyPrefix : Bytes) : Function.Injective (WebBackend.key keyPrefix) :=
  fun _ _ h => List.append_cancel_left h

/-- In `fetchManifest`, a chunk does not ask for an id that a lookup has taken over. -/
lemma Inv.notMem_asked {l : PrefetchLookup} {keys : List Key} (h : s.Inv .manifest keyPrefix)
    (hdistinct : (s.chunks.map ChunkFetch.ids).flatten.Nodup) (hl : l ∈ s.lookups)
    (htook : l.state = .tookOver) (hf : f ∈ s.chunks) (hid : l.actionID ∈ f.ids)
    (hasked : f.asked = some keys) : WebBackend.key keyPrefix l.actionID ∉ keys := by
  intro hkey
  obtain ⟨ids, hsent, hkeys⟩ := (h.served f hf).asked rfl keys hasked
  obtain ⟨id, hmem, heq⟩ := hkeys _ hkey
  obtain rfl := key_injective keyPrefix heq
  obtain ⟨a, g, ha, hg, -, hfree⟩ := (h.served f hf).sent ids hsent _ hmem
  have hjustified := h.justified l hl
  simp only [Justified, htook] at hjustified
  obtain ⟨i, b, k, hb, hk, hclaimed⟩ := hjustified
  rcases hf' : s.chunks[i]? with _ | f'
  · simp [owner, hf'] at hb
  rw [owner_eq hf'] at hb
  have hmem' := List.mem_of_getElem? hf'
  obtain rfl := eq_of_mem_ids hdistinct hf hmem' hid ((h.served f' hmem').mem_ids hb)
  obtain rfl : a = b := Option.some.inj (ha.symm.trans hb)
  rw [Option.some.inj (hk.symm.trans hg), hfree] at hclaimed
  cases hclaimed

/-- A chunk does not ask for an id that a lookup has taken over: always in `fetchManifest`, and in
`fetchFallback` as long as no lookup comes between the two calls of a worker. -/
theorem claimed_left_out (loop : FetchLoop) (keyPrefix : Bytes) (chunks : List (List Bytes))
    (hdistinct : chunks.flatten.Nodup) (ls : List Label)
    (hguard : Guarded (step loop keyPrefix) (BetweenCalls loop) (start chunks) ls)
    (hrun : run (step loop keyPrefix) (start chunks) ls = some t) :
    ∀ l ∈ t.lookups, l.state = .tookOver → ∀ f ∈ t.chunks, l.actionID ∈ f.ids →
      ∀ keys, f.asked = some keys → WebBackend.key keyPrefix l.actionID ∉ keys := by
  have hinv : t.Inv loop keyPrefix ∧ t.chunks.map ChunkFetch.ids = chunks ∧
      (loop = .fallback → ∀ l ∈ t.lookups, l.state ≠ .tookOver) := by
    refine run_invariant (I := fun s => s.Inv loop keyPrefix ∧
      s.chunks.map ChunkFetch.ids = chunks ∧
        (loop = .fallback → ∀ l ∈ s.lookups, l.state ≠ .tookOver)) ?_ ?_ hguard hrun
    · rintro s l s' ⟨hinv, hids, hnone⟩ hbetween hs'
      obtain ⟨hids', hkeeps⟩ := step_frame hs'
      refine ⟨hinv.step hs', hids'.trans hids, ?_⟩
      intro hloop k hk htook
      rcases hkeeps k hk htook with hk | ⟨rfl, htakes⟩
      · exact hnone hloop k hk htook
      · exact hinv.not_tookOver (hbetween hloop) htakes
    · refine ⟨inv_start chunks, ?_, by simp [start]⟩
      simp [start, Function.comp_def]
  obtain ⟨hinv, hids, hnone⟩ := hinv
  intro l hl htook f hf hid keys hasked
  cases loop with
  | manifest => exact hinv.notMem_asked (hids.symm ▸ hdistinct) hl htook hf hid hasked
  | fallback => exact absurd htook (hnone rfl l hl)

/-- A lookup takes one id of a chunk over before the chunk is put on the wire. -/
def tookOverFirst : List Label :=
  [.mark 0, .lookup idA, .send 0, .ask 0 fun _ => false]

theorem claimed_left_out_first :
    ∃ t, run (step .manifest []) (start [[idA, idB]]) tookOverFirst = some t ∧
      t.lookups = [⟨idA, .tookOver⟩] ∧
      ∀ f ∈ t.chunks, idA ∈ f.ids → ∀ keys, f.asked = some keys →
        WebBackend.key [] idA ∉ keys := by
  have hguard : BetweenCalls .manifest = fun _ _ => True := by
    funext s l
    cases l <;> simp [BetweenCalls]
  have hend : (run (step .manifest []) (start [[idA, idB]]) tookOverFirst).map (·.lookups) =
      some [⟨idA, .tookOver⟩] := by
    decide +kernel
  obtain ⟨t, hrun, hlookups⟩ := Option.map_eq_some_iff.mp hend
  refine ⟨t, hrun, hlookups, ?_⟩
  refine claimed_left_out .manifest [] [[idA, idB]] (by decide) tookOverFirst ?_ hrun
    ⟨idA, .tookOver⟩ ?_ rfl
  · rw [hguard]
    exact guarded_true _ _
  · rw [hlookups]
    exact List.mem_singleton_self _

/-- `fetchFallback` asks for an id that a lookup has taken over. -/
theorem fallback_asks_claimed :
    (run (step .fallback []) (start [[idA]]) tookOverFirst).map
      (fun t => (t.lookups, t.chunks.map fun f => (f.ids, f.asked))) =
      some ([⟨idA, .tookOver⟩], [([idA], some [WebBackend.key [] idA])]) := by
  rfl

end ManifestFetch

end GoBuildCache
