import GoBuildCache.Index.Wire

/-!
# The in-memory index

The server keeps the action hashes it stores in an `Index`: a sorted master list, an unsorted
buffer of recent uploads, a log of additions that lets clients fetch only what is new, and one
cached serialization per form. Each operation below is one critical section of the source, with
what it reads from its environment (the clock, fresh random epochs) as arguments.

What the index says to the outside is `Advertises`: the hashes of the master list and of the
buffer. Every operation is described by its effect on that set (`advertises_put`,
`advertises_remove`, `advertises_removeKeys`, `advertises_applyRebuild`,
`advertises_mergePendingLocked`), and `contains_iff` says that `Contains` decides it.
-/

open ByteString SortedList

namespace GoBuildCache

/-- A value of type `int64`. -/
def int64 (x : ℤ) : ℤ :=
  x.bmod (2 ^ 64)

lemma int64_eq {x : ℤ} (h : -2 ^ 63 ≤ x) (h' : x < 2 ^ 63) : int64 x = x :=
  Int.bmod_eq_of_le (by omega) (by omega)

/-- An `int64` is negative if the highest of its bits is set. -/
lemma int64_cases (x : ℤ) :
    x % 2 ^ 64 < 2 ^ 63 ∧ int64 x = x % 2 ^ 64 ∨
      2 ^ 63 ≤ x % 2 ^ 64 ∧ int64 x = x % 2 ^ 64 - 2 ^ 64 := by
  rw [int64, Int.bmod_def]
  push_cast
  split_ifs <;> omega

lemma le_int64 {x : ℤ} (h : x < 2 ^ 63) : x ≤ int64 x := by
  rcases int64_cases x with ⟨hbit, heq⟩ | ⟨hbit, heq⟩ <;> omega

/-- Wrapping around twice is wrapping around once. -/
lemma int64_add_left (x y : ℤ) : int64 (int64 x + y) = int64 (x + y) :=
  Int.bmod_add_bmod

lemma int64_sub_right (x y : ℤ) : int64 (x - int64 y) = int64 (x - y) :=
  Int.sub_bmod_bmod

lemma int64_lt (x : ℤ) : int64 x < 2 ^ 63 := by
  have hlt : int64 x < ((2 ^ 64 : ℕ) + 1) / 2 := Int.bmod_lt (by norm_num)
  omega

/-- A point in time, in nanoseconds since the zero time. -/
abbrev Time : Type := ℤ

/-- A span of time, in nanoseconds. -/
abbrev Duration : Type := ℤ

/-- The largest `time.Duration`; longer spans are cut off there. -/
def maxDuration : Duration := 2 ^ 63 - 1

/-- The time from `t` to `now`, as `time.Since` reports it. -/
def timeSince (now t : Time) : Duration :=
  max (-2 ^ 63) (min maxDuration (now - t))

/-- The zero time. -/
def zeroTime : Time := 0

/-- One indexed object. -/
structure IndexEntry where
  /-- Its key. -/
  key : CompactKey
  /-- Its modification time in seconds. -/
  mtimeUnix : ℤ
  deriving DecidableEq

/-- A position in the log of additions. -/
structure IndexGen where
  /-- The epoch of the log. -/
  epoch : UInt64
  /-- The number of additions. -/
  seq : ℕ
  deriving DecidableEq

/-- The most recent serialization in one form. -/
structure IndexBlobCache where
  /-- The serialization. -/
  blob : Bytes
  /-- Its ETag. -/
  etag : Bytes
  /-- The position of the log up to which it is complete. -/
  gen : IndexGen
  /-- When it was made. -/
  builtAt : Time
  /-- `Index.mutations` when it was made. -/
  mutation : ℕ

/-- The index of the keys the server stores. -/
structure Index where
  /-- The objects, sorted by modification time. -/
  entries : List IndexEntry
  /-- Whether the list of objects is turned off. -/
  entriesOff : Bool
  /-- Objects added since `entries` was sorted. -/
  pendingEntries : List IndexEntry
  /-- The master list of action hashes. -/
  hashes : List Hash
  /-- Hashes added since the last serialization. -/
  pending : List Hash
  /-- Counts the changes of the advertised set. -/
  mutations : ℕ
  /-- The serialization of each form. -/
  forms : IndexForm → Option IndexBlobCache
  /-- The least time between serializations. -/
  blobMinInterval : Duration
  /-- The epoch of the log of additions. -/
  addEpoch : UInt64
  /-- The log of additions. -/
  added : List Hash
  /-- Replaces `maxAddLog` when it is not zero. -/
  addLogLimit : ℤ
  /-- The master list is sorted, and no hash is repeated in it. -/
  ascending : Ascending hashes

/-- The greatest length of the log of additions. -/
def maxAddLog : ℤ := 2 ^ 20

namespace Index

/-- An index without objects. -/
def empty (entriesOff : Bool) (blobMinInterval : Duration) (addLogLimit : ℤ) (epoch : UInt64) :
    Index where
  entries := []
  entriesOff := entriesOff
  pendingEntries := []
  hashes := []
  pending := []
  mutations := 0
  forms := fun _ => none
  blobMinInterval := blobMinInterval
  addEpoch := epoch
  added := []
  addLogLimit := addLogLimit
  ascending := List.Pairwise.nil

/-- The hashes the index speaks for: those of the master list and those added since. -/
def Advertises (idx : Index) (h : Hash) : Prop :=
  h ∈ idx.hashes ∨ h ∈ idx.pending

instance (idx : Index) (h : Hash) : Decidable (idx.Advertises h) :=
  inferInstanceAs (Decidable (_ ∨ _))

/-- Where the log of additions stands. -/
def position (idx : Index) : IndexGen :=
  ⟨idx.addEpoch, idx.added.length⟩

/-! ## The log of additions -/

/-- Starts a new epoch. Every cached blob names the old one, so each is due at once. -/
def resetAddLogLocked (idx : Index) (epoch : UInt64) : Index :=
  { idx with
    addEpoch := epoch
    added := []
    mutations := idx.mutations + 1
    forms := fun form => (idx.forms form).map fun c => { c with builtAt := zeroTime } }

/-- Whether the log takes no more hashes. -/
def addLogFull (idx : Index) : Bool :=
  let limit := if idx.addLogLimit = 0 then maxAddLog else idx.addLogLimit
  limit ≤ idx.added.length

/-- Records a hash in the log; a full log starts a new epoch first. -/
def appendAddLocked (idx : Index) (hash : Hash) (epoch : UInt64) : Index :=
  let idx := if idx.addLogFull then idx.resetAddLogLocked epoch else idx
  { idx with added := idx.added ++ [hash] }

/-! ## Changes -/

/-- Records an upload at the time `now` in seconds. -/
def put (idx : Index) (key : Key) (now : ℤ) (epoch : UInt64) : Index :=
  let ck := newCompactKey key
  let idx :=
    { idx with
      pendingEntries :=
        if idx.entriesOff then idx.pendingEntries else idx.pendingEntries ++ [⟨ck, now⟩] }
  match ck.actionHash with
  | none => idx
  | some hash =>
    let idx := { idx with pending := idx.pending ++ [hash] }
    let idx := idx.appendAddLocked hash epoch
    { idx with mutations := idx.mutations + 1 }

/-- Orders objects by modification time. `sort.Slice` is free to exchange objects of one time; this
is one of the orders it may produce. -/
def sortEntriesByMtime (entries : List IndexEntry) : List IndexEntry :=
  entries.insertionSort fun a b => a.mtimeUnix ≤ b.mtimeUnix

/-- Moves the objects added since into the sorted list. -/
def drainEntriesLocked (idx : Index) : Index :=
  { idx with
    entries :=
      if idx.pendingEntries = [] then idx.entries
      else sortEntriesByMtime (idx.entries ++ idx.pendingEntries)
    pendingEntries := [] }

/-- A list without one hash. -/
def removeHash (s : List Hash) (h : Hash) : List Hash :=
  s.filter (· ≠ h)

/-- A list without some hashes. -/
def filterHashes (s victims : List Hash) : List Hash :=
  s.filter (· ∉ victims)

/-- Drops a key. Of several objects of the key only the first is dropped. -/
def remove (idx : Index) (key : Key) (epoch : UInt64) : Index :=
  let ck := newCompactKey key
  let idx := idx.drainEntriesLocked
  let idx := { idx with entries := idx.entries.eraseP (·.key = ck) }
  match ck.actionHash with
  | none => idx
  | some hash =>
    resetAddLogLocked
      { idx with
        pending := removeHash idx.pending hash
        hashes := removeHash idx.hashes hash
        ascending := idx.ascending.filter _ }
      epoch

/-- Drops a batch of keys in one pass. -/
def removeKeys (idx : Index) (keys : List Key) (epoch : UInt64) : Index :=
  if keys = [] then idx
  else
    let victimKeys := keys.map newCompactKey
    let victimHashes := keys.filterMap actionHash
    let idx := idx.drainEntriesLocked
    let idx := { idx with entries := idx.entries.filter (·.key ∉ victimKeys) }
    if victimHashes = [] then idx
    else
      resetAddLogLocked
        { idx with
          pending := filterHashes idx.pending victimHashes
          hashes := filterHashes idx.hashes victimHashes
          ascending := idx.ascending.filter _ }
        epoch

/-! ## Rebuilding -/

end Index

/-- What a walk of the data directory has collected. -/
structure IndexBuild where
  /-- The objects. -/
  entries : List IndexEntry
  /-- The hashes of the cacheprog keys among them. -/
  hashes : List Hash
  /-- Whether both have been sorted. -/
  sorted : Bool
  /-- Whether the list of objects is turned off. -/
  entriesOff : Bool
  /-- Sorted hashes ascend strictly. -/
  ascending : sorted = true → Ascending hashes

namespace IndexBuild

/-- The start of a walk. -/
def new (entriesOff : Bool) : IndexBuild where
  entries := []
  hashes := []
  sorted := false
  entriesOff := entriesOff
  ascending := by simp

/-- Records an object the walk reports, modified at `mtime` in seconds. The walk is over before
`finish` sorts. -/
def add (b : IndexBuild) (key : Key) (mtime : ℤ) : IndexBuild where
  entries := if b.entriesOff then b.entries else b.entries ++ [⟨newCompactKey key, mtime⟩]
  hashes := b.hashes ++ (actionHash key).toList
  sorted := false
  entriesOff := b.entriesOff
  ascending := by simp

/-- Orders what the walk collected. -/
def finish (b : IndexBuild) : IndexBuild :=
  if b.sorted then b
  else
    { b with
      entries := Index.sortEntriesByMtime b.entries
      hashes := sortDedupe b.hashes
      sorted := true
      ascending := fun _ => ascending_sortDedupe b.hashes }

lemma sorted_finish (b : IndexBuild) : b.finish.sorted = true := by
  unfold finish
  split_ifs with h
  · exact h
  · rfl

@[simp]
lemma mem_hashes_finish (b : IndexBuild) (h : Hash) : h ∈ b.finish.hashes ↔ h ∈ b.hashes := by
  unfold finish
  split_ifs
  · rfl
  · simp

end IndexBuild

namespace Index

/-- Replaces the master state by the result of a walk; what was added since the last serialization
stays pending. -/
def applyRebuild (idx : Index) (b : IndexBuild) (epoch : UInt64) : Index :=
  resetAddLogLocked
    { idx with
      entries := b.finish.entries
      hashes := b.finish.hashes
      forms := fun _ => none
      ascending := b.finish.ascending b.sorted_finish }
    epoch

/-! ## Serving -/

/-- Whether a cached blob may be handed out: it is current, or it is younger than the blob
interval. -/
def blobServableLocked (idx : Index) (now : Time) (c : IndexBlobCache) : Bool :=
  c.mutation = idx.mutations || timeSince now c.builtAt < idx.blobMinInterval

/-- Moves the hashes added since into the master list. -/
def mergePendingLocked (idx : Index) : Index :=
  { idx with
    hashes := if idx.pending = [] then idx.hashes
      else mergeDedupe idx.hashes (sortDedupe idx.pending)
    pending := []
    ascending := by
      split_ifs
      · exact idx.ascending
      · exact ascending_mergeDedupe idx.ascending (ascending_sortDedupe idx.pending) }

/-- The serialization of the current master list. -/
def freshBlob (sha256 : Sha256) (idx : Index) (form : IndexForm) (now : Time) : IndexBlobCache :=
  let blob := marshalForm sha256 idx.hashes form
  ⟨blob, blobETag blob, idx.position, now, idx.mutations⟩

/-- Serializes and caches the result. -/
def serialize (sha256 : Sha256) (idx : Index) (form : IndexForm) (now : Time) :
    IndexBlobCache × Index :=
  let idx := idx.mergePendingLocked
  let c := idx.freshBlob sha256 form now
  (c, { idx with forms := Function.update idx.forms form (some c) })

/-- The cached blob of a form, if it may be handed out. -/
def servableBlob (idx : Index) (form : IndexForm) (now : Time) : Option IndexBlobCache :=
  (idx.forms form).filter (idx.blobServableLocked now)

/-- The second critical section of `BlobGenForm`, under the write lock: the cache is checked again
at the time `recheck`, and a serialization is dated `built`. -/
def blobLocked (sha256 : Sha256) (idx : Index) (form : IndexForm) (recheck built : Time) :
    IndexBlobCache × Index :=
  match idx.servableBlob form recheck with
  | some c => (c, idx)
  | none => idx.serialize sha256 form built

/-- The clock readings of one `BlobGenForm` call. -/
structure BlobClock where
  /-- For the check under the read lock. -/
  check : Time
  /-- For the check under the write lock. -/
  recheck : Time
  /-- When the serialization is done. -/
  built : Time

/-- Answers the index serialized in a form, its ETag, and the position of the log up to which it is
complete. -/
def blobGenForm (sha256 : Sha256) (idx : Index) (form : IndexForm) (clock : BlobClock) :
    IndexBlobCache × Index :=
  match idx.servableBlob form clock.check with
  | some c => (c, idx)
  | none => idx.blobLocked sha256 form clock.recheck clock.built

/-- Answers the hashes added after `start`, and the position they lead to; `none` when `start` is
not a position of the current log. -/
def deltaForm (sha256 : Sha256) (idx : Index) (start : IndexGen) (form : IndexForm) :
    Option (Bytes × IndexGen) :=
  if start.epoch ≠ idx.addEpoch ∨ idx.added.length < start.seq then none
  else some (marshalForm sha256 (sortDedupe (idx.added.drop start.seq)) form, idx.position)

/-- Whether the index speaks for a hash. -/
def contains (idx : Index) (h : Hash) : Bool :=
  containsSorted idx.hashes h || idx.pending.any (· = h)

/-! ## Effects on the advertised set -/

@[simp]
lemma pending_appendAddLocked (idx : Index) (hash : Hash) (epoch : UInt64) :
    (idx.appendAddLocked hash epoch).pending = idx.pending := by
  unfold appendAddLocked
  dsimp only
  split_ifs <;> rfl

lemma advertises_appendAddLocked (idx : Index) (hash : Hash) (epoch : UInt64) (h : Hash) :
    (idx.appendAddLocked hash epoch).Advertises h ↔ idx.Advertises h := by
  unfold appendAddLocked
  dsimp only
  split_ifs <;> exact Iff.rfl

/-- An upload adds its hash. -/
lemma advertises_put (idx : Index) (key : Key) (now : ℤ) (epoch : UInt64) (h : Hash) :
    (idx.put key now epoch).Advertises h ↔ idx.Advertises h ∨ actionHash key = some h := by
  unfold put actionHash
  dsimp only
  cases (newCompactKey key).actionHash with
  | none =>
    simp only [reduceCtorEq, or_false]
    exact Iff.rfl
  | some x =>
    refine (advertises_appendAddLocked _ x epoch h).trans ?_
    simp only [Advertises, List.mem_append, List.mem_singleton, Option.some.injEq, eq_comm,
      or_assoc]

/-- An upload queues its hash for the next serialization. -/
lemma mem_pending_put (idx : Index) (key : Key) (now : ℤ) (epoch : UInt64) (h : Hash) :
    h ∈ (idx.put key now epoch).pending ↔ h ∈ idx.pending ∨ actionHash key = some h := by
  unfold put actionHash
  dsimp only
  cases (newCompactKey key).actionHash with
  | none => simp
  | some x =>
    simp only [pending_appendAddLocked, List.mem_append, List.mem_singleton, Option.some.injEq,
      eq_comm]

/-- A removal drops the hash of its key. -/
lemma advertises_remove (idx : Index) (key : Key) (epoch : UInt64) (h : Hash) :
    (idx.remove key epoch).Advertises h ↔ idx.Advertises h ∧ actionHash key ≠ some h := by
  unfold remove actionHash
  dsimp only
  cases (newCompactKey key).actionHash with
  | none =>
    simp only [ne_eq, reduceCtorEq, not_false_eq_true, and_true]
    exact Iff.rfl
  | some x =>
    have hne : some x ≠ some h ↔ h ≠ x := by simp [eq_comm]
    rw [hne, Advertises, Advertises, or_and_right]
    simp only [resetAddLogLocked, drainEntriesLocked, removeHash, List.mem_filter,
      decide_eq_true_eq]

/-- A batch removal drops the hashes of its keys. -/
lemma advertises_removeKeys (idx : Index) (keys : List Key) (epoch : UInt64) (h : Hash) :
    (idx.removeKeys keys epoch).Advertises h ↔
      idx.Advertises h ∧ ∀ k ∈ keys, actionHash k ≠ some h := by
  have hvictims : h ∉ keys.filterMap actionHash ↔ ∀ k ∈ keys, actionHash k ≠ some h := by
    simp
  unfold removeKeys
  dsimp only
  split_ifs with hnil hnone
  · simp [hnil]
  · rw [← hvictims, hnone]
    simp only [List.not_mem_nil, not_false_eq_true, and_true]
    exact Iff.rfl
  · rw [← hvictims, Advertises, Advertises, or_and_right]
    simp only [resetAddLogLocked, drainEntriesLocked, filterHashes, List.mem_filter,
      decide_eq_true_eq]

/-- After a rebuild, the hashes of the walk and the pending ones are advertised. -/
lemma advertises_applyRebuild (idx : Index) (b : IndexBuild) (epoch : UInt64) (h : Hash) :
    (idx.applyRebuild b epoch).Advertises h ↔ h ∈ b.hashes ∨ h ∈ idx.pending := by
  rw [← b.mem_hashes_finish]
  exact Iff.rfl

/-- Merging moves hashes but advertises the same ones. -/
lemma advertises_mergePendingLocked (idx : Index) (h : Hash) :
    idx.mergePendingLocked.Advertises h ↔ idx.Advertises h := by
  simp only [Advertises, mergePendingLocked, List.not_mem_nil, or_false]
  split_ifs with hnil
  · simp [hnil]
  · rw [mem_mergeDedupe, mem_sortDedupe]

lemma advertises_serialize (sha256 : Sha256) (idx : Index) (form : IndexForm) (now : Time)
    (h : Hash) : (idx.serialize sha256 form now).2.Advertises h ↔ idx.Advertises h :=
  advertises_mergePendingLocked idx h

/-- Serving a blob does not change what is advertised. -/
lemma advertises_blobLocked (sha256 : Sha256) (idx : Index) (form : IndexForm)
    (recheck built : Time) (h : Hash) :
    (idx.blobLocked sha256 form recheck built).2.Advertises h ↔ idx.Advertises h := by
  unfold blobLocked
  split
  · exact Iff.rfl
  · exact advertises_serialize sha256 idx form built h

/-! ## Effects on the log of additions -/

/-- Recording a hash extends the log, or starts a new epoch if the log is full. -/
lemma log_appendAddLocked (idx : Index) (hash : Hash) (epoch : UInt64) :
    (idx.addLogFull = false ∧ (idx.appendAddLocked hash epoch).addEpoch = idx.addEpoch ∧
        (idx.appendAddLocked hash epoch).added = idx.added ++ [hash]) ∨
      (idx.addLogFull = true ∧ (idx.appendAddLocked hash epoch).addEpoch = epoch) := by
  unfold appendAddLocked
  cases hfull : idx.addLogFull with
  | false => exact Or.inl ⟨rfl, rfl, rfl⟩
  | true => exact Or.inr ⟨rfl, rfl⟩

/-- An upload of a key that is not a cacheprog key leaves the log alone. -/
lemma log_put_of_none (idx : Index) {key : Key} (now : ℤ) (epoch : UInt64)
    (h : actionHash key = none) :
    (idx.put key now epoch).addEpoch = idx.addEpoch ∧
      (idx.put key now epoch).added = idx.added := by
  unfold actionHash at h
  simp only [put, h, and_self]

/-- An upload of a cacheprog key extends the log, or starts a new epoch if the log is full. -/
lemma log_put_of_some (idx : Index) {key : Key} {hash : Hash} (now : ℤ) (epoch : UInt64)
    (h : actionHash key = some hash) :
    (idx.addLogFull = false ∧ (idx.put key now epoch).addEpoch = idx.addEpoch ∧
        (idx.put key now epoch).added = idx.added ++ [hash]) ∨
      (idx.addLogFull = true ∧ (idx.put key now epoch).addEpoch = epoch) := by
  unfold actionHash at h
  simp only [put, h]
  -- The full-log test reads neither buffer that was just extended.
  exact log_appendAddLocked
    { idx with
      pendingEntries := if idx.entriesOff = true then idx.pendingEntries
        else idx.pendingEntries ++ [⟨newCompactKey key, now⟩]
      pending := idx.pending ++ [hash] }
    hash epoch

/-- A removal of a key that is not a cacheprog key leaves the log alone. -/
lemma log_remove_of_none (idx : Index) {key : Key} (epoch : UInt64) (h : actionHash key = none) :
    (idx.remove key epoch).addEpoch = idx.addEpoch ∧
      (idx.remove key epoch).added = idx.added := by
  unfold actionHash at h
  simp only [remove, h]
  exact ⟨rfl, rfl⟩

/-- A removal of a cacheprog key starts a new epoch. -/
lemma addEpoch_remove_of_some (idx : Index) {key : Key} {hash : Hash} (epoch : UInt64)
    (h : actionHash key = some hash) : (idx.remove key epoch).addEpoch = epoch := by
  unfold actionHash at h
  simp only [remove, h]
  rfl

/-- A batch removal without cacheprog keys leaves the log alone. -/
lemma log_removeKeys_of_none (idx : Index) {keys : List Key} (epoch : UInt64)
    (h : keys.filterMap actionHash = []) :
    (idx.removeKeys keys epoch).addEpoch = idx.addEpoch ∧
      (idx.removeKeys keys epoch).added = idx.added := by
  unfold removeKeys
  dsimp only
  rw [if_pos h]
  split_ifs <;> exact ⟨rfl, rfl⟩

/-- A batch removal with a cacheprog key starts a new epoch. -/
lemma addEpoch_removeKeys_of_ne_nil (idx : Index) {keys : List Key} (epoch : UInt64)
    (h : keys.filterMap actionHash ≠ []) : (idx.removeKeys keys epoch).addEpoch = epoch := by
  have hne : keys ≠ [] := by
    rintro rfl
    exact h rfl
  unfold removeKeys
  dsimp only
  rw [if_neg hne, if_neg h]
  rfl

/-- `Contains` decides whether a hash is advertised. -/
theorem contains_iff (idx : Index) (h : Hash) : idx.contains h = true ↔ idx.Advertises h := by
  rw [contains, Bool.or_eq_true, containsSorted_iff idx.ascending, Advertises]
  simp

end Index

end GoBuildCache
