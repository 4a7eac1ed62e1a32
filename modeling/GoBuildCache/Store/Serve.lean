import GoBuildCache.Index.Queries
import GoBuildCache.Store.Put

/-!
# Requests, one after the other

A read finds the file of its key, loads its metadata, refuses and deletes a module index, checks the
digest of the bytes, and repairs a missing output id (`get`). A batch get does the same in two
rounds: it first decides which keys it can serve (`servableEntry`), the keys of objects stored at
about the same time included, and then opens and checks the bodies (`openVerifiedEntry`). An upload
of a module index is accepted and dropped (`storeOneObject`).

`Server.step` takes one request at a time, and lets the caches drop entries and the file system
update access times in between. What reads have sent is recorded.
-/

open ByteString Transition

namespace GoBuildCache

namespace Storage

/-! ## The guards of a read -/

/-- Refuses and deletes a module index; answers whether the body may be served. -/
def evictModuleIndexOnRead (env : StorageEnv) (s : Storage) (key : Key) (f : DiskFile)
    (md : Metadata) : Bool × Storage :=
  match extractActionHash key with
  | none => (true, s)
  | some h =>
    if s.keyKnownClean h then (true, s)
    else if readIsModuleIndex env.decoders f.object.body (md.get compressionMetaKey) then
      (false, s.delete env key)
    else (true, s.markKeyClean h)

/-- The same for a read that has no open file. -/
def evictModuleIndexOnReadByKey (env : StorageEnv) (s : Storage) (key : Key) (md : Metadata) :
    Bool × Storage :=
  match s.fileOf env key with
  | none => (true, s)
  | some f => s.evictModuleIndexOnRead env key f md

/-- Whether the bytes of a file hash to the digest in its metadata. A version that has passed before
is not hashed again, if it has an output id. -/
def verifyStoredDigestFor (env : StorageEnv) (s : Storage) (key : Key) (f : DiskFile)
    (md : Metadata) : Bool × Storage :=
  let matches' :=
    bodyMatchesStoredDigest env.sha256 f.object.body (md.get storedDigestMetaKey)
  match (extractActionHash key).filter fun _ => md.get outputIDMetaKey ≠ [] with
  | none => (matches', s)
  | some h =>
    if s.digestOK h = some f.identity then (true, s)
    else if matches' then
      (true, { s with digestOK := Function.update s.digestOK h (some f.identity) })
    else (false, s)

/-- Repairs a missing output id; `none` if that cannot be done, and then the key is no longer
advertised. -/
def ensureOutputID (env : StorageEnv) (s : Storage) (key : Key) (md : Metadata)
    (file : Option DiskFile) : Option Metadata × Storage :=
  if md.get outputIDMetaKey ≠ [] ∨ extractActionHash key = none then (some md, s)
  else
    let repaired := (file.or (s.fileOf env key)).bind fun f =>
      reconstructOutputID env.sha256 env.decoders f.object.body
        (f.object.md.get storedDigestMetaKey)
    match repaired with
    | none =>
      (none, { s.indexRemove env key with selfHealFailures := s.selfHealFailures + 1 })
    | some outputID =>
      (some (md.set outputIDMetaKey outputID),
        (s.setMetadata env key outputIDMetaKey outputID).forgetMeta key)

/-! ## Single objects -/

/-- What is sent of an object. -/
structure SentObject where
  /-- The key. -/
  key : Key
  /-- The body. -/
  body : Bytes
  /-- The metadata. -/
  md : Metadata

/-- A GET, answered at the time `now`; `none` is a miss. -/
def get (env : StorageEnv) (s : Storage) (key : Key) (now : ℤ) : Option SentObject × Storage :=
  match s.fileOf env key with
  | none => (none, s)
  | some f =>
    let loaded := s.loadMetadata key f
    let s := loaded.2.recordAccess key now
    let guard := s.evictModuleIndexOnRead env key f loaded.1
    if !guard.1 then (none, guard.2)
    else
      let verified := guard.2.verifyStoredDigestFor env key f loaded.1
      if !verified.1 then (none, verified.2.delete env key)
      else
        let healed := verified.2.ensureOutputID env key loaded.1 (some f)
        (healed.1.map fun md => ⟨key, f.object.body, md⟩, healed.2)

/-- A HEAD. -/
def head (env : StorageEnv) (s : Storage) (key : Key) : Option Metadata × Storage :=
  match s.fileOf env key with
  | none => (none, s)
  | some f =>
    let loaded := s.loadMetadata key f
    (some loaded.1, loaded.2)

/-- How an upload is answered. -/
inductive StoreStatus where
  | stored
  | dropped
  | conflict
  | error
  deriving DecidableEq

/-- Stores an object, unless it is a module index. -/
def storeOneObject (env : StorageEnv) (s : Storage) (u : Upload) : StoreStatus × Storage :=
  if looksLikeGoModuleIndex env.decoders (u.body.take indexPutPeekBytes)
      (u.md.get compressionMetaKey) then
    (.dropped, s)
  else
    let result := s.putStream env u
    (match result.1 with
      | .stored | .unchanged => .stored
      | .duplicate | .conflict => .conflict
      | .digestMismatch | .ioError => .error,
      result.2)

/-! ## Batches -/

/-- A request for a batch. -/
structure BatchGetRequest where
  /-- The keys. -/
  keys : List Key
  /-- Whether objects stored at about the same time are wanted. -/
  prefetch : Bool
  /-- Whether only those are wanted. -/
  prefetchOnly : Bool
  /-- What the client holds already. -/
  have' : Hash → Bool

/-- An object that a batch can serve. -/
structure BatchEntry where
  /-- The key. -/
  key : Key
  /-- The metadata. -/
  md : Metadata
  /-- The modification time in nanoseconds. -/
  modNano : ℤ

/-- How many keys a batch may ask for. -/
def maxBatchKeys : ℕ := 4096

/-- How far around the requested objects others are looked for, in nanoseconds. -/
def prefetchWindow : ℤ := 30 * 1000000000

/-- How many objects are added to the requested ones. -/
def maxPrefetchEntries : ℕ := 200

/-- The zero time on the scale of modification times. -/
def zeroModNano : ℤ := -62135596800 * 1000000000

/-- The guards of a batch for one key, before any body is opened. -/
def servableEntry (env : StorageEnv) (s : Storage) (key : Key) : Option BatchEntry × Storage :=
  match s.fileOf env key with
  | none => (none, s)
  | some f =>
    let loaded := s.loadMetadata key f
    let guard := loaded.2.evictModuleIndexOnReadByKey env key loaded.1
    if !guard.1 then (none, guard.2)
    else
      let healed := guard.2.ensureOutputID env key loaded.1 none
      (healed.1.map fun md => ⟨key, md, f.object.modNano⟩, healed.2)

/-- Opens and checks the body of an entry. -/
def openVerifiedEntry (env : StorageEnv) (now : ℤ) (s : Storage) (e : BatchEntry) :
    Option SentObject × Storage :=
  match s.fileOf env e.key with
  | none => (none, s)
  | some f =>
    let verified := (s.recordAccess e.key now).verifyStoredDigestFor env e.key f e.md
    if !verified.1 then (none, verified.2.delete env e.key)
    else (some ⟨e.key, f.object.body, e.md⟩, verified.2)

/-- Does the work of a batch key by key, and keeps the results in the order of the keys. -/
def parallelFilter {α β : Type} (fn : Storage → α → Option β × Storage) :
    Storage → List α → List β × Storage
  | s, [] => ([], s)
  | s, x :: xs =>
    let result := fn s x
    let rest := parallelFilter fn result.2 xs
    (result.1.toList ++ rest.1, rest.2)

/-- The earliest and the latest modification time of the entries. -/
def modSpan (entries : List BatchEntry) : ℤ × ℤ :=
  entries.foldl
    (fun span e =>
      (if span.1 = zeroModNano ∨ e.modNano < span.1 then e.modNano else span.1,
        if span.2 = zeroModNano ∨ span.2 < e.modNano then e.modNano else span.2))
    (zeroModNano, zeroModNano)

/-- The keys of objects stored at about the same time as the entries. -/
def prefetchKeys (s : Storage) (req : BatchGetRequest) (lookup : List Key)
    (entries : List BatchEntry) : List Key × Storage :=
  let span := modSpan entries
  let found := s.index.nearbyKeys ((span.1 - prefetchWindow) / 1000000000)
    ((span.2 + prefetchWindow) / 1000000000) maxPrefetchEntries lookup
    (some fun key => (extractActionHash key).any req.have')
  (found.1, { s with index := found.2 })

/-- The keys whose bodies a batch carries. -/
def BatchGetRequest.lookup (req : BatchGetRequest) (prefetchEnabled : Bool) : List Key :=
  if !prefetchEnabled && req.prefetchOnly then [] else req.keys

/-- The first round of a batch: the entries of the requested keys, and the keys that are added to
them, if any are to be. -/
def batchLookup (env : StorageEnv) (s : Storage) (prefetchEnabled : Bool)
    (req : BatchGetRequest) : List BatchEntry × Option (List Key) × Storage :=
  let lookup := req.lookup prefetchEnabled
  let found := parallelFilter (servableEntry env) s lookup
  if (prefetchEnabled && req.prefetch) ∧ found.1 ≠ [] ∧ (modSpan found.1).1 ≠ zeroModNano then
    let fresh := found.2.prefetchKeys req lookup found.1
    (found.1, some fresh.1, fresh.2)
  else (found.1, none, found.2)

/-- The second round: the entries of the keys that are added. -/
def buildPrefetchEntries (env : StorageEnv) (s : Storage) (keys : List Key) :
    List BatchEntry × Storage :=
  parallelFilter (servableEntry env) s keys

/-- A batch get, answered at the time `now`. -/
def handleBatchGet (env : StorageEnv) (s : Storage) (prefetchEnabled : Bool)
    (req : BatchGetRequest) (now : ℤ) : List SentObject × Storage :=
  if req.keys = [] ∨ maxBatchKeys < req.keys.length then ([], s)
  else
    let found := s.batchLookup env prefetchEnabled req
    match found.2.1 with
    | none => parallelFilter (openVerifiedEntry env now) found.2.2 found.1
    | some fresh =>
      let prefetched := found.2.2.buildPrefetchEntries env fresh
      let entries := if req.prefetchOnly then prefetched.1 else found.1 ++ prefetched.1
      parallelFilter (openVerifiedEntry env now) prefetched.2 entries

/-! ### Rules for batches -/

section Rules

variable {inv : Storage → Prop} {rel : Storage → Storage → Prop} {α β : Type}
  {fn : Storage → α → Option β × Storage} {pre : Storage → α → Prop} {post : Storage → β → Prop}

/-- The work for one element, from a store with `inv` and for an element with `pre`, leads to a
store with `inv` along `rel`, and its result has `post` there. -/
def WorkRule (inv : Storage → Prop) (rel : Storage → Storage → Prop)
    (fn : Storage → α → Option β × Storage) (pre : Storage → α → Prop)
    (post : Storage → β → Prop) : Prop :=
  ∀ s x, inv s → pre s x →
    inv (fn s x).2 ∧ rel s (fn s x).2 ∧ ∀ y, (fn s x).1 = some y → post (fn s x).2 y

/-- What holds of the work for one element holds of the work for all of them, if what is known about
elements and results stays true along the way. -/
lemma WorkRule.parallelFilter (h : WorkRule inv rel fn pre post) (hrefl : ∀ s, rel s s)
    (htrans : ∀ s s' s'', rel s s' → rel s' s'' → rel s s'')
    (hpre : ∀ s s' x, rel s s' → pre s x → pre s' x)
    (hpost : ∀ s s' y, rel s s' → post s y → post s' y) {s : Storage} (hs : inv s) {xs : List α}
    (hxs : ∀ x ∈ xs, pre s x) :
    inv (parallelFilter fn s xs).2 ∧ rel s (parallelFilter fn s xs).2 ∧
      ∀ y ∈ (parallelFilter fn s xs).1, post (parallelFilter fn s xs).2 y := by
  induction xs generalizing s with
  | nil => exact ⟨hs, hrefl s, by simp [Storage.parallelFilter]⟩
  | cons x xs ih =>
    obtain ⟨hinv, hrel, hy⟩ := h s x hs (hxs x (List.mem_cons_self ..))
    obtain ⟨hinv', hrel', hys⟩ :=
      ih hinv fun x' hx' => hpre _ _ x' hrel (hxs x' (List.mem_cons_of_mem x hx'))
    refine ⟨hinv', htrans _ _ _ hrel hrel', ?_⟩
    intro y hmem
    rcases List.mem_append.mp hmem with hmem | hmem
    · exact hpost _ _ y hrel' (hy y (by simpa using hmem))
    · exact hys y hmem

variable {env : StorageEnv} {now : ℤ} {good : Key → Prop} {ready : Storage → BatchEntry → Prop}
  {fine : SentObject → Prop}

/-- A batch get is correct if its two kinds of work are: the guards for keys, whose entries stay
good until their bodies are opened, and the opening of bodies. -/
lemma handleBatchGet_rule (hrefl : ∀ s, rel s s)
    (htrans : ∀ s s' s'', rel s s' → rel s' s'' → rel s s'')
    (hentry : ∀ s s' e, rel s s' → ready s e → ready s' e)
    (hservable : WorkRule inv rel (servableEntry env) (fun _ => good) ready)
    (hopen : WorkRule inv rel (openVerifiedEntry env now) ready fun _ => fine)
    (hprefetch : ∀ s req lookup entries, inv s →
      inv (s.prefetchKeys req lookup entries).2 ∧ rel s (s.prefetchKeys req lookup entries).2)
    {s : Storage} (hs : inv s) {prefetchEnabled : Bool} {req : BatchGetRequest}
    (hkeys : ∀ key ∈ req.keys, good key)
    (hfresh : ∀ fresh ∈ (s.batchLookup env prefetchEnabled req).2.1, ∀ key ∈ fresh, good key) :
    inv (s.handleBatchGet env prefetchEnabled req now).2 ∧
      rel s (s.handleBatchGet env prefetchEnabled req now).2 ∧
      ∀ o ∈ (s.handleBatchGet env prefetchEnabled req now).1, fine o := by
  by_cases hrefused : req.keys = [] ∨ maxBatchKeys < req.keys.length
  · rw [handleBatchGet, if_pos hrefused]
    exact ⟨hs, hrefl s, by simp⟩
  rw [handleBatchGet, if_neg hrefused]
  have hservables : ∀ {s}, inv s → ∀ {keys : List Key}, (∀ key ∈ keys, good key) →
      inv (parallelFilter (servableEntry env) s keys).2 ∧
        rel s (parallelFilter (servableEntry env) s keys).2 ∧
        ∀ e ∈ (parallelFilter (servableEntry env) s keys).1,
          ready (parallelFilter (servableEntry env) s keys).2 e := fun hs _ hkeys =>
    hservable.parallelFilter hrefl htrans (fun _ _ _ _ => id) hentry hs hkeys
  have hopens : ∀ {s₀ s}, inv s → rel s₀ s → ∀ {entries : List BatchEntry},
      (∀ e ∈ entries, ready s e) →
      inv (parallelFilter (openVerifiedEntry env now) s entries).2 ∧
        rel s₀ (parallelFilter (openVerifiedEntry env now) s entries).2 ∧
        ∀ o ∈ (parallelFilter (openVerifiedEntry env now) s entries).1, fine o := by
    intro s₀ s hs hrel entries hentries
    obtain ⟨hinv, hrel', hsent⟩ :=
      hopen.parallelFilter hrefl htrans hentry (fun _ _ _ _ => id) hs hentries
    exact ⟨hinv, htrans _ _ _ hrel hrel', hsent⟩
  have hlookup : ∀ key ∈ req.lookup prefetchEnabled, good key := by
    unfold BatchGetRequest.lookup
    split_ifs
    · simp
    · exact hkeys
  have hfound : inv (s.batchLookup env prefetchEnabled req).2.2 ∧
      rel s (s.batchLookup env prefetchEnabled req).2.2 ∧
      ∀ e ∈ (s.batchLookup env prefetchEnabled req).1,
        ready (s.batchLookup env prefetchEnabled req).2.2 e := by
    obtain ⟨hinv, hrel, hentries⟩ := hservables hs hlookup
    unfold batchLookup
    dsimp only
    split_ifs
    · obtain ⟨hinv', hrel'⟩ := hprefetch _ req (req.lookup prefetchEnabled) _ hinv
      exact ⟨hinv', htrans _ _ _ hrel hrel', fun e he => hentry _ _ e hrel' (hentries e he)⟩
    · exact ⟨hinv, hrel, hentries⟩
  obtain ⟨hinv, hrel, hentries⟩ := hfound
  dsimp only
  split
  · exact hopens hinv hrel hentries
  · next fresh hsome =>
    obtain ⟨hinv', hrel', hadded⟩ := hservables hinv (hfresh fresh hsome)
    refine hopens hinv' (htrans _ _ _ hrel hrel') ?_
    intro e he
    split_ifs at he
    · exact hadded e he
    · rcases List.mem_append.mp he with he | he
      · exact hentry _ _ e hrel' (hentries e he)
      · exact hadded e he

end Rules

/-- The entry of a key is for that key. -/
lemma key_of_servableEntry {env : StorageEnv} {s : Storage} {key : Key} {e : BatchEntry}
    (h : (s.servableEntry env key).1 = some e) : e.key = key := by
  rcases hfile : s.fileOf env key with _ | f
  · rw [servableEntry, hfile] at h
    cases h
  simp only [servableEntry, hfile] at h
  split_ifs at h
  obtain ⟨md, -, rfl⟩ := Option.map_eq_some_iff.mp h
  rfl

/-- A store as a server finds it when it starts: some files, nothing remembered, and the index of a
walk. -/
def opened (env : StorageEnv) (disk : Disk) (accessShards : Option (CompactKey → Option ℤ)) :
    Storage :=
  ({ empty accessShards with disk := disk } : Storage).rebuild env

end Storage

/-! ## A run of the server -/

/-- The store, and what reads have sent. -/
structure Server where
  /-- The store. -/
  storage : Storage
  /-- The objects sent so far. -/
  sent : List Storage.SentObject

namespace Server

/-- What can happen. -/
inductive Label where
  /-- An upload. -/
  | put (u : Upload)
  /-- A GET. -/
  | get (key : Key) (now : ℤ)
  /-- A HEAD. -/
  | head (key : Key)
  /-- A batch get. -/
  | batchGet (prefetchEnabled : Bool) (req : Storage.BatchGetRequest) (now : ℤ)
  /-- A deletion. -/
  | delete (key : Key)
  /-- A sweep. -/
  | evict (maxAge : Duration) (maxBytes now : ℤ)
  /-- The memo of clean keys drops a hash. -/
  | expireClean (h : Hash)
  /-- The memo of digests drops a hash. -/
  | expireDigest (h : Hash)
  /-- The metadata cache drops a key. -/
  | expireMeta (key : Key)
  /-- The file system updates the access time of a file. -/
  | touch (path : Bytes) (accessUnix : Option ℤ)

/-- The store after a step, and what is sent in it. -/
def effect (env : StorageEnv) (s : Storage) : Label → List Storage.SentObject × Storage
  | .put u => ([], (s.storeOneObject env u).2)
  | .get key now => ((s.get env key now).1.toList, (s.get env key now).2)
  | .head key => ([], (s.head env key).2)
  | .batchGet prefetchEnabled req now => s.handleBatchGet env prefetchEnabled req now
  | .delete key => ([], s.delete env key)
  | .evict maxAge maxBytes now => ([], (s.evict env maxAge maxBytes now).2)
  | .expireClean h => ([], { s with cleanKeys := s.cleanKeys.filter (· ≠ h) })
  | .expireDigest h => ([], { s with digestOK := Function.update s.digestOK h none })
  | .expireMeta key => ([], s.forgetMeta key)
  | .touch path accessUnix =>
    ([], { s with
      disk := s.disk.modify path (·.touch accessUnix) (DiskFile.path_touch accessUnix) })

/-- One step. -/
def step (env : StorageEnv) (s : Server) (l : Label) : Option Server :=
  let e := effect env s.storage l
  some ⟨e.2, e.1 ++ s.sent⟩

/-- A server that has just started. -/
def start (env : StorageEnv) (disk : Disk) (accessShards : Option (CompactKey → Option ℤ)) :
    Server :=
  ⟨.opened env disk accessShards, []⟩

end Server

end GoBuildCache
