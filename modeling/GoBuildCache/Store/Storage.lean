import GoBuildCache.Foundation.Table
import GoBuildCache.Index.State
import GoBuildCache.Store.Layout
import GoBuildCache.Store.Objects

/-!
# The store of a running server

The server holds objects in files, and beside them what it remembers about them: the index, the
times of the last accesses, the hashes known to be clean, the digests known to match, and the
metadata it has read. `Storage` is all of that, between two requests. This module has the operations
that every request is made of; the requests themselves follow in the next modules.

A file is reached only through the path of a key (`StorageEnv.keyToPath`), the memos through the
action hash or the key (`forgetClean`, `forgetAccess`, `forgetMeta`). `delete` is the one place
where a request other than a sweep takes a file away.
-/

open ByteString LexicalPath

namespace GoBuildCache

/-- What happens to an upload of an object that exists. -/
inductive WriteOnceAction where
  | allow
  | deny
  deriving DecidableEq

/-- What the uploader is told about it. -/
inductive WriteOnceNotification where
  | never
  | always
  | contentDiffers
  deriving DecidableEq

/-- How uploads of objects that exist are treated. -/
structure WriteOnceConfig where
  /-- Whether they are refused. -/
  action : WriteOnceAction
  /-- What refused ones are answered. -/
  notification : WriteOnceNotification
  deriving DecidableEq

/-- `int64(d.Seconds())`. The conversion passes through a floating point number, which is exact for
whole seconds. -/
structure DurationSeconds where
  /-- The seconds of a duration. -/
  seconds : Duration → ℤ
  /-- A duration of `n` seconds has `n` of them. -/
  whole : ∀ n : ℤ, seconds (n * 1000000000) = n

/-- What does not change while the server runs. -/
structure StorageEnv where
  /-- The digest function. -/
  sha256 : Sha256
  /-- The decoders of the compression libraries. -/
  decoders : Decoders
  /-- The data directory. -/
  dataDir : DataDir
  /-- How uploads of objects that exist are treated. -/
  writeOnce : WriteOnceConfig
  /-- The epochs that the index draws, one after the other. -/
  newIndexEpoch : ℕ → UInt64
  /-- The conversion of durations to seconds. -/
  duration : DurationSeconds

/-- The path of the file of a key. -/
def StorageEnv.keyToPath (env : StorageEnv) (key : Key) : Bytes :=
  GoBuildCache.keyToPath env.sha256 env.dataDir key

/-- The key is another key for the path of a cacheprog key. -/
def Aliased (sha256 : Sha256) (key : Key) : Prop :=
  canonicalKey sha256 key ≠ key ∧ (extractActionHash (canonicalKey sha256 key)).isSome = true

instance (sha256 : Sha256) (key : Key) : Decidable (Aliased sha256 key) :=
  inferInstanceAs (Decidable (_ ∧ _))

/-- Only aliases share the path of a cacheprog key with it. -/
lemma eq_of_keyToPath_eq {env : StorageEnv} {key k : Key} (halias : ¬ Aliased env.sha256 key)
    {h : Hash} (hk : extractActionHash k = some h) (hpath : env.keyToPath key = env.keyToPath k) :
    key = k := by
  have hcanonical : canonicalKey env.sha256 key = k :=
    ((keyToPath_eq_iff env.sha256 env.dataDir key k).mp hpath).trans
      (canonicalKey_of_extractActionHash env.sha256 hk)
  by_contra hne
  refine halias ⟨fun heq => hne (heq.symm.trans hcanonical), ?_⟩
  rw [hcanonical, hk]
  rfl

/-- A file of the data directory with what is in it. -/
structure DiskFile extends StoredFile where
  /-- Its inode number. -/
  ino : ℕ
  /-- Its contents and its metadata. -/
  object : StoredObject
  /-- When it was last accessed, in seconds, if the system tells. -/
  accessUnix : Option ℤ

namespace DiskFile

/-- The size in bytes. -/
def size (f : DiskFile) : ℕ :=
  f.object.body.length

/-- The modification time in seconds. -/
def mtimeUnix (f : DiskFile) : ℤ :=
  f.object.modNano / 1000000000

/-- `identityOf`: what names this version of the file. -/
def identity (f : DiskFile) : FileIdentity :=
  ⟨f.ino, f.object.info⟩

/-- The file with a metadata field set. -/
def setMetadata (f : DiskFile) (field value : Bytes) : DiskFile :=
  { f with object := { f.object with md := f.object.md.set field value } }

lemma path_setMetadata (field value : Bytes) (f : DiskFile) :
    (f.setMetadata field value).path = f.path :=
  rfl

/-- The file with another access time. -/
def touch (accessUnix : Option ℤ) (f : DiskFile) : DiskFile :=
  { f with accessUnix := accessUnix }

lemma path_touch (accessUnix : Option ℤ) (f : DiskFile) : (f.touch accessUnix).path = f.path :=
  rfl

end DiskFile

/-- The files of the data directory, in the order in which a walk visits them. -/
abbrev Disk : Type := Table fun f : DiskFile => f.path

/-- The store between two requests. -/
structure Storage where
  /-- The files. -/
  disk : Disk
  /-- The index. -/
  index : Index
  /-- How many epochs the index has drawn. -/
  draws : ℕ
  /-- When keys were last accessed, if that is tracked. -/
  accessShards : Option (CompactKey → Option ℤ)
  /-- The action hashes known to hold no module index. -/
  cleanKeys : List Hash
  /-- The file versions whose digests are known to match. -/
  digestOK : Hash → Option FileIdentity
  /-- The metadata that has been read. -/
  metaCache : Key → Option MetaEntry
  /-- How many objects could not be repaired: `selfHealFailuresTotal`. -/
  selfHealFailures : ℕ

namespace Storage

/-! ## Memos -/

/-- Stamps a key as used at the time `now`. -/
def recordAccess (s : Storage) (key : Key) (now : ℤ) : Storage :=
  { s with
    accessShards := s.accessShards.map fun m => Function.update m (newCompactKey key) (some now) }

/-- When a key was last accessed; the zero time if that is not known. -/
def lastAccessOf (s : Storage) (ck : CompactKey) : ℤ :=
  (s.accessShards.bind (· ck)).getD 0

/-- Drops the access record of a key. -/
def forgetAccess (s : Storage) (key : Key) : Storage :=
  { s with
    accessShards := s.accessShards.map fun m => Function.update m (newCompactKey key) none }

/-- Drops the access records of all other keys. -/
def pruneAccess (s : Storage) (live : List CompactKey) : Storage :=
  { s with
    accessShards := s.accessShards.map fun m ck => if ck ∈ live then m ck else none }

/-- Whether an action hash is known to hold no module index. -/
def keyKnownClean (s : Storage) (h : Hash) : Bool :=
  h ∈ s.cleanKeys

/-- Remembers that an action hash holds no module index. -/
def markKeyClean (s : Storage) (h : Hash) : Storage :=
  { s with cleanKeys := h :: s.cleanKeys }

/-- Drops what is remembered about the body of a key. -/
def forgetClean (s : Storage) (key : Key) : Storage :=
  match extractActionHash key with
  | none => s
  | some h =>
    { s with
      cleanKeys := s.cleanKeys.filter (· ≠ h), digestOK := Function.update s.digestOK h none }

/-- What dropping the memos of a key changes. -/
lemma forgetClean_eq (s : Storage) (key : Key) :
    ∃ digestOK, s.forgetClean key
      = { s with
          cleanKeys := s.cleanKeys.filter fun h => extractActionHash key ≠ some h
          digestOK := digestOK } := by
  rcases hkey : extractActionHash key with _ | h
  · refine ⟨s.digestOK, ?_⟩
    simp [forgetClean, hkey]
  · refine ⟨Function.update s.digestOK h none, ?_⟩
    simp [forgetClean, hkey, eq_comm]

/-- Drops the cached metadata of a key. -/
def forgetMeta (s : Storage) (key : Key) : Storage :=
  { s with metaCache := Function.update s.metaCache key none }

/-- The metadata of the file of a key, from the cache if its entry is for that file. -/
def loadMetadata (s : Storage) (key : Key) (f : DiskFile) : Metadata × Storage :=
  match (s.metaCache key).filter (·.info = f.object.info) with
  | some e => (e.md, s)
  | none =>
    (f.object.md,
      { s with metaCache := Function.update s.metaCache key (some ⟨f.object.info, f.object.md⟩) })

/-- Loading metadata fills the cache, if it did not know the file. -/
lemma loadMetadata_cases (s : Storage) (key : Key) (f : DiskFile) :
    (∃ e, s.metaCache key = some e ∧ e.info = f.object.info ∧ s.loadMetadata key f = (e.md, s)) ∨
      s.loadMetadata key f = (f.object.md,
        { s with
          metaCache := Function.update s.metaCache key (some ⟨f.object.info, f.object.md⟩) }) := by
  unfold loadMetadata
  rcases hcache : (s.metaCache key).filter (·.info = f.object.info) with _ | e
  · right
    rw [hcache]
  · obtain ⟨he, hinfo⟩ := Option.filter_eq_some_iff.mp hcache
    exact Or.inl ⟨e, he, by simpa using hinfo, by rw [hcache]⟩

/-! ## The index -/

/-- The epoch that the index draws next. -/
def nextEpoch (env : StorageEnv) (s : Storage) : UInt64 :=
  env.newIndexEpoch s.draws

/-- Records a key in the index. -/
def indexPut (env : StorageEnv) (s : Storage) (key : Key) (now : ℤ) : Storage :=
  { s with index := s.index.put key now (s.nextEpoch env), draws := s.draws + 1 }

/-- Drops a key from the index. -/
def indexRemove (env : StorageEnv) (s : Storage) (key : Key) : Storage :=
  { s with index := s.index.remove key (s.nextEpoch env), draws := s.draws + 1 }

/-- Drops a batch of keys from the index. -/
def indexRemoveKeys (env : StorageEnv) (s : Storage) (keys : List Key) : Storage :=
  { s with index := s.index.removeKeys keys (s.nextEpoch env), draws := s.draws + 1 }

/-! ## Files -/

/-- The file of a key. -/
def fileOf (env : StorageEnv) (s : Storage) (key : Key) : Option DiskFile :=
  s.disk.find (env.keyToPath key)

/-- Removes the object of a key: the file, its record in the index, and the memos. There is nothing
to do if there is no such object. -/
def delete (env : StorageEnv) (s : Storage) (key : Key) : Storage :=
  match s.fileOf env key with
  | none => s
  | some _ =>
    (((({ s with disk := s.disk.erase (env.keyToPath key) }).indexRemove env key).forgetAccess
      key).forgetClean key).forgetMeta key

/-- What deleting an object changes. -/
lemma delete_eq {env : StorageEnv} {s : Storage} {key : Key} {f : DiskFile}
    (hf : s.fileOf env key = some f) :
    ∃ accessShards digestOK, s.delete env key
      = { s with
          disk := s.disk.erase (env.keyToPath key)
          index := s.index.remove key (s.nextEpoch env)
          draws := s.draws + 1
          accessShards := accessShards
          cleanKeys := s.cleanKeys.filter fun h => extractActionHash key ≠ some h
          digestOK := digestOK
          metaCache := Function.update s.metaCache key none } := by
  simp only [delete, hf]
  obtain ⟨digestOK, hclean⟩ := forgetClean_eq
    ((({ s with disk := s.disk.erase (env.keyToPath key) } : Storage).indexRemove env
      key).forgetAccess key) key
  exact ⟨_, digestOK, by rw [hclean]; rfl⟩

/-- Sets a metadata field of the file of a key. -/
def setMetadata (env : StorageEnv) (s : Storage) (key : Key) (field value : Bytes) : Storage :=
  { s with
    disk := s.disk.modify (env.keyToPath key) (·.setMetadata field value)
      (DiskFile.path_setMetadata field value) }

/-- A file whose metadata may have been set is one that was there. -/
lemma mem_rows_setMetadata {env : StorageEnv} {s : Storage} {key : Key} {field value : Bytes}
    {f : DiskFile} (hf : f ∈ (s.setMetadata env key field value).disk.rows) :
    ∃ g ∈ s.disk.rows, f = g ∨ f = g.setMetadata field value := by
  simp only [setMetadata, Table.mem_modify] at hf
  obtain ⟨g, hg, rfl⟩ := hf
  refine ⟨g, hg, ?_⟩
  split_ifs
  · exact Or.inr rfl
  · exact Or.inl rfl

/-! ## Walks -/

/-- What a walk reports about an object. -/
structure ListObject where
  /-- The key. -/
  key : Key
  /-- The size. -/
  size : ℕ
  /-- The modification time in seconds. -/
  lastModified : ℤ
  /-- The access time in seconds, if the system tells. -/
  lastAccess : Option ℤ

/-- What a walk reports about a file; it passes over files without a key. -/
def listObject (d : DataDir) (f : DiskFile) : Option ListObject :=
  (walkKey d f.toStoredFile).map fun key => ⟨key, f.size, f.mtimeUnix, f.accessUnix⟩

/-- Everything that a walk reports. -/
def walk (env : StorageEnv) (s : Storage) : List ListObject :=
  s.disk.rows.filterMap (listObject env.dataDir)

/-- Replaces the master list of the index by what a walk finds. -/
def rebuild (env : StorageEnv) (s : Storage) : Storage :=
  let b := (s.walk env).foldl (fun b obj => b.add obj.key obj.lastModified)
    (IndexBuild.new s.index.entriesOff)
  { s with index := s.index.applyRebuild b (s.nextEpoch env), draws := s.draws + 1 }

/-- A store without files, as a server finds it on an empty data directory. -/
def empty (accessShards : Option (CompactKey → Option ℤ)) : Storage where
  disk := .empty
  index := .empty false 0 0 0
  draws := 0
  accessShards := accessShards
  cleanKeys := []
  digestOK := fun _ => none
  metaCache := fun _ => none
  selfHealFailures := 0

end Storage

/-- An environment that the examples below evaluate the definitions in. -/
def plainEnv : StorageEnv where
  sha256 := zeroDigest
  decoders := ⟨fun _ => ⟨[], .failed⟩, fun _ => ⟨[], .failed⟩⟩
  dataDir := slashData
  writeOnce := ⟨.allow, .never⟩
  newIndexEpoch := fun _ => 0
  duration := ⟨fun d => d / 1000000000, fun n => Int.mul_ediv_cancel n (by decide)⟩

end GoBuildCache
