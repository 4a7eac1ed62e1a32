import GoBuildCache.Foundation.Text
import GoBuildCache.Foundation.Transition
import GoBuildCache.Store.Evict

/-!
# Uploads

An upload is refused if it disagrees with the digest that it names (`checkStoredDigest`), may be
refused if there is an object already (`writeOnceVerdict`), and otherwise replaces the file of its
key (`putStream`). An existing archive may be replaced even then if its build id repeats the content
id and the upload is the same object under its action id (`replacesContentStamp`).

The second half is about the stores that uploads make. A key is *sweepable* if a sweep reaches its
file: it is stored under its digest, or its canonical key is not one that a walk passes over or that
loses its case on the way. A store written under sweepable keys is within its budget after a sweep
(`evict_within_budget`); `evict_misses_upperKey` is a store that is not.
-/

open ByteString LexicalPath Transition

namespace GoBuildCache

/-! ## Build ids of stored archives -/

/-- How many decompressed bytes are read for a build id. -/
def stampHeadBytes : ℕ := 4096

/-- The two fields of the build id in the leading bytes of an archive. -/
def parseArchiveStamp (head : Bytes) : Option (Bytes × Bytes) :=
  if !(ascii "!<arch>\n").isPrefixOf head then none
  else
    let head :=
      match index (ascii "$$") head with
      | some stop => head.take stop
      | none => head
    let marker := ascii "build id \""
    match index marker head with
    | none => none
    | some start =>
      let rest := head.drop (start + marker.length)
      match indexByte 34 rest with
      | none => none
      | some stop =>
        let id := rest.take stop
        match indexByte 47 id with
        | none => none
        | some slash => some (id.take slash, id.drop (slash + 1))

/-- The two fields of the build id of a body. -/
def archiveStamp (dec : Decoders) (body : Bytes) : Option (Bytes × Bytes) :=
  parseArchiveStamp ((decompressedBytes dec body).take stampHeadBytes)

/-- Whether an upload may replace a stored body: that one carries a content stamp, and the upload is
the same compiled object with an action stamp. -/
def replacesContentStamp (dec : Decoders) (stored incoming : Bytes) : Bool :=
  match archiveStamp dec stored with
  | none => false
  | some (oldAction, oldContent) =>
    if oldAction ≠ oldContent then false
    else
      match archiveStamp dec incoming with
      | none => false
      | some (newAction, newContent) => newContent = oldContent ∧ newAction ≠ newContent

/-! ## Storing an object -/

/-- Whether the digest that an upload names, if any, is the one that was computed. -/
def checkStoredDigest (claimed computed : Bytes) : Bool :=
  claimed = [] || equalFold claimed computed

/-- How a call of `PutStream` ends. -/
inductive PutOutcome where
  /-- The object is stored. -/
  | stored
  /-- There is an object already, which counts as success. -/
  | unchanged
  /-- There is an object already: `ErrWriteOnceDuplicate`. -/
  | duplicate
  /-- There is another object already: `ErrWriteOnceConflict`. -/
  | conflict
  /-- The upload disagrees with the digest that it names: `ErrStoredDigestMismatch`. -/
  | digestMismatch
  /-- The file system has refused. -/
  | ioError
  deriving DecidableEq

/-- The call returns no error. -/
def PutOutcome.isNil : PutOutcome → Bool
  | stored | unchanged => true
  | duplicate | conflict | digestMismatch | ioError => false

/-- An upload, with what the file system and the clock add to it. -/
structure Upload where
  /-- The key. -/
  key : Key
  /-- The bytes. -/
  body : Bytes
  /-- The metadata that comes with it. -/
  md : Metadata
  /-- The inode number of the new file. -/
  ino : ℕ
  /-- The modification time of the new file in nanoseconds. -/
  modNano : ℤ
  /-- The access time of the new file in seconds, if the system tells. -/
  accessUnix : Option ℤ
  /-- The position of the new file in a walk. -/
  slot : ℕ
  /-- The time in seconds. -/
  now : ℤ
  /-- Whether the path is a directory, which keys with further elements have made. -/
  overDir : Bool
  /-- Whether the file system refuses to create, write, describe or rename the temporary file. -/
  refused : Bool

namespace Storage

/-- The digest that is stored with a body. -/
def storedDigest (env : StorageEnv) (body : Bytes) : Bytes :=
  hexEncode (env.sha256 body).bytes

/-- Whether the path of a key is the data directory itself. -/
def isDataDir (env : StorageEnv) (key : Key) : Bool :=
  env.keyToPath key = clean env.dataDir.path

/-- Whether the path of an upload is a directory. -/
def isDirectory (env : StorageEnv) (s : Storage) (u : Upload) : Bool :=
  isDataDir env u.key || (s.fileOf env u.key).isNone && u.overDir

/-- What `write_once` makes of an upload; `none` lets it pass. A directory counts as an object that
cannot be read. -/
def writeOnceVerdict (env : StorageEnv) (s : Storage) (u : Upload) : Option PutOutcome :=
  match env.writeOnce.action with
  | .allow => none
  | .deny =>
    match s.fileOf env u.key with
    | none =>
      if s.isDirectory env u then
        match env.writeOnce.notification with
        | .always => some .duplicate
        | .contentDiffers => if u.body = [] then some .ioError else some .conflict
        | .never => some .unchanged
      else none
    | some f =>
      match env.writeOnce.notification with
      | .always => some .duplicate
      | .contentDiffers =>
        if u.body = f.object.body then some .unchanged
        else if replacesContentStamp env.decoders f.object.body u.body then none
        else some .conflict
      | .never => some .unchanged

/-- The file that an upload puts in place. -/
def uploadedFile (env : StorageEnv) (u : Upload) : DiskFile where
  toStoredFile := storedFile env.sha256 env.dataDir u.key
  ino := u.ino
  object := ⟨u.body, u.modNano, u.md.set storedDigestMetaKey (storedDigest env u.body)⟩
  accessUnix := u.accessUnix

/-- The store after a file has been put in place. -/
def install (env : StorageEnv) (s : Storage) (u : Upload) : Storage :=
  ((({ s with disk := s.disk.put u.slot (uploadedFile env u) }).forgetClean u.key).forgetMeta
    u.key).indexPut env u.key u.now

/-- Stores an object. -/
def putStream (env : StorageEnv) (s : Storage) (u : Upload) : PutOutcome × Storage :=
  if u.refused then (.ioError, s)
  else if !checkStoredDigest (u.md.get storedDigestMetaKey) (storedDigest env u.body) then
    (.digestMismatch, s)
  else
    match s.writeOnceVerdict env u with
    | some outcome => (outcome, s)
    | none =>
      -- nothing can be renamed over a directory
      if s.isDirectory env u then (.ioError, s) else (.stored, s.install env u)

lemma writeOnceVerdict_ne_stored (env : StorageEnv) (s : Storage) (u : Upload) :
    s.writeOnceVerdict env u ≠ some .stored := by
  unfold writeOnceVerdict
  rcases env.writeOnce with ⟨_ | _, notification⟩
  · simp
  · rcases s.fileOf env u.key with _ | f
    · cases notification <;> dsimp only <;> split_ifs <;> simp
    · cases notification <;> dsimp only
      · simp
      · simp
      · split_ifs <;> simp

/-- A call of `PutStream` stores the object, or leaves the store as it is. -/
lemma putStream_spec (env : StorageEnv) (s : Storage) (u : Upload) :
    s.putStream env u = (.stored, s.install env u) ∧ isDataDir env u.key = false ∨
      (s.putStream env u).1 ≠ .stored ∧ (s.putStream env u).2 = s := by
  unfold putStream
  by_cases hrefused : u.refused = true
  · rw [if_pos hrefused]
    exact Or.inr ⟨by simp, rfl⟩
  rw [if_neg hrefused]
  by_cases hdigest : (!checkStoredDigest (u.md.get storedDigestMetaKey)
      (storedDigest env u.body)) = true
  · rw [if_pos hdigest]
    exact Or.inr ⟨by simp, rfl⟩
  rw [if_neg hdigest]
  rcases hverdict : s.writeOnceVerdict env u with _ | outcome
  · by_cases hdir : s.isDirectory env u = true
    · right
      simp [hdir]
    · left
      have hdata : isDataDir env u.key = false := by
        simp only [isDirectory, Bool.or_eq_true, not_or] at hdir
        simpa using hdir.1
      simp [hdir, hdata]
  · refine Or.inr ⟨fun hstored => writeOnceVerdict_ne_stored env s u ?_, rfl⟩
    rw [hverdict]
    exact congrArg some hstored

/-! ## Stores written under sweepable keys -/

end Storage

/-- A sweep reaches the file of the key: the key is stored under its digest, or its canonical key
lies outside the tree of the hashed keys and survives the compact form. -/
def SweepableKey (sha256 : Sha256) (key : Key) : Prop :=
  isKeySafe key = false ∨
    ¬ InHashedTree sha256 key ∧ KeptByCompact (canonicalKey sha256 key)

instance (sha256 : Sha256) (key : Key) : Decidable (SweepableKey sha256 key) :=
  inferInstanceAs (Decidable (_ ∨ _))

namespace Storage

/-- Times before this one are in buckets whose upper edge is a time. -/
def evictionHorizon : ℤ := 2 ^ 63 - 600

/-- The upload is under a sweepable key, and its file has times that are not negative and before the
horizon. -/
structure SweepableUpload (env : StorageEnv) (u : Upload) : Prop where
  /-- The key is not empty. -/
  key_ne_nil : u.key ≠ []
  /-- A sweep reaches its file. -/
  sweepable : SweepableKey env.sha256 u.key
  /-- The modification time. -/
  mtime : 0 ≤ (uploadedFile env u).mtimeUnix ∧ (uploadedFile env u).mtimeUnix < evictionHorizon
  /-- The access time. -/
  access : ∀ t ∈ u.accessUnix, 0 ≤ t ∧ t < evictionHorizon

/-- A key with no elements is that of the data directory. -/
lemma isDataDir_of_keyElems_eq_nil {env : StorageEnv} {key : Key}
    (h : keyElems env.sha256 key = []) : isDataDir env key = true := by
  rw [isDataDir, decide_eq_true_eq, StorageEnv.keyToPath, keyToPath_eq_render, h]
  simp [shardElems, clean]

/-- The file of an upload under a sweepable key is addressed. -/
lemma addressed_uploadedFile {env : StorageEnv} {u : Upload} (hu : SweepableUpload env u)
    (hdir : isDataDir env u.key = false) : Addressed env (uploadedFile env u) := by
  have hkey : keyElems env.sha256 u.key ≠ [] := fun h => by
    rw [isDataDir_of_keyElems_eq_nil h] at hdir
    cases hdir
  have hreserved := isReservedFile_storedFile env.sha256 env.dataDir hkey
  have hwalk : ∀ k : Key, k ≠ [] →
      pathToKey env.dataDir (storedFile env.sha256 env.dataDir u.key) = k →
      walkKey env.dataDir (uploadedFile env u).toStoredFile = some k := by
    intro k hne hpath
    rw [uploadedFile, walkKey, hreserved, if_neg (by simp), hpath, if_neg hne]
  rcases hsafe : isKeySafe u.key with _ | _
  · -- stored under its digest, with the key itself on record
    have hhash : extractActionHash u.key = none := by
      rcases hx : extractActionHash u.key with _ | h
      · rfl
      · obtain ⟨digits, hdigits, -, hhex⟩ := exists_digits_of_extractActionHash hx
        rw [hdigits, isKeySafe_cacheprog hhex] at hsafe
        cases hsafe
    have hw := hwalk u.key hu.key_ne_nil <| by
      rw [pathToKey_storedFile_of_inHashedTree env.sha256 env.dataDir
        (inHashedTree_of_isKeySafe_eq_false env.sha256 hsafe), hsafe]
      rfl
    refine ⟨by rw [hw]; rfl, ?_⟩
    rw [sweepKey, hw, Option.getD_some, key_newCompactKey hu.key_ne_nil, hhash]
    rfl
  · obtain ⟨htree, hkept⟩ := hu.sweepable.resolve_left (by simp [hsafe])
    have hne : canonicalKey env.sha256 u.key ≠ [] := by
      intro hnil
      have hsafe' := isKeySafe_canonicalKey env.sha256 hsafe hkey
      rw [hnil] at hsafe'
      cases hsafe'
    have hw := hwalk _ hne (pathToKey_storedFile_of_not_inHashedTree env.sha256 env.dataDir htree)
    refine ⟨by rw [hw]; rfl, ?_⟩
    rw [sweepKey, hw, Option.getD_some, (key_newCompactKey_eq_iff hne).mpr hkept,
      StorageEnv.keyToPath, keyToPath_canonicalKey env.sha256 env.dataDir hsafe hkey]
    rfl

/-- A store whose files a sweep reaches, with times that are not negative and before the
horizon. -/
structure SweepableStore (env : StorageEnv) (s : Storage) : Prop where
  /-- The sweep reaches every file. -/
  addressed : ∀ f ∈ s.disk.rows, Addressed env f
  /-- The modification times. -/
  mtime : ∀ f ∈ s.disk.rows, 0 ≤ f.mtimeUnix ∧ f.mtimeUnix < evictionHorizon
  /-- The access times of the files. -/
  access : ∀ f ∈ s.disk.rows, ∀ t ∈ f.accessUnix, 0 ≤ t ∧ t < evictionHorizon
  /-- The accesses that the server remembers. -/
  memAccess : ∀ ck, s.lastAccessOf ck < evictionHorizon

/-- A run of uploads, one after the other. -/
def putStep (env : StorageEnv) (s : Storage) (u : Upload) : Option Storage :=
  some (s.putStream env u).2

lemma disk_install (env : StorageEnv) (s : Storage) (u : Upload) :
    (s.install env u).disk = s.disk.put u.slot (uploadedFile env u) := by
  rw [install, indexPut, forgetMeta, disk_forgetClean]

lemma accessShards_install (env : StorageEnv) (s : Storage) (u : Upload) :
    (s.install env u).accessShards = s.accessShards := by
  rw [install, indexPut, forgetMeta, accessShards_forgetClean]

lemma SweepableStore.putStep {env : StorageEnv} {s s' : Storage} {u : Upload}
    (hs : SweepableStore env s) (hu : SweepableUpload env u)
    (h : s.putStep env u = some s') : SweepableStore env s' := by
  obtain rfl := Option.some.inj h
  rcases putStream_spec env s u with ⟨hput, hdir⟩ | ⟨-, hput⟩
  swap
  · rw [hput]
    exact hs
  have hmem : ∀ f ∈ (s.install env u).disk.rows, f = uploadedFile env u ∨ f ∈ s.disk.rows := by
    intro f hf
    rw [disk_install, Table.mem_put] at hf
    exact hf.imp_right And.left
  rw [hput]
  refine ⟨?_, ?_, ?_, ?_⟩
  · intro f hf
    rcases hmem f hf with rfl | hf
    · exact addressed_uploadedFile hu hdir
    · exact hs.addressed f hf
  · intro f hf
    rcases hmem f hf with rfl | hf
    · exact hu.mtime
    · exact hs.mtime f hf
  · intro f hf
    rcases hmem f hf with rfl | hf
    · exact hu.access
    · exact hs.access f hf
  · intro ck
    rw [lastAccessOf, accessShards_install]
    exact hs.memAccess ck

/-- The last use is one of the three times. -/
lemma lastUsedUnix_cases (obj : ListObject) (memAccess : ℤ) :
    lastUsedUnix obj memAccess = obj.lastModified ∨ lastUsedUnix obj memAccess ∈ obj.lastAccess ∨
      lastUsedUnix obj memAccess = memAccess ∧ obj.lastModified < memAccess := by
  rcases obj with ⟨key, size, mtime, _ | t⟩
  · simp only [lastUsedUnix]
    split_ifs with h
    · exact Or.inr (Or.inr ⟨rfl, h⟩)
    · exact Or.inl rfl
  · simp only [lastUsedUnix]
    split_ifs with h₁ h₂ h₂
    · exact Or.inr (Or.inr ⟨rfl, h₁.trans h₂⟩)
    · exact Or.inr (Or.inl rfl)
    · exact Or.inr (Or.inr ⟨rfl, h₂⟩)
    · exact Or.inl rfl

/-- In such a store, the last uses are before the horizon. -/
lemma SweepableStore.lastUsed_bounds {env : StorageEnv} {s : Storage} (hs : SweepableStore env s)
    {f : DiskFile} (hf : f ∈ s.disk.rows) :
    0 ≤ s.lastUsed env f ∧ s.lastUsed env f < evictionHorizon := by
  have hmtime := hs.mtime f hf
  have hmem := hs.memAccess (sweepKey env f)
  rcases lastUsedUnix_cases (listed env f) (s.lastAccessOf (sweepKey env f)) with h | h | ⟨h, hlt⟩
  · rw [lastUsed, h]
    exact hmtime
  · exact hs.access f hf _ h
  · rw [lastUsed, h]
    exact ⟨hmtime.1.trans hlt.le, hmem⟩

lemma totalBytes_eq_add (s : Storage) (p : DiskFile → Prop) [DecidablePred p] :
    s.totalBytes = s.bytesWhere p + s.bytesWhere fun f => ¬ p f := by
  unfold totalBytes bytesWhere
  induction s.disk.rows with
  | nil => rfl
  | cons f files ih =>
    by_cases hp : p f
    · simp [hp, ih]
      ring
    · simp [hp, ih]
      ring

/-- A sweep brings such a store within the budget. -/
lemma SweepableStore.totalBytes_evict_le {env : StorageEnv} {s : Storage}
    (hs : SweepableStore env s) (maxAge : Duration) {maxBytes : ℤ} (hpos : 0 < maxBytes) (now : ℤ) :
    ((s.evict env maxAge maxBytes now).2.totalBytes : ℤ) ≤ maxBytes := by
  by_cases hover : maxBytes < s.totalBytes
  swap
  · -- a sweep adds nothing
    have hle : (s.evict env maxAge maxBytes now).2.totalBytes ≤ s.totalBytes := by
      by_cases hcut : 0 < s.evictCutoff env maxAge maxBytes now
      · rw [totalBytes, (evict_spec hs.addressed maxAge maxBytes now hcut).1]
        exact (List.filter_sublist.map _).sum_le_sum fun _ _ => Nat.zero_le _
      · rw [totalBytes, (evict_of_cutoff_nonpos hcut).1]
        exact le_rfl
    omega
  obtain ⟨b, hedge, ⟨f₀, hf₀, hb⟩, -, hupto⟩ := sizeCutoff_spec hs.addressed hpos hover
  have hsec : evictionBucketSeconds = 600 := rfl
  have hbucket : ∀ f ∈ s.disk.rows, s.bucketOf env f = s.lastUsed env f / 600 := fun f hf =>
    bucketOf_eq_div (hs.lastUsed_bounds hf).1
  -- before the horizon, the edge of the bucket does not wrap around
  have hfits : 0 < (b + 1) * 600 ∧ bucketEdge b = (b + 1) * 600 := by
    have h₀ := hs.lastUsed_bounds hf₀
    have hhorizon : evictionHorizon = 2 ^ 63 - 600 := rfl
    rw [hhorizon] at h₀
    rw [hbucket f₀ hf₀] at hb
    refine ⟨by omega, ?_⟩
    rw [bucketEdge, int64, hsec, Int.bmod_eq_of_le (by omega) (by omega)]
  have hcutoff : (b + 1) * 600 ≤ s.evictCutoff env maxAge maxBytes now := by
    rw [evictCutoff, hedge, hfits.2]
    exact le_max_right _ _
  have hcut : 0 < s.evictCutoff env maxAge maxBytes now := hfits.1.trans_le hcutoff
  have hcovered : s.bytesWhere (s.bucketOf env · ≤ b)
      ≤ s.bytesWhere (s.lastUsed env · < s.evictCutoff env maxAge maxBytes now) := by
    refine s.bytesWhere_mono ?_
    intro f hf h
    rw [hbucket f hf] at h
    omega
  have hrest : (s.evict env maxAge maxBytes now).2.totalBytes
      = s.bytesWhere fun f => ¬ s.lastUsed env f < s.evictCutoff env maxAge maxBytes now := by
    simp only [totalBytes, (evict_spec hs.addressed maxAge maxBytes now hcut).1, bytesWhere, not_lt]
  have hsum := s.totalBytes_eq_add
    (s.lastUsed env · < s.evictCutoff env maxAge maxBytes now)
  omega

/-- A store written by uploads under sweepable keys, with times before the horizon, is within its
budget after a sweep. -/
theorem evict_within_budget (env : StorageEnv) (s₀ : Storage) (hempty : s₀.disk.rows = [])
    (haccess : ∀ ck, s₀.lastAccessOf ck < evictionHorizon) (us : List Upload) (s : Storage)
    (hguard : Guarded (putStep env) (fun _ u => SweepableUpload env u) s₀ us)
    (hrun : run (putStep env) s₀ us = some s) (maxAge : Duration) (maxBytes now : ℤ)
    (hpos : 0 < maxBytes) :
    ((s.evict env maxAge maxBytes now).2.refreshCacheBytes : ℤ) ≤ maxBytes := by
  have hstart : SweepableStore env s₀ :=
    ⟨by simp [hempty], by simp [hempty], by simp [hempty], haccess⟩
  have hs : SweepableStore env s :=
    run_invariant (fun _ _ _ hs hu h => hs.putStep hu h) hstart hguard hrun
  have hle : (s.evict env maxAge maxBytes now).2.refreshCacheBytes
      ≤ (s.evict env maxAge maxBytes now).2.totalBytes :=
    (List.filter_sublist.map _).sum_le_sum fun _ _ => Nat.zero_le _
  have htotal := hs.totalBytes_evict_le maxAge hpos now
  omega

/-- An upload of two bytes at the time 1000. -/
def smallUpload (key : Key) : Upload where
  key := key
  body := [1, 2]
  md := .empty
  ino := 1
  modNano := 1000000000000
  accessUnix := none
  slot := 0
  now := 1000
  overDir := false
  refused := false

/-- A sweep with room for one byte leaves the two bytes stored under a key in upper case. -/
theorem evict_misses_upperKey :
    ∃ s, run (putStep plainEnv) (.empty none) [smallUpload upperKey] = some s ∧
      (s.evict plainEnv 0 1 9000).2.refreshCacheBytes = 2 := by
  obtain ⟨s, hs, hbytes⟩ : ∃ s ∈ run (putStep plainEnv) (.empty none) [smallUpload upperKey],
      (s.evict plainEnv 0 1 9000).2.refreshCacheBytes = 2 := by
    decide +kernel
  exact ⟨s, hs, hbytes⟩

/-- A sweep with room for one byte removes the two bytes stored under a key in lower case. -/
theorem evict_within_budget_lowerKey :
    ∃ s, run (putStep plainEnv) (.empty none) [smallUpload lowerKey] = some s ∧
      s.refreshCacheBytes = 2 ∧ (s.evict plainEnv 0 1 9000).2.refreshCacheBytes ≤ 1 := by
  obtain ⟨s, hs, hbytes⟩ : ∃ s ∈ run (putStep plainEnv) (.empty none) [smallUpload lowerKey],
      s.refreshCacheBytes = 2 := by
    decide +kernel
  have hupload : SweepableUpload plainEnv (smallUpload lowerKey) :=
    ⟨by decide, by decide +kernel, by decide, by decide⟩
  have hle := evict_within_budget plainEnv (.empty none) rfl (fun ck => show (0 : ℤ) < _ by decide)
    [smallUpload lowerKey] s ⟨hupload, fun _ _ => trivial⟩ hs 0 1 9000 (by decide)
  exact ⟨s, hs, hbytes, by omega⟩

end Storage

end GoBuildCache
