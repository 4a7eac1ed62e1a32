import GoBuildCache.Foundation.Reader
import GoBuildCache.Store.Put

/-!
# The calls of an upload

`PutStream` writes the body of an upload to a temporary file, describes it and renames it into
place. Any of its calls may fail, and each early return has to remove the temporary file by itself.
`putStreamCalls` is that sequence of calls, with the outcome of each one given by `PutCalls`: the
temporary file is a file of the data directory like any other, until it is renamed or removed.

Whatever fails and whenever, an upload that is not stored leaves the store as it was
(`failed_put_changes_nothing`). If nothing fails, the calls make up `Storage.putStream`
(`putStreamCalls_eq_putStream`).
-/

open ByteString LexicalPath

namespace GoBuildCache

/-! ## Errors and outcomes -/

/-- Why `PutStream` returns an error. -/
inductive PutError where
  /-- The directory cannot be made. -/
  | createDirs
  /-- The temporary file cannot be created. -/
  | createTemp
  /-- The body cannot be read to its end, or not be written. -/
  | writeTemp
  /-- `ErrStoredDigestMismatch`. -/
  | storedDigestMismatch (claimed received : Bytes)
  /-- The temporary file cannot be synced. -/
  | syncTemp
  /-- The temporary file cannot be closed. -/
  | closeTemp
  /-- `ErrWriteOnceDuplicate`. -/
  | writeOnceDuplicate
  /-- The stored object and the upload cannot be compared. -/
  | writeOnceCompare
  /-- `ErrWriteOnceConflict`. -/
  | writeOnceConflict
  /-- The metadata cannot be set. -/
  | setObjectAttrs
  /-- The original key cannot be set. -/
  | setOriginalKey
  /-- The temporary file cannot be renamed. -/
  | rename
  deriving DecidableEq

/-- How a call of `PutStream` ends. -/
inductive PutResult where
  /-- It returns nil, and the object is stored. -/
  | stored
  /-- It returns nil, and nothing is stored. -/
  | unchanged
  /-- It returns an error. -/
  | failed (e : PutError)
  deriving DecidableEq

/-- The outcome, as far as it matters for an answer. -/
def PutResult.outcome : PutResult → PutOutcome
  | stored => .stored
  | unchanged => .unchanged
  | failed .writeOnceDuplicate => .duplicate
  | failed .writeOnceConflict => .conflict
  | failed (.storedDigestMismatch _ _) => .digestMismatch
  | failed _ => .ioError

/-- How a call of `os.CreateTemp` ends. -/
inductive TempCreation where
  | created
  /-- The directory does not exist. -/
  | notExist
  | failed

/-- How a call of `setxattr` ends. -/
inductive SetxattrResult where
  | ok
  /-- The value does not fit. -/
  | noSpace
  | failed
  deriving DecidableEq

/-- What the file system makes of the calls of an upload. -/
structure PutCalls where
  /-- The random part of the name of the temporary file. -/
  tempName : Bytes
  /-- How the file is created. -/
  createTemp : TempCreation
  /-- Whether `MkdirAll` fails. -/
  mkdirAll : Bool
  /-- Whether the second `CreateTemp` fails. -/
  createTempAgain : Bool
  /-- After how many bytes the copy fails, if it does. -/
  copy : Option ℕ
  /-- Whether `Sync` fails. -/
  sync : Bool
  /-- Whether `Close` fails. -/
  close : Bool
  /-- Whether `Stat` of the path fails, even though there is something. -/
  stat : Bool
  /-- Whether one of the two files cannot be opened to compare them. -/
  compareOpen : Bool
  /-- After how many bytes the upload cannot be read, if so. -/
  readTemp : Option ℕ
  /-- After how many bytes the stored object cannot be read, if so. -/
  readStored : Option ℕ
  /-- What is made of the build ids, if they cannot be read. -/
  stamp : Option Bool
  /-- How the attempts to set the metadata end. -/
  setxattr : ℕ → SetxattrResult
  /-- The fields of the metadata, in the order of the map. -/
  fields : List Bytes
  /-- Whether there are audit fields. -/
  audit : Bool
  /-- Whether the original key cannot be set. -/
  setOriginalKey : Bool
  /-- Whether the rename fails. -/
  rename : Bool

/-- Bodies of this size are synced. -/
def fsyncThresholdBytes : ℕ := 8 * 2 ^ 20

/-! ## Comparing two files -/

/-- How much is compared at a time. -/
def compareChunk : ℕ := 64 * 1024

/-- Whether two files have the same contents; `none` is an error. -/
def filesEqual (a b : Reader UInt8) : Option Bool :=
  Reader.equal compareChunk (a.rest.length + 1) a b

/-- A file that is read up to its end, or up to the place where reading fails. -/
def fileReader (body : Bytes) : Option ℕ → Reader UInt8
  | none => ⟨body, false⟩
  | some n => ⟨body.take n, true⟩

lemma filesEqual_fileReader (a b : Bytes) :
    filesEqual (fileReader a none) (fileReader b none) = some (decide (a = b)) :=
  Reader.equal_eq (by decide) rfl rfl (Nat.lt_succ_self _)

/-! ## Setting the metadata -/

/-- The fields that are never dropped to make room. -/
def metadataProtectedKeys : List Bytes :=
  [outputIDMetaKey, compressionMetaKey, storedDigestMetaKey]

/-- The optional field with the longest value; empty if there is none. -/
def longestField (md : Metadata) (fields : List Bytes) : Bytes :=
  fields.foldl
    (fun longest field =>
      if (md field).isSome = true ∧ field ∉ metadataProtectedKeys ∧
          (longest = [] ∨ (md.get longest).length < (md.get field).length) then field
      else longest)
    []

lemma longestField_mem {md : Metadata} {fields : List Bytes} (h : longestField md fields ≠ []) :
    longestField md fields ∈ fields := by
  suffices hfold : ∀ (fs : List Bytes) (start : Bytes),
      fs.foldl (fun longest field =>
        if (md field).isSome = true ∧ field ∉ metadataProtectedKeys ∧
            (longest = [] ∨ (md.get longest).length < (md.get field).length) then field
        else longest) start ∈ start :: fs by
    exact (List.mem_cons.mp (hfold fields [])).resolve_left h
  intro fs
  induction fs with
  | nil => simp
  | cons f fs ih =>
    intro start
    rw [List.foldl_cons]
    split_ifs
    · exact List.mem_cons_of_mem _ (ih f)
    · rcases List.mem_cons.mp (ih start) with hstart | hfs
      · rw [hstart]
        exact List.mem_cons_self
      · exact List.mem_cons_of_mem _ (List.mem_cons_of_mem _ hfs)

/-- Drops the longest optional field and tries again, until the metadata fits or there is no such
field; `attempt` numbers the calls. -/
def dropFields (setxattr : ℕ → SetxattrResult) (attempt : ℕ) (result : SetxattrResult)
    (md : Metadata) (fields : List Bytes) : SetxattrResult × Metadata :=
  if result ≠ .noSpace then (result, md)
  else if _hlongest : longestField md fields = [] then (result, md)
  else
    let longest := longestField md fields
    dropFields setxattr (attempt + 1) (setxattr attempt) (Function.update md longest none)
      (fields.erase longest)
termination_by fields.length
decreasing_by
  have hmem := longestField_mem _hlongest
  rw [List.length_erase_of_mem hmem]
  exact Nat.sub_lt (List.length_pos_of_mem hmem) Nat.one_pos

/-- Sets the metadata of a new object. When they do not fit, the audit fields go first, and then the
longest optional fields one by one. `none` is an error, and otherwise the result is what is set. -/
def writeObjAttrs (io : PutCalls) (md : Metadata) : Option Metadata :=
  let first := io.setxattr 0
  let dropped :=
    if first ≠ .noSpace then (first, md)
    else if io.audit then dropFields io.setxattr 2 (io.setxattr 1) md io.fields
    else dropFields io.setxattr 1 first md io.fields
  if dropped.1 = .ok then some dropped.2 else none

/-! ## The temporary file -/

/-- The path of the temporary file of an upload. -/
def tempPath (env : StorageEnv) (u : Upload) (io : PutCalls) : Bytes :=
  join [dir (env.keyToPath u.key), tempFilePrefix ++ io.tempName]

namespace Storage

/-- An empty temporary file. A file of that name must not exist. -/
def createTemp (s : Storage) (u : Upload) (tmpPath : Bytes) : Except PutError Storage :=
  match s.disk.find tmpPath with
  | some _ => .error .createTemp
  | none =>
    .ok { s with
      disk := s.disk.put u.slot ⟨⟨tmpPath, none⟩, u.ino, ⟨[], u.modNano, .empty⟩, u.accessUnix⟩ }

/-- Creates the temporary file, and the directory if it does not exist. -/
def openTemp (s : Storage) (u : Upload) (io : PutCalls) (tmpPath : Bytes) :
    Except PutError Storage :=
  match io.createTemp with
  | .created => s.createTemp u tmpPath
  | .failed => .error .createTemp
  | .notExist =>
    if io.mkdirAll then .error .createDirs
    else if io.createTempAgain then .error .createTemp
    else s.createTemp u tmpPath

/-- Changes the file at a path, but not its name. -/
def modifyFile (s : Storage) (path : Bytes) (f : DiskFile → DiskFile)
    (hf : ∀ file, (f file).path = file.path) : Storage :=
  { s with disk := s.disk.modify path f hf }

/-- Writes the body of a file. -/
def writeBody (s : Storage) (path body : Bytes) : Storage :=
  s.modifyFile path (fun f => { f with object := { f.object with body := body } }) fun _ => rfl

/-- Sets the metadata of a file. -/
def setObjectAttrs (s : Storage) (path : Bytes) (md : Metadata) : Storage :=
  s.modifyFile path (fun f => { f with object := { f.object with md := md } }) fun _ => rfl

/-- Sets the original key of a file. -/
def setOriginalKey (s : Storage) (path : Bytes) (key : Key) : Storage :=
  s.modifyFile path (fun f => { f with originalKey := some key }) fun _ => rfl

/-- Removes the file at a path. -/
def removeFile (s : Storage) (path : Bytes) : Storage :=
  { s with disk := s.disk.erase path }

/-- Renames a file. -/
def renameFile (s : Storage) (slot : ℕ) (tmpPath path : Bytes) : Storage :=
  match s.disk.find tmpPath with
  | none => s
  | some f => { s with disk := (s.disk.erase tmpPath).put slot { f with path := path } }

/-- What a comparison with what is stored makes of an upload; `none` lets it pass, which needs a
reason to replace what differs. -/
def compareWithStored (u : Upload) (io : PutCalls) (stored : Reader UInt8) (replaces : Bool) :
    Option PutResult :=
  match if io.compareOpen then none else filesEqual (fileReader u.body io.readTemp) stored with
  | none => some (.failed .writeOnceCompare)
  | some eq =>
    if eq then some .unchanged
    else if replaces then none
    else some (.failed .writeOnceConflict)

/-- What `write_once` makes of an upload of which something is stored; `none` lets it pass. -/
def writeOnceOutcome (env : StorageEnv) (u : Upload) (io : PutCalls) (stored : Reader UInt8)
    (replaces : Bool) : Option PutResult :=
  match env.writeOnce.notification with
  | .always => some (.failed .writeOnceDuplicate)
  | .contentDiffers => compareWithStored u io stored replaces
  | .never => some .unchanged

/-- What `write_once` makes of an upload whose body is in a temporary file; `none` lets it pass. A
directory cannot be read. -/
def applyWriteOnce (env : StorageEnv) (s : Storage) (u : Upload) (io : PutCalls) :
    Option PutResult :=
  match env.writeOnce.action with
  | .allow => none
  | .deny =>
    if io.stat then none
    else
      match s.fileOf env u.key with
      | some f =>
        writeOnceOutcome env u io (fileReader f.object.body io.readStored)
          (io.stamp.getD (replacesContentStamp env.decoders f.object.body u.body))
      | none => if s.isDirectory env u then writeOnceOutcome env u io ⟨[], true⟩ false else none

/-- The end of an upload whose temporary file has been closed: its attributes are set, and it is
renamed into place. Nothing can be renamed over a directory. -/
def finishPut (env : StorageEnv) (s : Storage) (u : Upload) (io : PutCalls) (tmpPath : Bytes) :
    PutResult × Storage :=
  match writeObjAttrs io (u.md.set storedDigestMetaKey (storedDigest env u.body)) with
  | none => (.failed .setObjectAttrs, s.removeFile tmpPath)
  | some md =>
    let s := s.setObjectAttrs tmpPath md
    if isKeySafe u.key = false ∧ io.setOriginalKey = true then
      (.failed .setOriginalKey, s.removeFile tmpPath)
    else
      let s := if isKeySafe u.key then s else s.setOriginalKey tmpPath u.key
      if io.rename = true ∨ s.isDirectory env u = true then
        (.failed .rename, s.removeFile tmpPath)
      else
        (.stored,
          (((s.renameFile u.slot tmpPath (env.keyToPath u.key)).forgetClean u.key).forgetMeta
            u.key).indexPut env u.key u.now)

/-- `PutStream`, call by call. -/
def putStreamCalls (env : StorageEnv) (s : Storage) (u : Upload) (io : PutCalls) :
    PutResult × Storage :=
  let tmpPath := tempPath env u io
  match s.openTemp u io tmpPath with
  | .error e => (.failed e, s)
  | .ok s =>
    match io.copy with
    | some n => (.failed .writeTemp, (s.writeBody tmpPath (u.body.take n)).removeFile tmpPath)
    | none =>
      let s := s.writeBody tmpPath u.body
      let claimed := u.md.get storedDigestMetaKey
      let digest := storedDigest env u.body
      if !checkStoredDigest claimed digest then
        (.failed (.storedDigestMismatch claimed digest), s.removeFile tmpPath)
      else if fsyncThresholdBytes ≤ u.body.length ∧ io.sync = true then
        (.failed .syncTemp, s.removeFile tmpPath)
      else if io.close then (.failed .closeTemp, s.removeFile tmpPath)
      else
        match s.applyWriteOnce env u io with
        | some result => (result, s.removeFile tmpPath)
        | none => s.finishPut env u io tmpPath

/-! ## What the calls leave -/

/-- The stores differ in one file, which only the second one has. -/
structure HasTemp (path : Bytes) (f : DiskFile) (s t : Storage) : Prop where
  /-- The file is there. -/
  file : t.disk.find path = some f
  /-- Without the file the directories are equal. -/
  disk : t.disk.erase path = s.disk
  /-- Nothing else differs. -/
  rest : t = { s with disk := t.disk }

section Temp

variable {path : Bytes} {f : DiskFile} {s t : Storage}

lemma HasTemp.removeFile (h : HasTemp path f s t) : t.removeFile path = s := by
  rw [Storage.removeFile, h.disk, h.rest]

lemma HasTemp.modifyFile (h : HasTemp path f s t) (g : DiskFile → DiskFile)
    (hg : ∀ file, (g file).path = file.path) :
    HasTemp path (g f) s (t.modifyFile path g hg) where
  file := by
    rw [Storage.modifyFile, Table.find_modify, if_pos rfl, h.file]
    rfl
  disk := by
    rw [← h.disk]
    exact Table.erase_modify _ _ hg
  rest := by
    rw [Storage.modifyFile, h.rest]

/-- The file takes the place of another one. -/
lemma HasTemp.renameFile (h : HasTemp path f s t) (slot : ℕ) (target : Bytes) :
    t.renameFile slot path target =
      { s with disk := s.disk.put slot { f with path := target } } := by
  rw [Storage.renameFile, h.file]
  dsimp only
  rw [h.disk, h.rest]

/-- Other files can be seen as before. -/
lemma HasTemp.fileOf (h : HasTemp path f s t) {env : StorageEnv} {key : Key}
    (hne : path ≠ env.keyToPath key) : t.fileOf env key = s.fileOf env key := by
  rw [Storage.fileOf, Storage.fileOf, ← h.disk, Table.find_erase, if_neg hne.symm]

lemma HasTemp.isDirectory (h : HasTemp path f s t) {env : StorageEnv} {u : Upload}
    (hne : path ≠ env.keyToPath u.key) : t.isDirectory env u = s.isDirectory env u := by
  rw [Storage.isDirectory, Storage.isDirectory, h.fileOf hne]

end Temp

variable {path : Bytes} {s t : Storage} {env : StorageEnv} {u : Upload} {io : PutCalls}

/-- The temporary file of an upload with its body. -/
def tempFile (u : Upload) (path body : Bytes) : DiskFile :=
  ⟨⟨path, none⟩, u.ino, ⟨body, u.modNano, .empty⟩, u.accessUnix⟩

lemma hasTemp_of_createTemp (h : s.createTemp u path = .ok t) :
    HasTemp path (tempFile u path []) s t := by
  unfold createTemp at h
  split at h
  · cases h
  · next hfind =>
    cases h
    refine ⟨?_, (Table.erase_put ..).trans (Table.erase_of_find_eq_none hfind), rfl⟩
    rw [Table.find_put, if_pos rfl]
    rfl

lemma hasTemp_of_openTemp (h : s.openTemp u io path = .ok t) :
    HasTemp path (tempFile u path []) s t := by
  unfold openTemp at h
  split at h
  · exact hasTemp_of_createTemp h
  · cases h
  · split_ifs at h
    exact hasTemp_of_createTemp h

lemma HasTemp.writeBody (h : HasTemp path (tempFile u path []) s t) (body : Bytes) :
    HasTemp path (tempFile u path body) s (t.writeBody path body) :=
  h.modifyFile (fun f => { f with object := { f.object with body := body } }) fun _ => rfl

/-- The file of an upload, with the metadata that could be set. -/
def uploadedFileWith (env : StorageEnv) (u : Upload) (md : Metadata) : DiskFile :=
  { uploadedFile env u with object := ⟨u.body, u.modNano, md⟩ }

/-- The temporary file gets its attributes. -/
lemma HasTemp.describe (h : HasTemp path (tempFile u path u.body) s t) (env : StorageEnv)
    (md : Metadata) :
    HasTemp path { uploadedFileWith env u md with path := path } s
      (if isKeySafe u.key then t.setObjectAttrs path md
        else (t.setObjectAttrs path md).setOriginalKey path u.key) := by
  have hmd : HasTemp path _ s (t.setObjectAttrs path md) := h.modifyFile _ _
  split_ifs with hsafe
  · have hfile : ({ uploadedFileWith env u md with path := path } : DiskFile) =
        ⟨⟨path, none⟩, u.ino, ⟨u.body, u.modNano, md⟩, u.accessUnix⟩ := by
      simp [uploadedFileWith, uploadedFile, storedFile, hsafe]
    rw [hfile]
    exact hmd
  · have hfile : ({ uploadedFileWith env u md with path := path } : DiskFile) =
        ⟨⟨path, some u.key⟩, u.ino, ⟨u.body, u.modNano, md⟩, u.accessUnix⟩ := by
      simp [uploadedFileWith, uploadedFile, storedFile, hsafe]
    rw [hfile]
    exact hmd.modifyFile (fun f => { f with originalKey := some u.key }) fun _ => rfl

/-- The store after the file of an upload has been put in place. -/
def installWith (env : StorageEnv) (s : Storage) (u : Upload) (md : Metadata) : Storage :=
  ((({ s with disk := s.disk.put u.slot (uploadedFileWith env u md) }).forgetClean
    u.key).forgetMeta u.key).indexPut env u.key u.now

/-- The last calls put the file in place with the metadata that could be set, or remove it. -/
lemma HasTemp.finishPut (h : HasTemp path (tempFile u path u.body) s t) :
    (∃ e, t.finishPut env u io path = (.failed e, s)) ∨
      ∃ md, writeObjAttrs io (u.md.set storedDigestMetaKey (storedDigest env u.body)) = some md ∧
        t.finishPut env u io path = (.stored, s.installWith env u md) := by
  rcases hattrs : writeObjAttrs io (u.md.set storedDigestMetaKey (storedDigest env u.body))
    with _ | md
  · simp only [Storage.finishPut, hattrs, h.removeFile]
    exact Or.inl ⟨_, rfl⟩
  have hmd : HasTemp path _ s (t.setObjectAttrs path md) := h.modifyFile _ _
  have hkey := h.describe env md
  simp only [Storage.finishPut, hattrs]
  generalize (if isKeySafe u.key then t.setObjectAttrs path md
      else (t.setObjectAttrs path md).setOriginalKey path u.key) = t' at hkey ⊢
  by_cases hkeyFails : isKeySafe u.key = false ∧ io.setOriginalKey = true
  · rw [if_pos hkeyFails, hmd.removeFile]
    exact Or.inl ⟨_, rfl⟩
  rw [if_neg hkeyFails]
  by_cases hrename : io.rename = true ∨ t'.isDirectory env u = true
  · rw [if_pos hrename, hkey.removeFile]
    exact Or.inl ⟨_, rfl⟩
  · rw [if_neg hrename, hkey.renameFile]
    exact Or.inr ⟨md, rfl, rfl⟩

lemma writeOnceOutcome_ne_stored {stored : Reader UInt8} {replaces : Bool} :
    writeOnceOutcome env u io stored replaces ≠ some .stored := by
  unfold writeOnceOutcome compareWithStored
  intro h
  split at h
  · cases h
  · generalize (if io.compareOpen then none
      else filesEqual (fileReader u.body io.readTemp) stored) = outcome at h
    rcases outcome with _ | eq
    · cases h
    · dsimp only at h
      split_ifs at h <;> cases h
  · cases h

/-- `write_once` stores nothing, and does nothing unless it is configured. -/
lemma ne_stored_of_applyWriteOnce {result : PutResult}
    (h : s.applyWriteOnce env u io = some result) :
    result ≠ .stored ∧ env.writeOnce.action = .deny := by
  unfold applyWriteOnce at h
  split at h
  · cases h
  · next haction =>
    refine ⟨?_, haction⟩
    rintro rfl
    rcases hfile : s.fileOf env u.key with _ | f <;> rw [hfile] at h <;> split_ifs at h <;>
      exact writeOnceOutcome_ne_stored h

/-- The result of an upload that is not stored. -/
def NotStored (env : StorageEnv) (result : PutResult) : Prop :=
  result ≠ .stored ∧ (result = .unchanged → env.writeOnce.action = .deny)

lemma notStored_failed (e : PutError) : NotStored env (.failed e) :=
  ⟨nofun, nofun⟩

/-- What is left of an upload when its temporary file has been written. -/
lemma putStreamCalls_of_ok (ht : s.openTemp u io (tempPath env u io) = .ok t)
    (hcopy : io.copy = none) :
    (∃ result, NotStored env result ∧ s.putStreamCalls env u io =
        (result, (t.writeBody (tempPath env u io) u.body).removeFile (tempPath env u io))) ∨
      s.putStreamCalls env u io =
        (t.writeBody (tempPath env u io) u.body).finishPut env u io (tempPath env u io) := by
  simp only [putStreamCalls, ht, hcopy]
  split_ifs
  · exact Or.inl ⟨_, notStored_failed (.storedDigestMismatch _ _), rfl⟩
  · exact Or.inl ⟨_, notStored_failed .syncTemp, rfl⟩
  · exact Or.inl ⟨_, notStored_failed .closeTemp, rfl⟩
  · rcases hverdict : (t.writeBody (tempPath env u io) u.body).applyWriteOnce env u io
      with _ | result
    · exact Or.inr rfl
    · obtain ⟨hne, hdeny⟩ := ne_stored_of_applyWriteOnce hverdict
      exact Or.inl ⟨result, ⟨hne, fun _ => hdeny⟩, rfl⟩

/-- An upload is stored with the metadata that could be set, after its body has been copied, or the
store is as it was. -/
lemma putStreamCalls_spec (env : StorageEnv) (s : Storage) (u : Upload) (io : PutCalls) :
    (∃ result, NotStored env result ∧ s.putStreamCalls env u io = (result, s)) ∨
      io.copy = none ∧
        ∃ md, writeObjAttrs io (u.md.set storedDigestMetaKey (storedDigest env u.body)) = some md ∧
          s.putStreamCalls env u io = (.stored, s.installWith env u md) := by
  rcases ht : s.openTemp u io (tempPath env u io) with e | t
  · simp only [putStreamCalls, ht]
    exact Or.inl ⟨_, notStored_failed e, rfl⟩
  have htemp := hasTemp_of_openTemp ht
  rcases hcopy : io.copy with _ | n
  swap
  · simp only [putStreamCalls, ht, hcopy, (htemp.writeBody _).removeFile]
    exact Or.inl ⟨_, notStored_failed .writeTemp, rfl⟩
  have hbody := htemp.writeBody u.body
  rcases putStreamCalls_of_ok ht hcopy with ⟨result, hresult, heq⟩ | heq <;> rw [heq]
  · rw [hbody.removeFile]
    exact Or.inl ⟨result, hresult, rfl⟩
  · rcases hbody.finishPut with ⟨e, hfailed⟩ | hstored
    · exact Or.inl ⟨_, notStored_failed e, hfailed⟩
    · exact Or.inr ⟨rfl, hstored⟩

/-- An upload that fails, or that succeeds without being stored, leaves the store as it was: no file
changes, none is left over, and the index and all memos are the same. -/
theorem failed_put_changes_nothing (env : StorageEnv) (s : Storage) (u : Upload) (io : PutCalls) :
    (∀ e, (s.putStreamCalls env u io).1 = .failed e → (s.putStreamCalls env u io).2 = s) ∧
      ((s.putStreamCalls env u io).1 = .unchanged → (s.putStreamCalls env u io).2 = s) := by
  rcases putStreamCalls_spec env s u io with ⟨result, -, hsame⟩ | ⟨-, md, -, hstored⟩
  · rw [hsame]
    exact ⟨fun _ _ => rfl, fun _ => rfl⟩
  · rw [hstored]
    exact ⟨nofun, nofun⟩

/-- The directory has to be made first, and the rename fails. -/
def renameFails : PutCalls where
  tempName := ascii "1"
  createTemp := .notExist
  mkdirAll := false
  createTempAgain := false
  copy := none
  sync := false
  close := false
  stat := false
  compareOpen := false
  readTemp := none
  readStored := none
  stamp := none
  setxattr := fun _ => .ok
  fields := []
  audit := true
  setOriginalKey := false
  rename := true

theorem failed_put_changes_nothing_renameFails :
    ((Storage.empty none).putStreamCalls plainEnv (smallUpload lowerKey) renameFails).1
        = .failed .rename ∧
      ((Storage.empty none).putStreamCalls plainEnv (smallUpload lowerKey) renameFails).2
        = .empty none := by
  have hfailed : ((Storage.empty none).putStreamCalls plainEnv (smallUpload lowerKey)
      renameFails).1 = .failed .rename := by
    decide +kernel
  exact ⟨hfailed, (failed_put_changes_nothing ..).1 _ hfailed⟩

/-! ## If no call fails -/

end Storage

/-- No call fails. -/
structure PutCalls.Faultless (io : PutCalls) : Prop where
  /-- The temporary file can be created, if need be after its directory. -/
  createTemp : io.createTemp = .created ∨
    io.createTemp = .notExist ∧ io.mkdirAll = false ∧ io.createTempAgain = false
  /-- The body can be copied. -/
  copy : io.copy = none
  /-- The temporary file can be synced and closed. -/
  flush : io.sync = false ∧ io.close = false
  /-- The files can be looked at and compared. -/
  compare : io.stat = false ∧ io.compareOpen = false ∧ io.readTemp = none ∧ io.readStored = none ∧
    io.stamp = none
  /-- The attributes fit. -/
  attrs : io.setxattr 0 = .ok ∧ io.setOriginalKey = false
  /-- The temporary file can be renamed. -/
  rename : io.rename = false

namespace Storage

/-- A directory differs from every body, but cannot be read. -/
lemma filesEqual_directory (body : Bytes) :
    filesEqual (fileReader body none) ⟨[], true⟩ = if body = [] then none else some false := by
  cases body with
  | nil => rfl
  | cons b body => simp [filesEqual, fileReader, Reader.equal, compareChunk]

section Faultless

variable {path : Bytes} {f : DiskFile} {s t : Storage} {env : StorageEnv} {u : Upload}
  {io : PutCalls}

/-- If no call fails, `write_once` does what it is to do. -/
lemma applyWriteOnce_eq (hio : io.Faultless) (htemp : HasTemp path f s t)
    (hne : path ≠ env.keyToPath u.key) :
    (t.applyWriteOnce env u io).map (·.outcome) = s.writeOnceVerdict env u := by
  obtain ⟨hstat, hopen, htempRead, hstored, hstamp⟩ := hio.compare
  unfold applyWriteOnce writeOnceVerdict
  rw [htemp.fileOf hne, htemp.isDirectory hne, hstat, hstored]
  cases env.writeOnce.action with
  | allow => rfl
  | deny =>
    simp only [Bool.false_eq_true, if_false, writeOnceOutcome, compareWithStored, hopen, htempRead,
      hstamp, Option.getD_none]
    cases s.fileOf env u.key with
    | some f =>
      cases env.writeOnce.notification with
      | always | never => rfl
      | contentDiffers =>
        simp only [filesEqual_fileReader]
        split_ifs <;> simp_all [PutResult.outcome]
    | none =>
      by_cases hdir : s.isDirectory env u = true
      · simp only [hdir, if_true]
        cases env.writeOnce.notification with
        | always | never => rfl
        | contentDiffers =>
          simp only [filesEqual_directory]
          split_ifs <;> rfl
      · simp [hdir]

lemma writeObjAttrs_eq (hio : io.Faultless) (md : Metadata) : writeObjAttrs io md = some md := by
  simp [writeObjAttrs, hio.attrs.1]

lemma exists_openTemp_eq_ok (hio : io.Faultless) (hfree : s.disk.find path = none) :
    ∃ t, s.openTemp u io path = .ok t := by
  rcases hio.createTemp with hcreate | ⟨hcreate, hmkdir, hagain⟩ <;>
    simp [openTemp, createTemp, *]

/-- A closed temporary file gets its attributes and is renamed into place. -/
lemma finishPut_eq (hio : io.Faultless) (htemp : HasTemp path (tempFile u path u.body) s t)
    (hne : path ≠ env.keyToPath u.key) :
    t.finishPut env u io path =
      if s.isDirectory env u then (.failed .rename, s) else (.stored, s.install env u) := by
  have hkey := htemp.describe env (u.md.set storedDigestMetaKey (storedDigest env u.body))
  simp only [Storage.finishPut, writeObjAttrs_eq hio, hio.attrs.2, Bool.false_eq_true,
    and_false, if_false, hio.rename, false_or, hkey.isDirectory hne, hkey.removeFile,
    hkey.renameFile]
  rfl

/-- If no call fails, the calls make up the upload. -/
theorem putStreamCalls_eq_putStream (hio : io.Faultless) (hrefused : u.refused = false)
    (hfree : s.disk.find (tempPath env u io) = none)
    (hne : tempPath env u io ≠ env.keyToPath u.key) :
    ((s.putStreamCalls env u io).1.outcome, (s.putStreamCalls env u io).2) = s.putStream env u := by
  obtain ⟨t, hopen⟩ : ∃ t, s.openTemp u io (tempPath env u io) = .ok t :=
    exists_openTemp_eq_ok hio hfree
  have htemp := (hasTemp_of_openTemp hopen).writeBody u.body
  simp only [putStreamCalls, putStream, hopen, hio.copy, hio.flush, hrefused, Bool.false_eq_true,
    and_false, if_false, finishPut_eq hio htemp hne, htemp.removeFile,
    ← applyWriteOnce_eq hio htemp hne]
  split_ifs
  · rfl
  all_goals cases (t.writeBody (tempPath env u io) u.body).applyWriteOnce env u io <;> rfl

end Faultless

end Storage

end GoBuildCache
