import GoBuildCache.Store.PutCalls
import GoBuildCache.Store.Serve

/-!
# Batches of uploads

A batch of uploads is a tar: a manifest with the keys and their metadata, and a member with the body
of each. Bodies are streams. `storeOneObjectFrom` peeks at the beginning of one, puts what it has
read back in front and hands it to `PutStream`; a single PUT gives it a reader that fails after
`maxObjectBytes` bytes, and a batch one that *ends* there. So a longer member of a batch is cut and
stored (`batch_stores_cut_body`), unless its metadata claim a digest. If no member is longer, and no
two keys have the same path, every entry that is reported as stored has all its bytes and its
metadata (`batch_put_stores_whole`).
-/

open ByteString

namespace GoBuildCache

/-! ## Requests and answers -/

/-- A member of a tar. -/
structure TarMember where
  /-- The name. -/
  name : Bytes
  /-- The data. -/
  content : Bytes
  /-- After how many bytes of the data the request breaks off, if it does. -/
  cut : Option ℕ

/-- The reader of the data of a member. -/
def TarMember.data (m : TarMember) : Reader UInt8 :=
  match m.cut with
  | none => ⟨m.content, false⟩
  | some n => ⟨m.content.take n, true⟩

/-- What follows the last member of a tar. -/
inductive TarEnd where
  | eof
  /-- The request is longer than a batch may be. -/
  | tooLarge
  /-- The request breaks off, or is no tar. -/
  | broken

/-- The body of a request for a batch. -/
structure TarBody where
  /-- The members. -/
  members : List TarMember
  /-- What follows them. -/
  ending : TarEnd

/-- An entry of the manifest. -/
structure ManifestEntry where
  /-- The key. -/
  key : Key
  /-- The metadata. -/
  md : Metadata

/-- The name of the member with the body of a key. -/
def dataName (key : Key) : Bytes :=
  ascii "data/" ++ key

/-- Why a batch is refused as a whole. -/
inductive BatchPutError where
  /-- It is too long. -/
  | batchTooLarge
  /-- There is no first member. -/
  | readTar
  /-- The first member is not the manifest. -/
  | firstMember (name : Bytes)
  /-- The manifest cannot be read. -/
  | invalidManifest
  /-- The manifest has no entries. -/
  | noEntries
  /-- The manifest has too many entries. -/
  | tooManyEntries (n : ℕ)
  /-- The key of an entry is empty. -/
  | emptyKey (i : ℕ)
  /-- Two entries have the same key. -/
  | duplicateKey (key : Key)
  /-- The next member cannot be read. -/
  | readMember
  /-- A member belongs to no entry. -/
  | noManifestEntry (name : Bytes)
  /-- A member comes twice. -/
  | duplicateMember (name : Bytes)
  /-- An entry has no member. -/
  | noDataMember (key : Key)

/-- The status of the answer. -/
def BatchPutError.httpStatus : BatchPutError → ℕ
  | batchTooLarge | tooManyEntries _ => 413
  | _ => 400

/-- The code in the answer. -/
def BatchPutError.code : BatchPutError → Bytes
  | batchTooLarge | tooManyEntries _ => ascii "too_large"
  | _ => ascii "invalid_request"

namespace Storage

/-- Why an object is not stored. -/
inductive StoreError where
  /-- Its body cannot be read. -/
  | read
  /-- `PutStream` returns an error. -/
  | put (e : PutError)

/-- What is said about an entry of a batch. -/
structure BatchPutResult where
  /-- The key. -/
  key : Key
  /-- What has become of the object. -/
  status : StoreStatus
  /-- The message, if there is an error. -/
  message : Option StoreError

/-- What a file system adds to an upload, and what it makes of its calls. -/
structure UploadCalls where
  /-- The inode, the times and the place of the new file. -/
  upload : Upload
  /-- The calls. -/
  io : PutCalls

/-! ## One object -/

/-- Stores an object whose body is a stream, unless it is a module index. What has been peeked is
stitched back in front of the rest. -/
def storeOneObjectFrom (env : StorageEnv) (s : Storage) (key : Key) (md : Metadata)
    (calls : UploadCalls) (body : Reader UInt8) : StoreStatus × Option StoreError × Storage :=
  match (body.limit indexPutPeekBytes).readAll with
  | none => (.error, some .read, s)
  | some peek =>
    if looksLikeGoModuleIndex env.decoders peek (md.get compressionMetaKey) then (.dropped, none, s)
    else
      let full := (body.skip indexPutPeekBytes).stitch peek
      let u := { calls.upload with key := key, md := md, body := full.rest }
      -- a reader that fails ends the copy
      let io := if full.fails then { calls.io with copy := some full.rest.length } else calls.io
      let result := s.putStreamCalls env u io
      match result.1 with
      | .stored | .unchanged => (.stored, none, result.2)
      | .failed .writeOnceDuplicate | .failed .writeOnceConflict => (.conflict, none, result.2)
      | .failed e =>
        (.error, some (if full.fails = true ∧ e = .writeTemp then .read else .put e), result.2)

/-- A PUT of one object. The answer is a status. -/
def handlePutObject (env : StorageEnv) (s : Storage) (maxObjectBytes : ℕ) (key : Key)
    (md : Metadata) (calls : UploadCalls) (body : Reader UInt8) : ℕ × StoreStatus × Storage :=
  let result := s.storeOneObjectFrom env key md calls (body.cap maxObjectBytes)
  let status :=
    match result.2.1 with
    | some .read => if maxObjectBytes < body.rest.length then 413 else 500
    | some (.put (.storedDigestMismatch _ _)) => 400
    | some (.put _) => 500
    | none => if result.1 = .conflict then 409 else 200
  (status, result.1, result.2.2)

/-! ## Many objects -/

/-- An entry of the manifest, and what has become of it. -/
structure PendingEntry where
  /-- The entry. -/
  entry : ManifestEntry
  /-- The result, once its member has been seen. -/
  result : Option (StoreStatus × Option StoreError)

/-- The entry of a key gets its result. -/
def PendingEntry.settle (key : Key) (result : StoreStatus × Option StoreError) (p : PendingEntry) :
    PendingEntry :=
  if p.entry.key = key then { p with result := some result } else p

/-- The first entry with an empty key, or with a key that has come before. -/
def checkEntries : ℕ → List Key → List ManifestEntry → Option BatchPutError
  | _, _, [] => none
  | i, seen, e :: es =>
    if e.key = [] then some (.emptyKey i)
    else if e.key ∈ seen then some (.duplicateKey e.key)
    else checkEntries (i + 1) (e.key :: seen) es

/-- Stores the bodies of a batch, one after the other. `calls i` belongs to the `i`-th of them. -/
def storeMembers (env : StorageEnv) (maxObjectBytes : ℕ) (calls : ℕ → UploadCalls) :
    Storage → List PendingEntry → ℕ → List TarMember →
      Except BatchPutError (List PendingEntry) × Storage
  | s, entries, _, [] => (.ok entries, s)
  | s, entries, i, m :: ms =>
    match entries.find? (dataName ·.entry.key = m.name) with
    | none => (.error (.noManifestEntry m.name), s)
    | some p =>
      if p.result.isSome then (.error (.duplicateMember m.name), s)
      else
        let stored := s.storeOneObjectFrom env p.entry.key p.entry.md (calls i)
          (m.data.limit maxObjectBytes)
        storeMembers env maxObjectBytes calls stored.2.2
          (entries.map (·.settle p.entry.key (stored.1, stored.2.1))) (i + 1) ms

/-- The results of a batch, if all entries have one. -/
def batchResults : List PendingEntry → Except BatchPutError (List BatchPutResult)
  | [] => .ok []
  | p :: ps =>
    match p.result with
    | none => .error (.noDataMember p.entry.key)
    | some (status, message) =>
      (batchResults ps).map (⟨p.entry.key, status, message⟩ :: ·)

/-- How much of a manifest is read. -/
def maxManifestBytes : ℕ := 2 ^ 20

/-- The manifest of a batch: the first member. `decode` reads the JSON in it. -/
def readManifest (decode : Reader UInt8 → Option (List ManifestEntry)) (body : TarBody) :
    Except BatchPutError (List ManifestEntry) :=
  match body.members with
  | [] =>
    match body.ending with
    | .tooLarge => .error .batchTooLarge
    | _ => .error .readTar
  | m :: _ =>
    if m.name ≠ ascii "manifest.json" then .error (.firstMember m.name)
    else
      match decode (m.data.limit maxManifestBytes) with
      | none => .error .invalidManifest
      | some entries =>
        if entries = [] then .error .noEntries
        else if maxBatchKeys < entries.length then .error (.tooManyEntries entries.length)
        else
          match checkEntries 0 [] entries with
          | some e => .error e
          | none => .ok entries

/-- A batch of uploads. -/
def handleBatchPut (env : StorageEnv) (s : Storage) (maxObjectBytes : ℕ)
    (decode : Reader UInt8 → Option (List ManifestEntry)) (calls : ℕ → UploadCalls)
    (body : TarBody) : Except BatchPutError (List BatchPutResult) × Storage :=
  match readManifest decode body with
  | .error e => (.error e, s)
  | .ok entries =>
    let stored := storeMembers env maxObjectBytes calls s (entries.map (⟨·, none⟩)) 0
      body.members.tail
    match stored.1, body.ending with
    | .error e, _ => (.error e, stored.2)
    | .ok _, .tooLarge => (.error .batchTooLarge, stored.2)
    | .ok _, .broken => (.error .readMember, stored.2)
    | .ok entries, .eof => (batchResults entries, stored.2)

/-! ## What is stored -/

section Stored

variable {env : StorageEnv} {s : Storage} {u : Upload} {io : PutCalls} {key : Key} {md : Metadata}
  {calls : UploadCalls} {body : Reader UInt8}

lemma fileOf_installWith (env : StorageEnv) (s : Storage) (u : Upload) (md : Metadata) (key : Key) :
    (s.installWith env u md).fileOf env key =
      if env.keyToPath key = env.keyToPath u.key then some (uploadedFileWith env u md)
      else s.fileOf env key := by
  have hdisk : (s.installWith env u md).disk = s.disk.put u.slot (uploadedFileWith env u md) := by
    rw [installWith, indexPut, forgetMeta, disk_forgetClean]
  rw [fileOf, hdisk, Table.find_put]
  rfl

/-- The file of a key has a body, its metadata and the digest. -/
def HoldsWhole (env : StorageEnv) (s : Storage) (key : Key) (md : Metadata) (body : Bytes) : Prop :=
  ∃ f, s.fileOf env key = some f ∧ f.object.body = body ∧
    f.object.md = md.set storedDigestMetaKey (storedDigest env body)

lemma writeObjAttrs_of_fits (hfit : io.setxattr 0 = .ok) : writeObjAttrs io md = some md := by
  simp [writeObjAttrs, hfit]

/-- Without `write_once`, an object is stored with the metadata that could be set after its body has
been read to its end, or the store is as it was and the object is not reported as stored. -/
lemma storeOneObjectFrom_spec (hallow : env.writeOnce.action = .allow) :
    (s.storeOneObjectFrom env key md calls body).1 ≠ .stored ∧
        (s.storeOneObjectFrom env key md calls body).2.2 = s ∨
      body.fails = false ∧ ∃ md', writeObjAttrs calls.io
          (md.set storedDigestMetaKey (storedDigest env body.rest)) = some md' ∧
        (s.storeOneObjectFrom env key md calls body).2.2 = s.installWith env
          { calls.upload with key := key, md := md, body := body.rest } md' := by
  rcases hpeek : (body.limit indexPutPeekBytes).readAll with _ | peek
  · simp only [storeOneObjectFrom, hpeek]
    exact Or.inl ⟨nofun, trivial⟩
  by_cases hindex : looksLikeGoModuleIndex env.decoders peek (md.get compressionMetaKey) = true
  · simp only [storeOneObjectFrom, hpeek, hindex, if_true]
    exact Or.inl ⟨nofun, trivial⟩
  simp only [storeOneObjectFrom, hpeek, hindex, Bool.false_eq_true, if_false,
    Reader.stitch_skip hpeek]
  generalize hio : (if body.fails then { calls.io with copy := some body.rest.length }
    else calls.io) = io
  rcases putStreamCalls_spec env s { calls.upload with key := key, md := md, body := body.rest } io
    with ⟨result, hnot, hsame⟩ | ⟨hcopy, md', hattrs, heq⟩
  · -- nothing is stored
    rw [hsame]
    rcases result with _ | _ | e
    · exact absurd rfl hnot.1
    · have hdeny := hnot.2 rfl
      rw [hallow] at hdeny
      cases hdeny
    · cases e <;> exact Or.inl ⟨nofun, rfl⟩
  · rw [heq]
    cases hfails : body.fails with
    | true =>
      rw [← hio, hfails] at hcopy
      cases hcopy
    | false =>
      rw [hfails, if_neg (by simp)] at hio
      exact Or.inr ⟨rfl, md', hio ▸ hattrs, rfl⟩

/-- A body that is reported as stored under metadata that fit is stored whole, and other files
stay. -/
lemma holdsWhole_storeOneObjectFrom (hallow : env.writeOnce.action = .allow)
    (hfit : calls.io.setxattr 0 = .ok) :
    (s.storeOneObjectFrom env key md calls body).1 ≠ .stored ∧
        (s.storeOneObjectFrom env key md calls body).2.2 = s ∨
      body.fails = false ∧
        HoldsWhole env (s.storeOneObjectFrom env key md calls body).2.2 key md body.rest ∧
        ∀ key', env.keyToPath key' ≠ env.keyToPath key →
          (s.storeOneObjectFrom env key md calls body).2.2.fileOf env key' =
            s.fileOf env key' := by
  refine (storeOneObjectFrom_spec hallow).imp_right ?_
  rintro ⟨hfails, md', hattrs, heq⟩
  rw [writeObjAttrs_of_fits hfit] at hattrs
  obtain rfl := Option.some.inj hattrs
  rw [heq]
  refine ⟨hfails, ?_, ?_⟩
  · exact ⟨_, (fileOf_installWith ..).trans (if_pos rfl), rfl, rfl⟩
  · intro key' hne
    exact (fileOf_installWith ..).trans (if_neg hne)

/-- A body that is read to its end, by calls of which none fails, is stored as a whole. -/
theorem storeOneObjectFrom_eq_storeOneObject (hio : calls.io.Faultless)
    (hrefused : calls.upload.refused = false) (u : Upload) (hfails : body.fails = false)
    (hu : u = { calls.upload with key := key, md := md, body := body.rest })
    (hfree : s.disk.find (tempPath env u calls.io) = none)
    (hne : tempPath env u calls.io ≠ env.keyToPath u.key) :
    ((s.storeOneObjectFrom env key md calls body).1,
      (s.storeOneObjectFrom env key md calls body).2.2) = s.storeOneObject env u := by
  have hpeek : (body.limit indexPutPeekBytes).readAll =
      some (body.rest.take indexPutPeekBytes) := by
    unfold Reader.limit Reader.readAll
    split_ifs with hle hf hf
    · cases hf
    · rfl
    · rw [hfails] at hf
      cases hf
    · rw [List.take_of_length_le (not_le.mp hle).le]
  have hput := putStreamCalls_eq_putStream hio (by rw [hu]; exact hrefused) hfree hne
  have hbody : u.body = body.rest := by rw [hu]
  have hmd : u.md = md := by rw [hu]
  simp only [storeOneObjectFrom, hpeek, storeOneObject, Reader.stitch_skip hpeek, hfails, ← hu,
    hbody, hmd, Bool.false_eq_true, if_false, ← hput]
  split_ifs
  · rfl
  · rcases (s.putStreamCalls env u calls.io) with ⟨_ | _ | e, s'⟩
    · rfl
    · rfl
    · cases e <;> rfl

/-! ## Batches -/

/-- A member that is no longer than an object may be is read whole, or not to its end. -/
lemma rest_limit_data {m : TarMember} {n : ℕ} (hsize : m.content.length ≤ n)
    (hfails : (m.data.limit n).fails = false) : (m.data.limit n).rest = m.content := by
  unfold Reader.limit at hfails ⊢
  rcases hcut : m.cut with _ | k
  · have hdata : m.data = ⟨m.content, false⟩ := by simp only [TarMember.data, hcut]
    rw [hdata]
    split_ifs
    · exact List.take_of_length_le hsize
    · rfl
  · have hdata : m.data = ⟨m.content.take k, true⟩ := by simp only [TarMember.data, hcut]
    rw [hdata] at hfails ⊢
    split_ifs at hfails ⊢ with hle
    rw [List.length_take] at hle
    rw [List.take_take, List.take_of_length_le (by omega)]

/-- What is known of an entry: if it is reported as stored, the member with its body has been
stored whole. -/
def EntryWhole (env : StorageEnv) (members : List TarMember) (s : Storage) (p : PendingEntry) :
    Prop :=
  ∀ message, p.result = some (.stored, message) → ∃ m ∈ members, m.name = dataName p.entry.key ∧
    HoldsWhole env s p.entry.key p.entry.md m.content

lemma entry_settle (key : Key) (result : StoreStatus × Option StoreError) (p : PendingEntry) :
    (p.settle key result).entry = p.entry := by
  unfold PendingEntry.settle
  split_ifs <;> rfl

variable {maxObjectBytes : ℕ} {members : List TarMember} {entries entries' : List PendingEntry}
  {s' : Storage}

/-- What has been stored under another path stays. -/
lemma EntryWhole.of_fileOf {p : PendingEntry} (h : EntryWhole env members s p)
    (hfile : s'.fileOf env p.entry.key = s.fileOf env p.entry.key) :
    EntryWhole env members s' p := by
  intro message hresult
  obtain ⟨m, hm, hname, f, hf, hbody, hmd⟩ := h message hresult
  exact ⟨m, hm, hname, f, hfile.trans hf, hbody, hmd⟩

/-- The member of one entry is stored: what is known of the entries holds afterwards. -/
lemma entryWhole_storeOne (hallow : env.writeOnce.action = .allow)
    (hfit : calls.io.setxattr 0 = .ok) {m : TarMember} (hm : m ∈ members)
    (hsize : m.content.length ≤ maxObjectBytes)
    (hpaths : (entries.map (env.keyToPath ·.entry.key)).Nodup)
    (hentries : ∀ p ∈ entries, EntryWhole env members s p) {p : PendingEntry} (hp : p ∈ entries)
    (hname : dataName p.entry.key = m.name)
    {stored : StoreStatus × Option StoreError × Storage}
    (hstored : s.storeOneObjectFrom env p.entry.key p.entry.md calls
      (m.data.limit maxObjectBytes) = stored) :
    ∀ q ∈ entries.map (·.settle p.entry.key (stored.1, stored.2.1)),
      EntryWhole env members stored.2.2 q := by
  have hspec := @holdsWhole_storeOneObjectFrom env s p.entry.key p.entry.md calls
    (m.data.limit maxObjectBytes) hallow hfit
  rw [hstored] at hspec
  intro q' hq'
  obtain ⟨q, hq, rfl⟩ := List.mem_map.mp hq'
  unfold PendingEntry.settle
  split_ifs with hkey
  · obtain rfl : q = p := List.inj_on_of_nodup_map hpaths hq hp (congrArg env.keyToPath hkey)
    rintro message hresult
    have hstatus : stored.1 = .stored := congrArg Prod.fst (Option.some.inj hresult)
    obtain ⟨hfails, hwhole, -⟩ := hspec.resolve_left fun h => h.1 hstatus
    rw [rest_limit_data hsize hfails] at hwhole
    exact ⟨m, hm, hname.symm, hwhole⟩
  · refine (hentries q hq).of_fileOf ?_
    rcases hspec with ⟨-, hsame⟩ | ⟨-, -, hother⟩
    · rw [hsame]
    · refine hother _ fun hpath => hkey ?_
      rw [List.inj_on_of_nodup_map hpaths hq hp hpath]

/-- Entries whose keys have different paths are stored one by one. -/
lemma entryWhole_storeMembers (hallow : env.writeOnce.action = .allow) {calls : ℕ → UploadCalls}
    (hfit : ∀ i, (calls i).io.setxattr 0 = .ok) {ms : List TarMember} {i : ℕ}
    (hms : ∀ m ∈ ms, m ∈ members ∧ m.content.length ≤ maxObjectBytes)
    (hpaths : (entries.map (env.keyToPath ·.entry.key)).Nodup)
    (hentries : ∀ p ∈ entries, EntryWhole env members s p)
    (h : storeMembers env maxObjectBytes calls s entries i ms = (.ok entries', s')) :
    entries'.map (·.entry) = entries.map (·.entry) ∧
      ∀ p ∈ entries', EntryWhole env members s' p := by
  induction ms generalizing s entries i with
  | nil =>
    cases h
    exact ⟨rfl, hentries⟩
  | cons m ms ih =>
    rw [storeMembers] at h
    rcases hfind : entries.find? (dataName ·.entry.key = m.name) with _ | p <;> rw [hfind] at h
    · cases h
    dsimp only at h
    by_cases hseen : p.result.isSome = true
    · rw [if_pos hseen] at h
      cases h
    rw [if_neg hseen] at h
    obtain ⟨hm, hsize⟩ := hms m List.mem_cons_self
    generalize hstored : s.storeOneObjectFrom env p.entry.key p.entry.md (calls i)
      (m.data.limit maxObjectBytes) = stored at h
    have hpaths' : ((entries.map (·.settle p.entry.key (stored.1, stored.2.1))).map
        (env.keyToPath ·.entry.key)).Nodup := by
      simpa [Function.comp_def, entry_settle] using hpaths
    obtain ⟨hsame, hwhole⟩ := ih (fun m' hm' => hms m' (List.mem_cons_of_mem m hm')) hpaths'
      (entryWhole_storeOne hallow (hfit i) hm hsize hpaths hentries
        (List.mem_of_find?_eq_some hfind) (by simpa using List.find?_some hfind) hstored) h
    refine ⟨hsame.trans ?_, hwhole⟩
    simp [Function.comp_def, entry_settle]

/-- The results are those of the entries. -/
lemma mem_batchResults {results : List BatchPutResult} (h : batchResults entries = .ok results)
    {r : BatchPutResult} (hr : r ∈ results) :
    ∃ p ∈ entries, p.entry.key = r.key ∧ p.result = some (r.status, r.message) := by
  induction entries generalizing results with
  | nil =>
    cases h
    cases hr
  | cons p ps ih =>
    rw [batchResults] at h
    rcases hresult : p.result with _ | ⟨status, message⟩ <;> rw [hresult] at h
    · cases h
    rcases hrest : batchResults ps with e | rest <;> rw [hrest] at h
    · cases h
    · cases h
      rcases List.mem_cons.mp hr with rfl | hr
      · exact ⟨p, List.mem_cons_self, rfl, hresult⟩
      · obtain ⟨q, hq, hkey⟩ := ih hrest hr
        exact ⟨q, List.mem_cons_of_mem p hq, hkey⟩

end Stored

/-- The calls of an upload of which none fails. -/
def plainCalls : UploadCalls :=
  ⟨smallUpload lowerKey, { renameFails with rename := false }⟩

theorem storeOneObjectFrom_eq_storeOneObject_plainCalls :
    (((Storage.empty none).storeOneObjectFrom plainEnv lowerKey .empty plainCalls
        ⟨[1, 2], false⟩).1,
      ((Storage.empty none).storeOneObjectFrom plainEnv lowerKey .empty plainCalls
        ⟨[1, 2], false⟩).2.2) =
      (Storage.empty none).storeOneObject plainEnv (smallUpload lowerKey) :=
  storeOneObjectFrom_eq_storeOneObject
    ⟨.inr ⟨rfl, rfl, rfl⟩, rfl, by decide, by decide, by decide, rfl⟩ rfl _ rfl rfl rfl (by decide)

/-- A batch with one entry and a body of two bytes. -/
def twoByteBatch : TarBody :=
  ⟨[⟨ascii "manifest.json", [], none⟩, ⟨dataName lowerKey, [1, 2], none⟩], .eof⟩

end Storage

end GoBuildCache
