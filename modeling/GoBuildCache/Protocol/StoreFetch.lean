import GoBuildCache.Client.Batch
import GoBuildCache.Client.Uploads
import GoBuildCache.Foundation.Columns
import GoBuildCache.Store.ReadAgree
import GoBuildCache.Store.ReadGuard

/-!
# From one client to another

A client compresses an output and uploads it with its metadata (`uploadMetadata`). The server keeps
both in a file, and goes through its guards before it sends them to anybody, over a GET or in a
batch. The client that has asked reads the metadata off the answer, and goes through gates of its
own before it takes the output.

The programs agree: as long as the object is not replaced, deleted or evicted, whatever else the
server does meanwhile, a client that asks for the action gets the output that was uploaded
(`stored_output_is_fetched`).
-/

open ByteString Transition

namespace GoBuildCache

/-- The field with the action id. -/
def actionIDMetaKey : Bytes := ascii "action-id"

/-- The field with the size of the output. -/
def bodySizeMetaKey : Bytes := ascii "body-size"

/-- The body of an upload, which may be in a file. -/
def PendingPut.body (p : PendingPut) (file : Option Bytes) : Option Bytes :=
  if p.data = [] ∧ p.path ≠ [] then file else some p.data

/-- The metadata of an upload. `description` has the fields that describe the object to people. -/
def uploadMetadata (sha256 : Sha256) (description : Metadata)
    (actionID outputID data compressed : Bytes) : Metadata :=
  ((((description.set outputIDMetaKey outputID).set actionIDMetaKey actionID).set
    storedDigestMetaKey (hexEncode (sha256 compressed).bytes)).set
      bodySizeMetaKey (decimal data.length)).set compressionMetaKey (ascii "zstd")

namespace Storage

/-- The size of the output, as a client reads it from the metadata. -/
def SentObject.rawSize (o : SentObject) : ℤ :=
  (atoi (o.md.get bodySizeMetaKey)).getD 0

/-- The answer to a GET, as a client reads it. -/
def SentObject.answer (o : SentObject) : GetAnswer :=
  .response 200 (o.md.get outputIDMetaKey) (o.md.get outputIDMetaKey) (o.md.get actionIDMetaKey)
    o.rawSize (some o.body)

/-- An entry of a batch, as a client reads it. -/
def SentObject.entry (o : SentObject) : GoBuildCache.BatchEntry :=
  ⟨o.key, o.md.get outputIDMetaKey, o.md.get actionIDMetaKey, o.body, o.rawSize⟩

/-! ## The object in the store -/

/-- The object is in place under the key, and nothing else is cached for it. -/
structure Stands (env : StorageEnv) (key : Key) (o : StoredObject) (s : Storage) : Prop where
  /-- The file. -/
  file : ∃ f, s.fileOf env key = some f ∧ f.object = o
  /-- The cached metadata. -/
  cached : ∀ e, s.metaCache key = some e → e.info = o.info → e.md = o.md

/-- A key that has the path of `key` is `key`. -/
def Clear (env : StorageEnv) (key k : Key) : Prop :=
  env.keyToPath k = env.keyToPath key → k = key

instance (env : StorageEnv) (key k : Key) : Decidable (Clear env key k) :=
  inferInstanceAs (Decidable (_ → _))

section Steps

variable {env : StorageEnv} {key k : Key} {o : StoredObject} {s s' : Storage} {f : DiskFile}
  {md : Metadata}

/-- The file is not touched, and nothing is cached for it. -/
lemma Stands.of_frame (hs : Stands env key o s) (hfile : s'.fileOf env key = s.fileOf env key)
    (hcached : ∀ e, s'.metaCache key = some e → s.metaCache key = some e) :
    Stands env key o s' where
  file := hfile ▸ hs.file
  cached e he := hs.cached e (hcached e he)

lemma Stands.object_eq (hs : Stands env key o s) (hf : s.fileOf env key = some f) :
    f.object = o := by
  obtain ⟨g, hg, rfl⟩ := hs.file
  rw [Option.some.inj (hf.symm.trans hg)]

lemma Stands.absurd_of_none (hs : Stands env key o s) (hf : s.fileOf env k = none) {P : Prop}
    (hkey : k = key) : P := by
  obtain ⟨g, hg, -⟩ := hs.file
  cases (hkey ▸ hf).symm.trans hg

lemma Stands.delete (hs : Stands env key o s) (hpath : env.keyToPath k ≠ env.keyToPath key) :
    Stands env key o (s.delete env k) := by
  refine hs.of_frame ?_ fun e he => (shrinks_delete env s k).cached key e he
  rcases hf : s.fileOf env k with _ | f
  · rw [Storage.delete, hf]
  · obtain ⟨accessShards, digestOK, hdelete⟩ := delete_eq hf
    rw [hdelete, fileOf, Table.find_erase, if_neg (Ne.symm hpath)]
    rfl

/-- An object that has not passed a check is deleted, and it is another object. -/
lemma Stands.delete_of_bad (hs : Stands env key o s) (hclear : Clear env key k) {ok : Bool}
    (hpass : k = key → ok = true) (hbad : (!ok) = true) {P : Prop} :
    Stands env key o (s.delete env k) ∧ (k = key → P) := by
  have hother : k ≠ key := by
    intro hkey
    rw [hpass hkey] at hbad
    cases hbad
  exact ⟨hs.delete fun hpath => hother (hclear hpath), fun hkey => absurd hkey hother⟩

/-- The metadata that is loaded for the object is its own. -/
lemma Stands.loadMetadata (hs : Stands env key o s) (hf : s.fileOf env k = some f) :
    Stands env key o (s.loadMetadata k f).2 ∧
      (k = key → f.object = o ∧ (s.loadMetadata k f).1 = o.md) := by
  rcases s.loadMetadata_cases k f with ⟨e, he, hinfo, hload⟩ | hload <;> rw [hload]
  · refine ⟨hs, ?_⟩
    rintro rfl
    have hobject := hs.object_eq hf
    rw [hobject] at hinfo
    exact ⟨hobject, hs.cached e he hinfo⟩
  · refine ⟨⟨hs.file, ?_⟩, ?_⟩
    · intro e he hinfo
      simp only [Function.update_apply] at he
      split_ifs at he with hkey
      · subst hkey
        rw [← Option.some.inj he, hs.object_eq hf]
      · exact hs.cached e he hinfo
    · rintro rfl
      rw [hs.object_eq hf]
      exact ⟨rfl, rfl⟩

/-- The check of the digest lets the object pass. -/
lemma Stands.verifyStoredDigestFor (hs : Stands env key o s) (hintact : o.Intact env.sha256)
    (hown : k = key → f.object = o ∧ md = o.md) :
    Stands env key o (s.verifyStoredDigestFor env k f md).2 ∧
      (k = key → (s.verifyStoredDigestFor env k f md).1 = true) := by
  obtain ⟨digestOK, hverify⟩ := verifyStoredDigestFor_eq env s k f md
  rw [hverify]
  refine ⟨hs.of_frame rfl fun _ => id, ?_⟩
  intro hkey
  obtain ⟨hobject, hmd⟩ := hown hkey
  have hself : StoredObject.Describes env.sha256 env.decoders o.md o := Or.inl rfl
  dsimp only
  rw [hobject, hmd, hself.bodyMatchesStoredDigest hintact, Bool.or_true]

variable (hclear : Clear env key k)

include hclear

/-- The guard of module indexes lets the object pass. -/
lemma Stands.evictModuleIndexOnRead (hs : Stands env key o s)
    (hindex : o.isModuleIndex env.decoders = false)
    (hown : k = key → f.object = o ∧ md = o.md) :
    Stands env key o (s.evictModuleIndexOnRead env k f md).2 ∧
      (k = key → (s.evictModuleIndexOnRead env k f md).1 = true) := by
  have hpass : k = key → (s.evictModuleIndexOnRead env k f md).1 = true := by
    intro hkey
    obtain ⟨hobject, hmd⟩ := hown hkey
    unfold Storage.evictModuleIndexOnRead
    rw [hobject, hmd]
    split
    · rfl
    · split_ifs with hclean hbad
      · rfl
      · exact absurd hbad (Bool.eq_false_iff.mp hindex)
      · rfl
  refine ⟨?_, hpass⟩
  rcases evictModuleIndexOnRead_cases env s k f md with ⟨cleanKeys, hguard⟩ | hguard
  · rw [hguard]
    exact hs.of_frame rfl fun _ => id
  · rw [hguard] at hpass ⊢
    exact hs.delete fun hpath => Bool.false_ne_true (hpass (hclear hpath))

/-- The object needs no repair. -/
lemma Stands.ensureOutputID (hs : Stands env key o s) (houtput : o.md.get outputIDMetaKey ≠ [])
    (hmd : k = key → md = o.md) (file : Option DiskFile) :
    Stands env key o (s.ensureOutputID env k md file).2 ∧
      (k = key → (s.ensureOutputID env k md file).1 = some o.md) := by
  by_cases hkey : k = key
  · rw [Storage.ensureOutputID, hmd hkey, if_pos (Or.inl houtput)]
    exact ⟨hs, fun _ => rfl⟩
  · refine ⟨hs.of_frame ?_ fun e he => (shrinks_ensureOutputID k md file).cached key e he,
      fun hkey' => absurd hkey' hkey⟩
    have hpath : env.keyToPath key ≠ env.keyToPath k := fun hpath => hkey (hclear hpath.symm)
    unfold Storage.ensureOutputID
    split_ifs
    · rfl
    · dsimp only
      split
      · rfl
      · change (s.setMetadata env k _ _).disk.find (env.keyToPath key) = _
        rw [Storage.setMetadata, Table.find_modify, if_neg hpath]
        rfl

/-- A GET of the object sends it. -/
lemma Stands.get (hs : Stands env key o s) (hsound : o.Sound env.sha256 env.decoders)
    (houtput : o.md.get outputIDMetaKey ≠ []) (now : ℤ) :
    Stands env key o (s.get env k now).2 ∧
      (k = key → (s.get env k now).1 = some ⟨key, o.body, o.md⟩) := by
  rcases hf : s.fileOf env k with _ | f
  · rw [Storage.get, hf]
    exact ⟨hs, hs.absurd_of_none hf⟩
  · obtain ⟨hload, hown⟩ := hs.loadMetadata hf
    have hrecord : Stands env key o ((s.loadMetadata k f).2.recordAccess k now) :=
      hload.of_frame rfl fun _ => id
    obtain ⟨hguard, hclean⟩ := hrecord.evictModuleIndexOnRead hclear hsound.2 hown
    obtain ⟨hverify, hmatches⟩ := hguard.verifyStoredDigestFor hsound.1 hown
    obtain ⟨hheal, hhealed⟩ := hverify.ensureOutputID hclear houtput (fun hkey => (hown hkey).2)
      (some f)
    simp only [Storage.get, hf]
    split_ifs with hindex hbad
    · refine ⟨hguard, fun hkey => ?_⟩
      rw [hclean hkey] at hindex
      cases hindex
    · exact hverify.delete_of_bad hclear hmatches hbad
    · refine ⟨hheal, fun hkey => ?_⟩
      rw [hhealed hkey, (hown hkey).1, hkey]
      rfl

/-- A batch keeps an entry for the object. -/
lemma Stands.servableEntry (hs : Stands env key o s) (hsound : o.Sound env.sha256 env.decoders)
    (houtput : o.md.get outputIDMetaKey ≠ []) :
    Stands env key o (s.servableEntry env k).2 ∧
      (k = key → (s.servableEntry env k).1 = some ⟨key, o.md, o.modNano⟩) := by
  rcases hf : s.fileOf env k with _ | f
  · rw [Storage.servableEntry, hf]
    exact ⟨hs, hs.absurd_of_none hf⟩
  · obtain ⟨hload, hown⟩ := hs.loadMetadata hf
    obtain ⟨metaCache, hframe⟩ := s.loadMetadata_frame k f
    have hf' : (s.loadMetadata k f).2.fileOf env k = some f := by
      rw [hframe]
      exact hf
    obtain ⟨hguard, hclean⟩ := hload.evictModuleIndexOnRead hclear hsound.2 hown
    obtain ⟨hheal, hhealed⟩ := hguard.ensureOutputID hclear houtput (fun hkey => (hown hkey).2) none
    simp only [Storage.servableEntry, hf, evictModuleIndexOnReadByKey, hf']
    split_ifs with hindex
    · refine ⟨hguard, fun hkey => ?_⟩
      rw [hclean hkey] at hindex
      cases hindex
    · refine ⟨hheal, fun hkey => ?_⟩
      rw [hhealed hkey, (hown hkey).1, hkey]
      rfl

omit hclear in
/-- The entry of the object is opened. -/
lemma Stands.openVerifiedEntry (hs : Stands env key o s) (hintact : o.Intact env.sha256)
    {e : BatchEntry} (hclear : Clear env key e.key) (hmd : e.key = key → e.md = o.md) (now : ℤ) :
    Stands env key o (openVerifiedEntry env now s e).2 ∧
      (e.key = key → (openVerifiedEntry env now s e).1 = some ⟨key, o.body, o.md⟩) := by
  rcases hf : s.fileOf env e.key with _ | f
  · rw [Storage.openVerifiedEntry, hf]
    exact ⟨hs, hs.absurd_of_none hf⟩
  · have hown : e.key = key → f.object = o ∧ e.md = o.md := fun hkey =>
      ⟨hs.object_eq (hkey ▸ hf), hmd hkey⟩
    have hrecord : Stands env key o (s.recordAccess e.key now) := hs.of_frame rfl fun _ => id
    obtain ⟨hverify, hmatches⟩ := hrecord.verifyStoredDigestFor hintact hown
    simp only [Storage.openVerifiedEntry, hf]
    split_ifs with hbad
    · exact hverify.delete_of_bad hclear hmatches hbad
    · refine ⟨hverify, fun hkey => ?_⟩
      rw [(hown hkey).1, hmd hkey, hkey]

omit hclear in
lemma Stands.handleBatchGet (hs : Stands env key o s) (hsound : o.Sound env.sha256 env.decoders)
    (houtput : o.md.get outputIDMetaKey ≠ []) {prefetchEnabled : Bool} {req : BatchGetRequest}
    (hkeys : ∀ k ∈ req.keys, Clear env key k)
    (hfresh : ∀ fresh ∈ (s.batchLookup env prefetchEnabled req).2.1, ∀ k ∈ fresh, Clear env key k)
    (now : ℤ) : Stands env key o (s.handleBatchGet env prefetchEnabled req now).2 := by
  have hservable : WorkRule (Stands env key o) (fun _ _ => True) (Storage.servableEntry env)
      (fun _ => Clear env key)
      fun _ e => Clear env key e.key ∧ (e.key = key → e.md = o.md) := by
    intro s k hs hclear
    obtain ⟨hs', hentry⟩ := hs.servableEntry hclear hsound houtput
    refine ⟨hs', trivial, ?_⟩
    intro e he
    obtain rfl := key_of_servableEntry he
    refine ⟨hclear, fun hkey => ?_⟩
    rw [Option.some.inj (he.symm.trans (hentry hkey))]
  have hopen : WorkRule (Stands env key o) (fun _ _ => True) (Storage.openVerifiedEntry env now)
      (fun _ e => Clear env key e.key ∧ (e.key = key → e.md = o.md)) fun _ _ => True :=
    fun s e hs he =>
      ⟨(hs.openVerifiedEntry hsound.1 he.1 he.2 now).1, trivial, fun _ _ => trivial⟩
  exact (handleBatchGet_rule (fun _ => trivial) (fun _ _ _ _ _ => trivial) (fun _ _ _ _ => id)
    hservable hopen (fun _ _ _ _ hs => ⟨hs.of_frame rfl fun _ => id, trivial⟩) hs hkeys hfresh).1

omit hclear in
/-- A sweep that leaves the file in its place leaves it as it is. -/
lemma Stands.evict (hs : Stands env key o s) (haddr : ∀ f ∈ s.disk.rows, Addressed env f)
    {maxAge : Duration} {maxBytes now : ℤ}
    (hthere : ((s.evict env maxAge maxBytes now).2.fileOf env key).isSome = true) :
    Stands env key o (s.evict env maxAge maxBytes now).2 := by
  have hrows : ∀ f ∈ (s.evict env maxAge maxBytes now).2.disk.rows, f ∈ s.disk.rows := by
    by_cases hcut : 0 < s.evictCutoff env maxAge maxBytes now
    · rw [(evict_spec haddr maxAge maxBytes now hcut).1]
      exact fun f hf => List.mem_of_mem_filter hf
    · rw [(evict_of_cutoff_nonpos hcut).1]
      exact fun f hf => hf
  obtain ⟨f, hf⟩ := Option.isSome_iff_exists.mp hthere
  obtain ⟨hrow, hpath⟩ := Table.find_eq_some_iff.mp hf
  refine hs.of_frame ?_ fun e he => (shrinks_evict env s maxAge maxBytes now).cached key e he
  rw [hf, fileOf, Table.find_eq_some_iff.mpr ⟨hrows f hrow, hpath⟩]

omit hclear in
/-- An upload under another path. -/
lemma Stands.install (hs : Stands env key o s) {u : Upload}
    (hpath : env.keyToPath u.key ≠ env.keyToPath key) : Stands env key o (s.install env u) := by
  refine hs.of_frame ?_ fun e he => ?_
  · rw [fileOf, disk_install, Table.find_put]
    exact if_neg (Ne.symm hpath)
  · obtain ⟨digestOK, hclean⟩ :=
      forgetClean_eq { s with disk := s.disk.put u.slot (uploadedFile env u) } u.key
    rw [Storage.install, hclean] at he
    exact (shrinks_forgetMeta s u.key).cached key e he

end Steps

section Upload

variable {env : StorageEnv} {s : Storage} {u : Upload}

/-- An object that has been stored is in place. -/
lemma stands_install (env : StorageEnv) (s : Storage) (u : Upload) :
    Stands env u.key (uploadedFile env u).object (s.install env u) := by
  refine ⟨⟨uploadedFile env u, ?_, rfl⟩, fun e he => ?_⟩
  · rw [fileOf, disk_install, Table.find_put]
    exact if_pos rfl
  · have hnone : (s.install env u).metaCache u.key = none := Function.update_self ..
    rw [hnone] at he
    cases he

/-- An upload that is answered with success is stored, if it may replace what is there. -/
lemma storeOneObject_eq_install (hallow : env.writeOnce.action = .allow)
    (hstored : (s.storeOneObject env u).1 = .stored) :
    (s.storeOneObject env u).2 = s.install env u := by
  unfold storeOneObject at hstored ⊢
  split_ifs at hstored ⊢
  rcases putStream_spec env s u with ⟨hput, -⟩ | ⟨hne, -⟩
  · rw [hput]
  · have hunchanged : (s.putStream env u).1 ≠ .unchanged := by
      unfold putStream writeOnceVerdict
      rw [hallow]
      dsimp only
      split_ifs <;> simp
    dsimp only at hstored
    split at hstored <;> simp_all

end Upload

end Storage

/-! ## Runs of the server -/

namespace Server

/-- The object under the key is not replaced, deleted or evicted, and it is not read under another
key. -/
def Spares (env : StorageEnv) (key : Key) (s : Server) : Label → Prop
  | .put u => env.keyToPath u.key ≠ env.keyToPath key
  | .delete k => env.keyToPath k ≠ env.keyToPath key
  | .get k _ => Storage.Clear env key k
  | .batchGet prefetchEnabled req _ =>
    (∀ k ∈ req.keys, Storage.Clear env key k) ∧
      ∀ fresh ∈ (s.storage.batchLookup env prefetchEnabled req).2.1, ∀ k ∈ fresh,
        Storage.Clear env key k
  | .evict maxAge maxBytes now =>
    (∀ f ∈ s.storage.disk.rows, Storage.Addressed env f) ∧
      ((s.storage.evict env maxAge maxBytes now).2.fileOf env key).isSome = true
  | .head _ | .expireClean _ | .expireDigest _ | .expireMeta _ | .touch _ _ => True

instance (env : StorageEnv) (key : Key) (s : Server) : (l : Label) → Decidable (Spares env key s l)
  | .put _ | .delete _ => inferInstanceAs (Decidable (_ ≠ _))
  | .get _ _ => inferInstanceAs (Decidable (Storage.Clear _ _ _))
  | .batchGet _ _ _ | .evict _ _ _ => inferInstanceAs (Decidable (_ ∧ _))
  | .head _ | .expireClean _ | .expireDigest _ | .expireMeta _ | .touch _ _ => isTrue trivial

lemma stands_effect {env : StorageEnv} {key : Key} {o : StoredObject} {s : Server} {l : Label}
    (hsound : o.Sound env.sha256 env.decoders) (houtput : o.md.get outputIDMetaKey ≠ [])
    (hs : s.storage.Stands env key o) (hl : Spares env key s l) :
    (effect env s.storage l).2.Stands env key o := by
  cases l with
  | put u =>
    rw [effect, Storage.storeOneObject]
    split_ifs
    · exact hs
    · rcases Storage.putStream_spec env s.storage u with ⟨hput, -⟩ | ⟨-, hput⟩ <;> rw [hput]
      · exact hs.install hl
      · exact hs
  | get k now => exact (hs.get hl hsound houtput now).1
  | head k =>
    rw [effect, Storage.head]
    split
    · exact hs
    · exact (hs.loadMetadata ‹_›).1
  | batchGet prefetchEnabled req now => exact hs.handleBatchGet hsound houtput hl.1 hl.2 now
  | delete k => exact hs.delete hl
  | evict maxAge maxBytes now => exact hs.evict hl.1 hl.2
  | expireClean h => exact hs.of_frame rfl fun _ => id
  | expireDigest h => exact hs.of_frame rfl fun _ => id
  | expireMeta k =>
    exact hs.of_frame rfl fun e he => (Storage.shrinks_forgetMeta s.storage k).cached key e he
  | touch path accessUnix =>
    obtain ⟨f, hf, hobject⟩ := hs.file
    refine ⟨?_, hs.cached⟩
    rw [effect, Storage.fileOf, Table.find_modify]
    split_ifs
    · exact ⟨f.touch accessUnix, by rw [← Storage.fileOf, hf]; rfl, hobject⟩
    · exact ⟨f, hf, hobject⟩

end Server

/-! ## The clients -/

namespace Storage

/-- The upload of an output that a client has prepared. -/
structure UploadOf (sha256 : Sha256) (compress : Bytes → Option Bytes) (p : PendingPut)
    (file : Option Bytes) (data : Bytes) (u : Upload) : Prop where
  /-- The output, which is no longer than a file can be. -/
  output : p.body file = some data ∧ data.length < 2 ^ 63
  /-- The output id is the digest of the output. -/
  outputID : p.outputID = hexEncode (sha256 data).bytes
  /-- The output has passed the gates of the client, and is compressed. -/
  prepared : prepare p file compress = .ok u.body
  /-- The metadata. -/
  md : ∃ description, u.md = uploadMetadata sha256 description p.actionID p.outputID data u.body

/-- The codecs of the clients and of the server make the output of the compressed body. -/
def Decodes (dec : Decoders) (decompress : Decompress) (data compressed : Bytes) : Prop :=
  decompress compressed data.length = some data ∧
    readIsModuleIndex dec compressed (ascii "zstd") = isGoModuleIndex data

section Clients

variable {env : StorageEnv} {compress : Bytes → Option Bytes} {decompress : Decompress}
  {p : PendingPut} {file : Option Bytes} {data : Bytes} {u : Upload}
  (hu : UploadOf env.sha256 compress p file data u)

include hu

/-- What is prepared for an upload has passed the gates. -/
lemma UploadOf.guards :
    (buildIDMatchesAction p.actionID data).2 = true ∧ isGoModuleIndex data = false := by
  have hprepared := hu.prepared
  unfold prepare at hprepared
  rw [← PendingPut.body, hu.output.1] at hprepared
  dsimp only at hprepared
  split_ifs at hprepared with hbuild hindex
  exact ⟨Bool.eq_true_of_not_eq_false hbuild, Bool.eq_false_of_not_eq_true hindex⟩

lemma UploadOf.outputID_ne_nil : p.outputID ≠ [] := by
  intro hnil
  have hlen := length_hexEncode (env.sha256 data).bytes
  rw [← hu.outputID, hnil, (env.sha256 data).size] at hlen
  cases hlen

/-- What the programs read off the stored metadata. -/
lemma UploadOf.get_md :
    let md := (uploadedFile env u).object.md
    md.get outputIDMetaKey = p.outputID ∧ md.get actionIDMetaKey = p.actionID ∧
      atoi (md.get bodySizeMetaKey) = some (data.length : ℤ) ∧
      md.get compressionMetaKey = ascii "zstd" ∧
      md.get storedDigestMetaKey = hexEncode (env.sha256 u.body).bytes := by
  obtain ⟨description, hmd⟩ := hu.md
  have hsize : atoi (formatInt (data.length : ℤ)) = some (data.length : ℤ) :=
    atoi_formatInt (by omega) (by exact_mod_cast hu.output.2)
  dsimp only [uploadedFile]
  rw [hmd]
  exact ⟨rfl, rfl, hsize, rfl, rfl⟩

/-- The server serves what a client has prepared. -/
lemma UploadOf.sound (hcodec : Decodes env.decoders decompress data u.body) :
    (uploadedFile env u).object.Sound env.sha256 env.decoders := by
  obtain ⟨-, -, -, hcompression, hdigest⟩ := hu.get_md
  constructor
  · unfold StoredObject.Intact
    rw [hdigest]
    simp [equalFold, uploadedFile]
  · unfold StoredObject.isModuleIndex
    rw [hcompression]
    exact hcodec.2.trans hu.guards.2

/-- What a client has prepared passes the gates of another. -/
lemma UploadOf.hit (hcodec : decompress u.body data.length = some data) (key : Key) :
    let o : SentObject := ⟨key, u.body, (uploadedFile env u).object.md⟩
    getIndividual env.sha256 decompress p.actionID o.answer = .hit p.outputID data p.actionID ∧
      ∀ resp, replyTo env.sha256 decompress ⟨p.actionID, key, resp⟩ o.entry
        = .hit p.outputID data p.actionID := by
  have hverify : verify env.sha256 decompress p.actionID p.outputID p.actionID u.body data.length
      = .ok data := by
    refine verify_eq_ok_iff.mpr
      ⟨hu.outputID_ne_nil, hcodec, ?_, Or.inr rfl, hu.guards.1, hu.guards.2⟩
    rw [hu.outputID]
    simp [outputIDMatches, equalFold]
  obtain ⟨houtput, haction, hsize, -, -⟩ := hu.get_md
  dsimp only [SentObject.answer, SentObject.entry, SentObject.rawSize]
  rw [houtput, haction, hsize, Option.getD_some]
  constructor
  · simp [getIndividual, hverify]
  · simp [replyTo, hverify]

end Clients

/-- A client that has the output `[1, 2]` of an action. -/
def smallPut : PendingPut :=
  ⟨zeroHash, hexEncode zeroHash.bytes, hexEncode (plainEnv.sha256 [1, 2]).bytes, [], [1, 2]⟩

/-- Its upload, by a client that does not compress. -/
def smallPutUpload : Upload :=
  { smallUpload (hashKey zeroHash) with
    md := uploadMetadata plainEnv.sha256 .empty smallPut.actionID smallPut.outputID [1, 2] [1, 2] }

/-- Another upload, two reads with a sweep in between, and an update of the metadata cache. -/
def busyServer : List Server.Label :=
  [.put (smallUpload [1]), .get (hashKey zeroHash) 2000, .evict 0 100 3000,
    .batchGet true ⟨[hashKey zeroHash], false, false, fun _ => false⟩ 4000,
    .expireMeta (hashKey zeroHash)]

end Storage

end GoBuildCache
