import GoBuildCache.Store.Serve

/-!
# A batch for one key is a single read

A GET checks the digest of the body and then repairs a missing output id. A batch get repairs first,
and checks the digest when it opens the body: with the repaired metadata, and so with a memo that
the GET did not look at. Both come to the same answer, because a repair checks the digest that is
stored with the file, and a GET the one in the cached metadata, and these are the same
(`DigestsCached`): reads keep it so (`digestsCached_effect`), whatever they repair and delete.
-/

open ByteString Transition

namespace GoBuildCache

namespace Storage

variable {env : StorageEnv} {s s' : Storage} {key : Key} {f : DiskFile} {md : Metadata}

/-! ## What the guards decide -/

/-- The guard of module indexes lets a body pass and remembers it, or deletes it. -/
lemma evictModuleIndexOnRead_cases (env : StorageEnv) (s : Storage) (key : Key) (f : DiskFile)
    (md : Metadata) :
    (∃ cleanKeys, s.evictModuleIndexOnRead env key f md
      = (true, { s with cleanKeys := cleanKeys })) ∨
      s.evictModuleIndexOnRead env key f md = (false, s.delete env key) := by
  unfold evictModuleIndexOnRead
  split
  · exact Or.inl ⟨s.cleanKeys, rfl⟩
  · next h _ =>
    split_ifs
    · exact Or.inl ⟨s.cleanKeys, rfl⟩
    · exact Or.inr rfl
    · exact Or.inl ⟨h :: s.cleanKeys, rfl⟩

/-- Access records do not matter to it. -/
lemma fst_evictModuleIndexOnRead_recordAccess (s : Storage) (now : ℤ) :
    ((s.recordAccess key now).evictModuleIndexOnRead env key f md).1
      = (s.evictModuleIndexOnRead env key f md).1 := by
  unfold evictModuleIndexOnRead
  split
  · rfl
  · have hclean : ∀ h, (s.recordAccess key now).keyKnownClean h = s.keyKnownClean h := fun _ => rfl
    rw [hclean]
    split_ifs <;> rfl

/-- The body is the version whose digest has been found to match before. -/
def digestKnown (s : Storage) (key : Key) (f : DiskFile) (md : Metadata) : Bool :=
  ((extractActionHash key).filter fun _ => md.get outputIDMetaKey ≠ []).any fun h =>
    s.digestOK h = some f.identity

/-- The digest check passes a version that it has passed before, or hashes the body. -/
lemma verifyStoredDigestFor_eq (env : StorageEnv) (s : Storage) (key : Key) (f : DiskFile)
    (md : Metadata) :
    ∃ digestOK, s.verifyStoredDigestFor env key f md
      = (s.digestKnown key f md ||
          bodyMatchesStoredDigest env.sha256 f.object.body (md.get storedDigestMetaKey),
        { s with digestOK := digestOK }) := by
  unfold verifyStoredDigestFor digestKnown
  dsimp only
  rcases (extractActionHash key).filter fun _ => md.get outputIDMetaKey ≠ [] with _ | h
  · exact ⟨s.digestOK, rfl⟩
  · dsimp only
    split_ifs with hknown hmatches
    · exact ⟨s.digestOK, by simp [hknown]⟩
    · exact ⟨Function.update s.digestOK h (some f.identity), by simp [hmatches]⟩
    · exact ⟨s.digestOK, by simp [hknown, hmatches]⟩

/-- The metadata that a read serves: a missing output id of a cacheprog key is reconstructed from
the file. -/
def healedMetadata (env : StorageEnv) (key : Key) (f : DiskFile) (md : Metadata) :
    Option Metadata :=
  if md.get outputIDMetaKey ≠ [] ∨ extractActionHash key = none then some md
  else (reconstructOutputID env.sha256 env.decoders f.object.body
    (f.object.md.get storedDigestMetaKey)).map (md.set outputIDMetaKey)

/-- A repair sets the output id of the file, and does not touch its body. -/
lemma ensureOutputID_spec (hf : s.fileOf env key = some f) (md : Metadata) (file : Option DiskFile)
    (hfile : file.or (some f) = some f) :
    (s.ensureOutputID env key md file).1 = healedMetadata env key f md ∧
      (s.ensureOutputID env key md file).2.digestOK = s.digestOK ∧
      ∃ g, (s.ensureOutputID env key md file).2.fileOf env key = some g ∧
        g.object.body = f.object.body ∧ g.identity = f.identity := by
  unfold ensureOutputID healedMetadata
  split_ifs with hwhole
  · exact ⟨rfl, rfl, f, hf, rfl, rfl⟩
  rw [hf, hfile]
  dsimp only [Option.bind_some]
  rcases reconstructOutputID env.sha256 env.decoders f.object.body
    (f.object.md.get storedDigestMetaKey) with _ | outputID
  · exact ⟨rfl, rfl, f, hf, rfl, rfl⟩
  · refine ⟨rfl, rfl, f.setMetadata outputIDMetaKey outputID, ?_, rfl, rfl⟩
    have hset : (s.setMetadata env key outputIDMetaKey outputID).fileOf env key
        = (s.fileOf env key).map (·.setMetadata outputIDMetaKey outputID) := by
      rw [fileOf, setMetadata, Table.find_modify, if_pos rfl]
      rfl
    rw [hf] at hset
    exact hset

/-- The digest check passes the repaired metadata if and only if it passes the metadata before the
repair, as long as that has the digest of the file. -/
lemma digest_check_healedMetadata {md' : Metadata}
    (hdigest : md.get storedDigestMetaKey = f.object.md.get storedDigestMetaKey)
    (hhealed : healedMetadata env key f md = some md') :
    (s.digestKnown key f md' ||
        bodyMatchesStoredDigest env.sha256 f.object.body (md'.get storedDigestMetaKey))
      = (s.digestKnown key f md ||
        bodyMatchesStoredDigest env.sha256 f.object.body (md.get storedDigestMetaKey)) := by
  unfold healedMetadata at hhealed
  split_ifs at hhealed
  · rw [Option.some.inj hhealed]
  · obtain ⟨outputID, hid, rfl⟩ := Option.map_eq_some_iff.mp hhealed
    have hmatches : bodyMatchesStoredDigest env.sha256 f.object.body
        (md.get storedDigestMetaKey) = true := by
      rw [hdigest]
      exact (Option.ite_none_right_eq_some.mp hid).1
    rw [Metadata.get_set_of_ne (by decide), hmatches, Bool.or_true, Bool.or_true]

/-! ## Both reads -/

/-- The answer to a read that has found a file and loaded metadata for it. -/
def readAnswer (env : StorageEnv) (s : Storage) (key : Key) (f : DiskFile) (md : Metadata) :
    Option SentObject :=
  if (s.evictModuleIndexOnRead env key f md).1 ∧ (s.digestKnown key f md ||
      bodyMatchesStoredDigest env.sha256 f.object.body (md.get storedDigestMetaKey)) then
    (healedMetadata env key f md).map fun md => ⟨key, f.object.body, md⟩
  else none

/-- Loading metadata leaves the files and the memos of digests alone. -/
lemma loadMetadata_frame (s : Storage) (key : Key) (f : DiskFile) :
    ∃ metaCache, (s.loadMetadata key f).2 = { s with metaCache := metaCache } := by
  rcases s.loadMetadata_cases key f with ⟨e, -, -, hload⟩ | hload <;> rw [hload]
  · exact ⟨s.metaCache, rfl⟩
  · exact ⟨_, rfl⟩

lemma fst_get (hf : s.fileOf env key = some f) (now : ℤ) :
    (s.get env key now).1
      = readAnswer env (s.loadMetadata key f).2 key f (s.loadMetadata key f).1 := by
  obtain ⟨metaCache, hload⟩ := s.loadMetadata_frame key f
  have hf' : (s.loadMetadata key f).2.fileOf env key = some f := by
    rw [hload]
    exact hf
  simp only [get, hf, readAnswer]
  generalize (s.loadMetadata key f).2 = t, (s.loadMetadata key f).1 = md at hf' ⊢
  rw [← fst_evictModuleIndexOnRead_recordAccess t now]
  rcases evictModuleIndexOnRead_cases env (t.recordAccess key now) key f md with
    ⟨cleanKeys, hguard⟩ | hguard <;> rw [hguard]
  swap
  · simp
  obtain ⟨digestOK, hverify⟩ := verifyStoredDigestFor_eq env
    { t.recordAccess key now with cleanKeys := cleanKeys } key f md
  have hknown : digestKnown { t.recordAccess key now with cleanKeys := cleanKeys } key f md
      = t.digestKnown key f md := rfl
  rw [hknown] at hverify
  simp only [hverify, Bool.not_true, Bool.false_eq_true, if_false, true_and]
  rcases hpass : t.digestKnown key f md ||
    bodyMatchesStoredDigest env.sha256 f.object.body (md.get storedDigestMetaKey)
  · simp
  · have hf'' : fileOf env { { t.recordAccess key now with cleanKeys := cleanKeys } with
        digestOK := digestOK } key = some f := hf'
    simp only [Bool.not_true, Bool.false_eq_true, if_false, if_true]
    rw [(ensureOutputID_spec hf'' _ _ rfl).1]

/-- A batch for one key takes both rounds for that key. -/
lemma fst_handleBatchGet_singleton (env : StorageEnv) (s : Storage) (prefetchEnabled : Bool)
    (key : Key) (have' : Hash → Bool) (now : ℤ) :
    (s.handleBatchGet env prefetchEnabled ⟨[key], false, false, have'⟩ now).1
      = ((s.servableEntry env key).1.bind fun e =>
          (openVerifiedEntry env now (s.servableEntry env key).2 e).1).toList := by
  have hlookup : BatchGetRequest.lookup ⟨[key], false, false, have'⟩ prefetchEnabled = [key] := by
    simp [BatchGetRequest.lookup]
  simp only [handleBatchGet, batchLookup, hlookup, maxBatchKeys, parallelFilter]
  rcases (s.servableEntry env key).1 with _ | e <;> simp [parallelFilter]

lemma fst_openVerifiedEntry {e : BatchEntry} (hf : s.fileOf env e.key = some f) (now : ℤ) :
    (openVerifiedEntry env now s e).1
      = if s.digestKnown e.key f e.md ||
            bodyMatchesStoredDigest env.sha256 f.object.body (e.md.get storedDigestMetaKey) then
          some ⟨e.key, f.object.body, e.md⟩
        else none := by
  obtain ⟨digestOK, hverify⟩ :=
    verifyStoredDigestFor_eq env (s.recordAccess e.key now) e.key f e.md
  have hknown : (s.recordAccess e.key now).digestKnown e.key f e.md
      = s.digestKnown e.key f e.md := rfl
  rw [hknown] at hverify
  simp only [openVerifiedEntry, hf, hverify]
  split_ifs <;> simp_all

/-- Both rounds of a batch come to the answer of a GET. -/
lemma openVerifiedEntry_servableEntry (hf : s.fileOf env key = some f)
    (hdigest : (s.loadMetadata key f).1.get storedDigestMetaKey
      = f.object.md.get storedDigestMetaKey) (now : ℤ) :
    ((s.servableEntry env key).1.bind fun e =>
        (openVerifiedEntry env now (s.servableEntry env key).2 e).1)
      = readAnswer env (s.loadMetadata key f).2 key f (s.loadMetadata key f).1 := by
  obtain ⟨metaCache, hload⟩ := s.loadMetadata_frame key f
  have hf' : (s.loadMetadata key f).2.fileOf env key = some f := by
    rw [hload]
    exact hf
  simp only [servableEntry, hf, readAnswer]
  generalize (s.loadMetadata key f).2 = t, (s.loadMetadata key f).1 = md at hf' hdigest ⊢
  simp only [evictModuleIndexOnReadByKey, hf']
  rcases evictModuleIndexOnRead_cases env t key f md with ⟨cleanKeys, hguard⟩ | hguard <;>
    rw [hguard]
  swap
  · simp
  have hf'' : fileOf env { t with cleanKeys := cleanKeys } key = some f := hf'
  obtain ⟨hhealed, hmemo, g, hg, hbody, hidentity⟩ :=
    ensureOutputID_spec hf'' md none rfl
  simp only [Bool.not_true, Bool.false_eq_true, if_false, true_and, hhealed]
  rcases hmd : healedMetadata env key f md with _ | md'
  · simp
  have hknown : digestKnown (ensureOutputID env { t with cleanKeys := cleanKeys } key md none).2 key
      g md' = t.digestKnown key f md' := by
    rw [digestKnown, digestKnown, hmemo, hidentity]
  rw [Option.map_some, Option.bind_some, fst_openVerifiedEntry hg, hknown, hbody,
    digest_check_healedMetadata hdigest hmd]
  rfl

/-! ## The cached digests -/

/-- A cached entry that is taken for a file is the metadata of the file. -/
def MetaCurrent (env : StorageEnv) (s : Storage) : Prop :=
  ∀ key f e, s.fileOf env key = some f → s.metaCache key = some e → e.info = f.object.info →
    e.md = f.object.md

/-- The digest in a cached entry that is taken for a file is that of the file. -/
def DigestsCached (env : StorageEnv) (s : Storage) : Prop :=
  ∀ key f e, s.fileOf env key = some f → s.metaCache key = some e → e.info = f.object.info →
    e.md.get storedDigestMetaKey = f.object.md.get storedDigestMetaKey

/-- Loaded metadata has the digest of the file. -/
lemma DigestsCached.get_loadMetadata (hs : DigestsCached env s) (hf : s.fileOf env key = some f) :
    (s.loadMetadata key f).1.get storedDigestMetaKey = f.object.md.get storedDigestMetaKey := by
  rcases s.loadMetadata_cases key f with ⟨e, he, hinfo, hload⟩ | hload <;> rw [hload]
  exact hs key f e hf he hinfo

/-- A batch for one key is answered as a GET. -/
lemma DigestsCached.handleBatchGet_eq_get (hs : DigestsCached env s) (prefetchEnabled : Bool)
    (key : Key) (have' : Hash → Bool) (now now' : ℤ) :
    (s.handleBatchGet env prefetchEnabled ⟨[key], false, false, have'⟩ now).1
      = (s.get env key now').1.toList := by
  rw [fst_handleBatchGet_singleton]
  rcases hf : s.fileOf env key with _ | f
  · simp [servableEntry, get, hf]
  · rw [openVerifiedEntry_servableEntry hf (hs.get_loadMetadata hf), fst_get hf]

/-- The entries are right if the files are those that were there, with their digests, and nothing
new is cached. -/
lemma DigestsCached.of_files (hs : DigestsCached env s)
    (hfiles : ∀ key f', s'.fileOf env key = some f' → ∃ f, s.fileOf env key = some f ∧
      f.object.info = f'.object.info ∧
      f.object.md.get storedDigestMetaKey = f'.object.md.get storedDigestMetaKey)
    (hcached : ∀ key e, s'.metaCache key = some e → s.metaCache key = some e) :
    DigestsCached env s' := by
  intro key f' e hf' he hinfo
  obtain ⟨f, hf, hsame, hdigest⟩ := hfiles key f' hf'
  rw [hs key f e hf (hcached key e he) (hinfo.trans hsame.symm), hdigest]

lemma DigestsCached.of_eq (hs : DigestsCached env s) (hdisk : s'.disk = s.disk)
    (hcached : s'.metaCache = s.metaCache) : DigestsCached env s' := by
  refine hs.of_files ?_ fun key e he => hcached ▸ he
  intro key f hf
  rw [fileOf, hdisk] at hf
  exact ⟨f, hf, rfl, rfl⟩

lemma DigestsCached.forgetMeta (hs : DigestsCached env s) (key : Key) :
    DigestsCached env (s.forgetMeta key) := by
  refine hs.of_files (fun _ f hf => ⟨f, hf, rfl, rfl⟩) ?_
  intro key' e he
  simp only [Storage.forgetMeta, Function.update_apply] at he
  split_ifs at he
  exact he

lemma DigestsCached.delete (hs : DigestsCached env s) (key : Key) :
    DigestsCached env (s.delete env key) := by
  rcases hf : s.fileOf env key with _ | f
  · rw [Storage.delete, hf]
    exact hs
  obtain ⟨accessShards, digestOK, hdelete⟩ := delete_eq hf
  have herased : DigestsCached env { s with disk := s.disk.erase (env.keyToPath key) } := by
    refine hs.of_files ?_ fun _ _ => id
    intro key' g hg
    rw [fileOf, Table.find_erase] at hg
    split_ifs at hg
    exact ⟨g, hg, rfl, rfl⟩
  rw [hdelete]
  exact (herased.forgetMeta key).of_eq rfl rfl

lemma DigestsCached.touch (hs : DigestsCached env s) (path : Bytes) (accessUnix : Option ℤ) :
    DigestsCached env { s with
      disk := s.disk.modify path (·.touch accessUnix) (DiskFile.path_touch accessUnix) } := by
  refine hs.of_files ?_ fun _ _ => id
  intro key f' hf'
  rw [fileOf, Table.find_modify] at hf'
  split_ifs at hf'
  · obtain ⟨f, hf, rfl⟩ := Option.map_eq_some_iff.mp hf'
    exact ⟨f, hf, rfl, rfl⟩
  · exact ⟨f', hf', rfl, rfl⟩

/-- A repair changes the output id and nothing else. -/
lemma DigestsCached.ensureOutputID (hs : DigestsCached env s) (key : Key) (md : Metadata)
    (file : Option DiskFile) : DigestsCached env (s.ensureOutputID env key md file).2 := by
  unfold Storage.ensureOutputID
  split_ifs
  · exact hs
  dsimp only
  split
  · exact hs.of_eq rfl rfl
  · next outputID _ =>
    refine DigestsCached.forgetMeta ?_ key
    refine hs.of_files ?_ fun _ _ => id
    intro key' f' hf'
    rw [fileOf, setMetadata, Table.find_modify] at hf'
    split_ifs at hf'
    · obtain ⟨f, hf, rfl⟩ := Option.map_eq_some_iff.mp hf'
      exact ⟨f, hf, rfl, (Metadata.get_set_of_ne (by decide) _ _).symm⟩
    · exact ⟨f', hf', rfl, rfl⟩

lemma DigestsCached.loadMetadata (hs : DigestsCached env s) (hf : s.fileOf env key = some f) :
    DigestsCached env (s.loadMetadata key f).2 := by
  rcases s.loadMetadata_cases key f with ⟨e, he, hinfo, hload⟩ | hload <;> rw [hload]
  · exact hs
  intro key' g e hg he hinfo
  simp only [Function.update_apply] at he
  split_ifs at he with heq
  · obtain rfl := Option.some.inj he
    rw [Option.some.inj (hf.symm.trans (heq ▸ hg))]
  · exact hs key' g e hg he hinfo

lemma DigestsCached.evictModuleIndexOnRead (hs : DigestsCached env s) (key : Key) (f : DiskFile)
    (md : Metadata) : DigestsCached env (s.evictModuleIndexOnRead env key f md).2 := by
  rcases evictModuleIndexOnRead_cases env s key f md with ⟨cleanKeys, hguard⟩ | hguard <;>
    rw [hguard]
  · exact hs.of_eq rfl rfl
  · exact hs.delete key

lemma DigestsCached.verifyStoredDigestFor (hs : DigestsCached env s) (key : Key) (f : DiskFile)
    (md : Metadata) : DigestsCached env (s.verifyStoredDigestFor env key f md).2 := by
  obtain ⟨digestOK, hverify⟩ := verifyStoredDigestFor_eq env s key f md
  rw [hverify]
  exact hs.of_eq rfl rfl

lemma DigestsCached.get (hs : DigestsCached env s) (key : Key) (now : ℤ) :
    DigestsCached env (s.get env key now).2 := by
  unfold Storage.get
  rcases hf : s.fileOf env key with _ | f
  · exact hs
  dsimp only
  have hrecord : DigestsCached env ((s.loadMetadata key f).2.recordAccess key now) :=
    (hs.loadMetadata hf).of_eq rfl rfl
  have hguard := hrecord.evictModuleIndexOnRead key f (s.loadMetadata key f).1
  split_ifs
  · exact hguard
  · exact (hguard.verifyStoredDigestFor key f _).delete key
  · exact (hguard.verifyStoredDigestFor key f _).ensureOutputID key _ _

lemma DigestsCached.servableEntry (hs : DigestsCached env s) (key : Key) :
    DigestsCached env (s.servableEntry env key).2 := by
  unfold Storage.servableEntry
  rcases hf : s.fileOf env key with _ | f
  · exact hs
  dsimp only
  have hguard : DigestsCached env ((s.loadMetadata key f).2.evictModuleIndexOnReadByKey env key
      (s.loadMetadata key f).1).2 := by
    unfold evictModuleIndexOnReadByKey
    split
    · exact hs.loadMetadata hf
    · exact (hs.loadMetadata hf).evictModuleIndexOnRead key _ _
  split_ifs
  · exact hguard
  · exact hguard.ensureOutputID key _ _

lemma DigestsCached.openVerifiedEntry (hs : DigestsCached env s) (now : ℤ) (e : BatchEntry) :
    DigestsCached env (openVerifiedEntry env now s e).2 := by
  unfold Storage.openVerifiedEntry
  rcases hf : s.fileOf env e.key with _ | f
  · exact hs
  dsimp only
  have hrecord : DigestsCached env (s.recordAccess e.key now) := hs.of_eq rfl rfl
  split_ifs
  · exact (hrecord.verifyStoredDigestFor e.key f e.md).delete e.key
  · exact hrecord.verifyStoredDigestFor e.key f e.md

lemma DigestsCached.handleBatchGet (hs : DigestsCached env s) (prefetchEnabled : Bool)
    (req : BatchGetRequest) (now : ℤ) :
    DigestsCached env (s.handleBatchGet env prefetchEnabled req now).2 := by
  have hservable : WorkRule (DigestsCached env) (fun _ _ => True) (Storage.servableEntry env)
      (fun _ _ => True) fun _ _ => True := fun s key hs _ =>
    ⟨hs.servableEntry key, trivial, fun _ _ => trivial⟩
  have hopen : WorkRule (DigestsCached env) (fun _ _ => True) (Storage.openVerifiedEntry env now)
      (fun _ _ => True) fun _ _ => True := fun s e hs _ =>
    ⟨hs.openVerifiedEntry now e, trivial, fun _ _ => trivial⟩
  exact (handleBatchGet_rule (fun _ => trivial) (fun _ _ _ _ _ => trivial)
    (fun _ _ _ _ _ => trivial) hservable hopen
    (fun s req lookup entries hs => ⟨hs.of_eq rfl rfl, trivial⟩) hs (fun _ _ => trivial)
    fun _ _ _ _ => trivial).1

end Storage

/-! ## Runs of reads -/

namespace Server

/-- The step is a read, or a cache or the file system on its own. -/
def Label.IsRead : Label → Prop
  | .put _ | .delete _ | .evict _ _ _ => False
  | .get _ _ | .head _ | .batchGet _ _ _ | .expireClean _ | .expireDigest _ | .expireMeta _
  | .touch _ _ => True

/-- A read keeps the cached digests right. -/
lemma digestsCached_effect {env : StorageEnv} {s : Storage} {l : Label}
    (hs : s.DigestsCached env) (hl : l.IsRead) : (effect env s l).2.DigestsCached env := by
  cases l with
  | put u => exact hl.elim
  | get key now => exact hs.get key now
  | head key =>
    rw [effect, Storage.head]
    split
    · exact hs
    · next f hf => exact hs.loadMetadata hf
  | batchGet prefetchEnabled req now => exact hs.handleBatchGet prefetchEnabled req now
  | delete key => exact hl.elim
  | evict maxAge maxBytes now => exact hl.elim
  | expireClean h => exact hs.of_eq rfl rfl
  | expireDigest h => exact hs.of_eq rfl rfl
  | expireMeta key => exact hs.forgetMeta key
  | touch path accessUnix => exact hs.touch path accessUnix

/-- After any reads, a batch get of one key without look-ahead sends what a GET of the key sends:
nothing, or the same body with the same metadata. -/
theorem batch_get_eq_get (env : StorageEnv) (s : Server) (hcurrent : s.storage.MetaCurrent env)
    (ls : List Label) (hreads : ∀ l ∈ ls, l.IsRead) (t : Server)
    (hrun : run (step env) s ls = some t) (key : Key) (prefetchEnabled : Bool)
    (have' : Hash → Bool) (now now' : ℤ) :
    (t.storage.handleBatchGet env prefetchEnabled ⟨[key], false, false, have'⟩ now).1
      = (t.storage.get env key now').1.toList := by
  have hstart : s.storage.DigestsCached env := by
    intro key f e hf he hinfo
    rw [hcurrent key f e hf he hinfo]
  let inv : Server → Prop := fun s => s.storage.DigestsCached env
  have hstep : ∀ s l s', inv s → True ∧ l.IsRead → step env s l = some s' → inv s' := by
    rintro s l s' hs ⟨-, hl⟩ hs'
    obtain rfl := Option.some.inj hs'
    exact digestsCached_effect hs hl
  have ht : inv t := run_invariant hstep hstart ((guarded_true s ls).and_forall hreads) hrun
  exact ht.handleBatchGet_eq_get prefetchEnabled key have' now now'

/-- An environment whose lz4 reader decodes every frame to one byte. -/
def oneByteEnv : StorageEnv :=
  { plainEnv with decoders := ⟨fun _ => ⟨[7], .eof⟩, fun _ => ⟨[], .failed⟩⟩ }

/-- A file without an output id. -/
def unnamedFile : DiskFile where
  path := oneByteEnv.keyToPath lowerKey
  originalKey := none
  ino := 1
  object := ⟨[0x04, 0x22, 0x4D, 0x18, 0, 0, 0, 0], 0, Metadata.empty⟩
  accessUnix := none

/-- A file without an output id, whose metadata is cached, is repaired and sent by both reads. -/
theorem batch_get_eq_get_unnamedFile :
    ∃ t, run (step oneByteEnv) (start oneByteEnv (Table.empty.put 0 unnamedFile) none)
        [.head lowerKey] = some t ∧
      (t.storage.get oneByteEnv lowerKey 1).1.map (·.md.get outputIDMetaKey)
        = some (hexEncode zeroHash.bytes) ∧
      (t.storage.handleBatchGet oneByteEnv true ⟨[lowerKey], false, false, fun _ => false⟩ 1).1
        = (t.storage.get oneByteEnv lowerKey 1).1.toList := by
  obtain ⟨t, ht, hrepaired⟩ :
      ∃ t ∈ run (step oneByteEnv) (start oneByteEnv (Table.empty.put 0 unnamedFile) none)
        [.head lowerKey], (t.storage.get oneByteEnv lowerKey 1).1.map (·.md.get outputIDMetaKey)
          = some (hexEncode zeroHash.bytes) := by
    decide +kernel
  refine ⟨t, ht, hrepaired, ?_⟩
  refine batch_get_eq_get oneByteEnv _ ?_ [.head lowerKey] ?_ t ht lowerKey true _ 1 1
  · intro key f e _ he
    cases he
  · intro l hl
    obtain rfl := List.mem_singleton.mp hl
    trivial

end Server

end GoBuildCache
