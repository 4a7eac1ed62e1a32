import GoBuildCache.Store.Serve

/-!
# Accepted uploads are advertised

An upload that is accepted because there is an object already does not reach the index. So every
object of a lower-case cacheprog key should be advertised (`Advertised`), and a server that has just
started is in such a state. Four things take it out of it: a failed repair, which leaves the object
in place; a request for the hash under another spelling of its key; an upload to the path of the key
under an alias; and a sweep that takes keys off the index and then removes nothing. In runs without
them (`Tidy`) every accepted upload is advertised (`accepted_advertised`); `failed_repair_hides` is
a run with one of them.
-/

open ByteString Transition

namespace GoBuildCache

/-- The key is not empty, and not a cacheprog key in another spelling. -/
def Spelled (key : Key) : Prop :=
  key ≠ [] ∧ ∀ h ∈ extractActionHash key, key = hashKey h

instance (key : Key) : Decidable (Spelled key) :=
  inferInstanceAs (Decidable (_ ∧ _))

lemma Spelled.eq_hashKey {key : Key} (hkey : Spelled key) {h : Hash}
    (hh : actionHash key = some h) : key = hashKey h :=
  hkey.2 h (by rw [← actionHash_of_ne_nil hkey.1]; exact hh)

namespace Storage

lemma actionHash_hashKey (h : Hash) : actionHash (hashKey h) = some h := by
  rw [actionHash_of_ne_nil (by simp [hashKey, gbciKeyPrefix, ascii]), extractActionHash_hashKey]

/-- Every object of a lower-case cacheprog key is advertised. -/
def Advertised (env : StorageEnv) (s : Storage) : Prop :=
  ∀ h f, s.fileOf env (hashKey h) = some f → s.index.Advertises h

/-- A walk finds the hashes of all cacheprog keys that have a file. -/
lemma mem_hashes_foldl_add {objs : List ListObject} {b : IndexBuild} {h : Hash} :
    h ∈ (objs.foldl (fun b obj => b.add obj.key obj.lastModified) b).hashes
      ↔ h ∈ b.hashes ∨ ∃ obj ∈ objs, actionHash obj.key = some h := by
  induction objs generalizing b with
  | nil => simp
  | cons obj objs ih =>
    rw [List.foldl_cons, ih]
    simp [IndexBuild.add, or_assoc]

/-- A walk finds the hash of every lower-case cacheprog key that has a file. -/
lemma mem_hashes_walk {env : StorageEnv} {s : Storage} {h : Hash} {f : DiskFile}
    (hf : s.fileOf env (hashKey h) = some f) (b : IndexBuild) :
    h ∈ ((s.walk env).foldl (fun b obj => b.add obj.key obj.lastModified) b).hashes := by
  obtain ⟨hrow, hpath⟩ := Table.find_eq_some_iff.mp hf
  have hwalk : walkKey env.dataDir f.toStoredFile = some (hashKey h) :=
    walkKey_of_extractActionHash env.sha256 env.dataDir (extractActionHash_hashKey h) hpath
  refine mem_hashes_foldl_add.mpr
    (Or.inr ⟨⟨hashKey h, f.size, f.mtimeUnix, f.accessUnix⟩, ?_, actionHash_hashKey h⟩)
  exact List.mem_filterMap.mpr ⟨f, hrow, by simp [listObject, hwalk]⟩

/-- A rebuild advertises everything. -/
lemma advertised_rebuild (env : StorageEnv) (s : Storage) : Advertised env (s.rebuild env) := by
  intro h f hf
  rw [rebuild, Index.advertises_applyRebuild]
  exact Or.inl (mem_hashes_walk hf _)

/-! ## Reads -/

/-- A part of a request keeps everything advertised, unless it fails to repair an object. -/
structure Heals (env : StorageEnv) (s s' : Storage) : Prop where
  /-- Failures are counted. -/
  le : s.selfHealFailures ≤ s'.selfHealFailures
  /-- Without one, what was advertised is. -/
  keeps : s'.selfHealFailures = s.selfHealFailures → Advertised env s → Advertised env s'

section Reads

variable {env : StorageEnv} {s s' s'' : Storage} {key : Key}

lemma Heals.trans (h : Heals env s s') (h' : Heals env s' s'') : Heals env s s'' where
  le := h.le.trans h'.le
  keeps := fun heq hs => by
    have hle := h.le
    have hle' := h'.le
    exact h'.keeps (by omega) (h.keeps (by omega) hs)

/-- No file has come in at a new path, and nothing has been taken off the index. -/
lemma Advertised.of_subset (hs : Advertised env s)
    (hdisk : ∀ f ∈ s'.disk.rows, ∃ g ∈ s.disk.rows, g.path = f.path)
    (hindex : ∀ h, s.index.Advertises h → s'.index.Advertises h) : Advertised env s' := by
  intro h f hf
  obtain ⟨hrow, hpath⟩ := Table.find_eq_some_iff.mp hf
  obtain ⟨g, hg, hgpath⟩ := hdisk f hrow
  exact hindex h (hs h g (Table.find_eq_some_iff.mpr ⟨hg, hgpath.trans hpath⟩))

/-- Nothing has happened to the files, and nothing has been taken off the index. -/
lemma heals_of_eq (hdisk : s'.disk = s.disk)
    (hindex : ∀ h, s.index.Advertises h → s'.index.Advertises h)
    (hfailures : s'.selfHealFailures = s.selfHealFailures) : Heals env s s' where
  le := hfailures.ge
  keeps := fun _ hs => hs.of_subset (fun f hf => ⟨f, hdisk ▸ hf, rfl⟩) hindex

lemma Heals.refl (env : StorageEnv) (s : Storage) : Heals env s s :=
  heals_of_eq rfl (fun _ => id) rfl

lemma selfHealFailures_loadMetadata (key : Key) (f : DiskFile) :
    (s.loadMetadata key f).2.selfHealFailures = s.selfHealFailures := by
  rcases s.loadMetadata_cases key f with ⟨e, -, -, h⟩ | h <;> rw [h]

lemma heals_loadMetadata (key : Key) (f : DiskFile) : Heals env s (s.loadMetadata key f).2 := by
  rcases s.loadMetadata_cases key f with ⟨e, -, -, h⟩ | h <;> rw [h]
  · exact Heals.refl env s
  · exact heals_of_eq rfl (fun _ => id) rfl

lemma heals_recordAccess (key : Key) (now : ℤ) : Heals env s (s.recordAccess key now) :=
  heals_of_eq rfl (fun _ => id) rfl

/-- A deletion takes away the file of the hash that it drops. -/
lemma Advertised.delete (hs : Advertised env s) (hkey : Spelled key) :
    Advertised env (s.delete env key) := by
  rcases hfile : s.fileOf env key with _ | f
  · rw [Storage.delete, hfile]
    exact hs
  obtain ⟨accessShards, digestOK, hdelete⟩ := delete_eq hfile
  rw [hdelete]
  intro h g hg
  rw [fileOf, Table.find_erase] at hg
  split_ifs at hg with hpath
  refine (Index.advertises_remove ..).mpr ⟨hs h g hg, fun hh => hpath ?_⟩
  rw [hkey.eq_hashKey hh]

lemma heals_delete (hkey : Spelled key) : Heals env s (s.delete env key) where
  le := by
    rcases hfile : s.fileOf env key with _ | f
    · rw [Storage.delete, hfile]
    · obtain ⟨accessShards, digestOK, hdelete⟩ := delete_eq hfile
      rw [hdelete]
  keeps := fun _ hs => hs.delete hkey

lemma heals_evictModuleIndexOnRead (hkey : Spelled key) (f : DiskFile) (md : Metadata) :
    Heals env s (s.evictModuleIndexOnRead env key f md).2 := by
  unfold evictModuleIndexOnRead
  split
  · exact Heals.refl env s
  · split_ifs
    · exact Heals.refl env s
    · exact heals_delete hkey
    · exact heals_of_eq rfl (fun _ => id) rfl

lemma heals_evictModuleIndexOnReadByKey (hkey : Spelled key) (md : Metadata) :
    Heals env s (s.evictModuleIndexOnReadByKey env key md).2 := by
  unfold evictModuleIndexOnReadByKey
  split
  · exact Heals.refl env s
  · exact heals_evictModuleIndexOnRead hkey _ md

lemma heals_verifyStoredDigestFor (key : Key) (f : DiskFile) (md : Metadata) :
    Heals env s (s.verifyStoredDigestFor env key f md).2 := by
  unfold verifyStoredDigestFor
  dsimp only
  split
  · exact Heals.refl env s
  · split_ifs
    · exact Heals.refl env s
    · exact heals_of_eq rfl (fun _ => id) rfl
    · exact Heals.refl env s

/-- A repair changes the metadata of a file that is there; a failed one is counted. -/
lemma heals_ensureOutputID (key : Key) (md : Metadata) (file : Option DiskFile) :
    Heals env s (s.ensureOutputID env key md file).2 := by
  unfold ensureOutputID
  split_ifs
  · exact Heals.refl env s
  · dsimp only
    split
    · refine ⟨Nat.le_succ _, ?_⟩
      intro heq
      exact absurd heq (Nat.succ_ne_self _)
    · refine ⟨le_rfl, fun _ hs => hs.of_subset ?_ fun _ => id⟩
      intro f hf
      obtain ⟨g, hg, rfl | rfl⟩ := mem_rows_setMetadata hf
      · exact ⟨f, hg, rfl⟩
      · exact ⟨g, hg, rfl⟩

lemma heals_get (hkey : Spelled key) (now : ℤ) : Heals env s (s.get env key now).2 := by
  unfold get
  rcases s.fileOf env key with _ | f
  · exact Heals.refl env s
  dsimp only
  have hguard : Heals env s
      (((s.loadMetadata key f).2.recordAccess key now).evictModuleIndexOnRead env key f
        (s.loadMetadata key f).1).2 :=
    ((heals_loadMetadata key f).trans (heals_recordAccess key now)).trans
      (heals_evictModuleIndexOnRead hkey f _)
  split_ifs
  · exact hguard
  · exact (hguard.trans (heals_verifyStoredDigestFor key f _)).trans (heals_delete hkey)
  · exact (hguard.trans (heals_verifyStoredDigestFor key f _)).trans
      (heals_ensureOutputID key _ (some f))

lemma heals_servableEntry (hkey : Spelled key) : Heals env s (s.servableEntry env key).2 := by
  unfold servableEntry
  rcases s.fileOf env key with _ | f
  · exact Heals.refl env s
  dsimp only
  have hguard : Heals env s ((s.loadMetadata key f).2.evictModuleIndexOnReadByKey env key
      (s.loadMetadata key f).1).2 :=
    (heals_loadMetadata key f).trans (heals_evictModuleIndexOnReadByKey hkey _)
  split_ifs
  · exact hguard
  · exact hguard.trans (heals_ensureOutputID key _ none)

lemma heals_openVerifiedEntry {e : BatchEntry} (hkey : Spelled e.key) (now : ℤ) :
    Heals env s (s.openVerifiedEntry env now e).2 := by
  unfold openVerifiedEntry
  rcases s.fileOf env e.key with _ | f
  · exact Heals.refl env s
  dsimp only
  have hverified : Heals env s
      ((s.recordAccess e.key now).verifyStoredDigestFor env e.key f e.md).2 :=
    (heals_recordAccess e.key now).trans (heals_verifyStoredDigestFor e.key f _)
  split_ifs
  · exact hverified.trans (heals_delete hkey)
  · exact hverified

lemma heals_prefetchKeys (req : BatchGetRequest) (lookup : List Key)
    (entries : List BatchEntry) : Heals env s (s.prefetchKeys req lookup entries).2 := by
  refine heals_of_eq rfl ?_ rfl
  intro h hh
  unfold prefetchKeys
  dsimp only
  rwa [Index.advertises_nearbyKeys]

lemma heals_handleBatchGet {prefetchEnabled : Bool} {req : BatchGetRequest}
    (hkeys : ∀ key ∈ req.keys, Spelled key)
    (hfresh : ∀ fresh ∈ (s.batchLookup env prefetchEnabled req).2.1, ∀ key ∈ fresh, Spelled key)
    (now : ℤ) : Heals env s (s.handleBatchGet env prefetchEnabled req now).2 := by
  have hservable : WorkRule (fun _ => True) (Heals env) (servableEntry env) (fun _ => Spelled)
      fun _ e => Spelled e.key := fun s key _ hkey =>
    ⟨trivial, heals_servableEntry hkey, fun e he => key_of_servableEntry he ▸ hkey⟩
  have hopen : WorkRule (fun _ => True) (Heals env) (openVerifiedEntry env now)
      (fun _ e => Spelled e.key) fun _ _ => True := fun s e _ hkey =>
    ⟨trivial, heals_openVerifiedEntry hkey now, fun _ _ => trivial⟩
  exact (handleBatchGet_rule (Heals.refl env) (fun _ _ _ => Heals.trans) (fun _ _ _ _ => id)
    hservable hopen
    (fun _ req lookup entries _ => ⟨trivial, heals_prefetchKeys req lookup entries⟩)
    trivial hkeys hfresh).2.1

end Reads

/-! ## Other requests -/

section Requests

variable {env : StorageEnv} {s : Storage}

lemma advertises_install {u : Upload} {h : Hash} :
    (s.install env u).index.Advertises h ↔ s.index.Advertises h ∨ actionHash u.key = some h := by
  obtain ⟨digestOK, hclean⟩ :=
    forgetClean_eq { s with disk := s.disk.put u.slot (uploadedFile env u) } u.key
  rw [install, hclean]
  exact Index.advertises_put ..

/-- An upload advertises what it stores. -/
lemma Advertised.putStream (hs : Advertised env s) {u : Upload}
    (halias : ¬ Aliased env.sha256 u.key) : Advertised env (s.putStream env u).2 := by
  rcases putStream_spec env s u with ⟨hput, -⟩ | ⟨-, hput⟩ <;> rw [hput]
  swap
  · exact hs
  intro h f hf
  rw [fileOf, disk_install, Table.find_put] at hf
  refine advertises_install.mpr ?_
  split_ifs at hf with hpath
  · have hkey : u.key = hashKey h :=
      eq_of_keyToPath_eq halias (extractActionHash_hashKey h) hpath.symm
    exact Or.inr (by rw [hkey, actionHash_hashKey])
  · exact Or.inl (hs h f hf)

/-- A sweep leaves everything advertised: if it evicts something, it ends with a rebuild. -/
lemma Advertised.evict (hs : Advertised env s) {maxAge : Duration} {maxBytes now : ℤ}
    (hsweep : (∀ f ∈ s.disk.rows, Addressed env f) ∨
      0 < (s.evict env maxAge maxBytes now).1.evictedAge
        + (s.evict env maxAge maxBytes now).1.evictedSize) :
    Advertised env (s.evict env maxAge maxBytes now).2 := by
  by_cases hevicted : 0 < (s.evict env maxAge maxBytes now).1.evictedAge
      + (s.evict env maxAge maxBytes now).1.evictedSize
  · obtain ⟨s', hs'⟩ := evict_of_evicted_pos hevicted
    rw [hs']
    exact advertised_rebuild env s'
  · obtain ⟨hdisk, hindex⟩ := evict_of_evicted_eq_zero (hsweep.resolve_right hevicted)
      (Nat.eq_zero_of_not_pos hevicted)
    intro h f hf
    rw [hindex]
    rw [fileOf, hdisk] at hf
    exact hs h f hf

/-- An upload that leaves things unchanged has found an object, or a directory. -/
lemma fileOf_of_putStream_eq_unchanged {u : Upload} (hdir : s.isDirectory env u = false)
    (h : (s.putStream env u).1 = .unchanged) : ∃ f, s.fileOf env u.key = some f := by
  rcases hfile : s.fileOf env u.key with _ | f
  swap
  · exact ⟨f, rfl⟩
  have hverdict : s.writeOnceVerdict env u = none := by
    unfold writeOnceVerdict
    rcases env.writeOnce with ⟨_ | _, notification⟩
    · rfl
    · simp [hfile, hdir]
  unfold putStream at h
  rw [hverdict] at h
  dsimp only at h
  split_ifs at h

end Requests

end Storage

/-! ## Runs -/

namespace Server

/-- Uploads are not under an alias, reads and deletions use the lower-case spelling and no repair
fails, and a sweep evicts something or meets only files that it can evict. -/
def Tidy (env : StorageEnv) (s : Server) : Label → Prop
  | .put u => ¬ Aliased env.sha256 u.key
  | .get key now =>
    Spelled key ∧ (s.storage.get env key now).2.selfHealFailures = s.storage.selfHealFailures
  | .batchGet prefetchEnabled req now =>
    (∀ key ∈ req.keys, Spelled key) ∧
      (∀ fresh ∈ (s.storage.batchLookup env prefetchEnabled req).2.1, ∀ key ∈ fresh, Spelled key) ∧
      (s.storage.handleBatchGet env prefetchEnabled req now).2.selfHealFailures
        = s.storage.selfHealFailures
  | .delete key => Spelled key
  | .evict maxAge maxBytes now =>
    (∀ f ∈ s.storage.disk.rows, Storage.Addressed env f) ∨
      0 < (s.storage.evict env maxAge maxBytes now).1.evictedAge
        + (s.storage.evict env maxAge maxBytes now).1.evictedSize
  | .head _ | .expireClean _ | .expireDigest _ | .expireMeta _ | .touch _ _ => True

instance decidableTidy (env : StorageEnv) (s : Server) : (l : Label) → Decidable (Tidy env s l)
  | .put _ => inferInstanceAs (Decidable (¬ _))
  | .get _ _ => inferInstanceAs (Decidable (_ ∧ _))
  | .batchGet _ _ _ => inferInstanceAs (Decidable (_ ∧ _ ∧ _))
  | .delete _ => inferInstanceAs (Decidable (Spelled _))
  | .evict _ _ _ => inferInstanceAs (Decidable (_ ∨ _))
  | .head _ | .expireClean _ | .expireDigest _ | .expireMeta _ | .touch _ _ => isTrue trivial

/-- A tidy step leaves everything advertised. -/
lemma advertised_effect {env : StorageEnv} {s : Server} {l : Label}
    (hs : s.storage.Advertised env) (hl : Tidy env s l) :
    (effect env s.storage l).2.Advertised env := by
  cases l with
  | put u =>
    rw [effect, Storage.storeOneObject]
    split_ifs
    · exact hs
    · exact hs.putStream hl
  | get key now => exact (Storage.heals_get hl.1 now).keeps hl.2 hs
  | head key =>
    rw [effect, Storage.head]
    split
    · exact hs
    · exact (Storage.heals_loadMetadata key _).keeps
        (Storage.selfHealFailures_loadMetadata key _) hs
  | batchGet prefetchEnabled req now =>
    exact (Storage.heals_handleBatchGet hl.1 hl.2.1 now).keeps hl.2.2 hs
  | delete key => exact hs.delete hl
  | evict maxAge maxBytes now => exact hs.evict hl
  | expireClean h => exact hs
  | expireDigest h => exact hs
  | expireMeta key => exact hs
  | touch path accessUnix =>
    refine hs.of_subset ?_ fun _ => id
    intro f hf
    simp only [effect, Table.mem_modify] at hf
    obtain ⟨g, hg, rfl⟩ := hf
    exact ⟨g, hg, by split_ifs <;> rfl⟩

/-- In a tidy run, an upload of a lower-case key that is accepted is advertised, unless a directory
is in its place. -/
theorem accepted_advertised (env : StorageEnv) (disk : Disk)
    (accessShards : Option (CompactKey → Option ℤ)) (ls : List Label) (t : Server)
    (hguard : Guarded (step env) (Tidy env) (start env disk accessShards) ls)
    (hrun : run (step env) (start env disk accessShards) ls = some t) (u : Upload) (h : Hash)
    (hkey : u.key = hashKey h) (hdir : t.storage.isDirectory env u = false)
    (hnil : (t.storage.putStream env u).1.isNil = true) :
    (t.storage.putStream env u).2.index.contains h = true := by
  have hstep : ∀ s l s', s.storage.Advertised env → Tidy env s l → step env s l = some s' →
      s'.storage.Advertised env := by
    intro s l s' hs hl hs'
    obtain rfl := Option.some.inj hs'
    exact advertised_effect hs hl
  have ht : t.storage.Advertised env :=
    run_invariant (I := fun s => s.storage.Advertised env) hstep
      (Storage.advertised_rebuild env _) hguard hrun
  rw [Index.contains_iff]
  rcases Storage.putStream_spec env t.storage u with ⟨hput, -⟩ | ⟨hne, hput⟩
  · rw [hput]
    exact Storage.advertises_install.mpr (Or.inr (by rw [hkey, Storage.actionHash_hashKey]))
  · have hunchanged : (t.storage.putStream env u).1 = .unchanged := by
      revert hnil hne
      cases (t.storage.putStream env u).1 <;> simp [PutOutcome.isNil]
    obtain ⟨f, hf⟩ := Storage.fileOf_of_putStream_eq_unchanged hdir hunchanged
    rw [hput]
    rw [hkey] at hf
    exact ht h f hf

/-- The environment of a server that keeps what it has and says nothing. -/
def keepingEnv : StorageEnv :=
  { plainEnv with writeOnce := ⟨.deny, .never⟩ }

/-- An upload that names no output id, of a body that is no compressed frame. -/
def bareUpload : Upload :=
  Storage.smallUpload (hashKey zeroHash)

/-- The same upload with an output id. -/
def namedUpload : Upload :=
  { bareUpload with md := Metadata.empty.set outputIDMetaKey [1] }

/-- The repair of an object that is no compressed frame fails and takes its key off the index; the
next upload is answered with success, and leaves the key off the index. -/
theorem failed_repair_hides :
    ∃ t, run (step keepingEnv) (start keepingEnv .empty none)
        [.put bareUpload, .get (hashKey zeroHash) 2000] = some t ∧
      t.storage.isDirectory keepingEnv namedUpload = false ∧
      (t.storage.putStream keepingEnv namedUpload).1.isNil = true ∧
      (t.storage.putStream keepingEnv namedUpload).2.index.contains zeroHash = false := by
  obtain ⟨t, ht, h⟩ : ∃ t ∈ run (step keepingEnv) (start keepingEnv .empty none)
        [.put bareUpload, .get (hashKey zeroHash) 2000],
      t.storage.isDirectory keepingEnv namedUpload = false ∧
      (t.storage.putStream keepingEnv namedUpload).1.isNil = true ∧
      (t.storage.putStream keepingEnv namedUpload).2.index.contains zeroHash = false := by
    decide +kernel
  exact ⟨t, ht, h⟩

/-- An object with an output id is still advertised after a read, a sweep that finds nothing to do,
and a second upload. -/
theorem accepted_advertised_namedUpload :
    ∃ t, run (step keepingEnv) (start keepingEnv .empty none)
        [.put namedUpload, .get (hashKey zeroHash) 2000, .evict 0 100 3000] = some t ∧
      (t.storage.putStream keepingEnv namedUpload).1 = .unchanged ∧
      (t.storage.putStream keepingEnv namedUpload).2.index.contains zeroHash = true := by
  have hguard : Guarded (step keepingEnv) (Tidy keepingEnv) (start keepingEnv .empty none)
      [.put namedUpload, .get (hashKey zeroHash) 2000, .evict 0 100 3000] := by
    decide +kernel
  obtain ⟨t, ht, hdir, hunchanged⟩ : ∃ t ∈ run (step keepingEnv) (start keepingEnv .empty none)
        [.put namedUpload, .get (hashKey zeroHash) 2000, .evict 0 100 3000],
      t.storage.isDirectory keepingEnv namedUpload = false ∧
      (t.storage.putStream keepingEnv namedUpload).1 = .unchanged := by
    decide +kernel
  exact ⟨t, ht, hunchanged, accepted_advertised keepingEnv .empty none _ t hguard ht _ zeroHash rfl
    hdir (by rw [hunchanged]; rfl)⟩

end Server

end GoBuildCache
