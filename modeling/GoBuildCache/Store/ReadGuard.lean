import GoBuildCache.Store.ModuleIndex
import GoBuildCache.Store.Serve

/-!
# Module indexes are not served

The guard of a read deletes a module index, and does not look again at a hash that it has found
clean. This is sound as long as everything that can be read under that hash is the file it has
looked at (`Vetted`): a hash is always read under one spelling of its key, and a compression hint
calls only compressed bodies compressed. In runs with such reads and uploads (`SingleSpelling`) no
module index is sent (`module_index_unserved`). The memo does not tell the spellings of a key apart,
so a module index under one spelling is sent after a read under another one
(`second_spelling_served`).
-/

open ByteString Transition

namespace GoBuildCache

/-- Both files are at the same path with the same body, time and compression hint. -/
structure SameContent (f g : DiskFile) : Prop where
  /-- The path. -/
  path : f.path = g.path
  /-- The body. -/
  body : f.object.body = g.object.body
  /-- The modification time. -/
  modNano : f.object.modNano = g.object.modNano
  /-- The hint. -/
  compression : f.object.md.get compressionMetaKey = g.object.md.get compressionMetaKey

namespace SameContent

variable {f g k : DiskFile}

lemma refl (f : DiskFile) : SameContent f f :=
  ⟨rfl, rfl, rfl, rfl⟩

lemma trans (h : SameContent f g) (h' : SameContent g k) : SameContent f k :=
  ⟨h.path.trans h'.path, h.body.trans h'.body, h.modNano.trans h'.modNano,
    h.compression.trans h'.compression⟩

lemma info (h : SameContent f g) : f.object.info = g.object.info := by
  rw [StoredObject.info, StoredObject.info, h.modNano, h.body]

lemma honestHint (h : SameContent f g) (hg : g.object.HonestHint) : f.object.HonestHint := by
  rw [StoredObject.HonestHint, h.compression, h.body]
  exact hg

lemma setMetadata (f : DiskFile) {field : Bytes} (hfield : compressionMetaKey ≠ field)
    (value : Bytes) : SameContent (f.setMetadata field value) f :=
  ⟨rfl, rfl, rfl, Metadata.get_set_of_ne hfield _ value⟩

end SameContent

namespace Storage

/-! ## Stores that only lose files and memos -/

/-- Every file was there before. -/
def FilesFrom (s s' : Storage) : Prop :=
  ∀ f ∈ s'.disk.rows, ∃ g ∈ s.disk.rows, SameContent f g

/-- Every file and every memo was there before. -/
structure Shrinks (s s' : Storage) : Prop where
  /-- The files. -/
  files : FilesFrom s s'
  /-- The hashes known to be clean. -/
  clean : s'.cleanKeys ⊆ s.cleanKeys
  /-- The cached metadata. -/
  cached : ∀ key e, s'.metaCache key = some e → s.metaCache key = some e

section Shrinks

variable {env : StorageEnv} {s s' s'' : Storage} {key : Key}

lemma FilesFrom.refl (s : Storage) : FilesFrom s s := fun f hf =>
  ⟨f, hf, .refl f⟩

lemma FilesFrom.trans (h : FilesFrom s s') (h' : FilesFrom s' s'') : FilesFrom s s'' := by
  intro f hf
  obtain ⟨g, hg, hfg⟩ := h' f hf
  obtain ⟨k, hk, hgk⟩ := h g hg
  exact ⟨k, hk, hfg.trans hgk⟩

lemma FilesFrom.fileOf (h : FilesFrom s s') {f : DiskFile} (hf : s'.fileOf env key = some f) :
    ∃ g, s.fileOf env key = some g ∧ SameContent f g := by
  obtain ⟨hrow, hpath⟩ := Table.find_eq_some_iff.mp hf
  obtain ⟨g, hg, hfg⟩ := h f hrow
  exact ⟨g, Table.find_eq_some_iff.mpr ⟨hg, hfg.path.symm.trans hpath⟩, hfg⟩

lemma Shrinks.trans (h : Shrinks s s') (h' : Shrinks s' s'') : Shrinks s s'' where
  files := h.files.trans h'.files
  clean := List.Subset.trans h'.clean h.clean
  cached := fun key e he => h.cached key e (h'.cached key e he)

/-- Files and memos are as they were. -/
lemma shrinks_of_eq (hdisk : s'.disk = s.disk) (hclean : s'.cleanKeys = s.cleanKeys)
    (hcached : s'.metaCache = s.metaCache) : Shrinks s s' where
  files := fun f hf => ⟨f, hdisk ▸ hf, .refl f⟩
  clean := by rw [hclean]; exact List.Subset.refl _
  cached := fun key e he => hcached ▸ he

lemma Shrinks.refl (s : Storage) : Shrinks s s :=
  shrinks_of_eq rfl rfl rfl

lemma shrinks_erase (s : Storage) (path : Bytes) :
    Shrinks s { s with disk := s.disk.erase path } where
  files := fun f hf => ⟨f, (Table.mem_erase.mp hf).1, .refl f⟩
  clean := List.Subset.refl _
  cached := fun _ _ => id

lemma shrinks_forgetClean (s : Storage) (key : Key) : Shrinks s (s.forgetClean key) := by
  obtain ⟨digestOK, h⟩ := s.forgetClean_eq key
  rw [h]
  exact ⟨FilesFrom.refl s, List.filter_subset_self _, fun _ _ => id⟩

lemma shrinks_forgetMeta (s : Storage) (key : Key) : Shrinks s (s.forgetMeta key) where
  files := FilesFrom.refl s
  clean := List.Subset.refl _
  cached := fun key' e he => by
    simp only [forgetMeta, Function.update_apply] at he
    split_ifs at he
    exact he

lemma shrinks_forget (s : Storage) (key : Key) :
    Shrinks s (((s.forgetAccess key).forgetClean key).forgetMeta key) := by
  have haccess : Shrinks s (s.forgetAccess key) := shrinks_of_eq rfl rfl rfl
  exact (haccess.trans (shrinks_forgetClean _ key)).trans (shrinks_forgetMeta _ key)

lemma shrinks_recordAccess (s : Storage) (key : Key) (now : ℤ) :
    Shrinks s (s.recordAccess key now) :=
  shrinks_of_eq rfl rfl rfl

lemma shrinks_delete (env : StorageEnv) (s : Storage) (key : Key) :
    Shrinks s (s.delete env key) := by
  unfold delete
  split
  · exact Shrinks.refl s
  · refine ((shrinks_erase s (env.keyToPath key)).trans ?_).trans (shrinks_forget _ key)
    exact shrinks_of_eq rfl rfl rfl

lemma shrinks_verifyStoredDigestFor (key : Key) (f : DiskFile) (md : Metadata) :
    Shrinks s (s.verifyStoredDigestFor env key f md).2 := by
  unfold verifyStoredDigestFor
  dsimp only
  split
  · exact Shrinks.refl s
  · split_ifs
    · exact Shrinks.refl s
    · exact shrinks_of_eq rfl rfl rfl
    · exact Shrinks.refl s

/-- A repair does not touch the hint. -/
lemma shrinks_ensureOutputID (key : Key) (md : Metadata) (file : Option DiskFile) :
    Shrinks s (s.ensureOutputID env key md file).2 := by
  unfold ensureOutputID
  split_ifs
  · exact Shrinks.refl s
  · dsimp only
    split
    · exact shrinks_of_eq rfl rfl rfl
    · next outputID _ =>
      have hset : Shrinks s (s.setMetadata env key outputIDMetaKey outputID) := by
        refine ⟨?_, List.Subset.refl _, fun _ _ => id⟩
        intro f hf
        obtain ⟨g, hg, rfl | rfl⟩ := mem_rows_setMetadata hf
        · exact ⟨f, hg, .refl f⟩
        · exact ⟨g, hg, .setMetadata g (by decide) outputID⟩
      exact hset.trans (shrinks_forgetMeta _ key)

lemma shrinks_touch (s : Storage) (path : Bytes) (accessUnix : Option ℤ) :
    Shrinks s { s with
      disk := s.disk.modify path (·.touch accessUnix) (DiskFile.path_touch accessUnix) } where
  files := fun f hf => by
    simp only [Table.mem_modify] at hf
    obtain ⟨g, hg, rfl⟩ := hf
    refine ⟨g, hg, ?_⟩
    split_ifs
    · exact ⟨rfl, rfl, rfl, rfl⟩
    · exact .refl g
  clean := List.Subset.refl _
  cached := fun _ _ => id

/-! ### Sweeps -/

lemma shrinks_sweepEvict (sw : Sweep) (v : EvictionVictim) :
    Shrinks sw.storage (sw.evict env v).storage := by
  unfold Sweep.evict evictOne
  rcases sw.storage.fileOf env v.key.key with _ | f
  · exact Shrinks.refl _
  dsimp only
  split_ifs
  · exact Shrinks.refl _
  · exact (shrinks_erase _ (env.keyToPath v.key.key)).trans (shrinks_forget _ v.key.key)

/-- A walk shrinks the store if each of its steps does. -/
lemma shrinks_foldl {α : Type} {visit : Sweep → α → Sweep}
    (h : ∀ sw x, Shrinks sw.storage (visit sw x).storage) (xs : List α) (sw : Sweep) :
    Shrinks sw.storage (xs.foldl visit sw).storage := by
  induction xs generalizing sw with
  | nil => exact Shrinks.refl _
  | cons x xs ih => exact (h sw x).trans (ih (visit sw x))

lemma shrinks_flush (sw : Sweep) : Shrinks sw.storage (sw.flush env).storage := by
  unfold Sweep.flush
  split_ifs
  · exact Shrinks.refl _
  · have hremove : Shrinks sw.storage
        (sw.storage.indexRemoveKeys env (sw.batch.map (·.key.key))) := shrinks_of_eq rfl rfl rfl
    exact hremove.trans (shrinks_foldl shrinks_sweepEvict sw.batch
      { sw with storage := sw.storage.indexRemoveKeys env (sw.batch.map (·.key.key)) })

lemma shrinks_visit (cutoff ageCutoff : ℤ) (sw : Sweep) (path : Bytes) :
    Shrinks sw.storage (sw.visit env cutoff ageCutoff path).storage := by
  unfold Sweep.visit
  split
  · exact Shrinks.refl _
  · dsimp only
    split_ifs
    · exact Shrinks.refl _
    · unfold Sweep.enqueue
      dsimp only
      split_ifs
      · exact shrinks_flush { sw with batch := sw.batch ++ [_] }
      · exact Shrinks.refl _

lemma shrinks_evict (env : StorageEnv) (s : Storage) (maxAge : Duration) (maxBytes now : ℤ) :
    Shrinks s (s.evict env maxAge maxBytes now).2 := by
  have hsweep : ∀ cutoff ageCutoff stats,
      Shrinks s (s.sweepBelow env cutoff ageCutoff stats).storage := fun cutoff ageCutoff stats =>
    (shrinks_foldl (shrinks_visit cutoff ageCutoff) _ ⟨s, [], stats⟩).trans (shrinks_flush _)
  unfold evict
  dsimp only
  split_ifs
  · exact (hsweep ..).trans (shrinks_of_eq rfl rfl rfl)
  · exact (hsweep ..).trans (shrinks_of_eq rfl rfl rfl)
  · exact shrinks_of_eq rfl rfl rfl
  · exact shrinks_of_eq rfl rfl rfl

end Shrinks

/-! ## What the guard knows -/

/-- The key is the chosen spelling, if it is a cacheprog key. -/
def Spells (spelling : Hash → Key) (key : Key) : Prop :=
  ∀ h ∈ extractActionHash key, key = spelling h

instance (spelling : Hash → Key) (key : Key) : Decidable (Spells spelling key) :=
  inferInstanceAs (Decidable (∀ _ ∈ _, _))

/-- The memos agree with the files, where keys are read under the given spellings. -/
structure Vetted (env : StorageEnv) (spelling : Hash → Key) (s : Storage) : Prop where
  /-- Hints call only compressed bodies compressed. -/
  honest : ∀ f ∈ s.disk.rows, f.object.HonestHint
  /-- A cached entry that is taken for the file of a cacheprog key has its hint. -/
  cached : ∀ key h f e, extractActionHash key = some h → s.fileOf env key = some f →
    s.metaCache key = some e → e.info = f.object.info →
      e.md.get compressionMetaKey = f.object.md.get compressionMetaKey
  /-- The file of a hash that is known to be clean is no module index. -/
  clean : ∀ h ∈ s.cleanKeys, extractActionHash (spelling h) = some h ∧
    ∀ f, s.fileOf env (spelling h) = some f → holdsModuleIndex env.decoders f.object.body = false

/-- A read under the key would not find a module index. -/
def Servable (env : StorageEnv) (s : Storage) (key : Key) : Prop :=
  ∀ h f, extractActionHash key = some h → s.fileOf env key = some f →
    holdsModuleIndex env.decoders f.object.body = false

section Vetted

variable {env : StorageEnv} {spelling : Hash → Key} {checksum : Bytes → ℕ} {s s' : Storage}
  {key : Key} {f : DiskFile}

lemma Vetted.of_shrinks (hs : Vetted env spelling s) (h : Shrinks s s') :
    Vetted env spelling s' where
  honest := fun f hf => by
    obtain ⟨g, hg, hfg⟩ := h.files f hf
    exact hfg.honestHint (hs.honest g hg)
  cached := fun key a f e hkey hf he hinfo => by
    obtain ⟨g, hg, hfg⟩ := h.files.fileOf hf
    rw [hfg.compression]
    exact hs.cached key a g e hkey hg (h.cached key e he) (hinfo.trans hfg.info)
  clean := fun a ha => by
    obtain ⟨hspelling, hclean⟩ := hs.clean a (h.clean ha)
    refine ⟨hspelling, ?_⟩
    intro f hf
    obtain ⟨g, hg, hfg⟩ := h.files.fileOf hf
    rw [hfg.body]
    exact hclean g hg

lemma Servable.of_filesFrom (h : Servable env s key) (hfiles : FilesFrom s s') :
    Servable env s' key := by
  intro a f hkey hf
  obtain ⟨g, hg, hfg⟩ := hfiles.fileOf hf
  rw [hfg.body]
  exact h a g hkey hg

/-- Loading metadata yields the hint of the file. -/
lemma Vetted.loadMetadata (hs : Vetted env spelling s) (hf : s.fileOf env key = some f) :
    Vetted env spelling (s.loadMetadata key f).2 ∧ (s.loadMetadata key f).2.disk = s.disk ∧
      ∀ h, extractActionHash key = some h →
        (s.loadMetadata key f).1.get compressionMetaKey = f.object.md.get compressionMetaKey := by
  rcases s.loadMetadata_cases key f with ⟨e, he, hinfo, hload⟩ | hload <;> rw [hload]
  · exact ⟨hs, rfl, fun h hkey => hs.cached key h f e hkey hf he hinfo⟩
  refine ⟨⟨hs.honest, ?_, hs.clean⟩, rfl, fun _ _ => rfl⟩
  intro key' h g e hkey hg he hinfo
  simp only [Function.update_apply] at he
  split_ifs at he with heq
  · obtain rfl := Option.some.inj he
    have hfg : f = g := Option.some.inj (hf.symm.trans (heq ▸ hg))
    rw [hfg]
  · exact hs.cached key' h g e hkey hg he hinfo

/-- What the guard lets pass is no module index. -/
lemma Vetted.evictModuleIndexOnRead (hexact : Lz4Exact checksum env.decoders)
    (hs : Vetted env spelling s) (hkey : Spells spelling key) (hf : s.fileOf env key = some f)
    {md : Metadata} (hmd : ∀ h, extractActionHash key = some h →
      md.get compressionMetaKey = f.object.md.get compressionMetaKey) :
    Vetted env spelling (s.evictModuleIndexOnRead env key f md).2 ∧
      FilesFrom s (s.evictModuleIndexOnRead env key f md).2 ∧
      ((s.evictModuleIndexOnRead env key f md).1 = true → Servable env s key) := by
  rcases hhash : extractActionHash key with _ | h
  · rw [Storage.evictModuleIndexOnRead, hhash]
    exact ⟨hs, FilesFrom.refl s, fun _ h' f' hh' => by rw [hhash] at hh'; cases hh'⟩
  have hspelling : key = spelling h := hkey h hhash
  simp only [Storage.evictModuleIndexOnRead, hhash]
  split_ifs with hknown hindex
  · have hclean := (hs.clean h (by simpa [keyKnownClean] using hknown)).2
    exact ⟨hs, FilesFrom.refl s, fun _ _ g _ hg => hclean g (hspelling ▸ hg)⟩
  · exact ⟨hs.of_shrinks (shrinks_delete env s key), (shrinks_delete env s key).files,
      fun hfalse => by cases hfalse⟩
  · have hbody : holdsModuleIndex env.decoders f.object.body = false := by
      by_contra hholds
      rw [Bool.not_eq_false] at hholds
      refine hindex (readIsModuleIndex_of_holdsModuleIndex hexact ?_ hholds)
      rw [hmd h hhash]
      exact hs.honest f (Table.find_eq_some_iff.mp hf).1
    have hservable : ∀ g, s.fileOf env key = some g →
        holdsModuleIndex env.decoders g.object.body = false := by
      intro g hg
      obtain rfl := Option.some.inj (hf.symm.trans hg)
      exact hbody
    refine ⟨⟨hs.honest, hs.cached, ?_⟩, FilesFrom.refl s,
      fun _ _ g _ hg => hservable g hg⟩
    intro h' hh'
    rcases List.mem_cons.mp hh' with rfl | hh'
    · rw [← hspelling]
      exact ⟨hhash, hservable⟩
    · exact hs.clean h' hh'

/-! ## Reads -/

lemma Vetted.get (hexact : Lz4Exact checksum env.decoders) (hs : Vetted env spelling s)
    (hkey : Spells spelling key) (now : ℤ) :
    Vetted env spelling (s.get env key now).2 ∧
      ∀ o, (s.get env key now).1 = some o → ∀ h, extractActionHash o.key = some h →
        holdsModuleIndex env.decoders o.body = false := by
  unfold Storage.get
  rcases hf : s.fileOf env key with _ | f
  · exact ⟨hs, fun o ho => by cases ho⟩
  dsimp only
  obtain ⟨hload, hdisk, hmd⟩ := hs.loadMetadata hf
  have hrecord : Vetted env spelling ((s.loadMetadata key f).2.recordAccess key now) :=
    hload.of_shrinks (shrinks_recordAccess _ key now)
  have hf' : ((s.loadMetadata key f).2.recordAccess key now).fileOf env key = some f := by
    rw [← hf, fileOf, fileOf, ← hdisk]
    rfl
  obtain ⟨hguard, -, hpass⟩ := hrecord.evictModuleIndexOnRead hexact hkey hf' hmd
  split_ifs with hrefused hmismatch
  · exact ⟨hguard, fun o ho => by cases ho⟩
  · exact ⟨hguard.of_shrinks ((shrinks_verifyStoredDigestFor key f _).trans
      (shrinks_delete env _ key)), fun o ho => by cases ho⟩
  · refine ⟨hguard.of_shrinks ((shrinks_verifyStoredDigestFor key f _).trans
      (shrinks_ensureOutputID key _ _)), ?_⟩
    intro o ho h hh
    obtain ⟨md, -, rfl⟩ := Option.map_eq_some_iff.mp ho
    exact hpass (by simpa using hrefused) h f hh hf'

lemma workRule_servableEntry (hexact : Lz4Exact checksum env.decoders) :
    WorkRule (Vetted env spelling) FilesFrom (servableEntry env) (fun _ => Spells spelling)
      fun s e => Servable env s e.key := by
  intro s key hs hkey
  have hkeys : ∀ e, (s.servableEntry env key).1 = some e → e.key = key := fun e =>
    key_of_servableEntry
  revert hkeys
  unfold Storage.servableEntry
  rcases hf : s.fileOf env key with _ | f
  · exact fun _ => ⟨hs, FilesFrom.refl s, fun e he => by cases he⟩
  dsimp only
  intro hkeys
  obtain ⟨hload, hdisk, hmd⟩ := hs.loadMetadata hf
  have hf' : (s.loadMetadata key f).2.fileOf env key = some f := by
    rw [← hf, fileOf, fileOf, hdisk]
  have hfiles : FilesFrom s (s.loadMetadata key f).2 := fun g hg => ⟨g, hdisk ▸ hg, .refl g⟩
  rw [evictModuleIndexOnReadByKey, hf'] at hkeys ⊢
  dsimp only at hkeys ⊢
  obtain ⟨hguard, hfiles', hpass⟩ := hload.evictModuleIndexOnRead hexact hkey hf' hmd
  split_ifs at hkeys ⊢ with hrefused
  · exact ⟨hguard, hfiles.trans hfiles', fun e he => by cases he⟩
  · have hshrinks : Shrinks _
        (Storage.ensureOutputID env ((s.loadMetadata key f).2.evictModuleIndexOnRead env key f
          (s.loadMetadata key f).1).2 key (s.loadMetadata key f).1 none).2 :=
      shrinks_ensureOutputID key _ none
    refine ⟨hguard.of_shrinks hshrinks, (hfiles.trans hfiles').trans hshrinks.files, ?_⟩
    intro e he
    rw [hkeys e he]
    exact (hpass (by simpa using hrefused)).of_filesFrom (hfiles'.trans hshrinks.files)

lemma workRule_openVerifiedEntry (now : ℤ) :
    WorkRule (Vetted env spelling) FilesFrom (openVerifiedEntry env now)
      (fun s e => Servable env s e.key) fun _ o =>
        ∀ h, extractActionHash o.key = some h →
          holdsModuleIndex env.decoders o.body = false := by
  intro s e hs he
  unfold Storage.openVerifiedEntry
  rcases hf : s.fileOf env e.key with _ | f
  · exact ⟨hs, FilesFrom.refl s, fun o ho => by cases ho⟩
  dsimp only
  have hverify : Shrinks s ((s.recordAccess e.key now).verifyStoredDigestFor env e.key f e.md).2 :=
    (shrinks_recordAccess s e.key now).trans (shrinks_verifyStoredDigestFor e.key f e.md)
  split_ifs
  · have hdelete := hverify.trans (shrinks_delete env _ e.key)
    exact ⟨hs.of_shrinks hdelete, hdelete.files, fun o ho => by cases ho⟩
  · refine ⟨hs.of_shrinks hverify, hverify.files, ?_⟩
    intro o ho h hh
    obtain rfl := Option.some.inj ho
    exact he h f hh hf

lemma Vetted.handleBatchGet (hexact : Lz4Exact checksum env.decoders)
    (hs : Vetted env spelling s) {prefetchEnabled : Bool} {req : BatchGetRequest}
    (hkeys : ∀ key ∈ req.keys, Spells spelling key)
    (hfresh : ∀ fresh ∈ (s.batchLookup env prefetchEnabled req).2.1,
      ∀ key ∈ fresh, Spells spelling key) (now : ℤ) :
    Vetted env spelling (s.handleBatchGet env prefetchEnabled req now).2 ∧
      ∀ o ∈ (s.handleBatchGet env prefetchEnabled req now).1,
        ∀ h, extractActionHash o.key = some h → holdsModuleIndex env.decoders o.body = false := by
  have hprefetch : ∀ s req lookup entries, Vetted env spelling s →
      Vetted env spelling (s.prefetchKeys req lookup entries).2 ∧
        FilesFrom s (s.prefetchKeys req lookup entries).2 := by
    intro s req lookup entries hs
    have hshrinks : Shrinks s (s.prefetchKeys req lookup entries).2 := shrinks_of_eq rfl rfl rfl
    exact ⟨hs.of_shrinks hshrinks, hshrinks.files⟩
  have hentry : ∀ (s s' : Storage) (e : BatchEntry), FilesFrom s s' → Servable env s e.key →
      Servable env s' e.key := fun _ _ _ hfiles he => he.of_filesFrom hfiles
  obtain ⟨hinv, -, hsent⟩ := handleBatchGet_rule FilesFrom.refl (fun _ _ _ => FilesFrom.trans)
    hentry (workRule_servableEntry hexact) (workRule_openVerifiedEntry now) hprefetch hs hkeys
    hfresh
  exact ⟨hinv, hsent⟩

/-- An upload drops what was known about its key. -/
lemma Vetted.putStream (hs : Vetted env spelling s) {u : Upload}
    (halias : ¬ Aliased env.sha256 u.key) (hhint : (uploadedFile env u).object.HonestHint) :
    Vetted env spelling (s.putStream env u).2 := by
  rcases putStream_spec env s u with ⟨hput, -⟩ | ⟨-, hput⟩ <;> rw [hput]
  swap
  · exact hs
  -- the file of a cacheprog key is the new one only if it is the key of the upload
  have hfile : ∀ {key h f}, extractActionHash key = some h →
      (s.install env u).fileOf env key = some f → key ≠ u.key → s.fileOf env key = some f := by
    intro key h f hkey hf hne
    rw [fileOf, disk_install, Table.find_put] at hf
    rw [if_neg fun hpath => hne (eq_of_keyToPath_eq halias hkey hpath.symm).symm] at hf
    exact hf
  obtain ⟨digestOK, hclean⟩ :=
    forgetClean_eq { s with disk := s.disk.put u.slot (uploadedFile env u) } u.key
  refine ⟨?_, ?_, ?_⟩
  · intro f hf
    rw [disk_install, Table.mem_put] at hf
    rcases hf with rfl | ⟨hf, -⟩
    · exact hhint
    · exact hs.honest f hf
  · intro key h f e hkey hf he hinfo
    rw [install, hclean] at he
    simp only [indexPut, forgetMeta, Function.update_apply] at he
    split_ifs at he with hne
    exact hs.cached key h f e hkey (hfile hkey hf hne) he hinfo
  · intro h hh
    rw [install, hclean] at hh
    obtain ⟨hh, hne⟩ := List.mem_filter.mp hh
    obtain ⟨hspelling, hbody⟩ := hs.clean h hh
    refine ⟨hspelling, fun f hf => hbody f (hfile hspelling hf ?_)⟩
    intro heq
    rw [heq] at hspelling
    simp [hspelling] at hne

end Vetted

end Storage

/-! ## Runs -/

namespace Server

/-- Every hash is read under one spelling of its key; uploads are not under an alias, and their hint
calls only compressed bodies compressed. -/
def SingleSpelling (env : StorageEnv) (spelling : Hash → Key) (s : Server) : Label → Prop
  | .put u => ¬ Aliased env.sha256 u.key ∧ (Storage.uploadedFile env u).object.HonestHint
  | .get key _ => Storage.Spells spelling key
  | .batchGet prefetchEnabled req _ =>
    (∀ key ∈ req.keys, Storage.Spells spelling key) ∧
      ∀ fresh ∈ (s.storage.batchLookup env prefetchEnabled req).2.1,
        ∀ key ∈ fresh, Storage.Spells spelling key
  | .head _ | .delete _ | .evict _ _ _ | .expireClean _ | .expireDigest _ | .expireMeta _
  | .touch _ _ => True

instance decidableSingleSpelling (env : StorageEnv) (spelling : Hash → Key) (s : Server) :
    (l : Label) → Decidable (SingleSpelling env spelling s l)
  | .put _ => inferInstanceAs (Decidable (_ ∧ _))
  | .get _ _ => inferInstanceAs (Decidable (Storage.Spells _ _))
  | .batchGet _ _ _ => inferInstanceAs (Decidable (_ ∧ _))
  | .head _ | .delete _ | .evict _ _ _ | .expireClean _ | .expireDigest _ | .expireMeta _
  | .touch _ _ => isTrue trivial

/-- A step keeps the memos sound, and sends no module index. -/
lemma vetted_effect {env : StorageEnv} {spelling : Hash → Key} {checksum : Bytes → ℕ} {s : Server}
    {l : Label} (hexact : Lz4Exact checksum env.decoders) (hs : s.storage.Vetted env spelling)
    (hl : SingleSpelling env spelling s l) :
    (effect env s.storage l).2.Vetted env spelling ∧
      ∀ o ∈ (effect env s.storage l).1, ∀ h, extractActionHash o.key = some h →
        holdsModuleIndex env.decoders o.body = false := by
  cases l with
  | put u =>
    refine ⟨?_, by simp [effect]⟩
    rw [effect, Storage.storeOneObject]
    split_ifs
    · exact hs
    · exact hs.putStream hl.1 hl.2
  | get key now =>
    obtain ⟨hvetted, hsent⟩ := hs.get hexact hl now
    exact ⟨hvetted, fun o ho => hsent o (by simpa [effect] using ho)⟩
  | head key =>
    refine ⟨?_, by simp [effect]⟩
    rw [effect, Storage.head]
    split
    · exact hs
    · next f hf => exact (hs.loadMetadata hf).1
  | batchGet prefetchEnabled req now => exact hs.handleBatchGet hexact hl.1 hl.2 now
  | delete key => exact ⟨hs.of_shrinks (Storage.shrinks_delete env _ key), by simp [effect]⟩
  | evict maxAge maxBytes now =>
    exact ⟨hs.of_shrinks (Storage.shrinks_evict env _ maxAge maxBytes now), by simp [effect]⟩
  | expireClean h =>
    exact ⟨hs.of_shrinks ⟨Storage.FilesFrom.refl _, List.filter_subset_self _, fun _ _ => id⟩,
      by simp [effect]⟩
  | expireDigest h => exact ⟨hs.of_shrinks (Storage.shrinks_of_eq rfl rfl rfl), by simp [effect]⟩
  | expireMeta key => exact ⟨hs.of_shrinks (Storage.shrinks_forgetMeta _ key), by simp [effect]⟩
  | touch path accessUnix =>
    exact ⟨hs.of_shrinks (Storage.shrinks_touch _ path accessUnix), by simp [effect]⟩

/-- No read sends a module index, whatever is stored when the server starts. -/
theorem module_index_unserved (env : StorageEnv) (checksum : Bytes → ℕ)
    (hexact : Lz4Exact checksum env.decoders) (spelling : Hash → Key) (disk : Disk)
    (hhints : ∀ f ∈ disk.rows, f.object.HonestHint)
    (accessShards : Option (CompactKey → Option ℤ)) (ls : List Label) (t : Server)
    (hguard : Guarded (step env) (SingleSpelling env spelling) (start env disk accessShards) ls)
    (hrun : run (step env) (start env disk accessShards) ls = some t) :
    ¬ ∃ o ∈ t.sent, (extractActionHash o.key).isSome = true ∧
      holdsModuleIndex env.decoders o.body = true := by
  let inv : Server → Prop := fun s => s.storage.Vetted env spelling ∧
    ∀ o ∈ s.sent, ∀ h, extractActionHash o.key = some h →
      holdsModuleIndex env.decoders o.body = false
  have hstart : inv (start env disk accessShards) := by
    refine ⟨⟨hhints, ?_, ?_⟩, ?_⟩
    · intro key h f e _ _ he
      cases he
    · intro h hh
      cases hh
    · intro o ho
      cases ho
  have hstep : ∀ s l s', inv s → SingleSpelling env spelling s l → step env s l = some s' →
      inv s' := by
    intro s l s' hs hl hs'
    obtain rfl := Option.some.inj hs'
    obtain ⟨hvetted, hsent⟩ := vetted_effect hexact hs.1 hl
    refine ⟨hvetted, ?_⟩
    intro o ho
    rcases List.mem_append.mp ho with ho | ho
    · exact hsent o ho
    · exact hs.2 o ho
  have ht : inv t := run_invariant hstep hstart hguard hrun
  rintro ⟨o, ho, hkey, hbody⟩
  obtain ⟨h, hh⟩ := Option.isSome_iff_exists.mp hkey
  rw [ht.2 o ho h hh] at hbody
  cases hbody

/-- Readers that decode an lz4 frame to its end or fail. -/
def frameDecoders : Decoders where
  lz4 := fun body =>
    match Lz4.decode (fun _ => 0) body with
    | some out => ⟨out, .eof⟩
    | none => ⟨[], .failed⟩
  zstd := fun _ => ⟨[], .failed⟩

lemma lz4Exact_frameDecoders : Lz4Exact (fun _ => 0) frameDecoders := by
  intro body out
  unfold frameDecoders
  dsimp only
  rcases Lz4.decode (fun _ => 0) body with _ | out' <;> simp

/-- The environment with these readers. -/
def frameEnv : StorageEnv :=
  { plainEnv with decoders := frameDecoders }

/-- A file with an output id. -/
def namedFile (key : Key) (body : Bytes) : DiskFile where
  path := frameEnv.keyToPath key
  originalKey := none
  ino := 1
  object := ⟨body, 0, Metadata.empty.set outputIDMetaKey [1]⟩
  accessUnix := none

/-- A body under a key in lower case, and a module index under the same key in upper case. -/
def twoSpellings : Disk :=
  (Table.empty.put 0 (namedFile lowerKey [1, 2])).put 1 (namedFile upperKey goModuleIndexMagic)

/-- After a read in lower case, the module index in upper case is sent. -/
theorem second_spelling_served :
    Lz4Exact (fun _ => 0) frameEnv.decoders ∧ (∀ f ∈ twoSpellings.rows, f.object.HonestHint) ∧
      ∃ t, run (step frameEnv) (start frameEnv twoSpellings none)
          [.get lowerKey 1, .get upperKey 2] = some t ∧
        ∃ o ∈ t.sent, (extractActionHash o.key).isSome = true ∧
          holdsModuleIndex frameEnv.decoders o.body = true := by
  obtain ⟨t, ht, h⟩ : ∃ t ∈ run (step frameEnv) (start frameEnv twoSpellings none)
      [.get lowerKey 1, .get upperKey 2], ∃ o ∈ t.sent, (extractActionHash o.key).isSome = true ∧
        holdsModuleIndex frameEnv.decoders o.body = true := by
    decide +kernel
  exact ⟨lz4Exact_frameDecoders, by decide +kernel, t, ht, h⟩

/-- A body and a module index under two keys in lower case. -/
def twoHashes : Disk :=
  (Table.empty.put 0 (namedFile lowerKey [1, 2])).put 1
    (namedFile (hashKey zeroHash) goModuleIndexMagic)

/-- Reads of both keys send the body, and not the module index. -/
theorem module_index_unserved_twoHashes :
    ∃ t, run (step frameEnv) (start frameEnv twoHashes none)
        [.get lowerKey 1, .get (hashKey zeroHash) 2, .get lowerKey 3] = some t ∧
      t.sent.map (·.body) = [[1, 2], [1, 2]] ∧
      ¬ ∃ o ∈ t.sent, (extractActionHash o.key).isSome = true ∧
        holdsModuleIndex frameEnv.decoders o.body = true := by
  have hguard : Guarded (step frameEnv) (SingleSpelling frameEnv hashKey)
      (start frameEnv twoHashes none)
      [.get lowerKey 1, .get (hashKey zeroHash) 2, .get lowerKey 3] := by
    decide +kernel
  obtain ⟨t, ht, hsent⟩ : ∃ t ∈ run (step frameEnv) (start frameEnv twoHashes none)
      [.get lowerKey 1, .get (hashKey zeroHash) 2, .get lowerKey 3],
      t.sent.map (·.body) = [[1, 2], [1, 2]] := by
    decide +kernel
  exact ⟨t, ht, hsent, module_index_unserved frameEnv _ lz4Exact_frameDecoders hashKey twoHashes
    (by decide +kernel) none _ t hguard ht⟩

end Server

end GoBuildCache
