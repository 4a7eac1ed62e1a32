import GoBuildCache.Foundation.Histogram
import GoBuildCache.Store.Storage

/-!
# Eviction sweeps

A sweep walks the data directory twice. The first walk measures (`scanForEviction`): the total size,
and a histogram of the sizes over the times of last use, from which it derives one number, the
cutoff (`sizeCutoff`, `ageCutoff`). The second walk (`sweepBelow`) removes in batches what was last
used before the cutoff.

The second walk removes a file through the key that it has read off the path. That is the file
itself only for some files; those are *addressed* (`Addressed`). `sweepBelow_spec` describes a sweep
over addressed files: exactly the files last used before the cutoff go, in any number of batches.
-/

open ByteString Histogram

namespace GoBuildCache

namespace Storage

/-! ## The sweep -/

/-- When an object was last used: the latest of its write, the recorded access of its file, and the
access that the server remembers. -/
def lastUsedUnix (obj : ListObject) (memAccess : ℤ) : ℤ :=
  let used := obj.lastModified
  let used :=
    match obj.lastAccess with
    | some at' => if used < at' then at' else used
    | none => used
  if used < memAccess then memAccess else used

/-- The resolution of the histogram. -/
def evictionBucketSeconds : ℤ := 600

/-- What the first walk finds. -/
structure EvictionScan where
  /-- The number of objects. -/
  scanned : ℕ
  /-- Their total size. -/
  totalBytes : ℕ
  /-- Their sizes by the bucket of their last use. -/
  byBucket : Hist ℤ
  /-- Their keys. -/
  live : List CompactKey

/-- The first walk measures one object. -/
def EvictionScan.add (s : Storage) (needHistogram : Bool) (sc : EvictionScan) (obj : ListObject) :
    EvictionScan where
  scanned := sc.scanned + 1
  totalBytes := sc.totalBytes + obj.size
  byBucket :=
    if needHistogram then
      let used := lastUsedUnix obj (s.lastAccessOf (newCompactKey obj.key))
      Histogram.add sc.byBucket (used.tdiv evictionBucketSeconds) obj.size
    else sc.byBucket
  live := newCompactKey obj.key :: sc.live

/-- The first walk. -/
def scanForEviction (env : StorageEnv) (s : Storage) (needHistogram : Bool) : EvictionScan :=
  (s.walk env).foldl (EvictionScan.add s needHistogram) ⟨0, 0, Histogram.empty, []⟩

/-- The exclusive upper edge of a bucket. -/
def bucketEdge (b : ℤ) : ℤ :=
  int64 ((b + 1) * evictionBucketSeconds)

/-- The cutoff at which the objects used before it cover what is over the budget. -/
def EvictionScan.sizeCutoff (sc : EvictionScan) (maxBytes : ℤ) : ℤ :=
  if maxBytes ≤ 0 ∨ sc.totalBytes ≤ maxBytes then 0
  else
    let need := sc.totalBytes - maxBytes
    let bs := buckets sc.byBucket
    match coveringBucket sc.byBucket.size need 0 bs with
    | some b => bucketEdge b
    | none => bucketEdge (bs.getLastD 0)

/-- The cutoff before which objects are too old. -/
def ageCutoff (env : StorageEnv) (maxAge : Duration) (now : ℤ) : ℤ :=
  if 0 < maxAge then int64 (now - env.duration.seconds maxAge) else 0

/-- An object that the second walk has chosen. -/
structure EvictionVictim where
  /-- Its key. -/
  key : CompactKey
  /-- Its size. -/
  size : ℕ
  /-- Its modification time in seconds. -/
  mtimeUnix : ℤ
  /-- Whether it is too old, and not only over the budget. -/
  byAge : Bool

/-- What a sweep has done. -/
structure EvictStats where
  /-- The number of objects looked at. -/
  scanned : ℕ
  /-- The number removed for their age. -/
  evictedAge : ℕ
  /-- The number removed for the budget. -/
  evictedSize : ℕ
  /-- The total size of what was removed. -/
  bytesFreed : ℕ
  /-- The total size before the sweep. -/
  bytesTotal : ℕ

/-- Counts a victim that has been removed. -/
def EvictStats.count (st : EvictStats) (v : EvictionVictim) : EvictStats :=
  { st with
    evictedAge := if v.byAge then st.evictedAge + 1 else st.evictedAge
    evictedSize := if v.byAge then st.evictedSize else st.evictedSize + 1
    bytesFreed := st.bytesFreed + v.size }

/-- Removes the file of a key, unless it has been overwritten since it was seen. -/
def evictOne (env : StorageEnv) (s : Storage) (key : Key) (expectMtime : ℤ) : Option Storage :=
  match s.fileOf env key with
  | none => none
  | some f =>
    if 0 < expectMtime ∧ f.mtimeUnix ≠ expectMtime then none
    else
      some (((({ s with disk := s.disk.erase (env.keyToPath key) }).forgetAccess key).forgetClean
        key).forgetMeta key)

/-- The second walk in progress. -/
structure Sweep where
  /-- The store. -/
  storage : Storage
  /-- The victims that have not been removed yet. -/
  batch : List EvictionVictim
  /-- What has been done. -/
  stats : EvictStats

/-- How many victims are removed at a time. -/
def evictionBatchSize : ℕ := 65536

namespace Sweep

/-- Removes one victim. -/
def evict (env : StorageEnv) (sw : Sweep) (v : EvictionVictim) : Sweep :=
  match sw.storage.evictOne env v.key.key v.mtimeUnix with
  | none => sw
  | some s => { sw with storage := s, stats := sw.stats.count v }

/-- Drops the victims from the index and removes them. -/
def flush (env : StorageEnv) (sw : Sweep) : Sweep :=
  if sw.batch = [] then sw
  else
    let keys := sw.batch.map (·.key.key)
    let start : Sweep := { sw with storage := sw.storage.indexRemoveKeys env keys }
    { sw.batch.foldl (evict env) start with batch := [] }

/-- Takes an object into the batch, which is removed when it is full. -/
def enqueue (env : StorageEnv) (sw : Sweep) (v : EvictionVictim) : Sweep :=
  let sw := { sw with batch := sw.batch ++ [v] }
  if evictionBatchSize ≤ sw.batch.length then sw.flush env else sw

/-- The second walk visits a path. A file that has gone meanwhile is passed over. -/
def visit (env : StorageEnv) (cutoff ageCutoff : ℤ) (sw : Sweep) (path : Bytes) : Sweep :=
  match (sw.storage.disk.find path).bind (listObject env.dataDir) with
  | none => sw
  | some obj =>
    let ck := newCompactKey obj.key
    let lastUsed := lastUsedUnix obj (sw.storage.lastAccessOf ck)
    if cutoff ≤ lastUsed then sw
    else
      sw.enqueue env
        ⟨ck, obj.size, obj.lastModified, 0 < ageCutoff ∧ lastUsed < ageCutoff⟩

end Sweep

/-- The second walk: removes every object last used before the cutoff. -/
def sweepBelow (env : StorageEnv) (s : Storage) (cutoff ageCutoff : ℤ) (stats : EvictStats) :
    Sweep :=
  ((s.disk.rows.map (·.path)).foldl (Sweep.visit env cutoff ageCutoff) ⟨s, [], stats⟩).flush env

/-- The cutoff of a sweep. -/
def evictCutoff (env : StorageEnv) (s : Storage) (maxAge : Duration) (maxBytes now : ℤ) : ℤ :=
  max (ageCutoff env maxAge now) ((s.scanForEviction env (0 < maxBytes)).sizeCutoff maxBytes)

/-- One sweep. -/
def evict (env : StorageEnv) (s : Storage) (maxAge : Duration) (maxBytes now : ℤ) :
    EvictStats × Storage :=
  let scan := s.scanForEviction env (0 < maxBytes)
  let stats : EvictStats := ⟨scan.scanned, 0, 0, 0, scan.totalBytes⟩
  let cutoff := s.evictCutoff env maxAge maxBytes now
  let sw : Sweep :=
    if 0 < cutoff then s.sweepBelow env cutoff (ageCutoff env maxAge now) stats
    else ⟨s, [], stats⟩
  let s := sw.storage.pruneAccess scan.live
  if 0 < sw.stats.evictedAge + sw.stats.evictedSize then (sw.stats, s.rebuild env)
  else (sw.stats, s)

/-- The total size of the files that are not bookkeeping files. -/
def refreshCacheBytes (s : Storage) : ℕ :=
  ((s.disk.rows.filter fun f => !isReservedFile (LexicalPath.base f.path)).map (·.size)).sum

/-! ## Files that a sweep can address -/

/-- The key under which the sweep holds a file. -/
def sweepKey (env : StorageEnv) (f : DiskFile) : CompactKey :=
  newCompactKey ((walkKey env.dataDir f.toStoredFile).getD [])

/-- A walk reports the file, and the key that the sweep holds it under leads to it. -/
def Addressed (env : StorageEnv) (f : DiskFile) : Prop :=
  (walkKey env.dataDir f.toStoredFile).isSome = true ∧ env.keyToPath (sweepKey env f).key = f.path

instance (env : StorageEnv) (f : DiskFile) : Decidable (Addressed env f) :=
  inferInstanceAs (Decidable (_ ∧ _))

/-- What a walk reports about an addressed file. -/
def listed (env : StorageEnv) (f : DiskFile) : ListObject :=
  ⟨(walkKey env.dataDir f.toStoredFile).getD [], f.size, f.mtimeUnix, f.accessUnix⟩

/-- When a file was last used. -/
def lastUsed (env : StorageEnv) (s : Storage) (f : DiskFile) : ℤ :=
  lastUsedUnix (listed env f) (s.lastAccessOf (sweepKey env f))

/-- The file as a victim. -/
def victimOf (env : StorageEnv) (s : Storage) (ageCutoff : ℤ) (f : DiskFile) : EvictionVictim :=
  ⟨sweepKey env f, f.size, f.mtimeUnix,
    0 < ageCutoff ∧ s.lastUsed env f < ageCutoff⟩

variable {env : StorageEnv} {s : Storage}

lemma Addressed.listObject_eq {f : DiskFile} (hf : Addressed env f) :
    listObject env.dataDir f = some (listed env f) := by
  obtain ⟨key, hkey⟩ := Option.isSome_iff_exists.mp hf.1
  simp [listObject, listed, hkey]

/-- The key of an addressed file is not empty. -/
lemma Addressed.newCompactKey_key {f : DiskFile} (hf : Addressed env f) :
    newCompactKey (sweepKey env f).key = sweepKey env f := by
  obtain ⟨key, hkey⟩ := Option.isSome_iff_exists.mp hf.1
  have hne : key ≠ [] := by
    rintro rfl
    unfold walkKey at hkey
    split_ifs at hkey with _ hnil
    exact hnil (Option.some.inj hkey)
  rw [sweepKey, hkey, Option.getD_some]
  rcases hhash : extractActionHash key with _ | h
  · rw [newCompactKey_of_eq_none hhash, CompactKey.key, if_pos hne, newCompactKey_of_eq_none hhash]
  · rw [newCompactKey_of_eq_some hhash, CompactKey.key, if_neg (by simp)]
    exact newCompactKey_of_eq_some (extractActionHash_hashKey h)

/-- Different addressed files have different keys. -/
lemma Addressed.sweepKey_ne {f g : DiskFile} (hf : Addressed env f) (hg : Addressed env g)
    (hne : f.path ≠ g.path) : sweepKey env f ≠ sweepKey env g := fun h =>
  hne (by rw [← hf.2, h, hg.2])

/-! ## What a sweep removes -/

lemma lastAccessOf_forgetAccess_of_ne (s : Storage) {key : Key} {ck : CompactKey}
    (hne : ck ≠ newCompactKey key) : (s.forgetAccess key).lastAccessOf ck = s.lastAccessOf ck := by
  unfold lastAccessOf forgetAccess
  rcases s.accessShards with _ | m
  · rfl
  · simp [Function.update_of_ne hne]

lemma disk_forgetClean (s : Storage) (key : Key) : (s.forgetClean key).disk = s.disk := by
  unfold forgetClean
  split <;> rfl

lemma accessShards_forgetClean (s : Storage) (key : Key) :
    (s.forgetClean key).accessShards = s.accessShards := by
  unfold forgetClean
  split <;> rfl

/-- What removing a file leaves. -/
lemma evictOne_of_fileOf {key : Key} {f : DiskFile} (hf : s.fileOf env key = some f) :
    ∃ s', s.evictOne env key f.mtimeUnix = some s' ∧
      s'.disk = s.disk.erase (env.keyToPath key) ∧
      ∀ ck, ck ≠ newCompactKey key → s'.lastAccessOf ck = s.lastAccessOf ck := by
  have hunchanged : ¬ (0 < f.mtimeUnix ∧ f.mtimeUnix ≠ f.mtimeUnix) := fun h => h.2 rfl
  simp only [evictOne, hf, if_neg hunchanged, Option.some.injEq, exists_eq_left']
  refine ⟨?_, ?_⟩
  · rw [forgetMeta, disk_forgetClean]
    rfl
  · intro ck hck
    rw [forgetMeta, lastAccessOf, accessShards_forgetClean]
    exact lastAccessOf_forgetAccess_of_ne _ hck

/-- The files `gone` have been removed from the store, and nothing else has happened to it. -/
structure Removed (env : StorageEnv) (s : Storage) (stats : EvictStats) (ageCutoff : ℤ)
    (gone : List DiskFile) (sw : Sweep) : Prop where
  /-- The other files are in place. -/
  files : sw.storage.disk.rows = s.disk.rows.filter (·.path ∉ gone.map (·.path))
  /-- What is known about accesses to them is known. -/
  access : ∀ f ∈ s.disk.rows, f.path ∉ gone.map (·.path) →
    sw.storage.lastAccessOf (sweepKey env f) = s.lastAccessOf (sweepKey env f)
  /-- The removed ones are counted. -/
  stats : sw.stats = gone.foldl (fun st f => st.count (s.victimOf env ageCutoff f)) stats

section Sweeping

variable {stats : EvictStats} {cutoff ageCutoff : ℤ} {gone waiting : List DiskFile} {sw : Sweep}

lemma Removed.find_path (h : Removed env s stats ageCutoff gone sw) {f : DiskFile}
    (hf : f ∈ s.disk.rows) (hgone : f.path ∉ gone.map (·.path)) :
    sw.storage.disk.find f.path = some f := by
  rw [Table.find_eq_some_iff, h.files, List.mem_filter]
  exact ⟨⟨hf, by simpa using hgone⟩, rfl⟩

/-- Removing one more file. -/
lemma Removed.evict (haddr : ∀ f ∈ s.disk.rows, Addressed env f)
    (h : Removed env s stats ageCutoff gone sw) {f : DiskFile} (hf : f ∈ s.disk.rows)
    (hgone : f.path ∉ gone.map (·.path)) :
    Removed env s stats ageCutoff (gone ++ [f]) (sw.evict env (s.victimOf env ageCutoff f)) := by
  have hpath : env.keyToPath (sweepKey env f).key = f.path := (haddr f hf).2
  have hfile : sw.storage.fileOf env (sweepKey env f).key = some f := by
    rw [fileOf, hpath, h.find_path hf hgone]
  obtain ⟨s', hs', hdisk, haccess⟩ := evictOne_of_fileOf hfile
  have hsw : sw.evict env (s.victimOf env ageCutoff f)
      = { sw with storage := s', stats := sw.stats.count (s.victimOf env ageCutoff f) } := by
    rw [Sweep.evict, show (s.victimOf env ageCutoff f).key = sweepKey env f from rfl,
      show (s.victimOf env ageCutoff f).mtimeUnix = f.mtimeUnix from rfl, hs']
  rw [hsw]
  refine ⟨?_, ?_, ?_⟩
  · rw [hdisk, hpath, Table.rows_erase, h.files, List.filter_filter]
    refine List.filter_congr fun g _ => ?_
    have hiff : g.path ∉ (gone ++ [f]).map (·.path)
        ↔ g.path ≠ f.path ∧ g.path ∉ gone.map (·.path) := by
      rw [List.map_append, List.mem_append, not_or, and_comm]
      simp
    rw [← Bool.decide_and, decide_eq_decide, hiff]
  · intro g hg hgg
    simp only [List.map_append, List.mem_append, not_or] at hgg
    have hne : g.path ≠ f.path := by simpa using hgg.2
    rw [haccess, h.access g hg hgg.1]
    rw [(haddr f hf).newCompactKey_key]
    exact (haddr g hg).sweepKey_ne (haddr f hf) hne
  · rw [List.foldl_append, ← h.stats]
    rfl

/-- Removing a list of files, one after the other. -/
lemma Removed.foldl_evict (haddr : ∀ f ∈ s.disk.rows, Addressed env f)
    (h : Removed env s stats ageCutoff gone sw) (hwaiting : ∀ f ∈ waiting, f ∈ s.disk.rows)
    (hnodup : ((gone ++ waiting).map (·.path)).Nodup) :
    Removed env s stats ageCutoff (gone ++ waiting)
      ((waiting.map (s.victimOf env ageCutoff)).foldl (Sweep.evict env) sw) := by
  induction waiting generalizing gone sw with
  | nil => simpa using h
  | cons f waiting ih =>
    have hsplit : gone ++ f :: waiting = (gone ++ [f]) ++ waiting := by simp
    have hgone : f.path ∉ gone.map (·.path) := by
      rw [List.map_append, List.nodup_append] at hnodup
      exact fun hmem => hnodup.2.2 _ hmem f.path (by simp) rfl
    rw [hsplit] at hnodup ⊢
    exact ih (h.evict haddr (hwaiting f (by simp)) hgone)
      (fun g hg => hwaiting g (by simp [hg])) hnodup

/-- Removing the batch. -/
lemma Removed.flush (haddr : ∀ f ∈ s.disk.rows, Addressed env f)
    (h : Removed env s stats ageCutoff gone sw)
    (hbatch : sw.batch = waiting.map (s.victimOf env ageCutoff))
    (hwaiting : ∀ f ∈ waiting, f ∈ s.disk.rows)
    (hnodup : ((gone ++ waiting).map (·.path)).Nodup) :
    Removed env s stats ageCutoff (gone ++ waiting) (sw.flush env) ∧ (sw.flush env).batch = [] := by
  unfold Sweep.flush
  split_ifs with hnil
  · obtain rfl : waiting = [] := by simpa [hbatch] using hnil
    exact ⟨by simpa using h, hnil⟩
  · -- dropping keys from the index touches neither files nor accesses
    have hstart : Removed env s stats ageCutoff gone
        { sw with storage := sw.storage.indexRemoveKeys env (sw.batch.map (·.key.key)) } :=
      ⟨h.files, h.access, h.stats⟩
    have hdone := hstart.foldl_evict haddr hwaiting hnodup
    rw [← hbatch] at hdone
    exact ⟨⟨hdone.files, hdone.access, hdone.stats⟩, rfl⟩

/-- The second walk has visited the files `seen`: those last used before the cutoff have been
removed or wait in the batch. -/
def Visited (env : StorageEnv) (s : Storage) (stats : EvictStats) (cutoff ageCutoff : ℤ)
    (seen : List DiskFile) (sw : Sweep) : Prop :=
  ∃ gone waiting, gone ++ waiting = seen.filter (s.lastUsed env · < cutoff) ∧
    Removed env s stats ageCutoff gone sw ∧
    sw.batch = waiting.map (s.victimOf env ageCutoff)

/-- Files that wait or have gone are files of the store, each once. -/
lemma nodup_of_append_eq_filter {seen rest : List DiskFile} (hrows : s.disk.rows = seen ++ rest)
    {p : DiskFile → Bool} (h : gone ++ waiting = seen.filter p) :
    ((gone ++ waiting).map (·.path)).Nodup ∧ ∀ f ∈ gone ++ waiting, f ∈ s.disk.rows := by
  have hsub : (gone ++ waiting).Sublist s.disk.rows := by
    rw [h, hrows]
    exact List.filter_sublist.trans (List.sublist_append_left _ _)
  exact ⟨s.disk.nodup_of_sublist hsub, fun f hf => hsub.subset hf⟩

/-- The walk visits one more file. -/
lemma Visited.visit (haddr : ∀ f ∈ s.disk.rows, Addressed env f) {seen rest : List DiskFile}
    {f : DiskFile} (hrows : s.disk.rows = seen ++ f :: rest)
    (h : Visited env s stats cutoff ageCutoff seen sw) :
    Visited env s stats cutoff ageCutoff (seen ++ [f])
      (sw.visit env cutoff ageCutoff f.path) := by
  obtain ⟨gone, waiting, hsplit, hremoved, hbatch⟩ := h
  have hf : f ∈ s.disk.rows := by simp [hrows]
  have hdistinct := s.disk.distinct
  rw [hrows, List.map_append, List.map_cons, List.nodup_append] at hdistinct
  have hseen : f.path ∉ seen.map (·.path) := fun hmem =>
    hdistinct.2.2 _ hmem f.path (by simp) rfl
  have hgone : f.path ∉ gone.map (·.path) := by
    intro hmem
    obtain ⟨g, hg, hpath⟩ := List.mem_map.mp hmem
    have hgseen : g ∈ seen.filter (s.lastUsed env · < cutoff) := hsplit ▸ by simp [hg]
    exact hseen (List.mem_map.mpr ⟨g, (List.mem_filter.mp hgseen).1, hpath⟩)
  have hused : lastUsedUnix (listed env f)
      (sw.storage.lastAccessOf (newCompactKey (listed env f).key)) = s.lastUsed env f := by
    rw [lastUsed, ← hremoved.access f hf hgone]
    rfl
  have hvisit : sw.visit env cutoff ageCutoff f.path
      = if cutoff ≤ s.lastUsed env f then sw
        else sw.enqueue env (s.victimOf env ageCutoff f) := by
    rw [Sweep.visit, hremoved.find_path hf hgone, Option.bind_some, (haddr f hf).listObject_eq]
    simp only [hused]
    rfl
  rw [hvisit]
  split_ifs with hcut
  · exact ⟨gone, waiting, by simp [List.filter_append, hsplit, hcut], hremoved, hbatch⟩
  have hsplit' : gone ++ (waiting ++ [f]) = (seen ++ [f]).filter (s.lastUsed env · < cutoff) := by
    rw [← List.append_assoc, hsplit]
    simp [List.filter_append, not_le.mp hcut]
  have hqueued : Removed env s stats ageCutoff gone
      { sw with batch := sw.batch ++ [s.victimOf env ageCutoff f] } :=
    ⟨hremoved.files, hremoved.access, hremoved.stats⟩
  have hbatch' : sw.batch ++ [s.victimOf env ageCutoff f]
      = (waiting ++ [f]).map (s.victimOf env ageCutoff) := by
    simp [hbatch]
  unfold Sweep.enqueue
  dsimp only
  split_ifs with hfull
  · obtain ⟨hnodup, hmem⟩ := nodup_of_append_eq_filter
      (by rw [hrows]; simp : s.disk.rows = (seen ++ [f]) ++ rest) hsplit'
    obtain ⟨hflushed, hempty⟩ := hqueued.flush haddr hbatch'
      (fun g hg => hmem g (List.mem_append_right _ hg)) hnodup
    exact ⟨gone ++ (waiting ++ [f]), [], by simpa using hsplit', hflushed, hempty⟩
  · exact ⟨gone, waiting ++ [f], hsplit', hqueued, hbatch'⟩

/-- The walk visits the files one after the other. -/
lemma Visited.foldl_visit (haddr : ∀ f ∈ s.disk.rows, Addressed env f) {seen rest : List DiskFile}
    (hrows : s.disk.rows = seen ++ rest) (h : Visited env s stats cutoff ageCutoff seen sw) :
    Visited env s stats cutoff ageCutoff s.disk.rows
      ((rest.map (·.path)).foldl (Sweep.visit env cutoff ageCutoff) sw) := by
  induction rest generalizing seen sw with
  | nil =>
    rw [hrows, List.append_nil]
    exact h
  | cons f rest ih =>
    exact ih (by rw [hrows]; simp) (h.visit haddr hrows)

/-- A sweep over addressed files removes exactly those last used before the cutoff. -/
lemma sweepBelow_spec (haddr : ∀ f ∈ s.disk.rows, Addressed env f) :
    Removed env s stats ageCutoff (s.disk.rows.filter (s.lastUsed env · < cutoff))
      (s.sweepBelow env cutoff ageCutoff stats) := by
  have hstart : Visited env s stats cutoff ageCutoff [] ⟨s, [], stats⟩ :=
    ⟨[], [], rfl, ⟨by simp, fun _ _ _ => rfl, rfl⟩, rfl⟩
  obtain ⟨gone, waiting, hsplit, hremoved, hbatch⟩ := hstart.foldl_visit haddr rfl
  obtain ⟨hnodup, hmem⟩ := nodup_of_append_eq_filter (s.disk.rows.append_nil).symm hsplit
  rw [← hsplit]
  exact (hremoved.flush haddr hbatch (fun f hf => hmem f (List.mem_append_right _ hf)) hnodup).1

end Sweeping

/-- The files that remain, when the removed ones are those that satisfy `p`. -/
lemma filter_path_notMem (s : Storage) (p : DiskFile → Bool) :
    s.disk.rows.filter (·.path ∉ (s.disk.rows.filter p).map (·.path))
      = s.disk.rows.filter fun f => !p f := by
  refine List.filter_congr ?_
  intro f hf
  rcases hp : p f with _ | _
  · have hnot : f.path ∉ (s.disk.rows.filter p).map (·.path) := by
      intro hmem
      obtain ⟨g, hg, hpath⟩ := List.mem_map.mp hmem
      obtain ⟨hg, hpg⟩ := List.mem_filter.mp hg
      rw [Table.eq_of_name_eq hg hf hpath, hp] at hpg
      cases hpg
    exact decide_eq_true hnot
  · have hmem : f.path ∈ (s.disk.rows.filter p).map (·.path) :=
      List.mem_map_of_mem (List.mem_filter.mpr ⟨hf, hp⟩)
    exact decide_eq_false fun h => h hmem

/-- Counting victims. -/
lemma foldl_count (st : EvictStats) (vs : List EvictionVictim) :
    (vs.foldl EvictStats.count st).evictedAge + (vs.foldl EvictStats.count st).evictedSize
        = st.evictedAge + st.evictedSize + vs.length ∧
      (vs.foldl EvictStats.count st).bytesFreed = st.bytesFreed + (vs.map (·.size)).sum := by
  induction vs generalizing st with
  | nil => simp
  | cons v vs ih =>
    obtain ⟨hcount, hbytes⟩ := ih (st.count v)
    rw [List.foldl_cons, hcount, hbytes]
    constructor
    · rcases hage : v.byAge with _ | _
      · simp only [EvictStats.count, hage, List.length_cons]
        simp
        omega
      · simp only [EvictStats.count, hage, List.length_cons]
        simp
        omega
    · simp [EvictStats.count, Nat.add_assoc]

/-! ## The cutoff -/

/-- The total size of the files. -/
def totalBytes (s : Storage) : ℕ :=
  (s.disk.rows.map (·.size)).sum

/-- The total size of the files that satisfy `p`. -/
def bytesWhere (s : Storage) (p : DiskFile → Prop) [DecidablePred p] : ℕ :=
  ((s.disk.rows.filter p).map (·.size)).sum

/-- The bucket of the last use of a file. -/
def bucketOf (env : StorageEnv) (s : Storage) (f : DiskFile) : ℤ :=
  (s.lastUsed env f).tdiv evictionBucketSeconds

/-- What the histogram is made of. -/
def samples (env : StorageEnv) (s : Storage) : List (ℤ × ℕ) :=
  s.disk.rows.map fun f => (s.bucketOf env f, f.size)

lemma walk_eq_map (haddr : ∀ f ∈ s.disk.rows, Addressed env f) :
    s.walk env = s.disk.rows.map (listed env) := by
  rw [walk, List.filterMap_congr fun f hf => (haddr f hf).listObject_eq, ← List.filterMap_eq_map]
  rfl

/-- The first walk over addressed files measures all of them. -/
lemma scanForEviction_spec (haddr : ∀ f ∈ s.disk.rows, Addressed env f) (needHistogram : Bool) :
    (s.scanForEviction env needHistogram).totalBytes = s.totalBytes ∧
      (needHistogram = true →
        (s.scanForEviction env needHistogram).byBucket = ofSamples (s.samples env)) := by
  have hfold : ∀ files : List DiskFile,
      ((files.map (listed env)).foldl (EvictionScan.add s needHistogram)
        ⟨0, 0, Histogram.empty, []⟩).totalBytes = (files.map (·.size)).sum ∧
      (needHistogram = true →
        ((files.map (listed env)).foldl (EvictionScan.add s needHistogram)
          ⟨0, 0, Histogram.empty, []⟩).byBucket
          = ofSamples (files.map fun f => (s.bucketOf env f, f.size))) := by
    intro files
    induction files using List.reverseRecOn with
    | nil => exact ⟨rfl, fun _ => rfl⟩
    | append_singleton files f ih =>
      rw [List.map_append, List.foldl_append, List.map_append, List.sum_append,
        List.map_append (f := fun f => (s.bucketOf env f, f.size)), List.map_singleton,
        List.map_singleton, List.map_singleton]
      refine ⟨?_, ?_⟩
      · rw [← ih.1]
        rfl
      · intro hneed
        rw [ofSamples_concat, ← ih.2 hneed]
        simp only [List.foldl_cons, List.foldl_nil, EvictionScan.add, hneed, if_true]
        rfl
  rw [scanForEviction, walk_eq_map haddr]
  exact hfold s.disk.rows

lemma sumWhere_samples (env : StorageEnv) (s : Storage) (p : ℤ → Prop) [DecidablePred p] :
    sumWhere (s.samples env) p = s.bytesWhere fun f => p (s.bucketOf env f) := by
  simp [sumWhere, samples, bytesWhere, List.filter_map, Function.comp_def]

/-- When the total is over the budget, the cutoff is the upper edge of a bucket such that the files
of earlier buckets do not cover what is over, and with those of the bucket they do. -/
lemma sizeCutoff_spec (haddr : ∀ f ∈ s.disk.rows, Addressed env f) {maxBytes : ℤ}
    (hpos : 0 < maxBytes) (hover : maxBytes < s.totalBytes) :
    ∃ b, (s.scanForEviction env (0 < maxBytes)).sizeCutoff maxBytes = bucketEdge b ∧
      (∃ f ∈ s.disk.rows, s.bucketOf env f = b) ∧
      (s.bytesWhere (s.bucketOf env · < b) : ℤ) < s.totalBytes - maxBytes ∧
      s.totalBytes - maxBytes ≤ s.bytesWhere (s.bucketOf env · ≤ b) := by
  obtain ⟨htotal, hbuckets⟩ := scanForEviction_spec haddr (decide (0 < maxBytes))
  have hsum : ((s.samples env).map Prod.snd).sum = s.totalBytes := by
    simp [samples, totalBytes, Function.comp_def]
  have hneed : (s.totalBytes - maxBytes : ℤ) ≤ (((s.samples env).map Prod.snd).sum : ℕ) := by
    rw [hsum]
    omega
  obtain ⟨b, hb, hmem, hbelow, hupto⟩ := quantile_spec (by omega) hneed
  rw [sumWhere_samples] at hbelow hupto
  refine ⟨b, ?_, ?_, hbelow, hupto⟩
  · have hneither : ¬ (maxBytes ≤ 0 ∨ (s.totalBytes : ℤ) ≤ maxBytes) := by
      omega
    rw [EvictionScan.sizeCutoff, htotal, if_neg hneither, hbuckets (decide_eq_true hpos)]
    simp only [hb]
  · obtain ⟨x, hx, rfl⟩ := List.mem_map.mp hmem
    obtain ⟨f, hf, rfl⟩ := List.mem_map.mp hx
    exact ⟨f, hf, rfl⟩

/-! ## One sweep -/

/-- What a sweep over addressed files does: exactly the files last used before the cutoff go, and
they are counted. -/
lemma evict_spec (haddr : ∀ f ∈ s.disk.rows, Addressed env f) (maxAge : Duration)
    (maxBytes now : ℤ) (hcut : 0 < s.evictCutoff env maxAge maxBytes now) :
    (s.evict env maxAge maxBytes now).2.disk.rows
        = s.disk.rows.filter (s.evictCutoff env maxAge maxBytes now ≤ s.lastUsed env ·) ∧
      (s.evict env maxAge maxBytes now).1.evictedAge
          + (s.evict env maxAge maxBytes now).1.evictedSize
        = (s.disk.rows.filter (s.lastUsed env · < s.evictCutoff env maxAge maxBytes now)).length ∧
      (s.evict env maxAge maxBytes now).1.bytesFreed
        = s.bytesWhere (s.lastUsed env · < s.evictCutoff env maxAge maxBytes now) := by
  set cutoff := s.evictCutoff env maxAge maxBytes now with hcutoff
  set scan := s.scanForEviction env (0 < maxBytes) with hscan
  set sw := s.sweepBelow env cutoff (ageCutoff env maxAge now)
    ⟨scan.scanned, 0, 0, 0, scan.totalBytes⟩ with hsw
  have hspec : Removed env s ⟨scan.scanned, 0, 0, 0, scan.totalBytes⟩ (ageCutoff env maxAge now)
      (s.disk.rows.filter (s.lastUsed env · < cutoff)) sw := sweepBelow_spec haddr
  have hevict : (s.evict env maxAge maxBytes now).1 = sw.stats ∧
      (s.evict env maxAge maxBytes now).2.disk = sw.storage.disk := by
    rw [evict, ← hscan, ← hcutoff]
    simp only [hcut, if_true, ← hsw]
    split_ifs
    · exact ⟨rfl, rfl⟩
    · exact ⟨rfl, rfl⟩
  obtain ⟨hcount, hbytes⟩ := foldl_count ⟨scan.scanned, 0, 0, 0, scan.totalBytes⟩
    ((s.disk.rows.filter (s.lastUsed env · < cutoff)).map
      (s.victimOf env (ageCutoff env maxAge now)))
  rw [List.foldl_map, ← hspec.stats] at hcount hbytes
  rw [hevict.1, hevict.2, hspec.files, filter_path_notMem, hcount, hbytes]
  refine ⟨List.filter_congr fun f _ => ?_, by simp, ?_⟩
  · rw [← decide_not, decide_eq_decide, not_lt]
  · simp [bytesWhere, victimOf, Function.comp_def]

/-- Without a positive cutoff nothing is removed. -/
lemma evict_of_cutoff_nonpos {maxAge : Duration} {maxBytes now : ℤ}
    (hcut : ¬ 0 < s.evictCutoff env maxAge maxBytes now) :
    (s.evict env maxAge maxBytes now).2.disk = s.disk ∧
      (s.evict env maxAge maxBytes now).1.evictedAge = 0 ∧
      (s.evict env maxAge maxBytes now).1.evictedSize = 0 ∧
      (s.evict env maxAge maxBytes now).1.bytesFreed = 0 := by
  simp [evict, hcut, pruneAccess]

/-- A sweep that evicts something ends with a rebuild. -/
lemma evict_of_evicted_pos {maxAge : Duration} {maxBytes now : ℤ}
    (hpos : 0 < (s.evict env maxAge maxBytes now).1.evictedAge
      + (s.evict env maxAge maxBytes now).1.evictedSize) :
    ∃ s' : Storage, (s.evict env maxAge maxBytes now).2 = s'.rebuild env := by
  let scan := s.scanForEviction env (0 < maxBytes)
  let cutoff := s.evictCutoff env maxAge maxBytes now
  let sw : Sweep :=
    if 0 < cutoff then
      s.sweepBelow env cutoff (ageCutoff env maxAge now) ⟨scan.scanned, 0, 0, 0, scan.totalBytes⟩
    else ⟨s, [], ⟨scan.scanned, 0, 0, 0, scan.totalBytes⟩⟩
  have hevict : s.evict env maxAge maxBytes now
      = if 0 < sw.stats.evictedAge + sw.stats.evictedSize then
          (sw.stats, (sw.storage.pruneAccess scan.live).rebuild env)
        else (sw.stats, sw.storage.pruneAccess scan.live) := rfl
  rw [hevict] at hpos ⊢
  by_cases hsome : 0 < sw.stats.evictedAge + sw.stats.evictedSize
  · exact ⟨_, by rw [if_pos hsome]⟩
  · rw [if_neg hsome] at hpos
    exact absurd hpos hsome

/-- The second walk passes over files that were used at the cutoff or later. -/
lemma foldl_visit_of_le {cutoff ageCutoff : ℤ} {stats : EvictStats}
    (hused : ∀ f ∈ s.disk.rows, cutoff ≤ s.lastUsed env f) (paths : List Bytes) :
    paths.foldl (Sweep.visit env cutoff ageCutoff) ⟨s, [], stats⟩ = ⟨s, [], stats⟩ := by
  induction paths with
  | nil => rfl
  | cons path paths ih =>
    suffices hvisit : Sweep.visit env cutoff ageCutoff ⟨s, [], stats⟩ path = ⟨s, [], stats⟩ by
      rw [List.foldl_cons, hvisit, ih]
    unfold Sweep.visit
    rcases hobj : (s.disk.find path).bind (listObject env.dataDir) with _ | obj
    · rfl
    obtain ⟨f, hf, hlist⟩ := Option.bind_eq_some_iff.mp hobj
    obtain ⟨key, hkey, rfl⟩ := Option.map_eq_some_iff.mp hlist
    have hlater := hused f (Table.find_eq_some_iff.mp hf).1
    simp only [lastUsed, listed, sweepKey, hkey, Option.getD_some] at hlater
    exact if_pos hlater

/-- A sweep that evicts nothing, over addressed files, leaves the files and the index as they
are. -/
lemma evict_of_evicted_eq_zero (haddr : ∀ f ∈ s.disk.rows, Addressed env f) {maxAge : Duration}
    {maxBytes now : ℤ} (hzero : (s.evict env maxAge maxBytes now).1.evictedAge
      + (s.evict env maxAge maxBytes now).1.evictedSize = 0) :
    (s.evict env maxAge maxBytes now).2.disk = s.disk ∧
      (s.evict env maxAge maxBytes now).2.index = s.index := by
  by_cases hcut : 0 < s.evictCutoff env maxAge maxBytes now
  · have hcount := (evict_spec haddr maxAge maxBytes now hcut).2.1
    rw [hzero, eq_comm, List.length_eq_zero_iff, List.filter_eq_nil_iff] at hcount
    have hsweep : ∀ stats, s.sweepBelow env (s.evictCutoff env maxAge maxBytes now)
        (ageCutoff env maxAge now) stats = ⟨s, [], stats⟩ := by
      intro stats
      rw [sweepBelow, foldl_visit_of_le (fun f hf => by simpa using hcount f hf)]
      rfl
    simp [evict, hcut, hsweep, pruneAccess]
  · simp [evict, hcut, pruneAccess]

/-- A file of a lower-case cacheprog key is addressed. -/
lemma addressed_of_hashKey {f : DiskFile} {h : Hash} (hf : f.path = env.keyToPath (hashKey h)) :
    Addressed env f := by
  have hwalk : walkKey env.dataDir f.toStoredFile = some (hashKey h) :=
    walkKey_of_extractActionHash env.sha256 env.dataDir (extractActionHash_hashKey h) hf
  refine ⟨by rw [hwalk]; rfl, ?_⟩
  rw [sweepKey, hwalk, Option.getD_some, newCompactKey_of_eq_some (extractActionHash_hashKey h), hf]
  rfl

lemma bucketOf_eq_div {f : DiskFile} (hf : 0 ≤ s.lastUsed env f) :
    s.bucketOf env f = s.lastUsed env f / evictionBucketSeconds :=
  Int.tdiv_eq_ediv_of_nonneg hf

/-- The upper edge of a bucket can wrap around, but only downwards. -/
lemma bucketEdge_le {b : ℤ} (hb : 0 ≤ b) : bucketEdge b ≤ (b + 1) * evictionBucketSeconds := by
  have hsec : evictionBucketSeconds = 600 := rfl
  rw [bucketEdge, int64, Int.bmod_def, hsec]
  split_ifs <;> omega

lemma bytesWhere_mono (s : Storage) {p q : DiskFile → Prop} [DecidablePred p] [DecidablePred q]
    (h : ∀ f ∈ s.disk.rows, p f → q f) : s.bytesWhere p ≤ s.bytesWhere q := by
  have hsub : (s.disk.rows.filter p).Sublist (s.disk.rows.filter q) := by
    have hfilter : s.disk.rows.filter p = (s.disk.rows.filter q).filter p := by
      rw [List.filter_filter]
      refine List.filter_congr ?_
      intro f hf
      by_cases hp : p f
      · simp [hp, h f hf hp]
      · simp [hp]
    rw [hfilter]
    exact List.filter_sublist
  exact (hsub.map _).sum_le_sum fun _ _ => Nat.zero_le _

/-- What a positive size cutoff has to do with the excess: the files used before any earlier
multiple of the bucket size do not cover it, nor do those of buckets before that of a file used
before the cutoff. -/
lemma sizeCutoff_minimal (haddr : ∀ f ∈ s.disk.rows, Addressed env f)
    (hused : ∀ f ∈ s.disk.rows, 0 ≤ s.lastUsed env f) {maxBytes : ℤ} (hpos : 0 < maxBytes)
    (hover : maxBytes < s.totalBytes) :
    (∀ f, s.lastUsed env f < (s.scanForEviction env (0 < maxBytes)).sizeCutoff maxBytes →
      f ∈ s.disk.rows →
      (s.bytesWhere (fun g => s.lastUsed env g / evictionBucketSeconds
        < s.lastUsed env f / evictionBucketSeconds) : ℤ) < s.totalBytes - maxBytes) ∧
    ∀ c, evictionBucketSeconds ∣ c →
      c < max 0 ((s.scanForEviction env (0 < maxBytes)).sizeCutoff maxBytes) →
      (s.bytesWhere (s.lastUsed env · < c) : ℤ) < s.totalBytes - maxBytes := by
  obtain ⟨b, hedge, ⟨f₀, hf₀, hb⟩, hbelow, -⟩ := sizeCutoff_spec haddr hpos hover
  have hsec : evictionBucketSeconds = 600 := rfl
  have hbucket : ∀ f ∈ s.disk.rows, s.bucketOf env f = s.lastUsed env f / 600 := fun f hf =>
    bucketOf_eq_div (hused f hf)
  have hb0 : 0 ≤ b := by
    have h₀ := hused f₀ hf₀
    rw [← hb, hbucket f₀ hf₀]
    omega
  have hedgeLe : (s.scanForEviction env (0 < maxBytes)).sizeCutoff maxBytes ≤ (b + 1) * 600 :=
    hedge ▸ bucketEdge_le hb0
  rw [hsec]
  constructor
  · intro f hlt hf
    refine lt_of_le_of_lt (Int.ofNat_le.mpr (s.bytesWhere_mono ?_)) hbelow
    intro g hg h
    rw [hbucket g hg]
    omega
  · rintro c ⟨k, rfl⟩ hc
    refine lt_of_le_of_lt (Int.ofNat_le.mpr (s.bytesWhere_mono ?_)) hbelow
    intro g hg h
    have hg0 := hused g hg
    rw [hbucket g hg]
    rcases max_cases 0 ((s.scanForEviction env (0 < maxBytes)).sizeCutoff maxBytes) with hm | hm
    · omega
    · omega

/-- Eviction is least-recently-used and minimal: there is one cutoff, the larger of the age cutoff
and the size cutoff, such that exactly the objects last used before it are removed and counted;
and when only the size rule applies, neither the buckets older than that of an evicted object nor
any smaller multiple of the bucket size would have covered the excess. -/
theorem evict_leastRecentlyUsed (env : StorageEnv) (s : Storage) (maxAge : Duration)
    (maxBytes now : ℤ) (hlower : ∀ f ∈ s.disk.rows, ∃ h, f.path = env.keyToPath (hashKey h))
    (hused : ∀ f ∈ s.disk.rows, 0 ≤ s.lastUsed env f) (n : ℤ) (hage : maxAge = n * 1000000000) :
    ∃ cutoff,
      cutoff = max (if 0 < maxAge then int64 (now - n) else 0)
        ((s.scanForEviction env (0 < maxBytes)).sizeCutoff maxBytes) ∧
      (s.evict env maxAge maxBytes now).2.disk.rows
        = s.disk.rows.filter (cutoff ≤ s.lastUsed env ·) ∧
      (s.evict env maxAge maxBytes now).1.evictedAge
          + (s.evict env maxAge maxBytes now).1.evictedSize
        = (s.disk.rows.filter (s.lastUsed env · < cutoff)).length ∧
      (s.evict env maxAge maxBytes now).1.bytesFreed = s.bytesWhere (s.lastUsed env · < cutoff) ∧
      (maxAge ≤ 0 → 0 < maxBytes → maxBytes < s.totalBytes →
        (∀ f ∈ s.disk.rows, s.lastUsed env f < cutoff →
          (s.bytesWhere (fun g => s.lastUsed env g / evictionBucketSeconds
            < s.lastUsed env f / evictionBucketSeconds) : ℤ) < s.totalBytes - maxBytes) ∧
        ∀ c, evictionBucketSeconds ∣ c → c < cutoff →
          (s.bytesWhere (s.lastUsed env · < c) : ℤ) < s.totalBytes - maxBytes) := by
  have haddr : ∀ f ∈ s.disk.rows, Addressed env f := fun f hf =>
    (hlower f hf).elim fun _ h => addressed_of_hashKey h
  have hageCutoff : ageCutoff env maxAge now = if 0 < maxAge then int64 (now - n) else 0 := by
    rw [ageCutoff, hage, env.duration.whole]
  refine ⟨s.evictCutoff env maxAge maxBytes now, by rw [evictCutoff, hageCutoff], ?_⟩
  rw [← and_assoc, ← and_assoc]
  constructor
  · by_cases hcut : 0 < s.evictCutoff env maxAge maxBytes now
    · obtain ⟨hfiles, hcount, hbytes⟩ := evict_spec haddr maxAge maxBytes now hcut
      exact ⟨⟨hfiles, hcount⟩, hbytes⟩
    · -- no last use is before a cutoff that is not positive
      obtain ⟨hdisk, h₁, h₂, h₃⟩ := evict_of_cutoff_nonpos hcut
      have hnone : s.disk.rows.filter (s.lastUsed env · < s.evictCutoff env maxAge maxBytes now)
          = [] := by
        refine List.filter_eq_nil_iff.mpr ?_
        intro f hf
        have h0 := hused f hf
        simp only [decide_eq_true_eq]
        omega
      have hall : s.disk.rows.filter (s.evictCutoff env maxAge maxBytes now ≤ s.lastUsed env ·)
          = s.disk.rows := by
        refine List.filter_eq_self.mpr fun f hf => decide_eq_true ?_
        have h0 := hused f hf
        omega
      rw [hdisk, hall, h₁, h₂, h₃, bytesWhere, hnone]
      exact ⟨⟨rfl, rfl⟩, rfl⟩
  · intro hnoAge hpos hover
    have hcutoff : s.evictCutoff env maxAge maxBytes now
        = max 0 ((s.scanForEviction env (0 < maxBytes)).sizeCutoff maxBytes) := by
      rw [evictCutoff, hageCutoff, if_neg (not_lt.mpr hnoAge)]
    obtain ⟨hbuckets, haligned⟩ := sizeCutoff_minimal haddr hused hpos hover
    rw [hcutoff]
    refine ⟨fun f hf hlt => hbuckets f ?_ hf, haligned⟩
    have h0 := hused f hf
    rcases lt_max_iff.mp hlt with h | h
    · exact absurd h (not_lt.mpr h0)
    · exact h

/-- A file of three bytes of a lower-case cacheprog key, written at the given time. -/
def smallFile (h : Hash) (mtime : ℤ) : DiskFile where
  path := plainEnv.keyToPath (hashKey h)
  originalKey := none
  ino := 1
  object := ⟨[1, 2, 3], mtime * 1000000000, .empty⟩
  accessUnix := none

/-- A hash other than the zero hash. -/
def oneHash : Hash := .ofValue 32 1

/-- A store with two objects, written at the times 1000 and 5000. -/
def twoObjects : Storage :=
  { Storage.empty none with
    disk := (Table.empty.put 0 (smallFile zeroHash 1000)).put 1 (smallFile oneHash 5000) }

/-- With room for four bytes, the sweep removes the older of the two. -/
theorem evict_leastRecentlyUsed_twoObjects :
    (twoObjects.evict plainEnv 0 4 9000).2.disk.rows.map (·.path)
        = [plainEnv.keyToPath (hashKey oneHash)] ∧
      (twoObjects.evict plainEnv 0 4 9000).1.bytesFreed = 3 := by
  have hlower : ∀ f ∈ twoObjects.disk.rows, ∃ h, f.path = plainEnv.keyToPath (hashKey h) := by
    intro f hf
    simp only [twoObjects, Table.mem_put] at hf
    rcases hf with rfl | ⟨rfl | ⟨hf, -⟩, -⟩
    · exact ⟨oneHash, rfl⟩
    · exact ⟨zeroHash, rfl⟩
    · cases hf
  have hused : ∀ f ∈ twoObjects.disk.rows, 0 ≤ twoObjects.lastUsed plainEnv f := by
    decide +kernel
  obtain ⟨cutoff, hcutoff, hfiles, -, hbytes, -⟩ :=
    evict_leastRecentlyUsed plainEnv twoObjects 0 4 9000 hlower hused 0 rfl
  obtain rfl : cutoff = 1200 := hcutoff.trans (by decide +kernel)
  rw [hfiles, hbytes]
  decide +kernel

end Storage

end GoBuildCache
