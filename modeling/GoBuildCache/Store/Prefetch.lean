import GoBuildCache.Index.EntryList
import GoBuildCache.Store.Serve

/-!
# What a batch adds to the requested objects

A batch get looks for objects stored at about the same time as the requested ones and streams their
bodies as well. Before it does, its guards may remove keys from the index, which lists no key that
was not listed before (`index_servableEntry`). As long as no key is listed twice, no body is added
twice: this is so in every history in which a key is stored only while it is not listed.
-/

open ByteString Transition

namespace GoBuildCache

namespace Storage

/-! ## The work of a batch -/

section ParallelFilter

variable {α β : Type} {fn : Storage → α → Option β × Storage}

lemma parallelFilter_append (s : Storage) (xs ys : List α) :
    (parallelFilter fn s (xs ++ ys)).1
      = (parallelFilter fn s xs).1 ++ (parallelFilter fn (parallelFilter fn s xs).2 ys).1 := by
  induction xs generalizing s with
  | nil => rfl
  | cons x xs ih => simp only [List.cons_append, parallelFilter, ih, List.append_assoc]

/-- Work that keeps the keys of its elements gives some of the elements a result each. -/
lemma parallelFilter_sublist (key : α → Key) (key' : β → Key)
    (hfn : ∀ s x y, (fn s x).1 = some y → key' y = key x) (s : Storage) (xs : List α) :
    ((parallelFilter fn s xs).1.map key').Sublist (xs.map key) := by
  induction xs generalizing s with
  | nil => exact List.Sublist.refl _
  | cons x xs ih =>
    have hhead : ((fn s x).1.toList.map key').Sublist [key x] := by
      rcases hy : (fn s x).1 with _ | y
      · exact List.nil_sublist _
      · rw [Option.toList_some, List.map_singleton, hfn s x y hy]
    simp only [parallelFilter, List.map_append, List.map_cons]
    exact hhead.append (ih _)

/-- What the work for each element keeps, the work of the batch keeps. -/
lemma parallelFilter_induction {P : Storage → Prop} (hfn : ∀ s x, P s → P (fn s x).2)
    {s : Storage} (hs : P s) (xs : List α) : P (parallelFilter fn s xs).2 := by
  induction xs generalizing s with
  | nil => exact hs
  | cons x xs ih => exact ih (hfn s x hs)

end ParallelFilter

/-! ## The index under the guards -/

/-- The index is the same, or has lost a key. -/
def IndexAfter (key : Key) (s s' : Storage) : Prop :=
  s'.index = s.index ∨ ∃ epoch, s'.index = s.index.remove key epoch

lemma index_delete (env : StorageEnv) (s : Storage) (key : Key) :
    IndexAfter key s (s.delete env key) := by
  rcases hf : s.fileOf env key with _ | f
  · left
    rw [delete, hf]
  · obtain ⟨accessShards, digestOK, hdelete⟩ := delete_eq hf
    right
    exact ⟨s.nextEpoch env, by rw [hdelete]⟩

lemma index_loadMetadata (s : Storage) (key : Key) (f : DiskFile) :
    (s.loadMetadata key f).2.index = s.index := by
  unfold loadMetadata
  split <;> rfl

lemma index_evictModuleIndexOnReadByKey (env : StorageEnv) (s : Storage) (key : Key)
    (md : Metadata) :
    let guard := s.evictModuleIndexOnReadByKey env key md
    (guard.1 = true → guard.2.index = s.index) ∧ IndexAfter key s guard.2 := by
  unfold evictModuleIndexOnReadByKey evictModuleIndexOnRead
  dsimp only
  split
  · exact ⟨fun _ => rfl, Or.inl rfl⟩
  · split
    · exact ⟨fun _ => rfl, Or.inl rfl⟩
    · split_ifs
      · exact ⟨fun _ => rfl, Or.inl rfl⟩
      · exact ⟨by simp, index_delete env s key⟩
      · exact ⟨fun _ => rfl, Or.inl rfl⟩

lemma index_ensureOutputID (env : StorageEnv) (s : Storage) (key : Key) (md : Metadata)
    (file : Option DiskFile) : IndexAfter key s (s.ensureOutputID env key md file).2 := by
  unfold ensureOutputID
  split_ifs
  · exact Or.inl rfl
  · dsimp only
    split
    · exact Or.inr ⟨s.nextEpoch env, rfl⟩
    · exact Or.inl rfl

/-- The guards for a key remove nothing but the key from the index. -/
lemma index_servableEntry (env : StorageEnv) (s : Storage) (key : Key) :
    IndexAfter key s (s.servableEntry env key).2 := by
  unfold servableEntry
  split
  · exact Or.inl rfl
  · next f _ =>
    have hload := s.index_loadMetadata key f
    set loaded := s.loadMetadata key f
    obtain ⟨hpass, hguard⟩ := index_evictModuleIndexOnReadByKey env loaded.2 key loaded.1
    set guard := loaded.2.evictModuleIndexOnReadByKey env key loaded.1
    dsimp only
    split_ifs with hrefused
    · rwa [IndexAfter, hload] at hguard
    · have hheal := index_ensureOutputID env guard.2 key loaded.1 none
      rwa [IndexAfter, hpass (by simpa using hrefused), hload] at hheal

lemma key_servableEntry (env : StorageEnv) (s : Storage) (key : Key) (e : BatchEntry)
    (he : (s.servableEntry env key).1 = some e) : e.key = key := by
  unfold servableEntry at he
  split at he
  · simp at he
  · dsimp only at he
    split_ifs at he
    obtain ⟨md, -, rfl⟩ := Option.map_eq_some_iff.mp he
    rfl

lemma key_openVerifiedEntry (env : StorageEnv) (now : ℤ) (s : Storage) (e : BatchEntry)
    (o : SentObject) (ho : (s.openVerifiedEntry env now e).1 = some o) : o.key = e.key := by
  unfold openVerifiedEntry at ho
  split at ho
  · simp at ho
  · dsimp only at ho
    split_ifs at ho
    cases ho
    rfl

/-! ## Keys that are listed once -/

/-- No key is listed twice in the index, and objects are listed under compact forms of keys. -/
def ListsOnce (s : Storage) : Prop :=
  s.index.Distinct ∧ s.index.Canonical

lemma ListsOnce.indexAfter {key : Key} {s s' : Storage} (hs : s.ListsOnce)
    (h : IndexAfter key s s') : s'.ListsOnce := by
  rcases h with h | ⟨epoch, h⟩
  · rwa [ListsOnce, h]
  · have honce : (IndexEvent.remove key epoch).StoresOnce s.index := by
      simp [IndexEvent.StoresOnce, IndexEvent.stores, IndexEvent.storedKeys]
    rw [ListsOnce, h]
    exact ⟨hs.1.apply zeroDigest honce, hs.2.apply zeroDigest (.remove key epoch)⟩

/-- The keys that a batch adds are pairwise distinct. -/
lemma ListsOnce.nodup_batchLookup {s : Storage} (hs : s.ListsOnce) (env : StorageEnv)
    (prefetchEnabled : Bool) (req : BatchGetRequest) :
    ∀ fresh ∈ (s.batchLookup env prefetchEnabled req).2.1, fresh.Nodup := by
  intro fresh hfresh
  unfold batchLookup at hfresh
  dsimp only at hfresh
  split_ifs at hfresh
  · have hfound := parallelFilter_induction (P := ListsOnce)
      (fun s key hs => hs.indexAfter (index_servableEntry env s key)) hs
      (req.lookup prefetchEnabled)
    obtain rfl := Option.mem_some_iff.mp hfresh
    exact hfound.1.nodup_of_subperm hfound.2 (Index.nearbyKeys_subperm ..)
  · simp at hfresh

/-- The first round keeps to the requested keys. -/
lemma keys_batchLookup_subset (env : StorageEnv) (s : Storage) (prefetchEnabled : Bool)
    (req : BatchGetRequest) :
    (s.batchLookup env prefetchEnabled req).1.map (·.key) ⊆ req.keys := by
  have hsub := parallelFilter_sublist id BatchEntry.key
    (key_servableEntry env) s (req.lookup prefetchEnabled)
  have hlookup : (req.lookup prefetchEnabled).map id ⊆ req.keys := by
    rw [List.map_id]
    unfold BatchGetRequest.lookup
    split_ifs
    · exact List.nil_subset _
    · exact List.Subset.refl _
  unfold batchLookup
  dsimp only
  split_ifs <;> exact List.Subset.trans hsub.subset hlookup

/-- A batch answers with some of the requested objects, and adds others whose keys are pairwise
distinct. -/
lemma ListsOnce.handleBatchGet {s₀ : Storage} (hs : s₀.ListsOnce) (env : StorageEnv)
    (prefetchEnabled : Bool) (req : BatchGetRequest) (now : ℤ) :
    ∃ requested prefetched, (s₀.handleBatchGet env prefetchEnabled req now).1
        = requested ++ prefetched ∧
      (∀ o ∈ requested, o.key ∈ req.keys) ∧ (prefetched.map (·.key)).Nodup := by
  by_cases hrefused : req.keys = [] ∨ maxBatchKeys < req.keys.length
  · exact ⟨[], [], by rw [Storage.handleBatchGet, if_pos hrefused]; rfl, by simp, by simp⟩
  rw [Storage.handleBatchGet, if_neg hrefused]
  have hfresh := hs.nodup_batchLookup env prefetchEnabled req
  have hfound := keys_batchLookup_subset env s₀ prefetchEnabled req
  have hopen : ∀ (s : Storage) (es : List BatchEntry),
      ((parallelFilter (openVerifiedEntry env now) s es).1.map (·.key)).Sublist
        (es.map (·.key)) :=
    parallelFilter_sublist BatchEntry.key SentObject.key (key_openVerifiedEntry env now)
  have hrequested : ∀ s : Storage, ∀ o ∈ (parallelFilter (openVerifiedEntry env now) s
      (s₀.batchLookup env prefetchEnabled req).1).1, o.key ∈ req.keys := by
    intro s o ho
    exact hfound ((hopen s _).subset (List.mem_map_of_mem ho))
  dsimp only
  rcases hlookup : (s₀.batchLookup env prefetchEnabled req).2.1 with _ | fresh
  · exact ⟨_, [], (List.append_nil _).symm, hrequested _, by simp⟩
  · have hprefetched : ∀ s s' : Storage, ((parallelFilter (openVerifiedEntry env now) s
        (s'.buildPrefetchEntries env fresh).1).1.map (·.key)).Nodup := by
      intro s s'
      have hbuild := parallelFilter_sublist id BatchEntry.key
        (key_servableEntry env) s' fresh
      rw [List.map_id] at hbuild
      exact (hfresh fresh hlookup).sublist ((hopen s _).trans hbuild)
    dsimp only
    split_ifs
    · exact ⟨[], _, (List.nil_append _).symm, by simp, hprefetched _ _⟩
    · exact ⟨_, _, parallelFilter_append _ _ _, hrequested _, hprefetched _ _⟩

end Storage

/-- After every history in which a key is stored only while it is not listed, the keys that
`NearbyKeys` returns are pairwise distinct, and a batch adds no body twice to the requested ones. -/
theorem nearbyKeys_nodup {sha256 : Sha256} {entriesOff : Bool} {blobMinInterval : Duration}
    {addLogLimit : ℤ} {epoch : UInt64} {es : List IndexEvent} {idx : Index}
    (hrun : run (IndexEvent.step sha256) (.empty entriesOff blobMinInterval addLogLimit epoch) es
      = some idx)
    (honce : Guarded (IndexEvent.step sha256) (fun idx e => e.StoresOnce idx)
      (.empty entriesOff blobMinInterval addLogLimit epoch) es) :
    (∀ startUnix endUnix limit exclude skip,
      ∃ keys, (NearbySearch.nearbyKeys idx startUnix endUnix limit exclude skip).1 = some keys ∧
        keys.Nodup) ∧
      ∀ (env : StorageEnv) (s : Storage), s.index = idx → ∀ prefetchEnabled req now,
        ∃ requested prefetched, (s.handleBatchGet env prefetchEnabled req now).1
            = requested ++ prefetched ∧
          (∀ o ∈ requested, o.key ∈ req.keys) ∧ (prefetched.map (·.key)).Nodup := by
  have hcan := Index.canonical_of_run (Index.canonical_empty _ _ _ _) hrun
  have hdistinct := Index.distinct_of_run (Index.distinct_empty _ _ _ _) honce hrun
  constructor
  · intro startUnix endUnix limit exclude skip
    obtain ⟨keys, hkeys, hsub⟩ :=
      NearbySearch.nearbyKeys_subperm idx startUnix endUnix limit exclude skip
    exact ⟨keys, hkeys, hdistinct.nodup_of_subperm hcan hsub⟩
  · rintro env s rfl prefetchEnabled req now
    exact Storage.ListsOnce.handleBatchGet ⟨hdistinct, hcan⟩ env prefetchEnabled req now

/-- After two uploads of a key `NearbyKeys` returns it twice. -/
theorem nearbyKeys_returns_twice :
    ∃ idx ∈ run (IndexEvent.step zeroDigest) (.empty false 0 0 1) twoUploads,
      (NearbySearch.nearbyKeys idx 0 10 5 [] none).1 = some [ascii "a", ascii "a"] := by
  decide +kernel

theorem nearbyKeys_nodup_uploadsOfTwoKeys :
    ∃ idx ∈ run (IndexEvent.step zeroDigest) (.empty false 0 0 1) uploadsOfTwoKeys,
      (∃ keys, (NearbySearch.nearbyKeys idx 0 10 5 [] none).1 = some keys ∧ keys.Nodup) ∧
        ∃ requested prefetched,
          (({ Storage.empty none with index := idx } : Storage).handleBatchGet plainEnv true
            ⟨[ascii "a"], true, false, fun _ => false⟩ 5).1 = requested ++ prefetched ∧
          (∀ o ∈ requested, o.key ∈ [ascii "a"]) ∧ (prefetched.map (·.key)).Nodup := by
  obtain ⟨idx, hrun, honce⟩ :
      ∃ idx ∈ run (IndexEvent.step zeroDigest) (.empty false 0 0 1) uploadsOfTwoKeys,
        Guarded (IndexEvent.step zeroDigest) (fun idx e => e.StoresOnce idx)
          (.empty false 0 0 1) uploadsOfTwoKeys := by
    decide +kernel
  obtain ⟨hkeys, hbatch⟩ := nearbyKeys_nodup hrun honce
  exact ⟨idx, hrun, hkeys 0 10 5 [] none, hbatch _ _ rfl true _ 5⟩

end GoBuildCache
