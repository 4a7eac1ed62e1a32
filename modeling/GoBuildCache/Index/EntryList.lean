import GoBuildCache.Index.Nearby
import GoBuildCache.Index.Refinement

/-!
# The list of objects over whole histories

Besides the hashes it advertises, the index lists the objects with their modification times, which
`NearbyKeys` searches. An object is listed for every upload of its key, so a key may be listed more
than once. All that the results below need to know about an event is `objects_apply`: afterwards
nothing is listed but what the event keeps of the list and what it adds (`IndexEvent.keeps`,
`IndexEvent.stores`).

`Remove` drops one object of a key and `RemoveKeys` all of them. They agree on a key that is listed
at most once (`remove_eq_removeKeys`), and then `NearbyKeys` does not return the key again before it
is stored again.
-/

open ByteString SortedList Transition

namespace GoBuildCache

/-! ## Events -/

/-- What a walk of the data directory has collected, from the keys and modification times that it
has reported. -/
def IndexBuild.ofWalk (entriesOff : Bool) (walked : List (Key × ℤ)) : IndexBuild :=
  walked.foldl (fun b obj => b.add obj.1 obj.2) (.new entriesOff)

/-- An event in the history of an index. -/
inductive IndexEvent where
  /-- `Put`, at the time `now` in seconds. -/
  | put (key : Key) (now : ℤ) (epoch : UInt64)
  /-- `Remove`. -/
  | remove (key : Key) (epoch : UInt64)
  /-- `RemoveKeys`. -/
  | removeKeys (keys : List Key) (epoch : UInt64)
  /-- A rebuild from a walk. -/
  | rebuild (walked : List (Key × ℤ)) (epoch : UInt64)
  /-- A call that reads the index. -/
  | read (c : IndexCall) (hread : c.readOnly = true)

namespace IndexEvent

/-- The call that the event makes. -/
def call (idx : Index) : IndexEvent → IndexCall
  | put key now epoch => .op (.put key now epoch)
  | remove key epoch => .op (.remove key epoch)
  | removeKeys keys epoch => .op (.removeKeys keys epoch)
  | rebuild walked epoch => .op (.applyRebuild (.ofWalk idx.entriesOff walked) epoch)
  | read c _ => c

/-- The index after the event. -/
def apply (sha256 : Sha256) (idx : Index) (e : IndexEvent) : Index :=
  (e.call idx).apply sha256 idx

/-- One event, as a step. -/
def step (sha256 : Sha256) (idx : Index) (e : IndexEvent) : Option Index :=
  some (e.apply sha256 idx)

/-- The keys that the event stores. -/
def storedKeys : IndexEvent → List (Key × ℤ)
  | put key now _ => [(key, now)]
  | rebuild walked _ => walked
  | _ => []

end IndexEvent

namespace Index

/-- Everything listed: the sorted list, and what was added since. -/
def objects (idx : Index) : List IndexEntry :=
  idx.entries ++ idx.pendingEntries

end Index

namespace IndexEvent

/-- What the event adds to the list, unless the list is turned off. -/
def stores (idx : Index) (e : IndexEvent) : List IndexEntry :=
  if idx.entriesOff then [] else e.storedKeys.map fun obj => ⟨newCompactKey obj.1, obj.2⟩

/-- What the event may keep of the list; a rebuild keeps what was added since. -/
def keeps (idx : Index) : IndexEvent → List IndexEntry
  | rebuild _ _ => idx.pendingEntries
  | _ => idx.objects

end IndexEvent

/-! ## What an event does to the list -/

lemma entries_ofWalk (entriesOff : Bool) (walked : List (Key × ℤ)) :
    (IndexBuild.ofWalk entriesOff walked).entries
      = if entriesOff then [] else walked.map fun obj => ⟨newCompactKey obj.1, obj.2⟩ := by
  have hfold : ∀ (walked : List (Key × ℤ)) (b : IndexBuild),
      (walked.foldl (fun b obj => b.add obj.1 obj.2) b).entries
        = b.entries ++
          if b.entriesOff then [] else walked.map fun obj => ⟨newCompactKey obj.1, obj.2⟩ := by
    intro walked
    induction walked with
    | nil => simp
    | cons obj walked ih =>
      intro b
      rw [List.foldl_cons, ih]
      cases hoff : b.entriesOff <;> simp [IndexBuild.add, hoff]
  rw [IndexBuild.ofWalk, hfold]
  rfl

lemma entries_finish_perm (b : IndexBuild) : b.finish.entries.Perm b.entries := by
  unfold IndexBuild.finish
  split_ifs
  · exact List.Perm.refl _
  · exact List.perm_insertionSort _ _

namespace Index

/-- Draining moves objects but lists the same ones. -/
lemma objects_drainEntriesLocked (idx : Index) :
    idx.drainEntriesLocked.entries.Perm idx.objects := by
  simp only [drainEntriesLocked, objects]
  split_ifs with hnil
  · rw [hnil, List.append_nil]
  · exact List.perm_insertionSort _ _

/-- The entries after a single removal. -/
lemma objects_remove (idx : Index) (key : Key) (epoch : UInt64) :
    (idx.remove key epoch).objects
      = idx.drainEntriesLocked.entries.eraseP (·.key = newCompactKey key) := by
  unfold remove
  dsimp only
  split <;> simp [objects, resetAddLogLocked, drainEntriesLocked]

/-- The entries after a batch removal. -/
lemma objects_removeKeys {keys : List Key} (hkeys : keys ≠ []) (idx : Index) (epoch : UInt64) :
    (idx.removeKeys keys epoch).objects
      = idx.drainEntriesLocked.entries.filter (·.key ∉ keys.map newCompactKey) := by
  unfold removeKeys
  rw [if_neg hkeys]
  dsimp only
  split_ifs <;> simp [objects, resetAddLogLocked, drainEntriesLocked]

lemma objects_appendAddLocked (idx : Index) (hash : Hash) (epoch : UInt64) :
    (idx.appendAddLocked hash epoch).objects = idx.objects := by
  unfold appendAddLocked
  dsimp only
  split_ifs <;> rfl

lemma objects_put (idx : Index) (key : Key) (now : ℤ) (epoch : UInt64) :
    (idx.put key now epoch).objects
      = idx.objects ++ if idx.entriesOff then [] else [⟨newCompactKey key, now⟩] := by
  have hbuffer : ∀ idx' : Index, idx'.entries = idx.entries → idx'.pendingEntries =
      (if idx.entriesOff then idx.pendingEntries
        else idx.pendingEntries ++ [⟨newCompactKey key, now⟩]) →
      idx'.objects
        = idx.objects ++ if idx.entriesOff then [] else [⟨newCompactKey key, now⟩] := by
    intro idx' hentries hpending
    rw [objects, objects, hentries, hpending]
    split_ifs <;> simp
  unfold put
  dsimp only
  cases (newCompactKey key).actionHash with
  | none => exact hbuffer _ rfl rfl
  | some hash => exact (objects_appendAddLocked _ hash epoch).trans (hbuffer _ rfl rfl)

lemma objects_blobGenForm (sha256 : Sha256) (idx : Index) (form : IndexForm) (clock : BlobClock) :
    (idx.blobGenForm sha256 form clock).2.objects = idx.objects := by
  unfold blobGenForm blobLocked
  split
  · rfl
  · split
    · rfl
    · rfl

end Index

/-- A call that reads the index lists the same objects afterwards. -/
lemma objects_read (sha256 : Sha256) (idx : Index) {c : IndexCall} (hc : c.readOnly = true) :
    (c.apply sha256 idx).objects.Perm idx.objects := by
  cases c with
  | op o =>
    cases o with
    | blobGenForm form clock => rw [IndexCall.apply, IndexOp.apply, idx.objects_blobGenForm]
    | deltaForm start form => exact List.Perm.refl _
    | put key now epoch => simp [IndexCall.readOnly] at hc
    | remove key epoch => simp [IndexCall.readOnly] at hc
    | removeKeys keys epoch => simp [IndexCall.readOnly] at hc
    | applyRebuild b epoch => simp [IndexCall.readOnly] at hc
    | setBlobInterval d => simp [IndexCall.readOnly] at hc
  | wireSize form now => exact List.Perm.refl _
  | nearbyKeys startUnix endUnix limit exclude skip =>
    have hdrained : (idx.nearbyKeys startUnix endUnix limit exclude skip).2.objects
        = idx.drainEntriesLocked.entries := List.append_nil _
    rw [IndexCall.apply, hdrained]
    exact idx.objects_drainEntriesLocked

/-- After an event nothing is listed but what it keeps and what it adds. -/
theorem objects_apply (sha256 : Sha256) (idx : Index) (e : IndexEvent) :
    (e.apply sha256 idx).objects.Subperm (e.keeps idx ++ e.stores idx) := by
  have hdrain := idx.objects_drainEntriesLocked
  cases e with
  | put key now epoch =>
    have hput := idx.objects_put key now epoch
    rw [IndexEvent.apply, IndexEvent.call, IndexCall.apply, IndexOp.apply, hput]
    exact List.Subperm.refl _
  | remove key epoch =>
    have hremove := idx.objects_remove key epoch
    rw [IndexEvent.apply, IndexEvent.call, IndexCall.apply, IndexOp.apply, hremove]
    have hsub := (List.eraseP_sublist (p := (·.key = newCompactKey key))
      (l := idx.drainEntriesLocked.entries)).subperm
    exact (hsub.trans hdrain.subperm).trans (List.sublist_append_left _ _).subperm
  | removeKeys keys epoch =>
    rw [IndexEvent.apply, IndexEvent.call, IndexCall.apply, IndexOp.apply]
    refine List.Subperm.trans ?_ (List.sublist_append_left _ _).subperm
    by_cases hkeys : keys = []
    · rw [Index.removeKeys, if_pos hkeys]
      exact List.Subperm.refl _
    · rw [idx.objects_removeKeys hkeys]
      exact List.filter_sublist.subperm.trans hdrain.subperm
  | rebuild walked epoch =>
    have hrebuild : ((IndexEvent.rebuild walked epoch).apply sha256 idx).objects
        = (IndexBuild.ofWalk idx.entriesOff walked).finish.entries ++ idx.pendingEntries := rfl
    have hfinish := entries_finish_perm (.ofWalk idx.entriesOff walked)
    rw [entries_ofWalk] at hfinish
    rw [hrebuild]
    exact ((hfinish.append_right _).trans List.perm_append_comm).subperm
  | read c hread =>
    exact (objects_read sha256 idx hread).subperm.trans (List.sublist_append_left _ _).subperm

/-! ## Keys of listed objects -/

/-- The key that is rebuilt from a compact form has that compact form. -/
lemma newCompactKey_key_newCompactKey (k : Key) :
    newCompactKey (newCompactKey k).key = newCompactKey k := by
  have hhash : ∀ h : Hash, newCompactKey (CompactKey.key ⟨h, []⟩) = ⟨h, []⟩ := by
    intro h
    rw [CompactKey.key, if_neg (by simp)]
    exact newCompactKey_of_eq_some (extractActionHash_hashKey h)
  rcases hk : extractActionHash k with _ | h
  · rw [newCompactKey_of_eq_none hk]
    by_cases hnil : k = []
    · rw [hnil]
      exact hhash zeroHash
    · rw [CompactKey.key, if_pos hnil]
      exact newCompactKey_of_eq_none hk
  · rw [newCompactKey_of_eq_some hk]
    exact hhash h

namespace Index

/-- Every object is listed under the compact form of a key. -/
def Canonical (idx : Index) : Prop :=
  ∀ e ∈ idx.objects, newCompactKey e.key.key = e.key

/-- No object is listed under the compact form. -/
def Lacks (idx : Index) (ck : CompactKey) : Prop :=
  ∀ e ∈ idx.objects, e.key ≠ ck

lemma keeps_sublist (idx : Index) (e : IndexEvent) : (e.keeps idx).Sublist idx.objects := by
  cases e with
  | rebuild walked epoch => exact List.sublist_append_right _ _
  | put key now epoch => exact List.Sublist.refl _
  | remove key epoch => exact List.Sublist.refl _
  | removeKeys keys epoch => exact List.Sublist.refl _
  | read c hread => exact List.Sublist.refl _

/-- An object listed after an event was listed before, or the event has stored its key. -/
lemma mem_objects_apply {sha256 : Sha256} {idx : Index} {e : IndexEvent} {x : IndexEntry}
    (hx : x ∈ (e.apply sha256 idx).objects) :
    x ∈ idx.objects ∨ ∃ obj ∈ e.storedKeys, x.key = newCompactKey obj.1 := by
  rcases List.mem_append.mp ((objects_apply sha256 idx e).subset hx) with hx | hx
  · exact Or.inl ((keeps_sublist idx e).subset hx)
  · right
    unfold IndexEvent.stores at hx
    split_ifs at hx
    · simp at hx
    · obtain ⟨obj, hobj, rfl⟩ := List.mem_map.mp hx
      exact ⟨obj, hobj, rfl⟩

lemma Canonical.apply {idx : Index} (h : idx.Canonical) (sha256 : Sha256) (e : IndexEvent) :
    (e.apply sha256 idx).Canonical := by
  intro x hx
  rcases mem_objects_apply hx with hx | ⟨obj, -, hobj⟩
  · exact h x hx
  · rw [hobj, newCompactKey_key_newCompactKey]

lemma Lacks.apply {idx : Index} {ck : CompactKey} (h : idx.Lacks ck) (sha256 : Sha256)
    {e : IndexEvent} (he : ∀ obj ∈ e.storedKeys, newCompactKey obj.1 ≠ ck) :
    (e.apply sha256 idx).Lacks ck := by
  intro x hx
  rcases mem_objects_apply hx with hx | ⟨obj, hmem, hobj⟩
  · exact h x hx
  · rw [hobj]
    exact he obj hmem

/-- In every history the objects are listed under compact forms of keys. -/
lemma canonical_of_run {sha256 : Sha256} {idx idx' : Index} {es : List IndexEvent}
    (h : idx.Canonical) (hrun : run (IndexEvent.step sha256) idx es = some idx') :
    idx'.Canonical := by
  refine run_invariant_of_step ?_ h hrun
  intro s e s' hs hstep
  cases hstep
  exact hs.apply sha256 e

lemma canonical_empty (entriesOff : Bool) (blobMinInterval : Duration) (addLogLimit : ℤ)
    (epoch : UInt64) : (empty entriesOff blobMinInterval addLogLimit epoch).Canonical := by
  intro e he
  cases he

/-- A key that is not listed stays so until it is stored. -/
lemma lacks_of_run {sha256 : Sha256} {idx idx' : Index} {ck : CompactKey} {es : List IndexEvent}
    (h : idx.Lacks ck) (hes : ∀ e ∈ es, ∀ obj ∈ e.storedKeys, newCompactKey obj.1 ≠ ck)
    (hrun : run (IndexEvent.step sha256) idx es = some idx') : idx'.Lacks ck := by
  refine run_invariant (I := fun idx => idx.Lacks ck) ?_ h ((guarded_true idx es).and_forall hes)
    hrun
  intro s e s' hs he hstep
  cases hstep
  exact hs.apply sha256 he.2

/-- `NearbyKeys` does not return a key that is not listed. -/
lemma Lacks.nearbyKeys {idx : Index} {ck : CompactKey} (h : idx.Lacks ck) (hcan : idx.Canonical)
    (startUnix endUnix limit : ℤ) (exclude : List Key) (skip : Option (Key → Bool)) :
    ∃ keys, (NearbySearch.nearbyKeys idx startUnix endUnix limit exclude skip).1 = some keys ∧
      ∀ key ∈ keys, newCompactKey key ≠ ck := by
  obtain ⟨keys, hkeys, hsub⟩ :=
    NearbySearch.nearbyKeys_subperm idx startUnix endUnix limit exclude skip
  refine ⟨keys, hkeys, fun key hkey => ?_⟩
  obtain ⟨e, he, rfl⟩ := List.mem_map.mp (hsub.subset hkey)
  have hmem := idx.objects_drainEntriesLocked.mem_iff.mp he
  rw [hcan e hmem]
  exact h e hmem

/-! ## Keys that are listed once -/

/-- No key is listed twice. -/
def Distinct (idx : Index) : Prop :=
  (idx.objects.map (·.key)).Nodup

instance (idx : Index) : Decidable idx.Distinct :=
  inferInstanceAs (Decidable (List.Nodup _))

end Index

/-- The event stores no key that stays listed, and no key twice. -/
def IndexEvent.StoresOnce (idx : Index) (e : IndexEvent) : Prop :=
  ((e.stores idx).map (·.key)).Nodup ∧ ∀ x ∈ e.stores idx, ∀ y ∈ e.keeps idx, x.key ≠ y.key

instance (idx : Index) (e : IndexEvent) : Decidable (e.StoresOnce idx) :=
  inferInstanceAs (Decidable (_ ∧ _))

namespace Index

lemma nodup_of_subperm {α : Type*} {l l' : List α} (h : l.Subperm l') (hl' : l'.Nodup) :
    l.Nodup := by
  obtain ⟨m, hperm, hsub⟩ := h
  exact hperm.nodup_iff.mp (hl'.sublist hsub)

lemma map_subperm {α β : Type*} (f : α → β) {l l' : List α} (h : l.Subperm l') :
    (l.map f).Subperm (l'.map f) := by
  obtain ⟨m, hperm, hsub⟩ := h
  exact ⟨m.map f, hperm.map f, hsub.map f⟩

lemma distinct_empty (entriesOff : Bool) (blobMinInterval : Duration) (addLogLimit : ℤ)
    (epoch : UInt64) : (empty entriesOff blobMinInterval addLogLimit epoch).Distinct :=
  List.nodup_nil

lemma Distinct.apply {idx : Index} (h : idx.Distinct) (sha256 : Sha256) {e : IndexEvent}
    (he : e.StoresOnce idx) : (e.apply sha256 idx).Distinct := by
  refine nodup_of_subperm (map_subperm _ (objects_apply sha256 idx e)) ?_
  rw [List.map_append]
  refine List.Nodup.append (h.sublist ((keeps_sublist idx e).map _)) he.1 ?_
  intro k hk hk'
  obtain ⟨y, hy, rfl⟩ := List.mem_map.mp hk
  obtain ⟨x, hx, hxy⟩ := List.mem_map.mp hk'
  exact he.2 x hx y hy hxy

/-- Different objects have different keys. -/
lemma Distinct.nodup_keys {idx : Index} (h : idx.Distinct) (hcan : idx.Canonical) :
    (idx.objects.map (·.key.key)).Nodup := by
  have hinj : ∀ x ∈ idx.objects, ∀ y ∈ idx.objects, x.key.key = y.key.key → x.key = y.key := by
    intro x hx y hy hxy
    rw [← hcan x hx, ← hcan y hy, hxy]
  have hpair := List.pairwise_map.mp h
  refine List.pairwise_map.mpr (hpair.imp_of_mem ?_)
  intro x y hx hy hne heq
  exact hne (hinj x hx y hy heq)

/-- After every history whose events store no key that is listed, no key is listed twice. -/
lemma distinct_of_run {sha256 : Sha256} {idx idx' : Index} {es : List IndexEvent}
    (h : idx.Distinct)
    (hes : Guarded (IndexEvent.step sha256) (fun idx e => e.StoresOnce idx) idx es)
    (hrun : run (IndexEvent.step sha256) idx es = some idx') : idx'.Distinct := by
  refine run_invariant (I := Distinct) ?_ h hes hrun
  intro s e s' hs he hstep
  cases hstep
  exact hs.apply sha256 he

/-- The keys of objects at different positions are different. -/
lemma Distinct.nodup_of_subperm {idx : Index} (h : idx.Distinct) (hcan : idx.Canonical)
    {keys : List Key} (hkeys : keys.Subperm (idx.drainEntriesLocked.entries.map (·.key.key))) :
    keys.Nodup :=
  Index.nodup_of_subperm
    (hkeys.trans (idx.objects_drainEntriesLocked.map _).subperm) (h.nodup_keys hcan)

/-- `Index.nearbyKeys` returns keys of objects at different positions as well. -/
lemma nearbyKeys_subperm (idx : Index) (startUnix endUnix : ℤ) (limit : ℕ) (exclude : List Key)
    (skip : Option (Key → Bool)) :
    (idx.nearbyKeys startUnix endUnix limit exclude skip).1.Subperm
      (idx.drainEntriesLocked.entries.map (·.key.key)) := by
  rw [nearbyKeys]
  dsimp only
  set entries := idx.drainEntriesLocked.entries
  rw [nearbyKeysLocked, scanNearby_eq_takeWanted]
  refine (takeWanted_sublist ..).subperm.trans (map_subperm _ ?_)
  refine (List.merge_perm_append ..).subperm.trans ?_
  refine (((List.reverse_perm _).append_right _).subperm).trans ?_
  rw [List.take_append_drop]
  exact ((List.drop_sublist ..).trans (List.take_sublist ..)).subperm

/-! ## Single and batch removal -/

/-- Dropping the first element with a property drops all of them, if there is at most one. -/
lemma eraseP_eq_filter {α : Type*} {p : α → Bool} {l : List α} (h : l.countP p ≤ 1) :
    l.eraseP p = l.filter (!p ·) := by
  induction l with
  | nil => rfl
  | cons x l ih =>
    cases hx : p x with
    | true =>
      rw [List.countP_cons_of_pos hx] at h
      have hnone : ∀ y ∈ l, p y = false := by
        simpa using List.countP_eq_zero.mp (by omega : l.countP p = 0)
      rw [List.eraseP_cons_of_pos hx, List.filter_cons_of_neg (by simp [hx]),
        List.filter_eq_self.mpr fun y hy => by simp [hnone y hy]]
    | false =>
      rw [List.countP_cons_of_neg (by simp [hx])] at h
      rw [List.eraseP_cons_of_neg (by simp [hx]), List.filter_cons_of_pos (by simp [hx]), ih h]

/-- On a key that is listed at most once the two removals leave the same list. -/
lemma objects_remove_eq_removeKeys {idx : Index} {k : Key}
    (hone : idx.objects.countP (·.key = newCompactKey k) ≤ 1) (epoch epoch' : UInt64) :
    (idx.remove k epoch).objects = (idx.removeKeys [k] epoch').objects := by
  rw [← idx.objects_drainEntriesLocked.countP_eq] at hone
  rw [idx.objects_remove, idx.objects_removeKeys (List.cons_ne_nil k []), eraseP_eq_filter hone]
  refine List.filter_congr fun e _ => ?_
  simp

lemma lacks_removeKeys (idx : Index) (k : Key) (epoch : UInt64) :
    (idx.removeKeys [k] epoch).Lacks (newCompactKey k) := by
  intro e he
  rw [idx.objects_removeKeys (List.cons_ne_nil k [])] at he
  simpa using (List.mem_filter.mp he).2

lemma pendingEntries_remove (idx : Index) (k : Key) (epoch : UInt64) :
    (idx.remove k epoch).pendingEntries = [] := by
  unfold remove
  dsimp only
  split <;> rfl

lemma pendingEntries_removeKeys (idx : Index) {keys : List Key} (hkeys : keys ≠ [])
    (epoch : UInt64) : (idx.removeKeys keys epoch).pendingEntries = [] := by
  unfold removeKeys
  rw [if_neg hkeys]
  dsimp only
  split_ifs <;> rfl

lemma objects_of_drained {idx : Index} (h : idx.pendingEntries = []) :
    idx.objects = idx.entries := by
  rw [objects, h, List.append_nil]

end Index

/-- In every history: on a key that is listed at most once, `Remove` and `RemoveKeys` lead to the
same advertised set and to the same list of objects, and `NearbyKeys` does not return the key again
before a key with its compact form is stored. -/
theorem remove_agrees_removeKeys {sha256 : Sha256} {entriesOff : Bool} {blobMinInterval : Duration}
    {addLogLimit : ℤ} {epoch : UInt64} {es : List IndexEvent} {idx : Index}
    (hrun : run (IndexEvent.step sha256) (.empty entriesOff blobMinInterval addLogLimit epoch) es
      = some idx) {k : Key} (hone : idx.objects.countP (·.key = newCompactKey k) ≤ 1)
    (epoch₁ epoch₂ : UInt64) :
    (∀ h, (idx.remove k epoch₁).Advertises h ↔ (idx.removeKeys [k] epoch₂).Advertises h) ∧
      (idx.remove k epoch₁).entries = (idx.removeKeys [k] epoch₂).entries ∧
      (idx.remove k epoch₁).pendingEntries = (idx.removeKeys [k] epoch₂).pendingEntries ∧
      ∀ removed ∈ [idx.remove k epoch₁, idx.removeKeys [k] epoch₂], ∀ es' idx',
        run (IndexEvent.step sha256) removed es' = some idx' →
        (∀ e ∈ es', ∀ obj ∈ e.storedKeys, newCompactKey obj.1 ≠ newCompactKey k) →
        ∀ startUnix endUnix limit exclude skip,
          ∃ keys,
            (NearbySearch.nearbyKeys idx' startUnix endUnix limit exclude skip).1 = some keys ∧
            ∀ key ∈ keys, newCompactKey key ≠ newCompactKey k := by
  have hpending := idx.pendingEntries_remove k epoch₁
  have hpending' := idx.pendingEntries_removeKeys (List.cons_ne_nil k []) epoch₂
  have hobjects := Index.objects_remove_eq_removeKeys hone epoch₁ epoch₂
  refine ⟨?_, ?_, hpending.trans hpending'.symm, ?_⟩
  · intro h
    rw [Index.advertises_remove, Index.advertises_removeKeys]
    simp
  · rwa [Index.objects_of_drained hpending, Index.objects_of_drained hpending'] at hobjects
  · intro removed hremoved es' idx' hrun' hes' startUnix endUnix limit exclude skip
    have hcan := Index.canonical_of_run (Index.canonical_empty _ _ _ _) hrun
    have hlacks' := idx.lacks_removeKeys k epoch₂
    -- both states come from a reachable one by an event, so both keep to compact forms
    obtain ⟨hlacks, hcan'⟩ : removed.Lacks (newCompactKey k) ∧ removed.Canonical := by
      rcases List.mem_pair.mp hremoved with rfl | rfl
      · refine ⟨?_, hcan.apply sha256 (.remove k epoch₁)⟩
        rwa [Index.Lacks, hobjects]
      · exact ⟨hlacks', hcan.apply sha256 (.removeKeys [k] epoch₂)⟩
    exact (Index.lacks_of_run hlacks hes' hrun').nearbyKeys
      (Index.canonical_of_run hcan' hrun') startUnix endUnix limit exclude skip

/-- Two uploads of one key. -/
def twoUploads : List IndexEvent :=
  [.put (ascii "a") 1 2, .put (ascii "a") 2 3]

/-- After two uploads of a key `Remove` leaves the second one in the list, and `NearbyKeys` returns
the key; `RemoveKeys` drops both. -/
theorem remove_keeps_second_upload :
    ∃ idx ∈ run (IndexEvent.step zeroDigest) (.empty false 0 0 1) twoUploads,
      (idx.remove (ascii "a") 4).entries ≠ (idx.removeKeys [ascii "a"] 4).entries ∧
        (NearbySearch.nearbyKeys (idx.remove (ascii "a") 4) 0 10 5 [] none).1
          = some [ascii "a"] ∧
        (NearbySearch.nearbyKeys (idx.removeKeys [ascii "a"] 4) 0 10 5 [] none).1 = some [] := by
  decide +kernel

/-- Uploads of two keys. -/
def uploadsOfTwoKeys : List IndexEvent :=
  [.put (ascii "a") 1 2, .put (ascii "b") 2 3]

theorem remove_agrees_removeKeys_uploadsOfTwoKeys :
    ∃ idx ∈ run (IndexEvent.step zeroDigest) (.empty false 0 0 1) uploadsOfTwoKeys,
      (idx.remove (ascii "a") 4).entries = [⟨newCompactKey (ascii "b"), 2⟩] ∧
        (idx.removeKeys [ascii "a"] 5).entries = (idx.remove (ascii "a") 4).entries ∧
        ∃ keys, (NearbySearch.nearbyKeys (idx.remove (ascii "a") 4) 0 10 5 [] none).1 = some keys ∧
          ascii "a" ∉ keys := by
  obtain ⟨idx, hrun, hone, hleft⟩ :
      ∃ idx ∈ run (IndexEvent.step zeroDigest) (.empty false 0 0 1) uploadsOfTwoKeys,
        idx.objects.countP (·.key = newCompactKey (ascii "a")) ≤ 1 ∧
          (idx.remove (ascii "a") 4).entries = [⟨newCompactKey (ascii "b"), 2⟩] := by
    decide +kernel
  obtain ⟨-, hsame, -, hnearby⟩ := remove_agrees_removeKeys hrun hone 4 5
  obtain ⟨keys, hkeys, hne⟩ :=
    hnearby (idx.remove (ascii "a") 4) (by simp) [] _ rfl (by simp) 0 10 5 [] none
  exact ⟨idx, hrun, hleft, hsame.symm, keys, hkeys, fun ha => hne _ ha rfl⟩

end GoBuildCache
