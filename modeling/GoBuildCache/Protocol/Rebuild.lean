import GoBuildCache.Foundation.Transition
import GoBuildCache.Index.State
import GoBuildCache.Store.Walk

/-!
# Rebuilding the index while uploads arrive

A rebuild walks the data directory without a lock and then replaces the master list of the index by
what it has seen. Uploads that arrive meanwhile are to survive in the pending buffer, which the
rebuild leaves alone. They do not if a serialization empties that buffer into the master list
before the rebuild replaces it: `rebuild_loses_upload` is such a run.

The system (`RebuildState.step`) has one rebuild and any number of uploads, index fetches and
look-ups of nearby keys. A walk visits every file that is in place when it starts; whether it
visits one that arrives later is left open. Checks under the read lock and `Contains` change
nothing and are not steps. `rebuild_keeps_uploads` shows that no upload is lost in a run whose
rebuild meets `KeepsMoved`: what serializations have moved out of the pending buffer during the
walk has been seen by the walk, or is pending again.
-/

open ByteString Transition

namespace GoBuildCache

/-- A walk of the data directory in progress. -/
structure DirWalk where
  /-- What it has collected. -/
  build : IndexBuild
  /-- The files that were in place when it started and that it has not visited yet. -/
  unseen : List Bytes
  /-- The hashes that have left the pending buffer since it started. -/
  moved : List Hash

/-- The walk visits a file. -/
def DirWalk.visit (d : DataDir) (w : DirWalk) (f : StoredFile) (mtime : ℤ) : DirWalk where
  build :=
    match walkKey d f with
    | none => w.build
    | some key => w.build.add key mtime
  unseen := w.unseen.filter (· ≠ f.path)
  moved := w.moved

/-- How far the rebuild is. -/
inductive RebuildPhase where
  | idle
  | walking (w : DirWalk)
  | applied
  | returned

/-- Records that hashes have left the pending buffer. -/
def RebuildPhase.move (hs : List Hash) : RebuildPhase → RebuildPhase
  | walking w => walking { w with moved := w.moved ++ hs }
  | phase => phase

/-- The store, the index, and the requests in progress. -/
structure RebuildState where
  /-- The index. -/
  index : Index
  /-- The files of the data directory. -/
  files : List StoredFile
  /-- The uploads whose file is in place and which have not reached the index. -/
  uploading : List Key
  /-- The uploads whose `Index.Put` is complete. -/
  completed : List Key
  /-- The rebuild. -/
  phase : RebuildPhase

namespace RebuildState

/-- What can happen. -/
inductive Label where
  /-- An upload renames its file into place. -/
  | rename (key : Key)
  /-- An upload records its key in the index. -/
  | indexPut (key : Key) (now : ℤ) (epoch : UInt64)
  /-- A request serializes the index under the write lock. -/
  | blobGenForm (form : IndexForm) (recheck built : Time)
  /-- A request for nearby keys sorts the list of objects. -/
  | nearbyKeys
  /-- The rebuild starts its walk. -/
  | startWalk
  /-- The walk visits the file at a path. -/
  | visit (path : Bytes) (mtime : ℤ)
  /-- The walk is over, and its result replaces the master state. -/
  | applyRebuild (epoch : UInt64)
  /-- The rebuild returns. -/
  | finish

/-- The file at a path. -/
def fileAt (s : RebuildState) (path : Bytes) : Option StoredFile :=
  s.files.find? (·.path = path)

/-- One step. -/
def step (sha256 : Sha256) (d : DataDir) (s : RebuildState) : Label → Option RebuildState
  | .rename key =>
    let f := storedFile sha256 d key
    if key = [] then none
    else some { s with
      files := f :: s.files.filter (·.path ≠ f.path), uploading := key :: s.uploading }
  | .indexPut key now epoch =>
    if key ∈ s.uploading then
      some { s with
        index := s.index.put key now epoch
        uploading := s.uploading.erase key
        completed := key :: s.completed }
    else none
  | .blobGenForm form recheck built =>
    let index := (s.index.blobLocked sha256 form recheck built).2
    some { s with
      index := index, phase := s.phase.move (s.index.pending.filter (· ∉ index.pending)) }
  | .nearbyKeys => some { s with index := s.index.drainEntriesLocked }
  | .startWalk =>
    match s.phase with
    | .idle =>
      some { s with phase := .walking ⟨.new s.index.entriesOff, s.files.map (·.path), []⟩ }
    | _ => none
  | .visit path mtime =>
    match s.phase, s.fileAt path with
    | .walking w, some f => some { s with phase := .walking (w.visit d f mtime) }
    | _, _ => none
  | .applyRebuild epoch =>
    match s.phase with
    | .walking w =>
      if w.unseen = [] then
        some { s with index := s.index.applyRebuild w.build epoch, phase := .applied }
      else none
    | _ => none
  | .finish =>
    match s.phase with
    | .applied => some { s with phase := .returned }
    | _ => none

/-- A server with some files and a new index, before its rebuild. -/
def start (files : List StoredFile) (index : Index) : RebuildState :=
  ⟨index, files, [], [], .idle⟩

/-- What has left the pending buffer during the walk has been seen by the walk, or is pending
again, when the rebuild replaces the master list. -/
def KeepsMoved (s : RebuildState) : Label → Prop
  | .applyRebuild _ =>
    match s.phase with
    | .walking w => ∀ h ∈ w.moved, h ∈ w.build.hashes ∨ h ∈ s.index.pending
    | _ => True
  | _ => True

instance (s : RebuildState) : (l : Label) → Decidable (s.KeepsMoved l)
  | .applyRebuild _ =>
    match h : s.phase with
    | .walking w => decidable_of_iff (∀ h ∈ w.moved, h ∈ w.build.hashes ∨ h ∈ s.index.pending) <| by
        simp [KeepsMoved, h]
    | .idle => isTrue (by simp [KeepsMoved, h])
    | .applied => isTrue (by simp [KeepsMoved, h])
    | .returned => isTrue (by simp [KeepsMoved, h])
  | .rename _ | .indexPut .. | .blobGenForm .. | .nearbyKeys | .startWalk | .visit .. | .finish =>
    isTrue trivial

/-- Every completed upload is advertised. -/
def Advertised (s : RebuildState) : Prop :=
  ∀ key ∈ s.completed, ∀ h, actionHash key = some h → s.index.contains h = true

/-! ## No upload is lost -/

/-- The walk has what the pending buffer has lost. -/
structure Kept (sha256 : Sha256) (d : DataDir) (s : RebuildState) : Prop where
  /-- The file of every upload is in place. -/
  stored : ∀ key, key ∈ s.uploading ∨ key ∈ s.completed →
    key ≠ [] ∧ keyToPath sha256 d key ∈ s.files.map (·.path)
  /-- Completed uploads are advertised. -/
  advertised : ∀ key ∈ s.completed, ∀ h, actionHash key = some h → s.index.Advertises h
  /-- During the walk, a completed upload is pending, or was pending when a serialization came, or
  has been visited, or will be. -/
  walked : ∀ w, s.phase = .walking w → ∀ key ∈ s.completed, ∀ h, actionHash key = some h →
    h ∈ s.index.pending ∨ h ∈ w.moved ∨ h ∈ w.build.hashes ∨ keyToPath sha256 d key ∈ w.unseen

lemma kept_start (sha256 : Sha256) (d : DataDir) (files : List StoredFile) (index : Index) :
    Kept sha256 d (start files index) where
  stored := by simp [start]
  advertised := by simp [start]
  walked := by simp [start]

section Steps

variable {sha256 : Sha256} {d : DataDir} {s s' : RebuildState}

lemma Kept.rename (hs : Kept sha256 d s) {key : Key}
    (h : s.step sha256 d (.rename key) = some s') : Kept sha256 d s' := by
  simp only [step] at h
  split_ifs at h with hne
  obtain rfl := Option.some.inj h
  refine ⟨fun k hk => ?_, hs.advertised, hs.walked⟩
  by_cases hpath : keyToPath sha256 d k = keyToPath sha256 d key
  · refine ⟨?_, by simp [hpath, storedFile]⟩
    rcases hk with hk | hk
    · rcases List.mem_cons.mp hk with rfl | hk
      · exact hne
      · exact (hs.stored k (Or.inl hk)).1
    · exact (hs.stored k (Or.inr hk)).1
  · have hold : k ∈ s.uploading ∨ k ∈ s.completed := by
      rcases hk with hk | hk
      · rcases List.mem_cons.mp hk with rfl | hk
        · exact absurd rfl hpath
        · exact Or.inl hk
      · exact Or.inr hk
    obtain ⟨hkne, hfile⟩ := hs.stored k hold
    obtain ⟨f, hf, hfpath⟩ := List.mem_map.mp hfile
    refine ⟨hkne, List.mem_map.mpr ⟨f, List.mem_cons_of_mem _ ?_, hfpath⟩⟩
    exact List.mem_filter.mpr ⟨hf, by simpa [storedFile, hfpath] using hpath⟩

lemma Kept.indexPut (hs : Kept sha256 d s) {key : Key} {now : ℤ} {epoch : UInt64}
    (h : s.step sha256 d (.indexPut key now epoch) = some s') : Kept sha256 d s' := by
  simp only [step] at h
  split_ifs at h with hkey
  obtain rfl := Option.some.inj h
  refine ⟨fun k hk => hs.stored k ?_, ?_, ?_⟩
  · rcases hk with hk | hk
    · exact Or.inl (List.mem_of_mem_erase hk)
    · rcases List.mem_cons.mp hk with rfl | hk
      · exact Or.inl hkey
      · exact Or.inr hk
  · intro k hk x hx
    rw [Index.advertises_put]
    rcases List.mem_cons.mp hk with rfl | hk
    · exact Or.inr hx
    · exact Or.inl (hs.advertised k hk x hx)
  · intro w hw k hk x hx
    rw [Index.mem_pending_put]
    rcases List.mem_cons.mp hk with rfl | hk
    · exact Or.inl (Or.inr hx)
    · rcases hs.walked w hw k hk x hx with hpending | hrest
      · exact Or.inl (Or.inl hpending)
      · exact Or.inr hrest

lemma Kept.blobGenForm (hs : Kept sha256 d s) {form : IndexForm} {recheck built : Time}
    (h : s.step sha256 d (.blobGenForm form recheck built) = some s') : Kept sha256 d s' := by
  obtain rfl := Option.some.inj h
  refine ⟨hs.stored, fun k hk x hx => ?_, ?_⟩
  · exact (Index.advertises_blobLocked sha256 s.index form recheck built x).mpr
      (hs.advertised k hk x hx)
  · intro w' hw' k hk x hx
    cases hphase : s.phase with
    | walking w =>
      rw [hphase] at hw'
      cases hw'
      rcases hs.walked w hphase k hk x hx with hpending | hmoved | hrest
      · -- A pending hash stays in the buffer or is recorded as moved.
        by_cases hstays : x ∈ (s.index.blobLocked sha256 form recheck built).2.pending
        · exact Or.inl hstays
        · refine Or.inr (Or.inl (List.mem_append_right _ ?_))
          exact List.mem_filter.mpr ⟨hpending, by simpa using hstays⟩
      · exact Or.inr (Or.inl (List.mem_append_left _ hmoved))
      · exact Or.inr (Or.inr hrest)
    | idle => simp [hphase, RebuildPhase.move] at hw'
    | applied => simp [hphase, RebuildPhase.move] at hw'
    | returned => simp [hphase, RebuildPhase.move] at hw'

lemma Kept.startWalk (hs : Kept sha256 d s) (h : s.step sha256 d .startWalk = some s') :
    Kept sha256 d s' := by
  cases hphase : s.phase with
  | idle =>
    simp only [step, hphase, Option.some.injEq] at h
    subst h
    refine ⟨hs.stored, hs.advertised, ?_⟩
    rintro w ⟨⟩ k hk x -
    exact Or.inr (Or.inr (Or.inr (hs.stored k (Or.inr hk)).2))
  | walking w => simp [step, hphase] at h
  | applied => simp [step, hphase] at h
  | returned => simp [step, hphase] at h

/-- A visit keeps what was collected. -/
lemma mem_hashes_visit {w : DirWalk} {f : StoredFile} {mtime : ℤ} {x : Hash}
    (hx : x ∈ w.build.hashes) : x ∈ (w.visit d f mtime).build.hashes := by
  unfold DirWalk.visit
  cases walkKey d f with
  | none => exact hx
  | some key => exact List.mem_append_left _ hx

/-- A visit to the file of a cacheprog key collects its hash. -/
lemma mem_hashes_visit_of_path {w : DirWalk} {f : StoredFile} {mtime : ℤ} {key : Key} {x : Hash}
    (hne : key ≠ []) (hx : actionHash key = some x) (hf : f.path = keyToPath sha256 d key) :
    x ∈ (w.visit d f mtime).build.hashes := by
  have hreport : walkKey d f = some key :=
    walkKey_of_extractActionHash sha256 d ((actionHash_of_ne_nil hne).symm.trans hx) hf
  simp [DirWalk.visit, hreport, IndexBuild.add, hx]

lemma Kept.visit (hs : Kept sha256 d s) {path : Bytes} {mtime : ℤ}
    (h : s.step sha256 d (.visit path mtime) = some s') : Kept sha256 d s' := by
  cases hphase : s.phase with
  | walking w =>
    cases hfile : s.fileAt path with
    | none => simp [step, hphase, hfile] at h
    | some f =>
      simp only [step, hphase, hfile, Option.some.injEq] at h
      subst h
      refine ⟨hs.stored, hs.advertised, ?_⟩
      rintro w' ⟨⟩ k hk x hx
      rcases hs.walked w hphase k hk x hx with hpending | hmoved | hseen | hunseen
      · exact Or.inl hpending
      · exact Or.inr (Or.inl hmoved)
      · exact Or.inr (Or.inr (Or.inl (mem_hashes_visit hseen)))
      · by_cases hpath : keyToPath sha256 d k = f.path
        · have hne : k ≠ [] := (hs.stored k (Or.inr hk)).1
          exact Or.inr (Or.inr (Or.inl (mem_hashes_visit_of_path hne hx hpath.symm)))
        · refine Or.inr (Or.inr (Or.inr ?_))
          exact List.mem_filter.mpr ⟨hunseen, by simpa using hpath⟩
  | idle => simp [step, hphase] at h
  | applied => simp [step, hphase] at h
  | returned => simp [step, hphase] at h

lemma Kept.applyRebuild (hs : Kept sha256 d s) {epoch : UInt64}
    (hmoved : s.KeepsMoved (.applyRebuild epoch))
    (h : s.step sha256 d (.applyRebuild epoch) = some s') : Kept sha256 d s' := by
  cases hphase : s.phase with
  | walking w =>
    simp only [step, hphase] at h
    split_ifs at h with hdone
    obtain rfl := Option.some.inj h
    simp only [KeepsMoved, hphase] at hmoved
    refine ⟨hs.stored, fun k hk x hx => ?_, by simp⟩
    rw [Index.advertises_applyRebuild]
    rcases hs.walked w hphase k hk x hx with hpending | hmove | hseen | hunseen
    · exact Or.inr hpending
    · exact hmoved x hmove
    · exact Or.inl hseen
    · simp [hdone] at hunseen
  | idle => simp [step, hphase] at h
  | applied => simp [step, hphase] at h
  | returned => simp [step, hphase] at h

/-- Every step keeps the uploads, if the rebuild meets `KeepsMoved`. -/
lemma Kept.step (hs : Kept sha256 d s) {l : Label} (hmoved : s.KeepsMoved l)
    (h : s.step sha256 d l = some s') : Kept sha256 d s' := by
  cases l with
  | rename key => exact hs.rename h
  | indexPut key now epoch => exact hs.indexPut h
  | blobGenForm form recheck built => exact hs.blobGenForm h
  | nearbyKeys =>
    obtain rfl := Option.some.inj h
    exact ⟨hs.stored, hs.advertised, hs.walked⟩
  | startWalk => exact hs.startWalk h
  | visit path mtime => exact hs.visit h
  | applyRebuild epoch => exact hs.applyRebuild hmoved h
  | finish =>
    cases hphase : s.phase with
    | applied =>
      simp only [RebuildState.step, hphase, Option.some.injEq] at h
      subst h
      exact ⟨hs.stored, hs.advertised, by simp⟩
    | idle => simp [RebuildState.step, hphase] at h
    | walking w => simp [RebuildState.step, hphase] at h
    | returned => simp [RebuildState.step, hphase] at h

end Steps

/-- No upload is lost in a run whose rebuild meets `KeepsMoved`. -/
theorem rebuild_keeps_uploads (sha256 : Sha256) (d : DataDir) (files : List StoredFile)
    (index : Index) (ls : List Label) (s : RebuildState)
    (hmoved : Guarded (step sha256 d) KeepsMoved (start files index) ls)
    (hrun : run (step sha256 d) (start files index) ls = some s) : s.Advertised := by
  have hs : Kept sha256 d s :=
    run_invariant (fun _ _ _ hs hmoved h => hs.step hmoved h)
      (kept_start sha256 d files index) hmoved hrun
  intro key hkey h hh
  rw [Index.contains_iff]
  exact hs.advertised key hkey h hh

/-- An upload arrives during a walk that misses its file, and the index is fetched. -/
def fetchDuringWalk : List Label :=
  [.startWalk, .rename (hashKey zeroHash), .indexPut (hashKey zeroHash) 0 1,
    .blobGenForm ⟨2, 64, by decide⟩ 1 1, .applyRebuild 2, .finish]

/-- The fetch moves the upload to the master list, and the rebuild replaces that list. -/
theorem rebuild_loses_upload :
    ∃ s, run (step zeroDigest slashData) (start [] (.empty false 0 0 0)) fetchDuringWalk = some s ∧
      s.completed = [hashKey zeroHash] ∧
      s.files.map (·.path) = [keyToPath zeroDigest slashData (hashKey zeroHash)] ∧
      s.index.contains zeroHash = false := by
  change ∃ s ∈ run (step zeroDigest slashData) (start [] (.empty false 0 0 0)) fetchDuringWalk, _
  decide +kernel

/-- The same with a walk that visits the file. -/
def fetchAfterVisit : List Label :=
  [.startWalk, .rename (hashKey zeroHash),
    .visit (keyToPath zeroDigest slashData (hashKey zeroHash)) 0,
    .indexPut (hashKey zeroHash) 0 1, .blobGenForm ⟨2, 64, by decide⟩ 1 1, .applyRebuild 2, .finish]

theorem rebuild_keeps_visited_upload :
    ∃ s, run (step zeroDigest slashData) (start [] (.empty false 0 0 0)) fetchAfterVisit = some s ∧
      s.Advertised := by
  obtain ⟨s, hs, -⟩ : ∃ s ∈ run (step zeroDigest slashData) (start [] (.empty false 0 0 0))
      fetchAfterVisit, True := by
    decide +kernel
  exact ⟨s, hs, rebuild_keeps_uploads zeroDigest slashData [] (.empty false 0 0 0) fetchAfterVisit s
    (by decide +kernel) hs⟩

end RebuildState

end GoBuildCache
