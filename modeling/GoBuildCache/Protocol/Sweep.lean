import GoBuildCache.Foundation.Transition
import GoBuildCache.Store.Accepted

/-!
# Sweeps while uploads arrive

A sweep takes its victims off the index before it looks at them again (`flush`, `RemoveKeys`), and
spares a victim that has been overwritten meanwhile or that cannot be unlinked (`evictOne`). What it
has spared comes back to the index with the rebuild at the end, but a sweep that has removed nothing
does not rebuild: `sweep_hides_spared` is a run that leaves an object on disk and off the index.

The system (`SweepState.step`) has one sweep, step by step, and uploads that rename their file into
place at any time before the sweep has ended and reach the index at any later time. If the sweep
unlinks at least one file, or does not choose the object, everything that was advertised or uploaded
and is on disk is advertised in the end (`sweep_keeps_advertised`). A sweep on its own is
`Storage.evict` (`run_alone`).
-/

open ByteString Transition

namespace GoBuildCache

/-- What a sweep derives from its first walk. -/
structure SweepPlan where
  /-- Objects last used before it go. -/
  cutoff : ℤ
  /-- Objects last used before it are too old. -/
  ageCutoff : ℤ
  /-- The keys that the walk has seen. -/
  live : List CompactKey

/-- How far a sweep is. -/
inductive SweepPhase where
  /-- The second walk has these paths before it. -/
  | walking (paths : List Bytes)
  /-- A batch is off the index, and these victims of it have not been looked at again. -/
  | evicting (victims : List Storage.EvictionVictim) (paths : List Bytes)
  /-- A victim has been found as the walk saw it. -/
  | removing (victim : Storage.EvictionVictim) (victims : List Storage.EvictionVictim)
      (paths : List Bytes)
  /-- The second walk is over. -/
  | swept
  /-- The rebuild has walked the data directory. -/
  | rebuilding (b : IndexBuild)
  /-- `Evict` has returned. -/
  | returned

instance : (phase : SweepPhase) → Decidable (phase = .returned)
  | .returned => isTrue rfl
  | .walking _ | .evicting _ _ | .removing _ _ _ | .swept | .rebuilding _ => isFalse nofun

/-- The sweep still walks or removes. -/
def SweepPhase.isSweeping : SweepPhase → Bool
  | walking _ | evicting _ _ | removing _ _ _ => true
  | swept | rebuilding _ | returned => false

/-- A sweep and the uploads that arrive during it. -/
structure SweepState where
  /-- The store, the batch and the counts. -/
  sweep : Storage.Sweep
  /-- How far the sweep is. -/
  phase : SweepPhase
  /-- The uploads whose file is in place and which have not reached the index. -/
  uploading : List Upload
  /-- The keys of the uploads that are complete. -/
  completed : List Key

/-- The victim that the second walk finds at a path, if any. -/
def Storage.Sweep.victimAt (env : StorageEnv) (plan : SweepPlan) (sw : Storage.Sweep)
    (path : Bytes) : Option Storage.EvictionVictim :=
  match (sw.storage.disk.find path).bind (Storage.listObject env.dataDir) with
  | none => none
  | some obj =>
    let ck := newCompactKey obj.key
    let lastUsed := Storage.lastUsedUnix obj (sw.storage.lastAccessOf ck)
    if plan.cutoff ≤ lastUsed then none
    else
      some ⟨ck, obj.size, obj.lastModified, 0 < plan.ageCutoff ∧ lastUsed < plan.ageCutoff⟩

/-- The file of an upload is in place: what is known about the key is forgotten, and the key reaches
the index. -/
def Storage.recordUpload (env : StorageEnv) (s : Storage) (u : Upload) : Storage :=
  ((s.forgetClean u.key).forgetMeta u.key).indexPut env u.key u.now

namespace SweepState

/-- What can happen. -/
inductive Label where
  /-- The second walk visits a path. -/
  | visit
  /-- The second walk is over: the last batch is removed, if there is one. -/
  | flush
  /-- `evictOne` asks for the modification time of the next victim. -/
  | evictStat (fails : Bool)
  /-- `evictOne` unlinks the victim. -/
  | evictUnlink (fails : Bool)
  /-- The access records are pruned, and a rebuild walks the data directory if it is needed. -/
  | finish
  /-- The rebuild replaces the master list of the index. -/
  | applyRebuild
  /-- An upload renames its file into place. -/
  | rename (u : Upload)
  /-- An upload forgets the memos of its key and records it in the index. -/
  | indexPut (i : ℕ)

/-- Takes the batch off the index. -/
def hide (env : StorageEnv) (s : SweepState) (paths : List Bytes) : SweepState :=
  { s with
    sweep :=
      { s.sweep with
        storage := s.sweep.storage.indexRemoveKeys env (s.sweep.batch.map (·.key.key))
        batch := [] }
    phase := .evicting s.sweep.batch paths }

/-- Takes a victim into the batch, which is removed when it is full. -/
def enqueue (env : StorageEnv) (s : SweepState) (v : Storage.EvictionVictim) (paths : List Bytes) :
    SweepState :=
  let s := { s with sweep := { s.sweep with batch := s.sweep.batch ++ [v] } }
  if Storage.evictionBatchSize ≤ s.sweep.batch.length then s.hide env paths
  else { s with phase := .walking paths }

/-- The sweep goes on with the next victim, or with the walk. -/
def proceed (victims : List Storage.EvictionVictim) (paths : List Bytes) : SweepPhase :=
  if victims.isEmpty then .walking paths else .evicting victims paths

/-- Whether `evictOne` goes on to unlink a victim. Victims without a modification time are not
checked. -/
def isUnchanged (env : StorageEnv) (s : SweepState) (v : Storage.EvictionVictim) (fails : Bool) :
    Bool :=
  if 0 < v.mtimeUnix then
    match s.sweep.storage.fileOf env v.key.key with
    | none => false
    | some f => !fails && f.mtimeUnix = v.mtimeUnix
  else true

/-- Unlinks the file of a victim, and forgets what is known about it. -/
def unlink (env : StorageEnv) (s : SweepState) (v : Storage.EvictionVictim) : SweepState :=
  match s.sweep.storage.fileOf env v.key.key with
  | none => s
  | some _ =>
    let storage := { s.sweep.storage with
      disk := s.sweep.storage.disk.erase (env.keyToPath v.key.key) }
    { s with
      sweep :=
        { s.sweep with
          storage := ((storage.forgetAccess v.key.key).forgetClean v.key.key).forgetMeta v.key.key
          stats := s.sweep.stats.count v } }

/-- What a rebuild finds. -/
def rebuildWalk (env : StorageEnv) (s : Storage) : IndexBuild :=
  (s.walk env).foldl (fun b obj => b.add obj.key obj.lastModified)
    (IndexBuild.new s.index.entriesOff)

/-- The number of objects that the sweep has removed. -/
def evicted (s : SweepState) : ℕ :=
  s.sweep.stats.evictedAge + s.sweep.stats.evictedSize

/-- The sweep with another store. -/
def withStorage (s : SweepState) (storage : Storage) : SweepState :=
  { s with sweep := { s.sweep with storage := storage } }

/-- One step. Nothing can be renamed over a directory. -/
def step (env : StorageEnv) (plan : SweepPlan) (s : SweepState) : Label → Option SweepState
  | .visit =>
    match s.phase with
    | .walking (path :: paths) =>
      match s.sweep.victimAt env plan path with
      | none => some { s with phase := .walking paths }
      | some v => some (s.enqueue env v paths)
    | _ => none
  | .flush =>
    match s.phase with
    | .walking [] =>
      if s.sweep.batch.isEmpty then some { s with phase := .swept } else some (s.hide env [])
    | _ => none
  | .evictStat fails =>
    match s.phase with
    | .evicting (v :: victims) paths =>
      if s.isUnchanged env v fails then some { s with phase := .removing v victims paths }
      else some { s with phase := proceed victims paths }
    | _ => none
  | .evictUnlink fails =>
    match s.phase with
    | .removing v victims paths =>
      some { if fails then s else s.unlink env v with phase := proceed victims paths }
    | _ => none
  | .finish =>
    match s.phase with
    | .swept =>
      let s := s.withStorage (s.sweep.storage.pruneAccess plan.live)
      if 0 < s.evicted then some { s with phase := .rebuilding (rebuildWalk env s.sweep.storage) }
      else some { s with phase := .returned }
    | _ => none
  | .applyRebuild =>
    match s.phase with
    | .rebuilding b =>
      let storage := s.sweep.storage
      some { s.withStorage { storage with
        index := storage.index.applyRebuild b (storage.nextEpoch env)
        draws := storage.draws + 1 } with phase := .returned }
    | _ => none
  | .rename u =>
    if s.phase.isSweeping = true ∧ s.sweep.storage.isDirectory env u = false then
      let storage := s.sweep.storage
      some { s.withStorage { storage with
        disk := storage.disk.put u.slot (Storage.uploadedFile env u) } with
        uploading := s.uploading ++ [u] }
    else none
  | .indexPut i =>
    match s.uploading[i]? with
    | none => none
    | some u =>
      some { s.withStorage (s.sweep.storage.recordUpload env u) with
        uploading := s.uploading.eraseIdx i
        completed := u.key :: s.completed }

/-- The plan of a sweep. -/
def plan (env : StorageEnv) (s : Storage) (maxAge : Duration) (maxBytes now : ℤ) : SweepPlan where
  cutoff := s.evictCutoff env maxAge maxBytes now
  ageCutoff := Storage.ageCutoff env maxAge now
  live := (s.scanForEviction env (0 < maxBytes)).live

/-- A sweep that has finished its first walk. -/
def start (env : StorageEnv) (s : Storage) (maxAge : Duration) (maxBytes now : ℤ) : SweepState where
  sweep :=
    let scan := s.scanForEviction env (0 < maxBytes)
    ⟨s, [], ⟨scan.scanned, 0, 0, 0, scan.totalBytes⟩⟩
  phase :=
    if 0 < (plan env s maxAge maxBytes now).cutoff then .walking (s.disk.rows.map (·.path))
    else .swept
  uploading := []
  completed := []

/-- The sweep unlinks a file: it is there when its turn comes, as the walk saw it, and the file
system does not refuse. -/
def Unlinks (env : StorageEnv) (s : SweepState) : Label → Prop
  | .evictUnlink fails =>
    match s.phase with
    | .removing v _ _ => fails = false ∧ (s.sweep.storage.fileOf env v.key.key).isSome = true
    | _ => False
  | _ => False

/-- The walk does not choose an object of the hash. -/
def Passes (env : StorageEnv) (plan : SweepPlan) (h : Hash) (s : SweepState) : Label → Prop
  | .visit =>
    match s.phase with
    | .walking (path :: _) =>
      ∀ v ∈ s.sweep.victimAt env plan path, actionHash v.key.key ≠ some h
    | _ => True
  | _ => True

instance (env : StorageEnv) (s : SweepState) : (l : Label) → Decidable (s.Unlinks env l)
  | .evictUnlink fails =>
    match hphase : s.phase with
    | .removing v _ _ =>
      decidable_of_iff (fails = false ∧ (s.sweep.storage.fileOf env v.key.key).isSome = true)
        (by simp only [Unlinks, hphase])
    | .walking _ | .evicting _ _ | .swept | .rebuilding _ | .returned =>
      isFalse (by simp only [Unlinks, hphase, not_false_eq_true])
  | .visit | .flush | .evictStat _ | .finish | .applyRebuild | .rename _ | .indexPut _ =>
    isFalse id

end SweepState

namespace Storage

variable {env : StorageEnv} {s : Storage} {u : Upload}

lemma fileOf_recordUpload {key : Key} :
    (s.recordUpload env u).fileOf env key = s.fileOf env key :=
  congrArg (Table.find · (env.keyToPath key)) (disk_forgetClean s u.key)

lemma advertises_recordUpload {h : Hash} :
    (s.recordUpload env u).index.Advertises h ↔
      s.index.Advertises h ∨ actionHash u.key = some h := by
  obtain ⟨digestOK, hclean⟩ := forgetClean_eq s u.key
  rw [recordUpload, hclean]
  exact Index.advertises_put ..

/-- An upload on its own puts its file in place and reaches the index. -/
lemma install_eq_recordUpload :
    s.install env u =
      recordUpload env { s with disk := s.disk.put u.slot (uploadedFile env u) } u :=
  rfl

end Storage

namespace SweepState

/-! ## What a step does -/

/-- What a step does, by the branch that it takes. -/
inductive Goes (env : StorageEnv) (plan : SweepPlan) (s : SweepState) : Label → SweepState → Prop
  | pass {path : Bytes} {paths : List Bytes} (hphase : s.phase = .walking (path :: paths))
      (hpath : s.sweep.victimAt env plan path = none) :
      Goes env plan s .visit { s with phase := .walking paths }
  | choose {path : Bytes} {paths : List Bytes} {v : Storage.EvictionVictim}
      (hphase : s.phase = .walking (path :: paths))
      (hpath : s.sweep.victimAt env plan path = some v) :
      Goes env plan s .visit (s.enqueue env v paths)
  | sweep (hphase : s.phase = .walking []) : Goes env plan s .flush { s with phase := .swept }
  | hide (hphase : s.phase = .walking []) : Goes env plan s .flush (s.hide env [])
  | stat {v : Storage.EvictionVictim} {victims : List Storage.EvictionVictim} {paths : List Bytes}
      {fails : Bool} {phase : SweepPhase} (hphase : s.phase = .evicting (v :: victims) paths)
      (hnext : phase = .removing v victims paths ∨ phase = proceed victims paths) :
      Goes env plan s (.evictStat fails) { s with phase := phase }
  | spare {v : Storage.EvictionVictim} {victims : List Storage.EvictionVictim} {paths : List Bytes}
      (hphase : s.phase = .removing v victims paths) :
      Goes env plan s (.evictUnlink true) { s with phase := proceed victims paths }
  | unlink {v : Storage.EvictionVictim} {victims : List Storage.EvictionVictim} {paths : List Bytes}
      (hphase : s.phase = .removing v victims paths) :
      Goes env plan s (.evictUnlink false) { s.unlink env v with phase := proceed victims paths }
  | rebuild (hphase : s.phase = .swept) (hevicted : 0 < s.evicted) :
      Goes env plan s .finish
        { s.withStorage (s.sweep.storage.pruneAccess plan.live) with
          phase := .rebuilding (rebuildWalk env (s.sweep.storage.pruneAccess plan.live)) }
  | finish (hphase : s.phase = .swept) (hevicted : ¬ 0 < s.evicted) :
      Goes env plan s .finish
        { s.withStorage (s.sweep.storage.pruneAccess plan.live) with phase := .returned }
  | apply {b : IndexBuild} (hphase : s.phase = .rebuilding b) :
      Goes env plan s .applyRebuild
        { s.withStorage { s.sweep.storage with
            index := s.sweep.storage.index.applyRebuild b (s.sweep.storage.nextEpoch env)
            draws := s.sweep.storage.draws + 1 } with phase := .returned }
  | rename {u : Upload} (hphase : s.phase.isSweeping = true) :
      Goes env plan s (.rename u)
        { s.withStorage { s.sweep.storage with
            disk := s.sweep.storage.disk.put u.slot (Storage.uploadedFile env u) } with
          uploading := s.uploading ++ [u] }
  | indexPut {i : ℕ} {u : Upload} (hu : s.uploading[i]? = some u) :
      Goes env plan s (.indexPut i)
        { s.withStorage (s.sweep.storage.recordUpload env u) with
          uploading := s.uploading.eraseIdx i
          completed := u.key :: s.completed }

section Steps

variable {env : StorageEnv} {plan : SweepPlan} {s s' : SweepState} {l : Label}

lemma goes_of_step (hstep : s.step env plan l = some s') : Goes env plan s l s' := by
  cases l with
  | visit =>
    simp only [step] at hstep
    split at hstep
    · next path paths hphase =>
      rcases hpath : s.sweep.victimAt env plan path with _ | v <;> rw [hpath] at hstep <;>
        obtain rfl := Option.some.inj hstep
      · exact .pass hphase hpath
      · exact .choose hphase hpath
    · cases hstep
  | flush =>
    simp only [step] at hstep
    split at hstep
    · next hphase =>
      split_ifs at hstep <;> obtain rfl := Option.some.inj hstep
      · exact .sweep hphase
      · exact .hide hphase
    · cases hstep
  | evictStat fails =>
    simp only [step] at hstep
    split at hstep
    · next v victims paths hphase =>
      split_ifs at hstep <;> obtain rfl := Option.some.inj hstep
      · exact .stat hphase (Or.inl rfl)
      · exact .stat hphase (Or.inr rfl)
    · cases hstep
  | evictUnlink fails =>
    simp only [step] at hstep
    split at hstep
    · next v victims paths hphase =>
      obtain rfl := Option.some.inj hstep
      cases fails with
      | false => exact .unlink hphase
      | true => exact .spare hphase
    · cases hstep
  | finish =>
    simp only [step] at hstep
    split at hstep
    · next hphase =>
      split_ifs at hstep with hevicted <;> obtain rfl := Option.some.inj hstep
      · exact .rebuild hphase hevicted
      · exact .finish hphase hevicted
    · cases hstep
  | applyRebuild =>
    simp only [step] at hstep
    split at hstep
    · next b hphase =>
      obtain rfl := Option.some.inj hstep
      exact .apply hphase
    · cases hstep
  | rename u =>
    simp only [step] at hstep
    split_ifs at hstep with hsweeping
    obtain rfl := Option.some.inj hstep
    exact .rename hsweeping.1
  | indexPut i =>
    simp only [step] at hstep
    split at hstep
    · cases hstep
    · next u hu =>
      obtain rfl := Option.some.inj hstep
      exact .indexPut hu

lemma isSweeping_proceed (victims : List Storage.EvictionVictim) (paths : List Bytes) :
    (proceed victims paths).isSweeping = true := by
  unfold proceed
  split_ifs <;> rfl

lemma isSweeping_enqueue (v : Storage.EvictionVictim) (paths : List Bytes) :
    (s.enqueue env v paths).phase.isSweeping = true := by
  simp only [enqueue]
  split_ifs <;> rfl

lemma evicted_enqueue (v : Storage.EvictionVictim) (paths : List Bytes) :
    (s.enqueue env v paths).evicted = s.evicted := by
  simp only [enqueue]
  split_ifs <;> rfl

/-- A victim that is there is counted. -/
lemma evicted_unlink (v : Storage.EvictionVictim) :
    (s.unlink env v).evicted = s.evicted +
      if (s.sweep.storage.fileOf env v.key.key).isSome then 1 else 0 := by
  simp only [SweepState.unlink]
  cases s.sweep.storage.fileOf env v.key.key with
  | none => rfl
  | some f =>
    simp only [evicted, Storage.EvictStats.count, Option.isSome_some, if_true]
    split_ifs <;> omega

/-- The counts only grow. -/
lemma evicted_le_of_step (hstep : s.step env plan l = some s') : s.evicted ≤ s'.evicted := by
  cases goes_of_step hstep with
  | choose => exact (evicted_enqueue ..).ge
  | unlink hphase =>
    calc s.evicted ≤ s.evicted + _ := Nat.le_add_right ..
      _ = _ := (evicted_unlink _).symm
  | _ => exact le_rfl

/-- A file that is unlinked is counted. -/
lemma evicted_pos_of_unlinks (hl : s.Unlinks env l) (hstep : s.step env plan l = some s') :
    0 < s'.evicted := by
  cases goes_of_step hstep with
  | unlink hphase =>
    simp only [Unlinks, hphase] at hl
    change 0 < (s.unlink env _).evicted
    rw [evicted_unlink, if_pos hl.2]
    exact Nat.succ_pos _
  | spare hphase =>
    simp only [Unlinks, hphase] at hl
    exact absurd hl.1 (by simp)
  | _ => exact hl.elim

/-! ## After a rebuild -/

/-- A sweep that has removed something rebuilds the index from what is on disk. -/
structure Rebuilt (env : StorageEnv) (s : SweepState) : Prop where
  /-- The walk has found everything that is on disk. -/
  rebuilding : ∀ b, s.phase = .rebuilding b → 0 < s.evicted ∧
    ∀ h f, s.sweep.storage.fileOf env (hashKey h) = some f → h ∈ b.hashes
  /-- Everything on disk is advertised. -/
  returned : s.phase = .returned → 0 < s.evicted → s.sweep.storage.Advertised env

/-- There is nothing to show before the walk. -/
lemma rebuilt_of_isSweeping (hphase : s.phase.isSweeping = true) : Rebuilt env s := by
  constructor
  · intro b hb
    rw [hb] at hphase
    cases hphase
  · intro hreturned
    rw [hreturned] at hphase
    cases hphase

lemma Rebuilt.step (hs : Rebuilt env s) (hstep : s.step env plan l = some s') :
    Rebuilt env s' := by
  cases goes_of_step hstep with
  | pass => exact rebuilt_of_isSweeping rfl
  | choose => exact rebuilt_of_isSweeping (isSweeping_enqueue ..)
  | sweep => exact ⟨nofun, nofun⟩
  | hide => exact rebuilt_of_isSweeping rfl
  | stat hphase hnext =>
    refine rebuilt_of_isSweeping ?_
    rcases hnext with rfl | rfl
    · rfl
    · exact isSweeping_proceed ..
  | spare => exact rebuilt_of_isSweeping (isSweeping_proceed ..)
  | unlink => exact rebuilt_of_isSweeping (isSweeping_proceed ..)
  | rebuild hphase hevicted =>
    refine ⟨?_, nofun⟩
    intro b hb
    obtain rfl := SweepPhase.rebuilding.inj hb
    exact ⟨hevicted, fun h f hf => Storage.mem_hashes_walk hf _⟩
  | finish hphase hevicted => exact ⟨nofun, fun _ hpos => absurd hpos hevicted⟩
  | apply hphase =>
    refine ⟨nofun, ?_⟩
    intro _ _ h f hf
    exact (Index.advertises_applyRebuild ..).mpr
      (Or.inl ((hs.rebuilding _ hphase).2 h f hf))
  | rename hphase => exact rebuilt_of_isSweeping hphase
  | indexPut hu =>
    constructor
    · intro b hb
      obtain ⟨hpos, hfound⟩ := hs.rebuilding b hb
      exact ⟨hpos, fun h f hf => hfound h f (Storage.fileOf_recordUpload ▸ hf)⟩
    · intro hreturned hpos h f hf
      exact Storage.advertises_recordUpload.mpr
        (Or.inl (hs.returned hreturned hpos h f (Storage.fileOf_recordUpload ▸ hf)))

/-! ## Without a rebuild -/

/-- As long as nothing has been removed, a hash that the sweep does not choose stays advertised. -/
structure Unchosen (idx : Index) (h : Hash) (s : SweepState) : Prop where
  /-- No victim of the batch has the hash. -/
  batch : ∀ v ∈ s.sweep.batch, actionHash v.key.key ≠ some h
  /-- What was advertised or has been uploaded is advertised. -/
  advertised : s.evicted = 0 → idx.Advertises h ∨ hashKey h ∈ s.completed →
    s.sweep.storage.index.Advertises h

variable {idx : Index} {h : Hash}

/-- Victims with other hashes are taken off the index. -/
lemma Unchosen.hide (hs : Unchosen idx h s) (paths : List Bytes) :
    Unchosen idx h (s.hide env paths) := by
  refine ⟨nofun, ?_⟩
  intro hzero hold
  refine (Index.advertises_removeKeys ..).mpr ⟨hs.advertised hzero hold, ?_⟩
  intro k hk
  obtain ⟨v, hv, rfl⟩ := List.mem_map.mp hk
  exact hs.batch v hv

/-- A victim with another hash is taken into the batch. -/
lemma Unchosen.enqueue (hs : Unchosen idx h s) {v : Storage.EvictionVictim}
    (hv : actionHash v.key.key ≠ some h) (paths : List Bytes) :
    Unchosen idx h (s.enqueue env v paths) := by
  have hnew : Unchosen idx h
      { s with sweep := { s.sweep with batch := s.sweep.batch ++ [v] } } := by
    refine ⟨?_, hs.advertised⟩
    intro w hw
    rcases List.mem_append.mp hw with hw | hw
    · exact hs.batch w hw
    · exact List.mem_singleton.mp hw ▸ hv
  simp only [SweepState.enqueue]
  split_ifs
  · exact hnew.hide paths
  · exact ⟨hnew.batch, hnew.advertised⟩

/-- Neither the batch nor the index changes when a file is unlinked. -/
lemma Unchosen.unlink (hs : Unchosen idx h s) (v : Storage.EvictionVictim) :
    Unchosen idx h (s.unlink env v) := by
  have hevicted : (s.unlink env v).evicted = _ := evicted_unlink v
  unfold SweepState.unlink at hevicted ⊢
  cases hfile : s.sweep.storage.fileOf env v.key.key with
  | none => exact hs
  | some f =>
    simp only [hfile] at hevicted
    refine ⟨hs.batch, ?_⟩
    intro hzero
    rw [hevicted] at hzero
    cases hzero

lemma Unchosen.step (hs : Unchosen idx h s) (hrebuilt : Rebuilt env s)
    (hl : s.Passes env plan h l) (hstep : s.step env plan l = some s') : Unchosen idx h s' := by
  cases goes_of_step hstep with
  | choose hphase hpath =>
    simp only [Passes, hphase] at hl
    exact hs.enqueue (hl _ hpath) _
  | hide => exact hs.hide []
  | unlink hphase =>
    exact ⟨(hs.unlink _).batch, (hs.unlink _).advertised⟩
  | apply hphase =>
    refine ⟨hs.batch, ?_⟩
    intro hzero
    exact absurd hzero (hrebuilt.rebuilding _ hphase).1.ne'
  | indexPut hu =>
    refine ⟨hs.batch, ?_⟩
    intro hzero hold
    refine Storage.advertises_recordUpload.mpr ?_
    rcases hold with hold | hold
    · exact Or.inl (hs.advertised hzero (Or.inl hold))
    rcases List.mem_cons.mp hold with hold | hold
    · exact Or.inr (hold ▸ Storage.actionHash_hashKey h)
    · exact Or.inl (hs.advertised hzero (Or.inr hold))
  | _ => exact ⟨hs.batch, hs.advertised⟩

end Steps

/-! ## Whole sweeps -/

section Runs

variable {env : StorageEnv} {maxAge : Duration} {maxBytes now : ℤ} {s : Storage} {t : SweepState}

lemma rebuilt_start : Rebuilt env (start env s maxAge maxBytes now) := by
  unfold start
  dsimp only
  split_ifs <;> exact ⟨nofun, nofun⟩

/-- If a sweep unlinks at least one file, or does not choose an object, the object is advertised in
the end: if it is on disk, and was advertised before the sweep or has been uploaded during it. -/
theorem sweep_keeps_advertised (ls : List Label)
    (hrun : run (step env (plan env s maxAge maxBytes now)) (start env s maxAge maxBytes now) ls
      = some t)
    (hreturned : t.phase = .returned) (h : Hash)
    (hsweep : Occurs (step env (plan env s maxAge maxBytes now)) (Unlinks env)
        (start env s maxAge maxBytes now) ls ∨
      Guarded (step env (plan env s maxAge maxBytes now))
        (Passes env (plan env s maxAge maxBytes now) h) (start env s maxAge maxBytes now) ls)
    {f : DiskFile} (hfile : t.sweep.storage.fileOf env (hashKey h) = some f)
    (hold : s.index.Advertises h ∨ hashKey h ∈ t.completed) :
    t.sweep.storage.index.Advertises h := by
  have hrebuilt : Rebuilt env t := by
    refine run_invariant_of_step ?_ rebuilt_start hrun
    intro s l s' hs hstep
    exact hs.step hstep
  rcases hsweep with hoccurs | hpasses
  · have hpos : 0 < t.evicted := by
      refine run_of_occurs (I := fun t => 0 < t.evicted) ?_ ?_ hoccurs hrun
      · intro s l s' hl hstep
        exact evicted_pos_of_unlinks hl hstep
      · intro s l s' hs hstep
        exact hs.trans_le (evicted_le_of_step hstep)
    exact hrebuilt.returned hreturned hpos h f hfile
  · obtain ⟨-, hunchosen⟩ : Rebuilt env t ∧ Unchosen s.index h t := by
      refine run_invariant (I := fun t => Rebuilt env t ∧ Unchosen s.index h t) ?_
        ⟨rebuilt_start, nofun, ?_⟩ hpasses hrun
      · intro s l s' hs hl hstep
        exact ⟨hs.1.step hstep, hs.2.step hs.1 hl hstep⟩
      · intro _ hold
        exact hold.resolve_right List.not_mem_nil
    rcases Nat.eq_zero_or_pos t.evicted with hzero | hpos
    · exact hunchosen.advertised hzero hold
    · exact hrebuilt.returned hreturned hpos h f hfile

/-- A store with one object, and one with two, written at the time 1000. -/
def oneObject : Storage :=
  (Storage.empty none).install plainEnv (Storage.smallUpload (hashKey zeroHash))

@[inherit_doc oneObject]
def twoObjects : Storage :=
  oneObject.install plainEnv (Storage.smallUpload lowerKey)

/-- A second upload of the first object, at the time 9000. -/
def freshUpload : Upload :=
  { Storage.smallUpload (hashKey zeroHash) with modNano := 9000000000000, now := 9000 }

/-- An object is chosen, and overwritten before the sweep looks at it again. -/
def overwritten : List Label :=
  [.visit, .rename freshUpload, .indexPut 0, .flush, .evictStat false, .flush, .finish]

/-- The sweep spares the object, removes nothing, and leaves the object off the index. -/
theorem sweep_hides_spared :
    ∃ t, run (step plainEnv (plan plainEnv oneObject 1000000000000 0 9000))
        (start plainEnv oneObject 1000000000000 0 9000) overwritten = some t ∧
      t.phase = .returned ∧ oneObject.index.Advertises zeroHash ∧
      hashKey zeroHash ∈ t.completed ∧
      (t.sweep.storage.fileOf plainEnv (hashKey zeroHash)).isSome = true ∧
      ¬ t.sweep.storage.index.Advertises zeroHash := by
  obtain ⟨t, hrun, h⟩ : ∃ t ∈ run (step plainEnv (plan plainEnv oneObject 1000000000000 0 9000))
        (start plainEnv oneObject 1000000000000 0 9000) overwritten,
      t.phase = .returned ∧ oneObject.index.Advertises zeroHash ∧
      hashKey zeroHash ∈ t.completed ∧
      (t.sweep.storage.fileOf plainEnv (hashKey zeroHash)).isSome = true ∧
      ¬ t.sweep.storage.index.Advertises zeroHash := by
    decide +kernel
  exact ⟨t, hrun, h⟩

/-- One of two objects is overwritten, the other one is unlinked. -/
def oneUnlinked : List Label :=
  [.visit, .visit, .rename freshUpload, .indexPut 0, .flush, .evictStat false, .evictUnlink false,
    .evictStat false, .flush, .finish, .applyRebuild]

theorem sweep_keeps_advertised_oneUnlinked :
    ∃ t, run (step plainEnv (plan plainEnv twoObjects 1000000000000 0 9000))
        (start plainEnv twoObjects 1000000000000 0 9000) oneUnlinked = some t ∧
      t.sweep.storage.index.Advertises zeroHash := by
  have hunlinks : Occurs (step plainEnv (plan plainEnv twoObjects 1000000000000 0 9000))
      (Unlinks plainEnv) (start plainEnv twoObjects 1000000000000 0 9000) oneUnlinked := by
    decide +kernel
  obtain ⟨t, hrun, hreturned, hfile, hcompleted⟩ :
      ∃ t ∈ run (step plainEnv (plan plainEnv twoObjects 1000000000000 0 9000))
        (start plainEnv twoObjects 1000000000000 0 9000) oneUnlinked,
      t.phase = .returned ∧
      (t.sweep.storage.fileOf plainEnv (hashKey zeroHash)).isSome = true ∧
      hashKey zeroHash ∈ t.completed := by
    decide +kernel
  obtain ⟨f, hf⟩ := Option.isSome_iff_exists.mp hfile
  exact ⟨t, hrun, sweep_keeps_advertised oneUnlinked hrun hreturned zeroHash (Or.inl hunlinks) hf
    (Or.inr hcompleted)⟩

end Runs

/-! ## A sweep on its own -/

section Alone

/-- The second state can be reached from the first one. -/
def Reaches (env : StorageEnv) (plan : SweepPlan) (s t : SweepState) : Prop :=
  ∃ ls, run (step env plan) s ls = some t

variable {env : StorageEnv} {plan : SweepPlan} {sw : Storage.Sweep} {t : SweepState}
  {paths : List Bytes}

lemma Reaches.refl (s : SweepState) : Reaches env plan s s :=
  ⟨[], rfl⟩

lemma Reaches.cons {s s' : SweepState} (h : Reaches env plan s' t) (l : Label)
    (hstep : s.step env plan l = some s') : Reaches env plan s t := by
  obtain ⟨ls, hls⟩ := h
  refine ⟨l :: ls, ?_⟩
  rw [run, hstep, Option.bind_some, hls]

/-- `evictOne` unlinks a victim that is as the walk saw it. -/
lemma evict_eq (s : SweepState) (v : Storage.EvictionVictim) :
    s.sweep.evict env v =
      if s.isUnchanged env v false then (s.unlink env v).sweep else s.sweep := by
  rcases hfile : s.sweep.storage.fileOf env v.key.key with _ | f
  · simp [Storage.Sweep.evict, Storage.evictOne, isUnchanged, SweepState.unlink, hfile]
  · by_cases hpos : 0 < v.mtimeUnix <;> by_cases hmtime : f.mtimeUnix = v.mtimeUnix <;>
      simp [Storage.Sweep.evict, Storage.evictOne, isUnchanged, SweepState.unlink, hfile, hpos,
        hmtime]

/-- `evictOne` is its two steps. -/
lemma Reaches.evict {v : Storage.EvictionVictim} {victims : List Storage.EvictionVictim}
    (h : Reaches env plan ⟨sw.evict env v, proceed victims paths, [], []⟩ t) :
    Reaches env plan ⟨sw, .evicting (v :: victims) paths, [], []⟩ t := by
  rw [evict_eq ⟨sw, .evicting (v :: victims) paths, [], []⟩ v] at h
  split_ifs at h with hunchanged
  · have hremove : Reaches env plan ⟨sw, .removing v victims paths, [], []⟩ t := by
      refine h.cons (.evictUnlink false) ?_
      simp only [step, SweepState.unlink]
      cases sw.storage.fileOf env v.key.key <;> rfl
    refine hremove.cons (.evictStat false) ?_
    simp only [step, hunchanged, if_true]
  · refine h.cons (.evictStat false) ?_
    simp only [step, hunchanged, Bool.false_eq_true, if_false]

/-- All victims of a batch are looked at. -/
lemma Reaches.evicts {victims : List Storage.EvictionVictim} (hne : victims ≠ [])
    (h : Reaches env plan ⟨victims.foldl (Storage.Sweep.evict env) sw, .walking paths, [], []⟩ t) :
    Reaches env plan ⟨sw, .evicting victims paths, [], []⟩ t := by
  induction victims generalizing sw with
  | nil => exact absurd rfl hne
  | cons v victims ih =>
    refine Reaches.evict ?_
    cases victims with
    | nil => exact h
    | cons w victims => exact ih (List.cons_ne_nil w victims) h

lemma foldl_evict_batch (batch victims : List Storage.EvictionVictim) (sw : Storage.Sweep) :
    { victims.foldl (Storage.Sweep.evict env) sw with batch := batch } =
      victims.foldl (Storage.Sweep.evict env) { sw with batch := batch } := by
  induction victims generalizing sw with
  | nil => rfl
  | cons v victims ih =>
    rw [List.foldl_cons, List.foldl_cons, ih]
    congr 1
    simp only [Storage.Sweep.evict]
    cases sw.storage.evictOne env v.key.key v.mtimeUnix <;> rfl

/-- A batch is taken off the index and removed. -/
lemma Reaches.hide (hne : sw.batch ≠ [])
    (h : Reaches env plan ⟨sw.flush env, .walking paths, [], []⟩ t) (phase : SweepPhase) :
    Reaches env plan (hide env ⟨sw, phase, [], []⟩ paths) t := by
  refine Reaches.evicts hne ?_
  rwa [Storage.Sweep.flush, if_neg hne, foldl_evict_batch] at h

lemma visit_eq (path : Bytes) : sw.visit env plan.cutoff plan.ageCutoff path =
    match sw.victimAt env plan path with
    | none => sw
    | some v => sw.enqueue env v := by
  unfold Storage.Sweep.visit Storage.Sweep.victimAt
  cases (sw.storage.disk.find path).bind (Storage.listObject env.dataDir) with
  | none => rfl
  | some obj =>
    dsimp only
    split_ifs <;> rfl

/-- The second walk visits a path. -/
lemma Reaches.visit {path : Bytes} (h : Reaches env plan
      ⟨sw.visit env plan.cutoff plan.ageCutoff path, .walking paths, [], []⟩ t) :
    Reaches env plan ⟨sw, .walking (path :: paths), [], []⟩ t := by
  rw [visit_eq] at h
  cases hpath : sw.victimAt env plan path with
  | none =>
    rw [hpath] at h
    refine h.cons .visit ?_
    simp only [step, hpath]
  | some v =>
    rw [hpath] at h
    suffices hnext : Reaches env plan
        (enqueue env ⟨sw, .walking (path :: paths), [], []⟩ v paths) t by
      refine hnext.cons .visit ?_
      simp only [step, hpath]
    simp only [Storage.Sweep.enqueue, SweepState.enqueue] at h ⊢
    split_ifs at h ⊢ with hfull
    · refine Reaches.hide ?_ h _
      simp
    · exact h

/-- The second walk. -/
lemma Reaches.walk
    (h : Reaches env plan ⟨paths.foldl (Storage.Sweep.visit env plan.cutoff plan.ageCutoff) sw,
      .walking [], [], []⟩ t) :
    Reaches env plan ⟨sw, .walking paths, [], []⟩ t := by
  induction paths generalizing sw with
  | nil => exact h
  | cons path paths ih => exact Reaches.visit (ih h)

/-- The last batch is removed. -/
lemma Reaches.flush (h : Reaches env plan ⟨sw.flush env, .swept, [], []⟩ t) :
    Reaches env plan ⟨sw, .walking [], [], []⟩ t := by
  by_cases hbatch : sw.batch = []
  · rw [Storage.Sweep.flush, if_pos hbatch] at h
    refine h.cons .flush ?_
    simp [step, hbatch]
  · have hempty : (sw.flush env).batch = [] := by
      rw [Storage.Sweep.flush, if_neg hbatch]
    have hnext : Reaches env plan ⟨sw.flush env, .walking [], [], []⟩ t := by
      refine h.cons .flush ?_
      simp [step, hempty]
    refine (Reaches.hide hbatch hnext (.walking [])).cons .flush ?_
    simp [step, hbatch]

/-- The sweep ends, with a rebuild if it has removed something. -/
lemma exists_reaches_swept (env : StorageEnv) (plan : SweepPlan) (sw : Storage.Sweep) :
    ∃ t, Reaches env plan ⟨sw, .swept, [], []⟩ t ∧ t.phase = .returned ∧
      (t.sweep.stats, t.sweep.storage) =
        if 0 < sw.stats.evictedAge + sw.stats.evictedSize then
          (sw.stats, (sw.storage.pruneAccess plan.live).rebuild env)
        else (sw.stats, sw.storage.pruneAccess plan.live) := by
  split_ifs with hevicted
  · refine ⟨⟨⟨(sw.storage.pruneAccess plan.live).rebuild env, sw.batch, sw.stats⟩, .returned, [],
      []⟩, ?_, rfl, rfl⟩
    have happly : Reaches env plan
        ⟨⟨sw.storage.pruneAccess plan.live, sw.batch, sw.stats⟩,
          .rebuilding (rebuildWalk env (sw.storage.pruneAccess plan.live)), [], []⟩
        ⟨⟨(sw.storage.pruneAccess plan.live).rebuild env, sw.batch, sw.stats⟩, .returned, [], []⟩ :=
      (Reaches.refl _).cons .applyRebuild rfl
    exact happly.cons .finish (if_pos hevicted)
  · exact ⟨⟨⟨sw.storage.pruneAccess plan.live, sw.batch, sw.stats⟩, .returned, [], []⟩,
      (Reaches.refl _).cons .finish (if_neg hevicted), rfl, rfl⟩

end Alone

/-- A sweep during which nothing is uploaded and every call succeeds is `Evict`. -/
theorem run_alone (env : StorageEnv) (s : Storage) (maxAge : Duration) (maxBytes now : ℤ) :
    ∃ ls t, run (step env (plan env s maxAge maxBytes now)) (start env s maxAge maxBytes now) ls
        = some t ∧
      t.phase = .returned ∧ (t.sweep.stats, t.sweep.storage) = s.evict env maxAge maxBytes now := by
  obtain ⟨t, hreaches, hphase, ht⟩ := exists_reaches_swept env (plan env s maxAge maxBytes now)
    (if 0 < (plan env s maxAge maxBytes now).cutoff then
      s.sweepBelow env (plan env s maxAge maxBytes now).cutoff
        (plan env s maxAge maxBytes now).ageCutoff (start env s maxAge maxBytes now).sweep.stats
    else (start env s maxAge maxBytes now).sweep)
  have hstart : Reaches env (plan env s maxAge maxBytes now)
      (start env s maxAge maxBytes now) t := by
    unfold start
    split_ifs at hreaches ⊢ with hcutoff
    · exact (Reaches.flush hreaches).walk
    · exact hreaches
  obtain ⟨ls, hls⟩ := hstart
  exact ⟨ls, t, hls, hphase, ht⟩

end SweepState

end GoBuildCache
