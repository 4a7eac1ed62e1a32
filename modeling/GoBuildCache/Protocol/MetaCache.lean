import GoBuildCache.Foundation.Transition
import GoBuildCache.Store.Objects

/-!
# Metadata written to a stored file

An entry of the metadata cache is taken for a file with the same modification time and size. Writing
metadata to a file changes neither, so whoever writes also drops the entry: `reconstructOutputID`
after it has written, `SetMeta` before. A read that misses the cache reads the attributes of the
path and then puts them into the cache, which are two steps.

`MetaState.step` interleaves any number of reads (`Stat`, `Open`), repairs, `SetMeta`s, uploads and
deletions of one key, one file system call or cache operation at a time. A read begins with a list
of the writes that have completed by then. Its answer carries what they wrote and nothing has
changed since, if no metadata that was read before a write can get into the cache after it
(`Undisturbed`, `stat_carries_written`); a reader that comes between the two steps of `SetMeta`
breaks it (`stat_misses_written`).
-/

open ByteString Transition

namespace GoBuildCache

/-! ## The attribute of a file -/

/-- `objAttrs`: what is stored with a file. -/
structure ObjAttrs where
  /-- The metadata. -/
  md : Metadata
  /-- The audit fields. -/
  audit : Metadata

/-- The size of the buffer for the first attempt to read the attribute. -/
def xattrValueBufSize : ℕ := 1024

/-- No metadata and no audit fields. -/
def emptyObjAttrs : ObjAttrs := ⟨.empty, .empty⟩

/-- How far the attribute has been read. -/
inductive AttrRead where
  /-- The first attempt is next. -/
  | first
  /-- The value did not fit; its length is asked for next. -/
  | tooLong
  /-- The value had this length; it is read into a buffer of this length next. -/
  | sized (n : ℕ)
  deriving DecidableEq

/-- One call of `readObjAttrs`, where `size` is the length of an encoded value and `attrs` the value
at the time of the call, if there is a file. -/
def readObjAttrs (size : ObjAttrs → ℕ) (attrs : Option ObjAttrs) : AttrRead → AttrRead ⊕ ObjAttrs
  | .first =>
    match attrs with
    | none => .inr emptyObjAttrs
    | some a => if size a ≤ xattrValueBufSize then .inr a else .inl .tooLong
  | .tooLong =>
    match attrs with
    | none => .inr emptyObjAttrs
    | some a => .inl (.sized (size a))
  | .sized n =>
    match attrs with
    | none => .inr emptyObjAttrs
    -- a value that has grown meanwhile is an error, and then reads as empty
    | some a => if size a ≤ n then .inr a else .inr emptyObjAttrs

/-- How a write of the attribute ends. -/
inductive AttrSpace where
  /-- The value fits. -/
  | fits
  /-- It fits without the audit fields and these fields. -/
  | drops (fields : List Bytes)
  /-- The write fails. -/
  | fails

/-- `writeObjAttrs`: what is stored in the end. -/
def writtenAttrs (attrs : ObjAttrs) : AttrSpace → Option ObjAttrs
  | .fits => some attrs
  | .drops fields => some ⟨fun field => if field ∈ fields then none else attrs.md field, .empty⟩
  | .fails => none

/-- The attribute with fields of the metadata set. -/
def ObjAttrs.merge (attrs : ObjAttrs) (kv : List (Bytes × Bytes)) : ObjAttrs :=
  { attrs with md := kv.foldl (fun md p => md.set p.1 p.2) attrs.md }

/-- The metadata has all of the values. -/
def Metadata.Carries (md : Metadata) (kv : List (Bytes × Bytes)) : Prop :=
  ∀ p ∈ kv, md p.1 = some p.2

instance (md : Metadata) (kv : List (Bytes × Bytes)) : Decidable (md.Carries kv) :=
  inferInstanceAs (Decidable (∀ p ∈ kv, _))

lemma Metadata.Carries.mono {md : Metadata} {kv kv' : List (Bytes × Bytes)} (h : md.Carries kv)
    (hsub : kv' ⊆ kv) : md.Carries kv' := fun p hp => h p (hsub hp)

/-! ## The machine -/

/-- A file that is or was at the path. -/
structure AttrFile where
  /-- Its modification time and size. -/
  info : FileInfo
  /-- Its attribute. -/
  attrs : ObjAttrs

/-- A write of metadata. -/
structure AttrWrite where
  /-- The inode. -/
  ino : ℕ
  /-- The values that it wrote and that no later write has changed. -/
  kv : List (Bytes × Bytes)

/-- What remains of a write when the attribute of an inode is set. -/
def AttrWrite.after (ino : ℕ) (attrs : ObjAttrs) (r : AttrWrite) : AttrWrite :=
  if r.ino = ino then { r with kv := r.kv.filter fun p => attrs.md p.1 = some p.2 } else r

lemma AttrWrite.ino_after (ino : ℕ) (attrs : ObjAttrs) (r : AttrWrite) :
    (r.after ino attrs).ino = r.ino := by
  unfold AttrWrite.after
  split_ifs <;> rfl

lemma AttrWrite.kv_after (ino : ℕ) (attrs : ObjAttrs) (r : AttrWrite) :
    (r.after ino attrs).kv ⊆ r.kv := by
  unfold AttrWrite.after
  split_ifs
  · exact List.filter_subset_self _
  · exact List.Subset.refl _

/-- A request between two of its steps. A read carries the writes that were complete when it
began. -/
inductive MetaTask where
  /-- `Open` has opened an inode; its stat is next. -/
  | opened (ino : ℕ) (since : List ℕ)
  /-- The stat result is known; the cache is next. -/
  | statted (info : FileInfo) (since : List ℕ)
  /-- The cache does not know the file; the attribute at the path is being read. -/
  | reading (info : FileInfo) (stage : AttrRead) (since : List ℕ)
  /-- The metadata goes into the cache. -/
  | loaded (info : FileInfo) (md : Metadata) (since : List ℕ)
  /-- The read has returned. -/
  | answered (md : Metadata) (since : List ℕ)
  /-- A repair of an open inode reads the attribute. -/
  | repairs (ino : ℕ) (outputID : Bytes) (stage : AttrRead)
  /-- It writes the attribute with the output id. -/
  | stamps (ino : ℕ) (outputID : Bytes) (attrs : ObjAttrs)
  /-- It has written; the cache entry is dropped next. -/
  | stamped (write : ℕ)
  /-- `SetMeta` has found a file; the cache entry is dropped next. -/
  | found (kv : List (Bytes × Bytes))
  /-- It reads the attribute at the path. -/
  | merges (kv : List (Bytes × Bytes)) (stage : AttrRead)
  /-- It writes the attribute with the values. -/
  | sets (kv : List (Bytes × Bytes)) (attrs : ObjAttrs)
  /-- An upload or a deletion has changed the path; the cache entry is dropped next. -/
  | replaced
  /-- The request is done. -/
  | finished

/-- Metadata that a read has in hand and puts into the cache next. -/
def MetaTask.pending : MetaTask → Option MetaEntry
  | .loaded info md _ => some ⟨info, md⟩
  | _ => none

/-- What a read has returned, with the writes that were complete when it began. -/
def MetaTask.answer : MetaTask → Option (Metadata × List ℕ)
  | .answered md since => some (md, since)
  | _ => none

/-- What the requests for one key share, and the requests. -/
structure MetaState where
  /-- The files that are or were at the path, by inode number. -/
  files : List AttrFile
  /-- The inode at the path. -/
  path : Option ℕ
  /-- The entry of the key in the cache. -/
  metaCache : Option MetaEntry
  /-- The requests. -/
  tasks : List MetaTask
  /-- The writes so far. -/
  writes : List AttrWrite
  /-- The writes of operations that have completed. -/
  completed : List ℕ

namespace MetaState

/-- A server that has just started, with or without a file. -/
def start (file : Option AttrFile) : MetaState where
  files := file.toList
  path := file.map fun _ => 0
  metaCache := none
  tasks := []
  writes := []
  completed := []

/-- The file at the path. -/
def atPath (s : MetaState) : Option AttrFile :=
  s.path.bind (s.files[·]?)

/-- A new request. -/
def spawn (s : MetaState) (task : MetaTask) : MetaState :=
  { s with tasks := s.tasks ++ [task] }

/-- The state of a request changes. -/
def setTask (s : MetaState) (i : ℕ) (task : MetaTask) : MetaState :=
  { s with tasks := s.tasks.set i task }

/-- Another file, or none, takes the path. -/
def replace (s : MetaState) (file : Option AttrFile) : MetaState :=
  { s with files := s.files ++ file.toList, path := file.map fun _ => s.files.length }

/-- The attribute of an inode is set, to write the values. -/
def write (s : MetaState) (ino : ℕ) (kv : List (Bytes × Bytes)) (attrs : ObjAttrs) : MetaState :=
  { s with
    files := s.files.modify ino fun f => { f with attrs := attrs }
    writes := (s.writes ++ [AttrWrite.mk ino kv]).map (AttrWrite.after ino attrs) }

/-- The entry of the key is dropped from the cache. -/
def forgetMeta (s : MetaState) : MetaState :=
  { s with metaCache := none }

/-- An operation that has written completes. -/
def complete (s : MetaState) (w : ℕ) : MetaState :=
  { s with completed := w :: s.completed }

/-- What can happen. -/
inductive Label where
  /-- `Stat` is called, and finds a file. -/
  | stat
  /-- `Open` is called, and opens a file. -/
  | open
  /-- `reconstructOutputID` has an open inode, and its output id. -/
  | repair (ino : ℕ) (outputID : Bytes)
  /-- `SetMeta` is called, and finds a file. -/
  | setMeta (kv : List (Bytes × Bytes))
  /-- An upload renames a new file to the path. -/
  | put (file : AttrFile)
  /-- A deletion removes the file. -/
  | delete
  /-- The cache drops the entry. -/
  | expire
  /-- The next step of a request; a write ends as given. -/
  | next (i : ℕ) (space : AttrSpace)

/-- The next step of a request. -/
def advance (size : ObjAttrs → ℕ) (s : MetaState) (i : ℕ) (space : AttrSpace) :
    MetaTask → Option MetaState
  | .opened ino since => (s.files[ino]?).map fun f => s.setTask i (.statted f.info since)
  | .statted info since =>
    match s.metaCache.filter (·.info = info) with
    | some e => some (s.setTask i (.answered e.md since))
    | none => some (s.setTask i (.reading info .first since))
  | .reading info stage since =>
    match readObjAttrs size (s.atPath.map (·.attrs)) stage with
    | .inl stage => some (s.setTask i (.reading info stage since))
    | .inr attrs => some (s.setTask i (.loaded info attrs.md since))
  | .loaded info md since =>
    some { s.setTask i (.answered md since) with metaCache := some ⟨info, md⟩ }
  | .answered _ _ => none
  | .repairs ino outputID stage =>
    match readObjAttrs size ((s.files[ino]?).map (·.attrs)) stage with
    | .inl stage => some (s.setTask i (.repairs ino outputID stage))
    | .inr attrs => some (s.setTask i (.stamps ino outputID attrs))
  | .stamps ino outputID attrs =>
    match writtenAttrs (attrs.merge [(outputIDMetaKey, outputID)]) space with
    | none => some (s.setTask i .finished)
    | some attrs =>
      some ((s.write ino [(outputIDMetaKey, outputID)] attrs).setTask i (.stamped s.writes.length))
  | .stamped w => some ((s.forgetMeta.complete w).setTask i .finished)
  | .found kv => some (s.forgetMeta.setTask i (.merges kv .first))
  | .merges kv stage =>
    match readObjAttrs size (s.atPath.map (·.attrs)) stage with
    | .inl stage => some (s.setTask i (.merges kv stage))
    | .inr attrs => some (s.setTask i (.sets kv attrs))
  | .sets kv attrs =>
    -- the path may be gone, or another file, by now
    match s.path, writtenAttrs (attrs.merge kv) space with
    | some ino, some attrs =>
      some (((s.write ino kv attrs).complete s.writes.length).setTask i .finished)
    | _, _ => some (s.setTask i .finished)
  | .replaced => some (s.forgetMeta.setTask i .finished)
  | .finished => none

/-- One step. -/
def step (size : ObjAttrs → ℕ) (s : MetaState) : Label → Option MetaState
  | .stat => s.atPath.map fun f => s.spawn (.statted f.info s.completed)
  | .open => s.path.map fun ino => s.spawn (.opened ino s.completed)
  | .repair ino outputID =>
    if ino < s.files.length then some (s.spawn (.repairs ino outputID .first)) else none
  | .setMeta kv => s.path.map fun _ => s.spawn (.found kv)
  | .put file => some ((s.replace (some file)).spawn .replaced)
  | .delete => s.path.map fun _ => (s.replace none).spawn .replaced
  | .expire => some s.forgetMeta
  | .next i space => (s.tasks[i]?).bind (s.advance size i space)

/-! ## Freshness -/

/-- A read that began after a write to the file at the path had completed answers what that wrote,
as far as no later write has changed it. -/
def Fresh (s : MetaState) : Prop :=
  ∀ task ∈ s.tasks, ∀ answer ∈ task.answer, ∀ w ∈ answer.2, ∀ r ∈ s.writes[w]?,
    s.path = some r.ino → answer.1.Carries r.kv

instance (s : MetaState) : Decidable s.Fresh :=
  inferInstanceAs (Decidable (∀ _ ∈ _, _))

/-- Metadata that reads have in hand and put into the cache next. -/
def pending (s : MetaState) : List MetaEntry :=
  s.tasks.filterMap MetaTask.pending

/-- Metadata that can be taken for a file later: the cached entry, and what goes into the cache. -/
def held (s : MetaState) : List MetaEntry :=
  s.metaCache.toList ++ s.pending

/-- No metadata read before a write gets into the cache after it. When `SetMeta` writes, what is
cached or on its way into the cache for the file has the values already; when a repair drops the
entry, what is on its way into the cache has the output id. A value whose length has been asked for
is read before it grows. -/
def TaskUndisturbed (size : ObjAttrs → ℕ) (s : MetaState) : MetaTask → Prop
  | .sets kv _ => ∀ f ∈ s.atPath, ∀ e ∈ s.held, e.info = f.info → e.md.Carries kv
  | .stamped w => ∀ r ∈ s.writes[w]?, s.path = some r.ino → ∀ f ∈ s.atPath,
      ∀ e ∈ s.pending, e.info = f.info → e.md.Carries r.kv
  | .reading _ (.sized n) _ => ∀ f ∈ s.atPath, size f.attrs ≤ n
  | _ => True

instance decidableTaskUndisturbed (size : ObjAttrs → ℕ) (s : MetaState) :
    (task : MetaTask) → Decidable (s.TaskUndisturbed size task)
  | .sets _ _ | .stamped _ | .reading _ (.sized _) _ =>
    inferInstanceAs (Decidable (∀ _ ∈ _, _))
  | .opened _ _ | .statted _ _ | .reading _ .first _ | .reading _ .tooLong _ | .loaded _ _ _
  | .answered _ _ | .repairs _ _ _ | .stamps _ _ _ | .found _ | .merges _ _ | .replaced
  | .finished => isTrue trivial

/-- The steps of requests are undisturbed. -/
def Undisturbed (size : ObjAttrs → ℕ) (s : MetaState) : Label → Prop
  | .next i _ => ∀ task ∈ s.tasks[i]?, s.TaskUndisturbed size task
  | .stat | .open | .repair _ _ | .setMeta _ | .put _ | .delete | .expire => True

instance decidableUndisturbed (size : ObjAttrs → ℕ) (s : MetaState) :
    (l : Label) → Decidable (s.Undisturbed size l)
  | .next _ _ => inferInstanceAs (Decidable (∀ _ ∈ _, _))
  | .stat | .open | .repair _ _ | .setMeta _ | .put _ | .delete | .expire => isTrue trivial

/-! ## The invariant -/

/-- The write was to the file at the path. -/
structure Settled (s : MetaState) (w : ℕ) (r : AttrWrite) (f : AttrFile) : Prop where
  /-- The write. -/
  write : s.writes[w]? = some r
  /-- The path. -/
  path : s.path = some r.ino
  /-- The file. -/
  file : s.files[r.ino]? = some f

/-- Metadata that is taken for the file of a write has what that wrote. -/
def Sees (s : MetaState) (e : MetaEntry) (w : ℕ) : Prop :=
  ∀ r f, s.Settled w r f → e.info = f.info → e.md.Carries r.kv

/-- What holds of a request: a read that began after a write to the file at the path knows that
file. -/
def TaskOk (s : MetaState) : MetaTask → Prop
  | .opened ino since =>
    since ⊆ s.completed ∧ ∀ w ∈ since, ∀ r f, s.Settled w r f → ino = r.ino
  | .statted info since | .reading info _ since | .loaded info _ since =>
    since ⊆ s.completed ∧ ∀ w ∈ since, ∀ r f, s.Settled w r f → info = f.info
  | .answered md since =>
    since ⊆ s.completed ∧ ∀ w ∈ since, ∀ r f, s.Settled w r f → md.Carries r.kv
  | .repairs ino _ _ | .stamps ino _ _ => ino < s.files.length
  | .stamped w => w < s.writes.length
  | .found _ | .merges _ _ | .sets _ _ | .replaced | .finished => True

/-- What is held for the file at the path has what completed writes wrote. -/
structure Coherent (s : MetaState) : Prop where
  /-- The inode at the path is one of the files. -/
  linked : ∀ ino, s.path = some ino → ino < s.files.length
  /-- Files have what was written to them and not changed. -/
  written : ∀ r ∈ s.writes, ∃ f, s.files[r.ino]? = some f ∧ f.attrs.md.Carries r.kv
  /-- What has completed was written. -/
  indexed : ∀ w ∈ s.completed, w < s.writes.length
  /-- The cache, and what goes into it. -/
  held : ∀ e ∈ s.held, ∀ w ∈ s.completed, s.Sees e w
  /-- The requests. -/
  tasks : ∀ task ∈ s.tasks, s.TaskOk task

variable {size : ObjAttrs → ℕ} {s s' : MetaState}

/-! ### Steps that keep the writes -/

/-- Writes to the file at the path were such before, and have no new values. -/
structure Extends (s s' : MetaState) : Prop where
  /-- The writes. -/
  settled : ∀ w < s.writes.length, ∀ r' f', s'.Settled w r' f' → ∃ r f, s.Settled w r f ∧
    r'.ino = r.ino ∧ r'.kv ⊆ r.kv ∧ f'.info = f.info
  /-- What has completed. -/
  completed : s.completed ⊆ s'.completed
  /-- The files. -/
  files : s.files.length ≤ s'.files.length
  /-- The number of writes. -/
  writes : s.writes.length ≤ s'.writes.length

/-- Nothing but requests, the cache and completions changes. -/
lemma extends_of_eq (hfiles : s'.files = s.files) (hpath : s'.path = s.path)
    (hwrites : s'.writes = s.writes) (hcompleted : s.completed ⊆ s'.completed) : Extends s s' where
  settled := by
    rintro w - r f ⟨hw, hp, hf⟩
    exact ⟨r, f, ⟨hwrites ▸ hw, hpath ▸ hp, hfiles ▸ hf⟩, rfl, List.Subset.refl _, rfl⟩
  completed := hcompleted
  files := by rw [hfiles]
  writes := by rw [hwrites]

lemma Sees.mono {e : MetaEntry} {w : ℕ} (h : s.Sees e w) (hext : Extends s s')
    (hw : w < s.writes.length) : s'.Sees e w := by
  intro r' f' hsettled hinfo
  obtain ⟨r, f, hold, -, hkv, hsame⟩ := hext.settled w hw r' f' hsettled
  exact (h r f hold (hinfo.trans hsame)).mono hkv

lemma TaskOk.mono {task : MetaTask} (h : s.TaskOk task) (hext : Extends s s')
    (hindexed : ∀ w ∈ s.completed, w < s.writes.length) : s'.TaskOk task := by
  have hknows : ∀ {info since}, (since ⊆ s.completed ∧
      ∀ w ∈ since, ∀ r f, s.Settled w r f → info = f.info) →
      since ⊆ s'.completed ∧ ∀ w ∈ since, ∀ r f, s'.Settled w r f → info = f.info := by
    rintro info since ⟨hsince, hinfo⟩
    refine ⟨fun w hw => hext.completed (hsince hw), ?_⟩
    intro w hw r' f' hsettled
    obtain ⟨r, f, hold, -, -, hsame⟩ :=
      hext.settled w (hindexed w (hsince hw)) r' f' hsettled
    exact (hinfo w hw r f hold).trans hsame.symm
  cases task with
  | opened ino since =>
    obtain ⟨hsince, hino⟩ := h
    refine ⟨fun w hw => hext.completed (hsince hw), ?_⟩
    intro w hw r' f' hsettled
    obtain ⟨r, f, hold, hsame, -, -⟩ := hext.settled w (hindexed w (hsince hw)) r' f' hsettled
    exact (hino w hw r f hold).trans hsame.symm
  | statted info since => exact hknows h
  | reading info stage since => exact hknows h
  | loaded info md since => exact hknows h
  | answered md since =>
    obtain ⟨hsince, hmd⟩ := h
    refine ⟨fun w hw => hext.completed (hsince hw), ?_⟩
    intro w hw r' f' hsettled
    obtain ⟨r, f, hold, -, hkv, -⟩ := hext.settled w (hindexed w (hsince hw)) r' f' hsettled
    exact (hmd w hw r f hold).mono hkv
  | repairs ino outputID stage => exact lt_of_lt_of_le h hext.files
  | stamps ino outputID attrs => exact lt_of_lt_of_le h hext.files
  | stamped w => exact lt_of_lt_of_le h hext.writes
  | found kv => trivial
  | merges kv stage => trivial
  | sets kv attrs => trivial
  | replaced => trivial
  | finished => trivial

/-! ### The parts of a step -/

/-- The requests of a state, one of which is new or changed. -/
lemma Coherent.of_tasks (hs : s.Coherent) {tasks : List MetaTask} {task : MetaTask}
    (htasks : ∀ x ∈ tasks, x ∈ s.tasks ∨ x = task) (hok : s.TaskOk task)
    (hpending : ∀ e ∈ task.pending, ∀ w ∈ s.completed, s.Sees e w) :
    Coherent { s with tasks := tasks } := by
  have hext : Extends s { s with tasks := tasks } := extends_of_eq rfl rfl rfl (List.Subset.refl _)
  refine ⟨hs.linked, hs.written, hs.indexed, ?_, ?_⟩
  · intro e he w hw
    refine Sees.mono ?_ hext (hs.indexed w hw)
    rcases List.mem_append.mp he with he | he
    · exact hs.held e (List.mem_append_left _ he) w hw
    · obtain ⟨x, hx, hxe⟩ := List.mem_filterMap.mp he
      rcases htasks x hx with hx | rfl
      · exact hs.held e (List.mem_append_right _ (List.mem_filterMap.mpr ⟨x, hx, hxe⟩)) w hw
      · exact hpending e hxe w hw
  · intro x hx
    refine TaskOk.mono ?_ hext hs.indexed
    rcases htasks x hx with hx | rfl
    · exact hs.tasks x hx
    · exact hok

lemma Coherent.spawn (hs : s.Coherent) {task : MetaTask} (hok : s.TaskOk task)
    (hpending : task.pending = none) : (s.spawn task).Coherent := by
  refine hs.of_tasks ?_ hok (by simp [hpending])
  intro x hx
  simpa using hx

lemma Coherent.setTask (hs : s.Coherent) (i : ℕ) {task : MetaTask} (hok : s.TaskOk task)
    (hpending : ∀ e ∈ task.pending, ∀ w ∈ s.completed, s.Sees e w) :
    (s.setTask i task).Coherent :=
  hs.of_tasks (fun _ hx => List.mem_or_eq_of_mem_set hx) hok hpending

lemma Coherent.forgetMeta (hs : s.Coherent) : s.forgetMeta.Coherent := by
  have hext : Extends s s.forgetMeta := extends_of_eq rfl rfl rfl (List.Subset.refl _)
  refine ⟨hs.linked, hs.written, hs.indexed, ?_, fun x hx => (hs.tasks x hx).mono hext hs.indexed⟩
  intro e he w hw
  exact (hs.held e (List.mem_append_right _ he) w hw).mono hext (hs.indexed w hw)

lemma Coherent.cache (hs : s.Coherent) {e : MetaEntry} (he : ∀ w ∈ s.completed, s.Sees e w) :
    Coherent { s with metaCache := some e } := by
  have hext : Extends s { s with metaCache := some e } :=
    extends_of_eq rfl rfl rfl (List.Subset.refl _)
  refine ⟨hs.linked, hs.written, hs.indexed, ?_, fun x hx => (hs.tasks x hx).mono hext hs.indexed⟩
  intro e' he' w hw
  refine Sees.mono ?_ hext (hs.indexed w hw)
  rcases List.mem_cons.mp he' with rfl | he'
  · exact he w hw
  · exact hs.held e' (List.mem_append_right _ he') w hw

/-- A write may complete if what is held has what it wrote. -/
lemma Coherent.complete (hs : s.Coherent) {w : ℕ} (hw : w < s.writes.length)
    (hheld : ∀ e ∈ s.held, s.Sees e w) : (s.complete w).Coherent := by
  have hext : Extends s (s.complete w) := extends_of_eq rfl rfl rfl (List.subset_cons_self ..)
  refine ⟨hs.linked, hs.written, ?_, ?_, fun x hx => (hs.tasks x hx).mono hext hs.indexed⟩
  · intro w' hw'
    rcases List.mem_cons.mp hw' with rfl | hw'
    · exact hw
    · exact hs.indexed w' hw'
  · intro e he w' hw'
    rcases List.mem_cons.mp hw' with rfl | hw'
    · exact (hheld e he).mono hext hw
    · exact (hs.held e he w' hw').mono hext (hs.indexed w' hw')

/-- A state with other files and writes. -/
lemma Coherent.of_extends (hs : s.Coherent) (hext : Extends s s')
    (hlinked : ∀ ino, s'.path = some ino → ino < s'.files.length)
    (hwritten : ∀ r ∈ s'.writes, ∃ f, s'.files[r.ino]? = some f ∧ f.attrs.md.Carries r.kv)
    (hcache : s'.metaCache = s.metaCache) (htasks : s'.tasks = s.tasks)
    (hcompleted : s'.completed = s.completed) : s'.Coherent where
  linked := hlinked
  written := hwritten
  indexed := fun w hw => lt_of_lt_of_le (hs.indexed w (hcompleted ▸ hw)) hext.writes
  held := by
    intro e he w hw
    rw [MetaState.held, pending, hcache, htasks] at he
    rw [hcompleted] at hw
    exact (hs.held e he w hw).mono hext (hs.indexed w hw)
  tasks := fun x hx => (hs.tasks x (htasks ▸ hx)).mono hext hs.indexed

/-- A file that takes the path has not been written to. -/
lemma Coherent.replace (hs : s.Coherent) (file : Option AttrFile) : (s.replace file).Coherent := by
  have hold : ∀ r ∈ s.writes, ∃ f, (s.replace file).files[r.ino]? = some f ∧
      f.attrs.md.Carries r.kv := by
    intro r hr
    obtain ⟨f, hf, hkv⟩ := hs.written r hr
    refine ⟨f, ?_, hkv⟩
    rw [MetaState.replace, List.getElem?_append_left (List.getElem?_eq_some_iff.mp hf).1]
    exact hf
  have hext : Extends s (s.replace file) := by
    refine ⟨?_, List.Subset.refl _, by simp [MetaState.replace], le_refl _⟩
    rintro w - r f ⟨hw, hpath, -⟩
    obtain ⟨g, hg, -⟩ := hs.written r (List.mem_of_getElem? hw)
    have hlt : r.ino < s.files.length := (List.getElem?_eq_some_iff.mp hg).1
    obtain ⟨-, -, hino⟩ := Option.map_eq_some_iff.mp hpath
    omega
  refine hs.of_extends hext ?_ hold rfl rfl rfl
  intro ino hino
  rcases file with _ | f
  · cases hino
  · obtain rfl := Option.some.inj hino
    simp [MetaState.replace]

/-! ### Writes -/

lemma getElem?_files_write (s : MetaState) (ino : ℕ) (kv : List (Bytes × Bytes))
    (attrs : ObjAttrs) (j : ℕ) :
    (s.write ino kv attrs).files[j]?
      = (s.files[j]?).map fun f => if ino = j then { f with attrs := attrs } else f :=
  List.getElem?_modify ..

/-- A file before a write to some inode, with the same modification time and size. -/
lemma file_of_write {ino : ℕ} {kv : List (Bytes × Bytes)} {attrs : ObjAttrs} {j : ℕ} {f' : AttrFile}
    (hf' : (s.write ino kv attrs).files[j]? = some f') :
    ∃ f, s.files[j]? = some f ∧ f'.info = f.info := by
  rw [getElem?_files_write] at hf'
  obtain ⟨f, hf, rfl⟩ := Option.map_eq_some_iff.mp hf'
  refine ⟨f, hf, ?_⟩
  split_ifs <;> rfl

lemma extends_write (s : MetaState) (ino : ℕ) (kv : List (Bytes × Bytes)) (attrs : ObjAttrs) :
    Extends s (s.write ino kv attrs) := by
  refine ⟨?_, List.Subset.refl _, by simp [MetaState.write], by simp [MetaState.write]⟩
  rintro w hw r' f' ⟨hr', hpath, hf'⟩
  rw [MetaState.write, List.getElem?_map, List.getElem?_append_left hw] at hr'
  obtain ⟨r, hr, rfl⟩ := Option.map_eq_some_iff.mp hr'
  rw [AttrWrite.ino_after] at hf' hpath
  obtain ⟨f, hf, hinfo⟩ := file_of_write hf'
  exact ⟨r, f, ⟨hr, hpath, hf⟩, r.ino_after ino attrs, r.kv_after ino attrs, hinfo⟩

lemma Coherent.write (hs : s.Coherent) {ino : ℕ} (hino : ino < s.files.length)
    (kv : List (Bytes × Bytes)) (attrs : ObjAttrs) : (s.write ino kv attrs).Coherent := by
  refine hs.of_extends (extends_write s ino kv attrs) ?_ ?_ rfl rfl rfl
  · intro j hj
    have hlength : (s.write ino kv attrs).files.length = s.files.length := by
      simp [MetaState.write]
    rw [hlength]
    exact hs.linked j hj
  intro r' hr'
  obtain ⟨r, hr, rfl⟩ := List.mem_map.mp hr'
  rw [AttrWrite.ino_after, getElem?_files_write]
  by_cases hsame : r.ino = ino
  · -- the filter keeps what the new attribute has
    refine ⟨{ s.files[ino] with attrs := attrs }, ?_, ?_⟩
    · rw [hsame, List.getElem?_eq_getElem hino, Option.map_some, if_pos rfl]
    · intro p hp
      rw [AttrWrite.after, if_pos hsame] at hp
      simpa using (List.mem_filter.mp hp).2
  · have hr : r ∈ s.writes := by
      rcases List.mem_append.mp hr with hr | hr
      · exact hr
      · exact absurd (congrArg AttrWrite.ino (List.mem_singleton.mp hr)) hsame
    obtain ⟨f, hf, hkv⟩ := hs.written r hr
    refine ⟨f, ?_, hkv.mono (r.kv_after ino attrs)⟩
    rw [hf, Option.map_some, if_neg (Ne.symm hsame)]

/-! ### Steps -/

/-- A value that has not grown reads as it is. -/
lemma eq_of_readObjAttrs {a attrs : ObjAttrs} {stage : AttrRead}
    (hread : readObjAttrs size (some a) stage = .inr attrs)
    (hgrown : ∀ n, stage = .sized n → size a ≤ n) : attrs = a := by
  cases stage with
  | first =>
    rw [readObjAttrs] at hread
    split_ifs at hread
    exact (Sum.inr.inj hread).symm
  | tooLong => cases hread
  | sized n =>
    rw [readObjAttrs, if_pos (hgrown n rfl)] at hread
    exact (Sum.inr.inj hread).symm

lemma Settled.atPath {w : ℕ} {r : AttrWrite} {f : AttrFile} (h : s.Settled w r f) :
    s.atPath = some f := by
  rw [MetaState.atPath, h.path]
  exact h.file

section Advance

variable {i : ℕ} {space : AttrSpace} {info : FileInfo} {since : List ℕ}

/-- A cached entry for the file that a read knows has what the read must answer. -/
lemma Coherent.advance_statted (hs : s.Coherent) (htask : .statted info since ∈ s.tasks)
    (hstep : s.advance size i space (.statted info since) = some s') : s'.Coherent := by
  have hok : s.TaskOk (.statted info since) := hs.tasks _ htask
  rw [advance] at hstep
  rcases hcache : s.metaCache.filter (·.info = info) with _ | e <;> rw [hcache] at hstep <;>
    obtain rfl := Option.some.inj hstep
  · exact hs.setTask i hok (by simp [MetaTask.pending])
  · obtain ⟨he, hinfo⟩ := Option.filter_eq_some_iff.mp hcache
    have hheld : e ∈ s.held := by simp [MetaState.held, he]
    refine hs.setTask i ⟨hok.1, ?_⟩ (by simp [MetaTask.pending])
    intro w hw r f hsettled
    refine hs.held e hheld w (hok.1 hw) r f hsettled ?_
    rw [← hok.2 w hw r f hsettled]
    simpa using hinfo

/-- The attribute of the file at the path has what was written. -/
lemma Coherent.advance_reading (hs : s.Coherent) {stage : AttrRead}
    (htask : .reading info stage since ∈ s.tasks)
    (hgrown : ∀ n, stage = .sized n → ∀ f ∈ s.atPath, size f.attrs ≤ n)
    (hstep : s.advance size i space (.reading info stage since) = some s') : s'.Coherent := by
  have hok : s.TaskOk (.reading info stage since) := hs.tasks _ htask
  rw [advance] at hstep
  rcases hattrs : readObjAttrs size (s.atPath.map (·.attrs)) stage with stage' | attrs <;>
    rw [hattrs] at hstep <;> obtain rfl := Option.some.inj hstep
  · exact hs.setTask i hok (by simp [MetaTask.pending])
  · refine hs.setTask i hok ?_
    intro e he w hw r f hsettled _
    obtain rfl := Option.some.inj he
    rw [hsettled.atPath] at hattrs
    obtain ⟨f', hf', hkv⟩ := hs.written r (List.mem_of_getElem? hsettled.write)
    obtain rfl := Option.some.inj (hsettled.file.symm.trans hf')
    have hsame : attrs = f.attrs :=
      eq_of_readObjAttrs hattrs fun n hn => hgrown n hn f hsettled.atPath
    rw [hsame]
    exact hkv

lemma Coherent.advance_loaded (hs : s.Coherent) {md : Metadata}
    (htask : .loaded info md since ∈ s.tasks)
    (hstep : s.advance size i space (.loaded info md since) = some s') : s'.Coherent := by
  have hok : s.TaskOk (.loaded info md since) := hs.tasks _ htask
  have hsees : ∀ w ∈ s.completed, s.Sees ⟨info, md⟩ w := by
    refine hs.held _ (List.mem_append_right _ ?_)
    exact List.mem_filterMap.mpr ⟨_, htask, rfl⟩
  rw [advance] at hstep
  obtain rfl := Option.some.inj hstep
  have hanswered : (s.setTask i (.answered md since)).Coherent := by
    refine hs.setTask i ⟨hok.1, ?_⟩ (by simp [MetaTask.pending])
    intro w hw r f hsettled
    exact hsees w (hok.1 hw) r f hsettled (hok.2 w hw r f hsettled)
  refine hanswered.cache ?_
  intro w hw
  exact (hsees w hw).mono (extends_of_eq rfl rfl rfl (List.Subset.refl _)) (hs.indexed w hw)

/-- A repair completes when it drops the entry, if nothing without its output id is on its way into
the cache. -/
lemma Coherent.advance_stamped (hs : s.Coherent) {w : ℕ} (htask : .stamped w ∈ s.tasks)
    (hguard : ∀ r ∈ s.writes[w]?, s.path = some r.ino → ∀ f ∈ s.atPath,
      ∀ e ∈ s.pending, e.info = f.info → e.md.Carries r.kv)
    (hstep : s.advance size i space (.stamped w) = some s') : s'.Coherent := by
  rw [advance] at hstep
  obtain rfl := Option.some.inj hstep
  have hcomplete : (s.forgetMeta.complete w).Coherent := by
    refine hs.forgetMeta.complete (hs.tasks _ htask) ?_
    intro e he r f hsettled hinfo
    have hsettled' : s.Settled w r f := ⟨hsettled.write, hsettled.path, hsettled.file⟩
    exact hguard r hsettled'.write hsettled'.path f hsettled'.atPath e he hinfo
  exact hcomplete.setTask i trivial (by simp [MetaTask.pending])

/-- `SetMeta` completes when it writes, if nothing without its values is held for the file. -/
lemma Coherent.advance_sets (hs : s.Coherent) {kv : List (Bytes × Bytes)} {attrs : ObjAttrs}
    (hguard : ∀ f ∈ s.atPath, ∀ e ∈ s.held, e.info = f.info → e.md.Carries kv)
    (hstep : s.advance size i space (.sets kv attrs) = some s') : s'.Coherent := by
  have hfinished : ∀ {t : MetaState}, t.Coherent → (t.setTask i .finished).Coherent := fun ht =>
    ht.setTask i trivial (by simp [MetaTask.pending])
  rw [advance] at hstep
  rcases hpath : s.path with _ | ino
  · rw [hpath] at hstep
    obtain rfl := Option.some.inj hstep
    exact hfinished hs
  rcases hwritten : writtenAttrs (attrs.merge kv) space with _ | attrs <;>
    rw [hpath, hwritten] at hstep <;> obtain rfl := Option.some.inj hstep
  · exact hfinished hs
  refine hfinished ((hs.write (hs.linked ino hpath) kv attrs).complete ?_ ?_)
  · simp [MetaState.write]
  · rintro e he r' f' ⟨hr', hpath', hf'⟩ hinfo
    simp only [MetaState.write, List.getElem?_map, List.getElem?_concat_length,
      Option.map_some, Option.some.injEq] at hr'
    subst hr'
    rw [AttrWrite.ino_after] at hf'
    obtain ⟨f, hf, hsame⟩ := file_of_write hf'
    have hatPath : s.atPath = some f := by
      rw [MetaState.atPath, hpath]
      exact hf
    exact (hguard f hatPath e he (hinfo.trans hsame)).mono (AttrWrite.kv_after ..)

end Advance

/-- An undisturbed step keeps what is held right. -/
lemma Coherent.step (hs : s.Coherent) {l : Label} (hl : s.Undisturbed size l)
    (hstep : s.step size l = some s') : s'.Coherent := by
  have hsince : s.completed ⊆ s.completed := List.Subset.refl _
  cases l with
  | stat =>
    obtain ⟨f, hf, rfl⟩ := Option.map_eq_some_iff.mp hstep
    refine hs.spawn ⟨hsince, ?_⟩ rfl
    intro w _ r f' hsettled
    rw [Option.some.inj (hf.symm.trans hsettled.atPath)]
  | «open» =>
    obtain ⟨ino, hino, rfl⟩ := Option.map_eq_some_iff.mp hstep
    refine hs.spawn ⟨hsince, ?_⟩ rfl
    intro w _ r f hsettled
    exact Option.some.inj (hino.symm.trans hsettled.path)
  | repair ino outputID =>
    obtain ⟨hino, hstep⟩ := Option.ite_none_right_eq_some.mp hstep
    obtain rfl := Option.some.inj hstep
    exact hs.spawn hino rfl
  | setMeta kv =>
    obtain ⟨ino, -, rfl⟩ := Option.map_eq_some_iff.mp hstep
    exact hs.spawn trivial rfl
  | put file =>
    obtain rfl := Option.some.inj hstep
    exact (hs.replace (some file)).spawn trivial rfl
  | delete =>
    obtain ⟨ino, -, rfl⟩ := Option.map_eq_some_iff.mp hstep
    exact (hs.replace none).spawn trivial rfl
  | expire =>
    obtain rfl := Option.some.inj hstep
    exact hs.forgetMeta
  | next i space =>
    obtain ⟨task, htask, hstep⟩ := Option.bind_eq_some_iff.mp hstep
    have hmem : task ∈ s.tasks := List.mem_of_getElem? htask
    have hl : s.TaskUndisturbed size task := hl task htask
    cases task with
    | opened ino since =>
      obtain ⟨f, hf, rfl⟩ := Option.map_eq_some_iff.mp hstep
      have hok : s.TaskOk (.opened ino since) := hs.tasks _ hmem
      refine hs.setTask i ⟨hok.1, ?_⟩ (by simp [MetaTask.pending])
      intro w hw r f' hsettled
      rw [hok.2 w hw r f' hsettled] at hf
      rw [Option.some.inj (hf.symm.trans hsettled.file)]
    | statted info since => exact hs.advance_statted hmem hstep
    | reading info stage since =>
      refine hs.advance_reading hmem ?_ hstep
      rintro n rfl
      exact hl
    | loaded info md since => exact hs.advance_loaded hmem hstep
    | answered md since => cases hstep
    | repairs ino outputID stage =>
      have hok : ino < s.files.length := hs.tasks _ hmem
      rw [advance] at hstep
      split at hstep <;> obtain rfl := Option.some.inj hstep <;>
        exact hs.setTask i hok (by simp [MetaTask.pending])
    | stamps ino outputID attrs =>
      have hok : ino < s.files.length := hs.tasks _ hmem
      rw [advance] at hstep
      split at hstep <;> obtain rfl := Option.some.inj hstep
      · exact hs.setTask i trivial (by simp [MetaTask.pending])
      · refine (hs.write hok _ _).setTask i ?_ (by simp [MetaTask.pending])
        simp [TaskOk, MetaState.write]
    | stamped w => exact hs.advance_stamped hmem hl hstep
    | found kv =>
      obtain rfl := Option.some.inj hstep
      exact hs.forgetMeta.setTask i trivial (by simp [MetaTask.pending])
    | merges kv stage =>
      rw [advance] at hstep
      split at hstep <;> obtain rfl := Option.some.inj hstep <;>
        exact hs.setTask i trivial (by simp [MetaTask.pending])
    | sets kv attrs => exact hs.advance_sets hl hstep
    | replaced =>
      obtain rfl := Option.some.inj hstep
      exact hs.forgetMeta.setTask i trivial (by simp [MetaTask.pending])
    | finished => cases hstep

lemma coherent_start (file : Option AttrFile) : (start file).Coherent := by
  refine ⟨?_, ?_, ?_, ?_, ?_⟩
  · intro ino hino
    obtain ⟨f, rfl, rfl⟩ := Option.map_eq_some_iff.mp hino
    exact Nat.one_pos
  all_goals simp [start, held, pending]

lemma Coherent.fresh (hs : s.Coherent) : s.Fresh := by
  intro task htask answer hanswer w hw r hr hpath
  have hok : s.TaskOk task := hs.tasks task htask
  cases task with
  | answered md since =>
    obtain rfl := Option.some.inj hanswer
    obtain ⟨f, hf, -⟩ := hs.written r (List.mem_of_getElem? hr)
    exact hok.2 w hw r f ⟨hr, hpath, hf⟩
  | _ => cases hanswer

/-- In every undisturbed run, a read that begins after a repair or a `SetMeta` of the file has
completed answers what that wrote, as far as nothing has changed it since. -/
theorem stat_carries_written (size : ObjAttrs → ℕ) (file : Option AttrFile) (ls : List Label)
    (t : MetaState) (hguard : Guarded (step size) (Undisturbed size) (start file) ls)
    (hrun : run (step size) (start file) ls = some t) : t.Fresh := by
  have ht : t.Coherent :=
    run_invariant (fun _ _ _ hs hl hstep => hs.step hl hstep) (coherent_start file) hguard hrun
  exact ht.fresh

/-- A file without metadata. -/
def plainFile : AttrFile := ⟨⟨0, 0⟩, emptyObjAttrs⟩

/-- `SetMeta` drops the cache entry; a `Stat` reads the attribute and puts it into the cache; then
`SetMeta` writes. A `Stat` that begins afterwards finds the entry. -/
def readBetween : List Label :=
  [.setMeta [([1], [2])], .next 0 .fits, .stat, .next 1 .fits, .next 1 .fits, .next 1 .fits,
    .next 0 .fits, .next 0 .fits, .stat, .next 2 .fits]

/-- The `Stat` after `SetMeta` does not answer the value. -/
theorem stat_misses_written :
    ∃ t, run (step fun _ => 0) (start (some plainFile)) readBetween = some t ∧ ¬ t.Fresh := by
  obtain ⟨t, ht, hstale⟩ :
      ∃ t ∈ run (step fun _ => 0) (start (some plainFile)) readBetween, ¬ t.Fresh := by
    decide +kernel
  exact ⟨t, ht, hstale⟩

/-- A read, a repair of the file and a `SetMeta`, one after the other, and a read of all of it. -/
def oneAfterTheOther : List Label :=
  [.stat, .next 0 .fits, .next 0 .fits, .next 0 .fits,
    .repair 0 [7], .next 1 .fits, .next 1 .fits, .next 1 .fits,
    .setMeta [([1], [2])], .next 2 .fits, .next 2 .fits, .next 2 .fits,
    .open, .next 3 .fits, .next 3 .fits, .next 3 .fits, .next 3 .fits]

/-- The last read answers the output id and the value. -/
theorem stat_carries_written_oneAfterTheOther :
    ∃ t, run (step fun _ => 0) (start (some plainFile)) oneAfterTheOther = some t ∧
      (∃ answer ∈ (t.tasks[3]?).bind MetaTask.answer,
        answer.1.Carries [(outputIDMetaKey, [7]), ([1], [2])]) ∧ t.Fresh := by
  have hguard : Guarded (step fun _ => 0) (Undisturbed fun _ => 0) (start (some plainFile))
      oneAfterTheOther := by
    decide +kernel
  obtain ⟨t, ht, hanswer⟩ :
      ∃ t ∈ run (step fun _ => 0) (start (some plainFile)) oneAfterTheOther,
        ∃ answer ∈ (t.tasks[3]?).bind MetaTask.answer,
          answer.1.Carries [(outputIDMetaKey, [7]), ([1], [2])] := by
    decide +kernel
  exact ⟨t, ht, hanswer, stat_carries_written _ _ _ t hguard ht⟩

end MetaState

end GoBuildCache
