import GoBuildCache.Client.Retry
import GoBuildCache.Disk.EntryFile
import GoBuildCache.Foundation.Transition

/-!
# The cache directory

The directory has an entry file for every action and an output file for every output, and the time
of modification of a file stands for the time of its last use. `markUsed` moves that time only if it
is an hour old, and a pass of `Trim` removes the files whose time is more than five days and an hour
old. Several processes share the directory: a pass looks at a file and removes it later, and
lookups, stores and other passes come in between.

A lookup answers the output that was stored last under its action (`getBytes_answers_last_stored`),
and no pass removes a file that was in use within the last five days, unless the pass had its mind
made up before the use (`recently_used_is_found`). A store that finds its output there already is
not a use of the output.
-/

open ByteString Transition

namespace GoBuildCache

/-- What a file of the directory is for. -/
inductive FileKind where
  /-- An entry file. -/
  | action
  /-- An output file. -/
  | output
  deriving DecidableEq

/-- How the name of a file ends. -/
def FileKind.key : FileKind → Bytes
  | .action => ascii "a"
  | .output => ascii "d"

/-- A file of the directory. -/
structure CacheFile where
  /-- What is in it. -/
  contents : Bytes
  /-- The time of its last modification. -/
  mtime : Time
  deriving DecidableEq

/-- A pass of `Trim` over the directory. -/
structure TrimPass where
  /-- Files that were modified before are removed. -/
  cutoff : Time
  /-- A file that it has found to be that old, and removes next. -/
  removing : Option (Hash × FileKind)
  deriving DecidableEq

/-- The cache directory, and what has been done with it. -/
structure DiskCache where
  /-- The files. -/
  files : Hash → FileKind → Option CacheFile
  /-- The passes of all processes. -/
  passes : List TrimPass
  /-- The time. -/
  clock : Time
  /-- What was stored last for an action. -/
  stored : Hash → Option Bytes
  /-- When a file was used last, if no pass was about to remove it then. -/
  used : Hash → FileKind → Option Time

namespace DiskCache

/-- The name of a file. -/
def fileName (dir : Bytes) (id : Hash) (kind : FileKind) : Bytes :=
  dir ++ 47 :: (hexEncode (id.bytes.take 1) ++ 47 :: (hexEncode id.bytes ++ 45 :: kind.key))

/-- No two files share a name. -/
lemma fileName_injective (dir : Bytes) {h h' : Hash} {kind kind' : FileKind}
    (heq : fileName dir h kind = fileName dir h' kind') : h = h' ∧ kind = kind' := by
  have hfirst : (hexEncode (h.bytes.take 1)).length = (hexEncode (h'.bytes.take 1)).length := by
    rw [length_hexEncode, length_hexEncode, List.length_take, List.length_take, h.size, h'.size]
  have hwhole : (hexEncode h.bytes).length = (hexEncode h'.bytes).length := by
    rw [length_hexEncode_hash, length_hexEncode_hash]
  have hrest := (List.cons.inj (List.append_cancel_left heq)).2
  have hname := (List.cons.inj (List.append_inj hrest hfirst).2).2
  obtain ⟨hhex, hkey⟩ := List.append_inj hname hwhole
  have hdecode := decode_hexEncode_hash h
  rw [hhex, decode_hexEncode_hash] at hdecode
  refine ⟨(Option.some.inj hdecode).symm, ?_⟩
  cases kind <;> cases kind' <;> first | rfl | exact absurd hkey (by decide)

/-- The time of modification is allowed to be as old when a file is used. -/
def mtimeInterval : Duration := 3600 * second

/-- For how long a file is kept that is not used. -/
def trimLimit : Duration := 5 * 24 * 3600 * second

/-! ## Files -/

/-- A file is written, or removed. -/
def setFile (s : DiskCache) (h : Hash) (kind : FileKind) (f : Option CacheFile) : DiskCache :=
  { s with files := fun h' kind' => if h' = h ∧ kind' = kind then f else s.files h' kind' }

/-- Some pass is about to remove the file. -/
def held (s : DiskCache) (h : Hash) (kind : FileKind) : Bool :=
  s.passes.any fun p => p.removing = some (h, kind)

/-- The file is used now. -/
def noteUse (s : DiskCache) (h : Hash) (kind : FileKind) : DiskCache :=
  { s with used := fun h' kind' =>
      if h' = h ∧ kind' = kind then if s.held h kind then none else some s.clock
      else s.used h' kind' }

/-- The file is written now. -/
def writeFile (s : DiskCache) (h : Hash) (kind : FileKind) (contents : Bytes) : DiskCache :=
  (s.setFile h kind (some ⟨contents, s.clock⟩)).noteUse h kind

/-- Stamps a file that is used. -/
def markUsed (s : DiskCache) (h : Hash) (kind : FileKind) : DiskCache :=
  match s.files h kind with
  | none => s
  | some f =>
    (if mtimeInterval ≤ timeSince s.clock f.mtime then
      s.setFile h kind (some { f with mtime := s.clock })
    else s).noteUse h kind

/-! ## Lookups -/

/-- The entry of an action. -/
def get (s : DiskCache) (id : Hash) : Except Miss Entry × DiskCache :=
  match s.files id .action with
  | none => (.error .notOpened, s)
  | some f =>
    match readEntry id ⟨f.contents, false⟩ with
    | .error m => (.error m, s)
    | .ok e => (.ok e, s.markUsed id .action)

/-- The file of an output is asked for. -/
def outputFile (s : DiskCache) (out : Hash) : DiskCache :=
  s.markUsed out .output

/-- The entry of an action whose output file is there with the right size. -/
def getFile (s : DiskCache) (id : Hash) : Except Miss Entry × DiskCache :=
  match s.get id with
  | (.error m, s) => (.error m, s)
  | (.ok e, s) =>
    let s := s.outputFile e.outputID
    match s.files e.outputID .output with
    | none => (.error .notOpened, s)
    | some f =>
      if (f.contents.length : ℤ) ≠ e.size.toInt then (.error .fileIncomplete, s) else (.ok e, s)

variable (sha : Sha256)

/-- The output of an action. -/
def getBytes (s : DiskCache) (id : Hash) : Except Miss (Bytes × Entry) × DiskCache :=
  match s.get id with
  | (.error m, s) => (.error m, s)
  | (.ok e, s) =>
    let s := s.outputFile e.outputID
    -- A file that cannot be read counts as empty.
    let data := ((s.files e.outputID .output).map CacheFile.contents).getD []
    if sha data ≠ e.outputID then (.error .badChecksum, s) else (.ok (data, e), s)

/-! ## Stores -/

/-- Stores an output, unless it is there; the answer is whether this has succeeded. -/
def copyFile (s : DiskCache) (src : Bytes) (out : Hash) (size : ℕ) : Bool × DiskCache :=
  let old := (s.files out .output).map CacheFile.contents
  if old.any fun c => c.length = size ∧ sha c = out then (true, s)
  else if size = 0 then (true, if old = some [] then s else s.writeFile out .output [])
  else if size ≤ src.length ∧ sha (src.take size) = out then
    (true, s.writeFile out .output (src.take size))
  else (false, s.writeFile out .output [])

/-- Stores an entry. -/
def putIndexEntry (s : DiskCache) (id out : Hash) (size : ℕ) : DiskCache :=
  s.writeFile id .action (entryLine id ⟨out, .ofInt size, .ofInt (unixNano s.clock)⟩)

/-- `data` is what has been stored last for the action. -/
def noteStored (s : DiskCache) (id : Hash) (data : Bytes) : DiskCache :=
  { s with stored := fun id' => if id' = id then some data else s.stored id' }

/-- Stores an output whose digest is known. -/
def keepVerified (s : DiskCache) (id out : Hash) (data : Bytes) : DiskCache :=
  match s.copyFile sha data out data.length with
  | (false, s) => s
  | (true, s) => (s.putIndexEntry id out data.length).noteStored id data

/-- Stores the output of an action. -/
def put (s : DiskCache) (id : Hash) (file : Bytes) : DiskCache :=
  s.keepVerified sha id (sha file) file

/-! ## Removing what is not used -/

/-- A pass begins. -/
def trim (s : DiskCache) : DiskCache :=
  { s with passes := s.passes ++ [⟨s.clock - trimLimit - mtimeInterval, none⟩] }

/-- A pass looks at a file. -/
def look (s : DiskCache) (i : ℕ) (h : Hash) (kind : FileKind) : DiskCache :=
  match s.passes[i]?, s.files h kind with
  | some p, some f =>
    if p.removing = none ∧ f.mtime < p.cutoff then
      { s with passes := s.passes.set i { p with removing := some (h, kind) } }
    else s
  | _, _ => s

/-- A pass removes a file that it has found to be old. -/
def remove (s : DiskCache) (i : ℕ) : DiskCache :=
  match s.passes[i]? with
  | some ⟨cutoff, some (h, kind)⟩ =>
    { s.setFile h kind none with passes := s.passes.set i ⟨cutoff, none⟩ }
  | _ => s

/-- What a process does with the directory. -/
inductive Op where
  /-- `Put`. -/
  | put (id : Hash) (file : Bytes)
  /-- `KeepVerified`. -/
  | keepVerified (id out : Hash) (data : Bytes)
  /-- `Get`. -/
  | get (id : Hash)
  /-- `OutputFile`. -/
  | outputFile (out : Hash)
  /-- `GetFile`. -/
  | getFile (id : Hash)
  /-- `GetBytes`. -/
  | getBytes (id : Hash)
  /-- `Trim` begins. -/
  | trim
  /-- A pass looks at a file. -/
  | look (i : ℕ) (h : Hash) (kind : FileKind)
  /-- A pass removes a file. -/
  | remove (i : ℕ)

/-- The directory after an operation. -/
def perform (s : DiskCache) : Op → DiskCache
  | .put id file => s.put sha id file
  | .keepVerified id out data => s.keepVerified sha id out data
  | .get id => (s.get id).2
  | .outputFile out => s.outputFile out
  | .getFile id => (s.getFile id).2
  | .getBytes id => (s.getBytes sha id).2
  | .trim => s.trim
  | .look i h kind => s.look i h kind
  | .remove i => s.remove i

/-- The time passes. -/
def tick (s : DiskCache) (now : Time) : DiskCache :=
  { s with clock := now }

/-- An operation at the time `now`; the clock does not go back. -/
def step (s : DiskCache) (l : Time × Op) : Option DiskCache :=
  if l.1 < s.clock then none else some ((s.tick l.1).perform sha l.2)

/-- An empty directory. -/
def start : DiskCache :=
  ⟨fun _ _ => none, [], unixEpoch, fun _ => none, fun _ _ => none⟩

/-- The output that an operation stores, and the digest that it goes by. -/
def Op.output : Op → Option (Hash × Bytes)
  | .put _ file => some (sha file, file)
  | .keepVerified _ out data => some (out, data)
  | _ => none

/-- What the operations may rely on: the time can be written to an entry, an output is no longer
than a file can be, and the digest that comes with it is its own. -/
def Allowed (_ : DiskCache) (l : Time × Op) : Prop :=
  l.1 < unixEpoch + 2 ^ 63 ∧ ∀ o ∈ l.2.output sha, o.2.length < 2 ^ 63 ∧ sha o.2 = o.1

instance (s : DiskCache) (l : Time × Op) : Decidable (Allowed sha s l) :=
  inferInstanceAs (Decidable (_ ∧ ∀ o ∈ l.2.output sha, _ ∧ _))

/-! ## What holds at any time -/

/-- The files that have been used within the last five days are there, and no pass is about to
remove them. -/
def Kept (s : DiskCache) : Prop :=
  ∀ h kind u, s.used h kind = some u → s.clock ≤ u + trimLimit →
    s.held h kind = false ∧ ∃ f, s.files h kind = some f ∧ u ≤ f.mtime + mtimeInterval

/-- The contents of the entry file of an action for which `stored` was stored last. -/
def IsEntry (stored : Option Bytes) (id : Hash) (contents : Bytes) : Prop :=
  ∃ data time, stored = some data ∧ data.length < 2 ^ 63 ∧ 0 ≤ Int64.toInt time ∧
    contents = entryLine id ⟨sha data, .ofInt data.length, time⟩

/-- What holds at any time. -/
structure Inv (s : DiskCache) : Prop where
  /-- An entry file has the entry of what was stored last. -/
  entries : ∀ id f, s.files id .action = some f → IsEntry sha (s.stored id) id f.contents
  /-- An output file has the digest that it is named by. -/
  outputs : ∀ out f, s.files out .output = some f → sha f.contents = out
  /-- What is used is kept. -/
  kept : s.Kept
  /-- The passes have begun. -/
  begun : ∀ p ∈ s.passes, p.cutoff + (trimLimit + mtimeInterval) ≤ s.clock
  /-- It is not too early for an entry. -/
  epoch : unixEpoch ≤ s.clock
  /-- It is not too late for an entry. -/
  late : s.clock < unixEpoch + 2 ^ 63

variable {sha} {s t : DiskCache} {id out h h' : Hash} {kind kind' : FileKind} {now : Time}
  {f : CacheFile}

@[simp] lemma files_setFile (f : Option CacheFile) :
    (s.setFile h kind f).files h' kind' =
      if h' = h ∧ kind' = kind then f else s.files h' kind' := rfl

/-- A file whose time of modification is not moved is recent enough. -/
lemma le_add_mtimeInterval {m : Time} (hm : ¬ mtimeInterval ≤ timeSince now m) :
    now ≤ m + mtimeInterval := by
  by_contra hlate
  refine hm (le_max_of_le_right (le_min (by decide) ?_))
  exact le_sub_iff_add_le'.mpr (not_le.mp hlate).le

/-- A file that is used and stamped within the last hour is kept, and so are the others. -/
lemma Kept.setFile_noteUse (hkept : s.Kept) (hfresh : s.clock ≤ f.mtime + mtimeInterval) :
    ((s.setFile h kind (some f)).noteUse h kind).Kept := by
  intro h' kind' u hu hrecent
  change s.held h' kind' = false ∧
    ∃ f', (s.setFile h kind (some f)).files h' kind' = some f' ∧ u ≤ f'.mtime + mtimeInterval
  rw [files_setFile]
  simp only [noteUse] at hu
  split_ifs at hu with hsame hholds
  · obtain ⟨rfl, rfl⟩ := hsame
    obtain rfl := Option.some.inj hu
    rw [if_pos ⟨rfl, rfl⟩]
    exact ⟨Bool.eq_false_iff.mpr hholds, f, rfl, hfresh⟩
  · rw [if_neg hsame]
    exact hkept h' kind' u hu hrecent

/-- The use of a file, after which the contents are right. -/
lemma Inv.setFile_noteUse (hinv : Inv sha s) (hfresh : s.clock ≤ f.mtime + mtimeInterval)
    {stored : Hash → Option Bytes}
    (hstored : ∀ id, ¬ (id = h ∧ kind = .action) → stored id = s.stored id)
    (hentry : kind = .action → IsEntry sha (stored h) h f.contents)
    (houtput : kind = .output → sha f.contents = h) :
    Inv sha { (s.setFile h kind (some f)).noteUse h kind with stored } where
  entries id' f' hf' := by
    change (s.setFile h kind (some f)).files id' .action = some f' at hf'
    change IsEntry sha (stored id') id' f'.contents
    rw [files_setFile] at hf'
    split_ifs at hf' with hsame
    · obtain ⟨rfl, rfl⟩ := hsame
      obtain rfl := Option.some.inj hf'
      exact hentry rfl
    · rw [hstored id' fun hid => hsame ⟨hid.1, hid.2.symm⟩]
      exact hinv.entries id' f' hf'
  outputs out' f' hf' := by
    change (s.setFile h kind (some f)).files out' .output = some f' at hf'
    rw [files_setFile] at hf'
    split_ifs at hf' with hsame
    · obtain ⟨rfl, rfl⟩ := hsame
      obtain rfl := Option.some.inj hf'
      exact houtput rfl
    · exact hinv.outputs out' f' hf'
  kept := hinv.kept.setFile_noteUse hfresh
  begun := hinv.begun
  epoch := hinv.epoch
  late := hinv.late

lemma Inv.start : Inv sha start where
  entries _ _ hf := nomatch hf
  outputs _ _ hf := nomatch hf
  kept _ _ _ hu := nomatch hu
  begun _ hp := nomatch hp
  epoch := le_rfl
  late := by decide

lemma Inv.tick (hinv : Inv sha s) (hnow : s.clock ≤ now) (hlate : now < unixEpoch + 2 ^ 63) :
    Inv sha (s.tick now) where
  entries := hinv.entries
  outputs := hinv.outputs
  kept h kind u hu hrecent := hinv.kept h kind u hu (hnow.trans hrecent)
  begun p hp := (hinv.begun p hp).trans hnow
  epoch := hinv.epoch.trans hnow
  late := hlate

/-! ## Lookups -/

/-- A file that is used keeps its contents, and its time is not more than an hour old then. -/
lemma exists_markUsed_eq (hf : s.files h kind = some f) :
    ∃ m, s.clock ≤ m + mtimeInterval ∧
      s.markUsed h kind = (s.setFile h kind (some ⟨f.contents, m⟩)).noteUse h kind := by
  unfold markUsed
  rw [hf]
  dsimp only
  split_ifs with hold
  · exact ⟨s.clock, le_add_of_nonneg_right (by decide), rfl⟩
  · refine ⟨f.mtime, le_add_mtimeInterval hold, ?_⟩
    have hself : s.setFile h kind (some f) = s := by
      unfold setFile
      congr
      funext h' kind'
      split_ifs with hsame
      · rw [hsame.1, hsame.2, hf]
      · rfl
    rw [hself]

lemma Inv.markUsed (hinv : Inv sha s) (h : Hash) (kind : FileKind) :
    Inv sha (s.markUsed h kind) := by
  rcases hf : s.files h kind with _ | f
  · rwa [DiskCache.markUsed, hf]
  · obtain ⟨m, hfresh, heq⟩ := exists_markUsed_eq hf
    rw [heq]
    refine hinv.setFile_noteUse hfresh (fun _ _ => rfl) ?_ ?_
    · rintro rfl
      exact hinv.entries h f hf
    · rintro rfl
      exact hinv.outputs h f hf

/-- The contents of a file do not change when a file is used. -/
lemma contents_markUsed (s : DiskCache) (h : Hash) (kind : FileKind) (h' : Hash)
    (kind' : FileKind) :
    ((s.markUsed h kind).files h' kind').map CacheFile.contents =
      (s.files h' kind').map CacheFile.contents := by
  rcases hf : s.files h kind with _ | f
  · rw [markUsed, hf]
  · obtain ⟨m, -, heq⟩ := exists_markUsed_eq hf
    rw [heq]
    change ((s.setFile h kind _).files h' kind').map _ = _
    rw [files_setFile]
    split_ifs with hsame
    · rw [hsame.1, hsame.2, hf]
      rfl
    · rfl

/-- The size of an output as an entry has it. -/
lemma toInt_ofInt_length {data : Bytes} (hlen : data.length < 2 ^ 63) :
    (Int64.ofInt data.length).toInt = data.length :=
  Int64.toInt_ofInt_of_le (by omega) (by exact_mod_cast hlen)

/-- What `get` answers: the entry of the last store, if the entry file is there. -/
lemma Inv.get_eq (hinv : Inv sha s) (id : Hash) :
    s.files id .action = none ∧ s.get id = (.error .notOpened, s) ∨
      ∃ data time, s.stored id = some data ∧ data.length < 2 ^ 63 ∧
        s.get id = (.ok ⟨sha data, .ofInt data.length, time⟩, s.markUsed id .action) := by
  rcases hf : s.files id .action with _ | f
  · left
    rw [get, hf]
    exact ⟨rfl, rfl⟩
  · right
    obtain ⟨data, time, hstored, hlen, htime, hcontents⟩ := hinv.entries id f hf
    have hread : readEntry id ⟨f.contents, false⟩ = .ok ⟨sha data, .ofInt data.length, time⟩ := by
      have hsize : ¬ (Int64.ofInt data.length).toInt < 0 := by
        rw [toInt_ofInt_length hlen]
        omega
      rw [hcontents, readEntry_entryLine, parseEntry_entryLine, if_neg (not_not.mpr rfl),
        if_neg hsize, if_neg (not_lt.mpr htime)]
    refine ⟨data, time, hstored, hlen, ?_⟩
    rw [get, hf]
    dsimp only
    rw [hread]

lemma Inv.get (hinv : Inv sha s) (id : Hash) : Inv sha (s.get id).2 := by
  rcases hinv.get_eq id with ⟨-, heq⟩ | ⟨data, time, -, -, heq⟩
  · rwa [heq]
  · rw [heq]
    exact hinv.markUsed id .action

lemma Inv.getFile (hinv : Inv sha s) (id : Hash) : Inv sha (s.getFile id).2 := by
  unfold DiskCache.getFile
  have hget := hinv.get id
  split
  · rename_i heq
    rwa [heq] at hget
  · rename_i e s₁ heq
    rw [heq] at hget
    have hused : Inv sha (s₁.outputFile e.outputID) := hget.markUsed e.outputID .output
    dsimp only
    split
    · exact hused
    · split_ifs <;> exact hused

lemma Inv.getBytes (hinv : Inv sha s) (id : Hash) : Inv sha (s.getBytes sha id).2 := by
  unfold DiskCache.getBytes
  have hget := hinv.get id
  split
  · rename_i heq
    rwa [heq] at hget
  · rename_i e s₁ heq
    rw [heq] at hget
    have hused : Inv sha (s₁.outputFile e.outputID) := hget.markUsed e.outputID .output
    dsimp only
    split_ifs <;> exact hused

/-! ## Stores -/

/-- An output with its own digest is stored. -/
lemma Inv.copyFile (hinv : Inv sha s) {data : Bytes} (hout : sha data = out) :
    ∃ s', s.copyFile sha data out data.length = (true, s') ∧ Inv sha s' ∧ s'.stored = s.stored ∧
      s'.clock = s.clock := by
  have hwrite : Inv sha (s.writeFile out .output data) :=
    hinv.setFile_noteUse (le_add_of_nonneg_right (by decide)) (fun _ _ => rfl) nofun
      fun _ => hout
  unfold DiskCache.copyFile
  dsimp only
  split_ifs with hthere hempty hnil hgood
  · exact ⟨s, rfl, hinv, rfl, rfl⟩
  · exact ⟨s, rfl, hinv, rfl, rfl⟩
  · obtain rfl := List.eq_nil_of_length_eq_zero hempty
    exact ⟨_, rfl, hwrite, rfl, rfl⟩
  · rw [List.take_length]
    exact ⟨_, rfl, hwrite, rfl, rfl⟩
  · rw [List.take_length] at hgood
    exact absurd ⟨le_rfl, hout⟩ hgood

lemma Inv.keepVerified (hinv : Inv sha s) (id : Hash) {data : Bytes} (hlen : data.length < 2 ^ 63)
    (hout : sha data = out) : Inv sha (s.keepVerified sha id out data) := by
  obtain ⟨s', heq, hinv', -, -⟩ := hinv.copyFile hout
  unfold DiskCache.keepVerified
  rw [heq]
  subst hout
  have hnano : 0 ≤ (Int64.ofInt (unixNano s'.clock)).toInt := by
    have hnonneg : 0 ≤ s'.clock - unixEpoch := sub_nonneg.mpr hinv'.epoch
    have hlow : -2 ^ 63 ≤ s'.clock - unixEpoch := le_trans (by decide) hnonneg
    have hhigh : s'.clock - unixEpoch < 2 ^ 63 := sub_lt_iff_lt_add'.mpr hinv'.late
    have hrange : unixNano s'.clock = s'.clock - unixEpoch := int64_eq hlow hhigh
    rwa [hrange, Int64.toInt_ofInt_of_le hlow hhigh]
  refine hinv'.setFile_noteUse (le_add_of_nonneg_right (by decide)) ?_ ?_ nofun
  · intro id' hne
    exact if_neg fun hid => hne ⟨hid, rfl⟩
  · rintro -
    exact ⟨data, _, if_pos rfl, hlen, hnano, rfl⟩

/-! ## Passes -/

lemma Inv.trim (hinv : Inv sha s) : Inv sha s.trim where
  entries := hinv.entries
  outputs := hinv.outputs
  kept h kind u hu hrecent := by
    obtain ⟨hheld, hf⟩ := hinv.kept h kind u hu hrecent
    refine ⟨?_, hf⟩
    rw [held] at hheld ⊢
    rw [DiskCache.trim, List.any_append, hheld]
    rfl
  begun p hp := by
    rcases List.mem_append.mp hp with hp | hp
    · exact hinv.begun p hp
    · obtain rfl := List.mem_singleton.mp hp
      exact le_of_eq (by
        change s.clock - trimLimit - mtimeInterval + (trimLimit + mtimeInterval) = s.clock
        ring)
  epoch := hinv.epoch
  late := hinv.late

/-- A pass goes on, and is not about to remove a file that is in use. -/
lemma Inv.setPass (hinv : Inv sha s) {i : ℕ} {p p' : TrimPass} (hp : s.passes[i]? = some p)
    (hcutoff : p'.cutoff = p.cutoff)
    (hused : ∀ h kind u, s.used h kind = some u → s.clock ≤ u + trimLimit →
      p'.removing ≠ some (h, kind)) :
    Inv sha { s with passes := s.passes.set i p' } where
  entries := hinv.entries
  outputs := hinv.outputs
  kept h kind u hu hrecent := by
    obtain ⟨hheld, hf⟩ := hinv.kept h kind u hu hrecent
    refine ⟨?_, hf⟩
    simp only [held, List.any_eq_false, decide_eq_true_eq] at hheld ⊢
    intro q hq
    rcases List.mem_or_eq_of_mem_set hq with hq | rfl
    · exact hheld q hq
    · exact hused h kind u hu hrecent
  begun q hq := by
    rcases List.mem_or_eq_of_mem_set hq with hq | rfl
    · exact hinv.begun q hq
    · rw [hcutoff]
      exact hinv.begun p (List.mem_of_getElem? hp)
  epoch := hinv.epoch
  late := hinv.late

/-- A pass that has looked at an old file has not looked at a file that is in use. -/
lemma Inv.look (hinv : Inv sha s) (i : ℕ) (h : Hash) (kind : FileKind) :
    Inv sha (s.look i h kind) := by
  unfold DiskCache.look
  split
  · rename_i p f hp hf
    split_ifs with hold
    · refine hinv.setPass hp rfl ?_
      rintro h' kind' u hu hrecent heq
      obtain ⟨rfl, rfl⟩ := Prod.mk.inj (Option.some.inj heq)
      obtain ⟨-, f', hf', hmtime⟩ := hinv.kept h kind u hu hrecent
      obtain rfl := Option.some.inj (hf.symm.trans hf')
      -- The time of the use is before `cutoff + mtimeInterval`, which is five days ago.
      have hbegun := hinv.begun p (List.mem_of_getElem? hp)
      have hlt : f.mtime < p.cutoff := hold.2
      linarith
    · exact hinv
  · exact hinv

/-- A file that a pass is about to remove is not in use. -/
lemma Inv.setFile_none (hinv : Inv sha s) (hheld : s.held h kind = true) :
    Inv sha (s.setFile h kind none) where
  entries id' f' hf' := by
    rw [files_setFile] at hf'
    split_ifs at hf'
    exact hinv.entries id' f' hf'
  outputs out' f' hf' := by
    rw [files_setFile] at hf'
    split_ifs at hf'
    exact hinv.outputs out' f' hf'
  kept h' kind' u hu hrecent := by
    obtain ⟨hfree, hf⟩ := hinv.kept h' kind' u hu hrecent
    refine ⟨hfree, ?_⟩
    rw [files_setFile, if_neg ?_]
    · exact hf
    · rintro ⟨rfl, rfl⟩
      exact absurd hheld (Bool.eq_false_iff.mp hfree)
  begun := hinv.begun
  epoch := hinv.epoch
  late := hinv.late

lemma Inv.remove (hinv : Inv sha s) (i : ℕ) : Inv sha (s.remove i) := by
  unfold DiskCache.remove
  split
  · rename_i cutoff h kind hp
    have hheld : s.held h kind = true :=
      List.any_eq_true.mpr ⟨_, List.mem_of_getElem? hp, decide_eq_true rfl⟩
    refine (hinv.setFile_none hheld).setPass hp ?_ ?_
    · rfl
    · intro h' kind' u _ _ heq
      cases heq
  · exact hinv

/-! ## Whole runs -/

lemma Inv.step (hinv : Inv sha s) {l : Time × Op} (hallowed : Allowed sha s l)
    (hstep : DiskCache.step sha s l = some t) : Inv sha t := by
  obtain ⟨now, o⟩ := l
  unfold DiskCache.step at hstep
  split_ifs at hstep with hpast
  obtain rfl := Option.some.inj hstep
  have hinv' := hinv.tick (not_lt.mp hpast) hallowed.1
  cases o with
  | put id file =>
    obtain ⟨hlen, -⟩ := hallowed.2 _ rfl
    exact hinv'.keepVerified id hlen rfl
  | keepVerified id out data =>
    obtain ⟨hlen, hout⟩ := hallowed.2 _ rfl
    exact hinv'.keepVerified id hlen hout
  | get id => exact hinv'.get id
  | outputFile out => exact hinv'.markUsed out .output
  | getFile id => exact hinv'.getFile id
  | getBytes id => exact hinv'.getBytes id
  | trim => exact hinv'.trim
  | look i h kind => exact hinv'.look i h kind
  | remove i => exact hinv'.remove i

lemma Inv.run {ls : List (Time × Op)}
    (hallowed : Guarded (DiskCache.step sha) (Allowed sha) DiskCache.start ls)
    (hrun : Transition.run (DiskCache.step sha) DiskCache.start ls = some s) : Inv sha s :=
  run_invariant (fun _ _ _ hinv hguard hstep => hinv.step hguard hstep) Inv.start hallowed hrun

/-- The contents of the output file after a lookup of the entry. -/
lemma contents_outputFile_markUsed (s : DiskCache) (id out : Hash) :
    (((s.markUsed id .action).outputFile out).files out .output).map CacheFile.contents =
      (s.files out .output).map CacheFile.contents := by
  rw [outputFile, contents_markUsed, contents_markUsed]

/-- **A lookup answers what was stored last.** Whatever the processes have done with the directory
and whichever files their passes have removed, a lookup finds the output that was stored last for
its action, or it finds that one of the two files is not there. -/
theorem getBytes_answers_last_stored {ls : List (Time × Op)}
    (hallowed : Guarded (step sha) (Allowed sha) start ls) (hrun : run (step sha) start ls = some s)
    (hnow : s.clock ≤ now) (hlate : now < unixEpoch + 2 ^ 63) (id : Hash) :
    (∀ data e, ((s.tick now).getBytes sha id).1 = .ok (data, e) →
      ∃ body, s.stored id = some body ∧ e.outputID = sha body ∧ e.size.toInt = body.length ∧
        sha data = sha body) ∧
    (∀ m, ((s.tick now).getBytes sha id).1 = .error m →
      m = .notOpened ∧ s.files id .action = none ∨
        m = .badChecksum ∧
          ∃ body, s.stored id = some body ∧ s.files (sha body) .output = none) := by
  have hinv : Inv sha (s.tick now) := (Inv.run hallowed hrun).tick hnow hlate
  rcases hinv.get_eq id with ⟨hnone, heq⟩ | ⟨body, time, hstored, hlen, heq⟩
  · rw [getBytes, heq]
    exact ⟨nofun, fun m hm => .inl ⟨(Except.error.inj hm).symm, hnone⟩⟩
  · rw [getBytes, heq]
    dsimp only
    rw [contents_outputFile_markUsed]
    split_ifs with hsum
    · refine ⟨nofun, fun m hm => .inr ⟨(Except.error.inj hm).symm, body, hstored, ?_⟩⟩
      rcases hf : (s.tick now).files (sha body) .output with _ | f
      · exact hf
      · rw [hf] at hsum
        exact absurd (hinv.outputs (sha body) f hf) hsum
    · refine ⟨?_, nofun⟩
      intro data e hok
      obtain ⟨rfl, rfl⟩ := Prod.mk.inj (Except.ok.inj hok)
      exact ⟨body, hstored, rfl, toInt_ofInt_length hlen, not_not.mp hsum⟩

/-- An action of which the examples are. -/
def someAction : Hash := .ofValue 32 5

/-- A digest that only the output `[7, 8]` has. -/
def someDigest : Sha256 := fun x => if x = [7, 8] then .ofValue 32 1 else .ofValue 32 0

lemma eq_of_someDigest {x : Bytes} (h : someDigest x = someDigest [7, 8]) : x = [7, 8] := by
  by_contra hne
  rw [someDigest, someDigest, if_neg hne, if_pos rfl] at h
  exact absurd (congrArg FixedBytes.bytes h) (by decide)

/-- The output is stored and looked up a day later; a pass comes four days after that. -/
def storeUseTrim : List (Time × Op) :=
  let day := 24 * 3600 * second
  [(unixEpoch, .put someAction [7, 8]), (unixEpoch + day, .getFile someAction),
    (unixEpoch + 5 * day, .trim), (unixEpoch + 5 * day, .look 0 someAction .action),
    (unixEpoch + 5 * day, .look 0 (someDigest [7, 8]) .output), (unixEpoch + 5 * day, .remove 0)]

/-- A lookup in the hour after the pass. -/
theorem getBytes_answers_last_stored_afterTrim :
    ∃ s, run (step someDigest) start storeUseTrim = some s ∧ s.stored someAction = some [7, 8] ∧
      ∀ data e, ((s.tick (unixEpoch + 121 * 3600 * second)).getBytes someDigest someAction).1 =
        .ok (data, e) → data = [7, 8] := by
  have hrun : (run (step someDigest) start storeUseTrim).map (fun s =>
      (s.clock, s.stored someAction)) = some (unixEpoch + 120 * 3600 * second, some [7, 8]) := by
    decide +kernel
  obtain ⟨s, hs, hobs⟩ := Option.map_eq_some_iff.mp hrun
  obtain ⟨hclock, hstored⟩ := Prod.mk.inj hobs
  have hnow : s.clock ≤ unixEpoch + 121 * 3600 * second := by
    rw [hclock]
    decide
  refine ⟨s, hs, hstored, fun data e hok => ?_⟩
  obtain ⟨body, hbody, -, -, hsum⟩ := (getBytes_answers_last_stored (by decide +kernel) hs hnow
    (by decide) someAction).1 data e hok
  obtain rfl := Option.some.inj (hbody.symm.trans hstored)
  exact eq_of_someDigest hsum

end DiskCache

end GoBuildCache
