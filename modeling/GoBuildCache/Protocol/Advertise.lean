import GoBuildCache.Foundation.Transition
import GoBuildCache.Index.State
import GoBuildCache.Store.Walk

/-!
# What is advertised is stored

Uploads, deletions and evictions each change the file system and the index in separate steps: an
upload renames its file into place and then records the key; a deletion unlinks the file and then
drops the key; an eviction drops a batch of keys and then stats and unlinks their files one by one.
The system (`StoreState.step`) interleaves any number of them.

A hash is *due* if the index advertises it or an upload is about to. The invariant (`Backed`) says
that every due hash has a file or a deletion that has yet to drop it. Three kinds of step can break
it, and `Orderly` excludes just those: dropping a hash under an upload whose file is gone, evicting
a file that has become due again, and unlinking, under some other key, a file whose hash is due. In
runs without them everything advertised is stored whenever no request is in progress
(`advertised_stored`); `deletion_overtakes_upload` is a run with one of them.
-/

open ByteString Transition

namespace GoBuildCache

/-- A file of the data directory. -/
structure FileStat where
  /-- Its path. -/
  path : Bytes
  /-- Its modification time in seconds. -/
  mtimeUnix : ℤ
  deriving DecidableEq

/-- An object that a sweep has chosen for eviction. -/
structure EvictionVictim where
  /-- Its key. -/
  key : Key
  /-- The modification time that the sweep has seen. -/
  mtimeUnix : ℤ
  /-- Whether `evictOne` has found the file unchanged. -/
  checked : Bool
  deriving DecidableEq

/-- The store, the index, and the requests in progress. -/
structure StoreState where
  /-- The index. -/
  index : Index
  /-- The files of the data directory. -/
  files : List FileStat
  /-- The uploads that have renamed their file and not reached the index. -/
  uploading : List Key
  /-- The deletions that have unlinked their file and not reached the index. -/
  deleting : List Key
  /-- The batches that are off the index, with the victims still to unlink. -/
  evicting : List (List EvictionVictim)

/-- The action hash under which a walk files a path. -/
def pathHash (d : DataDir) (path : Bytes) : Option Hash :=
  (walkKey d ⟨path, none⟩).bind extractActionHash

/-- The file of a cacheprog key is filed under its hash. -/
lemma pathHash_keyToPath (sha256 : Sha256) (d : DataDir) {key : Key} {h : Hash} (hne : key ≠ [])
    (hkey : actionHash key = some h) : pathHash d (keyToPath sha256 d key) = some h := by
  rw [actionHash_of_ne_nil hne] at hkey
  have hwalk : walkKey d ⟨keyToPath sha256 d key, none⟩ = some key :=
    walkKey_of_extractActionHash sha256 d hkey rfl
  rw [pathHash, hwalk, Option.bind_some, hkey]

namespace StoreState

/-- What can happen. -/
inductive Label where
  /-- An upload renames its file into place. -/
  | rename (key : Key) (mtime : ℤ)
  /-- An upload records its key in the index. -/
  | indexPut (key : Key) (now : ℤ) (epoch : UInt64)
  /-- A deletion unlinks a file. -/
  | unlink (key : Key)
  /-- A deletion drops its key from the index. -/
  | indexRemove (key : Key) (epoch : UInt64)
  /-- A sweep drops a batch of keys from the index. -/
  | removeKeys (victims : List (Key × ℤ)) (epoch : UInt64)
  /-- The sweep stats the next victim of a batch. -/
  | evictStat (batch : List EvictionVictim)
  /-- The sweep unlinks the next victim of a batch. -/
  | evictUnlink (batch : List EvictionVictim)

/-- The file at a path. -/
def fileAt (s : StoreState) (path : Bytes) : Option FileStat :=
  s.files.find? (·.path = path)

/-- The files without the one at a path. -/
def filesWithout (s : StoreState) (path : Bytes) : List FileStat :=
  s.files.filter (·.path ≠ path)

/-- The batches when `batch` has `rest` left. -/
def proceed (s : StoreState) (batch rest : List EvictionVictim) : List (List EvictionVictim) :=
  if rest = [] then s.evicting.erase batch else rest :: s.evicting.erase batch

/-- The batch after the stat of `evictOne`: a victim that is gone or has been overwritten is passed
over. Victims without a modification time are not checked. -/
def statVictim (sha256 : Sha256) (d : DataDir) (s : StoreState) (v : EvictionVictim)
    (rest : List EvictionVictim) : List EvictionVictim :=
  if 0 < v.mtimeUnix then
    match s.fileAt (keyToPath sha256 d v.key) with
    | none => rest
    | some f => if f.mtimeUnix ≠ v.mtimeUnix then rest else { v with checked := true } :: rest
  else { v with checked := true } :: rest

/-- One step. A deletion of a file that does not exist ends at once. -/
def step (sha256 : Sha256) (d : DataDir) (s : StoreState) : Label → Option StoreState
  | .rename key mtime =>
    let path := keyToPath sha256 d key
    if key = [] then none
    else some { s with
      files := ⟨path, mtime⟩ :: s.filesWithout path, uploading := key :: s.uploading }
  | .indexPut key now epoch =>
    if key ∈ s.uploading then
      some { s with index := s.index.put key now epoch, uploading := s.uploading.erase key }
    else none
  | .unlink key =>
    let path := keyToPath sha256 d key
    if (s.fileAt path).isSome then
      some { s with files := s.filesWithout path, deleting := key :: s.deleting }
    else none
  | .indexRemove key epoch =>
    if key ∈ s.deleting then
      some { s with index := s.index.remove key epoch, deleting := s.deleting.erase key }
    else none
  | .removeKeys victims epoch =>
    if victims = [] then none
    else some { s with
      index := s.index.removeKeys (victims.map (·.1)) epoch
      evicting := (victims.map fun v => ⟨v.1, v.2, false⟩) :: s.evicting }
  | .evictStat batch =>
    match batch with
    | v :: rest =>
      if batch ∈ s.evicting ∧ v.checked = false then
        some { s with evicting := s.proceed batch (s.statVictim sha256 d v rest) }
      else none
    | [] => none
  | .evictUnlink batch =>
    match batch with
    | v :: rest =>
      if batch ∈ s.evicting ∧ v.checked = true then
        some { s with
          files := s.filesWithout (keyToPath sha256 d v.key), evicting := s.proceed batch rest }
      else none
    | [] => none

/-- A server with some files and an index without objects. -/
def start (files : List FileStat) (entriesOff : Bool) (blobMinInterval : Duration)
    (addLogLimit : ℤ) (epoch : UInt64) : StoreState :=
  ⟨.empty entriesOff blobMinInterval addLogLimit epoch, files, [], [], []⟩

/-- The file of a key exists. -/
def InPlace (sha256 : Sha256) (d : DataDir) (s : StoreState) (key : Key) : Prop :=
  ∃ f ∈ s.files, f.path = keyToPath sha256 d key

instance (sha256 : Sha256) (d : DataDir) (s : StoreState) (key : Key) :
    Decidable (s.InPlace sha256 d key) :=
  inferInstanceAs (Decidable (∃ f ∈ s.files, f.path = keyToPath sha256 d key))

/-- Some key of the hash has a file. -/
def Stored (sha256 : Sha256) (d : DataDir) (s : StoreState) (h : Hash) : Prop :=
  ∃ key, key ≠ [] ∧ actionHash key = some h ∧ s.InPlace sha256 d key

/-- The index advertises the hash, or an upload is about to make it. -/
def Due (s : StoreState) (h : Hash) : Prop :=
  s.index.Advertises h ∨ ∃ key ∈ s.uploading, actionHash key = some h

instance (s : StoreState) (h : Hash) : Decidable (s.Due h) :=
  inferInstanceAs (Decidable (_ ∨ _))

/-- No request is in progress. -/
def Quiet (s : StoreState) : Prop :=
  s.uploading = [] ∧ s.deleting = [] ∧ s.evicting = []

/-- The step does not take a file away from a hash that is due, other than by a deletion of that
hash, and does not drop a hash under an upload whose file is gone. -/
def Orderly (sha256 : Sha256) (d : DataDir) (s : StoreState) : Label → Prop
  | .unlink key =>
    ∀ h ∈ pathHash d (keyToPath sha256 d key), s.Due h → actionHash key = some h
  | .indexRemove key _ =>
    ∀ h ∈ actionHash key, ∀ k ∈ s.uploading, actionHash k = some h → s.InPlace sha256 d k
  | .evictUnlink (v :: _) => ∀ h ∈ pathHash d (keyToPath sha256 d v.key), ¬ s.Due h
  | _ => True

instance (sha256 : Sha256) (d : DataDir) (s : StoreState) :
    (l : Label) → Decidable (s.Orderly sha256 d l)
  | .unlink key => inferInstanceAs (Decidable
      (∀ h ∈ pathHash d (keyToPath sha256 d key), s.Due h → actionHash key = some h))
  | .indexRemove key _ => inferInstanceAs (Decidable
      (∀ h ∈ actionHash key, ∀ k ∈ s.uploading, actionHash k = some h → s.InPlace sha256 d k))
  | .evictUnlink (v :: _) => inferInstanceAs (Decidable
      (∀ h ∈ pathHash d (keyToPath sha256 d v.key), ¬ s.Due h))
  | .evictUnlink [] => isTrue trivial
  | .rename .. | .indexPut .. | .removeKeys .. | .evictStat .. => isTrue trivial

/-! ## Everything due is backed -/

/-- Every hash that is due has a file, or a deletion that is about to drop it. -/
structure Backed (sha256 : Sha256) (d : DataDir) (s : StoreState) : Prop where
  /-- Requests carry keys that are not empty. -/
  keys : ∀ key ∈ s.uploading, key ≠ []
  /-- What is due is stored, or under deletion. -/
  backed : ∀ h, s.Due h → s.Stored sha256 d h ∨ ∃ key ∈ s.deleting, actionHash key = some h

lemma backed_start (sha256 : Sha256) (d : DataDir) (files : List FileStat) (entriesOff : Bool)
    (blobMinInterval : Duration) (addLogLimit : ℤ) (epoch : UInt64) :
    Backed sha256 d (start files entriesOff blobMinInterval addLogLimit epoch) where
  keys := by simp [start]
  backed := by simp [start, Due, Index.Advertises, Index.empty]

section Steps

variable {sha256 : Sha256} {d : DataDir} {s s' : StoreState}

lemma Stored.mono {h : Hash} (hfiles : ∀ key, s.InPlace sha256 d key → s'.InPlace sha256 d key)
    (hs : s.Stored sha256 d h) : s'.Stored sha256 d h := by
  obtain ⟨key, hne, hkey, hplace⟩ := hs
  exact ⟨key, hne, hkey, hfiles key hplace⟩

/-- Unlinking a path takes the file away only from the hash under which the path is filed. -/
lemma Stored.unlink {h : Hash} {path : Bytes} (hfiles : s'.files = s.filesWithout path)
    (hs : s.Stored sha256 d h) : s'.Stored sha256 d h ∨ pathHash d path = some h := by
  obtain ⟨key, hne, hkey, f, hf, hpath⟩ := hs
  by_cases heq : keyToPath sha256 d key = path
  · exact Or.inr (heq ▸ pathHash_keyToPath sha256 d hne hkey)
  · refine Or.inl ⟨key, hne, hkey, f, ?_, hpath⟩
    rw [hfiles]
    exact List.mem_filter.mpr ⟨hf, by simpa [hpath] using heq⟩

lemma Backed.rename (hs : Backed sha256 d s) {key : Key} {mtime : ℤ}
    (h : s.step sha256 d (.rename key mtime) = some s') : Backed sha256 d s' := by
  simp only [step] at h
  split_ifs at h with hne
  obtain rfl := Option.some.inj h
  refine ⟨fun k hk => ?_, fun x hx => ?_⟩
  · rcases List.mem_cons.mp hk with rfl | hk
    · exact hne
    · exact hs.keys k hk
  by_cases hkey : actionHash key = some x
  · exact Or.inl ⟨key, hne, hkey, _, List.mem_cons_self .., rfl⟩
  have hdue : s.Due x := by
    refine hx.imp_right ?_
    rintro ⟨k, hk, hkx⟩
    rcases List.mem_cons.mp hk with rfl | hk
    · exact absurd hkx hkey
    · exact ⟨k, hk, hkx⟩
  refine (hs.backed x hdue).imp_left (Stored.mono ?_)
  rintro k ⟨f, hf, hpath⟩
  by_cases heq : f.path = keyToPath sha256 d key
  · exact ⟨_, List.mem_cons_self .., heq.symm.trans hpath⟩
  · exact ⟨f, List.mem_cons_of_mem _ (List.mem_filter.mpr ⟨hf, by simpa using heq⟩), hpath⟩

lemma Backed.indexPut (hs : Backed sha256 d s) {key : Key} {now : ℤ} {epoch : UInt64}
    (h : s.step sha256 d (.indexPut key now epoch) = some s') : Backed sha256 d s' := by
  simp only [step] at h
  split_ifs at h with hkey
  obtain rfl := Option.some.inj h
  refine ⟨fun k hk => hs.keys k (List.mem_of_mem_erase hk), fun x hx => hs.backed x ?_⟩
  rcases hx with hadv | ⟨k, hk, hkx⟩
  · rcases (Index.advertises_put s.index key now epoch x).mp hadv with hadv | hkx
    · exact Or.inl hadv
    · exact Or.inr ⟨key, hkey, hkx⟩
  · exact Or.inr ⟨k, List.mem_of_mem_erase hk, hkx⟩

lemma Backed.unlink (hs : Backed sha256 d s) {key : Key}
    (horderly : s.Orderly sha256 d (.unlink key))
    (h : s.step sha256 d (.unlink key) = some s') : Backed sha256 d s' := by
  simp only [step] at h
  split_ifs at h
  have hfiles : s'.files = s.filesWithout (keyToPath sha256 d key) := by rw [← Option.some.inj h]
  obtain rfl := Option.some.inj h
  refine ⟨hs.keys, fun x hx => ?_⟩
  rcases hs.backed x hx with hstored | ⟨k, hk, hkx⟩
  · rcases hstored.unlink hfiles with hstored | hpath
    · exact Or.inl hstored
    · exact Or.inr ⟨key, List.mem_cons_self .., horderly x hpath hx⟩
  · exact Or.inr ⟨k, List.mem_cons_of_mem _ hk, hkx⟩

lemma Backed.indexRemove (hs : Backed sha256 d s) {key : Key} {epoch : UInt64}
    (horderly : s.Orderly sha256 d (.indexRemove key epoch))
    (h : s.step sha256 d (.indexRemove key epoch) = some s') : Backed sha256 d s' := by
  simp only [step] at h
  split_ifs at h with hkey
  obtain rfl := Option.some.inj h
  refine ⟨hs.keys, fun x hx => ?_⟩
  by_cases hdropped : actionHash key = some x
  · -- The index has dropped the hash, so it is due because of an upload, whose file is in place.
    rcases hx with hadv | ⟨k, hk, hkx⟩
    · exact absurd hdropped ((Index.advertises_remove s.index key epoch x).mp hadv).2
    · exact Or.inl ⟨k, hs.keys k hk, hkx, horderly x hdropped k hk hkx⟩
  · have hdue : s.Due x :=
      hx.imp_left fun hadv => ((Index.advertises_remove s.index key epoch x).mp hadv).1
    refine (hs.backed x hdue).imp_right ?_
    rintro ⟨k, hk, hkx⟩
    refine ⟨k, (List.mem_erase_of_ne ?_).mpr hk, hkx⟩
    rintro rfl
    exact hdropped hkx

lemma Backed.removeKeys (hs : Backed sha256 d s) {victims : List (Key × ℤ)} {epoch : UInt64}
    (h : s.step sha256 d (.removeKeys victims epoch) = some s') : Backed sha256 d s' := by
  simp only [step] at h
  split_ifs at h
  obtain rfl := Option.some.inj h
  refine ⟨hs.keys, fun x hx => hs.backed x (hx.imp_left fun hadv => ?_)⟩
  exact ((Index.advertises_removeKeys s.index _ epoch x).mp hadv).1

lemma Backed.evictStat (hs : Backed sha256 d s) {batch : List EvictionVictim}
    (h : s.step sha256 d (.evictStat batch) = some s') : Backed sha256 d s' := by
  cases batch with
  | nil => simp [step] at h
  | cons v rest =>
    simp only [step] at h
    split_ifs at h
    obtain rfl := Option.some.inj h
    exact ⟨hs.keys, hs.backed⟩

lemma Backed.evictUnlink (hs : Backed sha256 d s) {batch : List EvictionVictim}
    (horderly : s.Orderly sha256 d (.evictUnlink batch))
    (h : s.step sha256 d (.evictUnlink batch) = some s') : Backed sha256 d s' := by
  cases batch with
  | nil => simp [step] at h
  | cons v rest =>
    simp only [step] at h
    split_ifs at h
    have hfiles : s'.files = s.filesWithout (keyToPath sha256 d v.key) := by
      rw [← Option.some.inj h]
    obtain rfl := Option.some.inj h
    refine ⟨hs.keys, fun x hx => (hs.backed x hx).imp_left fun hstored => ?_⟩
    rcases hstored.unlink hfiles with hstored | hpath
    · exact hstored
    · exact absurd hx (horderly x hpath)

/-- Every orderly step keeps what is due backed. -/
lemma Backed.step (hs : Backed sha256 d s) {l : Label} (horderly : s.Orderly sha256 d l)
    (h : s.step sha256 d l = some s') : Backed sha256 d s' := by
  cases l with
  | rename key mtime => exact hs.rename h
  | indexPut key now epoch => exact hs.indexPut h
  | unlink key => exact hs.unlink horderly h
  | indexRemove key epoch => exact hs.indexRemove horderly h
  | removeKeys victims epoch => exact hs.removeKeys h
  | evictStat batch => exact hs.evictStat h
  | evictUnlink batch => exact hs.evictUnlink horderly h

end Steps

/-- In an orderly run, every hash that the index contains while no request is in progress belongs
to a key whose file exists. -/
theorem advertised_stored (sha256 : Sha256) (d : DataDir) (files : List FileStat)
    (entriesOff : Bool) (blobMinInterval : Duration) (addLogLimit : ℤ) (epoch : UInt64)
    (ls : List Label) (s : StoreState)
    (horderly : Guarded (step sha256 d) (Orderly sha256 d)
      (start files entriesOff blobMinInterval addLogLimit epoch) ls)
    (hrun : run (step sha256 d) (start files entriesOff blobMinInterval addLogLimit epoch) ls
      = some s)
    (hquiet : s.Quiet) (h : Hash) (hcontains : s.index.contains h = true) :
    s.Stored sha256 d h := by
  have hs : Backed sha256 d s :=
    run_invariant (fun _ _ _ hs horderly h => hs.step horderly h)
      (backed_start sha256 d files entriesOff blobMinInterval addLogLimit epoch) horderly hrun
  have hdue : s.Due h := Or.inl ((Index.contains_iff s.index h).mp hcontains)
  refine (hs.backed h hdue).resolve_right ?_
  simp [hquiet.2.1]

/-- A deletion comes between the rename of an upload and its record in the index. -/
def deleteDuringUpload : List Label :=
  [.rename (hashKey zeroHash) 5, .unlink (hashKey zeroHash), .indexRemove (hashKey zeroHash) 1,
    .indexPut (hashKey zeroHash) 5 2]

/-- The upload advertises a file that is gone. -/
theorem deletion_overtakes_upload :
    ∃ s, run (step zeroDigest slashData) (start [] false 0 0 0) deleteDuringUpload = some s ∧
      s.Quiet ∧ s.index.contains zeroHash = true ∧ ¬ s.Stored zeroDigest slashData zeroHash := by
  obtain ⟨s, hs, hquiet, hcontains, hfiles⟩ :
      ∃ s ∈ run (step zeroDigest slashData) (start [] false 0 0 0) deleteDuringUpload,
        (s.uploading = [] ∧ s.deleting = [] ∧ s.evicting = []) ∧
          s.index.contains zeroHash = true ∧ s.files = [] := by
    decide +kernel
  refine ⟨s, hs, hquiet, hcontains, ?_⟩
  rintro ⟨key, -, -, f, hf, -⟩
  simp [hfiles] at hf

/-- A deletion and an eviction, each after an upload, and a last upload. -/
def uploadsInTurn : List Label :=
  [.rename (hashKey zeroHash) 5, .indexPut (hashKey zeroHash) 5 1, .unlink (hashKey zeroHash),
    .indexRemove (hashKey zeroHash) 2, .rename (hashKey zeroHash) 6,
    .indexPut (hashKey zeroHash) 6 3, .removeKeys [(hashKey zeroHash, 6)] 4,
    .evictStat [⟨hashKey zeroHash, 6, false⟩], .evictUnlink [⟨hashKey zeroHash, 6, true⟩],
    .rename (hashKey zeroHash) 7, .indexPut (hashKey zeroHash) 7 5]

theorem advertised_stored_uploadsInTurn :
    ∃ s, run (step zeroDigest slashData) (start [] false 0 0 0) uploadsInTurn = some s ∧
      s.Quiet ∧ s.index.contains zeroHash = true ∧ s.Stored zeroDigest slashData zeroHash := by
  obtain ⟨s, hs, hquiet, hcontains⟩ :
      ∃ s ∈ run (step zeroDigest slashData) (start [] false 0 0 0) uploadsInTurn,
        (s.uploading = [] ∧ s.deleting = [] ∧ s.evicting = []) ∧
          s.index.contains zeroHash = true := by
    decide +kernel
  exact ⟨s, hs, hquiet, hcontains, advertised_stored zeroDigest slashData [] false 0 0 0
    uploadsInTurn s (by decide +kernel) hs hquiet zeroHash hcontains⟩

end StoreState

end GoBuildCache
