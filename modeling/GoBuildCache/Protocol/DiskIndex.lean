import GoBuildCache.Client.IndexMerge
import GoBuildCache.Foundation.Text
import GoBuildCache.Foundation.Transition
import GoBuildCache.Protocol.Delta

/-!
# The disk copy of the index

The processes of one machine share a copy of the index on disk: a blob, and a file with the position
of the add log that the blob is complete up to. The two files are written one after the other, and
read one after the other, by any number of processes and without a lock. The position file names
the ETag of the blob that it belongs to, and a position is taken only for the blob with that ETag
(`readIndexGen`).

What a process writes depends on the answer it gets: the whole index, the news that its copy is
current, or the keys added since the position of its copy, which it merges into the copy if they are
many (`persistDelta`). Whatever the processes do, a copy that is read with a position holds the
leading bits of exactly the hashes that the server advertised there (`copy_belongs`): every position
that is ever written is true of every blob with the ETag it names (`Belongs`), so the order in which
the files are replaced does not matter.
-/

open ByteString SortedList Transition

namespace GoBuildCache

/-! ## The position file -/

/-- No position. -/
def noGen : IndexGen := ⟨0, 0⟩

/-- The line in the position file of a copy. -/
def genLine (etag : Bytes) (gen : IndexGen) : Bytes :=
  decimal gen.epoch.toNat ++ 32 :: (decimal gen.seq ++ 32 :: (etag ++ [10]))

/-- The position file afterwards; it is removed if there is no position. -/
def writeIndexGen (etag : Bytes) (gen : IndexGen) : Option Bytes :=
  if gen.epoch = 0 ∨ etag = [] then none else some (genLine etag gen)

/-- The position of the copy with the given ETag; none if the file is missing, malformed, or for
another copy. -/
def readIndexGen (file : Option Bytes) (etag : Bytes) : IndexGen :=
  match file.map fields with
  | some [epoch, seq, copy] =>
    if copy ≠ etag then noGen
    else
      match parseUint64 epoch, parseUint64 seq with
      | some epoch, some seq => if epoch = 0 then noGen else ⟨UInt64.ofNat epoch, seq⟩
      | _, _ => noGen
  | _ => noGen

lemma visible_trailerETag (blob : Bytes) : Visible (trailerETag blob) := by
  have hquote : Visible (ascii "\"") := by
    intro c hc
    obtain rfl := List.mem_singleton.mp hc
    decide
  exact (hquote.append (visible_hexEncode _)).append hquote

lemma trailerETag_ne_nil (blob : Bytes) : trailerETag blob ≠ [] := by
  rw [trailerETag, List.append_assoc]
  exact List.append_ne_nil_of_left_ne_nil (by decide) _

/-- The ETag of a blob is that of its trailer. -/
lemma etag_of_parseIndexBlob {sha256 : Sha256} {blob etag : Bytes} {keys : KeySet}
    (h : parseIndexBlob sha256 blob = .ok (keys, etag)) : etag = trailerETag blob := by
  unfold parseIndexBlob at h
  split_ifs at h with hsmall hmagic hfirst hsecond
  · unfold parseIndexV1 at h
    dsimp only at h
    split_ifs at h
    exact (Prod.mk.inj (Except.ok.inj h)).2.symm
  · split at h
    · cases h
    · exact (Prod.mk.inj (Except.ok.inj h)).2.symm

/-- A position is read back only for the copy it was written for. -/
lemma eq_of_readIndexGen {etag etag' : Bytes} {gen : IndexGen} (hvisible : Visible etag)
    (hetag : etag ≠ []) (h : (readIndexGen (some (genLine etag gen)) etag').epoch ≠ 0) :
    etag' = etag ∧ readIndexGen (some (genLine etag gen)) etag' = gen := by
  have hfields : fields (genLine etag gen) = [decimal gen.epoch.toNat, decimal gen.seq, etag] :=
    fields_line (visible_decimal _) (visible_decimal _) hvisible (decimal_ne_nil _)
      (decimal_ne_nil _) hetag
  have hepoch : parseUint64 (decimal gen.epoch.toNat) = some gen.epoch.toNat :=
    parseUint64_decimal gen.epoch.toNat_lt
  simp only [readIndexGen, Option.map_some, hfields, hepoch] at h ⊢
  by_cases hcopy : etag ≠ etag'
  · rw [if_pos hcopy] at h
    exact absurd rfl h
  rw [if_neg hcopy] at h ⊢
  refine ⟨(not_not.mp hcopy).symm, ?_⟩
  by_cases hseq : gen.seq < 2 ^ 64
  · rw [parseUint64_decimal hseq] at h ⊢
    dsimp only at h ⊢
    split_ifs at h ⊢ with hzero
    · exact absurd rfl h
    · rw [UInt64.ofNat_toNat]
  · rw [parseUint64_decimal_of_le (not_lt.mp hseq)] at h
    exact absurd rfl h

/-! ## A process -/

/-- What the processes meet. -/
structure IndexEnv where
  /-- The digest function. -/
  sha256 : Sha256
  /-- What the server advertises at each position. An epoch is never used twice, so that a position
  stands for one set for all time. -/
  server : IndexGen → HashSlice
  /-- The least number of added keys that is worth a rewrite of the copy. -/
  persistDeltaMin : ℕ

/-- The disk copy as one read found it. -/
structure DiskIndex where
  /-- The blob, if there is a valid one. -/
  blob : Option Bytes
  /-- Its keys. -/
  keys : KeySet
  /-- Its ETag. -/
  etag : Bytes
  /-- Its position. -/
  gen : IndexGen

/-- There is no valid copy. -/
def DiskIndex.missing : DiskIndex :=
  ⟨none, ⟨⟨[], ∅, ∅⟩, 0⟩, [], noGen⟩

/-- An answer of the server, made from a list of hashes in some form, with the position it names. -/
inductive IndexReply where
  /-- The whole index. -/
  | full (l : HashSlice) (form : IndexForm) (gen : IndexGen)
  /-- The copy is the whole index. -/
  | notModified (l : HashSlice) (form : IndexForm) (gen : IndexGen)
  /-- What was added since the position of the copy. -/
  | delta (l : HashSlice) (form : IndexForm) (gen : IndexGen)

/-- The blob that the answer carries, or would carry if the client did not have it. -/
def IndexReply.body (sha256 : Sha256) : IndexReply → Bytes
  | .full l form _ | .notModified l form _ | .delta l form _ => marshalForm sha256 l.hashes form

/-- The server follows the protocol in its answer to a process with a copy: the whole index is what
it advertises at the position that the answer names, and the copy is current if it has the ETag of
that; a delta is for the position of the copy, in the same epoch, and has what was added since. -/
def IndexReply.Follows (env : IndexEnv) (disk : DiskIndex) : IndexReply → Prop
  | .full l _ gen => gen.epoch = 0 ∨ (env.server gen).hashes = l.hashes
  | .notModified l form gen =>
    disk.blob ≠ none ∧ disk.etag = trailerETag (marshalForm env.sha256 l.hashes form) ∧
      (gen.epoch = 0 ∨ (env.server gen).hashes = l.hashes)
  | .delta l _ gen =>
    disk.gen.epoch ≠ 0 ∧ gen.epoch = disk.gen.epoch ∧
      (env.server gen).hashes.toFinset
        = (env.server disk.gen).hashes.toFinset ∪ l.hashes.toFinset

instance (env : IndexEnv) (disk : DiskIndex) : (r : IndexReply) → Decidable (r.Follows env disk)
  | .full _ _ _ => inferInstanceAs (Decidable (_ ∨ _))
  | .notModified _ _ _ | .delta _ _ _ => inferInstanceAs (Decidable (_ ∧ _))

/-- A process between two of its steps. -/
inductive IndexProcess where
  /-- `readDiskIndex` reads the blob. -/
  | starts
  /-- It reads the position of the blob. -/
  | parsed (blob : Bytes) (keys : KeySet) (etag : Bytes)
  /-- It has returned; the server is asked. -/
  | holds (disk : DiskIndex)
  /-- The blob is written. -/
  | writesBlob (blob etag : Bytes) (gen : IndexGen)
  /-- The position is written. -/
  | writesGen (etag : Bytes) (gen : IndexGen)
  /-- The copy is left as it is. -/
  | done

/-- The copy that `readDiskIndex` has returned. -/
def IndexProcess.copy : IndexProcess → Option DiskIndex
  | .holds disk => some disk
  | _ => none

/-- Writes the copy merged with the added keys, at the new position. -/
def persistDelta (env : IndexEnv) (disk : DiskIndex) (added : KeySet) (gen : IndexGen) :
    IndexProcess :=
  if 0 < added.len ∧ added.len < env.persistDeltaMin then .done
  else if added.len = 0 then .writesGen disk.etag gen
  else
    match disk.blob.bind (mergeIndexBlob env.sha256 · added) with
    | none => .done
    | some blob =>
      match parseIndexBlob env.sha256 blob with
      | .error _ => .done
      | .ok (_, etag) => .writesBlob blob etag gen

/-- `fetchIndex` and `applyDelta` after the answer of the server. -/
def adoptReply (env : IndexEnv) (disk : DiskIndex) (r : IndexReply) : IndexProcess :=
  match r with
  | .full _ _ gen =>
    match parseIndexBlob env.sha256 (r.body env.sha256) with
    | .error _ => .done
    | .ok (_, etag) => .writesBlob (r.body env.sha256) etag gen
  | .notModified _ _ gen => .writesGen disk.etag gen
  | .delta _ _ gen =>
    match parseIndexBlob env.sha256 (r.body env.sha256) with
    | .error _ => .done
    | .ok (added, _) => persistDelta env disk added gen

lemma IndexProcess.eq_holds {p : IndexProcess} {disk : DiskIndex} (h : disk ∈ p.copy) :
    p = .holds disk := by
  cases p with
  | holds disk' => rw [Option.some.inj h]
  | _ => cases h

/-! ## The server follows the protocol -/

namespace Protocol

/-- Every blob in the cache of the index was made from what it advertised at the position that the
blob names. -/
def CachedFrom (sha256 : Sha256) (s : Protocol) : Prop :=
  ∀ form c, s.now.index.forms form = some c → ∃ l : HashSlice, ∃ m ∈ s.moments,
    m.index.position = c.gen ∧ (∀ h, h ∈ l.hashes ↔ m.index.Advertises h) ∧
      c.blob = marshalForm sha256 l.hashes form

/-- What the processes meet is this index. -/
def MetAs (s : Protocol) (env : IndexEnv) : Prop :=
  ∀ m ∈ s.moments, ∀ h, h ∈ (env.server m.index.position).hashes ↔ m.index.Advertises h

/-- The blob follows the protocol as an answer with the whole index, and as the copy of a process
that is current. -/
def FollowsAsFull (env : IndexEnv) (form : IndexForm) (c : IndexBlobCache) : Prop :=
  ∃ l, c.blob = (IndexReply.full l form c.gen).body env.sha256 ∧
    ∀ disk, (IndexReply.full l form c.gen).Follows env disk ∧
      (disk.blob ≠ none → disk.etag = trailerETag c.blob →
        (IndexReply.notModified l form c.gen).Follows env disk)

/-- The blob follows the protocol as a delta for a process. -/
def FollowsAsDelta (env : IndexEnv) (disk : DiskIndex) (form : IndexForm) (blob : Bytes)
    (gen : IndexGen) : Prop :=
  ∃ l, blob = (IndexReply.delta l form gen).body env.sha256 ∧
    (IndexReply.delta l form gen).Follows env disk

section Server

variable {env : IndexEnv} {sha256 : Sha256} {s s' : Protocol} {disk : DiskIndex} {form : IndexForm}

lemma cachedFrom_start (sha256 : Sha256) (entriesOff : Bool) (blobMinInterval : Duration)
    (addLogLimit : ℤ) (epoch : UInt64) :
    (start entriesOff blobMinInterval addLogLimit epoch).CachedFrom sha256 := by
  intro form c hc
  cases hc

lemma CachedFrom.serve (hs : s.CachedFrom sha256) {op : IndexOp}
    (h : s.serve sha256 op = some s') : s'.CachedFrom sha256 := by
  obtain ⟨hfits, rfl⟩ := serve_eq_some h
  intro form c' hc'
  rcases op.blobsFrom sha256 s.now.index form c' hc' with ⟨c, hc, hblob, hgen⟩ | hmade
  · obtain ⟨l, m, hm, hposition, hl, hc⟩ := hs form c hc
    exact ⟨l, m, List.mem_cons_of_mem _ hm, hposition.trans hgen.symm, hl, hblob.trans hc⟩
  · obtain ⟨hgen, hpending, hblob⟩ := hmade
    have hlen : 32 * (op.apply sha256 s.now.index).hashes.length < 2 ^ 63 := by
      have hsum := (of_decide_eq_true hfits).1
      omega
    refine ⟨⟨_, (op.apply sha256 s.now.index).ascending, hlen⟩, _, List.mem_cons_self .., hgen.symm,
      ?_, hblob⟩
    intro h
    simp only [Index.Advertises, hpending, List.not_mem_nil, or_false]

lemma CachedFrom.step (hs : s.CachedFrom sha256) {l : Label} (h : s.step sha256 l = some s') :
    s'.CachedFrom sha256 := by
  cases l with
  | serve op => exact hs.serve h
  | fetch form clock =>
    obtain ⟨t, ht, rfl⟩ := Option.map_eq_some_iff.mp h
    intro form c hc
    exact hs.serve ht form c hc
  | poll =>
    obtain rfl := Option.some.inj h
    exact hs

lemma CachedFrom.follows (hs : s.CachedFrom env.sha256) (hmet : s.MetAs env) {c : IndexBlobCache}
    (hc : s.now.index.forms form = some c) : FollowsAsFull env form c := by
  obtain ⟨l, m, hm, hposition, hl, hblob⟩ := hs form c hc
  have hserver : (env.server c.gen).hashes = l.hashes := by
    refine (env.server c.gen).ascending.eq_of_mem_iff l.ascending ?_
    intro h
    rw [← hposition, hmet m hm, hl]
  refine ⟨l, hblob, ?_⟩
  intro disk
  refine ⟨Or.inr hserver, ?_⟩
  intro hcopy hetag
  rw [hblob] at hetag
  exact ⟨hcopy, hetag, Or.inr hserver⟩

lemma Exact.follows (hs : Exact env.sha256 s) (hmet : s.MetAs env) {m : Moment}
    (hm : m ∈ s.moments) (hdisk : disk.gen = m.index.position) (hepoch : disk.gen.epoch ≠ 0)
    {blob : Bytes} {next : IndexGen}
    (h : s.now.index.deltaForm env.sha256 disk.gen form = some (blob, next)) :
    FollowsAsDelta env disk form blob next := by
  unfold Index.deltaForm at h
  split_ifs at h with hrefuse
  obtain ⟨rfl, rfl⟩ := Prod.mk.inj (Option.some.inj h)
  push Not at hrefuse
  have hsame : m.index.addEpoch = s.now.index.addEpoch :=
    (congrArg IndexGen.epoch hdisk).symm.trans hrefuse.1
  obtain ⟨hfits, hadv⟩ := hs.gained hm hsame
  rw [← hdisk] at hfits hadv
  have hlen := length_sortDedupe_le (s.now.index.added.drop disk.gen.seq)
  refine ⟨⟨_, ascending_sortDedupe _, by omega⟩, rfl, hepoch, hrefuse.1.symm, ?_⟩
  ext h
  rw [Finset.mem_union, List.mem_toFinset, List.mem_toFinset, List.mem_toFinset, mem_sortDedupe,
    hmet s.now (List.mem_cons_self ..), hadv, hdisk, hmet m hm]

/-- In every run of an index with fresh epochs, the blobs in its cache and its deltas follow the
protocol as answers to the processes that it meets. -/
theorem answers_follow (env : IndexEnv) (entriesOff : Bool) (blobMinInterval : Duration)
    (addLogLimit : ℤ) (epoch : UInt64) (ls : List Label) (s : Protocol)
    (hfresh : Guarded (step env.sha256) Fresh
      (start entriesOff blobMinInterval addLogLimit epoch) ls)
    (hrun : run (step env.sha256) (start entriesOff blobMinInterval addLogLimit epoch) ls = some s)
    (hmet : s.MetAs env) :
    (∀ form c, s.now.index.forms form = some c → FollowsAsFull env form c) ∧
    ∀ disk, ∀ m ∈ s.moments, disk.gen = m.index.position → disk.gen.epoch ≠ 0 →
      ∀ form blob next, s.now.index.deltaForm env.sha256 disk.gen form = some (blob, next) →
        FollowsAsDelta env disk form blob next := by
  have hexact : Exact env.sha256 s :=
    run_invariant (fun _ _ _ hs hfresh h => hs.step hfresh h)
      (exact_start env.sha256 entriesOff blobMinInterval addLogLimit epoch) hfresh hrun
  have hcached : s.CachedFrom env.sha256 :=
    run_invariant_of_step (fun _ _ _ hs h => hs.step h)
      (cachedFrom_start env.sha256 entriesOff blobMinInterval addLogLimit epoch) hrun
  refine ⟨fun form c hc => hcached.follows hmet hc, ?_⟩
  intro disk m hm hdisk hepoch form blob next hdelta
  exact hexact.follows hmet hm hdisk hepoch hdelta

end Server

end Protocol

/-! ## All processes -/

/-- The two files, the processes, and a record of all blobs. -/
structure SharedCopy where
  /-- The blob file. -/
  blobFile : Option Bytes
  /-- The position file. -/
  genFile : Option Bytes
  /-- The processes. -/
  processes : List IndexProcess
  /-- The blobs that the server has answered with and that processes have written. -/
  blobs : List Bytes

namespace SharedCopy

/-- No copy, and no process. -/
def start : SharedCopy :=
  ⟨none, none, [], []⟩

/-- The process `i` goes on as `p`. -/
def become (s : SharedCopy) (i : ℕ) (p : IndexProcess) : SharedCopy :=
  { s with processes := s.processes.set i p }

/-- The blob that a process is about to write. -/
def blobOf : IndexProcess → Option Bytes
  | .writesBlob blob _ _ => some blob
  | _ => none

/-- What can happen. -/
inductive Label where
  /-- A process starts. -/
  | spawn
  /-- A process reads one of the files. -/
  | read (i : ℕ)
  /-- A process gets an answer. -/
  | reply (i : ℕ) (r : IndexReply)
  /-- A process writes one of the files, which may fail. -/
  | write (i : ℕ) (ok : Bool)

/-- A read of the blob file. -/
def readBlob (env : IndexEnv) (s : SharedCopy) : IndexProcess :=
  match s.blobFile with
  | none => .holds .missing
  | some data =>
    match parseIndexBlob env.sha256 data with
    | .error _ => .holds .missing
    | .ok (keys, etag) => .parsed data keys etag

/-- One step. -/
def step (env : IndexEnv) (s : SharedCopy) : Label → Option SharedCopy
  | .spawn => some { s with processes := s.processes ++ [.starts] }
  | .read i =>
    match s.processes[i]? with
    | some .starts => some (s.become i (s.readBlob env))
    | some (.parsed blob keys etag) =>
      some (s.become i (.holds ⟨some blob, keys, etag, readIndexGen s.genFile etag⟩))
    | _ => none
  | .reply i r =>
    match s.processes[i]? with
    | some (.holds disk) =>
      if r.Follows env disk then
        let p := adoptReply env disk r
        some { s.become i p with blobs := (blobOf p).toList ++ r.body env.sha256 :: s.blobs }
      else none
    | _ => none
  | .write i ok =>
    match s.processes[i]? with
    | some (.writesBlob blob etag gen) =>
      some { s.become i (.writesGen etag gen) with
        blobFile := if ok then some blob else s.blobFile }
    | some (.writesGen etag gen) =>
      some { s.become i .done with
        genFile := if ok then writeIndexGen etag gen else s.genFile }
    | _ => none

/-! ## What the files and the processes know -/

/-- What the server advertises at the position is what the blob with the ETag holds. -/
def Belongs (env : IndexEnv) (blobs : List Bytes) (etag : Bytes) (gen : IndexGen) : Prop :=
  ∃ blob ∈ blobs, trailerETag blob = etag ∧ BlobOf env.sha256 blob (env.server gen).hashes

/-- What a process knows of the blobs between two of its steps. -/
def Knows (env : IndexEnv) (blobs : List Bytes) : IndexProcess → Prop
  | .starts | .done => True
  | .parsed blob keys etag => blob ∈ blobs ∧ parseIndexBlob env.sha256 blob = .ok (keys, etag)
  | .holds disk =>
    disk.gen.epoch ≠ 0 → ∃ blob ∈ blobs, disk.blob = some blob ∧
      parseIndexBlob env.sha256 blob = .ok (disk.keys, disk.etag) ∧
      BlobOf env.sha256 blob (env.server disk.gen).hashes
  | .writesBlob blob etag gen => blob ∈ blobs ∧ (gen.epoch ≠ 0 → Belongs env blobs etag gen)
  | .writesGen etag gen => gen.epoch ≠ 0 → Belongs env blobs etag gen

/-- The position file is true of every blob with the ETag it names, and so is what the processes are
about to write. -/
structure Sound (env : IndexEnv) (s : SharedCopy) : Prop where
  /-- The blob file. -/
  blobFile : ∀ blob ∈ s.blobFile, blob ∈ s.blobs
  /-- The position file. -/
  genFile : ∀ file ∈ s.genFile, ∃ etag gen, file = genLine etag gen ∧ Belongs env s.blobs etag gen
  /-- The processes. -/
  processes : ∀ p ∈ s.processes, Knows env s.blobs p

/-- Different blobs have different ETags. -/
def DistinctETags (blobs : List Bytes) : Prop :=
  ∀ blob ∈ blobs, ∀ blob' ∈ blobs, trailerETag blob = trailerETag blob' → blob = blob'

instance (blobs : List Bytes) : Decidable (DistinctETags blobs) :=
  inferInstanceAs (Decidable (∀ _ ∈ blobs, _))

variable {env : IndexEnv} {s t : SharedCopy} {blobs blobs' : List Bytes}

lemma DistinctETags.mono (h : DistinctETags blobs') (hsub : blobs ⊆ blobs') :
    DistinctETags blobs :=
  fun blob hblob blob' hblob' => h blob (hsub hblob) blob' (hsub hblob')

lemma Belongs.mono {etag : Bytes} {gen : IndexGen} (h : Belongs env blobs etag gen)
    (hsub : blobs ⊆ blobs') : Belongs env blobs' etag gen := by
  obtain ⟨blob, hblob, hrest⟩ := h
  exact ⟨blob, hsub hblob, hrest⟩

lemma Knows.mono {p : IndexProcess} (h : Knows env blobs p) (hsub : blobs ⊆ blobs') :
    Knows env blobs' p := by
  cases p with
  | starts => trivial
  | parsed blob keys etag => exact ⟨hsub h.1, h.2⟩
  | holds disk =>
    intro hgen
    obtain ⟨blob, hblob, hrest⟩ := h hgen
    exact ⟨blob, hsub hblob, hrest⟩
  | writesBlob blob etag gen => exact ⟨hsub h.1, fun hgen => (h.2 hgen).mono hsub⟩
  | writesGen etag gen => exact fun hgen => (h hgen).mono hsub
  | done => trivial

/-- A blob of what the server advertises at a position belongs to the position. -/
lemma belongs_of_parse {blob etag : Bytes} {gen : IndexGen} {keys : KeySet} (hmem : blob ∈ blobs)
    (h : BlobOf env.sha256 blob (env.server gen).hashes)
    (hparse : parseIndexBlob env.sha256 blob = .ok (keys, etag)) : Belongs env blobs etag gen :=
  ⟨blob, hmem, (h.represents hparse).2.symm, h⟩

/-! ## The answers -/

section Answers

variable {disk : DiskIndex} {l : HashSlice} {gen : IndexGen}

/-- What the server answers is a blob of what it advertises at the position. -/
lemma blobOf_reply (hserver : (env.server gen).hashes = l.hashes) (form : IndexForm) :
    BlobOf env.sha256 (marshalForm env.sha256 l.hashes form) (env.server gen).hashes := by
  rw [hserver]
  exact blobOf_marshalForm env.sha256 l form

/-- A position without added keys has the same hashes. -/
lemma hashes_eq_of_len_eq_zero {body etag : Bytes} {added : KeySet}
    (hbody : BlobOf env.sha256 body l.hashes)
    (hparse : parseIndexBlob env.sha256 body = .ok (added, etag)) (hlen : added.len = 0)
    (hunion : (env.server gen).hashes.toFinset
      = (env.server disk.gen).hashes.toFinset ∪ l.hashes.toFinset) :
    (env.server gen).hashes = (env.server disk.gen).hashes := by
  have hcard := (hbody.represents hparse).1.len
  rw [hlen, eq_comm, Finset.card_eq_zero, List.toFinset_eq_empty_iff, List.map_eq_nil_iff] at hcard
  rw [hcard, List.toFinset_nil, Finset.union_empty] at hunion
  refine (env.server gen).ascending.eq_of_mem_iff (env.server disk.gen).ascending ?_
  intro h
  rw [← List.mem_toFinset, hunion, List.mem_toFinset]

/-- What is written after a delta belongs together. -/
lemma knows_persistDelta {body etag : Bytes} {added : KeySet}
    (hdisk : Knows env blobs (.holds disk)) (hgen : disk.gen.epoch ≠ 0)
    (hbody : BlobOf env.sha256 body l.hashes)
    (hparse : parseIndexBlob env.sha256 body = .ok (added, etag))
    (hunion : (env.server gen).hashes.toFinset
      = (env.server disk.gen).hashes.toFinset ∪ l.hashes.toFinset) :
    Knows env ((blobOf (persistDelta env disk added gen)).toList ++ blobs)
      (persistDelta env disk added gen) := by
  obtain ⟨blob, hmem, hblob, hcopy, hof⟩ := hdisk hgen
  unfold persistDelta
  split_ifs with hsmall hempty
  · trivial
  · intro _
    rw [← hashes_eq_of_len_eq_zero hbody hparse hempty hunion] at hof
    exact belongs_of_parse hmem hof hcopy
  · have hall : ∀ h, h ∈ (env.server gen).hashes ↔
        h ∈ (env.server disk.gen).hashes ∨ h ∈ l.hashes := by
      intro h
      rw [← List.mem_toFinset, hunion, Finset.mem_union, List.mem_toFinset, List.mem_toFinset]
    have hlength : (env.server gen).hashes.length < 2 ^ 58 := by
      have hfits := (env.server gen).fits
      omega
    obtain ⟨merged, hmerge, hmerged⟩ := hof.merge hbody hall hlength hparse
    rw [hblob, Option.bind_some, hmerge]
    dsimp only
    split
    · trivial
    · rename_i hparsed
      have hnew : merged ∈ [merged] ++ blobs := List.mem_cons_self ..
      exact ⟨hnew, fun _ => belongs_of_parse hnew hmerged hparsed⟩

/-- What is written after an answer belongs together. -/
lemma knows_adoptReply {r : IndexReply} (hdisk : Knows env blobs (.holds disk))
    (hfollows : r.Follows env disk) :
    Knows env ((blobOf (adoptReply env disk r)).toList ++ r.body env.sha256 :: blobs)
      (adoptReply env disk r) := by
  cases r with
  | full l form gen =>
    dsimp only [adoptReply, IndexReply.body]
    split
    · trivial
    · rename_i hparse
      have hmem : marshalForm env.sha256 l.hashes form
          ∈ marshalForm env.sha256 l.hashes form :: marshalForm env.sha256 l.hashes form :: blobs :=
        List.mem_cons_self ..
      refine ⟨hmem, ?_⟩
      intro hgen
      exact belongs_of_parse hmem (blobOf_reply (hfollows.resolve_left hgen) form) hparse
  | notModified l form gen =>
    intro hgen
    obtain ⟨-, hetag, hserver⟩ := hfollows
    exact ⟨_, List.mem_cons_self .., hetag.symm, blobOf_reply (hserver.resolve_left hgen) form⟩
  | delta l form gen =>
    obtain ⟨hgen, -, hunion⟩ := hfollows
    have hbody := blobOf_marshalForm env.sha256 l form
    dsimp only [adoptReply, IndexReply.body]
    split
    · trivial
    · rename_i hparse
      exact knows_persistDelta (hdisk.mono (List.subset_cons_self ..)) hgen hbody hparse hunion

end Answers

/-! ## The steps -/

section Steps

lemma Sound.become (hs : s.Sound env) (i : ℕ) {p : IndexProcess} (hp : Knows env s.blobs p) :
    (s.become i p).Sound env := by
  refine ⟨hs.blobFile, hs.genFile, ?_⟩
  intro q hq
  rcases List.mem_or_eq_of_mem_set hq with hq | rfl
  · exact hs.processes q hq
  · exact hp

/-- More blobs change nothing. -/
lemma Sound.record (hs : s.Sound env) (hsub : s.blobs ⊆ blobs) :
    Sound env { s with blobs := blobs } := by
  refine ⟨fun blob hblob => hsub (hs.blobFile blob hblob), ?_,
    fun p hp => (hs.processes p hp).mono hsub⟩
  intro file hfile
  obtain ⟨etag, gen, hline, hbelongs⟩ := hs.genFile file hfile
  exact ⟨etag, gen, hline, hbelongs.mono hsub⟩

lemma Sound.knows_readBlob (hs : s.Sound env) : Knows env s.blobs (s.readBlob env) := by
  unfold readBlob
  split
  · exact fun hgen => absurd rfl hgen
  · rename_i blob hblob
    split
    · exact fun hgen => absurd rfl hgen
    · rename_i hparse
      exact ⟨hs.blobFile blob hblob, hparse⟩

/-- A position that is read for a blob is true of it, whatever the blob file holds by then. -/
lemma Sound.knows_readIndexGen (hs : s.Sound env) (hetags : DistinctETags s.blobs)
    {blob etag : Bytes} {keys : KeySet} (hp : Knows env s.blobs (.parsed blob keys etag)) :
    Knows env s.blobs (.holds ⟨some blob, keys, etag, readIndexGen s.genFile etag⟩) := by
  obtain ⟨hmem, hparse⟩ := hp
  intro hgen
  rcases hfile : s.genFile with _ | file
  · rw [hfile] at hgen
    exact absurd rfl hgen
  obtain ⟨etag', gen, rfl, blob', hmem', rfl, hof⟩ := hs.genFile file hfile
  simp only [hfile] at hgen ⊢
  obtain ⟨rfl, hread⟩ :=
    eq_of_readIndexGen (visible_trailerETag blob') (trailerETag_ne_nil blob') hgen
  -- the ETag that the position file names is the one that was parsed from the blob
  obtain rfl : blob = blob' := hetags blob hmem blob' hmem' (etag_of_parseIndexBlob hparse).symm
  rw [hread]
  exact ⟨blob, hmem, rfl, hparse, hof⟩

/-- The position that a process knows to be true may be written. -/
lemma Sound.writeGen (hs : s.Sound env) {etag : Bytes} {gen : IndexGen}
    (h : Knows env s.blobs (.writesGen etag gen)) :
    Sound env { s with genFile := writeIndexGen etag gen } := by
  refine ⟨hs.blobFile, ?_, hs.processes⟩
  intro file hfile
  dsimp only [writeIndexGen] at hfile
  split_ifs at hfile with hnone
  · cases hfile
  · obtain rfl := Option.some.inj hfile
    exact ⟨etag, gen, rfl, h (not_or.mp hnone).1⟩

lemma subset_record (p : IndexProcess) (body : Bytes) (blobs : List Bytes) :
    blobs ⊆ (blobOf p).toList ++ body :: blobs :=
  fun _ hblob => List.mem_append_right _ (List.mem_cons_of_mem _ hblob)

/-- Blobs are only added to the record. -/
lemma blobs_subset_of_step {l : Label} (hstep : step env s l = some t) : s.blobs ⊆ t.blobs := by
  cases l with
  | spawn =>
    obtain rfl := Option.some.inj hstep
    exact List.Subset.refl _
  | reply i r =>
    rw [step] at hstep
    split at hstep
    · split_ifs at hstep
      obtain rfl := Option.some.inj hstep
      exact subset_record ..
    · cases hstep
  | _ =>
    rw [step] at hstep
    split at hstep <;> cases hstep <;> exact List.Subset.refl _

/-- Every step keeps what the files and the processes know. -/
lemma Sound.step (hs : s.Sound env) (hetags : DistinctETags s.blobs) {l : Label}
    (hstep : step env s l = some t) : t.Sound env := by
  cases l with
  | spawn =>
    obtain rfl := Option.some.inj hstep
    refine ⟨hs.blobFile, hs.genFile, ?_⟩
    intro p hp
    rcases List.mem_append.mp hp with hp | hp
    · exact hs.processes p hp
    · obtain rfl := List.mem_singleton.mp hp
      trivial
  | read i =>
    rw [SharedCopy.step] at hstep
    split at hstep
    · obtain rfl := Option.some.inj hstep
      exact hs.become i hs.knows_readBlob
    · rename_i hp
      obtain rfl := Option.some.inj hstep
      exact hs.become i (hs.knows_readIndexGen hetags (hs.processes _ (List.mem_of_getElem? hp)))
    · cases hstep
  | reply i r =>
    rw [SharedCopy.step] at hstep
    split at hstep
    · rename_i disk hp
      split_ifs at hstep with hfollows
      obtain rfl := Option.some.inj hstep
      exact (hs.record (subset_record ..)).become i
        (knows_adoptReply (hs.processes _ (List.mem_of_getElem? hp)) hfollows)
    · cases hstep
  | write i ok =>
    rw [SharedCopy.step] at hstep
    split at hstep
    · rename_i blob etag gen hp
      obtain rfl := Option.some.inj hstep
      have hknows : Knows env s.blobs (.writesBlob blob etag gen) :=
        hs.processes _ (List.mem_of_getElem? hp)
      have hnext := hs.become i (p := .writesGen etag gen) hknows.2
      refine ⟨?_, hnext.genFile, hnext.processes⟩
      cases ok with
      | false => exact hs.blobFile
      | true =>
        intro b hb
        obtain rfl := Option.some.inj hb
        exact hknows.1
    · rename_i etag gen hp
      obtain rfl := Option.some.inj hstep
      have hnext := hs.become i (p := .done) trivial
      cases ok with
      | false => exact hnext
      | true => exact hnext.writeGen (hs.processes _ (List.mem_of_getElem? hp))
    · cases hstep

lemma sound_start : start.Sound env :=
  ⟨by simp [start], by simp [start], by simp [start]⟩

end Steps

/-- In every run of any number of processes in which different blobs have different ETags, a copy
that was read with a position holds the leading bits of exactly the hashes that the server
advertises there, at the width of the copy. -/
theorem copy_belongs (env : IndexEnv) (ls : List Label) (t : SharedCopy)
    (hetags : DistinctETags t.blobs) (hrun : run (step env) start ls = some t) :
    ∀ p ∈ t.processes, ∀ disk ∈ p.copy, disk.gen.epoch ≠ 0 →
      ∃ blob, disk.blob = some blob ∧
        parseIndexBlob env.sha256 blob = .ok (disk.keys, disk.etag) ∧
        Represents disk.keys (env.server disk.gen).hashes disk.keys.width := by
  intro p hp disk hdisk hgen
  obtain rfl : p = .holds disk := IndexProcess.eq_holds hdisk
  have ht : DistinctETags t.blobs → t.Sound env := by
    refine run_invariant_of_step (I := fun s => DistinctETags s.blobs → s.Sound env) ?_
      (fun _ => sound_start) hrun
    intro s l s' hs hstep hetags'
    have hbefore := hetags'.mono (blobs_subset_of_step hstep)
    exact (hs hbefore).step hbefore hstep
  obtain ⟨blob, -, hblob, hparse, hof⟩ := (ht hetags).processes _ hp hgen
  exact ⟨blob, hblob, hparse, (hof.represents hparse).1⟩

/-- A digest that tells apart the few blobs of an example: the last bytes of the data. -/
def lastBytes : Sha256 := fun data => .ofValue 32 (beValue data)

/-- A server that has nothing at first, and then one hash. -/
def growingServer : IndexEnv where
  sha256 := lastBytes
  server := fun gen =>
    if gen.seq = 0 then ⟨[], by decide, by decide⟩ else ⟨[zeroHash], by decide, by decide⟩
  persistDeltaMin := 1

/-- One process fetches the whole index, a second one merges a delta into it, and a third one reads
the copy between the two writes of the second; a fourth one reads it at the end. -/
def mergedDelta : List Label :=
  [.spawn, .read 0, .reply 0 (.full (growingServer.server ⟨1, 0⟩) ⟨1, 8, by decide⟩ ⟨1, 0⟩),
    .write 0 true, .write 0 true,
    .spawn, .read 1, .read 1,
    .reply 1 (.delta ⟨[zeroHash], by decide, by decide⟩ ⟨1, 8, by decide⟩ ⟨1, 1⟩),
    .write 1 true, .spawn, .read 2, .read 2, .write 1 true,
    .spawn, .read 3, .read 3]

/-- The merged copy is read without a position first, and with the new one in the end. -/
theorem copy_belongs_mergedDelta :
    ∃ t, run (step growingServer) start mergedDelta = some t ∧
      (∃ disk ∈ (t.processes[2]?).bind IndexProcess.copy, disk.blob ≠ none ∧ disk.gen = noGen) ∧
      ∃ disk ∈ (t.processes[3]?).bind IndexProcess.copy, disk.gen = ⟨1, 1⟩ ∧
        Represents disk.keys [zeroHash] disk.keys.width := by
  obtain ⟨t, ht, hetags, hbetween, disk, hdisk, hgen⟩ :
      ∃ t ∈ run (step growingServer) start mergedDelta, DistinctETags t.blobs ∧
        (∃ disk ∈ (t.processes[2]?).bind IndexProcess.copy,
          disk.blob ≠ none ∧ disk.gen = noGen) ∧
        ∃ disk ∈ (t.processes[3]?).bind IndexProcess.copy, disk.gen = ⟨1, 1⟩ := by
    decide +kernel
  obtain ⟨p, hp, hcopy⟩ := Option.bind_eq_some_iff.mp hdisk
  obtain ⟨blob, -, -, hkeys⟩ := copy_belongs growingServer mergedDelta t hetags ht p
    (List.mem_of_getElem? hp) disk hcopy (by rw [hgen]; decide)
  rw [hgen] at hkeys
  exact ⟨t, ht, hbetween, disk, hdisk, hgen, hkeys⟩

end SharedCopy

namespace Protocol

open SharedCopy (lastBytes growingServer)

/-- A delta for a process with an empty copy, after one upload. -/
theorem answers_follow_growingServer :
    ∃ s, run (step lastBytes) (start false 0 0 1) [.serve (.put (hashKey zeroHash) 0 1)] = some s ∧
      s.MetAs growingServer ∧ ∃ blob next,
        s.now.index.deltaForm lastBytes ⟨1, 0⟩ ⟨2, 32, by decide⟩ = some (blob, next) ∧
        FollowsAsDelta growingServer { DiskIndex.missing with gen := ⟨1, 0⟩ } ⟨2, 32, by decide⟩
          blob next := by
  obtain ⟨s, hs, hmoments, ⟨m, hm, hgen⟩, hdelta⟩ :
      ∃ s ∈ run (step lastBytes) (start false 0 0 1) [.serve (.put (hashKey zeroHash) 0 1)],
        (∀ m ∈ s.moments, (growingServer.server m.index.position).hashes =
          m.index.hashes ++ m.index.pending) ∧ (∃ m ∈ s.moments, ⟨1, 0⟩ = m.index.position) ∧
        (s.now.index.deltaForm lastBytes ⟨1, 0⟩ ⟨2, 32, by decide⟩).isSome := by
    decide +kernel
  obtain ⟨⟨blob, next⟩, hblob⟩ := Option.isSome_iff_exists.mp hdelta
  have hmet : s.MetAs growingServer := by
    intro m hm h
    rw [hmoments m hm, List.mem_append, Index.Advertises]
  exact ⟨s, hs, hmet, blob, next, hblob, (answers_follow growingServer false 0 0 1 _ s
    (by decide +kernel) hs hmet).2 _ m hm hgen (by decide) _ blob next hblob⟩

end Protocol

end GoBuildCache
