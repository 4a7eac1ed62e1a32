import GoBuildCache.Client.IndexRoundTrip
import GoBuildCache.Foundation.Transition
import GoBuildCache.Index.Operations

/-!
# The delta protocol of the index

A client fetches the whole index once and then polls for what was added since, each time from the
position that the last answer named. The protocol is modelled as a transition system
(`Protocol.step`) of an index that other requests change at will and of one such client; the
moments through which the index has passed are recorded on the side.

The invariant (`Protocol.Exact`) ties every position of the log to the set that was advertised
there: within an epoch the set only grows, by exactly what the log records, and everything that
shrinks it starts a fresh epoch. A blob carries the position at which it was made, so that it
describes the set of that position however late it is served. `delta_exact` draws the
consequences for the client.
-/

open ByteString SortedList Transition

namespace GoBuildCache

/-! ## What a form tells about a hash -/

/-- What a form keeps of a hash, as a number. -/
def IndexForm.prefixOf (form : IndexForm) (h : Hash) : ℕ :=
  if form.version = 2 then prefixBits form.width h else beValue (h.bytes.take form.width)

/-- The entries of a blob: what it tells about the hashes it was made from. -/
def blobEntries (sha256 : Sha256) (form : IndexForm) (blob : Bytes) : List ℕ :=
  if form.version = 2 then
    match parseIndexV2 sha256 blob with
    | .ok (values, _) => values
    | .error _ => []
  else
    (List.range (leValue (slice blob 16 24))).map fun i =>
      beValue (slice blob (24 + i * form.width) (24 + i * form.width + form.width))

/-- A blob tells exactly what its form keeps of its hashes. -/
lemma mem_blobEntries_marshalForm (sha256 : Sha256) (l : HashSlice) (form : IndexForm) (v : ℕ) :
    v ∈ blobEntries sha256 form (marshalForm sha256 l.hashes form) ↔
      ∃ h ∈ l.hashes, form.prefixOf h = v := by
  rcases form.valid with ⟨hversion, hwidth⟩ | ⟨hversion, hmin, hmax⟩
  · set entries := entriesOfWidth l.hashes form.width with hentries
    have hsize : ∀ e ∈ entries, e.length = form.width := fun e he =>
      length_of_mem_entriesOfWidth (by omega) he
    have hblob : marshalForm sha256 l.hashes form
        = gbciBlob sha256 1 (UInt8.ofNat form.width) 0 entries.length entries.flatten := by
      rw [marshalForm, hversion]
      rfl
    have hcount : leValue (leBytes 8 entries.length) = entries.length :=
      l.leValue_count form.width
    rw [blobEntries, if_neg (by omega), hblob, slice_count_gbciBlob, hcount]
    refine (mem_map_entries_gbciBlob beValue sha256 hsize (le_refl form.width)).trans ?_
    simp only [hentries, mem_entriesOfWidth, exists_exists_and_eq_and, List.take_take, min_self,
      IndexForm.prefixOf, hversion]
    rfl
  · obtain ⟨hasc, hlt, hfits⟩ := prefixValues_spec l hmax
    have hparse := parseIndexV2_marshalGBCI2 sha256 hmin hmax hasc hlt hfits
    simp only [blobEntries, marshalForm, hversion, if_true, hparse, IndexForm.prefixOf]
    rw [prefixValues_nil, mem_collapse]

/-- The entries are what the form keeps of the advertised hashes. -/
def IndexForm.Shows (form : IndexForm) (idx : Index) (entries : Finset ℕ) : Prop :=
  ∀ v, v ∈ entries ↔ ∃ h, idx.Advertises h ∧ form.prefixOf h = v

/-- Whether the lists of the index fit in memory: the size of a slice in bytes is an `int`. -/
def Index.fits (idx : Index) : Bool :=
  32 * (idx.hashes.length + idx.pending.length) < 2 ^ 63 ∧ 32 * idx.added.length < 2 ^ 63

/-- A blob made with nothing pending shows the advertised hashes. -/
lemma shows_marshalForm (sha256 : Sha256) {idx : Index} (form : IndexForm)
    (hfits : idx.fits = true) (hpending : idx.pending = []) :
    form.Shows idx (blobEntries sha256 form (marshalForm sha256 idx.hashes form)).toFinset := by
  intro v
  have hlen : 32 * idx.hashes.length < 2 ^ 63 := by
    have := (of_decide_eq_true hfits).1
    omega
  have hmem := mem_blobEntries_marshalForm sha256 ⟨idx.hashes, idx.ascending, hlen⟩ form v
  rw [List.mem_toFinset, hmem]
  simp only [Index.Advertises, hpending, List.not_mem_nil, or_false]

/-- The answer to a poll has the entries of what the log gained since. -/
lemma mem_blobEntries_sortDedupe (sha256 : Sha256) (form : IndexForm) {xs : List Hash}
    (hfits : 32 * xs.length < 2 ^ 63) (v : ℕ) :
    v ∈ blobEntries sha256 form (marshalForm sha256 (sortDedupe xs) form) ↔
      ∃ h ∈ xs, form.prefixOf h = v := by
  have hlen := length_sortDedupe_le xs
  have hmem := mem_blobEntries_marshalForm sha256
    ⟨sortDedupe xs, ascending_sortDedupe xs, by omega⟩ form v
  simpa only [mem_sortDedupe] using hmem

/-! ## The transition system -/

/-- A moment of the index. -/
structure Moment where
  /-- The index. -/
  index : Index
  /-- How often a cacheprog key has been removed or the index rebuilt until then. -/
  shrinks : ℕ

/-- From `m` to `m'` nothing was removed, and the advertised set has grown by what the log has
gained. -/
def Moment.Grows (m m' : Moment) : Prop :=
  m.shrinks = m'.shrinks ∧ ∃ xs, m'.index.added = m.index.added ++ xs ∧
    ∀ h, m'.index.Advertises h ↔ m.index.Advertises h ∨ h ∈ xs

lemma Moment.Grows.refl (m : Moment) : m.Grows m :=
  ⟨rfl, [], by simp, by simp⟩

/-- A client that follows the index. -/
structure DeltaClient where
  /-- The form in which it asks. -/
  form : IndexForm
  /-- The position that the last answer named. -/
  gen : IndexGen
  /-- The entries it has been told. -/
  held : Finset ℕ

/-- The index, its past, and a client. -/
structure Protocol where
  /-- The present moment. -/
  now : Moment
  /-- The earlier moments. -/
  past : List Moment
  /-- The client, once it has fetched the index. -/
  client : Option DeltaClient

namespace Protocol

/-- What can happen. -/
inductive Label where
  /-- Some request performs an operation. -/
  | serve (op : IndexOp)
  /-- The client fetches the whole index. -/
  | fetch (form : IndexForm) (clock : Index.BlobClock)
  /-- The client asks for what was added since its last answer. -/
  | poll

/-- The present and the past. -/
def moments (s : Protocol) : List Moment :=
  s.now :: s.past

/-- An operation takes place, unless its result does not fit in memory. -/
def serve (sha256 : Sha256) (s : Protocol) (op : IndexOp) : Option Protocol :=
  let index := op.apply sha256 s.now.index
  if index.fits then
    some { s with
      now := ⟨index, if op.shrinks then s.now.shrinks + 1 else s.now.shrinks⟩
      past := s.moments }
  else none

/-- The client after an answer to its poll. A client that is refused has to start over. -/
def answer (sha256 : Sha256) (idx : Index) (c : DeltaClient) : Option DeltaClient :=
  (idx.deltaForm sha256 c.gen c.form).map fun r =>
    { c with gen := r.2, held := c.held ∪ (blobEntries sha256 c.form r.1).toFinset }

/-- One step of the protocol. -/
def step (sha256 : Sha256) (s : Protocol) : Label → Option Protocol
  | .serve op => s.serve sha256 op
  | .fetch form clock =>
    let c := (s.now.index.blobGenForm sha256 form clock).1
    (s.serve sha256 (.blobGenForm form clock)).map fun s' =>
      { s' with client := some ⟨form, c.gen, (blobEntries sha256 form c.blob).toFinset⟩ }
  | .poll => some { s with client := s.client.bind (answer sha256 s.now.index) }

/-- An index that has just been created, and no client. -/
def start (entriesOff : Bool) (blobMinInterval : Duration) (addLogLimit : ℤ) (epoch : UInt64) :
    Protocol :=
  ⟨⟨.empty entriesOff blobMinInterval addLogLimit epoch, 0⟩, [], none⟩

/-- A new epoch has not been used before. -/
def Fresh (s : Protocol) : Label → Prop
  | .serve op => ∀ m ∈ s.moments, op.newEpoch s.now.index ≠ some m.index.addEpoch
  | _ => True

instance (s : Protocol) : (l : Label) → Decidable (s.Fresh l)
  | .serve op =>
    inferInstanceAs (Decidable (∀ m ∈ s.moments, op.newEpoch s.now.index ≠ some m.index.addEpoch))
  | .fetch _ _ => isTrue trivial
  | .poll => isTrue trivial

/-! ## The invariant -/

/-- Some moment at the position `gen` advertised what the entries show. -/
def Recorded (s : Protocol) (form : IndexForm) (gen : IndexGen) (entries : Finset ℕ) : Prop :=
  ∃ m ∈ s.moments, m.index.position = gen ∧ form.Shows m.index entries

/-- Positions of the log stand for advertised sets, and every blob and every client has the set of
its position. -/
structure Exact (sha256 : Sha256) (s : Protocol) : Prop where
  /-- Since an earlier moment of this epoch, the index has only grown. -/
  log : ∀ m ∈ s.moments, m.index.addEpoch = s.now.index.addEpoch → m.Grows s.now
  /-- The position determines the advertised set. -/
  unique : ∀ m ∈ s.moments, ∀ m' ∈ s.moments, m.index.position = m'.index.position →
    ∀ h, m.index.Advertises h ↔ m'.index.Advertises h
  /-- Cached blobs have the set of the position they name. -/
  cached : ∀ form c, s.now.index.forms form = some c →
    s.Recorded form c.gen (blobEntries sha256 form c.blob).toFinset
  /-- So does the client. -/
  client : ∀ c, s.client = some c → s.Recorded c.form c.gen c.held
  /-- The index fits in memory. -/
  fits : s.now.index.fits = true

lemma exact_start (sha256 : Sha256) (entriesOff : Bool) (blobMinInterval : Duration)
    (addLogLimit : ℤ) (epoch : UInt64) :
    Exact sha256 (start entriesOff blobMinInterval addLogLimit epoch) where
  log := by
    intro m hm _
    obtain rfl := List.mem_singleton.mp hm
    exact .refl _
  unique := by
    intro m hm m' hm' _ h
    obtain rfl := List.mem_singleton.mp hm
    obtain rfl := List.mem_singleton.mp hm'
    exact Iff.rfl
  cached := by
    intro form c hc
    cases hc
  client := by
    intro c hc
    cases hc
  fits := rfl

section Steps

variable {sha256 : Sha256} {s s' : Protocol}

lemma serve_eq_some {op : IndexOp} (h : s.serve sha256 op = some s') :
    (op.apply sha256 s.now.index).fits = true ∧
      s' = { s with
        now := ⟨op.apply sha256 s.now.index,
          if op.shrinks then s.now.shrinks + 1 else s.now.shrinks⟩
        past := s.moments } := by
  obtain ⟨hfits, hsome⟩ := Option.ite_none_right_eq_some.mp h
  exact ⟨hfits, (Option.some.inj hsome).symm⟩

/-- What a moment has recorded stays recorded. -/
lemma Recorded.mono {form : IndexForm} {gen : IndexGen} {entries : Finset ℕ}
    (hsub : ∀ m ∈ s.moments, m ∈ s'.moments) (h : s.Recorded form gen entries) :
    s'.Recorded form gen entries := by
  obtain ⟨m, hm, hgen, hshows⟩ := h
  exact ⟨m, hsub m hm, hgen, hshows⟩

/-- An operation keeps the log consistent with the past. -/
lemma Exact.log_serve (hs : Exact sha256 s) {op : IndexOp} (hfresh : s.Fresh (.serve op))
    (h : s.serve sha256 op = some s') (m : Moment) (hm : m ∈ s'.moments)
    (hepoch : m.index.addEpoch = s'.now.index.addEpoch) : m.Grows s'.now := by
  obtain ⟨-, rfl⟩ := serve_eq_some h
  rcases List.mem_cons.mp hm with rfl | hm
  · exact .refl _
  · cases op.change sha256 s.now.index with
    | reset hnew => exact absurd (hnew.trans (congrArg some hepoch.symm)) (hfresh m hm)
    | grow xs hsame hadded hadv =>
      obtain ⟨hshrinks, ys, hadded', hadv'⟩ := hs.log m hm (hepoch.trans hsame)
      have hkeeps : op.shrinks = false := by
        by_contra hshrink
        have hnew := op.newEpoch_of_shrinks sha256 s.now.index (by simpa using hshrink)
        rw [hsame] at hnew
        exact hfresh s.now (List.mem_cons_self ..) hnew
      refine ⟨by simp [hkeeps, hshrinks], ys ++ xs, ?_, fun x => ?_⟩
      · simp only [hadded, hadded', List.append_assoc]
      · simp only [hadv, hadv', List.mem_append, or_assoc]

/-- If the log is consistent with the past, positions determine the advertised set. -/
lemma advertises_iff_of_position_eq {m m' : Moment}
    (hlog : m.index.addEpoch = m'.index.addEpoch → m.Grows m')
    (hpos : m.index.position = m'.index.position) (h : Hash) :
    m.index.Advertises h ↔ m'.index.Advertises h := by
  obtain ⟨hepoch, hseq⟩ := IndexGen.mk.inj hpos
  obtain ⟨-, xs, hadded, hadv⟩ := hlog hepoch
  have hnil : xs = [] := by
    rw [hadded, List.length_append] at hseq
    exact List.length_eq_zero_iff.mp (by omega)
  simp [hadv, hnil]

/-- An operation keeps the invariant. -/
lemma Exact.serve (hs : Exact sha256 s) {op : IndexOp} (hfresh : s.Fresh (.serve op))
    (h : s.serve sha256 op = some s') : Exact sha256 s' := by
  have hlog := hs.log_serve hfresh h
  obtain ⟨hfits, hs'⟩ := serve_eq_some h
  have hmoments : s'.moments = s'.now :: s.moments := by rw [hs']; rfl
  have hnow : s'.now.index = op.apply sha256 s.now.index := by rw [hs']
  have hsub : ∀ m ∈ s.moments, m ∈ s'.moments := fun m hm => by
    rw [hmoments]
    exact List.mem_cons_of_mem _ hm
  have hself : s'.now ∈ s'.moments := List.mem_cons_self ..
  refine ⟨hlog, ?_, ?_, ?_, hnow ▸ hfits⟩
  · intro m hm m' hm' hpos x
    rw [hmoments] at hm hm'
    rcases List.mem_cons.mp hm with rfl | hold
    · rcases List.mem_cons.mp hm' with rfl | hold'
      · exact Iff.rfl
      · exact (advertises_iff_of_position_eq (hlog m' (hsub m' hold')) hpos.symm x).symm
    · rcases List.mem_cons.mp hm' with rfl | hold'
      · exact advertises_iff_of_position_eq (hlog m (hsub m hold)) hpos x
      · exact hs.unique m hold m' hold' hpos x
  · intro form c' hc'
    rw [hnow] at hc'
    rcases op.blobsFrom sha256 s.now.index form c' hc' with ⟨c, hc, hblob, hgen⟩ | hmade
    · rw [hblob, hgen]
      exact (hs.cached form c hc).mono hsub
    · obtain ⟨hgen, hpending, hblob⟩ := hmade
      rw [← hnow] at hgen hpending hblob
      rw [hgen, hblob]
      exact ⟨s'.now, hself, rfl, shows_marshalForm sha256 form (hnow ▸ hfits) hpending⟩
  · intro c hc
    rw [hs'] at hc
    exact (hs.client c hc).mono hsub

/-- The blob of a full answer is one of the cached blobs afterwards. -/
lemma forms_blobGenForm (sha256 : Sha256) (idx : Index) (form : IndexForm)
    (clock : Index.BlobClock) :
    (idx.blobGenForm sha256 form clock).2.forms form
      = some (idx.blobGenForm sha256 form clock).1 := by
  rcases idx.blobGenForm_spec sha256 form clock with ⟨hidx, hcached⟩ | h
  · rw [hidx, hcached]
  · rw [h]
    exact Function.update_self ..

/-- A full answer gives the client the set of the position it names. -/
lemma Exact.fetch (hs : Exact sha256 s) {form : IndexForm} {clock : Index.BlobClock}
    (h : s.step sha256 (.fetch form clock) = some s') : Exact sha256 s' := by
  obtain ⟨t, ht, rfl⟩ := Option.map_eq_some_iff.mp h
  have hfresh : s.Fresh (.serve (.blobGenForm form clock)) := fun m _ => by simp [IndexOp.newEpoch]
  have hexact := hs.serve hfresh ht
  refine ⟨hexact.log, hexact.unique, hexact.cached, ?_, hexact.fits⟩
  rintro c ⟨⟩
  refine hexact.cached form _ ?_
  obtain ⟨-, rfl⟩ := serve_eq_some ht
  exact forms_blobGenForm sha256 s.now.index form clock

/-- Since an earlier moment of this epoch, the index has gained the rest of the log. -/
lemma Exact.gained (hs : Exact sha256 s) {m : Moment} (hm : m ∈ s.moments)
    (hepoch : m.index.addEpoch = s.now.index.addEpoch) :
    32 * (s.now.index.added.drop m.index.position.seq).length < 2 ^ 63 ∧
      ∀ h, s.now.index.Advertises h ↔
        m.index.Advertises h ∨ h ∈ s.now.index.added.drop m.index.position.seq := by
  obtain ⟨-, xs, hadded, hadv⟩ := hs.log m hm hepoch
  have hgained : s.now.index.added.drop m.index.position.seq = xs := by
    rw [hadded]
    exact List.drop_left
  rw [hgained]
  refine ⟨?_, hadv⟩
  have hadds := (of_decide_eq_true hs.fits).2
  rw [hadded, List.length_append] at hadds
  omega

/-- An answer to a poll leads from the set of the client's position to the present one. -/
lemma Exact.shows_answer (hs : Exact sha256 s) {form : IndexForm} {gen : IndexGen}
    {held : Finset ℕ} (hheld : s.Recorded form gen held) {blob : Bytes} {next : IndexGen}
    (h : s.now.index.deltaForm sha256 gen form = some (blob, next)) :
    next = s.now.index.position ∧
      form.Shows s.now.index (held ∪ (blobEntries sha256 form blob).toFinset) := by
  unfold Index.deltaForm at h
  split_ifs at h with hrefuse
  obtain ⟨rfl, rfl⟩ := Prod.mk.inj (Option.some.inj h)
  refine ⟨rfl, fun v => ?_⟩
  obtain ⟨m, hm, rfl, hshows⟩ := hheld
  push Not at hrefuse
  obtain ⟨hfits, hadv⟩ := hs.gained hm hrefuse.1
  rw [Finset.mem_union, List.mem_toFinset, mem_blobEntries_sortDedupe sha256 form hfits, hshows v]
  simp only [hadv, or_and_right, exists_or]

/-- Polling keeps the invariant. -/
lemma Exact.poll (hs : Exact sha256 s) (h : s.step sha256 .poll = some s') : Exact sha256 s' := by
  obtain rfl := Option.some.inj h
  refine ⟨hs.log, hs.unique, hs.cached, ?_, hs.fits⟩
  intro c' hc'
  obtain ⟨c, hc, hanswer⟩ := Option.bind_eq_some_iff.mp hc'
  obtain ⟨⟨blob, next⟩, hdelta, rfl⟩ := Option.map_eq_some_iff.mp hanswer
  obtain ⟨rfl, hshows⟩ := hs.shows_answer (hs.client c hc) hdelta
  exact ⟨s.now, List.mem_cons_self .., rfl, hshows⟩

/-- Every step keeps the invariant. -/
lemma Exact.step (hs : Exact sha256 s) {l : Label} (hfresh : s.Fresh l)
    (h : s.step sha256 l = some s') : Exact sha256 s' := by
  cases l with
  | serve op => exact hs.serve hfresh h
  | fetch form clock => exact hs.fetch h
  | poll => exact hs.poll h

end Steps

/-- What a client that follows the index may rely on. -/
structure DeltaGuarantee (sha256 : Sha256) (s : Protocol) (c : DeltaClient) : Prop where
  /-- The log once stood at its position. -/
  reached : ∃ m ∈ s.moments, m.index.position = c.gen
  /-- It holds exactly what was advertised whenever the log stood there. -/
  exact : ∀ m ∈ s.moments, m.index.position = c.gen → c.form.Shows m.index c.held
  /-- The next answer names the present position and completes the present set. -/
  answer : ∀ blob next, s.now.index.deltaForm sha256 c.gen c.form = some (blob, next) →
    next = s.now.index.position ∧
      c.form.Shows s.now.index (c.held ∪ (blobEntries sha256 c.form blob).toFinset)
  /-- After a removal of a cacheprog key or a rebuild, there is no such answer. -/
  refused : ∀ m ∈ s.moments, m.index.position = c.gen → m.shrinks < s.now.shrinks →
    s.now.index.deltaForm sha256 c.gen c.form = none

lemma Exact.deltaForm_eq_none {sha256 : Sha256} {s : Protocol} (hs : Exact sha256 s) {m : Moment}
    (hm : m ∈ s.moments) (hshrinks : m.shrinks < s.now.shrinks) (form : IndexForm) :
    s.now.index.deltaForm sha256 m.index.position form = none := by
  refine if_pos (Or.inl fun hepoch => ?_)
  exact absurd (hs.log m hm hepoch).1 (by omega)

/-- A client that unions the answers to its polls into one full answer holds exactly what was
advertised at the position it has reached, however operations of any kind are interleaved, as long
as new epochs are fresh. -/
theorem delta_exact (sha256 : Sha256) (entriesOff : Bool) (blobMinInterval : Duration)
    (addLogLimit : ℤ) (epoch : UInt64) (ls : List Label) (s : Protocol) (c : DeltaClient)
    (hfresh : Guarded (step sha256) Fresh (start entriesOff blobMinInterval addLogLimit epoch) ls)
    (hrun : run (step sha256) (start entriesOff blobMinInterval addLogLimit epoch) ls = some s)
    (hclient : s.client = some c) : DeltaGuarantee sha256 s c := by
  have hs : Exact sha256 s :=
    run_invariant (fun _ _ _ hs hfresh h => hs.step hfresh h)
      (exact_start sha256 entriesOff blobMinInterval addLogLimit epoch) hfresh hrun
  obtain ⟨m, hm, hgen, hshows⟩ := hs.client c hclient
  refine ⟨⟨m, hm, hgen⟩, ?_, fun blob next h => hs.shows_answer (hs.client c hclient) h, ?_⟩
  · intro m' hm' hgen' v
    rw [hshows v]
    simp only [hs.unique m hm m' hm' (hgen.trans hgen'.symm)]
  · intro m' hm' hgen' hshrinks
    rw [← hgen']
    exact hs.deltaForm_eq_none hm' hshrinks c.form

/-- A client fetches the index after one upload and polls after another. -/
def fetchAndPoll : List Label :=
  [.serve (.put (hashKey zeroHash) 0 1), .fetch ⟨2, 32, by decide⟩ ⟨1, 1, 1⟩,
    .serve (.put (hashKey (.ofValue 32 (2 ^ 255))) 0 2), .poll]

theorem delta_exact_fetchAndPoll :
    ∃ s c, run (step zeroDigest) (start false 0 0 0) fetchAndPoll = some s ∧
      s.client = some c ∧ DeltaGuarantee zeroDigest s c := by
  obtain ⟨s, hs, hsome⟩ : ∃ s ∈ run (step zeroDigest) (start false 0 0 0) fetchAndPoll,
      s.client.isSome = true := by
    decide +kernel
  obtain ⟨c, hc⟩ := Option.isSome_iff_exists.mp hsome
  exact ⟨s, c, hs, hc, delta_exact _ false 0 0 0 fetchAndPoll s c (by decide +kernel) hs hc⟩

end Protocol

end GoBuildCache
