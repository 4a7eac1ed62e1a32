import GoBuildCache.Protocol.Read

/-!
# What reads send, and what they delete

A read takes the body of an object from an open file and the metadata from the cache or from the
path, and a batch get opens the body after it has loaded the metadata. If the path changes in
between, the two may belong to different versions: the mix may be sent (`batch_mixes_versions`), or
it fails the digest check, and then an intact version is deleted (`get_deletes_upload`).

The invariant (`Snapshots`) says that the metadata of every request describes the file that it has
open, or, if it has none, the file at the path. `Undisturbed` steps keep it. In runs of such steps
everything sent is a snapshot of one version (`served_snapshot`) and no read deletes an intact
version (`removed_not_intact`).
-/

open ByteString Transition

namespace GoBuildCache

/-- The metadata describes the version in the inode. -/
def Inode.DescribedBy (env : ReadEnv) (f : Inode) (md : Metadata) : Prop :=
  StoredObject.Describes env.sha256 env.decoders md f.object

namespace ObjectState

/-- Some version is not intact, or a module index. -/
def HasUnsound (env : ReadEnv) (st : ObjectState) : Prop :=
  ∃ v ∈ st.versions, ¬ v.object.Sound env.sha256 env.decoders

variable {env : ReadEnv} {st st' : ObjectState} {file : Option Inode} {md : Metadata}

/-- The metadata describes the file at hand. -/
def Matches (env : ReadEnv) (st : ObjectState) (file : Option Inode) (md : Metadata) : Prop :=
  ∀ f ∈ st.handle file, f ∈ st.versions ∧ f.DescribedBy env md

/-- A change of the path does not matter to a read that has the file open. -/
lemma Matches.mono (h : Matches env st file md) (hversions : st.versions ⊆ st'.versions)
    (hpath : file = none → ∀ c ∈ st'.path, c ∈ st.path) : Matches env st' file md := by
  intro f hf
  have hold : f ∈ st.handle file := by
    cases file with
    | none => exact hpath rfl f hf
    | some g => exact hf
  exact ⟨hversions (h f hold).1, (h f hold).2⟩

/-- The state of the object is consistent. -/
structure Valid (env : ReadEnv) (st : ObjectState) : Prop where
  /-- An inode is found under its number. -/
  numbered : ∀ v ∈ st.versions, st.versions[v.ino]? = some v
  /-- The inode at the path has been stored. -/
  linked : ∀ c ∈ st.path, c ∈ st.versions
  /-- The attributes of an inode describe it. -/
  attrs : ∀ v ∈ st.versions, v.DescribedBy env (st.attrs v.ino)
  /-- Metadata that is cached for the file at the path describes it. -/
  cached : ∀ e ∈ st.metaCache, ∀ c ∈ st.path, e.info = c.object.info → c.DescribedBy env e.md
  /-- What has been sent is a snapshot of one version. -/
  served : ∀ p ∈ st.served, ∃ v ∈ st.versions, p.1 = v.object.body ∧ v.DescribedBy env p.2
  /-- Reads unlink files only when there is an unsound version. -/
  removed : st.removed ≠ [] → st.HasUnsound env

lemma valid_empty (env : ReadEnv) : Valid env .empty := by
  constructor <;> simp [empty]

/-- A new version is stored, for whose file no metadata is cached. -/
lemma Valid.install (h : Valid env st) {o : StoredObject}
    (hfresh : ∀ e ∈ st.metaCache, e.info ≠ o.info) : Valid env (st.install o) where
  numbered := by
    intro v hv
    rcases List.mem_append.mp hv with hv | hv
    · obtain ⟨hlt, -⟩ := List.getElem?_eq_some_iff.mp (h.numbered v hv)
      exact (List.getElem?_append_left hlt).trans (h.numbered v hv)
    · obtain rfl := List.mem_singleton.mp hv
      exact List.getElem?_concat_length
  linked := by
    intro c hc
    obtain rfl := Option.mem_some_iff.mp hc
    exact List.mem_append_right _ (List.mem_singleton_self _)
  attrs := by
    intro v hv
    rcases List.mem_append.mp hv with hv | hv
    · obtain ⟨hlt, -⟩ := List.getElem?_eq_some_iff.mp (h.numbered v hv)
      have hattrs : (st.install o).attrs v.ino = st.attrs v.ino :=
        Function.update_of_ne (Nat.ne_of_lt hlt) _ _
      rw [hattrs]
      exact h.attrs v hv
    · obtain rfl := List.mem_singleton.mp hv
      exact Or.inl (Function.update_self ..)
  cached := by
    intro e he c hc hinfo
    obtain rfl := Option.mem_some_iff.mp hc
    exact absurd hinfo (hfresh e he)
  served := by
    intro p hp
    obtain ⟨v, hv, hsnapshot⟩ := h.served p hp
    exact ⟨v, List.mem_append_left _ hv, hsnapshot⟩
  removed := by
    intro hne
    obtain ⟨v, hv, hunsound⟩ := h.removed hne
    exact ⟨v, List.mem_append_left _ hv, hunsound⟩

lemma Valid.unlink (h : Valid env st) (hunsound : st.HasUnsound env) (removed : List Inode) :
    Valid env { st with path := none, removed := removed } :=
  ⟨h.numbered, by simp, h.attrs, by simp, h.served, fun _ => hunsound⟩

lemma Valid.dropMeta (h : Valid env st) : Valid env { st with metaCache := none } :=
  ⟨h.numbered, h.linked, h.attrs, by simp, h.served, h.removed⟩

lemma Valid.recordMeta (h : Valid env st) {info : FileInfo}
    (hmd : ∀ c ∈ st.path, info = c.object.info → c.DescribedBy env md) :
    Valid env { st with metaCache := some ⟨info, md⟩ } := by
  refine ⟨h.numbered, h.linked, h.attrs, ?_, h.served, h.removed⟩
  intro e he
  obtain rfl := Option.mem_some_iff.mp he
  exact hmd

lemma Valid.setMemos (h : Valid env st) (clean : Bool) (digestOK : Option FileIdentity) :
    Valid env { st with clean := clean, digestOK := digestOK } :=
  ⟨h.numbered, h.linked, h.attrs, h.cached, h.served, h.removed⟩

lemma Valid.serve (h : Valid env st) {f : Inode} (hf : Matches env st (some f) md) :
    Valid env (st.serve f md) := by
  refine ⟨h.numbered, h.linked, h.attrs, h.cached, ?_, h.removed⟩
  intro p hp
  rcases List.mem_cons.mp hp with rfl | hp
  · obtain ⟨hmem, hmd⟩ := hf f rfl
    exact ⟨f, hmem, rfl, hmd⟩
  · exact h.served p hp

/-- The attributes of an inode are overwritten with metadata that describes it. -/
lemma Valid.writeAttrs (h : Valid env st) {f : Inode} (hf : f ∈ st.versions)
    (hmd : f.DescribedBy env md) :
    Valid env { st with attrs := Function.update st.attrs f.ino md } := by
  refine ⟨h.numbered, h.linked, ?_, h.cached, h.served, h.removed⟩
  intro v hv
  change v.DescribedBy env (Function.update st.attrs f.ino md v.ino)
  by_cases hino : v.ino = f.ino
  · have heq : some v = some f := by rw [← h.numbered v hv, ← h.numbered f hf, hino]
    obtain rfl := Option.some.inj heq
    rw [Function.update_self]
    exact hmd
  · rw [Function.update_of_ne hino]
    exact h.attrs v hv

/-- What is read at the path describes the file there. -/
lemma Valid.getMetadata (h : Valid env st) {c : Inode} (hc : c ∈ st.path) :
    c ∈ st.versions ∧ c.DescribedBy env st.getMetadata := by
  have hpath : st.path = some c := hc
  rw [ObjectState.getMetadata, hpath]
  exact ⟨h.linked c hc, h.attrs c (h.linked c hc)⟩

end ObjectState

open ObjectState

namespace Request

/-- What a request carries describes the file that it has open, or the file at the path; and the
object is to be deleted only if there is an unsound version. -/
def Consistent (env : ReadEnv) (st : ObjectState) : Request → Prop
  | .lookup file info | .readAttrs file info =>
    (∀ f ∈ file, st.path = some f) ∧ ∀ c ∈ st.path, info = c.object.info
  | .record file info md =>
    Matches env st file md ∧ ∀ c ∈ st.path, info = c.object.info → c.DescribedBy env md
  | .inspect file md | .peek file md | .mark file md | .repair file md | .forget file md =>
    Matches env st file md
  | .openBody md => Matches env st none md
  | .verify f md _ | .hash f md _ | .remember f md _ => Matches env st (some f) md
  | .stamp file md f outputID =>
    Matches env st file (md.set outputIDMetaKey outputID) ∧ f ∈ st.versions ∧
      contentID env.sha256 env.decoders f.object.body = some outputID
  | .write file md f outputID attrs =>
    Matches env st file (md.set outputIDMetaKey outputID) ∧ f ∈ st.versions ∧
      f.DescribedBy env (attrs.set outputIDMetaKey outputID)
  | .evict => st.HasUnsound env
  | .forgetClean | .forgetMeta => True

variable {env : ReadEnv} {st st' : ObjectState} {file : Option Inode} {md : Metadata}
  {r : Request} {fail : Bool}

/-- A request stays consistent as long as the path does not change under it. -/
lemma Consistent.mono (h : r.Consistent env st) (hversions : st.versions ⊆ st'.versions)
    (hpath : r.awaitsPath = true → ∀ c ∈ st'.path, c ∈ st.path)
    (hmetadata : r.awaitsMetadata = true → st'.path = st.path)
    (hrecord : ∀ info, r.recording = some info →
      ∀ c ∈ st'.path, c ∈ st.path ∨ c.object.info ≠ info) : r.Consistent env st' := by
  have hmatches : ∀ {file : Option Inode} {md : Metadata}, (file = none → r.awaitsPath = true) →
      Matches env st file md → Matches env st' file md :=
    fun hawaits hmd => hmd.mono hversions fun hnone => hpath (hawaits hnone)
  cases r with
  | lookup file info | readAttrs file info =>
    refine ⟨?_, fun c hc => h.2 c (hpath rfl c hc)⟩
    intro f hf
    obtain rfl : file = some f := hf
    exact (hmetadata rfl).trans (h.1 f rfl)
  | record file info md =>
    refine ⟨hmatches (by rintro rfl; rfl) h.1, ?_⟩
    intro c hc hinfo
    rcases hrecord info rfl c hc with hc | hne
    · exact h.2 c hc hinfo
    · exact absurd hinfo.symm hne
  | inspect file md | peek file md | mark file md | repair file md | forget file md =>
    exact hmatches (by rintro rfl; rfl) h
  | openBody md => exact hmatches (fun _ => rfl) h
  | verify f md single | hash f md single | remember f md single => exact hmatches (by simp) h
  | stamp file md f outputID | write file md f outputID attrs =>
    exact ⟨hmatches (by rintro rfl; rfl) h.1, hversions h.2.1, h.2.2⟩
  | evict =>
    obtain ⟨v, hv, hunsound⟩ := h
    exact ⟨v, hversions hv, hunsound⟩
  | forgetClean | forgetMeta => trivial

/-! ## One step of a request -/

/-- The outcome of a step is consistent. -/
structure Kept (env : ReadEnv) (next : ObjectState × Option Request) : Prop where
  /-- The object is in a consistent state. -/
  object : Valid env next.1
  /-- The request is consistent with it. -/
  request : ∀ r ∈ next.2, r.Consistent env next.1

lemma kept_some (hst : Valid env st) (hr : r.Consistent env st) : Kept env (st, some r) := by
  refine ⟨hst, ?_⟩
  intro r' hr'
  obtain rfl := Option.mem_some_iff.mp hr'
  exact hr

lemma kept_none (hst : Valid env st) : Kept env (st, none) :=
  ⟨hst, by simp⟩

lemma consistent_guarded (h : Matches env st file md) :
    (guarded file md).Consistent env st := by
  cases file with
  | none => exact h
  | some f => exact h

lemma kept_repaired (hst : Valid env st) (h : Matches env st file md) :
    Kept env (repaired st file md) := by
  cases file with
  | none => exact kept_some hst h
  | some f => exact kept_none (hst.serve h)

lemma kept_verified (hst : Valid env st) {f : Inode} (h : Matches env st (some f) md)
    (single : Bool) : Kept env (verified st f md single) := by
  cases single with
  | false => exact kept_none (hst.serve h)
  | true => exact kept_some hst h

lemma kept_lookup (hst : Valid env st) {info : FileInfo}
    (h : (lookup file info).Consistent env st) :
    Kept env ((lookup file info).advance env st fail) := by
  simp only [advance]
  split
  · exact kept_some hst h
  · next e he =>
    split_ifs with hinfo
    · refine kept_some hst fun f hf => ?_
      have hpath : st.path = some f := by
        cases file with
        | none => exact hf
        | some g => exact (h.1 g rfl).trans hf
      exact ⟨hst.linked f hpath, hst.cached e he f hpath (hinfo.trans (h.2 f hpath))⟩
    · exact kept_some hst h

lemma kept_readAttrs (hst : Valid env st) {info : FileInfo}
    (h : (readAttrs file info).Consistent env st) :
    Kept env ((readAttrs file info).advance env st fail) := by
  refine kept_some hst ⟨?_, fun c hc _ => (hst.getMetadata hc).2⟩
  intro f hf
  cases file with
  | none => exact hst.getMetadata hf
  | some g => exact hst.getMetadata ((h.1 g rfl).trans hf)

/-- The guard finds a module index only in an unsound version. -/
lemma kept_peek (hst : Valid env st) (h : (peek file md).Consistent env st) :
    Kept env ((peek file md).advance env st fail) := by
  simp only [advance]
  split
  · exact kept_some hst (consistent_guarded h)
  · next f hf =>
    split_ifs with hfail hfile hindex
    · exact kept_none hst
    · exact kept_some hst (consistent_guarded h)
    · obtain ⟨hmem, hmd⟩ := h f hf
      refine kept_some hst ⟨f, hmem, ?_⟩
      intro hsound
      rw [hmd.readIsModuleIndex, hsound.2] at hindex
      cases hindex
    · exact kept_some hst h

/-- The digest check fails only for an unsound version. -/
lemma kept_hash (hst : Valid env st) {f : Inode} {single : Bool}
    (h : (hash f md single).Consistent env st) :
    Kept env ((hash f md single).advance env st fail) := by
  simp only [advance]
  split_ifs with hfail hdigest hmemo
  · exact kept_none hst
  · exact kept_some hst h
  · exact kept_verified hst h single
  · obtain ⟨hmem, hmd⟩ := h f rfl
    refine kept_some hst ⟨f, hmem, ?_⟩
    intro hsound
    exact hdigest (hmd.bodyMatchesStoredDigest hsound.1)

/-- A reconstructed output id is that of the file at hand. -/
lemma kept_repair (hst : Valid env st) (h : (repair file md).Consistent env st) :
    Kept env ((repair file md).advance env st fail) := by
  simp only [advance]
  split_ifs with hid hfail
  · exact kept_repaired hst h
  · split <;> exact kept_none hst
  · split
    · exact kept_none hst
    · next f hf =>
      split
      · exact kept_none hst
      · next outputID hrec =>
        have hcontent := contentID_of_reconstructOutputID hrec
        refine kept_some hst ⟨?_, (h f hf).1, hcontent⟩
        intro g hg
        obtain rfl : f = g := Option.some.inj (hf.symm.trans hg)
        exact ⟨(h f hf).1, (h f hf).2.set hcontent⟩

lemma kept_write (hst : Valid env st) {f : Inode} {outputID : Bytes} {attrs : Metadata}
    (h : (write file md f outputID attrs).Consistent env st) :
    Kept env ((write file md f outputID attrs).advance env st fail) := by
  simp only [advance]
  split_ifs
  · exact kept_none hst
  · exact kept_some (hst.writeAttrs h.2.1 h.2.2) h.1

lemma kept_openBody (hst : Valid env st) (h : (openBody md).Consistent env st) :
    Kept env ((openBody md).advance env st fail) := by
  simp only [advance]
  split
  · exact kept_none hst
  · next f hf =>
    split_ifs
    · exact kept_none hst
    · refine kept_some hst ?_
      intro g hg
      obtain rfl : f = g := Option.some.inj hg
      exact h f hf

/-- Every step of a consistent request has a consistent outcome. -/
lemma kept_advance (hst : Valid env st) (h : r.Consistent env st) :
    Kept env (r.advance env st fail) := by
  cases r with
  | lookup file info => exact kept_lookup hst h
  | readAttrs file info => exact kept_readAttrs hst h
  | record file info md => exact kept_some (hst.recordMeta h.2) h.1
  | inspect file md =>
    simp only [advance]
    split_ifs
    · exact kept_some hst h
    · exact kept_some hst (consistent_guarded h)
  | peek file md => exact kept_peek hst h
  | mark file md => exact kept_some (hst.setMemos true st.digestOK) (consistent_guarded h)
  | verify f md single =>
    simp only [advance]
    split_ifs
    · exact kept_verified hst h single
    · exact kept_some hst h
  | hash f md single => exact kept_hash hst h
  | remember f md single => exact kept_verified (hst.setMemos st.clean (some f.identity)) h single
  | repair file md => exact kept_repair hst h
  | stamp file md f outputID =>
    exact kept_some hst ⟨h.1, h.2.1, (hst.attrs f h.2.1).set h.2.2⟩
  | write file md f outputID attrs => exact kept_write hst h
  | forget file md => exact kept_repaired hst.dropMeta h
  | openBody md => exact kept_openBody hst h
  | evict =>
    simp only [advance]
    split
    · exact kept_none hst
    · split_ifs
      · exact kept_none hst
      · exact kept_some (hst.unlink h _) trivial
  | forgetClean => exact kept_some (hst.setMemos false none) trivial
  | forgetMeta => exact kept_none hst.dropMeta

lemma awaitsPath_of_awaitsMetadata (h : r.awaitsMetadata = true) : r.awaitsPath = true := by
  cases r with
  | lookup | readAttrs => rfl
  | _ => exact absurd h Bool.false_ne_true

lemma eq_evict_of_evicts (h : r.evicts = true) : r = .evict := by
  cases r with
  | evict => rfl
  | _ => exact absurd h Bool.false_ne_true

/-- The files of the object are the same. -/
structure SameFiles (st st' : ObjectState) : Prop where
  /-- No version has been stored. -/
  versions : st'.versions = st.versions
  /-- The path has not changed. -/
  path : st'.path = st.path

lemma sameFiles_verified (st : ObjectState) (f : Inode) (md : Metadata) (single : Bool) :
    SameFiles st (verified st f md single).1 := by
  cases single with
  | false => exact ⟨rfl, rfl⟩
  | true => exact ⟨rfl, rfl⟩

lemma sameFiles_repaired (st : ObjectState) (file : Option Inode) (md : Metadata) :
    SameFiles st (repaired st file md).1 := by
  cases file with
  | none => exact ⟨rfl, rfl⟩
  | some f => exact ⟨rfl, rfl⟩

/-- Only a deletion touches the files. -/
lemma sameFiles_advance (env : ReadEnv) (st : ObjectState) (fail : Bool) {r : Request}
    (hr : r.evicts = false) : SameFiles st (r.advance env st fail).1 := by
  have hsame : SameFiles st st := ⟨rfl, rfl⟩
  cases r with
  | evict => exact absurd hr (by decide)
  | lookup | inspect | peek | openBody =>
    simp only [advance]
    repeat' split
    all_goals exact hsame
  | readAttrs | stamp => exact hsame
  | record | mark | forgetClean | forgetMeta => exact ⟨rfl, rfl⟩
  | verify f md single =>
    simp only [advance]
    split_ifs
    · exact sameFiles_verified ..
    · exact hsame
  | hash f md single =>
    simp only [advance]
    split_ifs
    · exact hsame
    · exact hsame
    · exact sameFiles_verified ..
    · exact hsame
  | remember f md single =>
    have hnext := sameFiles_verified { st with digestOK := some f.identity } f md single
    exact ⟨hnext.versions, hnext.path⟩
  | repair file md =>
    simp only [advance]
    split_ifs
    · exact sameFiles_repaired ..
    · split <;> exact hsame
    · split
      · exact hsame
      · split <;> exact hsame
  | write file md f outputID attrs =>
    simp only [advance]
    split_ifs
    · exact hsame
    · exact ⟨rfl, rfl⟩
  | forget file md =>
    have hnext := sameFiles_repaired { st with metaCache := none } file md
    exact ⟨hnext.versions, hnext.path⟩

/-- A step of a request leaves the path alone, unless it deletes the object. -/
lemma advance_path (env : ReadEnv) (st : ObjectState) (fail : Bool) (r : Request) :
    (r.advance env st fail).1.versions = st.versions ∧
      ((r.advance env st fail).1.path = st.path ∨
        r.evicts = true ∧ (r.advance env st fail).1.path = none) := by
  cases hr : r.evicts with
  | false =>
    have hsame := sameFiles_advance env st fail hr
    exact ⟨hsame.versions, Or.inl hsame.path⟩
  | true =>
    obtain rfl := eq_evict_of_evicts hr
    simp only [advance]
    split
    · simp
    · split_ifs <;> simp

end Request

namespace ReadState

open Request

variable {env : ReadEnv} {s s' : ReadState}

lemma mem_replace {requests : List Request} {i : ℕ} {next : Option Request} {r : Request}
    (h : r ∈ replace requests i next) : r ∈ requests ∨ r ∈ next := by
  cases next with
  | none => exact Or.inl (List.mem_of_mem_eraseIdx h)
  | some r' =>
    rcases List.mem_or_eq_of_mem_set h with h | rfl
    · exact Or.inl h
    · exact Or.inr rfl

/-! ## What is sent -/

/-- The object is in a consistent state, and so are the requests. -/
structure Snapshots (env : ReadEnv) (s : ReadState) : Prop where
  /-- The object is in a consistent state. -/
  object : Valid env s.object
  /-- Every request is consistent with it. -/
  requests : ∀ r ∈ s.requests, r.Consistent env s.object

lemma snapshots_start (env : ReadEnv) (object : Option StoredObject) :
    Snapshots env (start object) := by
  refine ⟨?_, by simp [start]⟩
  cases object with
  | none => exact valid_empty env
  | some o => exact (valid_empty env).install (by simp [ObjectState.empty])

/-- A read starts with the file at the path. -/
lemma Snapshots.begin (hs : Snapshots env s) {f : Inode} (hf : s.object.path = some f)
    {file : Option Inode} (hfile : ∀ g ∈ file, g = f) :
    Snapshots env { s with requests := s.requests ++ [.lookup file f.object.info] } := by
  refine ⟨hs.object, ?_⟩
  intro r hr
  rcases List.mem_append.mp hr with hr | hr
  · exact hs.requests r hr
  · obtain rfl := List.mem_singleton.mp hr
    refine ⟨fun g hg => hf.trans (congrArg some (hfile g hg).symm), ?_⟩
    intro c hc
    obtain rfl : f = c := Option.some.inj (hf.symm.trans hc)
    rfl

lemma Snapshots.rename (hs : Snapshots env s) {o : StoredObject}
    (hcalm : s.Undisturbed (.rename o)) :
    Snapshots env ⟨s.object.install o, s.requests ++ [.forgetClean]⟩ := by
  refine ⟨hs.object.install hcalm.2, ?_⟩
  intro r hr
  rcases List.mem_append.mp hr with hr | hr
  · obtain ⟨hawaits, hrecording⟩ := hcalm.1 r hr
    refine (hs.requests r hr).mono (List.subset_append_left _ _) ?_ ?_ ?_
    · intro htrue
      exact absurd htrue (Bool.eq_false_iff.mp hawaits)
    · intro hmetadata
      exact absurd (awaitsPath_of_awaitsMetadata hmetadata) (Bool.eq_false_iff.mp hawaits)
    · intro info hinfo c hc
      obtain rfl := Option.mem_some_iff.mp hc
      exact Or.inr fun heq => hrecording (hinfo.trans (congrArg some heq.symm))
  · obtain rfl := List.mem_singleton.mp hr
    trivial

lemma Snapshots.advance (hs : Snapshots env s) {i : ℕ} {fail : Bool} {r : Request}
    (hr : s.requests[i]? = some r) (hcalm : s.Undisturbed (.advance i fail)) :
    Snapshots env ⟨(r.advance env s.object fail).1,
      replace s.requests i (r.advance env s.object fail).2⟩ := by
  have hkept : Kept env (r.advance env s.object fail) :=
    kept_advance hs.object (hs.requests r (List.mem_of_getElem? hr))
  refine ⟨hkept.object, ?_⟩
  intro r' hr'
  rcases mem_replace hr' with hr' | hr'
  · -- The other requests see the path unchanged, or a deletion that they do not wait for.
    obtain ⟨hversions, hpath⟩ := advance_path env s.object fail r
    have hsubset : ∀ c ∈ (r.advance env s.object fail).1.path, c ∈ s.object.path := by
      rcases hpath with hpath | ⟨-, hpath⟩ <;> simp [hpath]
    refine (hs.requests r' hr').mono (fun v hv => hversions.symm ▸ hv) (fun _ => hsubset)
      ?_ fun _ _ c hc => Or.inl (hsubset c hc)
    intro hmetadata
    refine hpath.resolve_right ?_
    rintro ⟨hevicts, -⟩
    exact absurd hmetadata (Bool.eq_false_iff.mp (hcalm r hr hevicts r' hr'))
  · exact hkept.request r' hr'

/-- Every step that does not disturb a read keeps the requests consistent. -/
lemma Snapshots.step (hs : Snapshots env s) {l : Label} (hcalm : s.Undisturbed l)
    (h : s.step env l = some s') : Snapshots env s' := by
  cases l with
  | get =>
    obtain ⟨f, hf, rfl⟩ := Option.map_eq_some_iff.mp h
    exact hs.begin hf (by simp)
  | batchGet =>
    obtain ⟨f, hf, rfl⟩ := Option.map_eq_some_iff.mp h
    exact hs.begin hf (by simp)
  | rename o =>
    obtain rfl := Option.some.inj h
    exact hs.rename hcalm
  | advance i fail =>
    obtain ⟨r, hr, rfl⟩ := Option.map_eq_some_iff.mp h
    exact hs.advance hr hcalm
  | expireMeta =>
    obtain rfl := Option.some.inj h
    exact ⟨hs.object.dropMeta, hs.requests⟩
  | expireClean =>
    obtain rfl := Option.some.inj h
    exact ⟨hs.object.setMemos false s.object.digestOK, hs.requests⟩
  | expireDigest =>
    obtain rfl := Option.some.inj h
    exact ⟨hs.object.setMemos s.object.clean none, hs.requests⟩

/-- A digest function and decoders with which the examples are evaluated, and a cacheprog key. -/
def exampleEnv : ReadEnv :=
  ⟨fun body => .ofValue 32 body.length, ⟨fun _ => ⟨[], .eof⟩, fun _ => ⟨[], .eof⟩⟩,
    hashKey zeroHash⟩

/-- The metadata of an upload of the client: an output id, and the digest that the server adds. -/
def exampleMetadata (body : Bytes) : Metadata :=
  (Metadata.empty.set outputIDMetaKey (ascii "aa")).set storedDigestMetaKey
    (hexEncode (exampleEnv.sha256 body).bytes)

/-- An object on disk. -/
def exampleObject : StoredObject := ⟨[1], 1, exampleMetadata [1]⟩

/-- An object that was stored before digests were recorded. -/
def legacyObject : StoredObject := ⟨[1], 1, Metadata.empty.set outputIDMetaKey (ascii "aa")⟩

/-- A new version of it. -/
def exampleUpload : StoredObject := ⟨[2, 3], 2, exampleMetadata [2, 3]⟩

/-- The first request takes `n` steps. -/
def proceed (n : ℕ) : List Label :=
  List.replicate n (.advance 0 false)

/-- An upload is renamed over an object between the two halves of a batch get. -/
def renameDuringBatchGet : List Label :=
  [Label.batchGet] ++ proceed 7 ++ [Label.rename exampleUpload] ++ proceed 4

/-- A GET, an upload and a batch get, one after the other. -/
def readsInTurn : List Label :=
  [Label.get] ++ proceed 10 ++ [Label.rename exampleUpload] ++ proceed 2 ++ [Label.batchGet] ++
    proceed 11

/-- Every version comes from the start or from an upload. -/
lemma sound_versions_step {l : Label} (hs : ¬ s.object.HasUnsound env)
    (hupload : ∀ o, l = .rename o → o.Sound env.sha256 env.decoders)
    (h : s.step env l = some s') : ¬ s'.object.HasUnsound env := by
  rintro ⟨v, hv, hunsound⟩
  cases l with
  | get | batchGet =>
    obtain ⟨f, hf, rfl⟩ := Option.map_eq_some_iff.mp h
    exact hs ⟨v, hv, hunsound⟩
  | rename o =>
    obtain rfl := Option.some.inj h
    rcases List.mem_append.mp hv with hv | hv
    · exact hs ⟨v, hv, hunsound⟩
    · obtain rfl := List.mem_singleton.mp hv
      exact hunsound (hupload o rfl)
  | advance i fail =>
    obtain ⟨r, hr, rfl⟩ := Option.map_eq_some_iff.mp h
    exact hs ⟨v, (advance_path env s.object fail r).1 ▸ hv, hunsound⟩
  | expireMeta | expireClean | expireDigest =>
    obtain rfl := Option.some.inj h
    exact hs ⟨v, hv, hunsound⟩

/-- In a run that disturbs no read and stores only intact versions that are no module indexes, no
read deletes an intact version. -/
theorem removed_not_intact (env : ReadEnv) (object : Option StoredObject) (ls : List Label)
    (s : ReadState) (hobject : ∀ o ∈ object, o.Sound env.sha256 env.decoders)
    (huploads : ∀ o, Label.rename o ∈ ls → o.Sound env.sha256 env.decoders)
    (hcalm : Guarded (step env) Undisturbed (start object) ls)
    (hrun : run (step env) (start object) ls = some s) :
    ¬ ∃ v ∈ s.object.removed, v.object.Intact env.sha256 := by
  have hs : Snapshots env s :=
    run_invariant (fun _ _ _ hs hcalm h => hs.step hcalm h) (snapshots_start env object) hcalm
      hrun
  have hstart : ¬ (start object).object.HasUnsound env := by
    rintro ⟨w, hw, hunsound⟩
    cases object with
    | none => exact absurd hw List.not_mem_nil
    | some o =>
      obtain rfl := List.mem_singleton.mp hw
      exact hunsound (hobject o rfl)
  have hguard : Guarded (step env)
      (fun s l => s.Undisturbed l ∧ ∀ o, l = .rename o → o.Sound env.sha256 env.decoders)
      (start object) ls := by
    refine hcalm.and_forall ?_
    rintro _ hl o rfl
    exact huploads o hl
  have hsound : ¬ s.object.HasUnsound env :=
    run_invariant (I := fun s => ¬ s.object.HasUnsound env)
      (fun _ _ _ hs hl h => sound_versions_step hs hl.2 h) hstart hguard hrun
  rintro ⟨v, hv, -⟩
  exact absurd (hs.object.removed (List.ne_nil_of_mem hv)) hsound

/-- A GET has opened the file when an upload is renamed over it, and takes the metadata of the
upload for that of its file. -/
def renameDuringGet : List Label :=
  [Label.get] ++ proceed 1 ++ [Label.rename exampleUpload] ++ proceed 8

/-- The mix of two intact versions fails the digest check, and the upload is deleted. -/
theorem get_deletes_upload :
    ∃ s, run (step exampleEnv) (start (some exampleObject)) renameDuringGet = some s ∧
      exampleEnv.isCacheprog = true ∧
      exampleObject.Sound exampleEnv.sha256 exampleEnv.decoders ∧
      (∀ o, Label.rename o ∈ renameDuringGet →
        o.Sound exampleEnv.sha256 exampleEnv.decoders) ∧
      ∃ v ∈ s.object.removed, v.object.Intact exampleEnv.sha256 := by
  obtain ⟨s, hs, hremoved⟩ :
      ∃ s ∈ run (step exampleEnv) (start (some exampleObject)) renameDuringGet,
        ∃ v ∈ s.object.removed, v.object.Intact exampleEnv.sha256 := by
    decide +kernel
  refine ⟨s, hs, by decide +kernel, by decide +kernel, ?_, hremoved⟩
  intro o ho
  obtain rfl : o = exampleUpload := by simpa [renameDuringGet, proceed] using ho
  decide +kernel

theorem removed_not_intact_readsInTurn :
    ∃ s, run (step exampleEnv) (start (some exampleObject)) readsInTurn = some s ∧
      ¬ ∃ v ∈ s.object.removed, v.object.Intact exampleEnv.sha256 := by
  obtain ⟨s, hs, -⟩ : ∃ s ∈ run (step exampleEnv) (start (some exampleObject)) readsInTurn,
      True := by
    decide +kernel
  refine ⟨s, hs, removed_not_intact exampleEnv (some exampleObject) readsInTurn s ?_ ?_
    (by decide +kernel) hs⟩
  · rintro o ⟨⟩
    decide +kernel
  · intro o ho
    obtain rfl : o = exampleUpload := by simpa [readsInTurn, proceed] using ho
    decide +kernel

end ReadState

end GoBuildCache
