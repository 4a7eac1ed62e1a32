import GoBuildCache.Client.Uploads
import GoBuildCache.Foundation.Parties
import GoBuildCache.Foundation.Transition

/-!
# Handing uploads off

The map of unconfirmed uploads and the stages of the uploads agree in every state (`Accounted`):
whatever a goroutine does with an upload, it keeps the upload on the map until it is confirmed or
given up. When nobody is at work any more, what is on the map is what is owed. So the spool has
exactly the claimed uploads that no answer has confirmed and no guard has given up, each of them
once (`handOff_exact`).
-/

open ByteString Transition

namespace GoBuildCache

namespace WebBackend

/-! ## Calls -/

/-- An action that is claimed has not been claimed before. -/
def ClaimsOnce (b : WebBackend) : Label → Prop
  | .put actionID _ _ =>
    ∀ h ∈ parseActionHash actionID, b.keys h = false → h ∉ b.uploads.map (·.put.hash)
  | .putFile actionID _ path =>
    path ≠ [] → ∀ h ∈ parseActionHash actionID, b.keys h = false →
      h ∉ b.uploads.map (·.put.hash)
  | .index _ | .act _ _ | .flush | .answer _ _ | .abort | .stopCoalescer | .coalescerDone
  | .handOff _ => True

instance decidableClaimsOnce (b : WebBackend) : (l : Label) → Decidable (b.ClaimsOnce l)
  | .put _ _ _ => inferInstanceAs (Decidable (∀ _ ∈ _, _))
  | .putFile _ _ _ => inferInstanceAs (Decidable (_ → _))
  | .index _ | .act _ _ | .flush | .answer _ _ | .abort | .stopCoalescer | .coalescerDone
  | .handOff _ => isTrue trivial

/-- The upload is the one that a call asks for. -/
def CalledBy (p : PendingPut) : Label → Prop
  | .put actionID outputID data =>
    ∃ h ∈ parseActionHash actionID, p = ⟨h, actionID, outputID, [], data⟩
  | .putFile actionID outputID path =>
    path ≠ [] ∧ ∃ h ∈ parseActionHash actionID, p = ⟨h, actionID, outputID, path, []⟩
  | .index _ | .act _ _ | .flush | .answer _ _ | .abort | .stopCoalescer | .coalescerDone
  | .handOff _ => False

/-! ## What a goroutine does -/

/-- What the goroutine that has an upload can do with it. -/
inductive Advances (b : WebBackend) (i : ℕ) (u : ClaimedPut) : WebBackend → Prop where
  /-- The upload is tracked. -/
  | track (hstage : u.stage = .claimed) : Advances b i u ((b.track u.put).move i .tracked)
  /-- The upload is handed on, and its claim may be dropped; it stays on the map, or off it. -/
  | move {stage stage' : UploadStage} (hstage : u.stage = stage) (keys : Hash → Bool)
      (hholder : stage.holder ≤ stage'.holder)
      (hpurpose : stage' ≠ .dropping .closing ∧ stage' ≠ .givenUp .closing)
      (hpending : stage'.isPending = stage.isPending) :
      Advances b i u (({ b with keys := keys } : WebBackend).move i stage')
  /-- The upload is settled, and the reason for it does not change. -/
  | settle {stage stage' : UploadStage} (hstage : u.stage = stage) (hholder : stage.holder < 3)
      (hsettled : stage'.holder = 3 ∧ stage'.isPending = false)
      (hpurpose : stage ≠ .dropping .closing →
        stage' ≠ .dropping .closing ∧ stage' ≠ .givenUp .closing) :
      Advances b i u ((b.settle u.put.hash).move i stage')
  /-- The upload cannot be handed on. -/
  | stop (hstop : u.stage = .offered ∧ b.putBatchStop = true ∨
        u.stage = .tracked ∧ b.aborted = true) :
      Advances b i u ((b.removeClaimed u.put.hash).move i (.dropping .closing))

lemma advances_of_advance {b b' : WebBackend} {i : ℕ} {u : ClaimedPut} {a : Action}
    (ha : b.advance i u a = some b') : Advances b i u b' := by
  cases a with
  | track =>
    simp only [advance] at ha
    split_ifs at ha with hstage
    obtain rfl := Option.some.inj ha
    exact .track hstage
  | submit | start | enqueue | receive =>
    simp only [advance] at ha
    split_ifs at ha with hstage
    obtain rfl := Option.some.inj ha
    exact .move hstage b.keys (by decide) (by decide) rfl
  | checkAbort =>
    by_cases hstage : u.stage = .started
    swap
    · simp [advance, hstage] at ha
    simp only [advance, if_pos hstage] at ha
    obtain rfl := Option.some.inj ha
    split_ifs
    · exact .move hstage b.keys (by decide) (by decide) rfl
    · exact .move hstage b.keys (by decide) (by decide) rfl
  | prepare file compress =>
    by_cases hstage : u.stage = .preparing
    swap
    · simp [advance, hstage] at ha
    simp only [advance, if_pos hstage] at ha
    cases hp : GoBuildCache.prepare u.put file compress with
    | error reason =>
      rw [hp] at ha
      obtain rfl := Option.some.inj ha
      exact .move hstage _ le_rfl (by simp [prepare_ne_closing hp]) rfl
    | ok body =>
      rw [hp] at ha
      obtain rfl := Option.some.inj ha
      split_ifs
      · exact .move hstage b.keys (by decide) (by decide) rfl
      · exact .move hstage b.keys (by decide) (by decide) rfl
  | drop =>
    cases hstage : u.stage with
    | dropping reason =>
      simp only [advance, hstage] at ha
      obtain rfl := Option.some.inj ha
      exact .settle hstage (by simp [UploadStage.holder]) ⟨rfl, rfl⟩ (by simp)
    | _ => simp [advance, hstage] at ha
  | seeStop =>
    simp only [advance] at ha
    split_ifs at ha with hstop
    obtain rfl := Option.some.inj ha
    exact .stop hstop
  | note =>
    cases hstage : u.stage with
    | answered ok =>
      simp only [advance, hstage] at ha
      cases ok with
      | true =>
        obtain rfl := Option.some.inj ha
        exact .settle hstage (by decide) ⟨rfl, rfl⟩ (by decide)
      | false =>
        obtain rfl := Option.some.inj ha
        exact .move hstage _ (by decide) (by decide) rfl
    | _ => simp [advance, hstage] at ha
  | answerSingle ok =>
    cases hstage : u.stage with
    | single sender =>
      simp only [advance, hstage] at ha
      have hholder : (UploadStage.single sender).holder < 3 := by
        cases sender <;> decide
      split_ifs at ha
      · obtain rfl := Option.some.inj ha
        exact .settle hstage hholder ⟨rfl, rfl⟩ (by simp)
      · obtain rfl := Option.some.inj ha
        exact .move hstage _ hholder.le (by decide) rfl
    | _ => simp [advance, hstage] at ha

/-! ## Where uploads are -/

/-- An upload goes on: it stays the same upload, is handed on in the order in which `closeHandOff`
waits, and is not given up because of that. -/
structure Goes (u u' : ClaimedPut) : Prop where
  /-- The upload. -/
  put : u'.put = u.put
  /-- The holder. -/
  holder : u.stage.holder ≤ u'.stage.holder
  /-- The reason. -/
  purpose : u'.stage ≠ .dropping .closing ∧ u'.stage ≠ .givenUp .closing

/-- The map, and the stages of the uploads, agree. -/
structure Accounted (sha256 : Sha256) (b : WebBackend) : Prop where
  /-- Every action is claimed once. -/
  distinct : (b.uploads.map (·.put.hash)).Nodup
  /-- No upload is given up because the backend is closing. -/
  purpose : ∀ u ∈ b.uploads, u.stage ≠ .dropping .closing ∧ u.stage ≠ .givenUp .closing
  /-- The map has the uploads that are neither settled nor about to be tracked. -/
  pending : ∀ p, p ∈ b.pending.rows ↔ ∃ u ∈ b.uploads, u.put = p ∧ u.stage.isPending = true
  /-- After the abort, the calls of `Put` have returned. -/
  aborted : b.aborted = true → ∀ u ∈ b.uploads, 1 ≤ u.stage.holder
  /-- When the coalescer is told to stop, the workers have stopped. -/
  putBatchStop : b.putBatchStop = true → b.aborted = true ∧ ∀ u ∈ b.uploads, 2 ≤ u.stage.holder
  /-- When the coalescer has stopped, nobody is at work. -/
  putBatchDone : b.putBatchDone = true → b.aborted = true ∧ ∀ u ∈ b.uploads, 3 ≤ u.stage.holder
  /-- The spool has what is on the map. -/
  spool : ∀ entries, b.spool = some entries → b.putBatchDone = true ∧
    ∃ manifests : List ManifestWrite,
      entries = b.pendingEntries ++ manifests.map (·.entry sha256)

section Steps

variable {sha256 : Sha256} {b b' : WebBackend} {us us' : List ClaimedPut} {i : ℕ}
  {u u' : ClaimedPut}

lemma map_put_eq (h : List.Forall₂ Goes us us') : us'.map (·.put) = us.map (·.put) := by
  induction h with
  | nil => rfl
  | cons hu _ ih => rw [List.map_cons, List.map_cons, hu.put, ih]

lemma map_hash_eq (h : List.Forall₂ Goes us us') :
    us'.map (·.put.hash) = us.map (·.put.hash) := by
  have hhash := congrArg (List.map fun p : PendingPut => p.hash) (map_put_eq h)
  rwa [List.map_map, List.map_map] at hhash

lemma holder_of_goes (h : List.Forall₂ Goes us us') {n : ℕ}
    (hus : ∀ u ∈ us, n ≤ u.stage.holder) : ∀ u' ∈ us', n ≤ u'.stage.holder := by
  induction h with
  | nil => simp
  | cons hu _ ih =>
    rw [List.forall_mem_cons] at hus ⊢
    exact ⟨hus.1.trans hu.holder, ih hus.2⟩

lemma purpose_of_goes (h : List.Forall₂ Goes us us') :
    ∀ u' ∈ us', u'.stage ≠ .dropping .closing ∧ u'.stage ≠ .givenUp .closing := by
  induction h with
  | nil => simp
  | cons hu _ ih => exact List.forall_mem_cons.mpr ⟨hu.purpose, ih⟩

/-- Uploads go on, and the map is brought up to date. -/
lemma Accounted.of_goes (h : b.Accounted sha256) (hgoes : List.Forall₂ Goes b.uploads b'.uploads)
    (hpending : ∀ p, p ∈ b'.pending.rows ↔
      ∃ u ∈ b'.uploads, u.put = p ∧ u.stage.isPending = true)
    (haborted : b'.aborted = b.aborted) (hstop : b'.putBatchStop = b.putBatchStop)
    (hdone : b'.putBatchDone = b.putBatchDone) (hspool : b'.spool = b.spool)
    (hentries : b.putBatchDone = true → b'.pendingEntries = b.pendingEntries) :
    b'.Accounted sha256 where
  distinct := by
    rw [map_hash_eq hgoes]
    exact h.distinct
  purpose := purpose_of_goes hgoes
  pending := hpending
  aborted := fun ha => holder_of_goes hgoes (h.aborted (haborted ▸ ha))
  putBatchStop := fun hs => by
    obtain ⟨ha, hus⟩ := h.putBatchStop (hstop ▸ hs)
    exact ⟨haborted.trans ha, holder_of_goes hgoes hus⟩
  putBatchDone := fun hd => by
    obtain ⟨ha, hus⟩ := h.putBatchDone (hdone ▸ hd)
    exact ⟨haborted.trans ha, holder_of_goes hgoes hus⟩
  spool := fun entries hsome => by
    obtain ⟨hd, manifests, hm⟩ := h.spool entries (hspool ▸ hsome)
    exact ⟨hdone.trans hd, manifests, by rw [hentries hd, hm]⟩

/-- Uploads of the same action are the same upload. -/
lemma Accounted.index_eq (h : b.Accounted sha256) {j : ℕ} {v : ClaimedPut}
    (hu : b.uploads[i]? = some u) (hv : b.uploads[j]? = some v)
    (hhash : u.put.hash = v.put.hash) : i = j := by
  have hi : i < (b.uploads.map (·.put.hash)).length := by
    rw [List.length_map]
    exact (List.getElem?_eq_some_iff.mp hu).1
  refine (List.getElem?_inj hi h.distinct).mp ?_
  rw [List.getElem?_map, List.getElem?_map, hu, hv, Option.map_some, Option.map_some, hhash]

lemma uploads_move (hu : b.uploads[i]? = some u) (stage : UploadStage) :
    (b.move i stage).uploads = b.uploads.set i { u with stage := stage } :=
  Parties.modify_eq_set hu _

/-- Every upload may stay where it is. -/
lemma Accounted.goes_refl (h : b.Accounted sha256) (hu : u ∈ b.uploads) : Goes u u :=
  ⟨rfl, le_rfl, h.purpose u hu⟩

/-- One upload goes on. -/
lemma Accounted.goes_move (h : b.Accounted sha256) (hu : b.uploads[i]? = some u)
    {stage : UploadStage} (hgoes : Goes u { u with stage := stage }) :
    List.Forall₂ Goes b.uploads (b.move i stage).uploads := by
  rw [uploads_move hu]
  exact Parties.forall₂_set (fun _ => h.goes_refl) hu hgoes

/-- Uploads that stay on the map, or off it, need no change of the map. -/
lemma pending_of_goes {p : PendingPut} (h : List.Forall₂ Goes us us')
    (hsame : List.Forall₂ (fun u u' => u'.stage.isPending = u.stage.isPending) us us') :
    (∃ u' ∈ us', u'.put = p ∧ u'.stage.isPending = true) ↔
      ∃ u ∈ us, u.put = p ∧ u.stage.isPending = true := by
  induction h with
  | nil => rfl
  | cons hu _ ih =>
    rw [List.forall₂_cons] at hsame
    rw [List.exists_mem_cons_iff, List.exists_mem_cons_iff, hu.put, hsame.1, ih hsame.2]

/-- An upload that is neither tracked nor settled moves. -/
lemma Accounted.move (h : b.Accounted sha256) (hu : b.uploads[i]? = some u)
    {stage stage' : UploadStage} (hstage : u.stage = stage) (hholder : stage.holder ≤ stage'.holder)
    (hpurpose : stage' ≠ .dropping .closing ∧ stage' ≠ .givenUp .closing)
    (hpending : stage'.isPending = stage.isPending) : (b.move i stage').Accounted sha256 := by
  subst hstage
  have hgoes : Goes u { u with stage := stage' } := ⟨rfl, hholder, hpurpose⟩
  have hall := h.goes_move hu hgoes
  refine h.of_goes hall ?_ rfl rfl rfl rfl fun _ => rfl
  intro p
  rw [pending_of_goes hall, ← h.pending p]
  · rfl
  · rw [uploads_move hu]
    exact Parties.forall₂_set (r := fun u u' => u'.stage.isPending = u.stage.isPending)
      (b := { u with stage := stage' }) (fun _ _ => rfl) hu hpending

/-- After a change, the other uploads are those of other actions. -/
lemma Accounted.exists_mem_set (h : b.Accounted sha256) (hu : b.uploads[i]? = some u)
    (u' : ClaimedPut) (q : ClaimedPut → Prop) :
    (∃ v ∈ b.uploads.set i u', q v) ↔
      q u' ∨ ∃ v ∈ b.uploads, v.put.hash ≠ u.put.hash ∧ q v := by
  constructor
  · rintro ⟨v, hv, hq⟩
    obtain ⟨j, hj⟩ := List.mem_iff_getElem?.mp hv
    rw [Parties.getElem?_set hu] at hj
    split_ifs at hj with hji
    · obtain rfl := Option.some.inj hj
      exact Or.inl hq
    · exact Or.inr ⟨v, List.mem_of_getElem? hj, fun hhash => hji (h.index_eq hj hu hhash), hq⟩
  · rintro (hq | ⟨v, hv, hne, hq⟩)
    · refine ⟨u', List.mem_iff_getElem?.mpr ⟨i, ?_⟩, hq⟩
      rw [Parties.getElem?_set hu, if_pos rfl]
    · obtain ⟨j, hj⟩ := List.mem_iff_getElem?.mp hv
      have hji : j ≠ i := by
        rintro rfl
        obtain rfl := Option.some.inj (hu.symm.trans hj)
        exact hne rfl
      refine ⟨v, List.mem_iff_getElem?.mpr ⟨j, ?_⟩, hq⟩
      rw [Parties.getElem?_set hu, if_neg hji, hj]

/-- An upload is settled. -/
lemma Accounted.settle_move (h : b.Accounted sha256) (hu : b.uploads[i]? = some u)
    {stage stage' : UploadStage} (hstage : u.stage = stage) (hholder : stage.holder < 3)
    (hsettled : stage'.holder = 3 ∧ stage'.isPending = false)
    (hpurpose : stage' ≠ .dropping .closing ∧ stage' ≠ .givenUp .closing) :
    ((b.settle u.put.hash).move i stage').Accounted sha256 := by
  subst hstage
  have hgoes : Goes u { u with stage := stage' } := ⟨rfl, hsettled.1 ▸ hholder.le, hpurpose⟩
  refine h.of_goes (h.goes_move hu hgoes) ?_ rfl rfl rfl rfl ?_
  · intro p
    change p ∈ (b.pending.erase u.put.hash).rows ↔ ∃ v ∈ (b.move i stage').uploads, _
    rw [Table.mem_erase, h.pending p, uploads_move hu, h.exists_mem_set hu]
    constructor
    · rintro ⟨⟨v, hv, rfl, hvp⟩, hne⟩
      exact Or.inr ⟨v, hv, hne, rfl, hvp⟩
    · rintro (⟨-, hfalse⟩ | ⟨v, hv, hne, rfl, hvp⟩)
      · rw [hsettled.2] at hfalse
        cases hfalse
      · exact ⟨⟨v, hv, rfl, hvp⟩, hne⟩
  · intro hdone
    have hthree := (h.putBatchDone hdone).2 u (List.mem_of_getElem? hu)
    omega

/-- An upload is tracked. -/
lemma Accounted.track_move (h : b.Accounted sha256) (hu : b.uploads[i]? = some u)
    (hstage : u.stage = .claimed) : ((b.track u.put).move i .tracked).Accounted sha256 := by
  have hgoes : Goes u { u with stage := .tracked } :=
    ⟨rfl, by rw [hstage]; exact le_rfl, by simp⟩
  refine h.of_goes (h.goes_move hu hgoes) ?_ rfl rfl rfl rfl ?_
  · intro p
    change p ∈ (b.pending.put 0 u.put).rows ↔ ∃ v ∈ (b.move i .tracked).uploads, _
    rw [Table.mem_put, h.pending p, uploads_move hu, h.exists_mem_set hu]
    constructor
    · rintro (rfl | ⟨⟨v, hv, rfl, hvp⟩, hne⟩)
      · exact Or.inl ⟨rfl, rfl⟩
      · exact Or.inr ⟨v, hv, hne, rfl, hvp⟩
    · rintro (⟨rfl, -⟩ | ⟨v, hv, hne, rfl, hvp⟩)
      · exact Or.inl rfl
      · exact Or.inr ⟨⟨v, hv, rfl, hvp⟩, hne⟩
  · intro hdone
    have hthree := (h.putBatchDone hdone).2 u (List.mem_of_getElem? hu)
    rw [hstage] at hthree
    cases hthree

/-- The claims do not matter for the map. -/
lemma Accounted.of_keys (h : b.Accounted sha256) (keys : Hash → Bool) :
    ({ b with keys := keys } : WebBackend).Accounted sha256 :=
  ⟨h.distinct, h.purpose, h.pending, h.aborted, h.putBatchStop, h.putBatchDone, h.spool⟩

/-- Whatever a goroutine does with its upload, the map and the stages agree. -/
lemma Accounted.advances (h : b.Accounted sha256) (hu : b.uploads[i]? = some u)
    (ha : Advances b i u b') : b'.Accounted sha256 := by
  have hmem : u ∈ b.uploads := List.mem_of_getElem? hu
  cases ha with
  | track hstage => exact h.track_move hu hstage
  | move hstage keys hholder hpurpose hpending =>
    exact (h.of_keys keys).move hu hstage hholder hpurpose hpending
  | settle hstage hholder hsettled hpurpose =>
    exact h.settle_move hu hstage hholder hsettled (hpurpose (hstage ▸ (h.purpose u hmem).1))
  | stop hstop =>
    -- `closeHandOff` waits for the calls of `Put` and for the workers before it stops anything.
    obtain ⟨hstage, hstopped⟩ | ⟨hstage, haborted⟩ := hstop
    · have htwo := (h.putBatchStop hstopped).2 u hmem
      simp [hstage, UploadStage.holder] at htwo
    · have hone := h.aborted haborted u hmem
      simp [hstage, UploadStage.holder] at hone

/-- A step of the coalescer or of a batch moves uploads that stay on the map. -/
structure Sends (f : ClaimedPut → ClaimedPut) : Prop where
  /-- An upload goes on. -/
  goes : ∀ u, u.stage ≠ .dropping .closing ∧ u.stage ≠ .givenUp .closing → Goes u (f u)
  /-- It stays on the map, or off it. -/
  isPending : ∀ u, (f u).stage.isPending = u.stage.isPending

/-- Only the uploads of one stage move. -/
lemma Sends.of_stage {f : ClaimedPut → ClaimedPut} (stage : UploadStage)
    (hthis : ∀ u, u.stage = stage → Goes u (f u) ∧ (f u).stage.isPending = stage.isPending)
    (hother : ∀ u, u.stage ≠ stage → f u = u) : Sends f where
  goes := fun u hu => by
    by_cases hstage : u.stage = stage
    · exact (hthis u hstage).1
    · rw [hother u hstage]
      exact ⟨rfl, le_rfl, hu⟩
  isPending := fun u => by
    by_cases hstage : u.stage = stage
    · rw [(hthis u hstage).2, hstage]
    · rw [hother u hstage]

lemma sends_flushed (batch : ℕ) : Sends (flushed batch) := by
  refine .of_stage .coalescing ?_ fun u hu => if_neg hu
  intro u hu
  rw [flushed, if_pos hu]
  exact ⟨⟨rfl, by rw [hu]; exact le_rfl, by simp⟩, rfl⟩

lemma sends_answeredPut (keyPrefix : Bytes) (batch : ℕ) (a : BatchPutAnswer) :
    Sends (answeredPut keyPrefix batch a) := by
  refine .of_stage (.sending batch) ?_ fun u hu => if_neg hu
  intro u hu
  unfold answeredPut
  rw [if_pos hu]
  cases a <;> exact ⟨⟨rfl, by rw [hu]; exact le_rfl, by simp⟩, rfl⟩

/-- The uploads that are sent go on. -/
lemma Accounted.goes_sends (h : b.Accounted sha256) {f : ClaimedPut → ClaimedPut}
    (hf : Sends f) : List.Forall₂ Goes b.uploads (b.uploads.map f) := by
  rw [List.forall₂_map_right_iff, List.forall₂_same]
  exact fun u hu => hf.goes u (h.purpose u hu)

/-- The coalescer and its batches leave the map alone. -/
lemma Accounted.sends (h : b.Accounted sha256) {f : ClaimedPut → ClaimedPut} (hf : Sends f)
    (batches : ℕ) (unsupported : Bool) :
    ({ b with
      uploads := b.uploads.map f
      batches := batches
      batchPutUnsupported := unsupported } : WebBackend).Accounted sha256 := by
  have hall := h.goes_sends hf
  refine h.of_goes hall ?_ rfl rfl rfl rfl fun _ => rfl
  intro p
  rw [pending_of_goes hall, ← h.pending p]
  rw [List.forall₂_map_right_iff, List.forall₂_same]
  exact fun u _ => hf.isPending u

/-- An upload is claimed while the calls of `Put` go on. -/
lemma Accounted.enqueuePut (h : b.Accounted sha256) (hopen : b.aborted = false)
    {actionID outputID data path : Bytes}
    (honce : ∀ hash ∈ parseActionHash actionID, b.keys hash = false →
      hash ∉ b.uploads.map (·.put.hash)) :
    (b.enqueuePut actionID outputID data path).Accounted sha256 := by
  unfold WebBackend.enqueuePut
  cases hparse : parseActionHash actionID with
  | none => exact h
  | some hash =>
    dsimp only
    split_ifs with hknown
    · exact h
    have hfresh := honce hash hparse (by simpa using hknown)
    have hstop : b.putBatchStop ≠ true := fun hs => by simp [(h.putBatchStop hs).1] at hopen
    have hdone : b.putBatchDone ≠ true := fun hd => by simp [(h.putBatchDone hd).1] at hopen
    constructor
    case distinct =>
      rw [List.map_append, List.map_singleton, ← List.concat_eq_append]
      exact h.distinct.concat hfresh
    case purpose =>
      simp only [List.forall_mem_append, List.forall_mem_singleton]
      exact ⟨h.purpose, by simp⟩
    case pending =>
      intro p
      simp only [List.mem_append, or_and_right, exists_or, List.mem_singleton, exists_eq_left]
      rw [h.pending p]
      simp [UploadStage.isPending]
    case aborted => exact fun ha => absurd ha (by simp [hopen])
    case putBatchStop => exact fun hs => absurd hs hstop
    case putBatchDone => exact fun hd => absurd hd hdone
    case spool => exact fun entries hsome => absurd (h.spool entries hsome).1 hdone

/-- Every step keeps the map and the stages in agreement. -/
lemma Accounted.step {keyPrefix : Bytes} {l : Label} (h : b.Accounted sha256)
    (honce : b.ClaimsOnce l) (hstep : b' ∈ b.step sha256 keyPrefix l) : b'.Accounted sha256 := by
  cases l with
  | put actionID outputID data =>
    simp only [WebBackend.step, Option.mem_def] at hstep
    split_ifs at hstep with haborted
    obtain rfl := Option.some.inj hstep
    exact h.enqueuePut (by simpa using haborted) honce
  | putFile actionID outputID path =>
    simp only [WebBackend.step, Option.mem_def] at hstep
    split_ifs at hstep with haborted hpath
    · obtain rfl := Option.some.inj hstep
      exact h
    · obtain rfl := Option.some.inj hstep
      exact h.enqueuePut (by simpa using haborted) (honce hpath)
  | index keys =>
    obtain rfl := Option.some.inj hstep
    exact h.of_keys keys
  | act i a =>
    obtain ⟨u, hu, ha⟩ := Option.bind_eq_some_iff.mp hstep
    exact h.advances hu (advances_of_advance ha)
  | flush =>
    obtain rfl := Option.some.inj hstep
    exact h.sends (sends_flushed _) _ _
  | answer batch a =>
    obtain rfl := Option.some.inj hstep
    exact h.sends (sends_answeredPut keyPrefix batch a) _ _
  | abort =>
    simp only [WebBackend.step, Option.mem_def] at hstep
    split_ifs at hstep with hreturned
    obtain rfl := Option.some.inj hstep
    exact { h with
      aborted := fun _ => hreturned
      putBatchStop := fun hs => ⟨rfl, (h.putBatchStop hs).2⟩
      putBatchDone := fun hd => ⟨rfl, (h.putBatchDone hd).2⟩ }
  | stopCoalescer =>
    simp only [WebBackend.step, Option.mem_def] at hstep
    split_ifs at hstep with hstopped
    obtain rfl := Option.some.inj hstep
    exact { h with putBatchStop := fun _ => hstopped }
  | coalescerDone =>
    simp only [WebBackend.step, Option.mem_def] at hstep
    split_ifs at hstep with hstopped
    obtain rfl := Option.some.inj hstep
    exact { h with
      putBatchDone := fun _ => ⟨(h.putBatchStop hstopped.1).1, hstopped.2⟩
      spool := fun entries hsome => ⟨rfl, (h.spool entries hsome).2⟩ }
  | handOff manifests =>
    simp only [WebBackend.step, Option.mem_def] at hstep
    split_ifs at hstep with hdone
    obtain rfl := Option.some.inj hstep
    refine { h with spool := fun entries hsome => ⟨hdone, manifests, ?_⟩ }
    exact (Option.some.inj hsome).symm

lemma map_put_move (b : WebBackend) (i : ℕ) (stage : UploadStage) :
    (b.move i stage).uploads.map (·.put) = b.uploads.map (·.put) := by
  refine List.ext_getElem? ?_
  intro j
  simp only [move, List.getElem?_map, List.getElem?_modify]
  split_ifs <;> simp [Function.comp_def]

/-- A goroutine changes no upload. -/
lemma map_put_advances (ha : Advances b i u b') :
    b'.uploads.map (·.put) = b.uploads.map (·.put) := by
  cases ha <;> exact map_put_move _ _ _

/-- A call adds the upload that it asks for. -/
lemma map_put_enqueuePut (b : WebBackend) (actionID outputID data path : Bytes) :
    (b.enqueuePut actionID outputID data path).uploads.map (·.put) = b.uploads.map (·.put) ∨
      ∃ h ∈ parseActionHash actionID,
        (b.enqueuePut actionID outputID data path).uploads.map (·.put) =
          b.uploads.map (·.put) ++ [⟨h, actionID, outputID, path, data⟩] := by
  unfold WebBackend.enqueuePut
  cases hparse : parseActionHash actionID with
  | none => exact Or.inl rfl
  | some hash =>
    dsimp only
    split_ifs
    · exact Or.inl rfl
    · exact Or.inr ⟨hash, rfl, List.map_append⟩

/-- A step keeps the uploads and adds at most one, which its call asks for. -/
lemma Accounted.map_put_step {keyPrefix : Bytes} {l : Label} (h : b.Accounted sha256)
    (hstep : b' ∈ b.step sha256 keyPrefix l) :
    b'.uploads.map (·.put) = b.uploads.map (·.put) ∨
      ∃ p, CalledBy p l ∧ b'.uploads.map (·.put) = b.uploads.map (·.put) ++ [p] := by
  cases l with
  | put actionID outputID data =>
    simp only [WebBackend.step, Option.mem_def] at hstep
    split_ifs at hstep
    obtain rfl := Option.some.inj hstep
    refine (map_put_enqueuePut b actionID outputID data []).imp_right ?_
    rintro ⟨hash, hparse, hmap⟩
    exact ⟨_, ⟨hash, hparse, rfl⟩, hmap⟩
  | putFile actionID outputID path =>
    simp only [WebBackend.step, Option.mem_def] at hstep
    split_ifs at hstep with haborted hpath
    · obtain rfl := Option.some.inj hstep
      exact Or.inl rfl
    · obtain rfl := Option.some.inj hstep
      refine (map_put_enqueuePut b actionID outputID [] path).imp_right ?_
      rintro ⟨hash, hparse, hmap⟩
      exact ⟨_, ⟨hpath, hash, hparse, rfl⟩, hmap⟩
  | act i a =>
    obtain ⟨u, -, ha⟩ := Option.bind_eq_some_iff.mp hstep
    exact Or.inl (map_put_advances (advances_of_advance ha))
  | flush =>
    obtain rfl := Option.some.inj hstep
    exact Or.inl (map_put_eq (h.goes_sends (sends_flushed _)))
  | answer batch a =>
    obtain rfl := Option.some.inj hstep
    exact Or.inl (map_put_eq (h.goes_sends (sends_answeredPut keyPrefix batch a)))
  | index keys =>
    obtain rfl := Option.some.inj hstep
    exact Or.inl rfl
  | abort | stopCoalescer | coalescerDone | handOff manifests =>
    simp only [WebBackend.step, Option.mem_def] at hstep
    split_ifs at hstep
    obtain rfl := Option.some.inj hstep
    exact Or.inl rfl

/-- Every upload is asked for by a call of the run. -/
def Asked (ls : List Label) (b : WebBackend) : Prop :=
  ∀ p ∈ b.uploads.map (·.put), ∃ l ∈ ls, CalledBy p l

lemma Asked.step {keyPrefix : Bytes} {ls : List Label} {l : Label} (hasked : b.Asked ls)
    (h : b.Accounted sha256) (hl : l ∈ ls) (hstep : b' ∈ b.step sha256 keyPrefix l) :
    b'.Asked ls := by
  obtain hsame | ⟨p, hp, hadd⟩ := h.map_put_step hstep
  · rw [Asked, hsame]
    exact hasked
  · rw [Asked, hadd]
    simp only [List.forall_mem_append, List.forall_mem_singleton]
    exact ⟨hasked, l, hl, hp⟩

lemma accounted_start (keys : Hash → Bool) : (start keys).Accounted sha256 where
  distinct := List.nodup_nil
  purpose := by simp [start]
  pending := by simp [start, Table.empty]
  aborted := by simp [start]
  putBatchStop := by simp [start]
  putBatchDone := by simp [start]
  spool := by simp [start]

/-- When nobody is at work, the map has what is neither confirmed nor given up on purpose. -/
lemma Accounted.isPending_eq_isOwed (h : b.Accounted sha256) (hdone : b.putBatchDone = true)
    (hu : u ∈ b.uploads) : u.stage.isPending = u.stage.isOwed := by
  have hthree := (h.putBatchDone hdone).2 u hu
  have hpurpose := (h.purpose u hu).2
  cases hstage : u.stage with
  | givenUp reason =>
    rw [hstage] at hpurpose
    cases reason <;> simp_all [UploadStage.isPending, UploadStage.isOwed]
  | single sender => cases sender <;> simp [hstage, UploadStage.holder] at hthree
  | unconfirmed | confirmed => rfl
  | _ => simp [hstage, UploadStage.holder] at hthree

/-- The rows of the map are the uploads that are owed. -/
lemma Accounted.rows_perm (h : b.Accounted sha256) (hdone : b.putBatchDone = true) :
    b.pending.rows.Perm ((b.uploads.filter (·.stage.isOwed)).map (·.put)) := by
  have hrows : b.pending.rows.Nodup := b.pending.distinct.of_map _
  have howed : ((b.uploads.filter (·.stage.isOwed)).map (·.put)).Nodup := by
    refine List.Nodup.of_map (fun p : PendingPut => p.hash) ?_
    rw [List.map_map]
    exact h.distinct.sublist (List.filter_sublist.map _)
  rw [List.perm_ext_iff_of_nodup hrows howed]
  intro p
  simp only [h.pending p, List.mem_map, List.mem_filter]
  constructor
  · rintro ⟨u, hu, rfl, hpending⟩
    exact ⟨u, ⟨hu, h.isPending_eq_isOwed hdone hu ▸ hpending⟩, rfl⟩
  · rintro ⟨u, ⟨hu, howes⟩, rfl⟩
    exact ⟨u, hu, rfl, (h.isPending_eq_isOwed hdone hu).trans howes⟩

/-- The entries of a spool that are for uploads. -/
lemma filter_spool (rows : List PendingPut) (manifests : List ManifestWrite) :
    (rows.map (·.entry) ++ manifests.map (·.entry sha256)).filter (!·.replace) =
      rows.map (·.entry) := by
  rw [List.filter_append, List.filter_map, List.filter_map]
  simp [Function.comp_def, PendingPut.entry, ManifestWrite.entry]

end Steps

/-- In every run in which each action is claimed at most once, whatever the answers of the server
are and wherever the abort finds the uploads, the entries of the spool that are for uploads are
those of the claimed uploads that were neither confirmed nor given up on purpose, each of them once
and as its call has it. -/
theorem handOff_exact (sha256 : Sha256) (keyPrefix : Bytes) (keys : Hash → Bool)
    (ls : List Label) (t : WebBackend) (entries : List SpoolEntry)
    (honce : Guarded (step sha256 keyPrefix) ClaimsOnce (start keys) ls)
    (hrun : run (step sha256 keyPrefix) (start keys) ls = some t)
    (hspool : t.spool = some entries) :
    (∀ u ∈ t.uploads, ∃ l ∈ ls, CalledBy u.put l) ∧ (t.uploads.map (·.put.hash)).Nodup ∧
      (entries.filter (!·.replace)).Perm
        ((t.uploads.filter (·.stage.isOwed)).map (·.put.entry)) := by
  obtain ⟨h, hasked⟩ : t.Accounted sha256 ∧ t.Asked ls := by
    refine run_invariant (I := fun b => b.Accounted sha256 ∧ b.Asked ls)
      ?_ ⟨accounted_start keys, ?_⟩
      (honce.and_forall fun _ hl => hl) hrun
    · intro s l s' hs hl hstep
      exact ⟨hs.1.step hl.1 hstep, hs.2.step hs.1 hl.2 hstep⟩
    · simp [Asked, start]
  obtain ⟨hdone, manifests, rfl⟩ := h.spool entries hspool
  refine ⟨fun u hu => hasked u.put (List.mem_map_of_mem hu), h.distinct, ?_⟩
  rw [pendingEntries, filter_spool]
  have hperm := (h.rows_perm hdone).map (·.entry)
  rwa [List.map_map] at hperm

/-- Three uploads: the first is confirmed, the second still waits for a worker when the backend is
closed, and the file of the third cannot be read. -/
def threeUploads : List Label :=
  [.put (ascii "aa") (ascii "01") [1], .act 0 .track, .act 0 .submit, .act 0 .start,
    .act 0 .checkAbort, .put (ascii "bb") (ascii "02") [2], .act 0 (.prepare none some),
    .act 1 .track, .act 0 .enqueue, .putFile (ascii "cc") (ascii "03") (ascii "body"),
    .act 0 .receive, .flush, .act 1 .submit, .act 2 .track, .act 2 .submit, .act 2 .start,
    .act 2 .checkAbort, .act 2 (.prepare none some),
    .answer 0 (.results [⟨ascii "v1aa", .stored⟩]), .abort, .act 2 .drop, .act 1 .start,
    .act 1 .checkAbort, .stopCoalescer, .act 0 .note, .coalescerDone,
    .handOff [⟨ascii "dd", [4]⟩]]

theorem handOff_exact_threeUploads :
    ∃ t, run (step zeroDigest []) (start fun _ => false) threeUploads = some t ∧
      t.spool = some [⟨ascii "bb", ascii "02", [], [2], false⟩,
        ManifestWrite.entry zeroDigest ⟨ascii "dd", [4]⟩] ∧
      List.Perm [⟨ascii "bb", ascii "02", [], [2], false⟩]
        ((t.uploads.filter (·.stage.isOwed)).map (·.put.entry)) := by
  have honce : Guarded (step zeroDigest []) ClaimsOnce (start fun _ => false) threeUploads := by
    decide +kernel
  obtain ⟨t, ht, hspool⟩ : ∃ t ∈ run (step zeroDigest []) (start fun _ => false) threeUploads,
      t.spool = some [⟨ascii "bb", ascii "02", [], [2], false⟩,
        ManifestWrite.entry zeroDigest ⟨ascii "dd", [4]⟩] := by
    decide +kernel
  exact ⟨t, ht, hspool, (handOff_exact zeroDigest [] _ threeUploads t _ honce ht hspool).2.2⟩

end WebBackend

end GoBuildCache
