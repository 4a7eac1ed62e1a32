import GoBuildCache.Client.IndexParse
import GoBuildCache.Client.Uploads
import GoBuildCache.Foundation.Parties
import GoBuildCache.Foundation.Transition

/-!
# Claims and batches

What keeps two uploads of one action out of the same batch is the claim in the set of known keys:
`enqueuePut` takes an action in only if the set does not have it, and adds it. The set holds the
leading bits of a hash, so a claim is one of all hashes with the same index key. A claim is dropped
when the upload fails, but also when the server says that it does not have the action
(`reclaimAbsent`), when a body that it has is refused, and by `ForgetStale`. None of these asks
whether the upload has been sent, and a claim that is dropped too early lets a second upload of the
action into the batch (`batch_names_key_twice`). If every claim is dropped only when no other upload
of its index key waits to be sent, no batch names a key twice (`batch_names_keys_once`).
-/

open ByteString Transition

namespace GoBuildCache

/-- The upload has been claimed, and is not in a batch yet. -/
def UploadStage.isWaiting : UploadStage → Bool
  | claimed | tracked | queued | started | preparing | offered | enqueued | coalescing => true
  | dropping _ | sending _ | answered _ | single _ | unconfirmed | confirmed | givenUp _ => false

namespace WebBackend

/-- What can happen to claims and uploads. -/
inductive ClaimLabel where
  /-- An upload is asked for, or goes on. -/
  | upload (l : Label)
  /-- The server does not have an action. -/
  | reclaimAbsent (h : Hash)
  /-- The body that the server has for an action is refused. -/
  | refuseBody (h : Hash)
  /-- `ForgetStale` is called. -/
  | forgetStale (actionID : Bytes)

/-- The set of known keys holds `indexKey` of every hash: all hashes with the key of `h` are claimed
or not, as `h` is. -/
def spread (indexKey : Hash → IndexKey) (h : Hash) (b : WebBackend) : WebBackend :=
  { b with keys := fun x => if indexKey x = indexKey h then b.keys h else b.keys x }

/-- Drops the claim of an index key. -/
def dropKey (indexKey : Hash → IndexKey) (h : Hash) (b : WebBackend) : WebBackend :=
  spread indexKey h (b.removeClaimed h)

/-- The action whose claim a step can change. -/
def claimOf (b : WebBackend) : Label → Option Hash
  | .put actionID _ _ | .putFile actionID _ _ => parseActionHash actionID
  | .act i _ => (b.uploads[i]?).map (·.put.hash)
  | .index _ | .flush | .answer _ _ | .abort | .stopCoalescer | .coalescerDone | .handOff _ => none

/-- One step. The set of known keys changes only through claims. -/
def claimStep (sha256 : Sha256) (keyPrefix : Bytes) (indexKey : Hash → IndexKey) (b : WebBackend) :
    ClaimLabel → Option WebBackend
  | .upload (.index _) => none
  | .upload l =>
    (step sha256 keyPrefix b l).map fun b' =>
      match b.claimOf l with
      | some h => spread indexKey h b'
      | none => b'
  | .reclaimAbsent h | .refuseBody h => some (dropKey indexKey h b)
  | .forgetStale actionID =>
    some (match parseActionHash actionID with
      | some h => dropKey indexKey h b
      | none => b)

/-- The keys in the tar of a batch, in the manifest and as names of the data. -/
def batchKeys (keyPrefix : Bytes) (b : WebBackend) (batch : ℕ) : List Key :=
  (b.uploads.filter (·.stage = .sending batch)).map fun u => key keyPrefix u.put.actionID

/-- No upload with the index key of an action waits to be sent. -/
def NoneWaiting (indexKey : Hash → IndexKey) (b : WebBackend) (h : Hash) : Prop :=
  ∀ u ∈ b.uploads, u.stage.isWaiting = true → indexKey u.put.hash ≠ indexKey h

instance (indexKey : Hash → IndexKey) (b : WebBackend) (h : Hash) :
    Decidable (b.NoneWaiting indexKey h) :=
  inferInstanceAs (Decidable (∀ _ ∈ _, _))

/-- The goroutine of an upload finds that it has failed. -/
def failed (u : ClaimedPut) : Action → Bool
  | .note => u.stage = .answered false
  | .answerSingle ok => !ok
  | _ => false

/-- A claim is dropped only when no upload of its index key waits to be sent. -/
def KeepsWaiting (indexKey : Hash → IndexKey) (b : WebBackend) : ClaimLabel → Prop
  | .reclaimAbsent h | .refuseBody h => b.NoneWaiting indexKey h
  | .forgetStale actionID => ∀ h ∈ parseActionHash actionID, b.NoneWaiting indexKey h
  | .upload (.act i a) =>
    ∀ u ∈ b.uploads[i]?, failed u a = true → b.NoneWaiting indexKey u.put.hash
  | .upload _ => True

instance (indexKey : Hash → IndexKey) (b : WebBackend) :
    (l : ClaimLabel) → Decidable (b.KeepsWaiting indexKey l)
  | .reclaimAbsent h | .refuseBody h => inferInstanceAs (Decidable (b.NoneWaiting indexKey h))
  | .forgetStale actionID =>
    inferInstanceAs (Decidable (∀ h ∈ parseActionHash actionID, b.NoneWaiting indexKey h))
  | .upload (.act i a) =>
    inferInstanceAs (Decidable (∀ u ∈ b.uploads[i]?, failed u a = true →
      b.NoneWaiting indexKey u.put.hash))
  | .upload (.put ..) | .upload (.putFile ..) | .upload (.index _) | .upload .flush
  | .upload (.answer ..) | .upload .abort | .upload .stopCoalescer | .upload .coalescerDone
  | .upload (.handOff _) => isTrue trivial

/-! ## What a goroutine does -/

/-- An upload does not begin to wait, and is not put into a batch. -/
structure Thins (stage stage' : UploadStage) : Prop where
  /-- It has waited before. -/
  waiting : stage'.isWaiting = true → stage.isWaiting = true
  /-- It has been in the batch before. -/
  sending : ∀ n, stage' = .sending n → stage = .sending n

/-- What a goroutine does to the stage of its upload and to the claims. -/
structure Moves (b : WebBackend) (i : ℕ) (u : ClaimedPut) (a : Action) (stage : UploadStage)
    (b' : WebBackend) : Prop where
  /-- The upload is at another stage. -/
  uploads : b'.uploads = b.uploads.modify i fun u => { u with stage := stage }
  /-- No batch is sent. -/
  batches : b'.batches = b.batches
  /-- The upload does not begin to wait. -/
  thins : Thins u.stage stage
  /-- The claim of the upload stays, or goes when the upload does not wait any more. -/
  keys : b'.keys = b.keys ∨ b'.keys = Function.update b.keys u.put.hash false ∧
    stage.isWaiting = false ∧ (u.stage.isWaiting = true ∨ failed u a = true)

variable {b b' : WebBackend} {i : ℕ} {u : ClaimedPut}

/-- The goroutine of an upload hands it on. -/
lemma moves_of_stage {a : Action} {stage : UploadStage} (hthins : Thins u.stage stage) :
    Moves b i u a stage (b.move i stage) :=
  ⟨rfl, rfl, hthins, Or.inl rfl⟩

/-- The goroutine of an upload drops its claim. -/
lemma moves_of_drop {a : Action} {stage : UploadStage} (hthins : Thins u.stage stage)
    (hstage : stage.isWaiting = false) (hfailed : u.stage.isWaiting = true ∨ failed u a = true) :
    Moves b i u a stage ((b.removeClaimed u.put.hash).move i stage) :=
  ⟨rfl, rfl, hthins, Or.inr ⟨rfl, hstage, hfailed⟩⟩

lemma moves_of_advance {a : Action} (ha : b.advance i u a = some b') :
    ∃ stage, Moves b i u a stage b' := by
  cases a with
  | track =>
    simp only [advance] at ha
    split_ifs at ha with hstage
    cases ha
    exact ⟨_, rfl, rfl, by rw [hstage]; exact ⟨fun _ => rfl, nofun⟩, Or.inl rfl⟩
  | submit | start | enqueue | receive =>
    simp only [advance] at ha
    split_ifs at ha with hstage
    cases ha
    exact ⟨_, moves_of_stage (by rw [hstage]; exact ⟨fun _ => rfl, nofun⟩)⟩
  | checkAbort =>
    by_cases hstage : u.stage = .started
    swap
    · simp [advance, hstage] at ha
    simp only [advance, if_pos hstage] at ha
    cases ha
    refine ⟨_, moves_of_stage ?_⟩
    rw [hstage]
    split_ifs
    · exact ⟨nofun, nofun⟩
    · exact ⟨fun _ => rfl, nofun⟩
  | prepare file compress =>
    by_cases hstage : u.stage = .preparing
    swap
    · simp [advance, hstage] at ha
    simp only [advance, if_pos hstage] at ha
    cases hp : GoBuildCache.prepare u.put file compress with
    | error reason =>
      rw [hp] at ha
      cases ha
      exact ⟨_, moves_of_drop ⟨nofun, nofun⟩ rfl (Or.inl (by rw [hstage]; rfl))⟩
    | ok body =>
      rw [hp] at ha
      cases ha
      refine ⟨_, moves_of_stage ?_⟩
      rw [hstage]
      split_ifs
      · exact ⟨nofun, nofun⟩
      · exact ⟨fun _ => rfl, nofun⟩
  | drop =>
    cases hstage : u.stage with
    | dropping reason =>
      simp only [advance, hstage] at ha
      cases ha
      exact ⟨_, rfl, rfl, ⟨nofun, nofun⟩, Or.inl rfl⟩
    | _ => simp [advance, hstage] at ha
  | seeStop =>
    simp only [advance] at ha
    split_ifs at ha with hstop
    cases ha
    refine ⟨_, moves_of_drop ⟨nofun, nofun⟩ rfl (Or.inl ?_)⟩
    rcases hstop with ⟨hstage, -⟩ | ⟨hstage, -⟩ <;> rw [hstage] <;> rfl
  | note =>
    cases hstage : u.stage with
    | answered ok =>
      simp only [advance, hstage] at ha
      cases ok with
      | true =>
        cases ha
        exact ⟨_, rfl, rfl, ⟨nofun, nofun⟩, Or.inl rfl⟩
      | false =>
        cases ha
        exact ⟨_, moves_of_drop ⟨nofun, nofun⟩ rfl (Or.inr (by simp [failed, hstage]))⟩
    | _ => simp [advance, hstage] at ha
  | answerSingle ok =>
    cases hstage : u.stage with
    | single sender =>
      simp only [advance, hstage] at ha
      cases ok with
      | true =>
        cases ha
        exact ⟨_, rfl, rfl, ⟨nofun, nofun⟩, Or.inl rfl⟩
      | false =>
        cases ha
        exact ⟨_, moves_of_drop ⟨nofun, nofun⟩ rfl (Or.inr rfl)⟩
    | _ => simp [advance, hstage] at ha

/-! ## Claims hold uploads apart -/

/-- Two uploads that can be or are in one batch. -/
def Together (stage stage' : UploadStage) : Prop :=
  stage.isWaiting = true ∧ stage'.isWaiting = true ∨
    ∃ n, stage = .sending n ∧ stage' = .sending n

/-- What holds of the claims and the uploads. -/
structure ClaimInv (indexKey : Hash → IndexKey) (b : WebBackend) : Prop where
  /-- A claim is one of an index key. -/
  classes : ∀ x y, indexKey x = indexKey y → b.keys x = b.keys y
  /-- An upload that waits is claimed. -/
  claimed : ∀ u ∈ b.uploads, u.stage.isWaiting = true → b.keys u.put.hash = true
  /-- The action id names the action. -/
  parsed : ∀ u ∈ b.uploads, parseActionHash u.put.actionID = some u.put.hash
  /-- Batches are numbered in their order. -/
  sent : ∀ u ∈ b.uploads, ∀ n, u.stage = .sending n → n < b.batches
  /-- Uploads that can be in one batch have different index keys. -/
  apart : ∀ (i j : ℕ) (u v : ClaimedPut), i ≠ j → b.uploads[i]? = some u →
    b.uploads[j]? = some v → Together u.stage v.stage → indexKey u.put.hash ≠ indexKey v.put.hash

variable {indexKey : Hash → IndexKey} {h : Hash}

lemma Together.of_thins {s₁ s₂ t₁ t₂ : UploadStage} (h : Together t₁ t₂) (h₁ : Thins s₁ t₁)
    (h₂ : Thins s₂ t₂) : Together s₁ s₂ := by
  rcases h with ⟨hw₁, hw₂⟩ | ⟨n, hs₁, hs₂⟩
  · exact Or.inl ⟨h₁.waiting hw₁, h₂.waiting hw₂⟩
  · exact Or.inr ⟨n, h₁.sending n hs₁, h₂.sending n hs₂⟩

lemma Thins.refl (stage : UploadStage) : Thins stage stage :=
  ⟨id, fun _ => id⟩

/-- Claims of other index keys stay when one is spread. -/
lemma spread_classes (hclasses : ∀ x y, indexKey x = indexKey y → b.keys x = b.keys y)
    (hkeys : ∀ x, indexKey x ≠ indexKey h → b'.keys x = b.keys x) :
    ∀ x y, indexKey x = indexKey y →
      (spread indexKey h b').keys x = (spread indexKey h b').keys y := by
  intro x y hxy
  simp only [spread, hxy]
  split_ifs with hy
  · rfl
  · rw [hkeys x (hxy ▸ hy), hkeys y hy, hclasses x y hxy]

/-- A step in which uploads at most stop waiting and no claim of one that waits goes. -/
lemma ClaimInv.thin (hb : b.ClaimInv indexKey)
    (huploads : ∀ (i : ℕ) (v : ClaimedPut), b'.uploads[i]? = some v →
      ∃ u, b.uploads[i]? = some u ∧ v.put = u.put ∧ Thins u.stage v.stage)
    (hbatches : b'.batches = b.batches)
    (hclasses : ∀ x y, indexKey x = indexKey y → b'.keys x = b'.keys y)
    (hclaimed : ∀ v ∈ b'.uploads, v.stage.isWaiting = true → b.keys v.put.hash = true →
      b'.keys v.put.hash = true) : b'.ClaimInv indexKey := by
  have hmem : ∀ v ∈ b'.uploads, ∃ u ∈ b.uploads, v.put = u.put ∧ Thins u.stage v.stage := by
    intro v hv
    obtain ⟨i, hi⟩ := List.mem_iff_getElem?.mp hv
    obtain ⟨u, hu, hput, hthins⟩ := huploads i v hi
    exact ⟨u, List.mem_of_getElem? hu, hput, hthins⟩
  refine ⟨hclasses, ?_, ?_, ?_, ?_⟩
  · intro v hv hwait
    obtain ⟨u, hu, hput, hthins⟩ := hmem v hv
    refine hclaimed v hv hwait ?_
    rw [hput]
    exact hb.claimed u hu (hthins.waiting hwait)
  · intro v hv
    obtain ⟨u, hu, hput, -⟩ := hmem v hv
    rw [hput]
    exact hb.parsed u hu
  · intro v hv n hn
    obtain ⟨u, hu, -, hthins⟩ := hmem v hv
    rw [hbatches]
    exact hb.sent u hu n (hthins.sending n hn)
  · intro i j v w hij hv hw htogether
    obtain ⟨u, hu, hput, hthins⟩ := huploads i v hv
    obtain ⟨u', hu', hput', hthins'⟩ := huploads j w hw
    rw [hput, hput']
    exact hb.apart i j u u' hij hu hu' (htogether.of_thins hthins hthins')

/-- Claims are claims of index keys: nothing changes when one is spread. -/
lemma ClaimInv.spread_self (hb : b.ClaimInv indexKey) (h : Hash) :
    (spread indexKey h b).ClaimInv indexKey := by
  refine hb.thin (fun i v hv => ⟨v, hv, rfl, .refl _⟩) rfl
    (spread_classes hb.classes fun _ _ => rfl) ?_
  intro v hv _ hclaim
  simp only [spread]
  split_ifs with hkey
  · rw [← hb.classes _ _ hkey, hclaim]
  · exact hclaim

/-- A claim is dropped when no upload of its index key waits. -/
lemma ClaimInv.dropKey (hb : b.ClaimInv indexKey) (hnone : b.NoneWaiting indexKey h) :
    (dropKey indexKey h b).ClaimInv indexKey := by
  have hother : ∀ x, indexKey x ≠ indexKey h → (b.removeClaimed h).keys x = b.keys x := by
    intro x hx
    exact Function.update_of_ne (fun heq => hx (congrArg indexKey heq)) ..
  refine hb.thin (fun i v hv => ⟨v, hv, rfl, .refl _⟩) rfl (spread_classes hb.classes hother) ?_
  intro v hv hwait hclaim
  have hne := hnone v hv hwait
  simp only [WebBackend.dropKey, spread, if_neg hne, hother _ hne, hclaim]

/-- A goroutine goes on with its upload. -/
lemma ClaimInv.moves (hb : b.ClaimInv indexKey) (hi : b.uploads[i]? = some u) {a : Action}
    {stage : UploadStage} (hmoves : Moves b i u a stage b')
    (hnone : failed u a = true → b.NoneWaiting indexKey u.put.hash) :
    (spread indexKey u.put.hash b').ClaimInv indexKey := by
  have hother : ∀ x, indexKey x ≠ indexKey u.put.hash → b'.keys x = b.keys x := by
    intro x hx
    rcases hmoves.keys with hkeys | ⟨hkeys, -⟩
    · rw [hkeys]
    · rw [hkeys, Function.update_of_ne fun heq => hx (congrArg indexKey heq)]
  have hset : ∀ j, b'.uploads[j]? =
      if j = i then some { u with stage := stage } else b.uploads[j]? := by
    intro j
    rw [hmoves.uploads, Parties.modify_eq_set hi, Parties.getElem?_set hi]
  refine hb.thin ?_ hmoves.batches (spread_classes hb.classes hother) ?_
  · intro j v hv
    change b'.uploads[j]? = some v at hv
    rw [hset] at hv
    split_ifs at hv with hj
    · cases hv
      exact ⟨u, hj ▸ hi, rfl, hmoves.thins⟩
    · exact ⟨v, hv, rfl, .refl _⟩
  · intro v hv hwait hclaim
    change v ∈ b'.uploads at hv
    simp only [spread]
    split_ifs with hkey
    swap
    · rw [hother _ hkey, hclaim]
    rcases hmoves.keys with hkeys | ⟨-, hstage, hwhy⟩
    · rw [hkeys, ← hb.classes _ _ hkey, hclaim]
    · -- The claim goes: no other upload that waits has the index key.
      exfalso
      obtain ⟨j, hj⟩ := List.mem_iff_getElem?.mp hv
      rw [hset] at hj
      split_ifs at hj with hji
      · cases hj
        rw [hstage] at hwait
        cases hwait
      · rcases hwhy with hwaits | hfailed
        · exact hb.apart j i v u hji hj hi (Or.inl ⟨hwait, hwaits⟩) hkey
        · exact hnone hfailed v (List.mem_of_getElem? hj) hwait hkey

/-- An action that is not known is claimed, and its upload is taken in. -/
lemma ClaimInv.enqueuePut (hb : b.ClaimInv indexKey) {actionID outputID data path : Bytes}
    (hparsed : parseActionHash actionID = some h) :
    (spread indexKey h (b.enqueuePut actionID outputID data path)).ClaimInv indexKey := by
  simp only [WebBackend.enqueuePut, hparsed]
  split_ifs with hknown
  · exact hb.spread_self h
  -- No upload that waits has the index key, or it would be known.
  have hnone : b.NoneWaiting indexKey h := by
    intro v hv hwait hkey
    exact hknown ((hb.classes _ _ hkey).symm.trans (hb.claimed v hv hwait))
  have hother : ∀ x, indexKey x ≠ indexKey h →
      Function.update b.keys h true x = b.keys x := by
    intro x hx
    exact Function.update_of_ne (fun heq => hx (congrArg indexKey heq)) ..
  have hold : ∀ (i : ℕ) (v : ClaimedPut),
      (b.uploads ++ [⟨⟨h, actionID, outputID, path, data⟩, .claimed⟩])[i]? = some v →
      b.uploads[i]? = some v ∨
        i = b.uploads.length ∧ v = ⟨⟨h, actionID, outputID, path, data⟩, .claimed⟩ := by
    intro i v hv
    rw [List.getElem?_append] at hv
    split_ifs at hv with hi
    · exact Or.inl hv
    · obtain ⟨hlt, heq⟩ := List.getElem?_eq_some_iff.mp hv
      simp only [List.length_singleton, Nat.lt_one_iff] at hlt
      simp only [List.getElem_singleton] at heq
      exact Or.inr ⟨by omega, heq.symm⟩
  refine ⟨spread_classes hb.classes hother, ?_, ?_, ?_, ?_⟩
  · intro v hv hwait
    simp only [spread, Function.update_self]
    split_ifs with hkey
    · rfl
    rcases List.mem_append.mp hv with hv | hv
    · rw [hother _ hkey, hb.claimed v hv hwait]
    · rw [List.mem_singleton.mp hv] at hkey
      exact absurd rfl hkey
  · intro v hv
    rcases List.mem_append.mp hv with hv | hv
    · exact hb.parsed v hv
    · rw [List.mem_singleton.mp hv]
      exact hparsed
  · intro v hv n hn
    rcases List.mem_append.mp hv with hv | hv
    · exact hb.sent v hv n hn
    · rw [List.mem_singleton.mp hv] at hn
      cases hn
  · intro i j v w hij hv hw htogether
    rcases hold i v hv with hv | ⟨hi, rfl⟩ <;> rcases hold j w hw with hw | ⟨hj, rfl⟩
    · exact hb.apart i j v w hij hv hw htogether
    · rcases htogether with ⟨hwait, -⟩ | ⟨n, -, hn⟩
      · exact hnone v (List.mem_of_getElem? hv) hwait
      · cases hn
    · rcases htogether with ⟨-, hwait⟩ | ⟨n, hn, -⟩
      · exact (hnone w (List.mem_of_getElem? hw) hwait).symm
      · cases hn
    · exact absurd (hi.trans hj.symm) hij

/-- Two uploads of which one is sent in a new batch wait both, or are sent in the batch both. -/
lemma together_of_flushed {v w : ClaimedPut} (hv : ∀ n, v.stage = .sending n → n < b.batches)
    (hw : ∀ n, w.stage = .sending n → n < b.batches)
    (h : Together (flushed b.batches v).stage (flushed b.batches w).stage) :
    Together v.stage w.stage := by
  by_cases hvs : v.stage = .coalescing <;> by_cases hws : w.stage = .coalescing <;>
    simp only [flushed, hvs, hws, if_true, if_false] at h ⊢
  · exact Or.inl ⟨rfl, rfl⟩
  · rcases h with ⟨hwait, -⟩ | ⟨n, hn, hwn⟩
    · cases hwait
    · cases hn
      exact absurd (hw _ hwn) (lt_irrefl _)
  · rcases h with ⟨-, hwait⟩ | ⟨n, hvn, hn⟩
    · cases hwait
    · cases hn
      exact absurd (hv _ hvn) (lt_irrefl _)
  · exact h

lemma flushed_put (n : ℕ) (u : ClaimedPut) : (flushed n u).put = u.put := by
  unfold flushed
  split_ifs <;> rfl

lemma waiting_of_flushed {n : ℕ} {u : ClaimedPut} (h : (flushed n u).stage.isWaiting = true) :
    u.stage.isWaiting = true := by
  unfold flushed at h
  split_ifs at h with hu
  · cases h
  · exact h

/-- The coalescer sends what it holds. -/
lemma ClaimInv.flush (hb : b.ClaimInv indexKey) :
    ClaimInv indexKey
      { b with uploads := b.uploads.map (flushed b.batches), batches := b.batches + 1 } := by
  refine ⟨hb.classes, ?_, ?_, ?_, ?_⟩
  · intro v hv hwait
    obtain ⟨u, hu, rfl⟩ := List.mem_map.mp hv
    rw [flushed_put]
    exact hb.claimed u hu (waiting_of_flushed hwait)
  · intro v hv
    obtain ⟨u, hu, rfl⟩ := List.mem_map.mp hv
    rw [flushed_put]
    exact hb.parsed u hu
  · intro v hv n hn
    obtain ⟨u, hu, rfl⟩ := List.mem_map.mp hv
    unfold flushed at hn
    split_ifs at hn with hstage
    · cases hn
      exact Nat.lt_succ_self _
    · exact Nat.lt_succ_of_lt (hb.sent u hu n hn)
  · intro i j v w hij hv hw htogether
    rw [List.getElem?_map, Option.map_eq_some_iff] at hv hw
    obtain ⟨v, hv, rfl⟩ := hv
    obtain ⟨w, hw, rfl⟩ := hw
    rw [flushed_put, flushed_put]
    exact hb.apart i j v w hij hv hw (together_of_flushed (hb.sent v (List.mem_of_getElem? hv))
      (hb.sent w (List.mem_of_getElem? hw)) htogether)

/-- An answer takes uploads out of their batch. -/
lemma thins_answeredPut (keyPrefix : Bytes) (n : ℕ) (a : BatchPutAnswer) (u : ClaimedPut) :
    (answeredPut keyPrefix n a u).put = u.put ∧
      Thins u.stage (answeredPut keyPrefix n a u).stage := by
  unfold answeredPut
  split_ifs with hstage
  · cases a <;> exact ⟨rfl, nofun, nofun⟩
  · exact ⟨rfl, .refl _⟩

lemma ClaimInv.answer (hb : b.ClaimInv indexKey) (keyPrefix : Bytes) (n : ℕ) (a : BatchPutAnswer)
    (unsupported : Bool) :
    ClaimInv indexKey
      { b with
        uploads := b.uploads.map (answeredPut keyPrefix n a)
        batchPutUnsupported := unsupported } := by
  refine hb.thin ?_ rfl hb.classes (fun _ _ _ hclaim => hclaim)
  intro i v hv
  rw [List.getElem?_map, Option.map_eq_some_iff] at hv
  obtain ⟨u, hu, rfl⟩ := hv
  exact ⟨u, hu, thins_answeredPut keyPrefix n a u⟩

/-- What neither touches claims nor uploads. -/
lemma ClaimInv.of_eq (hb : b.ClaimInv indexKey) (hkeys : b'.keys = b.keys)
    (huploads : b'.uploads = b.uploads) (hbatches : b'.batches = b.batches) :
    b'.ClaimInv indexKey := by
  refine hb.thin ?_ hbatches (hkeys ▸ hb.classes) (hkeys ▸ fun _ _ _ hclaim => hclaim)
  rw [huploads]
  exact fun i v hv => ⟨v, hv, rfl, .refl _⟩

/-! ## Runs -/

section Steps

variable {sha256 : Sha256} {keyPrefix : Bytes}

/-- An action is asked to be uploaded. -/
lemma ClaimInv.asked (hb : b.ClaimInv indexKey) (actionID outputID data path : Bytes) :
    ClaimInv indexKey (match parseActionHash actionID with
      | some h => spread indexKey h (b.enqueuePut actionID outputID data path)
      | none => b.enqueuePut actionID outputID data path) := by
  cases hparsed : parseActionHash actionID with
  | some h => exact hb.enqueuePut hparsed
  | none =>
    simp only [WebBackend.enqueuePut, hparsed]
    exact hb

/-- One step keeps the uploads that can be in one batch apart. -/
lemma ClaimInv.step {l : ClaimLabel} (hb : b.ClaimInv indexKey) (hl : b.KeepsWaiting indexKey l)
    (hstep : claimStep sha256 keyPrefix indexKey b l = some b') : b'.ClaimInv indexKey := by
  cases l with
  | reclaimAbsent h | refuseBody h =>
    cases hstep
    exact hb.dropKey hl
  | forgetStale actionID =>
    simp only [claimStep, Option.some.injEq] at hstep
    subst hstep
    cases hparsed : parseActionHash actionID with
    | none => exact hb
    | some h => exact hb.dropKey (hl h hparsed)
  | upload l =>
    cases l with
    | index keys => cases hstep
    | put actionID outputID data =>
      simp only [claimStep, WebBackend.step, claimOf, Option.map_eq_some_iff] at hstep
      obtain ⟨b₁, hstep, rfl⟩ := hstep
      split_ifs at hstep
      cases hstep
      exact hb.asked ..
    | putFile actionID outputID path =>
      simp only [claimStep, WebBackend.step, claimOf, Option.map_eq_some_iff] at hstep
      obtain ⟨b₁, hstep, rfl⟩ := hstep
      split_ifs at hstep
      · cases hstep
        cases parseActionHash actionID with
        | none => exact hb
        | some h => exact hb.spread_self h
      · cases hstep
        exact hb.asked ..
    | act i a =>
      simp only [claimStep, WebBackend.step, claimOf, Option.map_eq_some_iff,
        Option.bind_eq_some_iff] at hstep
      obtain ⟨b₁, ⟨u, hi, ha⟩, rfl⟩ := hstep
      obtain ⟨stage, hmoves⟩ := moves_of_advance ha
      simp only [hi, Option.map_some]
      exact hb.moves hi hmoves (hl u hi)
    | flush =>
      cases hstep
      exact hb.flush
    | answer n a =>
      cases hstep
      exact hb.answer ..
    | abort | stopCoalescer | coalescerDone | handOff manifests =>
      simp only [claimStep, WebBackend.step, claimOf, Option.map_eq_some_iff] at hstep
      obtain ⟨b₁, hstep, rfl⟩ := hstep
      split_ifs at hstep
      cases hstep
      exact hb.of_eq rfl rfl rfl

end Steps

/-- Claims of a set of keys are claims of index keys. -/
lemma claimInv_start (s : KeySet) : (start s.contains).ClaimInv s.key := by
  refine ⟨?_, by simp [start], by simp [start], by simp [start], by simp [start]⟩
  intro x y hxy
  simp only [start, KeySet.contains, hxy]

lemma key_injective (keyPrefix : Bytes) : Function.Injective (key keyPrefix) :=
  fun _ _ h => List.append_cancel_left h

/-- Uploads of one batch have different keys. -/
lemma ClaimInv.nodup_batchKeys (hb : b.ClaimInv indexKey) (keyPrefix : Bytes) (n : ℕ) :
    (b.batchKeys keyPrefix n).Nodup := by
  rw [batchKeys, List.Nodup, List.pairwise_map, List.pairwise_filter, List.pairwise_iff_getElem]
  intro i j hi hj hij hu hv hkey
  have hid := key_injective keyPrefix hkey
  refine hb.apart i j b.uploads[i] b.uploads[j] hij.ne (List.getElem?_eq_getElem hi)
    (List.getElem?_eq_getElem hj) (Or.inr ⟨n, by simpa using hu, by simpa using hv⟩) ?_
  -- Equal action ids name one action.
  have hhash := hb.parsed _ (List.getElem_mem hi)
  rw [hid, hb.parsed _ (List.getElem_mem hj)] at hhash
  rw [Option.some.inj hhash]

/-- If every claim is dropped only when no other upload of its index key waits to be sent, no batch
names a key twice. -/
theorem batch_names_keys_once (sha256 : Sha256) (keyPrefix : Bytes) (s : KeySet)
    (ls : List ClaimLabel)
    (hkeeps : Guarded (claimStep sha256 keyPrefix s.key) (KeepsWaiting s.key)
      (start s.contains) ls)
    (hrun : run (claimStep sha256 keyPrefix s.key) (start s.contains) ls = some b) (n : ℕ) :
    (b.batchKeys keyPrefix n).Nodup := by
  have hinv : b.ClaimInv s.key := by
    refine run_invariant ?_ (claimInv_start s) hkeeps hrun
    intro b₁ l b₂ h₁ hl hstep
    exact h₁.step hl hstep
  exact hinv.nodup_batchKeys keyPrefix n

/-- An upload goes from its claim to the coalescer. -/
def toCoalescer (i : ℕ) : List ClaimLabel :=
  [.upload (.act i .track), .upload (.act i .submit), .upload (.act i .start),
    .upload (.act i .checkAbort), .upload (.act i (.prepare none some)),
    .upload (.act i .enqueue), .upload (.act i .receive)]

/-- A batch fails, its upload is asked for again, and goes into a batch with another one whose stale
claim has been forgotten. -/
def secondTry : List ClaimLabel :=
  .upload (.put (ascii "aa") (ascii "01") [1]) :: toCoalescer 0 ++
    [.upload .flush, .upload (.answer 0 .failed), .upload (.act 0 .note),
      .forgetStale (ascii "bb"), .upload (.put (ascii "bb") (ascii "02") [2]),
      .upload (.put (ascii "aa") (ascii "01") [1]), .upload (.put (ascii "aa") (ascii "01") [1])] ++
    toCoalescer 1 ++ toCoalescer 2 ++ [.upload .flush]

theorem batch_names_keys_once_secondTry :
    ∃ b, run (claimStep zeroDigest [] (KeySet.adoptSortedKeys []).key)
        (start (KeySet.adoptSortedKeys []).contains) secondTry = some b ∧
      b.batchKeys [] 1 = [ascii "v1bb", ascii "v1aa"] ∧ (b.batchKeys [] 1).Nodup := by
  obtain ⟨b, hrun, hkeys⟩ :
      ∃ b ∈ run (claimStep zeroDigest [] (KeySet.adoptSortedKeys []).key)
        (start (KeySet.adoptSortedKeys []).contains) secondTry,
        b.batchKeys [] 1 = [ascii "v1bb", ascii "v1aa"] := by
    decide +kernel
  exact ⟨b, hrun, hkeys,
    batch_names_keys_once zeroDigest [] (.adoptSortedKeys []) secondTry (by decide +kernel) hrun 1⟩

/-- The server says that it does not have an action whose upload the coalescer still holds, and the
action is asked to be uploaded again. -/
def droppedClaim : List ClaimLabel :=
  .upload (.put (ascii "aa") (ascii "01") [1]) :: toCoalescer 0 ++
    [.reclaimAbsent (Option.getD (parseActionHash (ascii "aa")) zeroHash),
      .upload (.put (ascii "aa") (ascii "01") [1])] ++
    toCoalescer 1 ++ [.upload .flush]

/-- A batch names a key twice. -/
theorem batch_names_key_twice :
    ∃ b, run (claimStep zeroDigest [] (KeySet.adoptSortedKeys []).key)
        (start (KeySet.adoptSortedKeys []).contains) droppedClaim = some b ∧
      b.batchKeys [] 0 = [ascii "v1aa", ascii "v1aa"] := by
  obtain ⟨b, hrun, hkeys⟩ :
      ∃ b ∈ run (claimStep zeroDigest [] (KeySet.adoptSortedKeys []).key)
        (start (KeySet.adoptSortedKeys []).contains) droppedClaim,
        b.batchKeys [] 0 = [ascii "v1aa", ascii "v1aa"] := by
    decide +kernel
  exact ⟨b, hrun, hkeys⟩

end WebBackend

end GoBuildCache
