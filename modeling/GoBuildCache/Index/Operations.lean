import GoBuildCache.Index.State

/-!
# What operations do to the log and to the cached blobs

Two descriptions cover every operation on the index (`IndexOp`) at once. `IndexOp.change` says what
happens to the log of additions and to the advertised set: they grow by the same hashes, or a new
epoch starts, and a removal or a rebuild always starts one (`IndexOp.newEpoch_of_shrinks`).
`IndexOp.blobsFrom` says where a cached blob can come from. Properties of whole runs of operations
use these and do not look at the operations again.
-/

open SortedList

namespace GoBuildCache

/-- An operation on the index, with what it reads from its environment. -/
inductive IndexOp where
  | put (key : Key) (now : ℤ) (epoch : UInt64)
  | remove (key : Key) (epoch : UInt64)
  | removeKeys (keys : List Key) (epoch : UInt64)
  | applyRebuild (b : IndexBuild) (epoch : UInt64)
  | blobGenForm (form : IndexForm) (clock : Index.BlobClock)
  | deltaForm (start : IndexGen) (form : IndexForm)
  | setBlobInterval (d : Duration)

namespace IndexOp

/-- The index after the operation. -/
def apply (sha256 : Sha256) (idx : Index) : IndexOp → Index
  | put key now epoch => idx.put key now epoch
  | remove key epoch => idx.remove key epoch
  | removeKeys keys epoch => idx.removeKeys keys epoch
  | applyRebuild b epoch => idx.applyRebuild b epoch
  | blobGenForm form clock => (idx.blobGenForm sha256 form clock).2
  | deltaForm _ _ => idx
  | setBlobInterval d => { idx with blobMinInterval := d }

/-- Whether the operation removes a cacheprog key or rebuilds the index. -/
def shrinks : IndexOp → Bool
  | remove key _ => (actionHash key).isSome
  | removeKeys keys _ => keys.filterMap actionHash ≠ []
  | applyRebuild _ _ => true
  | _ => false

/-- The epoch that the operation starts, if it starts one. -/
def newEpoch (idx : Index) : IndexOp → Option UInt64
  | put key _ epoch => if (actionHash key).isSome ∧ idx.addLogFull then some epoch else none
  | remove key epoch => if (actionHash key).isSome then some epoch else none
  | removeKeys keys epoch => if keys.filterMap actionHash ≠ [] then some epoch else none
  | applyRebuild _ epoch => some epoch
  | _ => none

end IndexOp

namespace Index

/-- How an operation may change the log and the advertised set: both grow by the same hashes, or a
new epoch starts. -/
inductive Change (idx idx' : Index) (epoch : Option UInt64) : Prop
  | grow (xs : List Hash) (hepoch : idx'.addEpoch = idx.addEpoch)
      (hadded : idx'.added = idx.added ++ xs)
      (hadv : ∀ h, idx'.Advertises h ↔ idx.Advertises h ∨ h ∈ xs)
  | reset (hepoch : epoch = some idx'.addEpoch)

/-- Nothing the log or the advertised set depends on has changed. -/
lemma Change.same {idx idx' : Index} {epoch : Option UInt64} (hepoch : idx'.addEpoch = idx.addEpoch)
    (hadded : idx'.added = idx.added) (hadv : ∀ h, idx'.Advertises h ↔ idx.Advertises h) :
    Change idx idx' epoch :=
  .grow [] hepoch (by simp [hadded]) (by simp [hadv])

lemma change_put (idx : Index) (key : Key) (now : ℤ) (epoch : UInt64) :
    Change idx (idx.put key now epoch) ((IndexOp.put key now epoch).newEpoch idx) := by
  have hadv := advertises_put idx key now epoch
  cases h : actionHash key with
  | none =>
    obtain ⟨hepoch, hadded⟩ := idx.log_put_of_none now epoch h
    exact .same hepoch hadded (by simpa [h] using hadv)
  | some x =>
    rcases idx.log_put_of_some now epoch h with ⟨-, hepoch, hadded⟩ | ⟨hfull, hepoch⟩
    · exact .grow [x] hepoch hadded (by simpa [h, eq_comm] using hadv)
    · exact .reset (by simp [IndexOp.newEpoch, h, hfull, hepoch])

lemma change_remove (idx : Index) (key : Key) (epoch : UInt64) :
    Change idx (idx.remove key epoch) ((IndexOp.remove key epoch).newEpoch idx) := by
  cases h : actionHash key with
  | none =>
    obtain ⟨hepoch, hadded⟩ := idx.log_remove_of_none epoch h
    exact .same hepoch hadded (by simpa [h] using advertises_remove idx key epoch)
  | some x => exact .reset (by simp [IndexOp.newEpoch, h, idx.addEpoch_remove_of_some epoch h])

lemma change_removeKeys (idx : Index) (keys : List Key) (epoch : UInt64) :
    Change idx (idx.removeKeys keys epoch) ((IndexOp.removeKeys keys epoch).newEpoch idx) := by
  by_cases h : keys.filterMap actionHash = []
  · obtain ⟨hepoch, hadded⟩ := idx.log_removeKeys_of_none epoch h
    refine .same hepoch hadded fun x => (advertises_removeKeys idx keys epoch x).trans ?_
    have hnone : ∀ k ∈ keys, actionHash k = none := by simpa using h
    exact and_iff_left fun k hk => by simp [hnone k hk]
  · refine .reset ?_
    rw [IndexOp.newEpoch, if_pos h, idx.addEpoch_removeKeys_of_ne_nil epoch h]

lemma change_blobGenForm (sha256 : Sha256) (idx : Index) (form : IndexForm) (clock : BlobClock)
    (epoch : Option UInt64) : Change idx (idx.blobGenForm sha256 form clock).2 epoch := by
  unfold blobGenForm blobLocked
  split
  · exact .same rfl rfl fun h => Iff.rfl
  · split
    · exact .same rfl rfl fun h => Iff.rfl
    · exact .same rfl rfl (advertises_serialize sha256 idx form clock.built)

end Index

/-- Every operation lets the log and the advertised set grow together, or starts a new epoch. -/
lemma IndexOp.change (sha256 : Sha256) (idx : Index) (op : IndexOp) :
    Index.Change idx (op.apply sha256 idx) (op.newEpoch idx) := by
  cases op with
  | put key now epoch => exact idx.change_put key now epoch
  | remove key epoch => exact idx.change_remove key epoch
  | removeKeys keys epoch => exact idx.change_removeKeys keys epoch
  | applyRebuild b epoch => exact .reset rfl
  | blobGenForm form clock => exact idx.change_blobGenForm sha256 form clock none
  | deltaForm start form => exact .same rfl rfl fun h => Iff.rfl
  | setBlobInterval d => exact .same rfl rfl fun h => Iff.rfl

/-- An operation that shrinks the advertised set starts a new epoch. -/
lemma IndexOp.newEpoch_of_shrinks (sha256 : Sha256) (idx : Index) {op : IndexOp}
    (h : op.shrinks = true) : op.newEpoch idx = some (op.apply sha256 idx).addEpoch := by
  cases op with
  | remove key epoch =>
    obtain ⟨x, hx⟩ := Option.isSome_iff_exists.mp h
    simp [IndexOp.newEpoch, IndexOp.apply, hx, idx.addEpoch_remove_of_some epoch hx]
  | removeKeys keys epoch =>
    have hne : keys.filterMap actionHash ≠ [] := of_decide_eq_true h
    rw [IndexOp.newEpoch, if_pos hne, IndexOp.apply, idx.addEpoch_removeKeys_of_ne_nil epoch hne]
  | applyRebuild b epoch => rfl
  | _ => simp [IndexOp.shrinks] at h

/-! ## Where cached blobs come from -/

namespace Index

/-- A blob in the cache of `idx'` was in the cache of `idx` already, or it was made from `idx'` with
nothing pending. -/
def BlobsFrom (sha256 : Sha256) (idx idx' : Index) : Prop :=
  ∀ form c', idx'.forms form = some c' →
    (∃ c, idx.forms form = some c ∧ c'.blob = c.blob ∧ c'.gen = c.gen) ∨
      (c'.gen = idx'.position ∧ idx'.pending = [] ∧
        c'.blob = marshalForm sha256 idx'.hashes form)

lemma BlobsFrom.of_forms_eq (sha256 : Sha256) {idx idx' : Index} (h : idx'.forms = idx.forms) :
    BlobsFrom sha256 idx idx' := by
  intro form c' hc'
  exact Or.inl ⟨c', h ▸ hc', rfl, rfl⟩

/-- A new epoch keeps the blobs; only their age changes. -/
lemma BlobsFrom.of_reset (sha256 : Sha256) {idx idx' : Index}
    (h : idx'.forms = fun form => (idx.forms form).map fun c => { c with builtAt := zeroTime }) :
    BlobsFrom sha256 idx idx' := by
  intro form c' hc'
  rw [h, Option.map_eq_some_iff] at hc'
  obtain ⟨c, hc, rfl⟩ := hc'
  exact Or.inl ⟨c, hc, rfl, rfl⟩

lemma forms_appendAddLocked (idx : Index) (hash : Hash) (epoch : UInt64) :
    (idx.appendAddLocked hash epoch).forms = idx.forms ∨
      (idx.appendAddLocked hash epoch).forms
        = fun form => (idx.forms form).map fun c => { c with builtAt := zeroTime } := by
  unfold appendAddLocked
  cases idx.addLogFull with
  | false => exact Or.inl rfl
  | true => exact Or.inr rfl

lemma blobsFrom_put (sha256 : Sha256) (idx : Index) (key : Key) (now : ℤ) (epoch : UInt64) :
    BlobsFrom sha256 idx (idx.put key now epoch) := by
  cases h : (newCompactKey key).actionHash with
  | none =>
    simp only [put, h]
    exact .of_forms_eq sha256 rfl
  | some x =>
    simp only [put, h]
    rcases forms_appendAddLocked _ x epoch with hforms | hforms
    · exact .of_forms_eq sha256 hforms
    · exact .of_reset sha256 hforms

lemma blobsFrom_remove (sha256 : Sha256) (idx : Index) (key : Key) (epoch : UInt64) :
    BlobsFrom sha256 idx (idx.remove key epoch) := by
  cases h : (newCompactKey key).actionHash with
  | none =>
    simp only [remove, h]
    exact .of_forms_eq sha256 rfl
  | some x =>
    simp only [remove, h]
    exact .of_reset sha256 rfl

lemma blobsFrom_removeKeys (sha256 : Sha256) (idx : Index) (keys : List Key) (epoch : UInt64) :
    BlobsFrom sha256 idx (idx.removeKeys keys epoch) := by
  unfold removeKeys
  dsimp only
  split_ifs
  · exact .of_forms_eq sha256 rfl
  · exact .of_forms_eq sha256 rfl
  · exact .of_reset sha256 rfl

/-- The blob that `BlobGenForm` answers was cached, or is made from the index it leaves behind. -/
lemma blobGenForm_spec (sha256 : Sha256) (idx : Index) (form : IndexForm) (clock : BlobClock) :
    (idx.blobGenForm sha256 form clock).2 = idx ∧
        idx.forms form = some (idx.blobGenForm sha256 form clock).1 ∨
      idx.blobGenForm sha256 form clock = idx.serialize sha256 form clock.built := by
  unfold blobGenForm blobLocked servableBlob
  split
  · next c hc => exact Or.inl ⟨rfl, (Option.filter_eq_some_iff.mp hc).1⟩
  · split
    · next c hc => exact Or.inl ⟨rfl, (Option.filter_eq_some_iff.mp hc).1⟩
    · exact Or.inr rfl

lemma blobsFrom_serialize (sha256 : Sha256) (idx : Index) (form : IndexForm) (now : Time) :
    BlobsFrom sha256 idx (idx.serialize sha256 form now).2 := by
  intro form' c' hc'
  by_cases hform : form' = form
  · subst hform
    simp only [serialize, Function.update_self, Option.some.injEq] at hc'
    subst hc'
    exact Or.inr ⟨rfl, rfl, rfl⟩
  · simp only [serialize, Function.update_of_ne hform] at hc'
    exact Or.inl ⟨c', hc', rfl, rfl⟩

lemma blobsFrom_blobGenForm (sha256 : Sha256) (idx : Index) (form : IndexForm)
    (clock : BlobClock) : BlobsFrom sha256 idx (idx.blobGenForm sha256 form clock).2 := by
  rcases idx.blobGenForm_spec sha256 form clock with ⟨h, -⟩ | h
  · exact .of_forms_eq sha256 (by rw [h])
  · rw [h]
    exact blobsFrom_serialize sha256 idx form clock.built

end Index

lemma IndexOp.blobsFrom (sha256 : Sha256) (idx : Index) (op : IndexOp) :
    Index.BlobsFrom sha256 idx (op.apply sha256 idx) := by
  cases op with
  | put key now epoch => exact idx.blobsFrom_put sha256 key now epoch
  | remove key epoch => exact idx.blobsFrom_remove sha256 key epoch
  | removeKeys keys epoch => exact idx.blobsFrom_removeKeys sha256 keys epoch
  | applyRebuild b epoch =>
    intro form c' hc'
    cases hc'
  | blobGenForm form clock => exact idx.blobsFrom_blobGenForm sha256 form clock
  | deltaForm start form => exact .of_forms_eq sha256 rfl
  | setBlobInterval d => exact .of_forms_eq sha256 rfl

end GoBuildCache
