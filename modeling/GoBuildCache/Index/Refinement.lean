import GoBuildCache.Foundation.Transition
import GoBuildCache.Index.Operations
import GoBuildCache.Index.Queries

/-!
# The index as a set

An index holds a set of hashes as a sorted master list and an unsorted buffer of additions. The set
that it stands for follows a simple specification (`IndexCall.spec`): a put inserts, a removal
erases, a rebuild takes what the walk has found and what is still in the buffer, and everything else
leaves the set alone. After every sequence of calls `Contains` decides membership in that set
(`index_refines_set`). A serialization depends on nothing but the set, so two indexes that have come
to the same set by different ways make the same blobs.
-/

open SortedList Transition

namespace GoBuildCache

/-- A call of a method of the index. -/
inductive IndexCall where
  /-- One of the operations. -/
  | op (op : IndexOp)
  /-- `WireSize`, where the configured form is `form`. -/
  | wireSize (form : IndexForm) (now : Time)
  /-- `NearbyKeys`. -/
  | nearbyKeys (startUnix endUnix : ℤ) (limit : ℕ) (exclude : List Key)
      (skip : Option (Key → Bool))

namespace IndexCall

/-- The index after the call. -/
def apply (sha256 : Sha256) (idx : Index) : IndexCall → Index
  | op o => o.apply sha256 idx
  | wireSize _ _ => idx
  | nearbyKeys startUnix endUnix limit exclude skip =>
    (idx.nearbyKeys startUnix endUnix limit exclude skip).2

/-- The call asks or serializes. -/
def readOnly : IndexCall → Bool
  | op (.blobGenForm _ _) | op (.deltaForm _ _) | wireSize _ _ | nearbyKeys _ _ _ _ _ => true
  | op _ => false

/-- What a call does to the set that the index stands for. -/
def spec (idx : Index) (set : Finset Hash) : IndexCall → Finset Hash
  | op (.put key _ _) => set ∪ (actionHash key).toFinset
  | op (.remove key _) => set \ (actionHash key).toFinset
  | op (.removeKeys keys _) => set \ (keys.filterMap actionHash).toFinset
  | op (.applyRebuild b _) => b.hashes.toFinset ∪ idx.pending.toFinset
  | op (.blobGenForm _ _) | op (.deltaForm _ _) | op (.setBlobInterval _) | wireSize _ _
  | nearbyKeys _ _ _ _ _ => set

end IndexCall

namespace Index

/-- The index stands for the set. -/
def Represents (idx : Index) (set : Finset Hash) : Prop :=
  ∀ h, idx.Advertises h ↔ h ∈ set

lemma advertises_blobGenForm (sha256 : Sha256) (idx : Index) (form : IndexForm)
    (clock : BlobClock) (h : Hash) :
    (idx.blobGenForm sha256 form clock).2.Advertises h ↔ idx.Advertises h := by
  unfold blobGenForm
  split
  · exact Iff.rfl
  · exact advertises_blobLocked sha256 idx form clock.recheck clock.built h

/-- A call keeps the index in step with the set. -/
lemma Represents.apply {idx : Index} {set : Finset Hash} (hset : idx.Represents set)
    (sha256 : Sha256) (c : IndexCall) : (c.apply sha256 idx).Represents (c.spec idx set) := by
  intro h
  cases c with
  | op o =>
    cases o with
    | put key now epoch =>
      rw [IndexCall.spec, Finset.mem_union, Option.mem_toFinset, ← hset h]
      exact advertises_put idx key now epoch h
    | remove key epoch =>
      rw [IndexCall.spec, Finset.mem_sdiff, Option.mem_toFinset, ← hset h]
      exact advertises_remove idx key epoch h
    | removeKeys keys epoch =>
      rw [IndexCall.spec, Finset.mem_sdiff, List.mem_toFinset, ← hset h]
      refine (advertises_removeKeys idx keys epoch h).trans (and_congr_right ?_)
      intro _
      simp
    | applyRebuild b epoch =>
      rw [IndexCall.spec, Finset.mem_union, List.mem_toFinset, List.mem_toFinset]
      exact advertises_applyRebuild idx b epoch h
    | blobGenForm form clock =>
      exact (advertises_blobGenForm sha256 idx form clock h).trans (hset h)
    | deltaForm start form => exact hset h
    | setBlobInterval d => exact hset h
  | wireSize form now => exact hset h
  | nearbyKeys startUnix endUnix limit exclude skip =>
    exact (advertises_nearbyKeys idx startUnix endUnix limit exclude skip h).trans (hset h)

/-- No cached blob is handed out, so `BlobGenForm` serializes. -/
def SerializesAt (idx : Index) (form : IndexForm) (clock : BlobClock) : Prop :=
  idx.servableBlob form clock.check = none ∧ idx.servableBlob form clock.recheck = none

instance (idx : Index) (form : IndexForm) (clock : BlobClock) :
    Decidable (idx.SerializesAt form clock) :=
  inferInstanceAs (Decidable (_ ∧ _))

lemma blobGenForm_of_serializesAt {idx : Index} {form : IndexForm} {clock : BlobClock}
    (h : idx.SerializesAt form clock) (sha256 : Sha256) :
    idx.blobGenForm sha256 form clock = idx.serialize sha256 form clock.built := by
  rw [blobGenForm, h.1, blobLocked, h.2]

/-- The merged master list is determined by the set. -/
lemma hashes_mergePendingLocked_eq {idx idx' : Index} {set : Finset Hash}
    (h : idx.Represents set) (h' : idx'.Represents set) :
    idx.mergePendingLocked.hashes = idx'.mergePendingLocked.hashes := by
  have hmem : ∀ {i : Index}, i.Represents set → ∀ x, x ∈ i.mergePendingLocked.hashes ↔ x ∈ set := by
    intro i hi x
    rw [← hi x, ← advertises_mergePendingLocked]
    simp [Advertises, mergePendingLocked]
  refine idx.mergePendingLocked.ascending.eq_of_mem_iff idx'.mergePendingLocked.ascending ?_
  intro x
  rw [hmem h, hmem h']

end Index

/-! ## Runs -/

/-- An index, and the set that it should stand for. -/
structure IndexedSet where
  /-- The index. -/
  index : Index
  /-- The set. -/
  set : Finset Hash

namespace IndexedSet

/-- One call. -/
def step (sha256 : Sha256) (s : IndexedSet) (c : IndexCall) : Option IndexedSet :=
  some ⟨c.apply sha256 s.index, c.spec s.index s.set⟩

/-- Nothing is stored. -/
def start (entriesOff : Bool) (blobMinInterval : Duration) (addLogLimit : ℤ) (epoch : UInt64) :
    IndexedSet :=
  ⟨.empty entriesOff blobMinInterval addLogLimit epoch, ∅⟩

/-- The index stands for its set after every sequence of calls. -/
lemma represents_of_run {sha256 : Sha256} {entriesOff : Bool} {blobMinInterval : Duration}
    {addLogLimit : ℤ} {epoch : UInt64} {cs : List IndexCall} {t : IndexedSet}
    (hrun : run (step sha256) (start entriesOff blobMinInterval addLogLimit epoch) cs = some t) :
    t.index.Represents t.set := by
  have hstart : (start entriesOff blobMinInterval addLogLimit epoch).index.Represents ∅ := by
    intro h
    simp [start, Index.empty, Index.Advertises]
  refine run_invariant_of_step (I := fun s => s.index.Represents s.set) ?_ hstart hrun
  intro s c s' hs hs'
  obtain rfl := Option.some.inj hs'
  exact hs.apply sha256 c

/-- After every sequence of calls the master list is strictly ascending and `Contains` decides
membership in the set, which no query and no serialization changes; and fresh serializations of the
same set in the same form are the same, however the set has come about. -/
theorem index_refines_set (sha256 : Sha256) (entriesOff : Bool) (blobMinInterval : Duration)
    (addLogLimit : ℤ) (epoch : UInt64) (cs : List IndexCall) (t : IndexedSet)
    (hrun : run (step sha256) (start entriesOff blobMinInterval addLogLimit epoch) cs = some t) :
    Ascending t.index.hashes ∧ (∀ h, t.index.contains h = true ↔ h ∈ t.set) ∧
      (∀ c : IndexCall, c.readOnly = true → c.spec t.index t.set = t.set ∧
        ∀ h, (c.apply sha256 t.index).contains h = t.index.contains h) ∧
      ∀ (entriesOff' : Bool) (blobMinInterval' : Duration) (addLogLimit' : ℤ) (epoch' : UInt64)
        (cs' : List IndexCall) (t' : IndexedSet),
        run (step sha256) (start entriesOff' blobMinInterval' addLogLimit' epoch') cs' = some t' →
          t'.set = t.set → ∀ form clock clock', t.index.SerializesAt form clock →
            t'.index.SerializesAt form clock' →
              (t'.index.blobGenForm sha256 form clock').1.blob
                  = (t.index.blobGenForm sha256 form clock).1.blob ∧
                (t'.index.blobGenForm sha256 form clock').1.etag
                  = (t.index.blobGenForm sha256 form clock).1.etag := by
  have ht := represents_of_run hrun
  refine ⟨t.index.ascending, fun h => (t.index.contains_iff h).trans (ht h), ?_, ?_⟩
  · intro c hc
    have hspec : c.spec t.index t.set = t.set := by
      unfold IndexCall.readOnly at hc
      split at hc
      · rfl
      · rfl
      · rfl
      · rfl
      · cases hc
    refine ⟨hspec, fun h => ?_⟩
    rw [Bool.eq_iff_iff, Index.contains_iff, Index.contains_iff, ht.apply sha256 c h, ht h, hspec]
  · intro entriesOff' blobMinInterval' addLogLimit' epoch' cs' t' hrun' hset form clock clock'
      hfresh hfresh'
    have ht' := represents_of_run hrun'
    rw [hset] at ht'
    rw [Index.blobGenForm_of_serializesAt hfresh, Index.blobGenForm_of_serializesAt hfresh']
    have hhashes := Index.hashes_mergePendingLocked_eq ht' ht
    simp only [Index.serialize, Index.freshBlob, hhashes, and_self]

lemma wholeHashes_valid : (1 = 1 ∧ (32 = 32 ∨ 32 = 8)) ∨ (1 = 2 ∧ 32 ≤ 32 ∧ 32 ≤ 64) := by
  decide

/-- The form of version 1 that lists whole hashes. -/
def wholeHashes : IndexForm :=
  ⟨1, 32, wholeHashes_valid⟩

/-- One hash is put twice. -/
def putTwice : List IndexCall :=
  [.op (.put (hashKey zeroHash) 0 1), .op (.put (hashKey zeroHash) 1 2)]

/-- Two hashes are put and served, and one of them is removed. -/
def putAndRemove : List IndexCall :=
  [.op (.put (hashKey (.ofValue 32 1)) 0 1), .op (.put (hashKey zeroHash) 0 2),
    .op (.blobGenForm wholeHashes ⟨0, 0, 0⟩), .op (.remove (hashKey (.ofValue 32 1)) 3)]

theorem index_refines_set_putTwice :
    ∃ t t', run (step zeroDigest) (start false 0 0 0) putTwice = some t ∧
      run (step zeroDigest) (start true 5 0 0) putAndRemove = some t' ∧
      t.index.contains zeroHash = true ∧
      (t'.index.blobGenForm zeroDigest wholeHashes ⟨9, 9, 9⟩).1.blob
        = (t.index.blobGenForm zeroDigest wholeHashes ⟨1, 1, 1⟩).1.blob := by
  obtain ⟨t, ht, hset, hfresh⟩ : ∃ t ∈ run (step zeroDigest) (start false 0 0 0) putTwice,
      t.set = {zeroHash} ∧ t.index.SerializesAt wholeHashes ⟨1, 1, 1⟩ := by
    decide +kernel
  obtain ⟨t', ht', hset', hfresh'⟩ :
      ∃ t ∈ run (step zeroDigest) (start true 5 0 0) putAndRemove,
        t.set = {zeroHash} ∧ t.index.SerializesAt wholeHashes ⟨9, 9, 9⟩ := by
    decide +kernel
  obtain ⟨-, hcontains, -, hblobs⟩ := index_refines_set zeroDigest false 0 0 0 putTwice t ht
  refine ⟨t, t', ht, ht', (hcontains zeroHash).mpr (by simp [hset]), ?_⟩
  exact (hblobs true 5 0 0 putAndRemove t' ht' (hset'.trans hset.symm) wholeHashes _ _ hfresh
    hfresh').1

end IndexedSet

end GoBuildCache
