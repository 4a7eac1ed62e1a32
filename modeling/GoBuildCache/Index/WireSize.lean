import GoBuildCache.Client.IndexRoundTrip
import GoBuildCache.Index.Refinement

/-!
# The size of a blob before it is written

`WireSize` counts the bytes of the version 2 blob without writing it: it adds up the lengths of the
codes of the gaps, over a merge of the master list with a sorted copy of the buffer. The writer
emits as many bits as are counted (`gapBits_eq_length`), a list that fits in memory has too few of
them for the counter to wrap around, and the lazy merge lists what the merged master list lists
(`prefixValues_sortDedupe`). So the count is the length of the blob that would be served.
-/

open ByteString BitString SortedList RiceCode Transition

namespace GoBuildCache

/-! ## Counting bits -/

/-- The bits that are counted are those of the code. -/
lemma gapBits_eq_length {k : ℕ} {prev : Option ℕ} {vs : List ℕ} (hvs : AscendsFrom prev vs)
    (h64 : ∀ v ∈ vs, v < 2 ^ 64) : gapBits k prev vs = (bitsFrom k prev vs).length := by
  induction vs generalizing prev with
  | nil => rfl
  | cons v vs ih =>
    rw [gapBits, gapAfter_eq hvs.floor_le (h64 v (by simp)), Nat.shiftRight_eq_div_pow,
      ih hvs.tail fun u hu => h64 u (by simp [hu]), bitsFrom_cons, List.length_append, length_code]
    omega

/-- `gbci2Size` is the length of the blob that `marshalGBCI2` writes. -/
lemma length_marshalGBCI2 (sha256 : Sha256) {widthBits : ℕ} {vs : List ℕ} (hw : widthBits ≤ 64)
    (hvs : Ascending vs) (hlt : ∀ v ∈ vs, v < 2 ^ widthBits) (hfits : vs.length < 2 ^ 58) :
    (marshalGBCI2 sha256 widthBits vs).length = gbci2Size widthBits vs := by
  have hcode := length_bitsFrom_riceParam_lt hw hvs hlt hfits
  have hk63 := riceParam_le widthBits vs.length
  have h64 : ∀ v ∈ vs, v < 2 ^ 64 := fun v hv =>
    (hlt v hv).trans_le (Nat.pow_le_pow_right (by decide) hw)
  obtain ⟨pad, hpad, hbits⟩ := bytesToBits_body hk63 hvs h64
  have hbytes := congrArg List.length hbits
  rw [length_bytesToBits, List.length_append, List.length_replicate] at hbytes
  rw [marshalGBCI2, length_gbciBlob, gbci2Size, gapBits_eq_length (ascendsFrom_none hvs) h64,
    Nat.mod_eq_of_lt (by omega)]
  omega

/-! ## The lazy merge -/

lemma mem_prefixValues {a b : List Hash} {bits v : ℕ} :
    v ∈ prefixValues a b bits ↔ ∃ h, (h ∈ a ∨ h ∈ b) ∧ prefixBits bits h = v := by
  rw [prefixValues, mem_collapse]
  simp only [List.mem_merge]

lemma ascending_prefixValues {a b : List Hash} (ha : Ascending a) (hb : Ascending b) (bits : ℕ) :
    Ascending (prefixValues a b bits) := by
  have hmerge : (a.merge b (· ≤ ·)).Pairwise (· ≤ ·) :=
    (ha.imp le_of_lt).merge (hb.imp le_of_lt)
  refine ascending_dropRepeats (List.pairwise_map.mpr ?_)
  exact hmerge.imp fun h => monotone_prefixBits bits h

lemma length_prefixValues_le (a b : List Hash) (bits : ℕ) :
    (prefixValues a b bits).length ≤ a.length + b.length := by
  have h := length_collapse_le (prefixBits bits) (a.merge b (· ≤ ·))
  rwa [List.length_merge] at h

/-- Merging lazily lists the same values as merging first, overlaps and shared leading bits
included. -/
lemma prefixValues_mergeDedupe {a b : List Hash} (ha : Ascending a) (hb : Ascending b) (bits : ℕ) :
    prefixValues a b bits = prefixValues (mergeDedupe a b) [] bits := by
  have hmerged := ascending_mergeDedupe ha hb
  refine (ascending_prefixValues ha hb bits).eq_of_mem_iff
    (ascending_prefixValues hmerged List.Pairwise.nil bits) fun v => ?_
  simp only [mem_prefixValues, mem_mergeDedupe, List.not_mem_nil, or_false]

namespace Index

/-- What `WireSize` counts over is what would be serialized. -/
lemma prefixValues_fresh (idx : Index) (bits : ℕ) :
    prefixValues idx.hashes (if idx.pending = [] then [] else sortDedupe idx.pending) bits
      = prefixValues idx.mergePendingLocked.hashes [] bits := by
  simp only [mergePendingLocked]
  split_ifs
  · rfl
  · exact prefixValues_mergeDedupe idx.ascending (ascending_sortDedupe idx.pending) bits

lemma length_hashes_mergePendingLocked_le (idx : Index) (bits : ℕ) :
    (prefixValues idx.mergePendingLocked.hashes [] bits).length
      ≤ idx.hashes.length + idx.pending.length := by
  rw [← prefixValues_fresh]
  refine (length_prefixValues_le ..).trans (Nat.add_le_add_left ?_ _)
  split_ifs
  · exact Nat.zero_le _
  · exact length_sortDedupe_le idx.pending

/-- The count is the length of the serialization. -/
lemma length_blob_serialize (sha256 : Sha256) {idx : Index}
    (hfits : 32 * (idx.hashes.length + idx.pending.length) < 2 ^ 63) {form : IndexForm}
    (hversion : form.version = 2) (now : Time) :
    (idx.serialize sha256 form now).1.blob.length
      = gbci2Size form.width (prefixValues idx.mergePendingLocked.hashes [] form.width) := by
  have hmax : form.width ≤ 64 := by
    rcases form.valid with ⟨h, -⟩ | ⟨-, -, h⟩
    · omega
    · exact h
  have hblob : (idx.serialize sha256 form now).1.blob = marshalGBCI2 sha256 form.width
      (prefixValues idx.mergePendingLocked.hashes [] form.width) :=
    if_pos hversion
  have hlen := idx.length_hashes_mergePendingLocked_le form.width
  rw [hblob]
  refine length_marshalGBCI2 sha256 hmax
    (ascending_prefixValues idx.mergePendingLocked.ascending List.Pairwise.nil _) ?_ (by omega)
  intro v hv
  obtain ⟨h, -, rfl⟩ := mem_prefixValues.mp hv
  exact prefixBits_lt hmax h

end Index

/-! ## What is served -/

/-- In every state of an index that fits in memory, `WireSize` is the length of the blob that
`BlobGenForm` would return in the version 2 form at that moment, and a history is the same with and
without the call. -/
theorem wireSize_eq_length_served (sha256 : Sha256) {idx : Index}
    (hfits : 32 * (idx.hashes.length + idx.pending.length) < 2 ^ 63) {form : IndexForm}
    (hversion : form.version = 2) (now : Time) :
    idx.wireSize form now = (idx.blobGenForm sha256 form ⟨now, now, now⟩).1.blob.length ∧
      ∀ (s : IndexedSet) (before after : List IndexCall),
        run (IndexedSet.step sha256) s (before ++ .wireSize form now :: after)
          = run (IndexedSet.step sha256) s (before ++ after) := by
  have hskip : ∀ s, IndexedSet.step sha256 s (.wireSize form now) = some s := fun s => rfl
  refine ⟨?_, run_skip hskip⟩
  rw [Index.wireSize]
  cases hcache : idx.servableBlob form now with
  | some c => simp only [Index.blobGenForm, hcache]
  | none =>
    have hfresh : idx.SerializesAt form ⟨now, now, now⟩ := ⟨hcache, hcache⟩
    rw [Index.blobGenForm_of_serializesAt hfresh,
      Index.length_blob_serialize sha256 hfits hversion, ← Index.prefixValues_fresh]

lemma prefixes64_valid : (2 = 1 ∧ (64 = 32 ∨ 64 = 8)) ∨ (2 = 2 ∧ 32 ≤ 64 ∧ 64 ≤ 64) := by
  decide

/-- The form of version 2 with 64 bits. -/
def prefixes64 : IndexForm :=
  ⟨2, 64, prefixes64_valid⟩

/-- A hash is pending when the size is asked for. -/
theorem wireSize_eq_length_served_onePut :
    ∃ t ∈ run (IndexedSet.step zeroDigest) (IndexedSet.start false 0 0 0)
        [.op (.put (hashKey zeroHash) 0 1)],
      t.index.pending = [zeroHash] ∧ t.index.wireSize prefixes64 5
        = (t.index.blobGenForm zeroDigest prefixes64 ⟨5, 5, 5⟩).1.blob.length := by
  obtain ⟨t, hrun, hfits, hpending⟩ :
      ∃ t ∈ run (IndexedSet.step zeroDigest) (IndexedSet.start false 0 0 0)
          [.op (.put (hashKey zeroHash) 0 1)],
        32 * (t.index.hashes.length + t.index.pending.length) < 2 ^ 63 ∧
          t.index.pending = [zeroHash] := by
    decide +kernel
  exact ⟨t, hrun, hpending, (wireSize_eq_length_served zeroDigest hfits rfl 5).1⟩

end GoBuildCache
