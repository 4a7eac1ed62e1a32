import GoBuildCache.Client.IndexRoundTrip

/-!
# The client's set of keys grows

A `HashSet` is a sorted slice with two small buffers, one of keys added and one of keys removed,
that are folded into the slice from time to time (`HashSet.compact`). The members are the keys that
`HashSet.all` lists; adding a key adds it to them, whether the buffers are folded or not
(`HashSet.mem_all_add`).

A `KeySet` keeps the leading bits of hashes. Adding a set of another width narrows it to the bits
that both have (`KeySet.addAll`, `Holds.addAll`), and the result is written as a blob of that width
and read back as the same set (`Holds.marshalIndex`). Together these are a blob of a copy of the
index and of what was added since (`BlobOf.merge`).
-/

open ByteString BitString SortedList

namespace GoBuildCache

namespace HashSet

variable {K : Type*} [LinearOrder K]

/-! ## Adding keys -/

/-- How many buffered keys are folded into the slice. -/
def compactAt : ℕ := 512

/-- Folds the buffers into the slice. -/
def compact (s : HashSet K) : HashSet K where
  sorted := (s.sorted.filter (· ∉ s.removed)).merge (s.pending.sort (· ≤ ·)) (· ≤ ·)
  pending := ∅
  removed := ∅

/-- Adds a key. A key that has been removed is still in the slice. -/
def add (s : HashSet K) (k : K) : HashSet K :=
  if k ∈ s.removed then { s with removed := s.removed.erase k }
  else if k ∈ s.pending then s
  else if containsSorted s.sorted k then s
  else
    let s := { s with pending := insert k s.pending }
    if compactAt ≤ s.pending.card then s.compact else s

/-- Every key, once. -/
def all (s : HashSet K) : List K :=
  s.sorted.filter (· ∉ s.removed) ++ s.pending.sort (· ≤ ·)

/-- The slice is sorted, keys are removed from it, and keys that are not in it are added. -/
structure Valid (s : HashSet K) : Prop where
  /-- The slice. -/
  ascending : Ascending s.sorted
  /-- The removed keys. -/
  removed : ∀ k ∈ s.removed, k ∈ s.sorted
  /-- The added keys. -/
  pending : ∀ k ∈ s.pending, k ∉ s.sorted

variable {s : HashSet K} {k x : K}

lemma mem_all : x ∈ s.all ↔ x ∈ s.sorted ∧ x ∉ s.removed ∨ x ∈ s.pending := by
  simp [all, List.mem_append, List.mem_filter]

/-- The members of a set without buffered keys are those of its slice. -/
lemma mem_all_of_empty (hpending : s.pending = ∅) (hremoved : s.removed = ∅) :
    x ∈ s.all ↔ x ∈ s.sorted := by
  simp [mem_all, hpending, hremoved]

lemma valid_adoptSorted (keys : List K) : (adoptSorted keys).Valid := by
  refine ⟨?_, fun k hk => absurd hk (Finset.notMem_empty k),
    fun k hk => absurd hk (Finset.notMem_empty k)⟩
  rw [sorted_adoptSorted]
  exact ascending_sortDedupe keys

lemma mem_all_adoptSorted (keys : List K) : x ∈ (adoptSorted keys).all ↔ x ∈ keys := by
  rw [mem_all_of_empty rfl rfl, sorted_adoptSorted, mem_sortDedupe]

/-- No key is listed twice. -/
lemma Valid.nodup_all (hs : s.Valid) : s.all.Nodup := by
  have hslice : (s.sorted.filter (· ∉ s.removed)).Nodup :=
    (hs.ascending.imp ne_of_lt).filter _
  refine hslice.append (Finset.sort_nodup _ _) ?_
  intro y hy hpending
  rw [Finset.mem_sort] at hpending
  exact hs.pending y hpending (List.mem_of_mem_filter hy)

/-- Folding the buffers keeps the members. -/
lemma mem_sorted_compact : x ∈ s.compact.sorted ↔ x ∈ s.all := by
  rw [compact, List.mem_merge, all, List.mem_append]

lemma mem_all_compact : x ∈ s.compact.all ↔ x ∈ s.all :=
  (mem_all_of_empty rfl rfl).trans mem_sorted_compact

lemma Valid.compact (hs : s.Valid) : s.compact.Valid := by
  refine ⟨?_, fun k hk => absurd hk (Finset.notMem_empty k),
    fun k hk => absurd hk (Finset.notMem_empty k)⟩
  have hle : s.compact.sorted.Pairwise (· ≤ ·) := by
    refine List.Pairwise.merge ?_ (Finset.pairwise_sort _ _)
    exact (hs.ascending.imp le_of_lt).filter _
  have hperm : s.compact.sorted.Perm s.all := List.merge_perm_append ..
  have hnodup : s.compact.sorted.Nodup := hperm.nodup_iff.mpr hs.nodup_all
  exact List.Pairwise.imp₂ (fun a b hab hne => lt_of_le_of_ne hab hne) hle hnodup

lemma Valid.insert_pending (hs : s.Valid) (hk : k ∉ s.sorted) :
    Valid { s with pending := insert k s.pending } := by
  refine ⟨hs.ascending, hs.removed, ?_⟩
  intro x hx
  rcases Finset.mem_insert.mp hx with rfl | hx
  · exact hk
  · exact hs.pending x hx

lemma Valid.add (hs : s.Valid) (k : K) : (s.add k).Valid := by
  unfold HashSet.add
  split_ifs with hremoved hpending hsorted
  · exact ⟨hs.ascending, fun x hx => hs.removed x (Finset.mem_of_mem_erase hx), hs.pending⟩
  · exact hs
  · exact hs
  · have hnew : k ∉ s.sorted := fun hk => hsorted ((containsSorted_iff hs.ascending).mpr hk)
    dsimp only
    split_ifs
    · exact (hs.insert_pending hnew).compact
    · exact hs.insert_pending hnew

/-- Adding a key adds it to the members. -/
lemma mem_all_add (hs : s.Valid) : x ∈ (s.add k).all ↔ x = k ∨ x ∈ s.all := by
  unfold add
  split_ifs with hremoved hpending hsorted
  · have hk : k ∈ s.sorted := hs.removed k hremoved
    simp only [mem_all, Finset.mem_erase]
    by_cases hx : x = k
    · simp [hx, hk]
    · simp [hx]
  · have hk : k ∈ s.all := mem_all.mpr (Or.inr hpending)
    exact ⟨Or.inr, fun h => h.elim (fun heq => heq ▸ hk) id⟩
  · have hk : k ∈ s.all :=
      mem_all.mpr (Or.inl ⟨(containsSorted_iff hs.ascending).mp hsorted, hremoved⟩)
    exact ⟨Or.inr, fun h => h.elim (fun heq => heq ▸ hk) id⟩
  · have hinsert : x ∈ all { s with pending := insert k s.pending } ↔ x = k ∨ x ∈ s.all := by
      simp only [mem_all, Finset.mem_insert]
      tauto
    dsimp only
    split_ifs
    · rw [mem_all_compact, hinsert]
    · exact hinsert

/-- Adding keys adds them to the members. -/
lemma foldl_add_spec {α : Type*} (f : α → K) (xs : List α) (hs : s.Valid) :
    (xs.foldl (fun s a => s.add (f a)) s).Valid ∧
      ∀ x, x ∈ (xs.foldl (fun s a => s.add (f a)) s).all ↔ (∃ a ∈ xs, f a = x) ∨ x ∈ s.all := by
  induction xs generalizing s with
  | nil => exact ⟨hs, fun x => by simp⟩
  | cons a xs ih =>
    obtain ⟨hvalid, hmem⟩ := ih (hs.add (f a))
    refine ⟨hvalid, ?_⟩
    intro x
    rw [List.foldl_cons, hmem x, mem_all_add hs, eq_comm]
    simp only [List.mem_cons, exists_eq_or_imp]
    rw [or_left_comm, or_assoc]

end HashSet

/-! ## Sets of leading bits -/

namespace KeySet

/-- Keeps fewer bits of every key. Keys that agree on what is left become one. -/
def narrowTo (s : KeySet) (shift : ℕ) : KeySet :=
  let keys := s.keys.compact
  let narrow : KeySet := ⟨keys, shift⟩
  ⟨{ keys with sorted := dropRepeats (keys.sorted.map narrow.maskKey) }, shift⟩

/-- Adds the keys of another set, on the bits that both hold. -/
def addAll (s other : KeySet) : KeySet :=
  let s := if s.shift < other.shift then s.narrowTo other.shift else s
  { s with keys := other.keys.all.foldl (fun keys k => keys.add (s.maskKey k)) s.keys }

end KeySet

/-- `MarshalIndexV2`, which writes what `marshalGBCI2` writes; `none` is a panic. -/
def marshalIndexV2 (sha256 : Sha256) (widthBits : ℕ) (values : List ℕ) : Option Bytes :=
  if widthBits < 32 ∨ 64 < widthBits then none
  else if (∃ v ∈ values, prefixLimit widthBits < v) ∨ ¬ values.Pairwise (· < ·) then none
  else some (marshalGBCI2 sha256 widthBits values)

/-- Encodes a set of keys as a version 2 blob of its width. -/
def marshalIndex (sha256 : Sha256) (s : KeySet) : Option Bytes :=
  marshalIndexV2 sha256 s.width
    ((s.keys.all.insertionSort (· ≤ ·)).map fun k => k.value >>> s.shift)

/-- A blob of the keys of a blob and of a set; `none` if the blob does not parse. -/
def mergeIndexBlob (sha256 : Sha256) (base : Bytes) (added : KeySet) : Option Bytes :=
  match parseIndexBlob sha256 base with
  | .error _ => none
  | .ok (keys, _) => marshalIndex sha256 (keys.addAll added)

/-- The keys are the leading `w` bits of the hashes. -/
def KeysOf (keys : List IndexKey) (hashes : List Hash) (w : ℕ) : Prop :=
  ∀ k, k ∈ keys ↔ ∃ x ∈ hashes, valueKey w (prefixBits w x) = k

/-- The set holds the leading `w` bits of the hashes. -/
structure Holds (s : KeySet) (hashes : List Hash) (w : ℕ) : Prop where
  /-- The width is one that a blob can have. -/
  wide : 32 ≤ w
  /-- It is at most the width of a key. -/
  fits : w ≤ 64
  /-- The set is of that width. -/
  shift : s.shift = 64 - w
  /-- Its slice and its buffers are in order. -/
  valid : s.keys.Valid
  /-- The members. -/
  keys : KeysOf s.keys.all hashes w

/-- The blob parses as the leading bits of the hashes, at some width. -/
def BlobOf (sha256 : Sha256) (blob : Bytes) (hashes : List Hash) : Prop :=
  ∃ w keys, 32 ≤ w ∧ w ≤ 64 ∧ KeysOf keys hashes w ∧
    parseIndexBlob sha256 blob = .ok (.adoptSortedKeysAt keys w, trailerETag blob)

section Holds

variable {s o : KeySet} {hashes : List Hash} {w w' : ℕ}

lemma holds_adoptSortedKeysAt {keys : List IndexKey} (hmin : 32 ≤ w) (hmax : w ≤ 64)
    (hkeys : KeysOf keys hashes w) : Holds (.adoptSortedKeysAt keys w) hashes w where
  wide := hmin
  fits := hmax
  shift := rfl
  valid := HashSet.valid_adoptSorted keys
  keys := fun k => (HashSet.mem_all_adoptSorted keys).trans (hkeys k)

/-- The bits of a key are shifted back to where a blob has them. -/
lemma value_valueKey_shiftRight {v : ℕ} (hw : w ≤ 64) (hv : v < 2 ^ w) :
    (valueKey w v).value >>> (64 - w) = v := by
  rw [value_valueKey hw hv, Nat.shiftRight_eq_div_pow, Nat.mul_div_cancel _ (by positivity)]

/-- A wider key loses the bits that a narrower set does not hold. -/
lemma maskKey_valueKey (hs : s.shift = 64 - w') (hle : w' ≤ w) (hw : w ≤ 64) (x : Hash) :
    s.maskKey (valueKey w (prefixBits w x)) = valueKey w' (prefixBits w' x) := by
  have hvalue := value_valueKey hw (prefixBits_lt hw x)
  have hshift : (prefixBits w x * 2 ^ (64 - w)) >>> (64 - w') = prefixBits w' x := by
    have hsplit : 64 - w' = (64 - w) + (w - w') := by omega
    rw [hsplit, Nat.shiftRight_add, Nat.shiftRight_eq_div_pow _ (64 - w),
      Nat.mul_div_cancel _ (by positivity), prefixBits, prefixBits, ← Nat.shiftRight_add,
      ← hsplit]
  rw [KeySet.maskKey, KeySet.mask, hvalue, and_mask_eq, hs, hshift]
  rfl

lemma value_maskKey (s : KeySet) (k : IndexKey) :
    (s.maskKey k).value = k.value / 2 ^ s.shift * 2 ^ s.shift := by
  have hle : k.value / 2 ^ s.shift * 2 ^ s.shift ≤ k.value := Nat.div_mul_le_self ..
  have hlt : k.value / 2 ^ s.shift * 2 ^ s.shift < 256 ^ 8 := lt_of_le_of_lt hle k.value_lt
  rw [KeySet.maskKey, KeySet.mask, and_mask_eq, Nat.shiftRight_eq_div_pow, Nat.shiftLeft_eq,
    wrap64_of_lt hlt]
  exact FixedBytes.value_ofValue hlt

lemma monotone_maskKey (s : KeySet) : Monotone s.maskKey := by
  intro a b hab
  have hvalue : a.value ≤ b.value := hab
  have hmask : (s.maskKey a).value ≤ (s.maskKey b).value := by
    rw [value_maskKey, value_maskKey]
    exact Nat.mul_le_mul_right _ (Nat.div_le_div_right hvalue)
  exact hmask

/-- Narrowing keeps the slice sorted. -/
lemma valid_narrowTo (hs : s.keys.Valid) (shift : ℕ) : (s.narrowTo shift).keys.Valid := by
  refine ⟨?_, fun k hk => absurd hk (Finset.notMem_empty k),
    fun k hk => absurd hk (Finset.notMem_empty k)⟩
  exact ascending_dropRepeats (pairwise_map_of_monotone (monotone_maskKey _) hs.compact.ascending)

/-- Narrowing masks every member. -/
lemma mem_all_narrowTo {shift : ℕ} {k : IndexKey} :
    k ∈ (s.narrowTo shift).keys.all ↔
      ∃ x ∈ s.keys.all, (⟨s.keys, shift⟩ : KeySet).maskKey x = k := by
  have hslice : k ∈ (s.narrowTo shift).keys.all ↔ k ∈ (s.narrowTo shift).keys.sorted :=
    HashSet.mem_all_of_empty rfl rfl
  rw [hslice, KeySet.narrowTo, mem_dropRepeats, List.mem_map]
  simp only [HashSet.mem_sorted_compact]
  rfl

/-- Narrowing a set leaves the leading bits. -/
lemma Holds.narrowTo (hs : Holds s hashes w) (hmin : 32 ≤ w') (hle : w' ≤ w) :
    Holds (s.narrowTo (64 - w')) hashes w' := by
  refine ⟨hmin, hle.trans hs.fits, rfl, valid_narrowTo hs.valid _, ?_⟩
  intro k
  have hmask : ∀ x, (⟨s.keys, 64 - w'⟩ : KeySet).maskKey (valueKey w (prefixBits w x))
      = valueKey w' (prefixBits w' x) := maskKey_valueKey rfl hle hs.fits
  rw [mem_all_narrowTo]
  simp only [hs.keys _, exists_exists_and_eq_and, hmask]

/-- A set is brought to the bits that another one has as well. -/
lemma Holds.narrowed (hs : Holds s hashes w) (hmin : 32 ≤ w') (hmax : w' ≤ 64) :
    Holds (if s.shift < 64 - w' then s.narrowTo (64 - w') else s) hashes (min w w') := by
  have hw := hs.fits
  rw [hs.shift]
  split_ifs with hshift
  · rw [min_eq_right (by omega)]
    exact hs.narrowTo hmin (by omega)
  · rw [min_eq_left (by omega)]
    exact hs

/-- Adding a set yields the leading bits of the hashes of both. -/
lemma Holds.addAll {hashes' all : List Hash} (hs : Holds s hashes w) (ho : Holds o hashes' w')
    (hall : ∀ h, h ∈ all ↔ h ∈ hashes ∨ h ∈ hashes') :
    Holds (s.addAll o) all (min w w') := by
  obtain ⟨hmin, hmax, hshift, hvalid, hkeys⟩ := ho
  have hnarrow := hs.narrowed hmin hmax
  rw [← hshift] at hnarrow
  rw [KeySet.addAll]
  generalize (if s.shift < o.shift then s.narrowTo o.shift else s) = t at hnarrow ⊢
  obtain ⟨hadded, hmem⟩ := HashSet.foldl_add_spec t.maskKey o.keys.all hnarrow.valid
  refine ⟨hnarrow.wide, hnarrow.fits, hnarrow.shift, hadded, ?_⟩
  intro k
  have hmask : ∀ x, t.maskKey (valueKey w' (prefixBits w' x))
      = valueKey (min w w') (prefixBits (min w w') x) :=
    maskKey_valueKey hnarrow.shift (min_le_right w w') hmax
  rw [hmem k, hnarrow.keys k]
  simp only [hkeys _, exists_exists_and_eq_and, hmask, hall, or_and_right, exists_or]
  exact or_comm

/-- The values of a blob of the set: ascending, of its width, no more than there are hashes. -/
lemma Holds.values_spec (hs : Holds s hashes w) {values : List ℕ}
    (hvalues : values = (s.keys.all.insertionSort (· ≤ ·)).map fun k => k.value >>> s.shift) :
    Ascending values ∧ (∀ v, v ∈ values ↔ ∃ x ∈ hashes, prefixBits w x = v) ∧
      values.length ≤ hashes.length := by
  have hkey : ∀ x : Hash, (valueKey w (prefixBits w x)).value >>> s.shift = prefixBits w x := by
    intro x
    rw [hs.shift]
    exact value_valueKey_shiftRight hs.fits (prefixBits_lt hs.fits x)
  have hsorted : (s.keys.all.insertionSort (· ≤ ·)).Pairwise (· < ·) := by
    have hnodup : (s.keys.all.insertionSort (· ≤ ·)).Nodup :=
      (List.perm_insertionSort _ _).nodup_iff.mpr hs.valid.nodup_all
    exact List.Pairwise.imp₂ (fun a b hab hne => lt_of_le_of_ne hab hne)
      (List.pairwise_insertionSort _ _) hnodup
  have hmem : ∀ k, k ∈ s.keys.all.insertionSort (· ≤ ·) ↔
      ∃ x ∈ hashes, valueKey w (prefixBits w x) = k := fun k =>
    (List.mem_insertionSort _).trans (hs.keys k)
  refine ⟨?_, ?_, ?_⟩
  · rw [hvalues, Ascending, List.pairwise_map]
    refine hsorted.imp_of_mem ?_
    intro a b ha hb hab
    obtain ⟨x, -, rfl⟩ := (hmem a).mp ha
    obtain ⟨y, -, rfl⟩ := (hmem b).mp hb
    have hvalue : (valueKey w (prefixBits w x)).value < (valueKey w (prefixBits w y)).value := hab
    rw [value_valueKey hs.fits (prefixBits_lt hs.fits x),
      value_valueKey hs.fits (prefixBits_lt hs.fits y)] at hvalue
    rw [hkey, hkey]
    exact Nat.lt_of_mul_lt_mul_right hvalue
  · intro v
    rw [hvalues, List.mem_map]
    simp only [hmem, exists_exists_and_eq_and, hkey]
  · have hsub : s.keys.all ⊆ hashes.map fun x => valueKey w (prefixBits w x) := by
      intro k hk
      obtain ⟨x, hx, rfl⟩ := (hs.keys k).mp hk
      exact List.mem_map_of_mem hx
    have hle := (List.subperm_of_subset hs.valid.nodup_all hsub).length_le
    rw [List.length_map] at hle
    rwa [hvalues, List.length_map, List.length_insertionSort]

/-- A set that fits in memory is written, and read back from what is written. -/
lemma Holds.marshalIndex (sha256 : Sha256) (hs : Holds s hashes w)
    (hlength : hashes.length < 2 ^ 58) :
    ∃ blob, marshalIndex sha256 s = some blob ∧ BlobOf sha256 blob hashes := by
  have hmin := hs.wide
  have hmax := hs.fits
  have hwidth : s.width = w := by
    rw [KeySet.width, hs.shift]
    omega
  unfold GoBuildCache.marshalIndex
  generalize hvalues : (s.keys.all.insertionSort (· ≤ ·)).map (fun k => k.value >>> s.shift)
    = values
  obtain ⟨hasc, hmem, hcount⟩ := hs.values_spec hvalues.symm
  have hlt : ∀ v ∈ values, v < 2 ^ w := by
    intro v hv
    obtain ⟨x, -, rfl⟩ := (hmem v).mp hv
    exact prefixBits_lt hmax x
  have hlimit : ¬ ∃ v ∈ values, prefixLimit w < v := by
    rintro ⟨v, hv, hover⟩
    have hbound := hlt v hv
    rw [prefixLimit_eq hmax] at hover
    omega
  refine ⟨marshalGBCI2 sha256 w values, ?_, w, values.map (valueKey w), hmin, hmax, ?_, ?_⟩
  · rw [hwidth, marshalIndexV2, if_neg (by omega), if_neg (by simp [hlimit, hasc])]
  · intro k
    rw [List.mem_map]
    simp only [hmem, exists_exists_and_eq_and]
  · exact parseIndexBlob_version_two sha256
      (parseIndexV2_marshalGBCI2 sha256 hmin hmax hasc hlt (by omega))

end Holds

/-! ## Blobs -/

section BlobOf

variable {sha256 : Sha256} {blob : Bytes} {hashes : List Hash}

/-- What the server serves is a blob of the hashes. -/
lemma blobOf_marshalForm (sha256 : Sha256) (l : HashSlice) (form : IndexForm) :
    BlobOf sha256 (marshalForm sha256 l.hashes form) l.hashes := by
  obtain ⟨keys, hparse, hkeys⟩ := parseIndexBlob_marshalForm_keys sha256 l form
  exact ⟨form.clientBits, keys, form.clientBits_le.1, form.clientBits_le.2, hkeys, hparse⟩

/-- The set that is parsed from a blob holds the leading bits of its hashes. -/
lemma BlobOf.represents (h : BlobOf sha256 blob hashes) {keys : KeySet} {etag : Bytes}
    (hparse : parseIndexBlob sha256 blob = .ok (keys, etag)) :
    Represents keys hashes keys.width ∧ etag = trailerETag blob := by
  obtain ⟨w, ks, -, hmax, hkeys, hblob⟩ := h
  obtain ⟨rfl, rfl⟩ := Prod.mk.inj (Except.ok.inj (hparse.symm.trans hblob))
  have hrepresents := represents_adoptSortedKeysAt hmax hkeys
  rw [hrepresents.width]
  exact ⟨hrepresents, rfl⟩

/-- A blob of a copy merged with what was added to its hashes is a blob of all of them. -/
lemma BlobOf.merge (h : BlobOf sha256 blob hashes) {body : Bytes} {hashes' all : List Hash}
    (hbody : BlobOf sha256 body hashes') (hall : ∀ h, h ∈ all ↔ h ∈ hashes ∨ h ∈ hashes')
    (hlength : all.length < 2 ^ 58) {added : KeySet} {etag : Bytes}
    (hparse : parseIndexBlob sha256 body = .ok (added, etag)) :
    ∃ merged, mergeIndexBlob sha256 blob added = some merged ∧ BlobOf sha256 merged all := by
  obtain ⟨w, ks, hmin, hmax, hkeys, hblob⟩ := h
  obtain ⟨w', ks', hmin', hmax', hkeys', hadded⟩ := hbody
  obtain ⟨rfl, -⟩ := Prod.mk.inj (Except.ok.inj (hparse.symm.trans hadded))
  have hsum := (holds_adoptSortedKeysAt hmin hmax hkeys).addAll
    (holds_adoptSortedKeysAt hmin' hmax' hkeys') hall
  rw [mergeIndexBlob, hblob]
  exact hsum.marshalIndex sha256 hlength

end BlobOf

end GoBuildCache
