import GoBuildCache.Foundation.Checked
import GoBuildCache.Foundation.FiniteMap
import GoBuildCache.Foundation.Uvarint

/-!
# The attribute that holds an object's metadata

The metadata and the audit fields of an object are stored in one extended attribute: a version, the
numbers of pairs, and the pairs, each as a key and a value with their lengths
(`encodeObjAttrs`). The decoder reads bytes that anyone may have written. It is translated with
checked slices, and with the sizes for which it makes its maps.

`Encodes` says what a value that decodes looks like. The decoder never slices out of range, makes
no map for more pairs than half the bytes can hold, and accepts exactly the values that are encoded
as a whole (`decodeObjAttrs_spec`, `decodeObjAttrs_of_encodes`).
-/

open ByteString Checked Uvarint

namespace GoBuildCache

/-- A Go map from strings to strings. -/
abbrev StringMap : Type := Finmap fun _ : Bytes => Bytes

/-- The metadata and the audit fields of an object. -/
structure ObjAttrMaps where
  /-- The metadata. -/
  md : StringMap
  /-- The audit fields. -/
  audit : StringMap
  deriving DecidableEq

/-- The first byte of a value. -/
def objAttrVersion : UInt8 := 1

/-! ## Encoding -/

/-- Appends the pairs of a map, in the order of the keys. -/
def appendKV (buf : Bytes) (kv : StringMap) : Bytes :=
  (kv.keys.sort (· ≤ ·)).foldl
    (fun buf k =>
      let v := (kv.lookup k).getD []
      buf ++ appendUvarint k.length ++ k ++ appendUvarint v.length ++ v)
    buf

/-- The value of the attribute. -/
def encodeObjAttrs (a : ObjAttrMaps) : Bytes :=
  let buf := [objAttrVersion]
  let buf := buf ++ appendUvarint a.md.keys.card
  let buf := buf ++ appendUvarint a.audit.keys.card
  appendKV (appendKV buf a.md) a.audit

/-! ## Decoding

`none` is the error of a value that does not decode. -/

/-- Reads a string with its length; what follows is left. -/
def readUvarintString (buf : Bytes) : Checked (Option (Bytes × Bytes)) :=
  let size := (uvarint buf).1
  let width := (uvarint buf).2
  if width ≤ 0 then .ok none
  else do
    let left ← minus buf.length width.toNat
    if left < size then .ok none
    else do
      let stop := width.toNat + size
      let s ← Checked.slice buf width.toNat stop
      let rest ← Checked.slice buf stop buf.length
      .ok (some (s, rest))

/-- Reads pairs into a map. -/
def decodePairsFrom : ℕ → StringMap → Bytes → Checked (Option (StringMap × Bytes))
  | 0, out, buf => .ok (some (out, buf))
  | count + 1, out, buf => do
    match ← readUvarintString buf with
    | none => .ok none
    | some (key, rest) =>
      match ← readUvarintString rest with
      | none => .ok none
      | some (val, rest) => decodePairsFrom count (out.insert key val) rest

/-- Reads pairs into a new map. -/
def decodePairs (buf : Bytes) (count : ℕ) : Checked (Option (StringMap × Bytes)) :=
  decodePairsFrom count ∅ buf

/-- Reads both maps, which have to be all that is left. The sizes are those for which maps are
made. -/
def decodeMaps (buf : Bytes) (nMeta nAudit : ℕ) : Checked (Option ObjAttrMaps × List ℕ) := do
  match ← decodePairs buf nMeta with
  | none => .ok (none, [nMeta])
  | some (md, buf) =>
    match ← decodePairs buf nAudit with
    | none => .ok (none, [nMeta, nAudit])
    | some (audit, buf) =>
      if buf.length ≠ 0 then .ok (none, [nMeta, nAudit])
      else .ok (some ⟨md, audit⟩, [nMeta, nAudit])

/-- Reads the numbers of pairs, and checks that the bytes that are left can hold them. -/
def decodeCounts (buf : Bytes) : Checked (Option ObjAttrMaps × List ℕ) :=
  let nMeta := (uvarint buf).1
  let width := (uvarint buf).2
  if width ≤ 0 then .ok (none, [])
  else do
    let buf ← Checked.slice buf width.toNat buf.length
    let nAudit := (uvarint buf).1
    let width := (uvarint buf).2
    if width ≤ 0 then .ok (none, [])
    else do
      let buf ← Checked.slice buf width.toNat buf.length
      if buf.length < nMeta ∨ buf.length < nAudit then .ok (none, [])
      else do
        let pairs ← word (nMeta + nAudit)
        let least ← word (pairs * 2)
        if buf.length < least then .ok (none, []) else decodeMaps buf nMeta nAudit

/-- Decodes a value of the attribute. -/
def decodeObjAttrs (buf : Bytes) : Checked (Option ObjAttrMaps × List ℕ) :=
  if buf.length = 0 then .ok (none, [])
  else do
    let version ← get buf 0
    if version ≠ objAttrVersion then .ok (none, [])
    else do
      let buf ← Checked.slice buf 1 buf.length
      decodeCounts buf

/-! ## Values that decode -/

/-- A pair as it is stored: each string after its length. -/
structure StoredPair where
  /-- The bytes of the length of the key. -/
  keySize : Bytes
  /-- The key. -/
  key : Bytes
  /-- The bytes of the length of the value. -/
  valueSize : Bytes
  /-- The value. -/
  value : Bytes
  /-- They are the length of the key. -/
  keySize_spec : IsUvarint keySize key.length
  /-- They are the length of the value. -/
  valueSize_spec : IsUvarint valueSize value.length

namespace StoredPair

/-- The bytes of a pair. -/
def bytes (p : StoredPair) : Bytes :=
  p.keySize ++ p.key ++ (p.valueSize ++ p.value)

/-- The bytes of pairs. -/
def allBytes (ps : List StoredPair) : Bytes :=
  ps.flatMap bytes

/-- The map of pairs; of two pairs with one key the later one counts. -/
def toMap (ps : List StoredPair) : StringMap :=
  Finmap.insertAll ∅ (ps.map fun p => (p.key, p.value))

/-- Every pair takes two bytes. -/
lemma two_mul_length_le (ps : List StoredPair) : ps.length * 2 ≤ (allBytes ps).length := by
  induction ps with
  | nil => exact le_rfl
  | cons p ps ih =>
    have hkey := p.keySize_spec.length_pos
    have hvalue := p.valueSize_spec.length_pos
    simp only [allBytes, List.flatMap_cons, bytes, List.length_append, List.length_cons] at ih ⊢
    omega

end StoredPair

/-- The whole of the bytes is a version, two numbers and as many pairs, which make the maps. -/
def Encodes (buf : Bytes) (a : ObjAttrMaps) : Prop :=
  ∃ nMeta nAudit md audit,
    buf = objAttrVersion ::
      (nMeta ++ (nAudit ++ (StoredPair.allBytes md ++ StoredPair.allBytes audit))) ∧
    IsUvarint nMeta md.length ∧ IsUvarint nAudit audit.length ∧
    StoredPair.toMap md = a.md ∧ StoredPair.toMap audit = a.audit

section Read

variable {buf size s rest : Bytes} {n count : ℕ} {out : StringMap}

/-- A number at the front is read. -/
lemma uvarint_append (hsize : IsUvarint size n) (rest : Bytes) :
    uvarint (size ++ rest) = (n, (size.length : ℤ)) ∧ ¬ (size.length : ℤ) ≤ 0 := by
  have hpos := hsize.length_pos
  exact ⟨hsize rest, by omega⟩

/-- A string with its length is read. -/
lemma readUvarintString_append (hsize : IsUvarint size s.length) (rest : Bytes) :
    readUvarintString (size ++ s ++ rest) = .ok (some (s, rest)) := by
  obtain ⟨hread, hpos⟩ := uvarint_append hsize (s ++ rest)
  rw [← List.append_assoc] at hread
  have hend : Checked.slice (size ++ s ++ rest) (size.length + s.length) (size ++ s ++ rest).length
      = .ok rest := by
    rw [← List.length_append]
    exact slice_append_right ..
  rw [readUvarintString, hread]
  dsimp only
  rw [if_neg hpos, Int.toNat_natCast, minus_of_le (by simp), ok_bind, if_neg (by simp),
    slice_append_append, ok_bind, hend, ok_bind]

/-- Either the bytes do not begin with a string, or it is read. -/
lemma readUvarintString_cases (buf : Bytes) :
    readUvarintString buf = .ok none ∨
      ∃ size s rest, buf = size ++ s ++ rest ∧ IsUvarint size s.length ∧
        readUvarintString buf = .ok (some (s, rest)) := by
  by_cases hwidth : (uvarint buf).2 ≤ 0
  · left
    rw [readUvarintString, if_pos hwidth]
  · obtain ⟨size, tail, hbuf, hsize⟩ := exists_isUvarint (not_le.mp hwidth)
    obtain ⟨hread, hpos⟩ := uvarint_append hsize tail
    rw [← hbuf] at hread
    set n := (uvarint buf).1
    by_cases hfits : n ≤ tail.length
    · right
      have htake : (tail.take n).length = n := List.length_take_of_le hfits
      have hsplit : buf = size ++ tail.take n ++ tail.drop n := by
        rw [List.append_assoc, List.take_append_drop, hbuf]
      rw [← htake] at hsize
      refine ⟨size, tail.take n, tail.drop n, hsplit, hsize, ?_⟩
      rw [hsplit]
      exact readUvarintString_append hsize _
    · left
      have hlength : buf.length = size.length + tail.length := by rw [hbuf, List.length_append]
      rw [readUvarintString, if_neg hwidth, hread]
      dsimp only
      rw [Int.toNat_natCast, minus_of_le (by omega), ok_bind, if_pos (by omega)]

/-- Pairs are read. -/
lemma decodePairsFrom_append (ps : List StoredPair) (out : StringMap) (rest : Bytes) :
    decodePairsFrom ps.length out (StoredPair.allBytes ps ++ rest)
      = .ok (some (out.insertAll (ps.map fun p => (p.key, p.value)), rest)) := by
  induction ps generalizing out with
  | nil => rfl
  | cons p ps ih =>
    have hbytes : StoredPair.allBytes (p :: ps) ++ rest
        = p.keySize ++ p.key ++ (p.valueSize ++ p.value ++ (StoredPair.allBytes ps ++ rest)) := by
      simp [StoredPair.allBytes, StoredPair.bytes]
    rw [hbytes, List.length_cons, decodePairsFrom, readUvarintString_append p.keySize_spec, ok_bind]
    dsimp only
    rw [readUvarintString_append p.valueSize_spec, ok_bind]
    exact ih _

/-- Either there are not as many pairs, or they are read. -/
lemma decodePairsFrom_cases (count : ℕ) (out : StringMap) (buf : Bytes) :
    decodePairsFrom count out buf = .ok none ∨
      ∃ ps rest, ps.length = count ∧ buf = StoredPair.allBytes ps ++ rest := by
  induction count generalizing out buf with
  | zero => exact Or.inr ⟨[], buf, rfl, rfl⟩
  | succ count ih =>
    rcases readUvarintString_cases buf with hkey | ⟨keySize, key, buf', hbuf, hkeySize, hkey⟩
    · left
      rw [decodePairsFrom, hkey, ok_bind]
    rcases readUvarintString_cases buf' with
      hval | ⟨valueSize, value, buf'', hbuf', hvalueSize, hval⟩
    · left
      rw [decodePairsFrom, hkey, ok_bind]
      dsimp only
      rw [hval, ok_bind]
    rcases ih (out.insert key value) buf'' with hrest | ⟨ps, rest, hlength, hbuf''⟩
    · left
      rw [decodePairsFrom, hkey, ok_bind]
      dsimp only
      rw [hval, ok_bind]
      exact hrest
    · right
      refine ⟨⟨keySize, key, valueSize, value, hkeySize, hvalueSize⟩ :: ps, rest, ?_, ?_⟩
      · rw [List.length_cons, hlength]
      · rw [hbuf, hbuf', hbuf'']
        simp [StoredPair.allBytes, StoredPair.bytes]

end Read

/-- What is made of bytes that are the pairs of two maps. -/
lemma decodeMaps_append (md audit : List StoredPair) :
    decodeMaps (StoredPair.allBytes md ++ StoredPair.allBytes audit) md.length audit.length
      = .ok (some ⟨StoredPair.toMap md, StoredPair.toMap audit⟩, [md.length, audit.length]) := by
  have haudit := decodePairsFrom_append audit ∅ []
  rw [List.append_nil] at haudit
  rw [decodeMaps, decodePairs, decodePairsFrom_append, ok_bind]
  dsimp only
  rw [decodePairs, haudit, ok_bind]
  rfl

/-- Whatever the bytes are, maps are made for the numbers of pairs only, and if both are read the
bytes are their pairs. -/
lemma decodeMaps_spec (buf : Bytes) (nMeta nAudit : ℕ) :
    ∃ result made, decodeMaps buf nMeta nAudit = .ok (result, made) ∧
      made.sum ≤ nMeta + nAudit ∧
      ∀ a, result = some a → ∃ md audit : List StoredPair,
        md.length = nMeta ∧ audit.length = nAudit ∧
        buf = StoredPair.allBytes md ++ StoredPair.allBytes audit ∧
        StoredPair.toMap md = a.md ∧ StoredPair.toMap audit = a.audit := by
  rcases decodePairsFrom_cases nMeta ∅ buf with hmd | ⟨md, buf', rfl, rfl⟩
  · refine ⟨none, [nMeta], ?_, by simp, by simp⟩
    rw [decodeMaps, decodePairs, hmd, ok_bind]
  rcases decodePairsFrom_cases nAudit ∅ buf' with haudit | ⟨audit, buf'', rfl, rfl⟩
  · refine ⟨none, [md.length, nAudit], ?_, by simp, by simp⟩
    rw [decodeMaps, decodePairs, decodePairsFrom_append, ok_bind]
    dsimp only
    rw [decodePairs, haudit, ok_bind]
  by_cases hrest : buf'' = []
  · subst hrest
    rw [List.append_nil]
    refine ⟨_, _, decodeMaps_append md audit, by simp, ?_⟩
    rintro a ⟨⟩
    exact ⟨md, audit, rfl, rfl, rfl, rfl, rfl⟩
  · refine ⟨none, [md.length, audit.length], ?_, by simp, by simp⟩
    rw [decodeMaps, decodePairs, decodePairsFrom_append, ok_bind]
    dsimp only
    rw [decodePairs, decodePairsFrom_append, ok_bind]
    dsimp only
    rw [if_pos fun h => hrest (List.eq_nil_of_length_eq_zero h)]

/-- What is made of bytes that begin with two numbers. -/
lemma decodeCounts_append {meta' audit' rest : Bytes} {nMeta nAudit : ℕ}
    (hmd : IsUvarint meta' nMeta) (haudit : IsUvarint audit' nAudit)
    (hlen : rest.length < 2 ^ 62) :
    decodeCounts (meta' ++ (audit' ++ rest))
      = if rest.length < (nMeta + nAudit) * 2 then .ok (none, [])
        else decodeMaps rest nMeta nAudit := by
  obtain ⟨hread, hpos⟩ := uvarint_append hmd (audit' ++ rest)
  obtain ⟨hread', hpos'⟩ := uvarint_append haudit rest
  rw [decodeCounts, hread]
  dsimp only
  rw [if_neg hpos, Int.toNat_natCast, slice_append_right, ok_bind, hread']
  dsimp only
  rw [if_neg hpos', Int.toNat_natCast, slice_append_right, ok_bind]
  split_ifs with hsingle hpairs hpairs
  · rfl
  · omega
  · rw [word_of_lt (by omega), ok_bind, word_of_lt (by omega), ok_bind, if_pos hpairs]
  · rw [word_of_lt (by omega), ok_bind, word_of_lt (by omega), ok_bind, if_neg hpairs]

lemma decodeObjAttrs_cons (buf : Bytes) :
    decodeObjAttrs (objAttrVersion :: buf) = decodeCounts buf := by
  have hslice := slice_append_right [objAttrVersion] buf
  rw [decodeObjAttrs, if_neg (by simp), get_of_lt (by simp), ok_bind, if_neg (by simp)]
  exact (congrArg (· >>= decodeCounts) hslice).trans (ok_bind ..)

/-- A value is decoded as the maps that it encodes. -/
lemma decodeObjAttrs_of_encodes {buf : Bytes} {a : ObjAttrMaps} (h : Encodes buf a)
    (hlen : buf.length < 2 ^ 62) : ∃ made, decodeObjAttrs buf = .ok (some a, made) := by
  obtain ⟨nMeta, nAudit, md, audit, rfl, hmd, haudit, hmap, hmap'⟩ := h
  have hpairs := StoredPair.two_mul_length_le md
  have hpairs' := StoredPair.two_mul_length_le audit
  simp only [List.length_cons, List.length_append] at hlen
  refine ⟨[md.length, audit.length], ?_⟩
  rw [decodeObjAttrs_cons, decodeCounts_append hmd haudit (by rw [List.length_append]; omega),
    if_neg (by rw [List.length_append]; omega), decodeMaps_append, hmap, hmap']

/-- What comes after the version, whatever it is. -/
lemma decodeCounts_spec (buf : Bytes) (hlen : buf.length < 2 ^ 62) :
    ∃ result made, decodeCounts buf = .ok (result, made) ∧ made.sum * 2 ≤ buf.length ∧
      ∀ a, result = some a → Encodes (objAttrVersion :: buf) a := by
  have hnone : ∀ {r : Checked (Option ObjAttrMaps × List ℕ)}, r = .ok (none, []) →
      ∃ result made, r = .ok (result, made) ∧ made.sum * 2 ≤ buf.length ∧
        ∀ a, result = some a → Encodes (objAttrVersion :: buf) a :=
    fun h => ⟨none, [], h, by simp, by simp⟩
  by_cases hwidth : (uvarint buf).2 ≤ 0
  · exact hnone (by rw [decodeCounts, if_pos hwidth])
  obtain ⟨nMeta, buf', hbuf, hmd⟩ := exists_isUvarint (not_le.mp hwidth)
  by_cases hwidth' : (uvarint buf').2 ≤ 0
  · obtain ⟨hread, hpos⟩ := uvarint_append hmd buf'
    refine hnone ?_
    rw [hbuf, decodeCounts, hread]
    dsimp only
    rw [if_neg hpos, Int.toNat_natCast, slice_append_right, ok_bind, if_pos hwidth']
  obtain ⟨nAudit, rest, hbuf', haudit⟩ := exists_isUvarint (not_le.mp hwidth')
  have hlength : buf.length = nMeta.length + (nAudit.length + rest.length) := by
    rw [hbuf, hbuf', List.length_append, List.length_append]
  have hrestLength : rest.length < 2 ^ 62 := by omega
  have hcounts := decodeCounts_append hmd haudit hrestLength
  rw [← hbuf', ← hbuf] at hcounts
  split_ifs at hcounts with hpairs
  · exact hnone hcounts
  obtain ⟨result, made, hmaps, hsum, hencodes⟩ :=
    decodeMaps_spec rest (uvarint buf).1 (uvarint buf').1
  refine ⟨result, made, hcounts.trans hmaps, by omega, ?_⟩
  intro a ha
  obtain ⟨md, audit, hmdLength, hauditLength, hrest, hmap, hmap'⟩ := hencodes a ha
  refine ⟨nMeta, nAudit, md, audit, ?_, hmdLength ▸ hmd, hauditLength ▸ haudit, hmap, hmap'⟩
  rw [← hrest, ← hbuf', ← hbuf]

/-- Whatever the bytes are, the decoder has no fault, it makes maps for no more pairs than half of
them can hold, and if it succeeds the whole of the bytes encodes the maps. -/
lemma decodeObjAttrs_spec (buf : Bytes) (hlen : buf.length < 2 ^ 62) :
    ∃ result made, decodeObjAttrs buf = .ok (result, made) ∧ made.sum * 2 ≤ buf.length ∧
      ∀ a, result = some a → Encodes buf a := by
  cases buf with
  | nil => exact ⟨none, [], rfl, by simp, by simp⟩
  | cons b buf =>
    rw [List.length_cons] at hlen
    by_cases hversion : b = objAttrVersion
    · obtain ⟨result, made, hcounts, hsum, hencodes⟩ := decodeCounts_spec buf (by omega)
      rw [hversion, decodeObjAttrs_cons]
      exact ⟨result, made, hcounts, hsum.trans (Nat.le_succ _), hencodes⟩
    · refine ⟨none, [], ?_, by simp, by simp⟩
      rw [decodeObjAttrs, if_neg (by simp), get_of_lt (by simp), ok_bind]
      exact if_pos hversion

/-! ## What is written -/

/-- The bytes of a pair, as they are written. -/
def pairBytes (k v : Bytes) : Bytes :=
  appendUvarint k.length ++ k ++ (appendUvarint v.length ++ v)

/-- The pairs are appended one after the other. -/
lemma appendKV_eq (buf : Bytes) (kv : StringMap) :
    appendKV buf kv
      = buf ++ (kv.keys.sort (· ≤ ·)).flatMap fun k => pairBytes k ((kv.lookup k).getD []) := by
  rw [appendKV]
  generalize kv.keys.sort (· ≤ ·) = keys
  induction keys generalizing buf with
  | nil => simp
  | cons k keys ih =>
    rw [List.foldl_cons, ih]
    simp [pairBytes]

/-- Pairs that are short enough are stored as they are written. -/
lemma exists_storedPairs (keys : List Bytes) (value : Bytes → Bytes)
    (hlen : (keys.flatMap fun k => pairBytes k (value k)).length < 2 ^ 64) :
    ∃ ps : List StoredPair, ps.map (fun p => (p.key, p.value)) = keys.map (fun k => (k, value k)) ∧
      StoredPair.allBytes ps = keys.flatMap fun k => pairBytes k (value k) := by
  induction keys with
  | nil => exact ⟨[], rfl, rfl⟩
  | cons k keys ih =>
    simp only [List.flatMap_cons, pairBytes, List.length_append] at hlen
    obtain ⟨ps, hpairs, hbytes⟩ := ih (by simp only [pairBytes]; omega)
    refine ⟨⟨_, k, _, value k, isUvarint_appendUvarint (x := k.length) (by omega),
      isUvarint_appendUvarint (x := (value k).length) (by omega)⟩ :: ps, ?_, ?_⟩
    · rw [List.map_cons, List.map_cons, hpairs]
    · rw [StoredPair.allBytes, List.flatMap_cons, List.flatMap_cons, ← StoredPair.allBytes, hbytes]
      rfl

/-- The pairs of a map, as they are written, make the map. -/
lemma exists_storedPairs_toMap (kv : StringMap) (buf : Bytes)
    (hlen : (appendKV buf kv).length < 2 ^ 64) :
    ∃ ps : List StoredPair, ps.length = kv.keys.card ∧ StoredPair.toMap ps = kv ∧
      appendKV buf kv = buf ++ StoredPair.allBytes ps := by
  rw [appendKV_eq, List.length_append] at hlen
  obtain ⟨ps, hpairs, hbytes⟩ := exists_storedPairs (kv.keys.sort (· ≤ ·))
    (fun k => (kv.lookup k).getD []) (by omega)
  refine ⟨ps, ?_, ?_, ?_⟩
  · have hlength := congrArg List.length hpairs
    rwa [List.length_map, List.length_map, Finset.length_sort] at hlength
  · rw [StoredPair.toMap, hpairs]
    refine Finmap.insertAll_eq ?_ ?_
    · intro p hp
      obtain ⟨k, hk, rfl⟩ := List.mem_map.mp hp
      obtain ⟨v, hv⟩ := Finmap.mem_iff.mp (Finmap.mem_keys.mp ((Finset.mem_sort _).mp hk))
      simp [hv]
    · intro k hk
      exact ⟨_, List.mem_map_of_mem ((Finset.mem_sort _).mpr (Finmap.mem_keys.mpr hk)), rfl⟩
  · rw [appendKV_eq, hbytes]

/-- What is written encodes the attributes. -/
lemma encodes_encodeObjAttrs (a : ObjAttrMaps) (hlen : (encodeObjAttrs a).length < 2 ^ 62) :
    Encodes (encodeObjAttrs a) a := by
  let counts := appendUvarint a.md.keys.card ++ appendUvarint a.audit.keys.card
  have hbuf : encodeObjAttrs a = appendKV (appendKV (objAttrVersion :: counts) a.md) a.audit := by
    simp [encodeObjAttrs, counts]
  rw [hbuf] at hlen ⊢
  obtain ⟨audit, hauditLength, haudit, hauditBytes⟩ := exists_storedPairs_toMap a.audit
    (appendKV (objAttrVersion :: counts) a.md) (by omega)
  rw [hauditBytes, List.length_append] at hlen
  obtain ⟨md, hmdLength, hmd, hmdBytes⟩ := exists_storedPairs_toMap a.md
    (objAttrVersion :: counts) (by omega)
  rw [hmdBytes, List.length_append] at hlen
  have hpairs := StoredPair.two_mul_length_le md
  have hpairs' := StoredPair.two_mul_length_le audit
  refine ⟨_, _, md, audit, ?_, isUvarint_appendUvarint (by omega),
    isUvarint_appendUvarint (by omega), hmd, haudit⟩
  rw [hauditBytes, hmdBytes, hmdLength, hauditLength]
  simp [counts]

/-- Object attributes survive storage. The value that is written for any metadata and audit fields
decodes to them; and whatever bytes are decoded, no slice is out of range, no map is made for more
pairs than half of the bytes can hold, and on success the whole of the bytes is a version, two
numbers of pairs and these pairs. Values fit in memory. -/
theorem objAttrs_survive :
    (∀ a, (encodeObjAttrs a).length < 2 ^ 62 →
      ∃ made, decodeObjAttrs (encodeObjAttrs a) = .ok (some a, made)) ∧
    ∀ buf : Bytes, buf.length < 2 ^ 62 →
      ∃ result made, decodeObjAttrs buf = .ok (result, made) ∧ made.sum * 2 ≤ buf.length ∧
        ∀ a, result = some a → Encodes buf a := by
  constructor
  · intro a hlen
    exact decodeObjAttrs_of_encodes (encodes_encodeObjAttrs a hlen) hlen
  · exact decodeObjAttrs_spec

/-- A field of metadata and one of audit. -/
def outputAttrs : ObjAttrMaps :=
  ⟨(∅ : StringMap).insert (ascii "outputid") (ascii "ab"), (∅ : StringMap).insert (ascii "host") []⟩

theorem objAttrs_survive_output :
    ∃ made, decodeObjAttrs (encodeObjAttrs outputAttrs) = .ok (some outputAttrs, made) :=
  objAttrs_survive.1 outputAttrs (by decide +kernel)

end GoBuildCache
