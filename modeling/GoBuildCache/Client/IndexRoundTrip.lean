import GoBuildCache.Client.IndexParse
import GoBuildCache.Index.Wire

/-!
# The index crosses the wire unchanged

What the server writes with `marshalForm`, the client reads with `parseIndexBlob`. The two programs
meet in the layout of a blob (`frame` lemmas) and, for version 2, in the Rice code of the values:
the writer appends it (`bytesToBits_body`) and `readValues_of_bits` reads it back value by value.
The header's count passes the parser's plausibility check because a list that fits in memory has a
short code (`length_body_lt`).

The result is `parseIndexBlob_marshalForm`: every served form is accepted, and the parsed set holds
exactly the leading bits of the listed hashes.
-/

open ByteString BitString SortedList RiceCode

namespace GoBuildCache

/-- A slice of hashes as the index serializes it. -/
structure HashSlice where
  /-- The hashes. -/
  hashes : List Hash
  /-- They are sorted, and none is repeated. -/
  ascending : Ascending hashes
  /-- They fit in memory: the size of a slice in bytes is an `int`. -/
  fits : 32 * hashes.length < 2 ^ 63

/-! ## The layout of a blob -/

lemma slice_append {xs ys zs : Bytes} {i j : ℕ} (hi : xs.length = i) (hj : i + ys.length = j) :
    slice (xs ++ ys ++ zs) i j = ys := by
  subst hi hj
  rw [slice, List.take_append_of_le_length (by simp), List.take_of_length_le (by simp),
    List.drop_left]

section Frame

variable (sha256 : Sha256) (version width param : UInt8) (count : ℕ) (body : Bytes)

lemma length_gbciHeader : (gbciHeader sha256 version width param count body).length = 24 := by
  simp [gbciHeader, (sha256 body).size, gbciMagic, ascii]

lemma length_gbciBlob :
    (gbciBlob sha256 version width param count body).length = 24 + body.length + 32 := by
  simp [gbciBlob, length_gbciHeader, FixedBytes.size, Nat.add_assoc]

/-- The trailer of a blob is the digest of everything before it. -/
lemma trailer_gbciBlob {n : ℕ} (hn : n = 24 + body.length) :
    (sha256 ((gbciBlob sha256 version width param count body).take n)).bytes
      = (gbciBlob sha256 version width param count body).drop n := by
  set signed := gbciHeader sha256 version width param count body ++ body with hsigned
  have hlen : signed.length = n := by
    rw [hsigned, List.length_append, length_gbciHeader, hn]
  have hblob : gbciBlob sha256 version width param count body
      = signed ++ (sha256 signed).bytes := rfl
  rw [hblob, ← hlen, List.take_left, List.drop_left]

lemma slice_body_gbciBlob {n : ℕ} (hn : n = 24 + body.length) :
    slice (gbciBlob sha256 version width param count body) 24 n = body :=
  slice_append (length_gbciHeader sha256 version width param count body) hn.symm

lemma slice_magic_gbciBlob :
    slice (gbciBlob sha256 version width param count body) 0 4 = ascii "GBCI" := by
  rfl

lemma byteAt_version_gbciBlob :
    byteAt (gbciBlob sha256 version width param count body) 4 = version := by
  rfl

lemma byteAt_width_gbciBlob :
    byteAt (gbciBlob sha256 version width param count body) 5 = width := by
  rfl

lemma byteAt_param_gbciBlob :
    byteAt (gbciBlob sha256 version width param count body) 6 = param := by
  rfl

lemma slice_count_gbciBlob :
    slice (gbciBlob sha256 version width param count body) 16 24 = leBytes 8 count := by
  have hblob : gbciBlob sha256 version width param count body
      = (gbciMagic ++ [version, width, param, 0] ++ (sha256 body).bytes.take 8) ++ leBytes 8 count
        ++ (body ++ (sha256 (gbciHeader sha256 version width param count body ++ body)).bytes) := by
    simp [gbciBlob, gbciHeader]
  rw [hblob]
  apply slice_append
  · simp [(sha256 body).size, gbciMagic, ascii]
  · simp

end Frame

/-! ## Version 2 -/

lemma prefixLimit_eq {widthBits : ℕ} (hw : widthBits ≤ 64) :
    prefixLimit widthBits = 2 ^ widthBits - 1 := by
  rw [prefixLimit]
  split_ifs with h
  · rw [le_antisymm hw h]
  · rfl

/-- The quotient and the remainder of a gap are read back from its code. -/
lemma read_code {k g : ℕ} {r : BitReader} {tail : List Bool} (hk : k ≤ 63) (hg : g < 2 ^ 64)
    (hbits : r.bits = code k g ++ tail) :
    ∃ r₁ r₂, r.readUnary = some (g / 2 ^ k, r₁) ∧ r₁.readBits k = some (g % 2 ^ k, r₂) ∧
      r₂.bits = tail := by
  have hunary := r.readUnary_refines
  rw [hbits, code, List.append_assoc, takeUnary_unary_append, Option.map_some,
    wrap64_of_lt ((Nat.div_le_self _ _).trans_lt hg), Option.map_eq_some_iff] at hunary
  obtain ⟨⟨q, r₁⟩, hq, heq⟩ := hunary
  obtain ⟨rfl, hr₁⟩ : q = g / 2 ^ k ∧ r₁.bits = bitsBE k g ++ tail := by simpa using heq
  have hlow := r₁.readBits_refines (show k ≤ 64 by omega)
  rw [hr₁, ← bitsBE_mod le_rfl, takeBits_bitsBE_append (Nat.mod_lt _ (by positivity)),
    Option.map_eq_some_iff] at hlow
  obtain ⟨⟨low, r₂⟩, hread, heq⟩ := hlow
  obtain ⟨rfl, hr₂⟩ : low = g % 2 ^ k ∧ r₂.bits = tail := by simpa using heq
  exact ⟨r₁, r₂, hq, hread, hr₂⟩

/-- From the gap that was written, the value is computed again and passes the checks. -/
lemma nextValue_gap {widthBits i v : ℕ} {prev : Option ℕ} (hw : widthBits ≤ 64)
    (hprev : floor prev ≤ v) (hv : v < 2 ^ widthBits) :
    nextValue widthBits i prev (v - floor prev) = .ok v := by
  have hpow : 2 ^ widthBits ≤ 2 ^ 64 := Nat.pow_le_pow_right (by decide) hw
  have hlimit := prefixLimit_eq hw
  cases prev with
  | none =>
    have hle : ¬ prefixLimit widthBits < v := by omega
    simp [nextValue, floor, hle]
  | some p =>
    have hp : p + 1 ≤ v := hprev
    have hsub : sub64 (sub64 (prefixLimit widthBits) p) 1 = 2 ^ widthBits - 1 - p - 1 := by
      have hinner : sub64 (2 ^ widthBits - 1) p = 2 ^ widthBits - 1 - p :=
        sub64_of_le (by omega) (by omega)
      rw [hlimit, hinner, sub64_of_le (by omega) (by omega)]
    have hcheck : ¬ (prefixLimit widthBits ≤ p ∨
        sub64 (sub64 (prefixLimit widthBits) p) 1 < v - (p + 1)) := by
      rw [hsub]
      omega
    have hval : wrap64 (p + (v - (p + 1)) + 1) = v := by
      rw [wrap64_of_lt (by omega)]
      omega
    have hle : ¬ prefixLimit widthBits < v := by omega
    simp only [nextValue, floor, if_neg hcheck, hval, if_neg hle]

/-- A value is read back from the code of its gap. -/
lemma readValue_of_bits (count i : ℕ) {k widthBits v : ℕ} {prev : Option ℕ} {r : BitReader}
    {tail : List Bool} (hk : k ≤ 63) (hw : widthBits ≤ 64) (hprev : floor prev ≤ v)
    (hv : v < 2 ^ widthBits) (hbits : r.bits = code k (v - floor prev) ++ tail) :
    ∃ r', readValue k widthBits count i prev r = .ok (v, r') ∧ r'.bits = tail := by
  have hpow : 2 ^ widthBits ≤ 2 ^ 64 := Nat.pow_le_pow_right (by decide) hw
  have hnext := nextValue_gap (i := i) hw hprev hv
  set g := v - floor prev
  have hg : g < 2 ^ 64 := by omega
  obtain ⟨r₁, r₂, hunary, hlow, hr₂⟩ := read_code hk hg hbits
  have hquot : (g / 2 ^ k) >>> (64 - k) = 0 := by
    rw [Nat.shiftRight_eq_div_pow, Nat.div_div_eq_div_mul, ← pow_add,
      Nat.add_sub_cancel' (by omega), Nat.div_eq_of_lt hg]
  have hgap : wrap64 ((g / 2 ^ k) <<< k) ||| g % 2 ^ k = g := by
    have hmul : g / 2 ^ k * 2 ^ k ≤ g := Nat.div_mul_le_self g (2 ^ k)
    rw [Nat.shiftLeft_eq, wrap64_of_lt (by omega), ← Nat.shiftLeft_eq,
      ← Nat.shiftLeft_add_eq_or_of_lt (Nat.mod_lt _ (by positivity)), Nat.shiftLeft_eq,
      Nat.mul_comm, Nat.div_add_mod]
  refine ⟨r₂, ?_, hr₂⟩
  simp only [readValue, hunary, hlow, hquot, hgap, hnext, ne_eq, not_true_eq_false, and_false,
    if_false]
  rfl

/-- A list of values is read back from its code, and what follows the code is left unread. -/
lemma readValues_of_bits (count : ℕ) {k widthBits : ℕ} {prev : Option ℕ} {vs : List ℕ}
    {r : BitReader} {tail : List Bool} (hk : k ≤ 63) (hw : widthBits ≤ 64)
    (hvs : AscendsFrom prev vs) (hlt : ∀ v ∈ vs, v < 2 ^ widthBits)
    (hbits : r.bits = bitsFrom k prev vs ++ tail) :
    ∃ r', readValues k widthBits count vs.length prev r = .ok (vs, r') ∧ r'.bits = tail := by
  induction vs generalizing prev r with
  | nil => exact ⟨r, rfl, by simpa [bitsFrom, gapsFrom] using hbits⟩
  | cons v vs ih =>
    rw [bitsFrom_cons, List.append_assoc] at hbits
    obtain ⟨r₁, hread, hr₁⟩ := readValue_of_bits count (count - (vs.length + 1)) hk hw
      hvs.floor_le (hlt v (by simp)) hbits
    obtain ⟨r₂, hrest, hr₂⟩ := ih hvs.tail (fun u hu => hlt u (by simp [hu])) hr₁
    refine ⟨r₂, ?_, hr₂⟩
    simp only [List.length_cons, readValues, hread, hrest]
    rfl

/-! ## The code of a list that fits in memory is short -/

lemma add_four_le_two_pow {x : ℕ} (hx : 3 ≤ x) : x + 4 ≤ 2 ^ x := by
  induction x, hx using Nat.le_induction with
  | base => decide
  | succ x hx ih =>
    rw [pow_succ]
    omega

lemma two_pow_div_two_pow_le {widthBits m L : ℕ} (hw : widthBits ≤ m + L) :
    2 ^ widthBits / 2 ^ m ≤ 2 ^ L := by
  have hpow : 2 ^ widthBits ≤ 2 ^ L * 2 ^ m := by
    rw [← pow_add, Nat.add_comm]
    exact Nat.pow_le_pow_right (by decide) hw
  calc 2 ^ widthBits / 2 ^ m ≤ 2 ^ L * 2 ^ m / 2 ^ m := Nat.div_le_div_right hpow
    _ = 2 ^ L := Nat.mul_div_cancel _ (by positivity)

/-- With the parameter the server chooses, the code of a list that fits in memory has less than
`2 ^ 62` bits. -/
lemma length_bitsFrom_riceParam_lt {widthBits : ℕ} {vs : List ℕ} (hw : widthBits ≤ 64)
    (hvs : Ascending vs) (hlt : ∀ v ∈ vs, v < 2 ^ widthBits) (hfits : vs.length < 2 ^ 58) :
    (bitsFrom (riceParam widthBits vs.length) none vs).length < 2 ^ 62 := by
  set k := riceParam widthBits vs.length with hk
  have hlen := length_bitsFrom_none_le (k := k) hvs hlt
  by_cases h1 : vs.length ≤ 1
  · have hkval : k = min widthBits 63 := by
      rw [hk, riceParam, if_neg (by omega)]
    have hquot : 2 ^ widthBits / 2 ^ k ≤ 2 ^ 1 := two_pow_div_two_pow_le (by omega)
    have hmul : vs.length * (k + 1) ≤ 1 * (k + 1) := Nat.mul_le_mul_right _ h1
    omega
  · set L := len64 (vs.length - 1) with hL
    have hkval : k = min (widthBits - L) 63 := by
      rw [hk, riceParam, if_pos (by omega)]
    have hL58 : L ≤ 58 := Nat.size_le.mpr (by omega)
    have hn : vs.length ≤ 2 ^ L := by
      have h : vs.length - 1 < 2 ^ L := Nat.size_le.mp le_rfl
      omega
    have hLpos : 0 < L := Nat.size_pos.mpr (by omega)
    have hquot : 2 ^ widthBits / 2 ^ k ≤ 2 ^ L := two_pow_div_two_pow_le (by omega)
    have hpowL : 2 ^ L ≤ 2 ^ 58 := Nat.pow_le_pow_right (by decide) hL58
    have hparam : k + 1 ≤ 2 ^ (61 - L) := by
      have h := add_four_le_two_pow (x := 61 - L) (by omega)
      omega
    have hmul : vs.length * (k + 1) ≤ 2 ^ 61 := by
      calc vs.length * (k + 1) ≤ 2 ^ L * 2 ^ (61 - L) := Nat.mul_le_mul hn hparam
        _ = 2 ^ 61 := by rw [← pow_add, Nat.add_sub_cancel' (by omega)]
    omega

/-- The body that the server writes is read back completely. -/
lemma parseBodyV2_flush {widthBits : ℕ} {vs : List ℕ} (hw : widthBits ≤ 64) (hvs : Ascending vs)
    (hlt : ∀ v ∈ vs, v < 2 ^ widthBits) (hfits : vs.length < 2 ^ 58) :
    parseBodyV2 (riceParam widthBits vs.length) widthBits vs.length
      (writeValues (riceParam widthBits vs.length) .empty none vs).flush = .ok (vs, widthBits) := by
  have hcode := length_bitsFrom_riceParam_lt hw hvs hlt hfits
  have hk63 := riceParam_le widthBits vs.length
  set k := riceParam widthBits vs.length
  have h64 : ∀ v ∈ vs, v < 2 ^ 64 := fun v hv =>
    (hlt v hv).trans_le (Nat.pow_le_pow_right (by decide) hw)
  obtain ⟨pad, hpad, hbits⟩ := bytesToBits_body hk63 hvs h64
  set body := (writeValues k .empty none vs).flush
  have hlen : 8 * body.length = (bitsFrom k none vs).length + pad := by
    have h := congrArg List.length hbits
    simpa using h
  have hplausible : ¬ wrap64 (body.length * 8) / (k + 1) < vs.length := by
    have hle := le_length_bitsFrom k none vs
    rw [wrap64_of_lt (by omega), not_lt, Nat.le_div_iff_mul_le (by omega)]
    omega
  obtain ⟨r, hread, hr⟩ := readValues_of_bits vs.length (r := .ofBytes body) hk63 hw
    (ascendsFrom_none hvs) hlt (by rw [BitReader.bits_ofBytes, hbits])
  have hend : ¬ (r.rest ≠ [] ∨ 8 ≤ r.n) := by
    have h := r.length_bits
    rw [hr, List.length_replicate] at h
    have hrest : r.rest = [] := List.length_eq_zero_iff.mp (by omega)
    simp only [hrest, ne_eq, not_true_eq_false, false_or, not_le]
    omega
  simp only [parseBodyV2, if_neg hplausible, hread, if_neg hend]

/-- The parser reads back the values of a version 2 blob. -/
theorem parseIndexV2_marshalGBCI2 (sha256 : Sha256) {widthBits : ℕ} {vs : List ℕ}
    (hmin : 32 ≤ widthBits) (hmax : widthBits ≤ 64) (hvs : Ascending vs)
    (hlt : ∀ v ∈ vs, v < 2 ^ widthBits) (hfits : vs.length < 2 ^ 58) :
    parseIndexV2 sha256 (marshalGBCI2 sha256 widthBits vs) = .ok (vs, widthBits) := by
  have hparse := parseBodyV2_flush hmax hvs hlt hfits
  have hk63 := riceParam_le widthBits vs.length
  set k := riceParam widthBits vs.length
  set body := (writeValues k .empty none vs).flush
  have hblob : marshalGBCI2 sha256 widthBits vs
      = gbciBlob sha256 2 (UInt8.ofNat widthBits) (UInt8.ofNat k) vs.length body := rfl
  have hwidth : (UInt8.ofNat widthBits).toNat = widthBits := by
    rw [UInt8.toNat_ofNat', Nat.mod_eq_of_lt (by omega)]
  have hparam : (UInt8.ofNat k).toNat = k := by
    rw [UInt8.toNat_ofNat', Nat.mod_eq_of_lt (by omega)]
  have hcount : leValue (leBytes 8 vs.length) = vs.length :=
    leValue_leBytes_of_lt (by omega)
  have hlen := length_gbciBlob sha256 2 (UInt8.ofNat widthBits) (UInt8.ofNat k) vs.length body
  have hbodyEnd : 24 + body.length + 32 - 32 = 24 + body.length := by omega
  rw [hblob]
  simp only [parseIndexV2, hlen, hbodyEnd, slice_magic_gbciBlob, byteAt_version_gbciBlob,
    byteAt_width_gbciBlob, byteAt_param_gbciBlob, hwidth, hparam, slice_count_gbciBlob, hcount]
  rw [trailer_gbciBlob _ _ _ _ _ _ rfl, slice_body_gbciBlob _ _ _ _ _ _ rfl, hparse]
  simp [show ¬ (24 + body.length + 32 < 24 + 32) by omega,
    show ¬ (widthBits < 32 ∨ 64 < widthBits) by omega, show ¬ 63 < k by omega]

/-! ## The parsed set -/

/-- The low bits of a word are cleared by a mask and by shifting back and forth alike. -/
lemma and_mask_eq (x s : ℕ) :
    x &&& wrap64 ((2 ^ 64 - 1) <<< s) = wrap64 ((x >>> s) <<< s) := by
  apply Nat.eq_of_testBit_eq
  intro i
  rw [Nat.testBit_and, wrap64, wrap64, Nat.testBit_mod_two_pow, Nat.testBit_mod_two_pow,
    Nat.testBit_shiftLeft, Nat.testBit_shiftLeft, Nat.testBit_two_pow_sub_one,
    Nat.testBit_shiftRight]
  by_cases hi : i < 64
  · by_cases hs : s ≤ i
    · simp [hi, hs, show i - s < 64 by omega, Nat.add_sub_cancel' hs]
    · simp [hs]
  · simp [hi]

/-- A hash is looked up under the key of its leading bits. -/
lemma KeySet.key_eq {s : KeySet} {w : ℕ} (hs : s.shift = 64 - w) (h : Hash) :
    s.key h = valueKey w (prefixBits w h) := by
  rw [KeySet.key, KeySet.maskKey, KeySet.mask, and_mask_eq, hs]
  rfl

/-- A key carries the bits of its value on the left. -/
lemma value_valueKey {w v : ℕ} (hw : w ≤ 64) (hv : v < 2 ^ w) :
    (valueKey w v).value = v * 2 ^ (64 - w) := by
  have hpow : 2 ^ w * 2 ^ (64 - w) = 2 ^ 64 := by rw [← pow_add, Nat.add_sub_cancel' hw]
  have hlt : v * 2 ^ (64 - w) < 2 ^ 64 := by
    rw [← hpow]
    exact Nat.mul_lt_mul_of_pos_right hv (by positivity)
  rw [valueKey, Nat.shiftLeft_eq, wrap64_of_lt hlt]
  exact FixedBytes.value_ofValue hlt

/-- Values of `w` bits are told apart by their keys. -/
lemma valueKey_injOn {w u v : ℕ} (hw : w ≤ 64) (hu : u < 2 ^ w) (hv : v < 2 ^ w)
    (h : valueKey w u = valueKey w v) : u = v := by
  have heq := congrArg FixedBytes.value h
  rw [value_valueKey hw hu, value_valueKey hw hv] at heq
  exact Nat.eq_of_mul_eq_mul_right (by positivity) heq

/-- The set holds exactly the leading `w` bits of the listed hashes. -/
structure Represents (s : KeySet) (hashes : List Hash) (w : ℕ) : Prop where
  /-- The width of the set. -/
  width : s.width = w
  /-- Its size is the number of distinct prefixes. -/
  len : s.len = (hashes.map (prefixBits w)).toFinset.card
  /-- A hash is a member if a listed hash agrees with it on the leading bits. -/
  contains : ∀ h, s.contains h = true ↔ ∃ x ∈ hashes, prefixBits w x = prefixBits w h

/-- A set adopted from the keys of the leading bits of the hashes holds them. -/
lemma represents_adoptSortedKeysAt {w : ℕ} (hw : w ≤ 64) {keys : List IndexKey}
    {hashes : List Hash}
    (hkeys : ∀ k, k ∈ keys ↔ ∃ x ∈ hashes, valueKey w (prefixBits w x) = k) :
    Represents (.adoptSortedKeysAt keys w) hashes w := by
  have hinj : ∀ x y : Hash, valueKey w (prefixBits w x) = valueKey w (prefixBits w y) ↔
      prefixBits w x = prefixBits w y := fun x y =>
    ⟨valueKey_injOn hw (prefixBits_lt hw x) (prefixBits_lt hw y), fun h => by rw [h]⟩
  refine ⟨?_, ?_, fun h => ?_⟩
  · change 64 - (64 - w) = w
    omega
  · have hset : keys.toFinset = (hashes.map (prefixBits w)).toFinset.image (valueKey w) := by
      ext k
      simp [hkeys]
    rw [KeySet.len, KeySet.adoptSortedKeysAt, HashSet.len_adoptSorted, hset,
      Finset.card_image_of_injOn]
    intro u hu v hv huv
    simp only [List.coe_toFinset, List.mem_map, Set.mem_ofPred_eq] at hu hv
    obtain ⟨x, -, rfl⟩ := hu
    obtain ⟨y, -, rfl⟩ := hv
    exact (hinj x y).mp huv
  · rw [KeySet.contains, KeySet.key_eq rfl, KeySet.adoptSortedKeysAt,
      HashSet.contains_adoptSorted, hkeys]
    simp only [hinj]

/-! ## Version 1 -/

/-- The entries of a body of entries of one size, by position. -/
lemma take_drop_flatten {entries : List Bytes} {size : ℕ} (hsize : ∀ e ∈ entries, e.length = size)
    {i : ℕ} (hi : i < entries.length) (tail : Bytes) :
    ((entries.flatten ++ tail).drop (i * size)).take size = entries[i] := by
  induction entries generalizing i with
  | nil => simp at hi
  | cons e entries ih =>
    have he : e.length = size := hsize e (by simp)
    cases i with
    | zero => simp [← he]
    | succ i =>
      have hdrop : (i + 1) * size = e.length + i * size := by
        rw [he]
        ring
      rw [List.flatten_cons, List.append_assoc, hdrop, ← List.drop_drop, List.drop_left,
        ih (fun e' he' => hsize e' (by simp [he'])) (by simpa using hi)]
      rfl

lemma mem_entriesOfWidth {hashes : List Hash} {width : ℕ} {e : Bytes} :
    e ∈ entriesOfWidth hashes width ↔ ∃ h ∈ hashes, h.bytes.take width = e := by
  rw [entriesOfWidth, mem_destutter_ne, List.mem_map]

lemma length_of_mem_entriesOfWidth {hashes : List Hash} {width : ℕ} (hwidth : width ≤ 32)
    {e : Bytes} (he : e ∈ entriesOfWidth hashes width) : e.length = width := by
  obtain ⟨h, -, rfl⟩ := mem_entriesOfWidth.mp he
  rw [List.length_take, h.size, min_eq_left hwidth]

lemma length_entriesOfWidth_le (hashes : List Hash) (width : ℕ) :
    (entriesOfWidth hashes width).length ≤ hashes.length := by
  have h := (List.destutter_sublist (· ≠ ·) (hashes.map fun h => h.bytes.take width)).length_le
  rwa [List.length_map] at h

lemma length_flatten_of_forall {entries : List Bytes} {size : ℕ}
    (hsize : ∀ e ∈ entries, e.length = size) : entries.flatten.length = entries.length * size := by
  rw [List.length_flatten, List.map_congr_left hsize]
  simp

/-- The leading bytes of the entries of a version 1 blob, by position. -/
lemma slice_entry_gbciBlob (sha256 : Sha256) {version width param : UInt8} {count size i m : ℕ}
    {entries : List Bytes} (hsize : ∀ e ∈ entries, e.length = size) (hm : m ≤ size)
    (hi : i < entries.length) :
    slice (gbciBlob sha256 version width param count entries.flatten) (24 + i * size)
      (24 + i * size + m) = entries[i].take m := by
  set header := gbciHeader sha256 version width param count entries.flatten with hheader
  have hdrop : (gbciBlob sha256 version width param count entries.flatten).drop (24 + i * size)
      = (entries.flatten ++ (sha256 (header ++ entries.flatten)).bytes).drop (i * size) := by
    have hblob : gbciBlob sha256 version width param count entries.flatten
        = header ++ (entries.flatten ++ (sha256 (header ++ entries.flatten)).bytes) := by
      simp [gbciBlob, hheader]
    have hlen : header.length = 24 := length_gbciHeader _ _ _ _ _ _
    rw [hblob, ← hlen, ← List.drop_drop, List.drop_left]
  have htake := congrArg (List.take m)
    (take_drop_flatten hsize hi (sha256 (header ++ entries.flatten)).bytes)
  rw [List.take_take, min_eq_left hm] at htake
  rw [slice, List.drop_take, hdrop, Nat.add_sub_cancel_left, htake]

/-- What a reader computes from the leading bytes of every entry of a version 1 blob. -/
lemma mem_map_entries_gbciBlob {β : Type*} (f : Bytes → β) (sha256 : Sha256)
    {version width param : UInt8} {count size m : ℕ} {entries : List Bytes}
    (hsize : ∀ e ∈ entries, e.length = size) (hm : m ≤ size) {y : β} :
    y ∈ ((List.range entries.length).map fun i =>
        f (slice (gbciBlob sha256 version width param count entries.flatten) (24 + i * size)
          (24 + i * size + m))) ↔ ∃ e ∈ entries, f (e.take m) = y := by
  simp only [List.mem_map, List.mem_range]
  constructor
  · rintro ⟨i, hi, rfl⟩
    refine ⟨entries[i], List.getElem_mem hi, ?_⟩
    rw [slice_entry_gbciBlob sha256 hsize hm hi]
  · rintro ⟨e, he, rfl⟩
    obtain ⟨i, hi, rfl⟩ := List.mem_iff_getElem.mp he
    refine ⟨i, hi, ?_⟩
    rw [slice_entry_gbciBlob sha256 hsize hm hi]

/-- The count of a version 1 blob fits in its field of the header. -/
lemma HashSlice.leValue_count (l : HashSlice) (width : ℕ) :
    leValue (leBytes 8 (entriesOfWidth l.hashes width).length)
      = (entriesOfWidth l.hashes width).length := by
  have hle := length_entriesOfWidth_le l.hashes width
  have hfits := l.fits
  exact leValue_leBytes_of_lt (by omega)

/-- The client accepts the version 1 blob of the server. -/
lemma parseIndexV1_marshalGBCIWidth (sha256 : Sha256) (l : HashSlice) {width : ℕ}
    (hwidth : width = 32 ∨ width = 8) :
    ∃ keys, parseIndexV1 sha256 (marshalGBCIWidth sha256 l.hashes width)
        = .ok (.adoptSortedKeysAt keys 64, trailerETag (marshalGBCIWidth sha256 l.hashes width)) ∧
      ∀ k, k ∈ keys ↔ ∃ x ∈ l.hashes, valueKey 64 (prefixBits 64 x) = k := by
  set entries := entriesOfWidth l.hashes width with hentries
  have hsize : ∀ e ∈ entries, e.length = width := fun e he =>
    length_of_mem_entriesOfWidth (by omega) he
  have hlen := length_gbciBlob sha256 1 (UInt8.ofNat width) 0 entries.length entries.flatten
  have hblob : marshalGBCIWidth sha256 l.hashes width
      = gbciBlob sha256 1 (UInt8.ofNat width) 0 entries.length entries.flatten := rfl
  have hbody := length_flatten_of_forall hsize
  have hbyte : (UInt8.ofNat width).toNat = width := by
    rw [UInt8.toNat_ofNat', Nat.mod_eq_of_lt (by omega)]
  have hcount : leValue (leBytes 8 entries.length) = entries.length := l.leValue_count width
  have hbodyLen : 24 + entries.flatten.length + 32 - 24 - 32 = entries.flatten.length := by omega
  have hdiv : entries.length * width / width = entries.length := Nat.mul_div_cancel _ (by omega)
  refine ⟨(List.range entries.length).map (entryKey (marshalGBCIWidth sha256 l.hashes width)
    width), ?_, fun k => ?_⟩
  · rw [hblob]
    simp only [parseIndexV1, byteAt_width_gbciBlob, hbyte, slice_count_gbciBlob, hcount, hlen,
      hbodyLen]
    rw [trailer_gbciBlob _ _ _ _ _ _ rfl, if_neg (by omega), hbody, hdiv]
    simp [KeySet.adoptSortedKeys]
  · have hkey : ∀ x : Hash, valueKey 64 (prefixBits 64 x)
        = .ofValue 8 (beValue ((x.bytes.take width).take 8)) := by
      intro x
      have hlt : beValue (x.bytes.take 8) < 2 ^ 64 := (keyOf x).value_lt
      rw [List.take_take, min_eq_left (by omega), valueKey, prefixBits, Nat.sub_self,
        Nat.shiftRight_zero, Nat.shiftLeft_zero, wrap64_of_lt hlt]
    refine (mem_map_entries_gbciBlob (fun e => FixedBytes.ofValue 8 (beValue e)) sha256 hsize
      (show 8 ≤ width by omega)).trans ?_
    simp only [hkey, mem_entriesOfWidth, hentries, exists_exists_and_eq_and]

/-! ## Both versions -/

/-- The number of leading bits the client keeps of a hash that it learns in a form. -/
def IndexForm.clientBits (form : IndexForm) : ℕ :=
  if form.version = 2 then form.width else 64

/-- The values of a version 2 blob: ascending, of the given width, no more than there are
hashes. -/
lemma prefixValues_spec (l : HashSlice) {bits : ℕ} (hbits : bits ≤ 64) :
    Ascending (prefixValues l.hashes [] bits) ∧
      (∀ v ∈ prefixValues l.hashes [] bits, v < 2 ^ bits) ∧
      (prefixValues l.hashes [] bits).length < 2 ^ 58 := by
  rw [prefixValues_nil]
  refine ⟨ascending_collapse (monotone_prefixBits bits) l.ascending, fun v hv => ?_, ?_⟩
  · obtain ⟨x, -, rfl⟩ := mem_collapse.mp hv
    exact prefixBits_lt hbits x
  · have hle := length_collapse_le (prefixBits bits) l.hashes
    have hfits := l.fits
    omega

/-- A version 1 blob reaches the version 1 parser. -/
lemma parseIndexBlob_version_one (sha256 : Sha256) (width param : UInt8) (count : ℕ)
    (body : Bytes) :
    parseIndexBlob sha256 (gbciBlob sha256 1 width param count body)
      = parseIndexV1 sha256 (gbciBlob sha256 1 width param count body) := by
  have hlen := length_gbciBlob sha256 1 width param count body
  rw [parseIndexBlob, if_neg (by omega), slice_magic_gbciBlob, byteAt_version_gbciBlob]
  simp

/-- The values of a version 2 blob become the keys of the parsed set. -/
lemma parseIndexBlob_version_two (sha256 : Sha256) {width param : UInt8} {count w : ℕ}
    {body : Bytes} {vs : List ℕ}
    (h : parseIndexV2 sha256 (gbciBlob sha256 2 width param count body) = .ok (vs, w)) :
    parseIndexBlob sha256 (gbciBlob sha256 2 width param count body)
      = .ok (.adoptSortedKeysAt (vs.map (valueKey w)) w,
          trailerETag (gbciBlob sha256 2 width param count body)) := by
  have hlen := length_gbciBlob sha256 2 width param count body
  rw [parseIndexBlob, if_neg (by omega), slice_magic_gbciBlob, byteAt_version_gbciBlob, h]
  simp

lemma IndexForm.clientBits_le (form : IndexForm) : 32 ≤ form.clientBits ∧ form.clientBits ≤ 64 := by
  unfold IndexForm.clientBits
  rcases form.valid with ⟨hversion, -⟩ | ⟨hversion, hmin, hmax⟩
  · simp [hversion]
  · rw [if_pos hversion]
    exact ⟨hmin, hmax⟩

/-- The client accepts every form in which the server serves an index, and adopts the keys of the
leading bits of the listed hashes. -/
lemma parseIndexBlob_marshalForm_keys (sha256 : Sha256) (l : HashSlice) (form : IndexForm) :
    ∃ keys, parseIndexBlob sha256 (marshalForm sha256 l.hashes form)
        = .ok (.adoptSortedKeysAt keys form.clientBits,
            trailerETag (marshalForm sha256 l.hashes form)) ∧
      ∀ k, k ∈ keys ↔
        ∃ x ∈ l.hashes, valueKey form.clientBits (prefixBits form.clientBits x) = k := by
  rcases form.valid with ⟨hversion, hwidth⟩ | ⟨hversion, hmin, hmax⟩
  · obtain ⟨keys, hparse, hkeys⟩ := parseIndexV1_marshalGBCIWidth sha256 l hwidth
    have hbits : form.clientBits = 64 := by simp [IndexForm.clientBits, hversion]
    have hform : marshalForm sha256 l.hashes form =
        marshalGBCIWidth sha256 l.hashes form.width := by
      simp [marshalForm, hversion]
    rw [hform, hbits]
    exact ⟨keys, (parseIndexBlob_version_one sha256 _ _ _ _).trans hparse, hkeys⟩
  · obtain ⟨hasc, hlt, hfits⟩ := prefixValues_spec l hmax
    have hparse := parseIndexV2_marshalGBCI2 sha256 hmin hmax hasc hlt hfits
    have hbits : form.clientBits = form.width := by simp [IndexForm.clientBits, hversion]
    have hform : marshalForm sha256 l.hashes form
        = marshalGBCI2 sha256 form.width (prefixValues l.hashes [] form.width) := by
      simp [marshalForm, hversion]
    rw [hform, hbits]
    refine ⟨_, parseIndexBlob_version_two sha256 hparse, ?_⟩
    intro k
    rw [prefixValues_nil]
    simp

/-- The client accepts every form in which the server serves an index, and the set it parses holds
exactly the leading bits of the listed hashes. -/
theorem parseIndexBlob_marshalForm (sha256 : Sha256) (l : HashSlice) (form : IndexForm) :
    ∃ s etag, parseIndexBlob sha256 (marshalForm sha256 l.hashes form) = .ok (s, etag) ∧
      Represents s l.hashes form.clientBits := by
  obtain ⟨keys, hparse, hkeys⟩ := parseIndexBlob_marshalForm_keys sha256 l form
  exact ⟨_, _, hparse, represents_adoptSortedKeysAt form.clientBits_le.2 hkeys⟩

end GoBuildCache
