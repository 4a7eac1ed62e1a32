import GoBuildCache.Foundation.BitString

/-!
# The client's bit reader

The client reads the body of a version 2 index blob through a `BitReader`: up to 64 bits are
loaded ahead in an accumulator. The reader is described by the bits it has not handed out yet
(`BitReader.bits`). Reading a number of a given width is `takeBits` on them
(`readBits_refines`), reading in unary is `takeUnary` (`readUnary_refines`), on every input,
including those that end too early.
-/

open ByteString BitString

namespace GoBuildCache

/-- A byte string from which bits are read, most significant first. -/
structure BitReader where
  /-- The bytes not loaded yet: `data[pos:]`. -/
  rest : Bytes
  /-- The low `n` bits are loaded and not read yet. -/
  acc : ℕ
  /-- The number of loaded bits. -/
  n : ℕ
  /-- The loaded bits fit in a word. -/
  n_le : n ≤ 64

namespace BitReader

/-- A reader at the start of a byte string. -/
def ofBytes (data : Bytes) : BitReader := ⟨data, 0, 0, by decide⟩

/-- The bits not read yet. -/
def bits (r : BitReader) : List Bool :=
  bitsBE r.n r.acc ++ bytesToBits r.rest

/-- Loads bytes while a whole one fits. -/
def load : Bytes → ℕ → (n : ℕ) → n ≤ 64 → BitReader
  | [], acc, n, h => ⟨[], acc, n, h⟩
  | b :: bs, acc, n, h =>
    if hn : n ≤ 56 then load bs (wrap64 (acc <<< 8) ||| b.toNat) (n + 8) (by omega)
    else ⟨b :: bs, acc, n, h⟩

/-- Loads as many bytes as fit. -/
def refill (r : BitReader) : BitReader :=
  load r.rest r.acc r.n r.n_le

/-- Drops the first `m` of the loaded bits. -/
def consume (r : BitReader) (m : ℕ) : BitReader :=
  { r with n := r.n - m, n_le := (Nat.sub_le _ _).trans r.n_le }

/-- Reads a number of `nbits` bits; `none` past the end of the data. -/
def readBits (r : BitReader) (nbits : ℕ) : Option (ℕ × BitReader) :=
  if nbits = 0 then some (0, r)
  else if 32 < nbits then
    (readBits r (nbits - 32)).bind fun hi =>
      (readBits hi.2 32).map fun lo => (wrap64 (hi.1 <<< 32) ||| lo.1, lo.2)
  else
    let r' := r.refill
    if r'.n < nbits then none
    else some ((r'.acc >>> (r'.n - nbits)) &&& (2 ^ nbits - 1), r'.consume nbits)
termination_by nbits

/-! ## Loading -/

@[simp]
lemma bits_ofBytes (data : Bytes) : (ofBytes data).bits = bytesToBits data := by
  simp [ofBytes, bits, bitsBE]

lemma length_bits (r : BitReader) : r.bits.length = r.n + 8 * r.rest.length := by
  simp [bits]

/-- Loading keeps the sequence of bits. -/
lemma bits_load (bs : Bytes) (acc n : ℕ) (h : n ≤ 64) :
    (load bs acc n h).bits = bitsBE n acc ++ bytesToBits bs := by
  induction bs generalizing acc n with
  | nil => rfl
  | cons b bs ih =>
    rw [load]
    split_ifs with hn
    · have hb : b.toNat < 2 ^ 8 := b.toNat_lt
      have hacc : bitsBE (n + 8) (wrap64 (acc <<< 8) ||| b.toNat)
          = bitsBE (n + 8) (acc * 2 ^ 8 + b.toNat) := by
        rw [← Nat.shiftLeft_eq, Nat.shiftLeft_add_eq_or_of_lt hb]
        apply bitsBE_congr
        intro i hi
        rw [Nat.testBit_or, Nat.testBit_or, wrap64, Nat.testBit_mod_two_pow]
        simp [show i < 64 by omega]
      rw [ih, hacc, bitsBE_mul_add hb, bytesToBits_cons, List.append_assoc]
    · rfl

@[simp]
lemma bits_refill (r : BitReader) : r.refill.bits = r.bits :=
  bits_load r.rest r.acc r.n r.n_le

/-- After loading, at least 57 bits are there or all the data is. -/
lemma load_full (bs : Bytes) (acc n : ℕ) (h : n ≤ 64) :
    56 < (load bs acc n h).n ∨ (load bs acc n h).rest = [] := by
  induction bs generalizing acc n with
  | nil => exact Or.inr rfl
  | cons b bs ih =>
    rw [load]
    split_ifs with hn
    · exact ih _ _ _
    · exact Or.inl (not_le.mp hn)

lemma refill_full (r : BitReader) : 56 < r.refill.n ∨ r.refill.rest = [] :=
  load_full r.rest r.acc r.n r.n_le

/-- Loading keeps the number of unread bits. -/
lemma refill_measure (r : BitReader) :
    r.refill.n + 8 * r.refill.rest.length = r.n + 8 * r.rest.length := by
  rw [← length_bits, ← length_bits, bits_refill]

/-! ## Reading numbers -/

/-- The unread bits, the first `m` of the loaded ones apart. -/
lemma bits_eq_append_consume (r : BitReader) {m : ℕ} (hm : m ≤ r.n) :
    r.bits = bitsBE m (r.acc >>> (r.n - m)) ++ (r.consume m).bits := by
  have hadd := bitsBE_add m (r.n - m) r.acc
  rw [Nat.add_sub_cancel' hm, ← Nat.shiftRight_eq_div_pow] at hadd
  rw [bits, hadd, List.append_assoc]
  rfl

/-- A number of at most 32 bits is read as `takeBits` reads it. -/
lemma readBits_refines_of_le (r : BitReader) {nbits : ℕ} (h : nbits ≤ 32) :
    (r.readBits nbits).map (fun p => (p.1, p.2.bits)) = takeBits nbits r.bits := by
  rw [readBits]
  dsimp only
  split_ifs with h0 h32 hlt
  · simp [h0, takeBits, ofBits]
  · omega
  · have hrest : r.refill.rest = [] := r.refill_full.resolve_left (by omega)
    have hlen : r.bits.length < nbits := by
      rw [← bits_refill, length_bits, hrest]
      simpa using hlt
    simp [takeBits, hlen]
  · have hsplit := r.refill.bits_eq_append_consume (not_lt.mp hlt)
    have hmod : bitsBE nbits (r.refill.acc >>> (r.refill.n - nbits))
        = bitsBE nbits ((r.refill.acc >>> (r.refill.n - nbits)) % 2 ^ nbits) :=
      (bitsBE_mod le_rfl).symm
    rw [Option.map_some, ← r.bits_refill, hsplit, hmod,
      takeBits_bitsBE_append (Nat.mod_lt _ (by positivity)), Nat.and_two_pow_sub_one_eq_mod]

/-- A number of at most 64 bits is read as `takeBits` reads it. -/
lemma readBits_refines (r : BitReader) {nbits : ℕ} (h : nbits ≤ 64) :
    (r.readBits nbits).map (fun p => (p.1, p.2.bits)) = takeBits nbits r.bits := by
  by_cases h32 : nbits ≤ 32
  · exact r.readBits_refines_of_le h32
  have hhi := r.readBits_refines_of_le (show nbits - 32 ≤ 32 by omega)
  have hadd := takeBits_add (nbits - 32) 32 r.bits
  rw [Nat.sub_add_cancel (by omega), ← hhi] at hadd
  rw [hadd, readBits, if_neg (by omega), if_pos (by omega)]
  rcases hread : r.readBits (nbits - 32) with _ | ⟨hi, r₁⟩
  · rfl
  · have hlo := r₁.readBits_refines_of_le (le_refl 32)
    have hlt : hi < 2 ^ 32 := by
      rw [hread] at hhi
      exact (lt_of_takeBits hhi.symm).trans_le (Nat.pow_le_pow_right (by decide) (by omega))
    simp only [Option.map_some, Option.bind_some]
    rw [← hlo, Option.map_map, Option.map_map]
    rcases hread' : r₁.readBits 32 with _ | ⟨lo, r₂⟩
    · rfl
    · have hlo' : lo < 2 ^ 32 := by
        rw [hread'] at hlo
        exact lt_of_takeBits hlo.symm
      have hcat : wrap64 (hi <<< 32) ||| lo = hi * 2 ^ 32 + lo := by
        rw [wrap64_of_lt (by rw [Nat.shiftLeft_eq]; omega),
          ← Nat.shiftLeft_add_eq_or_of_lt hlo', Nat.shiftLeft_eq]
      simp only [Option.map_some, Function.comp_apply, hcat]

/-! ## Reading in unary -/

/-- Counts the ones before the next zero and consumes that zero; `q` ones are counted already and
`none` means that the data ends before a zero. -/
def readUnaryFrom (r : BitReader) (q : ℕ) : Option (ℕ × BitReader) :=
  let r' := r.refill
  if r'.n = 0 then none
  else
    let ones := leadingZeros64 (not64 (wrap64 (r'.acc <<< (64 - r'.n))))
    if ones < r'.n then some (wrap64 (q + ones), r'.consume (ones + 1))
    else readUnaryFrom (r'.consume r'.n) (wrap64 (q + r'.n))
termination_by r.n + 8 * r.rest.length
decreasing_by
  have hmeasure : r'.n + 8 * r'.rest.length = r.n + 8 * r.rest.length := r.refill_measure
  change r'.n - r'.n + 8 * r'.rest.length < _
  omega

/-- `readUnary` starts counting at zero. -/
def readUnary (r : BitReader) : Option (ℕ × BitReader) :=
  r.readUnaryFrom 0

/-- Reading in unary is `takeUnary`, the result reduced to 64 bits. -/
lemma readUnaryFrom_refines (r : BitReader) (q : ℕ) :
    (r.readUnaryFrom q).map (fun p => (p.1, p.2.bits))
      = (takeUnary r.bits).map fun p => (wrap64 (q + p.1), p.2) := by
  fun_induction readUnaryFrom r q with
  | case1 r q r' h =>
    have hrest : r'.rest = [] := r.refill_full.resolve_left (by change ¬ 56 < r'.n; omega)
    have hlen : r'.bits.length = 0 := by rw [length_bits, h, hrest, List.length_nil]
    have hbits : r.bits = [] := by
      rw [← r.bits_refill]
      exact List.length_eq_zero_iff.mp hlen
    simp [hbits, takeUnary]
  | case2 r q r' h ones hlt =>
    have hones : ((bitsBE r'.n r'.acc).takeWhile id).length = ones := by
      rw [← leadingZeros64_not64 r'.n_le, ← Nat.shiftLeft_eq]
    have htake := takeUnary_append_of_takeWhile_lt (bytesToBits r'.rest) hones (by simpa using hlt)
    rw [drop_bitsBE hlt] at htake
    rw [← r.bits_refill]
    change _ = Option.map _ (takeUnary (bitsBE r'.n r'.acc ++ bytesToBits r'.rest))
    rw [htake]
    rfl
  | case3 r q r' h ones hlt ih =>
    have hones : ((bitsBE r'.n r'.acc).takeWhile id).length = ones := by
      rw [← leadingZeros64_not64 r'.n_le, ← Nat.shiftLeft_eq]
    have hrep : bitsBE r'.n r'.acc = List.replicate r'.n true := by
      have hall : (bitsBE r'.n r'.acc).length ≤ ((bitsBE r'.n r'.acc).takeWhile id).length := by
        rw [hones, length_bitsBE]
        exact not_lt.mp hlt
      have h := eq_replicate_of_takeWhile hall
      rwa [length_bitsBE] at h
    have hconsume : (r'.consume r'.n).bits = bytesToBits r'.rest := by
      simp [consume, bits, bitsBE]
    rw [ih, hconsume, ← r.bits_refill]
    change _ = Option.map _ (takeUnary (bitsBE r'.n r'.acc ++ bytesToBits r'.rest))
    rw [hrep, takeUnary_replicate_append, Option.map_map]
    congr 1
    funext p
    simp [wrap64, Nat.add_assoc]

/-- Reading in unary is `takeUnary`, the result reduced to 64 bits. -/
lemma readUnary_refines (r : BitReader) :
    r.readUnary.map (fun p => (p.1, p.2.bits))
      = (takeUnary r.bits).map fun p => (wrap64 p.1, p.2) := by
  rw [readUnary, readUnaryFrom_refines]
  simp only [Nat.zero_add]

end BitReader

end GoBuildCache
