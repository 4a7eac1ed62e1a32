import GoBuildCache.Foundation.Bytes

/-!
# Bit strings, most significant bit first

`bitsBE n v` lists the low `n` bits of `v`, most significant first, and `ofBits` reads such a list
back (`ofBits_bitsBE`). A byte string is read as the bits of its bytes (`bytesToBits`).

`takeBits` and `takeUnary` are the two primitive readers of a bit string: a number of a given
width, and the number of ones before the next zero. They undo `bitsBE` and `unary`
(`takeBits_bitsBE_append`, `takeUnary_unary_append`).

The arithmetic of 64-bit words is that of the naturals modulo `2 ^ 64`.
-/

open ByteString

namespace BitString

/-! ## Bits of a number -/

/-- The low `n` bits of `v`, most significant first. -/
def bitsBE : ℕ → ℕ → List Bool
  | 0, _ => []
  | n + 1, v => v.testBit n :: bitsBE n v

/-- The number whose bits, most significant first, are given. -/
def ofBits : List Bool → ℕ
  | [] => 0
  | b :: bs => b.toNat * 2 ^ bs.length + ofBits bs

@[simp]
lemma length_bitsBE (n v : ℕ) : (bitsBE n v).length = n := by
  induction n with
  | zero => rfl
  | succ n ih => simp [bitsBE, ih]

/-- Bits that agree give the same bit string. -/
lemma bitsBE_congr {n v w : ℕ} (h : ∀ i < n, v.testBit i = w.testBit i) :
    bitsBE n v = bitsBE n w := by
  induction n with
  | zero => rfl
  | succ n ih =>
    rw [bitsBE, bitsBE, h n (Nat.lt_succ_self n), ih fun i hi => h i (by omega)]

/-- The bits above position `n` do not matter. -/
lemma bitsBE_mod {n m v : ℕ} (h : n ≤ m) : bitsBE n (v % 2 ^ m) = bitsBE n v := by
  apply bitsBE_congr
  intro i hi
  simp [Nat.testBit_mod_two_pow, show i < m by omega]

/-- The high bits followed by the low bits. -/
lemma bitsBE_add (m n v : ℕ) : bitsBE (m + n) v = bitsBE m (v / 2 ^ n) ++ bitsBE n v := by
  induction m with
  | zero => simp [bitsBE]
  | succ m ih =>
    have hbit : (v / 2 ^ n).testBit m = v.testBit (m + n) := by
      rw [← Nat.shiftRight_eq_div_pow, Nat.testBit_shiftRight, Nat.add_comm]
    rw [Nat.succ_add, bitsBE, bitsBE, ih, hbit, List.cons_append]

/-- The low bits are read back from the bit string. -/
lemma ofBits_bitsBE (n v : ℕ) : ofBits (bitsBE n v) = v % 2 ^ n := by
  induction n with
  | zero => simp [bitsBE, ofBits, Nat.mod_one]
  | succ n ih =>
    have hmod : v % 2 ^ (n + 1) = v % 2 ^ n + 2 ^ n * (v / 2 ^ n % 2) := by
      rw [pow_succ, Nat.mod_mul]
    rw [bitsBE, ofBits, ih, length_bitsBE, Nat.toNat_testBit, hmod, Nat.mul_comm, Nat.add_comm]

/-- The value of a concatenation. -/
lemma ofBits_append (xs ys : List Bool) :
    ofBits (xs ++ ys) = ofBits xs * 2 ^ ys.length + ofBits ys := by
  induction xs with
  | nil => simp [ofBits]
  | cons x xs ih =>
    simp only [List.cons_append, ofBits, ih, List.length_append, pow_add]
    ring

lemma ofBits_lt (bs : List Bool) : ofBits bs < 2 ^ bs.length := by
  induction bs with
  | nil => simp [ofBits]
  | cons b bs ih =>
    rcases b with _ | _
    · simp only [ofBits, Bool.toNat_false, List.length_cons, pow_succ]
      omega
    · simp only [ofBits, Bool.toNat_true, List.length_cons, pow_succ]
      omega

lemma bitsBE_zero_right (n : ℕ) : bitsBE n 0 = List.replicate n false := by
  induction n with
  | zero => rfl
  | succ n ih => simp [bitsBE, ih, List.replicate_succ]

lemma bitsBE_two_pow_sub_one (n : ℕ) : bitsBE n (2 ^ n - 1) = List.replicate n true := by
  have hones : ∀ m ≤ n, bitsBE m (2 ^ n - 1) = List.replicate m true := by
    intro m hm
    induction m with
    | zero => rfl
    | succ m ih =>
      simp [bitsBE, ih (by omega), List.replicate_succ, Nat.testBit_two_pow_sub_one,
        show m < n by omega]
  exact hones n le_rfl

/-- Shifting left appends zeros. -/
lemma bitsBE_mul_two_pow (m n v : ℕ) :
    bitsBE (m + n) (v * 2 ^ n) = bitsBE m v ++ List.replicate n false := by
  have hlow : bitsBE n (v * 2 ^ n) = List.replicate n false := by
    rw [← bitsBE_mod le_rfl, Nat.mul_mod_left, bitsBE_zero_right]
  rw [bitsBE_add, Nat.mul_div_cancel _ (by positivity), hlow]

/-- The bits of a concatenated number: `w` has `n` bits and stands to the right of `v`. -/
lemma bitsBE_mul_add {m n v w : ℕ} (hw : w < 2 ^ n) :
    bitsBE (m + n) (v * 2 ^ n + w) = bitsBE m v ++ bitsBE n w := by
  have hdiv : (v * 2 ^ n + w) / 2 ^ n = v := by
    rw [Nat.mul_comm, Nat.mul_add_div (by positivity), Nat.div_eq_of_lt hw, Nat.add_zero]
  have hmod : (v * 2 ^ n + w) % 2 ^ n = w := by
    rw [Nat.mul_add_mod_of_lt hw]
  have hlow : bitsBE n (v * 2 ^ n + w) = bitsBE n w := by
    rw [← bitsBE_mod le_rfl, hmod]
  rw [bitsBE_add, hdiv, hlow]

/-- Dropping bits from the front. -/
lemma drop_bitsBE {m n : ℕ} (h : m ≤ n) (v : ℕ) : (bitsBE n v).drop m = bitsBE (n - m) v := by
  have hadd := bitsBE_add m (n - m) v
  rw [Nat.add_sub_cancel' h] at hadd
  rw [hadd, List.drop_append_of_le_length (by simp), List.drop_of_length_le (by simp),
    List.nil_append]

/-! ## Bits of a byte string -/

/-- The bits of a byte string. -/
def bytesToBits (bs : Bytes) : List Bool :=
  bs.flatMap fun b => bitsBE 8 b.toNat

@[simp]
lemma bytesToBits_nil : bytesToBits [] = [] :=
  rfl

lemma bytesToBits_cons (b : UInt8) (bs : Bytes) :
    bytesToBits (b :: bs) = bitsBE 8 b.toNat ++ bytesToBits bs := by
  simp [bytesToBits]

lemma bytesToBits_append (xs ys : Bytes) :
    bytesToBits (xs ++ ys) = bytesToBits xs ++ bytesToBits ys := by
  simp [bytesToBits]

@[simp]
lemma length_bytesToBits (bs : Bytes) : (bytesToBits bs).length = 8 * bs.length := by
  induction bs with
  | nil => rfl
  | cons b bs ih =>
    rw [bytesToBits_cons, List.length_append, length_bitsBE, ih, List.length_cons]
    ring

/-- The byte with the low eight bits of `v`. -/
lemma bitsBE_toNat_ofNat (v : ℕ) : bitsBE 8 (UInt8.ofNat v).toNat = bitsBE 8 v := by
  rw [UInt8.toNat_ofNat', bitsBE_mod le_rfl]

/-! ## Reading from a bit string -/

/-- The code of `q` in unary: that many ones and a zero. -/
def unary (q : ℕ) : List Bool :=
  List.replicate q true ++ [false]

/-- Reads a number of `n` bits. -/
def takeBits (n : ℕ) (bs : List Bool) : Option (ℕ × List Bool) :=
  if bs.length < n then none else some (ofBits (bs.take n), bs.drop n)

/-- Counts the ones before the next zero and consumes that zero. -/
def takeUnary : List Bool → Option (ℕ × List Bool)
  | [] => none
  | false :: bs => some (0, bs)
  | true :: bs => (takeUnary bs).map fun (q, rest) => (q + 1, rest)

lemma takeBits_bitsBE_append {n v : ℕ} (hv : v < 2 ^ n) (rest : List Bool) :
    takeBits n (bitsBE n v ++ rest) = some (v, rest) := by
  have htake : (bitsBE n v ++ rest).take n = bitsBE n v := by
    rw [List.take_append_of_le_length (by simp), List.take_of_length_le (by simp)]
  have hdrop : (bitsBE n v ++ rest).drop n = rest := by
    rw [List.drop_append, List.drop_of_length_le (by simp)]
    simp
  rw [takeBits, if_neg (by simp), htake, hdrop, ofBits_bitsBE, Nat.mod_eq_of_lt hv]

/-- What `takeBits` returns fits in the bits it read. -/
lemma lt_of_takeBits {n v : ℕ} {bs rest : List Bool} (h : takeBits n bs = some (v, rest)) :
    v < 2 ^ n := by
  rw [takeBits] at h
  split_ifs at h with hlen
  obtain ⟨rfl, -⟩ : ofBits (bs.take n) = v ∧ bs.drop n = rest := by simpa using h
  have hlt := ofBits_lt (bs.take n)
  rwa [List.length_take, min_eq_left (not_lt.mp hlen)] at hlt

/-- Reading a number in two parts. -/
lemma takeBits_add (m n : ℕ) (bs : List Bool) :
    takeBits (m + n) bs = (takeBits m bs).bind fun hi =>
      (takeBits n hi.2).map fun lo => (hi.1 * 2 ^ n + lo.1, lo.2) := by
  by_cases hm : bs.length < m
  · simp [takeBits, hm, show bs.length < m + n by omega]
  by_cases hn : bs.length < m + n
  · simp [takeBits, hm, hn, show bs.length - m < n by omega]
  · have hlen : ((bs.drop m).take n).length = n := by
      rw [List.length_take, List.length_drop]
      omega
    have hval : ofBits (bs.take (m + n))
        = ofBits (bs.take m) * 2 ^ n + ofBits ((bs.drop m).take n) := by
      rw [List.take_add, ofBits_append, hlen]
    simp [takeBits, hm, hn, hval, show ¬ bs.length - m < n by omega]

lemma takeUnary_replicate_append (q : ℕ) (bs : List Bool) :
    takeUnary (List.replicate q true ++ bs) = (takeUnary bs).map fun p => (q + p.1, p.2) := by
  induction q with
  | zero => simp
  | succ q ih =>
    rw [List.replicate_succ, List.cons_append, takeUnary, ih, Option.map_map]
    congr 1
    funext p
    simp only [Function.comp_apply, Prod.mk.injEq, and_true]
    ring

lemma takeUnary_unary_append (q : ℕ) (rest : List Bool) :
    takeUnary (unary q ++ rest) = some (q, rest) := by
  rw [unary, List.append_assoc, takeUnary_replicate_append]
  simp [takeUnary]

/-- Reading in unary stops within `bs` if the ones at its front are not all of it. -/
lemma takeUnary_append_of_takeWhile_lt {bs : List Bool} {ones : ℕ} (tail : List Bool)
    (hones : (bs.takeWhile id).length = ones) (hlt : ones < bs.length) :
    takeUnary (bs ++ tail) = some (ones, bs.drop (ones + 1) ++ tail) := by
  induction bs generalizing ones with
  | nil => simp at hlt
  | cons b bs ih =>
    rcases b with _ | _
    · have h0 : ones = 0 := by simpa using hones.symm
      simp [takeUnary, h0]
    · rw [List.takeWhile_cons_of_pos (by rfl), List.length_cons] at hones
      obtain ⟨m, rfl⟩ : ∃ m, ones = m + 1 := ⟨_, hones.symm⟩
      have hrest := ih (by omega : (bs.takeWhile id).length = m) (by simpa using hlt)
      simp [takeUnary, hrest]

/-- A bit string whose ones at the front are all of it. -/
lemma eq_replicate_of_takeWhile {bs : List Bool} (h : bs.length ≤ (bs.takeWhile id).length) :
    bs = List.replicate bs.length true := by
  have hself : bs.takeWhile id = bs :=
    (List.takeWhile_prefix id).eq_of_length_le h
  rw [List.eq_replicate_iff]
  refine ⟨rfl, fun b hb => ?_⟩
  rw [← hself] at hb
  simpa using List.mem_takeWhile_imp hb

/-! ## 64-bit words -/

/-- A number reduced to 64 bits. -/
def wrap64 (v : ℕ) : ℕ :=
  v % 2 ^ 64

/-- Subtraction of 64-bit words. -/
def sub64 (a b : ℕ) : ℕ :=
  (2 ^ 64 + a - b) % 2 ^ 64

/-- The complement of a 64-bit word. -/
def not64 (v : ℕ) : ℕ :=
  2 ^ 64 - 1 - v

/-- The number of leading zeros of a 64-bit word. -/
def leadingZeros64 (v : ℕ) : ℕ :=
  64 - v.size

lemma wrap64_of_lt {v : ℕ} (h : v < 2 ^ 64) : wrap64 v = v :=
  Nat.mod_eq_of_lt h

lemma sub64_of_le {a b : ℕ} (hba : b ≤ a) (ha : a < 2 ^ 64) : sub64 a b = a - b := by
  rw [sub64, Nat.add_sub_assoc hba, Nat.add_mod_left, Nat.mod_eq_of_lt (by omega)]

/-- The number of leading zeros of a number of `w` bits, read off its bit string. -/
lemma sub_size_eq_length_takeWhile {w v : ℕ} (hv : v < 2 ^ w) :
    w - v.size = ((bitsBE w v).takeWhile (!·)).length := by
  induction w with
  | zero => simp [bitsBE]
  | succ w ih =>
    rcases hbit : v.testBit w with _ | _
    · have hlt : v < 2 ^ w := by
        by_contra hge
        have htop := Nat.testBit_of_two_pow_le_and_two_pow_add_one_gt (not_lt.mp hge) hv
        rw [hbit] at htop
        contradiction
      have hsize : v.size ≤ w := Nat.size_le.mpr hlt
      rw [bitsBE, hbit, List.takeWhile_cons_of_pos (by rfl), List.length_cons, ← ih hlt]
      omega
    · have hge : 2 ^ w ≤ v := Nat.ge_two_pow_of_testBit hbit
      have hsize : w < v.size := Nat.lt_size.mpr hge
      rw [bitsBE, hbit, List.takeWhile_cons_of_neg (by simp), List.length_nil]
      omega

/-- Complementing a word complements its bits. -/
lemma bitsBE_not64 {v : ℕ} (hv : v < 2 ^ 64) : bitsBE 64 (not64 v) = (bitsBE 64 v).map (!·) := by
  have hbits : ∀ n ≤ 64, bitsBE n (not64 v) = (bitsBE n v).map (!·) := by
    intro n hn
    induction n with
    | zero => rfl
    | succ n ih =>
      have hbit : (not64 v).testBit n = !v.testBit n := by
        rw [not64, Nat.sub_sub, Nat.add_comm, Nat.testBit_two_pow_sub_succ hv]
        simp [show n < 64 by omega]
      rw [bitsBE, bitsBE, List.map_cons, hbit, ih (by omega)]
  exact hbits 64 le_rfl

/-- Aligning `n` bits to the top of a word and complementing it, the number of leading zeros is
the number of ones with which the bits start. -/
lemma leadingZeros64_not64 {n v : ℕ} (hn : n ≤ 64) :
    leadingZeros64 (not64 (wrap64 (v * 2 ^ (64 - n)))) = ((bitsBE n v).takeWhile id).length := by
  have hlt : wrap64 (v * 2 ^ (64 - n)) < 2 ^ 64 := Nat.mod_lt _ (by positivity)
  have hnot : not64 (wrap64 (v * 2 ^ (64 - n))) < 2 ^ 64 := by
    rw [not64]
    omega
  have hbits : bitsBE 64 (wrap64 (v * 2 ^ (64 - n)))
      = bitsBE n v ++ List.replicate (64 - n) false := by
    have h := bitsBE_mul_two_pow n (64 - n) v
    rw [Nat.add_sub_cancel' hn] at h
    rw [wrap64, bitsBE_mod le_rfl, h]
  rw [leadingZeros64, sub_size_eq_length_takeWhile hnot, bitsBE_not64 hlt, hbits,
    List.takeWhile_map]
  have hpred : ((!·) ∘ (!·) : Bool → Bool) = id := by
    funext b
    simp
  rw [hpred, List.length_map, List.takeWhile_append]
  split_ifs with h
  · rcases hrep : 64 - n with _ | m
    · simp [h]
    · simp [h, List.replicate_succ]
  · rfl

end BitString
