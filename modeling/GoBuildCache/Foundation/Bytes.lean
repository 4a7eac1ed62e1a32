import Mathlib

/-!
# Byte strings

A byte string is a list of bytes. The value of a byte string read big-endian (`beValue`) and the
big-endian encoding of a number in a given number of bytes (`beBytes`) are inverse
(`beValue_beBytes`, `beValue_injOn`); the little-endian pair is the same one on the reversed string.
Byte arrays of a fixed length are a structure (`FixedBytes`), ordered by their big-endian values.

Hexadecimal text is written in lower case (`hexEncode`) and read in either case (`hexDecode`).
-/

namespace ByteString

/-- A byte string. -/
abbrev Bytes : Type := List UInt8

/-- The bytes of an ASCII text. -/
def ascii (s : String) : Bytes :=
  s.toList.map fun c => UInt8.ofNat c.toNat

/-! ## Big-endian and little-endian values -/

/-- The value of a byte string read as a big-endian number. -/
def beValue : Bytes → ℕ
  | [] => 0
  | b :: bs => b.toNat * 256 ^ bs.length + beValue bs

/-- The last `n` bytes of the big-endian representation of `v`. -/
def beBytes : ℕ → ℕ → Bytes
  | 0, _ => []
  | n + 1, v => UInt8.ofNat (v / 256 ^ n) :: beBytes n v

/-- The value of a byte string read as a little-endian number. -/
def leValue (bs : Bytes) : ℕ :=
  beValue bs.reverse

/-- The first `n` bytes of the little-endian representation of `v`. -/
def leBytes (n v : ℕ) : Bytes :=
  (beBytes n v).reverse

@[simp]
lemma beValue_nil : beValue [] = 0 :=
  rfl

@[simp]
lemma length_beBytes (n v : ℕ) : (beBytes n v).length = n := by
  induction n with
  | zero => rfl
  | succ n ih => simp [beBytes, ih]

@[simp]
lemma length_leBytes (n v : ℕ) : (leBytes n v).length = n := by
  simp [leBytes]

/-- A byte string of length `n` has a value below `256 ^ n`. -/
lemma beValue_lt (bs : Bytes) : beValue bs < 256 ^ bs.length := by
  induction bs with
  | nil => simp
  | cons b bs ih =>
    have hb : b.toNat + 1 ≤ 256 := b.toNat_lt
    calc b.toNat * 256 ^ bs.length + beValue bs
        < b.toNat * 256 ^ bs.length + 256 ^ bs.length := by omega
      _ = (b.toNat + 1) * 256 ^ bs.length := by ring
      _ ≤ 256 * 256 ^ bs.length := Nat.mul_le_mul_right _ hb
      _ = 256 ^ (b :: bs).length := by rw [List.length_cons, pow_succ, Nat.mul_comm]

/-- The value of a concatenation. -/
lemma beValue_append (xs ys : Bytes) :
    beValue (xs ++ ys) = beValue xs * 256 ^ ys.length + beValue ys := by
  induction xs with
  | nil => simp
  | cons x xs ih =>
    simp only [List.cons_append, beValue, ih, List.length_append, pow_add]
    ring

/-- Encoding in `n` bytes keeps the value modulo `256 ^ n`. -/
lemma beValue_beBytes (n v : ℕ) : beValue (beBytes n v) = v % 256 ^ n := by
  induction n with
  | zero => simp [beBytes, Nat.mod_one]
  | succ n ih =>
    have hmod : v % 256 ^ (n + 1) = v % 256 ^ n + 256 ^ n * (v / 256 ^ n % 256) := by
      rw [pow_succ, Nat.mod_mul]
    simp only [beBytes, beValue, ih, length_beBytes, UInt8.toNat_ofNat']
    rw [hmod, Nat.mul_comm, Nat.add_comm]

/-- A number below `256 ^ n` is recovered from its `n` bytes. -/
lemma beValue_beBytes_of_lt {n v : ℕ} (hv : v < 256 ^ n) : beValue (beBytes n v) = v := by
  rw [beValue_beBytes, Nat.mod_eq_of_lt hv]

/-- A number below `256 ^ n` is recovered from its `n` bytes, least significant first. -/
lemma leValue_leBytes_of_lt {n v : ℕ} (hv : v < 256 ^ n) : leValue (leBytes n v) = v := by
  rw [leValue, leBytes, List.reverse_reverse, beValue_beBytes_of_lt hv]

/-- Byte strings of one length are told apart by their values. -/
lemma beValue_injOn {xs ys : Bytes} (hlen : xs.length = ys.length)
    (h : beValue xs = beValue ys) : xs = ys := by
  induction xs generalizing ys with
  | nil => exact (List.length_eq_zero_iff.mp hlen.symm).symm
  | cons x xs ih =>
    obtain ⟨y, ys, rfl⟩ := List.exists_cons_of_length_eq_add_one hlen.symm
    have hlen' : xs.length = ys.length := by simpa using hlen
    simp only [beValue, hlen'] at h
    have hx := beValue_lt xs
    have hy := beValue_lt ys
    rw [hlen'] at hx
    have hpos : 0 < 256 ^ ys.length := by positivity
    have hdiv : x.toNat = y.toNat := by
      have hxd : (x.toNat * 256 ^ ys.length + beValue xs) / 256 ^ ys.length = x.toNat := by
        rw [Nat.mul_comm, Nat.mul_add_div hpos, Nat.div_eq_of_lt hx, Nat.add_zero]
      have hyd : (y.toNat * 256 ^ ys.length + beValue ys) / 256 ^ ys.length = y.toNat := by
        rw [Nat.mul_comm, Nat.mul_add_div hpos, Nat.div_eq_of_lt hy, Nat.add_zero]
      rw [← hxd, ← hyd, h]
    have htail : beValue xs = beValue ys := by
      rw [hdiv] at h
      omega
    rw [UInt8.toNat_inj.mp hdiv, ih hlen' htail]

/-- The value of the first `m` bytes is the value shifted right by the other bytes. -/
lemma beValue_take (bs : Bytes) (m : ℕ) :
    beValue (bs.take m) = beValue bs / 256 ^ (bs.length - m) := by
  conv_rhs => rw [← List.take_append_drop m bs, beValue_append]
  have hlt := beValue_lt (bs.drop m)
  have hlen : (List.take m bs ++ List.drop m bs).length - m = (bs.drop m).length := by simp
  have hpos : 0 < 256 ^ (bs.drop m).length := by positivity
  rw [hlen, Nat.mul_comm, Nat.mul_add_div hpos, Nat.div_eq_of_lt hlt, Nat.add_zero]

/-! ## Byte arrays of a fixed length -/

/-- A byte array of length `n`. -/
structure FixedBytes (n : ℕ) where
  /-- The bytes, first byte first. -/
  bytes : Bytes
  /-- There are exactly `n` of them. -/
  size : bytes.length = n

namespace FixedBytes

variable {n : ℕ}

/-- The array read as a big-endian number. -/
def value (a : FixedBytes n) : ℕ :=
  beValue a.bytes

/-- The array of length `n` that holds `v` in big-endian order. -/
def ofValue (n v : ℕ) : FixedBytes n :=
  ⟨beBytes n v, length_beBytes n v⟩

lemma value_injective : Function.Injective (value : FixedBytes n → ℕ) := by
  intro a b h
  have hbytes : a.bytes = b.bytes := beValue_injOn (a.size.trans b.size.symm) h
  cases a
  cases b
  simpa using hbytes

lemma value_lt (a : FixedBytes n) : a.value < 256 ^ n := by
  have h := beValue_lt a.bytes
  rwa [a.size] at h

lemma value_ofValue {v : ℕ} (hv : v < 256 ^ n) : (ofValue n v).value = v :=
  beValue_beBytes_of_lt hv

/-- Byte arrays are ordered by their big-endian values. -/
instance : LinearOrder (FixedBytes n) :=
  LinearOrder.lift' value value_injective

end FixedBytes

/-! ## Hexadecimal text -/

/-- The lower-case hexadecimal digit of a number below 16. -/
def hexDigit (d : ℕ) : UInt8 :=
  if d < 10 then UInt8.ofNat (48 + d) else UInt8.ofNat (87 + d)

/-- The number a hexadecimal digit of either case stands for. -/
def hexDigitValue (c : UInt8) : Option ℕ :=
  if 48 ≤ c.toNat ∧ c.toNat ≤ 57 then some (c.toNat - 48)
  else if 97 ≤ c.toNat ∧ c.toNat ≤ 102 then some (c.toNat - 87)
  else if 65 ≤ c.toNat ∧ c.toNat ≤ 70 then some (c.toNat - 55)
  else none

/-- The lower-case hexadecimal text of a byte string. -/
def hexEncode : Bytes → Bytes
  | [] => []
  | b :: bs => hexDigit (b.toNat / 16) :: hexDigit (b.toNat % 16) :: hexEncode bs

/-- The byte string a hexadecimal text stands for, if it is one. -/
def hexDecode : Bytes → Option Bytes
  | [] => some []
  | [_] => none
  | c₁ :: c₂ :: cs => do
    let hi ← hexDigitValue c₁
    let lo ← hexDigitValue c₂
    let rest ← hexDecode cs
    pure (UInt8.ofNat (16 * hi + lo) :: rest)

@[simp]
lemma length_hexEncode (bs : Bytes) : (hexEncode bs).length = 2 * bs.length := by
  induction bs with
  | nil => rfl
  | cons b bs ih =>
    simp only [hexEncode, List.length_cons, ih]
    ring

/-- A text that decodes consists of hexadecimal digits. -/
lemma isSome_hexDigitValue_of_mem {cs bs : Bytes} (h : hexDecode cs = some bs) {c : UInt8}
    (hc : c ∈ cs) : (hexDigitValue c).isSome = true := by
  fun_induction hexDecode cs generalizing bs with
  | case1 => cases hc
  | case2 => simp at h
  | case3 c₁ c₂ cs ih =>
    simp only [Option.bind_eq_bind, Option.bind_eq_some_iff, Option.pure_def,
      Option.some.injEq] at h
    obtain ⟨hi, hhi, lo, hlo, rest, hrest, -⟩ := h
    rcases List.mem_cons.mp hc with rfl | hc
    · simp [hhi]
    rcases List.mem_cons.mp hc with rfl | hc
    · simp [hlo]
    · exact ih hrest hc

lemma hexDigitValue_hexDigit {d : ℕ} (hd : d < 16) : hexDigitValue (hexDigit d) = some d := by
  interval_cases d <;> decide

/-- Decoding undoes encoding. -/
lemma hexDecode_hexEncode (bs : Bytes) : hexDecode (hexEncode bs) = some bs := by
  induction bs with
  | nil => rfl
  | cons b bs ih =>
    have hb : b.toNat < 256 := b.toNat_lt
    have hhi : hexDigitValue (hexDigit (b.toNat / 16)) = some (b.toNat / 16) :=
      hexDigitValue_hexDigit (by omega)
    have hlo : hexDigitValue (hexDigit (b.toNat % 16)) = some (b.toNat % 16) :=
      hexDigitValue_hexDigit (by omega)
    have hjoin : UInt8.ofNat (16 * (b.toNat / 16) + b.toNat % 16) = b := by
      rw [Nat.div_add_mod, UInt8.ofNat_toNat]
    simp only [hexEncode, hexDecode, hhi, hlo, ih, Option.bind_eq_bind, Option.bind_some,
      Option.pure_def, hjoin]

/-! ## Case folding -/

/-- The lower-case form of an ASCII letter; every other byte is unchanged. -/
def toLower (c : UInt8) : UInt8 :=
  if 65 ≤ c.toNat ∧ c.toNat ≤ 90 then UInt8.ofNat (c.toNat + 32) else c

/-- Equality up to the case of ASCII letters. -/
def equalFold (s t : Bytes) : Bool :=
  s.map toLower == t.map toLower

lemma hexDigitValue_toLower (c : UInt8) : hexDigitValue (toLower c) = hexDigitValue c := by
  unfold toLower
  split_ifs with hupper
  · have hval : (UInt8.ofNat (c.toNat + 32)).toNat = c.toNat + 32 := by
      rw [UInt8.toNat_ofNat']
      omega
    unfold hexDigitValue
    rw [hval]
    split_ifs <;> first | omega | simp
  · rfl

/-- Upper-case and lower-case texts stand for the same bytes. -/
lemma hexDecode_map_toLower (cs : Bytes) : hexDecode (cs.map toLower) = hexDecode cs := by
  fun_induction hexDecode cs with
  | case1 => rfl
  | case2 => rfl
  | case3 c₁ c₂ cs ih =>
    simp only [List.map_cons, hexDecode, hexDigitValue_toLower, ih]

/-- A text equal to an encoding up to case decodes to the same bytes. -/
lemma hexDecode_of_equalFold {bs t : Bytes} (h : equalFold (hexEncode bs) t = true) :
    hexDecode t = some bs := by
  have hmap : (hexEncode bs).map toLower = t.map toLower := by simpa [equalFold] using h
  rw [← hexDecode_map_toLower, ← hmap, hexDecode_map_toLower, hexDecode_hexEncode]

/-- A digit of either case is written back in lower case. -/
lemma hexDigit_of_hexDigitValue {c : UInt8} {v : ℕ} (h : hexDigitValue c = some v) :
    v < 16 ∧ hexDigit v = toLower c := by
  unfold hexDigitValue at h
  split_ifs at h with hdigit hlower hupper
  · obtain rfl := Option.some.inj h
    have hsum : 48 + (c.toNat - 48) = c.toNat := by omega
    refine ⟨by omega, ?_⟩
    rw [hexDigit, if_pos (by omega), hsum, UInt8.ofNat_toNat, toLower, if_neg (by omega)]
  · obtain rfl := Option.some.inj h
    have hsum : 87 + (c.toNat - 87) = c.toNat := by omega
    refine ⟨by omega, ?_⟩
    rw [hexDigit, if_neg (by omega), hsum, UInt8.ofNat_toNat, toLower, if_neg (by omega)]
  · obtain rfl := Option.some.inj h
    have hsum : 87 + (c.toNat - 55) = c.toNat + 32 := by omega
    refine ⟨by omega, ?_⟩
    rw [hexDigit, if_neg (by omega), hsum, toLower, if_pos (by omega)]

/-- Encoding undoes decoding up to the case of the digits. -/
lemma hexEncode_of_hexDecode {cs bs : Bytes} (h : hexDecode cs = some bs) :
    hexEncode bs = cs.map toLower := by
  fun_induction hexDecode cs generalizing bs with
  | case1 =>
    obtain rfl := Option.some.inj h
    rfl
  | case2 => cases h
  | case3 c₁ c₂ cs ih =>
    simp only [Option.bind_eq_bind, Option.bind_eq_some_iff, Option.pure_def,
      Option.some.injEq] at h
    obtain ⟨hi, hhi, lo, hlo, rest, hrest, rfl⟩ := h
    obtain ⟨hhi16, hhiDigit⟩ := hexDigit_of_hexDigitValue hhi
    obtain ⟨hlo16, hloDigit⟩ := hexDigit_of_hexDigitValue hlo
    have hval : (UInt8.ofNat (16 * hi + lo)).toNat = 16 * hi + lo := by
      rw [UInt8.toNat_ofNat']
      omega
    rw [hexEncode, hval, show (16 * hi + lo) / 16 = hi by omega,
      show (16 * hi + lo) % 16 = lo by omega, hhiDigit, hloDigit, ih hrest]
    rfl

end ByteString
