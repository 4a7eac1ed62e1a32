import GoBuildCache.Foundation.Bytes

/-!
# Numbers of variable length

A number of 64 bits is written as bytes of seven bits each, the lowest ones first, every byte but
the last with its high bit set (`appendUvarint`). Reading (`uvarint`) yields the number and how many
bytes it took; the count is not positive if the bytes end within the number or it has too many bits.
What is read is read from the bytes that it took (`exists_isUvarint`), and what is written is read
back (`isUvarint_appendUvarint`).
-/

open ByteString

namespace Uvarint

/-- The bytes of a number. There are as many more bytes as `fuel` at most. -/
def appendLoop : ℕ → ℕ → Bytes
  | 0, x => [.ofNat x]
  | fuel + 1, x =>
    if 0x80 ≤ x then (.ofNat x ||| 0x80) :: appendLoop fuel (x >>> 7) else [.ofNat x]

/-- The bytes of a number of 64 bits. -/
def appendUvarint (x : ℕ) : Bytes :=
  appendLoop 9 x

/-- Reads a number of which the bytes before `i` are the bits `x` before `s`. A tenth byte has only
one bit left, and there is no eleventh. -/
def uvarintLoop : ℕ → ℕ → ℕ → Bytes → ℕ × ℤ
  | _, _, _, [] => (0, 0)
  | i, x, s, b :: rest =>
    if i = 10 then (0, -(i + 1))
    else if b < 0x80 then
      if i = 9 ∧ 1 < b then (0, -(i + 1))
      else (x ||| b.toNat <<< s, i + 1)
    else uvarintLoop (i + 1) (x ||| (b &&& 0x7f).toNat <<< s) (s + 7) rest

/-- Reads a number. -/
def uvarint (buf : Bytes) : ℕ × ℤ :=
  uvarintLoop 0 0 0 buf

/-- The bytes are those of a number, whatever follows. -/
def IsUvarint (bs : Bytes) (n : ℕ) : Prop :=
  ∀ rest, uvarint (bs ++ rest) = (n, (bs.length : ℤ))

/-! ## Writing and reading -/

lemma toNat_or_and (x : ℕ) : ((UInt8.ofNat x ||| 0x80) &&& 0x7f).toNat = x % 128 := by
  rw [UInt8.toNat_and, UInt8.toNat_or, UInt8.toNat_ofNat']
  change (x % 2 ^ 8 ||| 128) &&& (2 ^ 7 - 1) = _
  rw [Nat.and_two_pow_sub_one_eq_mod, Nat.or_mod_two_pow]
  simp

lemma not_or_lt (x : ℕ) : ¬ (UInt8.ofNat x ||| 0x80) < 0x80 := by
  rw [UInt8.lt_iff_toNat_lt, UInt8.toNat_or, not_lt]
  exact Nat.right_le_or

/-- The lowest seven bits and the others. -/
lemma shiftLeft_or_shiftLeft (x s : ℕ) :
    (x % 128) <<< s ||| (x >>> 7) <<< (s + 7) = x <<< s := by
  have hsplit : (x >>> 7) <<< 7 ||| x % 128 = x := by
    rw [← Nat.shiftLeft_add_eq_or_of_lt (by omega), Nat.shiftRight_eq_div_pow, Nat.shiftLeft_eq]
    omega
  rw [Nat.add_comm s 7, Nat.shiftLeft_add, ← Nat.shiftLeft_or_distrib, Nat.lor_comm, hsplit]

/-- A last byte is read. -/
lemma uvarintLoop_last {i x acc s : ℕ} (hi : i ≤ 9) (hx : x < 0x80) (hlast : i = 9 → x ≤ 1)
    (rest : Bytes) :
    uvarintLoop i acc s (.ofNat x :: rest) = (acc ||| x <<< s, ((i + 1 : ℕ) : ℤ)) := by
  have hbyte : (UInt8.ofNat x).toNat = x := UInt8.toNat_ofNat_of_lt' (hx.trans (by decide))
  have hlow : UInt8.ofNat x < 0x80 := by
    rw [UInt8.lt_iff_toNat_lt, hbyte]
    exact hx
  have hfits : ¬ (i = 9 ∧ 1 < UInt8.ofNat x) := by
    rintro ⟨hi, hlt⟩
    rw [UInt8.lt_iff_toNat_lt, hbyte] at hlt
    exact absurd hlt (not_lt.mpr (hlast hi))
  rw [uvarintLoop, if_neg (by omega), if_pos hlow, if_neg hfits, hbyte]
  push_cast
  rfl

/-- The loop reads what the loop has written. -/
lemma uvarintLoop_appendLoop {fuel i x acc : ℕ} (hi : i + fuel = 9) (hx : x < 2 ^ (64 - 7 * i))
    (rest : Bytes) :
    uvarintLoop i acc (7 * i) (appendLoop fuel x ++ rest)
      = (acc ||| x <<< (7 * i), ((i + (appendLoop fuel x).length : ℕ) : ℤ)) := by
  induction fuel generalizing i x acc with
  | zero =>
    obtain rfl : i = 9 := hi
    have hbit : x < 2 := hx
    exact uvarintLoop_last le_rfl (by omega) (fun _ => by omega) rest
  | succ fuel ih =>
    rw [appendLoop]
    split_ifs with hbig
    · have hnext : x >>> 7 < 2 ^ (64 - 7 * (i + 1)) := by
        have hpow : 64 - 7 * i = 64 - 7 * (i + 1) + 7 := by omega
        rw [hpow, pow_add] at hx
        rw [Nat.shiftRight_eq_div_pow]
        exact Nat.div_lt_of_lt_mul (by rw [Nat.mul_comm]; exact hx)
      rw [List.cons_append, uvarintLoop, if_neg (by omega), if_neg (not_or_lt x), toNat_or_and,
        show 7 * i + 7 = 7 * (i + 1) from rfl, ih (by omega) hnext, Nat.lor_assoc,
        show 7 * (i + 1) = 7 * i + 7 from rfl, shiftLeft_or_shiftLeft, List.length_cons]
      congr 2
      omega
    · exact uvarintLoop_last (by omega) (not_le.mp hbig) (fun h => by omega) rest

lemma isUvarint_appendUvarint {x : ℕ} (hx : x < 2 ^ 64) : IsUvarint (appendUvarint x) x := by
  intro rest
  have hloop : uvarintLoop 0 0 (7 * 0) (appendLoop 9 x ++ rest) = _ :=
    uvarintLoop_appendLoop rfl hx rest
  simpa [uvarint, appendUvarint] using hloop

/-! ## What is read -/

/-- If a number is read, it is read from the bytes that it took. -/
lemma uvarintLoop_spec {i x s n : ℕ} {w : ℤ} {buf : Bytes} (hread : uvarintLoop i x s buf = (n, w))
    (hw : 0 < w) :
    ∃ bs rest, buf = bs ++ rest ∧ w = i + bs.length ∧
      ∀ rest, uvarintLoop i x s (bs ++ rest) = (n, w) := by
  induction buf generalizing i x s with
  | nil =>
    cases hread
    exact absurd hw (lt_irrefl 0)
  | cons b buf ih =>
    rw [uvarintLoop] at hread
    split_ifs at hread with hten hlow hlast
    · obtain rfl : -((i : ℤ) + 1) = w := congrArg Prod.snd hread
      omega
    · obtain rfl : -((i : ℤ) + 1) = w := congrArg Prod.snd hread
      omega
    · refine ⟨[b], buf, rfl, ?_, ?_⟩
      · obtain rfl : (i : ℤ) + 1 = w := congrArg Prod.snd hread
        rfl
      · intro rest
        rw [List.singleton_append, uvarintLoop, if_neg hten, if_pos hlow, if_neg hlast, hread]
    · obtain ⟨bs, rest, rfl, hwidth, hall⟩ := ih hread
      refine ⟨b :: bs, rest, rfl, ?_, ?_⟩
      · rw [hwidth, List.length_cons]
        push_cast
        ring
      · intro rest
        rw [List.cons_append, uvarintLoop, if_neg hten, if_neg hlow, hall]

/-- A number that is read is at the front of the bytes. -/
lemma exists_isUvarint {buf : Bytes} (hw : 0 < (uvarint buf).2) :
    ∃ bs rest, buf = bs ++ rest ∧ IsUvarint bs (uvarint buf).1 := by
  have hread : uvarintLoop 0 0 0 buf = ((uvarint buf).1, (uvarint buf).2) := rfl
  obtain ⟨bs, rest, hbuf, hwidth, hall⟩ := uvarintLoop_spec hread hw
  refine ⟨bs, rest, hbuf, ?_⟩
  intro rest
  rw [uvarint, hall rest, hwidth]
  simp [uvarint]

lemma IsUvarint.length_pos {bs : Bytes} {n : ℕ} (h : IsUvarint bs n) : 0 < bs.length := by
  by_contra hempty
  obtain rfl : bs = [] := List.eq_nil_of_length_eq_zero (by omega)
  have hwidth : (uvarint [0]).2 = 0 := congrArg Prod.snd (h [0])
  exact absurd hwidth (by decide)

end Uvarint
