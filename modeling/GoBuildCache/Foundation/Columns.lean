import GoBuildCache.Foundation.Text

/-!
# Numbers in columns

A record of fixed length holds its numbers in decimal, right-aligned in columns that are wide enough
for all of them. A reader skips the blanks and parses the rest (`atoi_skipBlanks_padLeft`).
-/

namespace ByteString

/-- A signed number in decimal: `%d`. -/
def formatInt (n : ℤ) : Bytes :=
  if n < 0 then 45 :: decimal n.natAbs else decimal n.natAbs

/-- A text with blanks in front, so that it has at least `width` bytes. -/
def padLeft (width : ℕ) (s : Bytes) : Bytes :=
  List.replicate (width - s.length) 32 ++ s

/-- A text without the blanks in front. -/
def skipBlanks (s : Bytes) : Bytes :=
  s.dropWhile (· = 32)

lemma length_padLeft {width : ℕ} {s : Bytes} (h : s.length ≤ width) :
    (padLeft width s).length = width := by
  rw [padLeft, List.length_append, List.length_replicate, Nat.sub_add_cancel h]

lemma visible_formatInt (n : ℤ) : Visible (formatInt n) := by
  unfold formatInt
  split_ifs
  · intro c hc
    rcases List.mem_cons.mp hc with rfl | hc
    · decide
    · exact visible_decimal _ c hc
  · exact visible_decimal _

/-- The digits of an `int64` and its sign. -/
lemma length_formatInt_le {n : ℤ} (h : -2 ^ 63 ≤ n) (h' : n < 2 ^ 63) :
    (formatInt n).length ≤ 20 := by
  have hdigits : (decimal n.natAbs).length ≤ 19 :=
    length_decimal_le (by decide) (by norm_num; omega)
  unfold formatInt
  split_ifs
  · exact Nat.succ_le_succ hdigits
  · exact hdigits.trans (by decide)

lemma skipBlanks_padLeft (width : ℕ) {s : Bytes} (hs : Visible s) :
    skipBlanks (padLeft width s) = s := by
  have hblanks : ∀ c ∈ List.replicate (width - s.length) (32 : UInt8), decide (c = 32) = true := by
    intro c hc
    exact decide_eq_true (List.eq_of_mem_replicate hc)
  rw [skipBlanks, padLeft, List.dropWhile_append_of_pos hblanks]
  cases s with
  | nil => rfl
  | cons c cs =>
    have hc : c ≠ 32 := by
      rintro rfl
      exact absurd (hs 32 (List.mem_cons_self ..)).1 (by decide)
    rw [List.dropWhile_cons_of_neg (by simpa using hc)]

/-- A digit is no sign. -/
lemma head?_decimal_ne {n : ℕ} {c : UInt8} (hc : c.toNat < 48) : (decimal n).head? ≠ some c := by
  have hread := decimalFrom_decimalDigits (Nat.lt_succ_self n)
  intro hhead
  obtain ⟨cs, hcs⟩ := List.head?_eq_some_iff.mp hhead
  rw [← decimal, hcs, decimalFrom, if_neg (by omega)] at hread
  cases hread

/-- A number that fits an `int64` is read back. -/
lemma atoi_formatInt {n : ℤ} (h : -2 ^ 63 ≤ n) (h' : n < 2 ^ 63) : atoi (formatInt n) = some n := by
  have hread : decimalFrom 0 (decimal n.natAbs) = some n.natAbs :=
    decimalFrom_decimalDigits (Nat.lt_succ_self _)
  have hrange : -9223372036854775808 ≤ n ∧ n < 9223372036854775808 := ⟨by omega, by omega⟩
  by_cases hneg : n < 0
  · rw [formatInt, if_pos hneg]
    simp [atoi, decimal_ne_nil, hread, abs_of_neg hneg, hrange]
  · have habs : (n.natAbs : ℤ) = n := by omega
    have hminus : (decimal n.natAbs).head? ≠ some 45 := head?_decimal_ne (by decide)
    have hplus : (decimal n.natAbs).head? ≠ some 43 := head?_decimal_ne (by decide)
    rw [formatInt, if_neg hneg]
    simp [atoi, hminus, hplus, decimal_ne_nil, hread, habs, hrange]

/-- A number in a column is read back. -/
lemma atoi_skipBlanks_padLeft (width : ℕ) {n : ℤ} (h : -2 ^ 63 ≤ n) (h' : n < 2 ^ 63) :
    atoi (skipBlanks (padLeft width (formatInt n))) = some n := by
  rw [skipBlanks_padLeft width (visible_formatInt n), atoi_formatInt h h']

end ByteString
