import GoBuildCache.Foundation.Bytes

/-!
# Searching and trimming byte strings

The functions of a text library that the programs below use, on byte strings: finding a separator,
trimming, splitting at spaces, decimal numbers, and base64 with the URL alphabet and without
padding. A line of visible words is split into these words (`fields_line`), and a number is read
back from its digits (`parseUint64_decimal`).
-/

namespace ByteString

/-- The position of the first occurrence of `sep`. -/
def index (sep : Bytes) : Bytes → Option ℕ
  | [] => if sep = [] then some 0 else none
  | c :: cs => if sep.isPrefixOf (c :: cs) then some 0 else (index sep cs).map (· + 1)

/-- The position of the first occurrence of a byte. -/
def indexByte (b : UInt8) (s : Bytes) : Option ℕ :=
  s.findIdx? (· = b)

/-- Drops the bytes `b` at the end. -/
def trimRight (b : UInt8) (s : Bytes) : Bytes :=
  s.rdropWhile (· = b)

/-- The UTF-8 encodings of the characters that count as space. -/
def spaces : List Bytes :=
  [[9], [10], [11], [12], [13], [32], [0xC2, 0x85], [0xC2, 0xA0], [0xE1, 0x9A, 0x80],
    [0xE2, 0x80, 0xA8], [0xE2, 0x80, 0xA9], [0xE2, 0x80, 0xAF], [0xE2, 0x81, 0x9F],
    [0xE3, 0x80, 0x80]] ++
  (List.range 11).map fun i => [0xE2, 0x80, UInt8.ofNat (0x80 + i)]

/-- Drops spaces at the start, at most `n` of them. -/
def dropSpaces : ℕ → Bytes → Bytes
  | 0, s => s
  | n + 1, s =>
    match spaces.find? (·.isPrefixOf s) with
    | none => s
    | some e => dropSpaces n (s.drop e.length)

/-- Drops spaces at the end, at most `n` of them. -/
def rdropSpaces : ℕ → Bytes → Bytes
  | 0, s => s
  | n + 1, s =>
    match spaces.find? (·.isSuffixOf s) with
    | none => s
    | some e => rdropSpaces n (s.take (s.length - e.length))

/-- Drops the spaces at both ends. -/
def trimSpace (s : Bytes) : Bytes :=
  rdropSpaces s.length (dropSpaces s.length s)

/-- The number that a string of decimal digits stands for, after the digits of `acc`. -/
def decimalFrom : ℕ → Bytes → Option ℕ
  | acc, [] => some acc
  | acc, c :: cs =>
    if 48 ≤ c.toNat ∧ c.toNat ≤ 57 then decimalFrom (acc * 10 + (c.toNat - 48)) cs else none

/-- The number that a decimal text stands for, if it has 64 bits: `strconv.ParseUint`. -/
def parseUint64 (s : Bytes) : Option ℕ :=
  if s = [] then none else (decimalFrom 0 s).filter (· < 2 ^ 64)

/-- The number that a decimal text with an optional sign stands for, if it fits an `int`:
`strconv.Atoi`. -/
def atoi (s : Bytes) : Option ℤ :=
  let negative := s.head? = some 45
  let digits := if negative ∨ s.head? = some 43 then s.tail else s
  if digits = [] then none
  else ((decimalFrom 0 digits).map fun n => if negative then -(n : ℤ) else n).filter fun n =>
    -2 ^ 63 ≤ n ∧ n < 2 ^ 63

/-- The last `fuel` decimal digits of a number, without leading zeros. -/
def decimalDigits : ℕ → ℕ → Bytes
  | 0, _ => []
  | fuel + 1, n =>
    if n < 10 then [UInt8.ofNat (48 + n)]
    else decimalDigits fuel (n / 10) ++ [UInt8.ofNat (48 + n % 10)]

/-- A number in decimal: `%d`. -/
def decimal (n : ℕ) : Bytes :=
  decimalDigits (n + 1) n

/-- The fields of a text after `skip` bytes, where `field` has been read of the first one. -/
def fieldsFrom : ℕ → Bytes → Bytes → List Bytes
  | _, field, [] => if field = [] then [] else [field]
  | skip + 1, field, _ :: cs => fieldsFrom skip field cs
  | 0, field, c :: cs =>
    match spaces.find? (·.isPrefixOf (c :: cs)) with
    | none => fieldsFrom 0 (field ++ [c]) cs
    | some e =>
      if field = [] then fieldsFrom (e.length - 1) [] cs
      else field :: fieldsFrom (e.length - 1) [] cs

/-- The parts of a text between spaces: `strings.Fields`. -/
def fields (s : Bytes) : List Bytes :=
  fieldsFrom 0 [] s

/-! ## Positions and lengths -/

/-- An occurrence lies within the string. -/
lemma index_add_length_le {sep s : Bytes} {i : ℕ} (h : index sep s = some i) :
    i + sep.length ≤ s.length := by
  induction s generalizing i with
  | nil =>
    rw [index] at h
    split_ifs at h with hsep
    cases h
    simp [hsep]
  | cons c cs ih =>
    rw [index] at h
    split_ifs at h with hstarts
    · cases h
      rw [Nat.zero_add]
      exact (List.isPrefixOf_iff_prefix.mp hstarts).length_le
    · obtain ⟨j, hj, rfl⟩ := Option.map_eq_some_iff.mp h
      have hle := ih hj
      rw [List.length_cons]
      omega

/-- The first occurrence: the separator is there, and at no position before. -/
lemma index_eq_some_iff {sep s : Bytes} (hsep : sep ≠ []) {i : ℕ} :
    index sep s = some i ↔ sep <+: s.drop i ∧ ∀ j < i, ¬ sep <+: s.drop j := by
  induction s generalizing i with
  | nil => simp [index, hsep]
  | cons c cs ih =>
    rw [index]
    by_cases hstarts : sep.isPrefixOf (c :: cs) = true
    · rw [if_pos hstarts, Option.some.injEq]
      rw [List.isPrefixOf_iff_prefix] at hstarts
      constructor
      · rintro rfl
        exact ⟨hstarts, fun j hj => absurd hj (Nat.not_lt_zero j)⟩
      · rintro ⟨-, hfirst⟩
        by_contra hne
        exact hfirst 0 (Nat.pos_of_ne_zero (Ne.symm hne)) hstarts
    · rw [if_neg hstarts]
      rw [List.isPrefixOf_iff_prefix] at hstarts
      cases i with
      | zero => simp [hstarts]
      | succ i =>
        rw [Option.map_eq_some_iff]
        simp only [Nat.add_right_cancel_iff, exists_eq_right, ih, List.drop_succ_cons]
        refine and_congr_right fun _ => ?_
        constructor
        · intro h j hj
          cases j with
          | zero => exact hstarts
          | succ j => exact h j (by omega)
        · intro h j hj
          exact h (j + 1) (by omega)

/-- There is no occurrence. -/
lemma index_eq_none_iff {sep s : Bytes} (hsep : sep ≠ []) :
    index sep s = none ↔ ∀ j, ¬ sep <+: s.drop j := by
  induction s with
  | nil => simp [index, hsep]
  | cons c cs ih =>
    rw [index]
    by_cases hstarts : sep.isPrefixOf (c :: cs) = true
    · rw [if_pos hstarts]
      rw [List.isPrefixOf_iff_prefix] at hstarts
      simp only [reduceCtorEq, false_iff, not_forall, not_not]
      exact ⟨0, hstarts⟩
    · rw [if_neg hstarts, Option.map_eq_none_iff, ih]
      rw [List.isPrefixOf_iff_prefix] at hstarts
      constructor
      · intro h j
        cases j with
        | zero => exact hstarts
        | succ j => exact h j
      · intro h j
        exact h (j + 1)

lemma indexByte_lt {b : UInt8} {s : Bytes} {i : ℕ} (h : indexByte b s = some i) : i < s.length :=
  (List.findIdx?_eq_some_iff_getElem.mp h).1

lemma length_dropSpaces_le (n : ℕ) (s : Bytes) : (dropSpaces n s).length ≤ s.length := by
  induction n generalizing s with
  | zero => exact le_rfl
  | succ n ih =>
    rw [dropSpaces]
    split
    · exact le_rfl
    · exact (ih _).trans (by simp)

lemma length_rdropSpaces_le (n : ℕ) (s : Bytes) : (rdropSpaces n s).length ≤ s.length := by
  induction n generalizing s with
  | zero => exact le_rfl
  | succ n ih =>
    rw [rdropSpaces]
    split
    · exact le_rfl
    · exact (ih _).trans (by simp)

/-- Trimming makes nothing longer. -/
lemma length_trimSpace_le (s : Bytes) : (trimSpace s).length ≤ s.length :=
  (length_rdropSpaces_le ..).trans (length_dropSpaces_le ..)

/-! ## Reading numbers and fields back -/

lemma decimalFrom_append (acc : ℕ) (s t : Bytes) :
    decimalFrom acc (s ++ t) = (decimalFrom acc s).bind fun a => decimalFrom a t := by
  induction s generalizing acc with
  | nil => rfl
  | cons c cs ih =>
    simp only [List.cons_append, decimalFrom]
    split_ifs
    · exact ih _
    · rfl

/-- One decimal digit is read back. -/
lemma decimalFrom_digit (acc : ℕ) {d : ℕ} (hd : d < 10) :
    decimalFrom acc [UInt8.ofNat (48 + d)] = some (acc * 10 + d) := by
  have hval : (UInt8.ofNat (48 + d)).toNat = 48 + d := by
    rw [UInt8.toNat_ofNat', Nat.mod_eq_of_lt (by omega)]
  simp only [decimalFrom, hval]
  rw [if_pos (by omega), Nat.add_sub_cancel_left]

lemma decimalFrom_decimalDigits {fuel n : ℕ} (hn : n < fuel) :
    decimalFrom 0 (decimalDigits fuel n) = some n := by
  induction fuel generalizing n with
  | zero => omega
  | succ fuel ih =>
    unfold decimalDigits
    split_ifs with hsmall
    · rw [decimalFrom_digit 0 hsmall, Nat.zero_mul, Nat.zero_add]
    · rw [decimalFrom_append, ih (by omega), Option.bind_some,
        decimalFrom_digit _ (Nat.mod_lt n (by decide))]
      exact congrArg some (Nat.div_add_mod' n 10)

lemma length_decimalDigits_le {fuel n d : ℕ} (hd : 0 < d) (hn : n < 10 ^ d) :
    (decimalDigits fuel n).length ≤ d := by
  induction fuel generalizing n d with
  | zero => exact Nat.zero_le d
  | succ fuel ih =>
    unfold decimalDigits
    split_ifs with hsmall
    · exact hd
    · obtain ⟨d, rfl⟩ : ∃ d', d = d' + 1 := ⟨d - 1, (Nat.sub_add_cancel hd).symm⟩
      have hlead : n / 10 < 10 ^ d := by
        rw [Nat.pow_succ] at hn
        exact Nat.div_lt_of_lt_mul (by omega)
      have hpos : 0 < d := by
        by_contra hzero
        obtain rfl : d = 0 := by omega
        omega
      rw [List.length_append, List.length_singleton]
      exact Nat.succ_le_succ (ih hpos hlead)

/-- How many digits a number has. -/
lemma length_decimal_le {n d : ℕ} (hd : 0 < d) (hn : n < 10 ^ d) : (decimal n).length ≤ d :=
  length_decimalDigits_le hd hn

lemma decimal_ne_nil (n : ℕ) : decimal n ≠ [] := by
  unfold decimal decimalDigits
  split_ifs <;> simp

/-- A number of 64 bits is read back. -/
lemma parseUint64_decimal {n : ℕ} (hn : n < 2 ^ 64) : parseUint64 (decimal n) = some n := by
  rw [parseUint64, if_neg (decimal_ne_nil n), decimal,
    decimalFrom_decimalDigits (Nat.lt_succ_self n)]
  simpa using hn

/-- A larger one is refused. -/
lemma parseUint64_decimal_of_le {n : ℕ} (hn : 2 ^ 64 ≤ n) : parseUint64 (decimal n) = none := by
  rw [parseUint64, if_neg (decimal_ne_nil n), decimal,
    decimalFrom_decimalDigits (Nat.lt_succ_self n)]
  simpa using hn

/-- The bytes of a text are visible characters of ASCII. -/
def Visible (s : Bytes) : Prop :=
  ∀ c ∈ s, 33 ≤ c.toNat ∧ c.toNat ≤ 126

lemma Visible.append {s t : Bytes} (hs : Visible s) (ht : Visible t) : Visible (s ++ t) := by
  intro c hc
  rcases List.mem_append.mp hc with hc | hc
  · exact hs c hc
  · exact ht c hc

lemma visible_decimalDigits (fuel n : ℕ) : Visible (decimalDigits fuel n) := by
  have hdigit : ∀ d < 10, Visible [UInt8.ofNat (48 + d)] := by
    intro d hd c hc
    rw [List.mem_singleton.mp hc, UInt8.toNat_ofNat', Nat.mod_eq_of_lt (by omega)]
    omega
  induction fuel generalizing n with
  | zero => exact fun c hc => by cases hc
  | succ fuel ih =>
    unfold decimalDigits
    split_ifs with hsmall
    · exact hdigit n hsmall
    · exact (ih _).append (hdigit _ (Nat.mod_lt n (by decide)))

lemma visible_decimal (n : ℕ) : Visible (decimal n) :=
  visible_decimalDigits (n + 1) n

lemma visible_hexEncode (bs : Bytes) : Visible (hexEncode bs) := by
  have hdigit : ∀ v < 16, 33 ≤ (hexDigit v).toNat ∧ (hexDigit v).toNat ≤ 126 := by decide
  induction bs with
  | nil => exact fun c hc => by cases hc
  | cons b bs ih =>
    intro c hc
    have hb := b.toNat_lt
    rcases List.mem_cons.mp hc with rfl | hc
    · exact hdigit _ (by omega)
    rcases List.mem_cons.mp hc with rfl | hc
    · exact hdigit _ (by omega)
    · exact ih c hc

/-- No space begins with a visible character. -/
lemma find?_spaces_of_visible {c : UInt8} (hc : 33 ≤ c.toNat ∧ c.toNat ≤ 126) (cs : Bytes) :
    spaces.find? (·.isPrefixOf (c :: cs)) = none := by
  have hheads : ∀ e ∈ spaces, ∃ b t, e = b :: t ∧ ¬ (33 ≤ b.toNat ∧ b.toNat ≤ 126) := by
    intro e he
    have hhead : ∀ e ∈ spaces, ∃ b ∈ e.head?, ¬ (33 ≤ b.toNat ∧ b.toNat ≤ 126) := by decide
    obtain ⟨b, hb, hout⟩ := hhead e he
    obtain ⟨t, rfl⟩ := List.head?_eq_some_iff.mp hb
    exact ⟨b, t, rfl, hout⟩
  refine List.find?_eq_none.mpr ?_
  intro e he hstarts
  obtain ⟨b, t, rfl, hout⟩ := hheads e he
  rw [List.isPrefixOf_cons_cons] at hstarts
  have hbc : b = c := by simpa using (Bool.and_eq_true_iff.mp hstarts).1
  exact hout (hbc ▸ hc)

/-- No space ends with a visible character. -/
lemma find?_spaces_of_visible_last {c : UInt8} (hc : 33 ≤ c.toNat ∧ c.toNat ≤ 126) (cs : Bytes) :
    spaces.find? (·.isSuffixOf (cs ++ [c])) = none := by
  have hlasts : ∀ e ∈ spaces, ∃ b ∈ e.getLast?, ¬ (33 ≤ b.toNat ∧ b.toNat ≤ 126) := by decide
  refine List.find?_eq_none.mpr ?_
  intro e he hends
  obtain ⟨b, hb, hout⟩ := hlasts e he
  obtain ⟨e', rfl⟩ := List.getLast?_eq_some_iff.mp hb
  obtain ⟨t, ht⟩ := List.isSuffixOf_iff_suffix.mp hends
  rw [← List.append_assoc] at ht
  have hbc : b = c := List.singleton_inj.mp (List.append_inj' ht rfl).2
  exact hout (hbc ▸ hc)

lemma rdropSpaces_blank (n : ℕ) (s : Bytes) :
    rdropSpaces (n + 1) (s ++ [32]) = rdropSpaces n s := by
  have hfind : spaces.find? (·.isSuffixOf (s ++ [32])) = some [32] := by
    simp only [List.isSuffixOf, List.reverse_append]
    rfl
  rw [rdropSpaces, hfind]
  simp

lemma rdropSpaces_blanks {word : Bytes} (hword : Visible word) (hne : word ≠ []) {n k : ℕ}
    (hk : k ≤ n) : rdropSpaces n (word ++ List.replicate k 32) = word := by
  induction k generalizing n with
  | zero =>
    obtain ⟨cs, c, rfl⟩ := (List.eq_nil_or_concat' word).resolve_left hne
    rw [List.replicate_zero, List.append_nil]
    cases n with
    | zero => rfl
    | succ n => rw [rdropSpaces, find?_spaces_of_visible_last (hword c (by simp))]
  | succ k ih =>
    obtain ⟨n, rfl⟩ : ∃ m, n = m + 1 := ⟨n - 1, by omega⟩
    rw [List.replicate_succ', ← List.append_assoc, rdropSpaces_blank]
    exact ih (by omega)

/-- Blanks after a word are trimmed. -/
lemma trimSpace_blanks {word : Bytes} (hword : Visible word) (hne : word ≠ []) (k : ℕ) :
    trimSpace (word ++ List.replicate k 32) = word := by
  have hdrop : ∀ n, dropSpaces n (word ++ List.replicate k 32) = word ++ List.replicate k 32 := by
    intro n
    obtain ⟨c, cs, rfl⟩ := List.exists_cons_of_ne_nil hne
    cases n with
    | zero => rfl
    | succ n =>
      rw [List.cons_append, dropSpaces, find?_spaces_of_visible (hword c (List.mem_cons_self ..))]
  rw [trimSpace, hdrop]
  exact rdropSpaces_blanks hword hne (by simp)

/-- Bytes `b` after a text that does not end with one are trimmed. -/
lemma trimRight_append_replicate {b : UInt8} {s : Bytes} (hs : s.getLast? ≠ some b) (k : ℕ) :
    trimRight b (s ++ List.replicate k b) = s := by
  induction k with
  | zero =>
    rw [List.replicate_zero, List.append_nil, trimRight, List.rdropWhile_eq_self_iff]
    intro hne hlast
    rw [decide_eq_true_iff] at hlast
    exact hs (by rw [List.getLast?_eq_some_getLast hne, hlast])
  | succ k ih =>
    rw [List.replicate_succ', ← List.append_assoc, trimRight, List.rdropWhile_concat_pos]
    · exact ih
    · simp

/-- Visible characters belong to the field being read. -/
lemma fieldsFrom_visible {word : Bytes} (hword : Visible word) (field rest : Bytes) :
    fieldsFrom 0 field (word ++ rest) = fieldsFrom 0 (field ++ word) rest := by
  induction word generalizing field with
  | nil => rw [List.nil_append, List.append_nil]
  | cons c cs ih =>
    rw [List.cons_append, fieldsFrom,
      find?_spaces_of_visible (hword c (List.mem_cons_self ..)) (cs ++ rest)]
    dsimp only
    rw [ih fun c' hc' => hword c' (List.mem_cons_of_mem c hc'), List.append_assoc]
    rfl

/-- A field ends at a blank. -/
lemma fieldsFrom_blank {field : Bytes} (hfield : field ≠ []) (rest : Bytes) :
    fieldsFrom 0 field (32 :: rest) = field :: fieldsFrom 0 [] rest := by
  have hfind : spaces.find? (·.isPrefixOf (32 :: rest)) = some [32] := rfl
  rw [fieldsFrom, hfind]
  exact if_neg hfield

/-- A field ends at the end of the line. -/
lemma fieldsFrom_newline {field : Bytes} (hfield : field ≠ []) :
    fieldsFrom 0 field [10] = [field] := by
  have hfind : spaces.find? (·.isPrefixOf [10]) = some [10] := rfl
  rw [fieldsFrom, hfind]
  exact if_neg hfield

/-- The fields of a line of three words. -/
lemma fields_line {a b c : Bytes} (ha : Visible a) (hb : Visible b) (hc : Visible c) (ha' : a ≠ [])
    (hb' : b ≠ []) (hc' : c ≠ []) : fields (a ++ 32 :: (b ++ 32 :: (c ++ [10]))) = [a, b, c] := by
  rw [fields, fieldsFrom_visible ha, List.nil_append, fieldsFrom_blank ha', fieldsFrom_visible hb,
    List.nil_append, fieldsFrom_blank hb', fieldsFrom_visible hc, List.nil_append,
    fieldsFrom_newline hc']

/-- No field is empty. -/
lemma ne_nil_of_mem_fieldsFrom {skip : ℕ} {field s f : Bytes} (h : f ∈ fieldsFrom skip field s) :
    f ≠ [] := by
  induction s generalizing skip field with
  | nil =>
    rw [fieldsFrom] at h
    split_ifs at h with hfield
    · cases h
    · exact List.mem_singleton.mp h ▸ hfield
  | cons c cs ih =>
    cases skip with
    | succ skip =>
      rw [fieldsFrom] at h
      exact ih h
    | zero =>
      rw [fieldsFrom] at h
      split at h
      · exact ih h
      · split_ifs at h with hfield
        · exact ih h
        · rcases List.mem_cons.mp h with rfl | hrest
          · exact hfield
          · exact ih hrest

lemma ne_nil_of_mem_fields {s f : Bytes} (h : f ∈ fields s) : f ≠ [] :=
  ne_nil_of_mem_fieldsFrom h

/-! ## Base64 -/

/-- One character of the URL alphabet of base64. -/
def base64Char (v : ℕ) : UInt8 :=
  if v < 26 then UInt8.ofNat (65 + v)
  else if v < 52 then UInt8.ofNat (71 + v)
  else if v < 62 then UInt8.ofNat (v - 4)
  else if v = 62 then 45
  else 95

/-- Base64 with the URL alphabet and without padding. -/
def base64RawURL : Bytes → Bytes
  | [] => []
  | [a] => [base64Char (a.toNat / 4), base64Char (a.toNat % 4 * 16)]
  | [a, b] =>
    [base64Char (a.toNat / 4), base64Char (a.toNat % 4 * 16 + b.toNat / 16),
      base64Char (b.toNat % 16 * 4)]
  | a :: b :: c :: rest =>
    base64Char (a.toNat / 4) :: base64Char (a.toNat % 4 * 16 + b.toNat / 16) ::
      base64Char (b.toNat % 16 * 4 + c.toNat / 64) :: base64Char (c.toNat % 64) ::
      base64RawURL rest

lemma base64RawURL_ne_nil {bs : Bytes} (h : bs ≠ []) : base64RawURL bs ≠ [] := by
  unfold base64RawURL
  split
  · exact absurd rfl h
  · exact List.cons_ne_nil _ _
  · exact List.cons_ne_nil _ _
  · exact List.cons_ne_nil _ _

end ByteString
