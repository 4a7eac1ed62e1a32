import GoBuildCache.Client.IndexMerge
import GoBuildCache.Foundation.Checked
import GoBuildCache.Index.WireSize

/-!
# The index parser on any bytes

`parseIndexV2` is written here once more with every access and every operation on words checked
(`checkedParseIndexV2`): the reader indexes its data by position, sums, differences and shifts must
fit in 64 bits, and a shift of the accumulator may only push out bits that have been read. On every
byte string that fits in memory the checked parser has no fault and computes what `parseIndexV2`
does (`checkedParseIndexV2_eq`), so the parser never reads out of range and never wraps around.

What it accepts is well formed (`parseIndexV2_wellFormed`), and is accepted again after it has been
written by `MarshalIndexV2`.
-/

open ByteString BitString SortedList RiceCode Checked

namespace GoBuildCache

/-! ## The checked reader -/

/-- The bit reader with the data it indexes. -/
structure CheckedReader where
  /-- The data. -/
  data : Bytes
  /-- The next byte to load. -/
  pos : ℕ
  /-- The low `n` bits are loaded and not read yet. -/
  acc : ℕ
  /-- The number of loaded bits. -/
  n : ℕ

/-- Shifts the accumulator, of which `n` bits are not read yet; none of those may be lost. -/
def shiftLoaded (acc n s : ℕ) : Checked ℕ :=
  if n + s ≤ 64 then .ok (wrap64 (acc <<< s)) else .error .wraps

lemma shiftLoaded_of_le {acc n s : ℕ} (h : n + s ≤ 64) :
    shiftLoaded acc n s = .ok (wrap64 (acc <<< s)) :=
  if_pos h

namespace CheckedReader

/-- The loop of `refill`. -/
def refillLoop : ℕ → CheckedReader → Checked CheckedReader
  | 0, r => if r.n ≤ 56 ∧ r.pos < r.data.length then .error .unfinished else .ok r
  | fuel + 1, r =>
    if r.n ≤ 56 ∧ r.pos < r.data.length then do
      let acc ← shiftLoaded r.acc r.n 8
      let b ← get r.data r.pos
      refillLoop fuel { r with acc := acc ||| b.toNat, pos := r.pos + 1, n := r.n + 8 }
    else .ok r

/-- Loads as many bytes as fit. -/
def refill (r : CheckedReader) : Checked CheckedReader :=
  refillLoop (r.data.length - r.pos) r

/-- Reads a number of `nbits` bits. -/
def readBits (r : CheckedReader) (nbits : ℕ) : Checked (Option (ℕ × CheckedReader)) :=
  if nbits = 0 then .ok (some (0, r))
  else if 32 < nbits then do
    match ← readBits r (nbits - 32) with
    | none => return none
    | some (hi, r₁) =>
      match ← readBits r₁ 32 with
      | none => return none
      | some (lo, r₂) =>
        let hi ← word (hi <<< 32)
        return some (hi ||| lo, r₂)
  else do
    let r₁ ← r.refill
    if r₁.n < nbits then return none
    else
      let n ← minus r₁.n nbits
      return some ((r₁.acc >>> n) &&& (2 ^ nbits - 1), { r₁ with n := n })
termination_by nbits

/-- The loop of `readUnary`. -/
def readUnaryLoop : ℕ → CheckedReader → ℕ → Checked (Option (ℕ × CheckedReader))
  | 0, _, _ => .error .unfinished
  | fuel + 1, r, q => do
    let r₁ ← r.refill
    if r₁.n = 0 then return none
    else
      let s ← minus 64 r₁.n
      let valid ← shiftLoaded r₁.acc r₁.n s
      let ones := leadingZeros64 (not64 valid)
      if ones < r₁.n then
        let n ← minus r₁.n (ones + 1)
        let q ← word (q + ones)
        return some (q, { r₁ with n := n })
      else
        let q ← word (q + r₁.n)
        readUnaryLoop fuel { r₁ with n := 0 } q

/-- Counts the ones before the next zero; every round but the last reads at least one bit. -/
def readUnary (r : CheckedReader) : Checked (Option (ℕ × CheckedReader)) :=
  readUnaryLoop (r.n + 8 * (r.data.length - r.pos) + 1) r 0

/-! ## It reads what the unchecked reader reads -/

/-- The reader stands where the unchecked reader stands. -/
structure Loads (data : Bytes) (r : CheckedReader) (r' : BitReader) : Prop where
  data_eq : r.data = data
  pos_le : r.pos ≤ data.length
  rest : r'.rest = data.drop r.pos
  acc : r'.acc = r.acc
  n : r'.n = r.n

/-- A checked read has no fault, and its result is that of the unchecked one. -/
def Follows (data : Bytes) (x : Checked (Option (ℕ × CheckedReader))) (y : Option (ℕ × BitReader)) :
    Prop :=
  match y with
  | none => x = .ok none
  | some (v, r') => ∃ r, x = .ok (some (v, r)) ∧ Loads data r r'

/-- `refill` stops at the end of the data or when no byte fits. -/
lemma refill_of_done {r : BitReader} (h : r.rest = [] ∨ ¬ r.n ≤ 56) : r.refill = r := by
  rcases r with ⟨rest, acc, n, n_le⟩
  cases rest with
  | nil => rfl
  | cons b bs =>
    have hn : ¬ n ≤ 56 := by simpa using h
    simp only [BitReader.refill, BitReader.load, dif_neg hn]

lemma refillLoop_loads {data : Bytes} {fuel : ℕ} {r : CheckedReader} {r' : BitReader}
    (h : Loads data r r') (hfuel : data.length - r.pos ≤ fuel) :
    ∃ r₁, refillLoop fuel r = .ok r₁ ∧ Loads data r₁ r'.refill := by
  induction fuel generalizing r r' with
  | zero =>
    have hrest : r'.rest = [] := by rw [h.rest, List.drop_eq_nil_of_le (by omega)]
    refine ⟨r, ?_, (refill_of_done (Or.inl hrest)).symm ▸ h⟩
    rw [refillLoop, if_neg]
    rw [h.data_eq]
    omega
  | succ fuel ih =>
    by_cases hmore : r.n ≤ 56 ∧ r.pos < r.data.length
    · obtain ⟨hn, hpos⟩ := hmore
      have hpos' : r.pos < data.length := h.data_eq ▸ hpos
      rcases r' with ⟨rest, acc, n, n_le⟩
      obtain ⟨hdata, hle, hrest, hacc, hn'⟩ := h
      dsimp only at hrest hacc hn'
      rw [List.drop_eq_getElem_cons hpos'] at hrest
      subst hrest hacc hn'
      have hbyte : r.data[r.pos] = data[r.pos] := by simp only [hdata]
      have hload : (⟨data[r.pos] :: data.drop (r.pos + 1), r.acc, r.n, n_le⟩ : BitReader).refill
          = (⟨data.drop (r.pos + 1), wrap64 (r.acc <<< 8) ||| data[r.pos].toNat, r.n + 8,
              by omega⟩ : BitReader).refill := by
        simp only [BitReader.refill, BitReader.load, dif_pos hn]
      rw [refillLoop, if_pos ⟨hn, hpos⟩, shiftLoaded_of_le (by omega), get_of_lt hpos, ok_bind,
        ok_bind, hbyte, hload]
      exact ih ⟨hdata, by dsimp only; omega, rfl, rfl, rfl⟩ (by dsimp only; omega)
    · refine ⟨r, by rw [refillLoop, if_neg hmore], ?_⟩
      rwa [refill_of_done]
      rw [h.rest, h.n, List.drop_eq_nil_iff]
      rw [h.data_eq] at hmore
      omega

lemma refill_loads {data : Bytes} {r : CheckedReader} {r' : BitReader} (h : Loads data r r') :
    ∃ r₁, r.refill = .ok r₁ ∧ Loads data r₁ r'.refill :=
  refillLoop_loads h (by rw [h.data_eq])

/-- Dropping loaded bits keeps the readers in step. -/
lemma Loads.consume {data : Bytes} {r : CheckedReader} {r' : BitReader} (h : Loads data r r')
    {n m : ℕ} (hn : n = r.n - m) : Loads data { r with n := n } (r'.consume m) where
  data_eq := h.data_eq
  pos_le := h.pos_le
  rest := h.rest
  acc := h.acc
  n := by rw [hn, ← h.n]; rfl

lemma lt_of_readBits {r r₁ : BitReader} {nbits v : ℕ} (hnbits : nbits ≤ 64)
    (h : r.readBits nbits = some (v, r₁)) : v < 2 ^ nbits := by
  have href := r.readBits_refines hnbits
  rw [h] at href
  exact lt_of_takeBits href.symm

lemma readBits_follows_of_le {data : Bytes} {r : CheckedReader} {r' : BitReader}
    (h : Loads data r r') {nbits : ℕ} (hle : nbits ≤ 32) :
    Follows data (r.readBits nbits) (r'.readBits nbits) := by
  have h32 : ¬ 32 < nbits := not_lt.mpr hle
  rw [readBits, BitReader.readBits]
  by_cases h0 : nbits = 0
  · rw [if_pos h0, if_pos h0]
    exact ⟨r, rfl, h⟩
  · obtain ⟨r₁, hrefill, hloads⟩ := refill_loads h
    rw [if_neg h0, if_neg h0, if_neg h32, if_neg h32, hrefill, ok_bind]
    dsimp only
    rw [hloads.n]
    split_ifs with hlt
    · rfl
    · rw [minus_of_le (not_lt.mp hlt), ok_bind, hloads.acc]
      exact ⟨_, rfl, hloads.consume rfl⟩

lemma readBits_follows {data : Bytes} {r : CheckedReader} {r' : BitReader} (h : Loads data r r')
    {nbits : ℕ} (hle : nbits ≤ 64) : Follows data (r.readBits nbits) (r'.readBits nbits) := by
  by_cases h32 : 32 < nbits
  · have hle : nbits - 32 ≤ 32 := by omega
    have hhi := readBits_follows_of_le h hle
    have h0 : ¬ nbits = 0 := by omega
    rw [readBits, BitReader.readBits, if_neg h0, if_neg h0, if_pos h32, if_pos h32]
    rcases hread : r'.readBits (nbits - 32) with _ | ⟨hi, r₁'⟩
    · rw [hread] at hhi
      rw [show r.readBits (nbits - 32) = .ok none from hhi]
      rfl
    · rw [hread] at hhi
      obtain ⟨r₁, hhi, hloads₁⟩ := hhi
      have hhi32 := (lt_of_readBits (by omega) hread).trans_le
        (Nat.pow_le_pow_right (by decide) hle)
      have hlo := readBits_follows_of_le hloads₁ (le_refl 32)
      rw [hhi, ok_bind, Option.bind_some]
      dsimp only
      rcases hread' : r₁'.readBits 32 with _ | ⟨lo, r₂'⟩
      · rw [hread'] at hlo
        rw [show r₁.readBits 32 = .ok none from hlo]
        rfl
      · rw [hread'] at hlo
        obtain ⟨r₂, hlo, hloads₂⟩ := hlo
        have hfits : hi <<< 32 < 2 ^ 64 := by
          rw [Nat.shiftLeft_eq]
          omega
        rw [hlo, ok_bind]
        dsimp only
        rw [word_of_lt hfits, ok_bind, wrap64_of_lt hfits]
        exact ⟨r₂, rfl, hloads₂⟩
  · exact readBits_follows_of_le h (not_lt.mp h32)

/-- Counting does not wrap around, as no more ones are counted than there are bits. -/
lemma readUnaryLoop_follows {data : Bytes} {fuel : ℕ} {r : CheckedReader} {r' : BitReader} {q : ℕ}
    (h : Loads data r r') (hfuel : r'.n + 8 * r'.rest.length < fuel)
    (hq : q + (r'.n + 8 * r'.rest.length) < 2 ^ 64) :
    Follows data (readUnaryLoop fuel r q) (r'.readUnaryFrom q) := by
  induction fuel generalizing r r' q with
  | zero => omega
  | succ fuel ih =>
    obtain ⟨r₁, hrefill, hloads⟩ := refill_loads h
    have hmeasure := r'.refill_measure
    have hn64 := r'.refill.n_le
    rw [readUnaryLoop, BitReader.readUnaryFrom, hrefill, ok_bind]
    dsimp only
    rw [hloads.n, hloads.acc]
    rw [hloads.n] at hmeasure hn64
    by_cases hzero : r₁.n = 0
    · rw [if_pos hzero, if_pos hzero]
      rfl
    rw [if_neg hzero, if_neg hzero, minus_of_le hn64, ok_bind,
      shiftLoaded_of_le (show r₁.n + (64 - r₁.n) ≤ 64 by omega), ok_bind]
    set ones := leadingZeros64 (not64 (wrap64 (r₁.acc <<< (64 - r₁.n))))
    split_ifs with hones
    · have hfits : q + ones < 2 ^ 64 := by omega
      rw [minus_of_le (by omega), ok_bind, word_of_lt hfits, ok_bind, wrap64_of_lt hfits]
      exact ⟨_, rfl, hloads.consume rfl⟩
    · have hfits : q + r₁.n < 2 ^ 64 := by omega
      rw [word_of_lt hfits, ok_bind, wrap64_of_lt hfits]
      refine ih (hloads.consume (by omega)) ?_ ?_
      · change r'.refill.n - r₁.n + 8 * r'.refill.rest.length < fuel
        rw [hloads.n]
        omega
      · change q + r₁.n + (r'.refill.n - r₁.n + 8 * r'.refill.rest.length) < 2 ^ 64
        rw [hloads.n]
        omega

lemma readUnary_follows {data : Bytes} {r : CheckedReader} {r' : BitReader} (h : Loads data r r')
    (hfits : r'.n + 8 * r'.rest.length < 2 ^ 64) :
    Follows data r.readUnary r'.readUnary := by
  refine readUnaryLoop_follows h ?_ (by omega)
  rw [h.rest, h.n, List.length_drop, h.data_eq]
  omega

end CheckedReader

/-! ## The checked parser -/

namespace CheckedParse

/-- The value that a gap leads to from the previous value. -/
def nextValue (widthBits i : ℕ) (prev : Option ℕ) (g : ℕ) : Checked (Except IndexError ℕ) := do
  let limit := prefixLimit widthBits
  match prev with
  | none => if limit < g then return .error (.overflowsBits i widthBits) else return .ok g
  | some p =>
    if limit ≤ p then return .error (.overflowsBits i widthBits)
    else
      let room ← minus limit p
      let room ← minus room 1
      if room < g then return .error (.overflowsBits i widthBits)
      else
        let v ← word (p + g)
        let v ← word (v + 1)
        if limit < v then return .error (.overflowsBits i widthBits) else return .ok v

/-- One value. -/
def readValue (k widthBits count i : ℕ) (prev : Option ℕ) (r : CheckedReader) :
    Checked (Except IndexError (ℕ × CheckedReader)) := do
  match ← r.readUnary with
  | none => return .error (.bodyEnds i count)
  | some (q, r₁) =>
    match ← r₁.readBits k with
    | none => return .error (.bodyEnds i count)
    | some (low, r₂) =>
      let s ← minus 64 k
      if 0 < k ∧ q >>> s ≠ 0 then return .error (.overflows i)
      else
        let q ← word (q <<< k)
        match ← nextValue widthBits i prev (q ||| low) with
        | .error e => return .error e
        | .ok v => return .ok (v, r₂)

/-- The remaining `todo` of `count` values. -/
def readValues (k widthBits count : ℕ) :
    ℕ → Option ℕ → CheckedReader → Checked (Except IndexError (List ℕ × CheckedReader))
  | 0, _, r => return .ok ([], r)
  | todo + 1, prev, r => do
    match ← readValue k widthBits count (count - (todo + 1)) prev r with
    | .error e => return .error e
    | .ok (v, r₁) =>
      match ← readValues k widthBits count todo (some v) r₁ with
      | .error e => return .error e
      | .ok (vs, r₂) => return .ok (v :: vs, r₂)

/-- The body of a blob whose header has been checked. -/
def parseBodyV2 (k widthBits count : ℕ) (body : Bytes) :
    Checked (Except IndexError (List ℕ × ℕ)) := do
  let bits ← word (body.length * 8)
  if bits / (k + 1) < count then return .error (.countMismatch count body.length)
  else
    match ← readValues k widthBits count count none ⟨body, 0, 0, 0⟩ with
    | .error e => return .error e
    | .ok (values, r) =>
      if r.pos < body.length ∨ 8 ≤ r.n then
        let left ← minus body.length r.pos
        return .error (.bytesFollow (left + r.n / 8))
      else return .ok (values, widthBits)

/-- `ParseIndexV2` with every access and every operation on words checked. -/
def parseIndexV2 (sha256 : Sha256) (blob : Bytes) : Checked (Except IndexError (List ℕ × ℕ)) := do
  if blob.length < 24 + 32 then return .error (.tooSmall blob.length)
  else
    let magic ← Checked.slice blob 0 4
    if magic ≠ ascii "GBCI" then return .error .badMagic
    else
      let version ← get blob 4
      if version ≠ 2 then return .error (.unsupportedVersion version)
      else
        let width ← get blob 5
        let widthBits := width.toNat
        if widthBits < 32 ∨ 64 < widthBits then return .error (.unsupportedWidth widthBits)
        else
          let param ← get blob 6
          let k := param.toNat
          if 63 < k then return .error (.riceParameter k)
          else
            let bodyEnd ← minus blob.length 32
            let signed ← Checked.slice blob 0 bodyEnd
            let trailer ← Checked.slice blob bodyEnd blob.length
            if (sha256 signed).bytes ≠ trailer then return .error .trailerMismatch
            else
              let body ← Checked.slice blob 24 bodyEnd
              let count ← Checked.slice blob 16 24
              parseBodyV2 k widthBits (leValue count) body

/-! ## It computes what the unchecked parser computes -/

lemma prefixLimit_lt (widthBits : ℕ) : prefixLimit widthBits < 2 ^ 64 := by
  unfold prefixLimit
  split_ifs with h
  · decide
  · have := Nat.pow_lt_pow_right (show 1 < 2 by decide) (not_le.mp h)
    omega

lemma nextValue_eq (widthBits i : ℕ) (prev : Option ℕ) (g : ℕ) :
    nextValue widthBits i prev g = .ok (GoBuildCache.nextValue widthBits i prev g) := by
  have hlimit := prefixLimit_lt widthBits
  cases prev with
  | none =>
    simp only [nextValue, GoBuildCache.nextValue]
    split_ifs <;> rfl
  | some p =>
    simp only [nextValue, GoBuildCache.nextValue]
    by_cases hp : prefixLimit widthBits ≤ p
    · rw [if_pos hp, if_pos (Or.inl hp)]
      rfl
    · have hroom : sub64 (sub64 (prefixLimit widthBits) p) 1 = prefixLimit widthBits - p - 1 := by
        rw [sub64_of_le (by omega) hlimit, sub64_of_le (by omega) (by omega)]
      rw [if_neg hp, minus_of_le (by omega), ok_bind, minus_of_le (by omega), ok_bind, hroom]
      by_cases hg : prefixLimit widthBits - p - 1 < g
      · rw [if_pos hg, if_pos (Or.inr hg)]
        rfl
      · rw [if_neg hg, if_neg (by omega), word_of_lt (by omega), ok_bind, word_of_lt (by omega),
          ok_bind, wrap64_of_lt (by omega)]
        split_ifs <;> rfl

/-- A checked result has no fault, and its result is that of the unchecked one. -/
def Follows {α : Type} (data : Bytes) (x : Checked (Except IndexError (α × CheckedReader)))
    (y : Except IndexError (α × BitReader)) : Prop :=
  match y with
  | .error e => x = .ok (.error e)
  | .ok (a, r') => ∃ r, x = .ok (.ok (a, r)) ∧ r.Loads data r'

lemma lt_of_readUnary {r r₁ : BitReader} {q : ℕ} (h : r.readUnary = some (q, r₁)) :
    q < 2 ^ 64 := by
  have href := r.readUnary_refines
  rw [h] at href
  obtain ⟨p, -, hp⟩ := Option.map_eq_some_iff.mp href.symm
  obtain ⟨rfl, -⟩ := Prod.mk.inj hp
  exact Nat.mod_lt _ (by positivity)

/-- A quotient that passes the parser's check can be shifted back. -/
lemma shiftLeft_lt {q k : ℕ} (hq : q < 2 ^ 64) (hk : k ≤ 64)
    (hover : ¬ (0 < k ∧ q >>> (64 - k) ≠ 0)) : q <<< k < 2 ^ 64 := by
  rw [Nat.shiftLeft_eq]
  rcases Nat.eq_zero_or_pos k with rfl | hpos
  · simpa using hq
  · have hzero : q >>> (64 - k) = 0 := by
      by_contra hne
      exact hover ⟨hpos, hne⟩
    have hlt : q < 2 ^ (64 - k) := by
      rw [Nat.shiftRight_eq_div_pow] at hzero
      exact (Nat.div_eq_zero_iff_lt (by positivity)).mp hzero
    calc q * 2 ^ k < 2 ^ (64 - k) * 2 ^ k := Nat.mul_lt_mul_of_pos_right hlt (by positivity)
      _ = 2 ^ 64 := by rw [← pow_add, Nat.sub_add_cancel hk]

lemma readValue_follows {data : Bytes} {r : CheckedReader} {r' : BitReader} (h : r.Loads data r')
    (hdata : data.length < 2 ^ 60) {k : ℕ} (hk : k ≤ 63) (widthBits count i : ℕ)
    (prev : Option ℕ) :
    Follows data (readValue k widthBits count i prev r)
      (GoBuildCache.readValue k widthBits count i prev r') := by
  have hbits : r'.n + 8 * r'.rest.length < 2 ^ 64 := by
    have hn := r'.n_le
    rw [h.rest, List.length_drop]
    omega
  have hunary := CheckedReader.readUnary_follows h hbits
  rw [readValue, GoBuildCache.readValue]
  rcases hq : r'.readUnary with _ | ⟨q, r₁'⟩
  · rw [hq] at hunary
    rw [show r.readUnary = .ok none from hunary]
    rfl
  rw [hq] at hunary
  obtain ⟨r₁, hunary, hloads₁⟩ := hunary
  have hlow := CheckedReader.readBits_follows hloads₁ (show k ≤ 64 by omega)
  rw [hunary, ok_bind]
  dsimp only
  rcases hlo : r₁'.readBits k with _ | ⟨low, r₂'⟩
  · rw [hlo] at hlow
    rw [show r₁.readBits k = .ok none from hlow]
    rfl
  rw [hlo] at hlow
  obtain ⟨r₂, hlow, hloads₂⟩ := hlow
  rw [hlow, ok_bind]
  dsimp only
  rw [minus_of_le (by omega), ok_bind]
  split_ifs with hover
  · rfl
  · have hshift : q <<< k < 2 ^ 64 := shiftLeft_lt (lt_of_readUnary hq) (by omega) hover
    rw [word_of_lt hshift, ok_bind, nextValue_eq, ok_bind, wrap64_of_lt hshift]
    rcases GoBuildCache.nextValue widthBits i prev (q <<< k ||| low) with e | v
    · rfl
    · exact ⟨r₂, rfl, hloads₂⟩

lemma readValues_follows {data : Bytes} (hdata : data.length < 2 ^ 60) {k : ℕ} (hk : k ≤ 63)
    (widthBits count todo : ℕ) (prev : Option ℕ) {r : CheckedReader} {r' : BitReader}
    (h : r.Loads data r') :
    Follows data (readValues k widthBits count todo prev r)
      (GoBuildCache.readValues k widthBits count todo prev r') := by
  induction todo generalizing prev r r' with
  | zero => exact ⟨r, rfl, h⟩
  | succ todo ih =>
    have hvalue := readValue_follows h hdata hk widthBits count (count - (todo + 1)) prev
    rw [readValues, GoBuildCache.readValues]
    rcases hv : GoBuildCache.readValue k widthBits count (count - (todo + 1)) prev r'
      with e | ⟨v, r₁'⟩
    · rw [hv] at hvalue
      rw [show readValue k widthBits count (count - (todo + 1)) prev r = .ok (.error e) from hvalue]
      rfl
    rw [hv] at hvalue
    obtain ⟨r₁, hvalue, hloads₁⟩ := hvalue
    have hvalues := ih (some v) hloads₁
    rw [hvalue, ok_bind]
    dsimp only
    rcases hvs : GoBuildCache.readValues k widthBits count todo (some v) r₁' with e | ⟨vs, r₂'⟩
    · rw [hvs] at hvalues
      rw [show readValues k widthBits count todo (some v) r₁ = .ok (.error e) from hvalues]
      rfl
    · rw [hvs] at hvalues
      obtain ⟨r₂, hvalues, hloads₂⟩ := hvalues
      rw [hvalues]
      exact ⟨r₂, rfl, hloads₂⟩

lemma parseBodyV2_eq {body : Bytes} (hbody : body.length < 2 ^ 60) {k : ℕ} (hk : k ≤ 63)
    (widthBits count : ℕ) :
    parseBodyV2 k widthBits count body
      = .ok (GoBuildCache.parseBodyV2 k widthBits count body) := by
  have hstart : CheckedReader.Loads body ⟨body, 0, 0, 0⟩ (.ofBytes body) :=
    ⟨rfl, Nat.zero_le _, rfl, rfl, rfl⟩
  have hvalues := readValues_follows hbody hk widthBits count count none hstart
  have hbits : body.length * 8 < 2 ^ 64 := by omega
  rw [parseBodyV2, GoBuildCache.parseBodyV2, word_of_lt hbits, ok_bind, wrap64_of_lt hbits]
  split_ifs
  · rfl
  rcases hvs : GoBuildCache.readValues k widthBits count count none (.ofBytes body)
    with e | ⟨vs, r'⟩
  · rw [hvs] at hvalues
    rw [show readValues k widthBits count count none ⟨body, 0, 0, 0⟩ = .ok (.error e) from hvalues]
    rfl
  · rw [hvs] at hvalues
    obtain ⟨r, hvalues, hloads⟩ := hvalues
    have hrest : r'.rest ≠ [] ↔ r.pos < body.length := by
      rw [hloads.rest, ne_eq, List.drop_eq_nil_iff, not_le]
    have hlen : r'.rest.length = body.length - r.pos := by rw [hloads.rest, List.length_drop]
    rw [hvalues, ok_bind]
    simp only [hrest, hloads.n, hlen]
    split_ifs
    · rw [minus_of_le hloads.pos_le]
      rfl
    · rfl

/-- The checked parser has no fault on any bytes that fit in memory, and computes what the parser
computes. -/
theorem parseIndexV2_eq (sha256 : Sha256) {blob : Bytes} (hblob : blob.length < 2 ^ 60) :
    parseIndexV2 sha256 blob = .ok (GoBuildCache.parseIndexV2 sha256 blob) := by
  rw [parseIndexV2, GoBuildCache.parseIndexV2]
  by_cases hsmall : blob.length < 24 + 32
  · rw [if_pos hsmall, if_pos hsmall]
    rfl
  have hget : ∀ i, i < 56 → get blob i = .ok (byteAt blob i) := by
    intro i hi
    have hlt : i < blob.length := by omega
    rw [get_of_lt hlt, byteAt, List.getD_eq_getElem _ _ hlt]
  have hslice : ∀ i j, i ≤ j → j ≤ blob.length →
      Checked.slice blob i j = .ok (GoBuildCache.slice blob i j) := fun i j => slice_of_le
  have hsigned : GoBuildCache.slice blob 0 (blob.length - 32) = blob.take (blob.length - 32) :=
    List.drop_zero
  have htrailer : GoBuildCache.slice blob (blob.length - 32) blob.length
      = blob.drop (blob.length - 32) := by
    rw [GoBuildCache.slice, List.take_length]
  simp only [if_neg hsmall, hslice 0 4 (by omega) (by omega), hget 4 (by omega),
    hget 5 (by omega), hget 6 (by omega), minus_of_le (show 32 ≤ blob.length by omega),
    hslice 0 (blob.length - 32) (by omega) (by omega), hsigned,
    hslice (blob.length - 32) blob.length (by omega) le_rfl, htrailer,
    hslice 24 (blob.length - 32) (by omega) (by omega), hslice 16 24 (by omega) (by omega), ok_bind]
  have hbody : (GoBuildCache.slice blob 24 (blob.length - 32)).length < 2 ^ 60 := by
    rw [GoBuildCache.slice, List.length_drop, List.length_take]
    omega
  split_ifs with hmagic hversion hwidth hk htrailer
  · rfl
  · rfl
  · rfl
  · rfl
  · rfl
  · exact parseBodyV2_eq hbody (not_lt.mp hk) _ _

end CheckedParse

/-! ## What is accepted is well formed -/

/-- A value that passes the checks continues the list and has `widthBits` bits. -/
lemma nextValue_spec {widthBits i g v : ℕ} {prev : Option ℕ} (hw : widthBits ≤ 64)
    (h : nextValue widthBits i prev g = .ok v) : floor prev ≤ v ∧ v < 2 ^ widthBits := by
  have hlimit := prefixLimit_eq hw
  have hpow : 0 < 2 ^ widthBits := by positivity
  cases prev with
  | none =>
    rw [nextValue] at h
    split_ifs at h with hle
    obtain rfl := Except.ok.inj h
    exact ⟨Nat.zero_le _, by omega⟩
  | some p =>
    have h64 := CheckedParse.prefixLimit_lt widthBits
    simp only [nextValue] at h
    split_ifs at h with hcheck hle
    obtain rfl := Except.ok.inj h
    have hroom : sub64 (sub64 (prefixLimit widthBits) p) 1 = prefixLimit widthBits - p - 1 := by
      rw [sub64_of_le (by omega) h64, sub64_of_le (by omega) (by omega)]
    rw [hroom] at hcheck
    rw [wrap64_of_lt (by omega)] at hle ⊢
    exact ⟨by simp only [floor]; omega, by omega⟩

lemma readValue_spec {k widthBits count i v : ℕ} {prev : Option ℕ} {r r' : BitReader}
    (hw : widthBits ≤ 64) (h : readValue k widthBits count i prev r = .ok (v, r')) :
    floor prev ≤ v ∧ v < 2 ^ widthBits := by
  unfold readValue at h
  split at h
  · cases h
  · split at h
    · cases h
    · split_ifs at h
      rcases hnext : nextValue widthBits i prev _ with e | u
      · rw [hnext] at h
        cases h
      · rw [hnext] at h
        cases h
        exact nextValue_spec hw hnext

/-- Every value that is read continues the list and has `widthBits` bits. -/
lemma readValues_spec {k widthBits count todo : ℕ} {prev : Option ℕ} {r r' : BitReader}
    {vs : List ℕ} (hw : widthBits ≤ 64)
    (h : readValues k widthBits count todo prev r = .ok (vs, r')) :
    vs.length = todo ∧ AscendsFrom prev vs ∧ ∀ v ∈ vs, v < 2 ^ widthBits := by
  induction todo generalizing prev r vs with
  | zero =>
    cases h
    exact ⟨rfl, ⟨by simp, List.Pairwise.nil⟩, by simp⟩
  | succ todo ih =>
    rw [readValues] at h
    rcases hv : readValue k widthBits count (count - (todo + 1)) prev r with e | ⟨v, r₁⟩
    · rw [hv] at h
      cases h
    rw [hv] at h
    dsimp only at h
    rcases hvs : readValues k widthBits count todo (some v) r₁ with e | ⟨us, r₂⟩
    · rw [hvs] at h
      cases h
    rw [hvs] at h
    cases h
    obtain ⟨hfloor, hlt⟩ := readValue_spec hw hv
    obtain ⟨hlen, ⟨habove, hasc⟩, hlts⟩ := ih hvs
    refine ⟨by rw [List.length_cons, hlen], ⟨?_, List.pairwise_cons.mpr ⟨habove, hasc⟩⟩, ?_⟩
    · intro u hu
      rcases List.mem_cons.mp hu with rfl | hu
      · exact hfloor
      · have := habove u hu
        simp only [floor] at this
        omega
    · intro u hu
      rcases List.mem_cons.mp hu with rfl | hu
      · exact hlt
      · exact hlts u hu

/-- What the parser accepts has a width from 32 to 64 and the header's count of strictly ascending
values of that width, no more than the body has bits. -/
lemma parseIndexV2_wellFormed {sha256 : Sha256} {blob : Bytes} {values : List ℕ} {w : ℕ}
    (h : parseIndexV2 sha256 blob = .ok (values, w)) :
    32 ≤ w ∧ w ≤ 64 ∧ values.length = leValue (slice blob 16 24) ∧ Ascending values ∧
      (∀ v ∈ values, v < 2 ^ w) ∧ values.length ≤ 8 * blob.length := by
  rw [parseIndexV2] at h
  split_ifs at h with hsmall hmagic hversion hwidth hk htrailer
  rw [parseBodyV2] at h
  split_ifs at h with hcount
  rcases hvs : readValues (byteAt blob 6).toNat (byteAt blob 5).toNat (leValue (slice blob 16 24))
    (leValue (slice blob 16 24)) none (.ofBytes (slice blob 24 (blob.length - 32)))
    with e | ⟨vs, r⟩
  · rw [hvs] at h
    cases h
  rw [hvs] at h
  dsimp only at h
  split_ifs at h
  cases h
  obtain ⟨hlen, hasc, hlt⟩ := readValues_spec (by omega) hvs
  refine ⟨by omega, by omega, hlen, hasc.2, hlt, ?_⟩
  have hbody : (slice blob 24 (blob.length - 32)).length ≤ blob.length := by
    rw [slice, List.length_drop, List.length_take]
    omega
  have hwrap : wrap64 ((slice blob 24 (blob.length - 32)).length * 8)
      ≤ (slice blob 24 (blob.length - 32)).length * 8 := Nat.mod_le _ _
  have hdiv := Nat.div_le_self (wrap64 ((slice blob 24 (blob.length - 32)).length * 8))
    ((byteAt blob 6).toNat + 1)
  omega

/-- A list that fits in memory is written without a panic: neither its values nor the capacity of
the buffer are refused. -/
lemma marshalIndexV2_of_wellFormed (sha256 : Sha256) {values : List ℕ} {w : ℕ} (hmin : 32 ≤ w)
    (hmax : w ≤ 64) (hasc : Ascending values) (hlt : ∀ v ∈ values, v < 2 ^ w)
    (hfits : values.length < 2 ^ 58) :
    marshalIndexV2 sha256 w values = some (marshalGBCI2 sha256 w values) ∧
      values.length * (riceParam w values.length + 2) < 2 ^ 63 := by
  have hlimit := prefixLimit_eq hmax
  constructor
  · have hvalues : ¬ ((∃ v ∈ values, prefixLimit w < v) ∨ ¬ values.Pairwise (· < ·)) := by
      rintro (⟨v, hv, hover⟩ | hpair)
      · have := hlt v hv
        omega
      · exact hpair hasc
    rw [marshalIndexV2, if_neg (by omega), if_neg hvalues]
  · have hcode := length_bitsFrom_riceParam_lt hmax hasc hlt hfits
    have hcost := le_length_bitsFrom (riceParam w values.length) none values
    have hdouble : values.length * (riceParam w values.length + 2)
        ≤ 2 * (values.length * (riceParam w values.length + 1)) := by
      rw [← Nat.mul_left_comm]
      exact Nat.mul_le_mul_left _ (by omega)
    omega

/-- On any bytes that fit in memory, the parser reads nothing out of range and wraps around nowhere;
what it accepts has a width from 32 to 64 and exactly the header's count of strictly ascending
values of that width; and `MarshalIndexV2` writes these without a panic into a blob that parses to
them. -/
theorem parseIndexV2_safe (sha256 : Sha256) {blob : Bytes} (hblob : blob.length < 2 ^ 55) :
    CheckedParse.parseIndexV2 sha256 blob = .ok (parseIndexV2 sha256 blob) ∧
      ∀ values w, parseIndexV2 sha256 blob = .ok (values, w) →
        32 ≤ w ∧ w ≤ 64 ∧ values.length = leValue (slice blob 16 24) ∧ Ascending values ∧
          (∀ v ∈ values, v < 2 ^ w) ∧
          ∃ blob', marshalIndexV2 sha256 w values = some blob' ∧
            values.length * (riceParam w values.length + 2) < 2 ^ 63 ∧
            parseIndexV2 sha256 blob' = .ok (values, w) := by
  refine ⟨CheckedParse.parseIndexV2_eq sha256 (by omega), ?_⟩
  intro values w h
  obtain ⟨hmin, hmax, hcount, hasc, hlt, hlen⟩ := parseIndexV2_wellFormed h
  have hfits : values.length < 2 ^ 58 := by omega
  obtain ⟨hmarshal, hcapacity⟩ := marshalIndexV2_of_wellFormed sha256 hmin hmax hasc hlt hfits
  exact ⟨hmin, hmax, hcount, hasc, hlt, _, hmarshal, hcapacity,
    parseIndexV2_marshalGBCI2 sha256 hmin hmax hasc hlt hfits⟩

/-- The blob of one value. -/
def oneValueBlob : Bytes :=
  marshalGBCI2 zeroDigest 32 [5]

theorem parseIndexV2_safe_oneValueBlob :
    CheckedParse.parseIndexV2 zeroDigest oneValueBlob = .ok (.ok ([5], 32)) ∧
      [5].length = leValue (slice oneValueBlob 16 24) := by
  have hasc : Ascending [5] := by decide
  have hlt : ∀ v ∈ [5], v < 2 ^ 32 := by decide
  have hlen : oneValueBlob.length < 2 ^ 55 := by
    rw [oneValueBlob, length_marshalGBCI2 zeroDigest (by decide) hasc hlt (by decide)]
    decide
  have hparse : parseIndexV2 zeroDigest oneValueBlob = .ok ([5], 32) :=
    parseIndexV2_marshalGBCI2 zeroDigest (by decide) (by decide) hasc hlt (by decide)
  obtain ⟨hchecked, haccepted⟩ := parseIndexV2_safe zeroDigest hlen
  exact ⟨hparse ▸ hchecked, (haccepted [5] 32 hparse).2.2.1⟩

end GoBuildCache
