import GoBuildCache.Foundation.Checked

/-!
# Arrays of bits

An array of bits is stored in bytes, eight to each, the lowest bit first. A call that sets bits is
described by `Marks`: it keeps the length of the array, sets the positions of a set and keeps all
that were set before. Calls one after the other set the positions of all (`foldlM_marks`).
-/

open Checked

namespace BitArray

variable {bits bits' bits'' : List UInt8} {p q n : ℕ}

/-- The byte in which one bit is set. -/
def single (p : ℕ) : UInt8 :=
  1 <<< UInt8.ofNat (p % 8)

/-- Sets a bit. -/
def setBit (bits : List UInt8) (p : ℕ) : Checked (List UInt8) := do
  let b ← get bits (p / 8)
  set bits (p / 8) (b ||| single p)

/-- Whether a bit is set. -/
def testBit (bits : List UInt8) (p : ℕ) : Checked Bool := do
  let b ← get bits (p / 8)
  .ok (b &&& single p != 0)

/-- A position is set. -/
def IsSet (bits : List UInt8) (p : ℕ) : Prop :=
  testBit bits p = .ok true

/-- The second array has the positions set, and all that the first one has. -/
structure Marks (bits bits' : List UInt8) (positions : Set ℕ) : Prop where
  /-- The length is kept. -/
  length : bits'.length = bits.length
  /-- The positions are set. -/
  sets : ∀ p ∈ positions, IsSet bits' p
  /-- What was set stays set. -/
  keeps : ∀ p, IsSet bits p → IsSet bits' p

/-! ## Bits of a byte -/

lemma toBitVec_single (p : ℕ) : (single p).toBitVec = BitVec.twoPow 8 (p % 8) := by
  have hp : p % 8 < 8 := Nat.mod_lt _ (by decide)
  rw [single]
  generalize p % 8 = i at hp
  interval_cases i <;> rfl

lemma and_single_ne_zero (b : UInt8) (p : ℕ) :
    (b &&& single p != 0) = b.toBitVec.getLsbD (p % 8) := by
  have hp : p % 8 < 8 := Nat.mod_lt _ (by decide)
  have hpow : BitVec.twoPow 8 (p % 8) ≠ 0#8 := by
    generalize p % 8 = i at hp
    interval_cases i <;> decide
  have hzero : b &&& single p = 0 ↔ b.toBitVec.getLsbD (p % 8) = false := by
    rw [← UInt8.toBitVec_inj, UInt8.toBitVec_and, toBitVec_single, BitVec.and_twoPow]
    by_cases hbit : b.toBitVec.getLsbD (p % 8) = true
    · simpa [hbit] using hpow
    · simp [hbit]
  rw [Bool.eq_iff_iff, bne_iff_ne, ne_eq, hzero, Bool.not_eq_false]

/-- Setting a bit of a byte sets this bit alone. -/
lemma getLsbD_or_single (b : UInt8) (p i : ℕ) :
    (b ||| single p).toBitVec.getLsbD i = (b.toBitVec.getLsbD i || decide (p % 8 = i)) := by
  have hp : p % 8 < 8 := Nat.mod_lt _ (by decide)
  rw [UInt8.toBitVec_or, BitVec.getLsbD_or, toBitVec_single, BitVec.getLsbD_twoPow]
  simp [hp]

/-! ## Setting a bit -/

/-- A position of the array can be read. -/
lemma testBit_of_lt (hp : p / 8 < bits.length) :
    testBit bits p = .ok (bits[p / 8].toBitVec.getLsbD (p % 8)) := by
  rw [testBit, get_of_lt hp, ok_bind, and_single_ne_zero]

lemma isSet_iff :
    IsSet bits p ↔ ∃ hp : p / 8 < bits.length, bits[p / 8].toBitVec.getLsbD (p % 8) = true := by
  by_cases hp : p / 8 < bits.length
  · rw [IsSet, testBit_of_lt hp]
    simp [hp]
  · rw [IsSet, testBit, get_of_length_le (not_lt.mp hp)]
    constructor
    · intro h
      exact absurd h (by rintro ⟨⟩)
    · rintro ⟨hlt, -⟩
      exact absurd hlt hp

lemma setBit_marks (hp : p / 8 < bits.length) :
    ∃ bits', setBit bits p = .ok bits' ∧ Marks bits bits' {p} := by
  refine ⟨bits.set (p / 8) (bits[p / 8] ||| single p), ?_, List.length_set, ?_, ?_⟩
  · rw [setBit, get_of_lt hp, ok_bind, set_of_lt hp]
  · rintro q rfl
    refine isSet_iff.mpr ⟨by simpa using hp, ?_⟩
    rw [List.getElem_set_self, getLsbD_or_single]
    simp
  · intro q hq
    obtain ⟨hlt, hbit⟩ := isSet_iff.mp hq
    rw [isSet_iff]
    refine ⟨by simpa using hlt, ?_⟩
    rw [List.getElem_set]
    split_ifs with h
    · rw [getLsbD_or_single]
      simp [h, hbit]
    · exact hbit

/-! ## Setting bits one after the other -/

lemma Marks.refl (bits : List UInt8) : Marks bits bits ∅ :=
  ⟨rfl, fun _ hp => absurd hp (Set.notMem_empty _), fun _ hp => hp⟩

lemma Marks.trans {s t : Set ℕ} (h : Marks bits bits' s) (h' : Marks bits' bits'' t) :
    Marks bits bits'' (s ∪ t) := by
  refine ⟨h'.length.trans h.length, ?_, fun p hp => h'.keeps p (h.keeps p hp)⟩
  rintro p (hp | hp)
  · exact h'.keeps p (h.sets p hp)
  · exact h'.sets p hp

lemma foldlM_marks {α : Type} {call : List UInt8 → α → Checked (List UInt8)}
    {positions : α → Set ℕ}
    (hcall : ∀ bits a, bits.length = n → ∃ bits', call bits a = .ok bits' ∧
      Marks bits bits' (positions a)) (xs : List α) (hbits : bits.length = n) :
    ∃ bits', xs.foldlM call bits = .ok bits' ∧
      Marks bits bits' {p | ∃ a ∈ xs, p ∈ positions a} := by
  induction xs generalizing bits with
  | nil =>
    refine ⟨bits, rfl, ?_⟩
    simpa using Marks.refl bits
  | cons a xs ih =>
    obtain ⟨bits', hfirst, hmarks⟩ := hcall bits a hbits
    obtain ⟨bits'', hrest, hmarks'⟩ := ih (hmarks.length.trans hbits)
    refine ⟨bits'', ?_, ?_⟩
    · rw [List.foldlM_cons, hfirst, ok_bind, hrest]
    · have hunion : {p | ∃ b ∈ a :: xs, p ∈ positions b}
          = positions a ∪ {p | ∃ b ∈ xs, p ∈ positions b} := by
        ext p
        simp
      rw [hunion]
      exact hmarks.trans hmarks'

end BitArray
