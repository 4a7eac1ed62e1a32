import GoBuildCache.Store.PutCalls

/-!
# Comparing two files

`filesEqual` reads the two files with `io.ReadFull`, a chunk of each at a time, until the chunks
differ or one of the files ends. Here the loop is written with the two errors by which `ReadFull`
reports the end of a file, and with rounds that may run out.

`filesEqualIn_eq` says that it ends after as many rounds as the first file has chunks, with the
answer of `filesEqual`. `filesEqualIn_decides` says that for files that can be read this is whether
their contents are equal.
-/

open ByteString Reader

namespace GoBuildCache

/-- The file has been read to its end. -/
def isDone (error : Option ReadError) : Bool :=
  error = some .eof ∨ error = some .unexpectedEOF

/-- One round of the loop: an answer or an error, or the files for the next round. -/
def compareRound (a b : Reader UInt8) :
    Except ReadError Bool ⊕ Reader UInt8 × Reader UInt8 :=
  let (ba, ea, a') := a.readFull compareChunk
  let (bb, eb, b') := b.readFull compareChunk
  if ba.length ≠ bb.length ∨ ba ≠ bb then .inl (.ok false)
  else if ea ≠ none ∧ isDone ea = false then .inl (.error (ea.getD .failed))
  else if eb ≠ none ∧ isDone eb = false then .inl (.error (eb.getD .failed))
  else if isDone ea ∨ isDone eb then .inl (.ok (isDone ea && isDone eb))
  else .inr (a', b')

/-- The loop; `none` if the rounds run out. -/
def filesEqualIn : ℕ → Reader UInt8 → Reader UInt8 → Option (Except ReadError Bool)
  | 0, _, _ => none
  | rounds + 1, a, b =>
    match compareRound a b with
    | .inl verdict => some verdict
    | .inr (a', b') => filesEqualIn rounds a' b'

/-! ## One round -/

section Round

variable {a b : Reader UInt8}

/-- A file that ends within the chunk has been read to its end, or has failed. -/
lemma readFull_short {r : Reader UInt8}
    (hshort : (r.rest.take compareChunk).length < compareChunk) :
    (r.readFull compareChunk).2.1 ≠ none ∧
      isDone (r.readFull compareChunk).2.1 = !r.fails ∧
      (r.fails = true → (r.readFull compareChunk).2.1 = some .failed) := by
  simp only [readFull, if_neg hshort.ne]
  cases hfails : r.fails with
  | true => simp [isDone]
  | false =>
    simp only [Bool.false_eq_true, if_false]
    split_ifs <;> simp [isDone]

lemma compareRound_of_ne (h : a.rest.take compareChunk ≠ b.rest.take compareChunk) :
    compareRound a b = .inl (.ok false) := by
  simp [compareRound, readFull, h]

/-- The loop goes on with the rest of the files. -/
lemma compareRound_of_full (h : a.rest.take compareChunk = b.rest.take compareChunk)
    (hfull : (a.rest.take compareChunk).length = compareChunk) :
    compareRound a b = .inr (a.skip compareChunk, b.skip compareChunk) := by
  have hfull' : (b.rest.take compareChunk).length = compareChunk := h ▸ hfull
  simp only [compareRound, readFull, if_pos hfull', h, isDone]
  simp

/-- Both files end, so they are equal unless one of them has failed. -/
lemma compareRound_of_short (h : a.rest.take compareChunk = b.rest.take compareChunk)
    (hshort : (a.rest.take compareChunk).length < compareChunk) :
    compareRound a b = .inl (if a.fails ∨ b.fails then .error .failed else .ok true) := by
  obtain ⟨hea, hda, hfa⟩ := readFull_short hshort
  obtain ⟨heb, hdb, hfb⟩ := readFull_short (h ▸ hshort : (b.rest.take compareChunk).length < _)
  have hne : ¬ ((a.readFull compareChunk).1.length ≠ (b.readFull compareChunk).1.length ∨
      (a.readFull compareChunk).1 ≠ (b.readFull compareChunk).1) := by
    simp [readFull, h]
  simp only [compareRound, if_neg hne, hda, hdb]
  cases ha : a.fails with
  | true => simp [hfa ha]
  | false =>
    cases hb : b.fails with
    | true => simp [hfb hb]
    | false => simp

/-- One round of the loop is one round of the comparison of two readers. -/
lemma equal_succ (fuel : ℕ) (a b : Reader UInt8) :
    Reader.equal compareChunk (fuel + 1) a b =
      match compareRound a b with
      | .inl verdict => verdict.toOption
      | .inr (a', b') => Reader.equal compareChunk fuel a' b' := by
  have hle : (a.rest.take compareChunk).length ≤ compareChunk := List.length_take_le ..
  by_cases h : a.rest.take compareChunk = b.rest.take compareChunk
  · have hlengths : (b.rest.take compareChunk).length = (a.rest.take compareChunk).length := by
      rw [h]
    rcases hle.lt_or_eq with hshort | hfull
    · have hends : b.rest.length < compareChunk := by
        rw [← hlengths, List.length_take] at hshort
        omega
      rw [compareRound_of_short h hshort]
      cases ha : a.fails <;> cases hb : b.fails <;>
        simp [Reader.equal, h, hends, ha, hb, Except.toOption]
    · rw [compareRound_of_full h hfull]
      simp [Reader.equal, h, hlengths.trans hfull]
  · rw [compareRound_of_ne h]
    simp [Reader.equal, h, Except.toOption]

end Round

/-! ## The loop -/

/-- The loop ends after as many rounds as the first file has chunks, with the answer of
`filesEqual`. -/
lemma filesEqualIn_eq {rounds fuel : ℕ} {a b : Reader UInt8}
    (hrounds : a.rest.length < rounds * compareChunk) (hfuel : rounds ≤ fuel) :
    ∃ verdict, filesEqualIn rounds a b = some verdict ∧
      Reader.equal compareChunk fuel a b = verdict.toOption := by
  induction rounds generalizing fuel a b with
  | zero => omega
  | succ rounds ih =>
    obtain ⟨fuel, rfl⟩ : ∃ fuel', fuel = fuel' + 1 := ⟨fuel - 1, by omega⟩
    rw [equal_succ, filesEqualIn]
    by_cases h : a.rest.take compareChunk = b.rest.take compareChunk
    swap
    · rw [compareRound_of_ne h]
      exact ⟨_, rfl, rfl⟩
    have hle : (a.rest.take compareChunk).length ≤ compareChunk := List.length_take_le ..
    rcases hle.lt_or_eq with hshort | hfull
    · rw [compareRound_of_short h hshort]
      exact ⟨_, rfl, rfl⟩
    · rw [compareRound_of_full h hfull]
      refine ih ?_ (by omega)
      rw [List.length_take] at hfull
      rw [skip, List.length_drop]
      rw [Nat.succ_mul] at hrounds
      omega

/-- For files that can be read, the loop ends and says whether they have the same contents. -/
theorem filesEqualIn_decides (a b : Bytes) :
    filesEqualIn (a.length / compareChunk + 1) (fileReader a none) (fileReader b none) =
      some (.ok (decide (a = b))) := by
  have hrounds : a.length < (a.length / compareChunk + 1) * compareChunk := by
    rw [Nat.mul_comm]
    exact Nat.lt_mul_div_succ a.length (by decide)
  have hfuel : a.length / compareChunk + 1 ≤ a.length + 1 :=
    Nat.succ_le_succ (Nat.div_le_self ..)
  obtain ⟨verdict, hverdict, hequal⟩ :=
    filesEqualIn_eq (a := fileReader a none) (b := fileReader b none) hrounds hfuel
  have hanswer : verdict.toOption = some (decide (a = b)) :=
    hequal.symm.trans (filesEqual_fileReader a b)
  cases verdict with
  | error e => cases hanswer
  | ok answer =>
    rw [hverdict]
    exact congrArg (some ∘ Except.ok) (Option.some.inj hanswer)

end GoBuildCache
