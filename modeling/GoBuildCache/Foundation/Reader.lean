import Mathlib

/-!
# Readers

A reader yields a list and then ends, with the end of the list or with an error. This is all that
code which copies, limits and joins streams can depend on. `stitch_skip` says that what has been
peeked can be put back, and `equal_eq` that comparing two readers chunk by chunk decides whether
they yield the same.
-/

/-- What is left of a stream, and whether it ends with an error. -/
structure Reader (α : Type*) where
  /-- What it yields. -/
  rest : List α
  /-- Whether an error follows. -/
  fails : Bool

namespace Reader

variable {α : Type*}

/-- At most `n` elements, and then the end. -/
def limit (n : ℕ) (r : Reader α) : Reader α :=
  if n ≤ r.rest.length then ⟨r.rest.take n, false⟩ else r

/-- At most `n` elements; if there are more, an error follows. -/
def cap (n : ℕ) (r : Reader α) : Reader α :=
  if r.rest.length ≤ n then r else ⟨r.rest.take n, true⟩

/-- What is left when `n` elements have been read. -/
def skip (n : ℕ) (r : Reader α) : Reader α :=
  ⟨r.rest.drop n, r.fails⟩

/-- Yields a list first. -/
def stitch (xs : List α) (r : Reader α) : Reader α :=
  ⟨xs ++ r.rest, r.fails⟩

/-- Everything that a reader yields, unless it fails. -/
def readAll (r : Reader α) : Option (List α) :=
  if r.fails then none else some r.rest

/-- Why a buffer could not be filled. -/
inductive ReadError
  /-- The stream ends, and nothing was read. -/
  | eof
  /-- The stream ends, and something was read. -/
  | unexpectedEOF
  /-- An error. -/
  | failed
deriving DecidableEq

/-- Fills a buffer of `n` elements as far as possible: what was read, the error if the buffer is not
full, and what is left. -/
def readFull (n : ℕ) (r : Reader α) : List α × Option ReadError × Reader α :=
  let got := r.rest.take n
  let error :=
    if got.length = n then none
    else if r.fails then some .failed
    else if got.length = 0 then some .eof
    else some .unexpectedEOF
  (got, error, r.skip n)

lemma rest_limit (n : ℕ) (r : Reader α) : (r.limit n).rest = r.rest.take n := by
  unfold limit
  split_ifs with hle
  · rfl
  · exact (List.take_of_length_le (not_le.mp hle).le).symm

lemma skip_skip (m n : ℕ) (r : Reader α) : (r.skip m).skip n = r.skip (m + n) := by
  rw [skip, skip, skip, List.drop_drop]

/-- What has been peeked, put back in front of what is left, is the reader. -/
lemma stitch_skip {n : ℕ} {r : Reader α} {xs : List α} (h : (r.limit n).readAll = some xs) :
    (r.skip n).stitch xs = r := by
  unfold limit readAll at h
  by_cases hn : n ≤ r.rest.length
  · rw [if_pos hn, if_neg (by simp)] at h
    obtain rfl := Option.some.inj h
    simp [skip, stitch]
  · rw [if_neg hn] at h
    split_ifs at h
    obtain rfl := Option.some.inj h
    simp [skip, stitch, List.drop_eq_nil_of_le (not_le.mp hn).le]

variable [DecidableEq α]

/-- Compares two readers chunk by chunk, for at most `fuel` chunks; `none` is an error. -/
def equal (chunk : ℕ) : ℕ → Reader α → Reader α → Option Bool
  | 0, _, _ => some false
  | fuel + 1, a, b =>
    let xa := a.rest.take chunk
    let xb := b.rest.take chunk
    if xa ≠ xb then some false
    else
      let aEnds := xa.length < chunk
      let bEnds := xb.length < chunk
      if aEnds ∧ a.fails = true then none
      else if bEnds ∧ b.fails = true then none
      else if aEnds ∨ bEnds then some (aEnds ∧ bEnds)
      else equal chunk fuel (a.skip chunk) (b.skip chunk)

/-- Readers that do not fail are equal if they yield the same. -/
lemma equal_eq {chunk : ℕ} (hchunk : 0 < chunk) {fuel : ℕ} {a b : Reader α}
    (ha : a.fails = false) (hb : b.fails = false) (hfuel : a.rest.length < fuel) :
    equal chunk fuel a b = some (decide (a.rest = b.rest)) := by
  induction fuel generalizing a b with
  | zero => exact absurd hfuel (Nat.not_lt_zero _)
  | succ fuel ih =>
    unfold equal
    by_cases htake : a.rest.take chunk = b.rest.take chunk
    swap
    · have hne : a.rest ≠ b.rest := fun heq => htake (by rw [heq])
      simp [htake, hne]
    have hrest : a.rest = b.rest ↔ a.rest.drop chunk = b.rest.drop chunk := by
      constructor
      · intro heq
        rw [heq]
      · intro hdrop
        rw [← List.take_append_drop chunk a.rest, htake, hdrop, List.take_append_drop]
    simp only [htake, ne_eq, not_true_eq_false, if_false, ha, hb, Bool.false_eq_true, and_false,
      or_self, and_self]
    have hlengths : (b.rest.take chunk).length = (a.rest.take chunk).length := by rw [htake]
    split_ifs with hends
    · -- both end in this chunk
      have hshort : ∀ xs : List α, (xs.take chunk).length < chunk → xs.drop chunk = [] := by
        intro xs hxs
        rw [List.length_take] at hxs
        exact List.drop_eq_nil_of_le (by omega)
      have heq : a.rest = b.rest :=
        hrest.mpr ((hshort _ (hlengths ▸ hends)).trans (hshort _ hends).symm)
      rw [decide_eq_true heq, decide_eq_true hends]
    · have hlt : (a.skip chunk).rest.length < fuel := by
        rw [hlengths, List.length_take] at hends
        rw [skip, List.length_drop]
        omega
      have hnext : equal chunk fuel (a.skip chunk) (b.skip chunk) = _ := ih ha hb hlt
      rw [hnext, Option.some.injEq, decide_eq_decide]
      exact hrest.symm

end Reader
