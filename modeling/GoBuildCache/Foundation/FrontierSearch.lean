import GoBuildCache.Foundation.Checked

/-!
# Searching where a predicate ends

Numbers are searched for one that has a property while the next one does not have it. `climb` goes
up one by one and stops at the first number without the property; it finds the greatest number with
the property if there are no gaps, and only then (`isNewest_climb_iff`). `double` and `halve` need
fewer tests: a bound is doubled while it has the property, and then the range below it is halved.
The number at the cap is not tested.

The property may hold of any numbers. What is found is then a place where it ends (`halve_spec`),
and it is the greatest number with the property if there are no gaps (`IsFrontier.isGreatest`).
-/

namespace FrontierSearch

variable {p : ℕ → Bool} {cap low high fuel : ℕ}

/-- The property holds at `r` and not at the next number, unless that is the cap. -/
structure IsFrontier (p : ℕ → Bool) (cap r : ℕ) : Prop where
  /-- It is below the cap. -/
  lt : r < cap
  /-- The property holds there. -/
  holds : p r = true
  /-- It ends there. -/
  ends : p (r + 1) = false ∨ r + 1 = cap

/-- There is no gap: below a number with the property, all have it. -/
def NoGap (p : ℕ → Bool) (cap : ℕ) : Prop :=
  ∀ n < cap, p n = true → ∀ m < n, p m = true

/-- Without gaps, the place where the property ends is the greatest number that has it. -/
lemma IsFrontier.isGreatest {r : ℕ} (hr : IsFrontier p cap r) (hgap : NoGap p cap) :
    IsGreatest {n | n < cap ∧ p n = true} r := by
  refine ⟨⟨hr.lt, hr.holds⟩, ?_⟩
  rintro n ⟨hn, hpn⟩
  by_contra hlt
  rcases hr.ends with hend | hend
  · rcases (Nat.succ_le_of_lt (not_le.mp hlt)).eq_or_lt with heq | hlt'
    · obtain rfl : r + 1 = n := heq
      rw [hpn] at hend
      cases hend
    · rw [hgap n hn hpn (r + 1) hlt'] at hend
      cases hend
  · omega

/-! ## One by one -/

/-- Goes through the numbers of a list while they have the property, and answers the last one, or
`newest` if there is none. -/
def climb (p : ℕ → Bool) : List ℕ → ℤ → ℤ
  | [], newest => newest
  | n :: ns, newest => if p n then climb p ns n else newest

/-- From `n` on the numbers have the property up to the answer, and the next one has not. -/
lemma climb_range' (count n : ℕ) :
    ∃ m ≤ count, climb p (List.range' n count) (n - 1) = (n + m : ℕ) - 1 ∧
      (∀ i < m, p (n + i) = true) ∧ (m < count → p (n + m) = false) := by
  induction count generalizing n with
  | zero => exact ⟨0, le_rfl, by simp [climb], by simp, by simp⟩
  | succ count ih =>
    rw [List.range'_succ, climb]
    split_ifs with hn
    · obtain ⟨m, hm, hclimb, hall, hend⟩ := ih (n + 1)
      refine ⟨m + 1, by omega, ?_, ?_, ?_⟩
      · have hstart : ((n + 1 : ℕ) : ℤ) - 1 = n := by push_cast; ring
        rw [hstart] at hclimb
        rw [hclimb]
        congr 2
        omega
      · intro i hi
        cases i with
        | zero => exact hn
        | succ i =>
          rw [show n + (i + 1) = n + 1 + i by omega]
          exact hall i (by omega)
      · intro hlt
        rw [show n + (m + 1) = n + 1 + m by omega]
        exact hend (by omega)
    · exact ⟨0, Nat.zero_le _, by simp, by simp, fun _ => by simpa using hn⟩

/-- The greatest number below the cap that has the property, or -1 if there is none. -/
def IsNewest (p : ℕ → Bool) (cap : ℕ) (r : ℤ) : Prop :=
  (r = -1 ∧ ∀ n < cap, p n = false) ∨ ∃ n : ℕ, r = n ∧ IsGreatest {n | n < cap ∧ p n = true} n

/-- Going up one by one finds the greatest number with the property exactly if there is no gap. -/
theorem isNewest_climb_iff : IsNewest p cap (climb p (List.range cap) (-1)) ↔ NoGap p cap := by
  obtain ⟨m, hm, hclimb, hall, hend⟩ := climb_range' (p := p) cap 0
  rw [Nat.cast_zero, zero_sub, ← List.range_eq_range'] at hclimb
  simp only [Nat.zero_add] at hclimb hall hend
  rw [hclimb]
  constructor
  · rintro (⟨-, hnone⟩ | ⟨r, hr, hgreatest⟩)
    · intro n hn hpn
      rw [hnone n hn] at hpn
      cases hpn
    · intro n hn hpn k hk
      have hle : n ≤ r := hgreatest.2 ⟨hn, hpn⟩
      exact hall k (by omega)
  · intro hgap
    rcases Nat.eq_zero_or_pos m with rfl | hpos
    · refine Or.inl ⟨by simp, ?_⟩
      intro n hn
      by_contra hpn
      have hzero : p 0 = true := by
        rcases Nat.eq_zero_or_pos n with rfl | hn0
        · simpa using hpn
        · exact hgap n hn (by simpa using hpn) 0 hn0
      rw [hend (by omega)] at hzero
      cases hzero
    · have hfrontier : IsFrontier p cap (m - 1) := by
        refine ⟨by omega, hall (m - 1) (by omega), ?_⟩
        rw [Nat.sub_add_cancel hpos]
        rcases hm.eq_or_lt with heq | hlt
        · exact Or.inr heq
        · exact Or.inl (hend hlt)
      exact Or.inr ⟨m - 1, by push_cast [hpos]; rfl, hfrontier.isGreatest hgap⟩

/-! ## Doubling and halving -/

/-- Doubles the upper bound while it is below the cap and has the property. -/
def double (p : ℕ → Bool) (cap : ℕ) : ℕ → ℕ → ℕ → Checked (ℕ × ℕ)
  | 0, low, high =>
    if high < cap ∧ p high then .error .unfinished else .ok (low, high)
  | fuel + 1, low, high =>
    if high < cap ∧ p high then double p cap fuel high (high * 2) else .ok (low, high)

/-- Halves the range while it has more than one number. -/
def halve (p : ℕ → Bool) : ℕ → ℕ → ℕ → Checked ℕ
  | 0, low, high => if 1 < high - low then .error .unfinished else .ok low
  | fuel + 1, low, high =>
    if 1 < high - low then
      if p ((low + high) / 2) then halve p fuel ((low + high) / 2) high
      else halve p fuel low ((low + high) / 2)
    else .ok low

/-- The bounds that doubling ends with: the lower one has the property, the upper one has it not or
is not below the cap. -/
lemma double_spec (hfuel : cap ≤ high + fuel) (hlow : p low = true) (hlt : low < high)
    (hcap : low < cap) :
    ∃ low' high', double p cap fuel low high = .ok (low', high') ∧ p low' = true ∧ low' < high' ∧
      low' < cap ∧ (p high' = false ∨ cap ≤ high') := by
  induction fuel generalizing low high with
  | zero =>
    have hend : ¬ (high < cap ∧ p high = true) := fun h => by omega
    rw [double, if_neg hend]
    exact ⟨low, high, rfl, hlow, hlt, hcap, Or.inr hfuel⟩
  | succ fuel ih =>
    rw [double]
    split_ifs with hnext
    · exact ih (by omega) hnext.2 (by omega) hnext.1
    · refine ⟨low, high, rfl, hlow, hlt, hcap, ?_⟩
      rcases not_and_or.mp hnext with hbig | hfalse
      · exact Or.inr (not_lt.mp hbig)
      · exact Or.inl (Bool.eq_false_of_not_eq_true hfalse)

/-- Halving ends where the property does. -/
lemma halve_spec (hfuel : high ≤ low + fuel) (hlow : p low = true) (hlt : low < high)
    (hcap : high ≤ cap) (hhigh : p high = false ∨ high = cap) :
    ∃ r, halve p fuel low high = .ok r ∧ IsFrontier p cap r := by
  induction fuel generalizing low high with
  | zero => omega
  | succ fuel ih =>
    rw [halve]
    split_ifs with hwide hmid
    · exact ih (by omega) hmid (by omega) hcap hhigh
    · exact ih (by omega) hlow (by omega) (by omega) (Or.inl (Bool.eq_false_of_not_eq_true hmid))
    · have hnext : low + 1 = high := by omega
      exact ⟨low, rfl, by omega, hlow, by rw [hnext]; exact hhigh⟩

end FrontierSearch
