import GoBuildCache.Foundation.BitString
import GoBuildCache.Foundation.SortedList

/-!
# Rice codes of ascending lists

An ascending list of numbers is written as the gaps between its neighbours, and each gap `g` as the
quotient by `2 ^ k` in unary followed by the remainder in `k` bits (`code`). The length of the code
of a list is bounded by its number of elements and its largest one (`length_bitsFrom_none_le`).
-/

open BitString SortedList

namespace RiceCode

/-! ## One gap -/

/-- The Rice code of a number with parameter `k`. -/
def code (k g : ℕ) : List Bool :=
  unary (g / 2 ^ k) ++ bitsBE k g

lemma length_code (k g : ℕ) : (code k g).length = g / 2 ^ k + (k + 1) := by
  simp only [code, unary, List.length_append, List.length_replicate, List.length_singleton,
    length_bitsBE]
  ring

/-! ## Ascending lists -/

/-- The least number that may follow: anything at the start, later anything above the previous
one. -/
def floor : Option ℕ → ℕ
  | none => 0
  | some p => p + 1

/-- The gaps of an ascending list that continues after `prev`. -/
def gapsFrom : Option ℕ → List ℕ → List ℕ
  | _, [] => []
  | prev, v :: vs => (v - floor prev) :: gapsFrom (some v) vs

/-- The code of an ascending list that continues after `prev`. -/
def bitsFrom (k : ℕ) (prev : Option ℕ) (vs : List ℕ) : List Bool :=
  (gapsFrom prev vs).flatMap (code k)

/-- The list ascends and continues after `prev`. -/
def AscendsFrom (prev : Option ℕ) (vs : List ℕ) : Prop :=
  (∀ v ∈ vs, floor prev ≤ v) ∧ Ascending vs

lemma ascendsFrom_none {vs : List ℕ} (h : Ascending vs) : AscendsFrom none vs :=
  ⟨fun _ _ => Nat.zero_le _, h⟩

lemma AscendsFrom.floor_le {prev : Option ℕ} {v : ℕ} {vs : List ℕ}
    (h : AscendsFrom prev (v :: vs)) : floor prev ≤ v :=
  h.1 v (by simp)

lemma AscendsFrom.tail {prev : Option ℕ} {v : ℕ} {vs : List ℕ}
    (h : AscendsFrom prev (v :: vs)) : AscendsFrom (some v) vs := by
  obtain ⟨hv, hvs⟩ := List.pairwise_cons.mp h.2
  exact ⟨fun w hw => hv w hw, hvs⟩

@[simp]
lemma length_gapsFrom (prev : Option ℕ) (vs : List ℕ) :
    (gapsFrom prev vs).length = vs.length := by
  induction vs generalizing prev with
  | nil => rfl
  | cons v vs ih => simp [gapsFrom, ih]

lemma bitsFrom_cons (k : ℕ) (prev : Option ℕ) (v : ℕ) (vs : List ℕ) :
    bitsFrom k prev (v :: vs) = code k (v - floor prev) ++ bitsFrom k (some v) vs := by
  simp [bitsFrom, gapsFrom]

/-- The gaps of an ascending list below `b` add up to at most `b`. -/
lemma sum_gapsFrom_add_floor_le {prev : Option ℕ} {vs : List ℕ} {b : ℕ}
    (h : AscendsFrom prev vs) (hb : ∀ v ∈ vs, v < b) (hprev : floor prev ≤ b) :
    (gapsFrom prev vs).sum + floor prev ≤ b := by
  induction vs generalizing prev with
  | nil => simpa [gapsFrom] using hprev
  | cons v vs ih =>
    have hv : v < b := hb v (by simp)
    have hrest : (gapsFrom (some v) vs).sum + (v + 1) ≤ b :=
      ih h.tail (fun w hw => hb w (by simp [hw])) hv
    have hfloor := h.floor_le
    rw [gapsFrom, List.sum_cons]
    omega

lemma length_flatMap_code_le (k : ℕ) (gs : List ℕ) :
    (gs.flatMap (code k)).length ≤ gs.sum / 2 ^ k + gs.length * (k + 1) := by
  induction gs with
  | nil => simp
  | cons g gs ih =>
    have hdiv : g / 2 ^ k + gs.sum / 2 ^ k ≤ (g + gs.sum) / 2 ^ k :=
      Nat.div_add_div_le_add_div
    rw [List.flatMap_cons, List.length_append, length_code, List.sum_cons, List.length_cons,
      Nat.succ_mul]
    omega

/-- The code of an ascending list of numbers below `b`: every number costs `k + 1` bits, and all
the quotients together at most `b / 2 ^ k` more. -/
lemma length_bitsFrom_none_le {k b : ℕ} {vs : List ℕ} (h : Ascending vs)
    (hb : ∀ v ∈ vs, v < b) :
    (bitsFrom k none vs).length ≤ b / 2 ^ k + vs.length * (k + 1) := by
  have hsum : (gapsFrom none vs).sum + 0 ≤ b :=
    sum_gapsFrom_add_floor_le (ascendsFrom_none h) hb (Nat.zero_le b)
  have hdiv : (gapsFrom none vs).sum / 2 ^ k ≤ b / 2 ^ k := Nat.div_le_div_right hsum
  have hlen := length_flatMap_code_le k (gapsFrom none vs)
  rw [length_gapsFrom] at hlen
  exact hlen.trans (Nat.add_le_add_right hdiv _)

/-- Every number costs at least `k + 1` bits. -/
lemma le_length_bitsFrom (k : ℕ) (prev : Option ℕ) (vs : List ℕ) :
    vs.length * (k + 1) ≤ (bitsFrom k prev vs).length := by
  induction vs generalizing prev with
  | nil => simp
  | cons v vs ih =>
    have hrest := ih (some v)
    rw [bitsFrom_cons, List.length_append, length_code, List.length_cons, Nat.succ_mul,
      Nat.add_comm]
    exact Nat.add_le_add (Nat.le_add_left _ _) hrest

end RiceCode
