import Mathlib

/-!
# Checked access and checked words

A program that indexes lists and computes with machine words is translated into the monad
`Checked`: a read, a write or a slice outside a list, a number that does not fit in a word, a loop
that has not come to an end, a pointer to nothing, a division by zero and a new array of a wrong
length are faults. A program whose checked translation has no fault (`Safe`) never reads out of
range. Each operation has one lemma, which says when it has no fault and what it returns.
-/

/-- What a checked operation may run into. -/
inductive Checked.Fault where
  /-- A position outside a list. -/
  | outOfRange
  /-- A number that does not fit in a word. -/
  | wraps
  /-- A loop that has used up its rounds. -/
  | unfinished
  /-- A pointer to nothing that is followed. -/
  | nilPointer
  /-- A division by zero. -/
  | zeroDivisor
  /-- A new array whose length is negative or too large. -/
  | badLength
  deriving DecidableEq

/-- A result, or a fault. -/
abbrev Checked (α : Type) : Type := Except Checked.Fault α

namespace Checked

variable {α β : Type}

@[simp]
lemma ok_bind (a : α) (f : α → Checked β) : (Except.ok a >>= f) = f a :=
  rfl

/-- There is no fault. -/
def Safe (x : Checked α) : Prop :=
  ∃ a, x = .ok a

@[simp]
lemma safe_ok (a : α) : Safe (.ok a) :=
  ⟨a, rfl⟩

@[simp]
lemma not_safe_error (f : Fault) : ¬ Safe (.error f : Checked α) := by
  rintro ⟨a, ha⟩
  cases ha

/-- A program without a fault after a step that may have one. -/
lemma safe_bind_iff {x : Checked α} {f : α → Checked β} :
    Safe (x >>= f) ↔ ∃ a, x = .ok a ∧ Safe (f a) := by
  cases x with
  | error e =>
    constructor
    · rintro ⟨b, hb⟩
      cases hb
    · rintro ⟨a, ha, -⟩
      cases ha
  | ok a =>
    constructor
    · exact fun h => ⟨a, rfl, h⟩
    · rintro ⟨b, hb, h⟩
      cases hb
      exact h

/-- A program without a fault before steps that have none. -/
lemma safe_bind_iff_left {x : Checked α} {f : α → Checked β} (hf : ∀ a, Safe (f a)) :
    Safe (x >>= f) ↔ Safe x := by
  rw [safe_bind_iff]
  constructor
  · rintro ⟨a, ha, -⟩
    exact ⟨a, ha⟩
  · rintro ⟨a, ha⟩
    exact ⟨a, ha, hf a⟩

/-- A test that all elements pass. -/
lemma allM_of_forall_true {f : α → Checked Bool} {xs : List α} (h : ∀ a ∈ xs, f a = .ok true) :
    xs.allM f = .ok true := by
  induction xs with
  | nil => rfl
  | cons a xs ih =>
    rw [List.allM, h a (List.mem_cons_self ..), ok_bind]
    exact ih fun b hb => h b (List.mem_cons_of_mem a hb)

/-- A test that has no fault on any element. -/
lemma exists_allM_eq_ok {f : α → Checked Bool} {xs : List α}
    (h : ∀ a ∈ xs, ∃ b, f a = .ok b) : ∃ b, xs.allM f = .ok b := by
  induction xs with
  | nil => exact ⟨true, rfl⟩
  | cons a xs ih =>
    obtain ⟨b, hb⟩ := h a (List.mem_cons_self ..)
    rw [List.allM, hb, ok_bind]
    cases b with
    | true => exact ih fun c hc => h c (List.mem_cons_of_mem a hc)
    | false => exact ⟨false, rfl⟩

/-- The element at a position. -/
def get (l : List α) (i : ℕ) : Checked α :=
  match l[i]? with
  | some a => .ok a
  | none => .error .outOfRange

lemma get_of_lt {l : List α} {i : ℕ} (h : i < l.length) : get l i = .ok l[i] := by
  rw [get, List.getElem?_eq_getElem h]

lemma get_of_length_le {l : List α} {i : ℕ} (h : l.length ≤ i) : get l i = .error .outOfRange := by
  rw [get, List.getElem?_eq_none h]

/-- The element at a position that may be negative. -/
def getInt (l : List α) (i : ℤ) : Checked α :=
  if 0 ≤ i then get l i.toNat else .error .outOfRange

@[simp]
lemma getInt_natCast (l : List α) (i : ℕ) : getInt l i = get l i :=
  if_pos (Int.natCast_nonneg i)

lemma getInt_of_neg {l : List α} {i : ℤ} (h : i < 0) : getInt l i = .error .outOfRange :=
  if_neg (not_le.mpr h)

/-- The element between two parts. -/
lemma get_append_cons (l rest : List α) (a : α) : get (l ++ a :: rest) l.length = .ok a := by
  rw [get, List.getElem?_append_right le_rfl, Nat.sub_self, List.getElem?_cons_zero]

/-- The list with another element at a position. -/
def set (l : List α) (i : ℕ) (a : α) : Checked (List α) :=
  if i < l.length then .ok (l.set i a) else .error .outOfRange

lemma set_of_lt {l : List α} {i : ℕ} (h : i < l.length) (a : α) : set l i a = .ok (l.set i a) :=
  if_pos h

/-- The element between two parts is replaced. -/
lemma set_append_cons (l rest : List α) (a b : α) :
    set (l ++ a :: rest) l.length b = .ok (l ++ b :: rest) := by
  rw [set_of_lt (by simp), List.set_append_right _ _ le_rfl, Nat.sub_self, List.set_cons_zero]

/-- The part from `i` up to `j`. -/
def slice (l : List α) (i j : ℕ) : Checked (List α) :=
  if i ≤ j ∧ j ≤ l.length then .ok ((l.take j).drop i) else .error .outOfRange

lemma slice_of_le {l : List α} {i j : ℕ} (hij : i ≤ j) (hj : j ≤ l.length) :
    slice l i j = .ok ((l.take j).drop i) :=
  if_pos ⟨hij, hj⟩

/-- The part from the start. -/
lemma slice_zero {l : List α} {j : ℕ} (hj : j ≤ l.length) : slice l 0 j = .ok (l.take j) := by
  rw [slice_of_le (Nat.zero_le j) hj, List.drop_zero]

/-- The part up to the end. -/
lemma slice_length {l : List α} {i : ℕ} (hi : i ≤ l.length) :
    slice l i l.length = .ok (l.drop i) := by
  rw [slice_of_le hi le_rfl, List.take_length]

/-- The part between two others. -/
lemma slice_append_append (l m r : List α) :
    slice (l ++ m ++ r) l.length (l.length + m.length) = .ok m := by
  rw [slice_of_le (Nat.le_add_right ..) (by simp), ← List.length_append, List.take_left,
    List.drop_left]

/-- The part after another. -/
lemma slice_append_right (l r : List α) :
    slice (l ++ r) l.length (l ++ r).length = .ok r := by
  rw [slice_of_le (by simp) le_rfl, List.take_length, List.drop_left]

/-- A number of 64 bits. -/
def word (v : ℕ) : Checked ℕ :=
  if v < 2 ^ 64 then .ok v else .error .wraps

lemma word_of_lt {v : ℕ} (h : v < 2 ^ 64) : word v = .ok v :=
  if_pos h

/-- The difference of two unsigned numbers. -/
def minus (a b : ℕ) : Checked ℕ :=
  if b ≤ a then .ok (a - b) else .error .wraps

lemma minus_of_le {a b : ℕ} (h : b ≤ a) : minus a b = .ok (a - b) :=
  if_pos h

/-- A number that is a signed word of 64 bits. -/
def signed (v : ℕ) : Checked ℕ :=
  if v < 2 ^ 63 then .ok v else .error .wraps

lemma signed_of_lt {v : ℕ} (h : v < 2 ^ 63) : signed v = .ok v :=
  if_pos h

/-- The length of a new array of at most `limit` elements. -/
def alloc (limit : ℕ) (n : ℤ) : Checked ℕ :=
  if 0 ≤ n ∧ n ≤ limit then .ok n.toNat else .error .badLength

lemma alloc_of_le {limit n : ℕ} (h : n ≤ limit) : alloc limit n = .ok n :=
  if_pos ⟨Int.natCast_nonneg n, Int.ofNat_le.mpr h⟩

lemma alloc_of_not {limit : ℕ} {n : ℤ} (h : ¬ (0 ≤ n ∧ n ≤ limit)) :
    alloc limit n = .error .badLength :=
  if_neg h

end Checked
