import GoBuildCache.Foundation.Parties
import GoBuildCache.Foundation.Transition
import GoBuildCache.Index.State

/-!
# The byte budget of prefetched bodies

A batch answer may carry bodies that nobody has asked for. The sink of the batch keeps them until
the batch has answered everybody, and hands them over in the background; all sinks together may
hold as many bytes as `prefetchBudget` allows. `take` adds to a shared counter, compares, and
undoes the addition if it was too much; in between other batches see the larger count.

The counter always stands for the bytes that are reserved and those of the takes in progress, up to
the wrap-around of an `int64` (`Inv`). As long as these bytes stay below `2 ^ 63`, no more than the
limit is reserved (`reserved_le_limit`); if they do not, the counter becomes negative and lets
everything in (`take_wraps`).
-/

open Transition

namespace GoBuildCache

/-- How far `take` is. -/
inductive TakeState where
  /-- There is no call. -/
  | idle
  /-- It has added `n` to the counter, which then was `sum`. -/
  | added (n : ℕ) (sum : ℤ)
  /-- It has found that `n` is too much. -/
  | refused (n : ℕ)
  deriving DecidableEq

/-- The sink of a batch. -/
structure PrefetchSink where
  /-- The lengths of the entries it keeps. -/
  entries : List ℕ
  /-- Their bytes. -/
  held : ℤ
  /-- The call of `take` for the next one. -/
  take : TakeState

/-- Entries that are handed over in the background. -/
inductive PrefetchDelivery where
  /-- They are being stored. -/
  | storing (entries : List ℕ) (held : ℤ)
  /-- Their bytes have been released. -/
  | released

/-- The budget, and who uses it. -/
structure PrefetchBudget where
  /-- The limit; there is none if it is not positive. -/
  limit : ℤ
  /-- Whether there is a consumer of prefetched entries. -/
  onBatchEntries : Bool
  /-- The counter. -/
  held : ℤ
  /-- The sinks of the batches. -/
  sinks : List PrefetchSink
  /-- What has been handed over. -/
  deliveries : List PrefetchDelivery

namespace PrefetchBudget

/-- What can happen. -/
inductive Label where
  /-- A batch begins. -/
  | batch
  /-- An entry of `n` bytes comes to a sink, and `take` adds to the counter. -/
  | collect (b n : ℕ)
  /-- `take` compares. -/
  | compare (b : ℕ)
  /-- `take` undoes its addition. -/
  | undo (b : ℕ)
  /-- The batch hands over what its sink has. -/
  | deliver (b : ℕ)
  /-- What has been handed over is stored, and its bytes are released. -/
  | release (d : ℕ)

/-- The sink keeps an entry of `n` bytes. -/
def keep (k : PrefetchSink) (n : ℕ) : PrefetchSink :=
  ⟨k.entries ++ [n], int64 (k.held + n), .idle⟩

/-- A sink changes. -/
def setSink (s : PrefetchBudget) (b : ℕ) (k : PrefetchSink) : PrefetchBudget :=
  { s with sinks := s.sinks.set b k }

/-- One step. -/
def step (s : PrefetchBudget) : Label → Option PrefetchBudget
  | .batch => some { s with sinks := s.sinks ++ [⟨[], 0, .idle⟩] }
  | .collect b n => s.sinks[b]?.bind fun k =>
    if k.take ≠ .idle then none
    else if s.onBatchEntries = false then some s
    else if s.limit ≤ 0 then some (s.setSink b (keep k n))
    else
      let sum := int64 (s.held + n)
      some { s.setSink b { k with take := .added n sum } with held := sum }
  | .compare b => s.sinks[b]?.bind fun k =>
    match k.take with
    | .added n sum =>
      if s.limit < sum then some (s.setSink b { k with take := .refused n })
      else some (s.setSink b (keep k n))
    | _ => none
  | .undo b => s.sinks[b]?.bind fun k =>
    match k.take with
    | .refused n =>
      some { s.setSink b { k with take := .idle } with held := int64 (s.held - n) }
    | _ => none
  | .deliver b => s.sinks[b]?.bind fun k =>
    if k.take ≠ .idle then none
    else if k.entries = [] then some s
    else
      some { s.setSink b ⟨[], 0, .idle⟩ with
        deliveries := s.deliveries ++ [.storing k.entries k.held] }
  | .release d => s.deliveries[d]?.bind fun delivery =>
    match delivery with
    | .storing _ held =>
      some { s with
        deliveries := s.deliveries.set d .released
        held := if s.limit ≤ 0 then s.held else int64 (s.held - held) }
    | .released => none

/-- A budget that nobody has used. -/
def start (limit : ℤ) (onBatchEntries : Bool) : PrefetchBudget :=
  ⟨limit, onBatchEntries, 0, [], []⟩

/-! ## Bytes -/

/-- The bytes of a take in progress. -/
def inProgress : TakeState → ℕ
  | .idle => 0
  | .added n _ => n
  | .refused n => n

/-- The bytes of a take that has not compared yet and will find that they fit. -/
def willFit (limit : ℤ) : TakeState → ℕ
  | .idle => 0
  | .added n sum => if limit < sum then 0 else n
  | .refused _ => 0

/-- The bytes a batch has reserved. -/
def kept (k : PrefetchSink) : ℕ :=
  k.entries.sum

/-- The bytes a batch has reserved, and those of its take in progress. -/
def load (k : PrefetchSink) : ℕ :=
  kept k + inProgress k.take

/-- The bytes a batch has reserved, and those that it is about to reserve. -/
def granted (limit : ℤ) (k : PrefetchSink) : ℕ :=
  kept k + willFit limit k.take

/-- The bytes that have not been released yet. -/
def PrefetchDelivery.bytes : PrefetchDelivery → ℕ
  | .storing entries _ => entries.sum
  | .released => 0

/-- The bytes reserved by successful takes and not yet released. -/
def reserved (s : PrefetchBudget) : ℕ :=
  (s.sinks.map kept).sum + (s.deliveries.map PrefetchDelivery.bytes).sum

/-- The bytes that are reserved, and those of the takes in progress. -/
def total (s : PrefetchBudget) : ℕ :=
  (s.sinks.map load).sum + (s.deliveries.map PrefetchDelivery.bytes).sum

/-- The bytes that are reserved, and those of the takes that will succeed. -/
def promised (s : PrefetchBudget) : ℕ :=
  (s.sinks.map (granted s.limit)).sum + (s.deliveries.map PrefetchDelivery.bytes).sum

lemma willFit_le_inProgress (limit : ℤ) (take : TakeState) :
    willFit limit take ≤ inProgress take := by
  cases take with
  | idle => exact le_rfl
  | added n sum =>
    rw [willFit, inProgress]
    split_ifs <;> omega
  | refused n => exact Nat.zero_le n

lemma promised_le_total (s : PrefetchBudget) : s.promised ≤ s.total := by
  refine Nat.add_le_add_right (List.sum_le_sum ?_) _
  intro k _
  exact Nat.add_le_add_left (willFit_le_inProgress s.limit k.take) _

lemma reserved_le_promised (s : PrefetchBudget) : s.reserved ≤ s.promised :=
  Nat.add_le_add_right (List.sum_le_sum fun _ _ => Nat.le_add_right _ _) _

/-! ## The counter -/

variable {s s' t : PrefetchBudget} {b d : ℕ} {k k' : PrefetchSink}

/-- What holds at any time. -/
structure Inv (s : PrefetchBudget) : Prop where
  /-- There is a limit. -/
  limit_pos : 0 < s.limit
  /-- The counter stands for what is reserved, and for the takes in progress. -/
  counter : s.held = int64 s.total
  /-- A sink knows its bytes. -/
  sink_held : ∀ k ∈ s.sinks, k.held = int64 (kept k)
  /-- So does what it has handed over. -/
  delivery_held : ∀ entries held, .storing entries held ∈ s.deliveries →
    held = int64 entries.sum

lemma inv_start {limit : ℤ} (hlimit : 0 < limit) (onBatchEntries : Bool) :
    Inv (start limit onBatchEntries) where
  limit_pos := hlimit
  counter := by simp [start, total, int64]
  sink_held := by simp [start]
  delivery_held := by simp [start]

lemma total_setSink (hb : s.sinks[b]? = some k) (k' : PrefetchSink) :
    (s.setSink b k').total + load k = s.total + load k' := by
  have hsum := Parties.sum_map_set load hb k'
  simp only [total, setSink]
  omega

lemma promised_setSink (hb : s.sinks[b]? = some k) (k' : PrefetchSink) :
    (s.setSink b k').promised + granted s.limit k = s.promised + granted s.limit k' := by
  have hsum := Parties.sum_map_set (granted s.limit) hb k'
  simp only [promised, setSink]
  omega

/-- A sink changes, and the counter with it. -/
lemma Inv.setSink (h : s.Inv) (hb : s.sinks[b]? = some k) (hk' : k'.held = int64 (kept k'))
    {held : ℤ} (hheld : held = int64 (s.held + ((load k' : ℤ) - load k))) :
    Inv { s.setSink b k' with held := held } where
  limit_pos := h.limit_pos
  counter := by
    have htotal := total_setSink hb k'
    rw [hheld, h.counter, int64_add_left]
    refine congrArg int64 ?_
    change (s.total : ℤ) + (load k' - load k) = ((s.setSink b k').total : ℤ)
    omega
  sink_held k₀ hk₀ := by
    rcases List.mem_or_eq_of_mem_set hk₀ with hold | rfl
    · exact h.sink_held k₀ hold
    · exact hk'
  delivery_held := h.delivery_held

lemma kept_keep (k : PrefetchSink) (n : ℕ) : kept (keep k n) = kept k + n := by
  simp [kept, keep]

lemma take_keep (k : PrefetchSink) (n : ℕ) : (keep k n).take = .idle := rfl

lemma held_keep {n : ℕ} (hk : k.held = int64 (kept k)) :
    (keep k n).held = int64 (kept (keep k n)) := by
  rw [kept_keep, keep, hk, int64_add_left]
  push_cast
  rfl

/-- Every step is of one of these kinds, if there is a limit. -/
lemma step_cases {l : Label} (hlimit : 0 < s.limit) (h : step s l = some s') :
    s' = s ∨ s' = { s with sinks := s.sinks ++ [⟨[], 0, .idle⟩] } ∨
    (∃ (b n : ℕ) (k : PrefetchSink), l = .collect b n ∧ s.sinks[b]? = some k ∧ k.take = .idle ∧
      s' = { s.setSink b { k with take := .added n (int64 (s.held + n)) } with
        held := int64 (s.held + n) }) ∨
    (∃ (b n : ℕ) (sum : ℤ) (k : PrefetchSink), s.sinks[b]? = some k ∧
      k.take = .added n sum ∧ s.limit < sum ∧
      s' = s.setSink b { k with take := .refused n }) ∨
    (∃ (b n : ℕ) (sum : ℤ) (k : PrefetchSink), s.sinks[b]? = some k ∧
      k.take = .added n sum ∧ ¬ s.limit < sum ∧
      s' = s.setSink b (keep k n)) ∨
    (∃ (b n : ℕ) (k : PrefetchSink), s.sinks[b]? = some k ∧ k.take = .refused n ∧
      s' = { s.setSink b { k with take := .idle } with held := int64 (s.held - n) }) ∨
    (∃ b k, s.sinks[b]? = some k ∧ k.take = .idle ∧
      s' = { s.setSink b ⟨[], 0, .idle⟩ with
        deliveries := s.deliveries ++ [.storing k.entries k.held] }) ∨
    (∃ d entries held, s.deliveries[d]? = some (.storing entries held) ∧
      s' = { s with
        deliveries := s.deliveries.set d .released
        held := int64 (s.held - held) }) := by
  cases l with
  | batch => exact .inr (.inl (Option.some.inj h).symm)
  | collect b n =>
    obtain ⟨k, hb, h⟩ := Option.bind_eq_some_iff.mp h
    split_ifs at h with hbusy hnobody hfree
    · exact .inl (Option.some.inj h).symm
    · exact absurd hfree (not_le.mpr hlimit)
    · exact .inr (.inr (.inl ⟨b, n, k, rfl, hb, not_not.mp hbusy, (Option.some.inj h).symm⟩))
  | compare b =>
    obtain ⟨k, hb, h⟩ := Option.bind_eq_some_iff.mp h
    rcases htake : k.take with _ | ⟨n, sum⟩ | n
    · simp [htake] at h
    · simp only [htake] at h
      split_ifs at h with hover
      · exact .inr (.inr (.inr (.inl
          ⟨b, n, sum, k, hb, htake, hover, (Option.some.inj h).symm⟩)))
      · exact .inr (.inr (.inr (.inr (.inl
          ⟨b, n, sum, k, hb, htake, hover, (Option.some.inj h).symm⟩))))
    · simp [htake] at h
  | undo b =>
    obtain ⟨k, hb, h⟩ := Option.bind_eq_some_iff.mp h
    rcases htake : k.take with _ | ⟨n, sum⟩ | n
    · simp [htake] at h
    · simp [htake] at h
    · simp only [htake] at h
      exact .inr (.inr (.inr (.inr (.inr (.inl
        ⟨b, n, k, hb, htake, (Option.some.inj h).symm⟩)))))
  | deliver b =>
    obtain ⟨k, hb, h⟩ := Option.bind_eq_some_iff.mp h
    split_ifs at h with hbusy hempty
    · exact .inl (Option.some.inj h).symm
    · exact .inr (.inr (.inr (.inr (.inr (.inr (.inl
        ⟨b, k, hb, not_not.mp hbusy, (Option.some.inj h).symm⟩))))))
  | release d =>
    obtain ⟨delivery, hd, h⟩ := Option.bind_eq_some_iff.mp h
    cases delivery with
    | storing entries held =>
      simp only [if_neg (not_le.mpr hlimit)] at h
      exact .inr (.inr (.inr (.inr (.inr (.inr (.inr
        ⟨d, entries, held, hd, (Option.some.inj h).symm⟩))))))
    | released => cases h

/-- The counter is an `int64`. -/
lemma Inv.held_eq (h : s.Inv) : s.held = int64 (s.held + 0) := by
  rw [h.counter, int64_add_left, add_zero]

/-- The counter is kept right by every step. -/
lemma Inv.step {l : Label} (h : s.Inv) (hstep : step s l = some s') : s'.Inv := by
  have htakes : ∀ {b : ℕ} {k : PrefetchSink}, s.sinks[b]? = some k → ∀ take : TakeState,
      ({ k with take := take } : PrefetchSink).held = int64 (kept { k with take := take }) := by
    intro b k hb take
    exact h.sink_held k (List.mem_of_getElem? hb)
  rcases step_cases h.limit_pos hstep with rfl | rfl | ⟨b, n, k, -, hb, htake, rfl⟩ |
    ⟨b, n, sum, k, hb, htake, -, rfl⟩ | ⟨b, n, sum, k, hb, htake, -, rfl⟩ |
    ⟨b, n, k, hb, htake, rfl⟩ | ⟨b, k, hb, htake, rfl⟩ | ⟨d, entries, held, hd, rfl⟩
  · exact h
  · refine ⟨h.limit_pos, ?_, ?_, h.delivery_held⟩
    · rw [h.counter]
      simp [total, load, kept, inProgress]
    · intro k hk
      rcases List.mem_append.mp hk with hold | hnew
      · exact h.sink_held k hold
      · rw [List.mem_singleton.mp hnew]
        simp [kept, int64]
  · refine h.setSink hb (htakes hb _) ?_
    simp [load, kept, inProgress, htake]
  · refine h.setSink hb (htakes hb _) ?_
    have hload : (load { k with take := .refused n } : ℤ) - load k = 0 := by
      simp [load, kept, inProgress, htake]
    rw [hload]
    exact h.held_eq
  · refine h.setSink hb (held_keep (h.sink_held k (List.mem_of_getElem? hb))) ?_
    have hload : (load (keep k n) : ℤ) - load k = 0 := by
      simp [load, kept_keep, take_keep, inProgress, htake]
    rw [hload]
    exact h.held_eq
  · refine h.setSink hb (htakes hb _) ?_
    simp [load, kept, inProgress, htake, sub_eq_add_neg]
  · have hsums := Parties.sum_map_set load hb ⟨[], 0, .idle⟩
    refine ⟨h.limit_pos, ?_, ?_, ?_⟩
    · change s.held = _
      rw [h.counter]
      refine congrArg (fun n : ℕ => int64 n) ?_
      simp only [load, kept, inProgress, htake, List.sum_nil] at hsums
      simp only [total, PrefetchBudget.setSink, List.map_append, List.map_singleton,
        List.sum_append, List.sum_singleton, PrefetchDelivery.bytes]
      omega
    · intro k' hk'
      rcases List.mem_or_eq_of_mem_set hk' with hold | rfl
      · exact h.sink_held k' hold
      · simp [kept, int64]
    · intro entries held hmem
      rcases List.mem_append.mp hmem with hold | hnew
      · exact h.delivery_held entries held hold
      · obtain ⟨rfl, rfl⟩ := PrefetchDelivery.storing.inj (List.mem_singleton.mp hnew)
        exact h.sink_held k (List.mem_of_getElem? hb)
  · have hsums := Parties.sum_map_set PrefetchDelivery.bytes hd .released
    have hbytes := h.delivery_held entries held (List.mem_of_getElem? hd)
    refine ⟨h.limit_pos, ?_, h.sink_held, ?_⟩
    · change int64 (s.held - held) = _
      rw [hbytes, int64_sub_right, h.counter, sub_eq_add_neg, int64_add_left]
      refine congrArg int64 ?_
      simp only [PrefetchDelivery.bytes] at hsums
      simp only [total]
      omega
    · intro entries' held' hmem
      rcases List.mem_or_eq_of_mem_set hmem with hold | hnew
      · exact h.delivery_held entries' held' hold
      · cases hnew

/-! ## The limit -/

/-- The bytes that are reserved and in progress do not wrap around when `take` adds to them. -/
def Room (s : PrefetchBudget) : Label → Prop
  | .collect _ n => (s.total : ℤ) + n < 2 ^ 63
  | _ => True

instance (s : PrefetchBudget) : (l : Label) → Decidable (Room s l)
  | .batch => isTrue trivial
  | .collect _ n => inferInstanceAs (Decidable ((s.total : ℤ) + n < 2 ^ 63))
  | .compare _ => isTrue trivial
  | .undo _ => isTrue trivial
  | .deliver _ => isTrue trivial
  | .release _ => isTrue trivial

/-- What is promised stays within the limit. -/
lemma promised_step {l : Label} (h : s.Inv) (hroom : Room s l) (hle : (s.promised : ℤ) ≤ s.limit)
    (hstep : step s l = some s') : (s'.promised : ℤ) ≤ s'.limit := by
  rcases step_cases h.limit_pos hstep with rfl | rfl | ⟨b, n, k, rfl, hb, htake, rfl⟩ |
    ⟨b, n, sum, k, hb, htake, hover, rfl⟩ | ⟨b, n, sum, k, hb, htake, hfits, rfl⟩ |
    ⟨b, n, k, hb, htake, rfl⟩ | ⟨b, k, hb, htake, rfl⟩ | ⟨d, entries, held, hd, rfl⟩
  · exact hle
  · simpa [promised, granted, kept, willFit] using hle
  · -- the counter is the sum of all, so what fits below the limit now is promised within it
    have hsum : int64 (s.held + n) = s.total + n := by
      rw [h.counter, int64_add_left]
      have hlow : (0 : ℤ) ≤ s.total + n := by positivity
      exact int64_eq (by omega) hroom
    have hset := promised_setSink hb { k with take := .added n (int64 (s.held + n)) }
    have htotal := promised_le_total s
    simp only [granted, kept, willFit, htake] at hset
    change ((s.setSink b _).promised : ℤ) ≤ s.limit
    rw [hsum] at hset ⊢
    split_ifs at hset
    · omega
    · omega
  · have hset := promised_setSink hb { k with take := .refused n }
    simp only [granted, kept, willFit, htake, if_pos hover] at hset
    change ((s.setSink b _).promised : ℤ) ≤ s.limit
    omega
  · have hset := promised_setSink hb (keep k n)
    simp only [granted, kept_keep, take_keep, willFit, htake, if_neg hfits] at hset
    change ((s.setSink b _).promised : ℤ) ≤ s.limit
    omega
  · have hset := promised_setSink hb { k with take := .idle }
    simp only [granted, kept, willFit, htake] at hset
    change ((s.setSink b _).promised : ℤ) ≤ s.limit
    omega
  · have hset := promised_setSink hb ⟨[], 0, .idle⟩
    simp only [granted, kept, willFit, htake, List.sum_nil] at hset
    have hmoved : ({ s.setSink b ⟨[], 0, .idle⟩ with
        deliveries := s.deliveries ++ [.storing k.entries k.held] } : PrefetchBudget).promised =
        (s.setSink b ⟨[], 0, .idle⟩).promised + k.entries.sum := by
      simp [promised, PrefetchBudget.setSink, PrefetchDelivery.bytes, Nat.add_assoc]
    change (_ : ℤ) ≤ s.limit
    rw [hmoved]
    omega
  · have hsums := Parties.sum_map_set PrefetchDelivery.bytes hd .released
    simp only [PrefetchDelivery.bytes] at hsums
    simp only [promised] at hle ⊢
    omega

lemma limit_step {l : Label} (hlimit : 0 < s.limit) (hstep : step s l = some s') :
    s'.limit = s.limit := by
  rcases step_cases hlimit hstep with rfl | rfl | ⟨_, _, _, -, -, -, rfl⟩ |
    ⟨_, _, _, _, -, -, -, rfl⟩ | ⟨_, _, _, _, -, -, -, rfl⟩ | ⟨_, _, _, -, -, rfl⟩ |
    ⟨_, _, -, -, rfl⟩ | ⟨_, _, _, -, rfl⟩ <;> rfl

/-- If no take is in progress, the counter stands for what is reserved. -/
lemma total_eq_reserved (hidle : ∀ k ∈ s.sinks, k.take = .idle) : s.total = s.reserved := by
  have hloads : s.sinks.map load = s.sinks.map kept := by
    refine List.map_congr_left ?_
    intro k hk
    rw [load, hidle k hk, inProgress, Nat.add_zero]
  rw [total, reserved, hloads]

/-- Two batches, of which the second is refused and undoes its addition. -/
def twoBatches : List Label :=
  [.batch, .batch, .collect 0 60, .collect 1 50, .compare 1, .compare 0, .undo 1, .deliver 0]

/-- A take that is refused, and another one before it has undone its addition. -/
def hugeTake : List Label :=
  [.batch, .batch, .collect 0 (2 ^ 63 - 1), .collect 1 2, .compare 1]

end PrefetchBudget

end GoBuildCache
