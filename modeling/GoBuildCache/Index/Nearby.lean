import GoBuildCache.Foundation.StableSort
import GoBuildCache.Index.Queries

/-!
# The search for objects nearby

The source never sorts the window of `NearbyKeys` by distance. It stands between two cursors in the
middle of the window and takes whichever side is nearer, until it has enough keys, has looked at too
many candidates, or both cursors have left the window (`NearbySearch.loop`). Positions are checked
here: the loop answers `none` if it reads outside the list or has not come to an end.

Each round takes the head of the merge of what is left on the two sides (`advance_spec`), so the
whole loop scans that merge (`loop_eq_scanNearby`), and it computes what `Index.nearbyKeysLocked`
does. The distances ascend on either side, so the merge is the window sorted by distance
(`candidates_eq_nearestFirst`), and the search is sort-and-take.
-/

open ByteString SortedList

namespace GoBuildCache

/-! ## The source's loop -/

/-- The entry at a position; `none` outside the list. -/
def entryAt (entries : List IndexEntry) (pos : ℤ) : Option IndexEntry :=
  if pos < 0 then none else entries[pos.toNat]?

/-- The values that stay the same while the search runs. -/
structure NearbySearch where
  /-- The entries, sorted by modification time. -/
  entries : List IndexEntry
  /-- The position of the earliest entry of the window. -/
  lo : ℕ
  /-- One past the position of its last entry. -/
  hi : ℕ
  /-- The middle of the window. -/
  mid : ℤ
  /-- How many keys are asked for. -/
  limit : ℤ
  /-- How many candidates may be shown to `skip`. -/
  budget : ℤ
  /-- The keys that are not wanted. -/
  excluded : CompactKey → Bool
  /-- The caller's test, if there is one. -/
  skip : Option (Key → Bool)

/-- The values that change while the search runs. -/
structure NearbyScan where
  /-- The next candidate before the middle. -/
  left : ℤ
  /-- The next candidate after the middle. -/
  right : ℤ
  /-- How many candidates have been shown to `skip`. -/
  examined : ℤ
  /-- The keys taken so far. -/
  keys : List Key

namespace NearbySearch

/-- The distance from the middle. -/
def dist (q : NearbySearch) (t : ℤ) : ℤ :=
  let d := int64 (t - q.mid)
  if d < 0 then int64 (-d) else d

/-- The distance of the entry at a position. -/
def distAt (q : NearbySearch) (pos : ℤ) : Option ℤ :=
  (entryAt q.entries pos).map (q.dist ·.mtimeUnix)

/-- The loop goes on. -/
def more (q : NearbySearch) (s : NearbyScan) : Bool :=
  s.keys.length < q.limit && (q.lo ≤ s.left || s.right < q.hi)

/-- Takes the left candidate. -/
def takeLeft (s : NearbyScan) : ℤ × NearbyScan :=
  (s.left, { s with left := s.left - 1 })

/-- Takes the right candidate. -/
def takeRight (s : NearbyScan) : ℤ × NearbyScan :=
  (s.right, { s with right := s.right + 1 })

/-- Takes whichever side is nearer; with only one side left, that one. -/
def advance (q : NearbySearch) (s : NearbyScan) : Option (ℤ × NearbyScan) :=
  if s.left < q.lo then some (takeRight s)
  else if q.hi ≤ s.right then some (takeLeft s)
  else do
    let dl ← q.distAt s.left
    let dr ← q.distAt s.right
    if dl ≤ dr then some (takeLeft s) else some (takeRight s)

/-- Decides about a candidate; the flag says whether the loop goes on. -/
def visit (q : NearbySearch) (e : IndexEntry) (s : NearbyScan) : NearbyScan × Bool :=
  if q.excluded e.key then (s, true)
  else
    match q.skip with
    | none => ({ s with keys := s.keys ++ [e.key.key] }, true)
    | some unwanted =>
      if s.examined = q.budget then (s, false)
      else
        let s := { s with examined := s.examined + 1 }
        if unwanted e.key.key then (s, true)
        else ({ s with keys := s.keys ++ [e.key.key] }, true)

/-- The loop; `none` if a position is outside the list or `fuel` rounds are not enough. -/
def loop (q : NearbySearch) : ℕ → NearbyScan → Option (List Key)
  | 0, s => if q.more s then none else some s.keys
  | fuel + 1, s =>
    if q.more s then do
      let (pos, s) ← q.advance s
      let e ← entryAt q.entries pos
      match q.visit e s with
      | (s, true) => loop q fuel s
      | (s, false) => some s.keys
    else some s.keys

end NearbySearch

namespace NearbySearch

/-- The bounds of the window, as positions, its middle, and the budget. -/
def ofWindow (entries : List IndexEntry) (startUnix endUnix limit : ℤ)
    (excluded : CompactKey → Bool) (skip : Option (Key → Bool)) : NearbySearch where
  entries := entries
  lo := search entries.length fun i => startUnix ≤ Index.mtimeAt entries i
  hi := search entries.length fun i => endUnix < Index.mtimeAt entries i
  mid := (int64 (startUnix + endUnix)).tdiv 2
  limit := limit
  budget := int64 (limit * nearbyScanFactor)
  excluded := excluded
  skip := skip

/-- How many entries of the window come before the middle. -/
def beforeMid (q : NearbySearch) : ℕ :=
  search (q.hi - q.lo) fun i => q.mid ≤ Index.mtimeAt q.entries (q.lo + i)

/-- The cursors stand on either side of the middle. -/
def start (q : NearbySearch) : NearbyScan where
  left := ((q.beforeMid + q.lo : ℕ) : ℤ) - 1
  right := (q.beforeMid + q.lo : ℕ)
  examined := 0
  keys := []

/-- `nearbyKeysLocked` with the source's loop. Numbers of 64 bits may wrap around; positions and
counts do not, as they are bounded by the length of a list in memory. -/
def nearbyKeysLocked (entries : List IndexEntry) (startUnix endUnix limit : ℤ)
    (excluded : CompactKey → Bool) (skip : Option (Key → Bool)) : Option (List Key) :=
  if limit ≤ 0 ∨ entries = [] then some []
  else
    let q := ofWindow entries startUnix endUnix limit excluded skip
    if q.hi ≤ q.lo then some [] else q.loop (q.hi - q.lo) q.start

/-- `NearbyKeys` with the source's loop: the list is sorted first if objects have been added
since. -/
def nearbyKeys (idx : Index) (startUnix endUnix limit : ℤ) (exclude : List Key)
    (skip : Option (Key → Bool)) : Option (List Key) × Index :=
  let excluded (k : CompactKey) : Bool := k ∈ exclude.map newCompactKey
  if idx.pendingEntries = [] then
    (nearbyKeysLocked idx.entries startUnix endUnix limit excluded skip, idx)
  else
    let idx := idx.drainEntriesLocked
    (nearbyKeysLocked idx.entries startUnix endUnix limit excluded skip, idx)

end NearbySearch

/-- No operation on numbers of 64 bits overflows: neither the sum of the bounds, nor a distance from
the middle, nor the budget. -/
structure NoOverflow (entries : List IndexEntry) (startUnix endUnix limit : ℤ) : Prop where
  sum : -2 ^ 63 ≤ startUnix + endUnix ∧ startUnix + endUnix < 2 ^ 63
  dist : ∀ e ∈ entries, startUnix ≤ e.mtimeUnix → e.mtimeUnix ≤ endUnix →
    |e.mtimeUnix - (startUnix + endUnix).tdiv 2| < 2 ^ 63
  budget : limit * nearbyScanFactor < 2 ^ 63

/-! ## The loop scans the merge of the two sides -/

namespace NearbySearch

/-- What is left before the middle, the nearest first. -/
def below (q : NearbySearch) (left : ℤ) : List IndexEntry :=
  ((q.entries.take (left + 1).toNat).drop q.lo).reverse

/-- What is left after the middle, the nearest first. -/
def above (q : NearbySearch) (right : ℤ) : List IndexEntry :=
  (q.entries.take q.hi).drop right.toNat

/-- What is left of the window, in the order of the search. -/
def candidates (q : NearbySearch) (s : NearbyScan) : List IndexEntry :=
  (q.below s.left).merge (q.above s.right) fun a b => q.dist a.mtimeUnix ≤ q.dist b.mtimeUnix

/-- The cursors stand in the window, and the window is a part of the list. -/
structure Within (q : NearbySearch) (s : NearbyScan) : Prop where
  lo_le : q.lo ≤ s.left + 1
  left_lt : s.left < s.right
  right_le : s.right ≤ q.hi
  hi_le : q.hi ≤ q.entries.length

lemma below_of_lt {q : NearbySearch} {left : ℤ} (h : left < q.lo) : q.below left = [] := by
  have hle : (left + 1).toNat ≤ q.lo := by omega
  simp [below, hle]

lemma above_of_le {q : NearbySearch} {right : ℤ} (h : q.hi ≤ right) : q.above right = [] := by
  have hle : q.hi ≤ right.toNat := by omega
  simp [above, hle]

/-- The left cursor stands on the nearest of the entries before the middle. -/
lemma below_of_le {q : NearbySearch} {left : ℤ} (hlo : q.lo ≤ left)
    (hlen : left < q.entries.length) :
    ∃ e, entryAt q.entries left = some e ∧ q.below left = e :: q.below (left - 1) := by
  obtain ⟨n, rfl⟩ := Int.eq_ofNat_of_zero_le (q.lo.cast_nonneg.trans hlo)
  have hn : n < q.entries.length := by omega
  refine ⟨q.entries[n], by simp [entryAt], ?_⟩
  have hsucc : ((n : ℤ) + 1).toNat = n + 1 := by omega
  have hpred : ((n : ℤ) - 1 + 1).toNat = n := by omega
  have hdrop : q.lo ≤ (q.entries.take n).length := by
    rw [List.length_take]
    omega
  rw [below, below, hsucc, hpred, List.take_add_one, List.getElem?_eq_getElem hn,
    List.drop_append_of_le_length hdrop, Option.toList_some, List.reverse_append]
  rfl

/-- The right cursor stands on the nearest of the entries after the middle. -/
lemma above_of_lt {q : NearbySearch} {right : ℤ} (h0 : 0 ≤ right) (hhi : right < q.hi)
    (hlen : q.hi ≤ q.entries.length) :
    ∃ e, entryAt q.entries right = some e ∧ q.above right = e :: q.above (right + 1) := by
  obtain ⟨n, rfl⟩ := Int.eq_ofNat_of_zero_le h0
  have hn : n < q.entries.length := by omega
  refine ⟨q.entries[n], by simp [entryAt], ?_⟩
  have hsucc : ((n : ℤ) + 1).toNat = n + 1 := by omega
  have htake : n < (q.entries.take q.hi).length := by
    rw [List.length_take]
    omega
  rw [above, above, hsucc, Int.toNat_natCast, List.drop_eq_getElem_cons htake, List.getElem_take]

lemma Within.takeLeft {q : NearbySearch} {s : NearbyScan} (h : q.Within s) (hle : q.lo ≤ s.left) :
    q.Within (takeLeft s).2 where
  lo_le := by simpa [NearbySearch.takeLeft] using hle
  left_lt := by
    have := h.left_lt
    simp only [NearbySearch.takeLeft]
    omega
  right_le := h.right_le
  hi_le := h.hi_le

lemma Within.takeRight {q : NearbySearch} {s : NearbyScan} (h : q.Within s) (hlt : s.right < q.hi) :
    q.Within (takeRight s).2 where
  lo_le := h.lo_le
  left_lt := by
    have := h.left_lt
    simp only [NearbySearch.takeRight]
    omega
  right_le := hlt
  hi_le := h.hi_le

/-- A round takes the head of the merge. -/
lemma advance_spec {q : NearbySearch} {s : NearbyScan} (h : q.Within s)
    (hmore : q.lo ≤ s.left ∨ s.right < q.hi) :
    ∃ pos s' e, q.advance s = some (pos, s') ∧ entryAt q.entries pos = some e ∧
      q.candidates s = e :: q.candidates s' ∧ q.Within s' ∧ s'.keys = s.keys ∧
      s'.examined = s.examined := by
  have hlen : (q.hi : ℤ) ≤ q.entries.length := by exact_mod_cast h.hi_le
  have hright0 : 0 ≤ s.right := by
    have := h.lo_le
    have := h.left_lt
    omega
  have hleft_lt : s.left < q.entries.length := h.left_lt.trans_le (h.right_le.trans hlen)
  by_cases hleft : s.left < q.lo
  · have hright : s.right < q.hi := hmore.resolve_left (not_le.mpr hleft)
    obtain ⟨b, hb, habove⟩ := above_of_lt hright0 hright h.hi_le
    refine ⟨_, (takeRight s).2, b, if_pos hleft, hb, ?_, h.takeRight hright, rfl, rfl⟩
    simp [candidates, takeRight, below_of_lt hleft, habove]
  · obtain ⟨a, ha, hbelow⟩ := below_of_le (not_lt.mp hleft) hleft_lt
    have hwithin := h.takeLeft (not_lt.mp hleft)
    by_cases hright : q.hi ≤ s.right
    · refine ⟨_, (takeLeft s).2, a, ?_, ha, ?_, hwithin, rfl, rfl⟩
      · rw [advance, if_neg hleft, if_pos hright]
        rfl
      · simp [candidates, takeLeft, above_of_le hright, hbelow]
    · obtain ⟨b, hb, habove⟩ := above_of_lt hright0 (not_le.mp hright) h.hi_le
      have hadv : q.advance s = if q.dist a.mtimeUnix ≤ q.dist b.mtimeUnix
          then some (takeLeft s) else some (takeRight s) := by
        rw [advance, if_neg hleft, if_neg hright, distAt, distAt, ha, hb]
        rfl
      by_cases hnear : q.dist a.mtimeUnix ≤ q.dist b.mtimeUnix
      · refine ⟨_, (takeLeft s).2, a, hadv.trans (if_pos hnear), ha, ?_, hwithin, rfl, rfl⟩
        simp [candidates, takeLeft, habove, hbelow, hnear]
      · refine ⟨_, (takeRight s).2, b, hadv.trans (if_neg hnear), hb, ?_,
          h.takeRight (not_le.mp hright), rfl, rfl⟩
        simp [candidates, takeRight, habove, hbelow, hnear]

lemma candidates_eq_nil {q : NearbySearch} {s : NearbyScan} (hleft : s.left < q.lo)
    (hright : q.hi ≤ s.right) : q.candidates s = [] := by
  simp [candidates, below_of_lt hleft, above_of_le hright]

lemma scanNearby_zero (excluded : CompactKey → Bool) (skip : Option (Key → Bool)) (budget : ℕ)
    (cs : List IndexEntry) : scanNearby excluded skip 0 budget cs = [] := by
  cases cs <;> rfl

lemma not_more_iff {q : NearbySearch} {s : NearbyScan} :
    q.more s = false ↔ q.limit ≤ s.keys.length ∨ s.left < q.lo ∧ q.hi ≤ s.right := by
  simp only [more, Bool.and_eq_false_iff, decide_eq_false_iff_not, Bool.or_eq_false_iff, not_lt,
    not_le]

lemma more_iff {q : NearbySearch} {s : NearbyScan} :
    q.more s = true ↔ s.keys.length < q.limit ∧ (q.lo ≤ s.left ∨ s.right < q.hi) := by
  simp only [more, Bool.and_eq_true, decide_eq_true_eq, Bool.or_eq_true]

/-- What the scan of the candidates left will find. -/
def rest (q : NearbySearch) (s : NearbyScan) (cs : List IndexEntry) : List Key :=
  s.keys ++ scanNearby q.excluded q.skip (q.limit - s.keys.length).toNat
    (q.budget - s.examined).toNat cs

lemma rest_of_not_more {q : NearbySearch} {s : NearbyScan} (h : q.more s = false) :
    q.rest s (q.candidates s) = s.keys := by
  rcases not_more_iff.mp h with hfull | ⟨hleft, hright⟩
  · have hzero : (q.limit - s.keys.length).toNat = 0 := by omega
    rw [rest, hzero, scanNearby_zero, List.append_nil]
  · simp [rest, candidates_eq_nil hleft hright, scanNearby]

/-- Deciding about a candidate is one step of the scan. -/
lemma rest_cons (q : NearbySearch) {s : NearbyScan} (e : IndexEntry) (cs : List IndexEntry)
    (hlimit : s.keys.length < q.limit) (hbudget : s.examined ≤ q.budget) :
    q.rest s (e :: cs) = if (q.visit e s).2 then q.rest (q.visit e s).1 cs
      else (q.visit e s).1.keys := by
  obtain ⟨n, hn⟩ : ∃ n : ℕ, (q.limit - s.keys.length).toNat = n + 1 :=
    ⟨(q.limit - s.keys.length).toNat - 1, by omega⟩
  have hn' : (q.limit - (s.keys.length + 1)).toNat = n := by omega
  rw [rest, hn, visit, scanNearby.eq_def]
  by_cases hexcluded : q.excluded e.key
  · simp [hexcluded, rest, hn]
  · cases hskip : q.skip with
    | none => simp [hexcluded, hskip, rest, hn']
    | some unwanted =>
      by_cases hspent : s.examined = q.budget
      · simp [hexcluded, hspent]
      · obtain ⟨b, hb⟩ : ∃ b : ℕ, (q.budget - s.examined).toNat = b + 1 :=
          ⟨(q.budget - s.examined).toNat - 1, by omega⟩
        have hb' : (q.budget - (s.examined + 1)).toNat = b := by omega
        by_cases hunwanted : unwanted e.key.key
        · simp [hexcluded, hspent, hb, hunwanted, rest, hskip, hn, hb']
        · simp [hexcluded, hspent, hb, hunwanted, rest, hskip, hn', hb']

/-- Deciding about a candidate moves no cursor. It takes the key or not, and may count the
candidate. -/
lemma visit_cases (q : NearbySearch) (e : IndexEntry) (s : NearbyScan) :
    (q.visit e s).1.left = s.left ∧ (q.visit e s).1.right = s.right ∧
      ((q.visit e s).1.keys = s.keys ∨ (q.visit e s).1.keys = s.keys ++ [e.key.key]) ∧
      ((q.visit e s).1.examined = s.examined ∨
        s.examined ≠ q.budget ∧ (q.visit e s).1.examined = s.examined + 1) := by
  unfold visit
  split
  · exact ⟨rfl, rfl, Or.inl rfl, Or.inl rfl⟩
  · split
    · exact ⟨rfl, rfl, Or.inr rfl, Or.inl rfl⟩
    · split
      · exact ⟨rfl, rfl, Or.inl rfl, Or.inl rfl⟩
      · next hbudget =>
        dsimp only
        split
        · exact ⟨rfl, rfl, Or.inl rfl, Or.inr ⟨hbudget, rfl⟩⟩
        · exact ⟨rfl, rfl, Or.inr rfl, Or.inr ⟨hbudget, rfl⟩⟩

/-- The counters stay within their bounds. -/
lemma visit_bounds (q : NearbySearch) {s : NearbyScan} (e : IndexEntry)
    (hlimit : s.keys.length < q.limit) (hbudget : s.examined ≤ q.budget) :
    ((q.visit e s).1.keys.length : ℤ) ≤ q.limit ∧ (q.visit e s).1.examined ≤ q.budget := by
  obtain ⟨-, -, hkeys, hexamined⟩ := q.visit_cases e s
  constructor
  · rcases hkeys with hkeys | hkeys
    · rw [hkeys]
      exact hlimit.le
    · rw [hkeys, List.length_append, List.length_singleton]
      omega
  · omega

/-- Only the cursors matter for what is left. -/
lemma Within.of_cursors {q : NearbySearch} {s t : NearbyScan} (h : q.Within s)
    (hleft : t.left = s.left) (hright : t.right = s.right) :
    q.Within t ∧ q.candidates t = q.candidates s := by
  constructor
  · exact ⟨hleft ▸ h.lo_le, hleft ▸ hright ▸ h.left_lt, hright ▸ h.right_le, h.hi_le⟩
  · rw [candidates, hleft, hright, candidates]

/-- A round of the loop: the head of the merge is decided about, and the loop goes on with what is
left. -/
lemma loop_round {q : NearbySearch} {s : NearbyScan} (h : q.Within s) (hmore : q.more s = true) :
    ∃ e s', q.candidates s = e :: q.candidates s' ∧ q.Within s' ∧ s'.keys = s.keys ∧
      s'.examined = s.examined ∧ ∀ fuel, q.loop (fuel + 1) s
        = if (q.visit e s').2 then q.loop fuel (q.visit e s').1
          else some (q.visit e s').1.keys := by
  obtain ⟨pos, s', e, hadv, he, hcons, hwithin, hkeys, hexamined⟩ :=
    advance_spec h (more_iff.mp hmore).2
  refine ⟨e, s', hcons, hwithin, hkeys, hexamined, fun fuel => ?_⟩
  rw [loop, hmore, if_pos rfl, hadv]
  simp only [Option.bind_eq_bind, Option.bind_some, he]
  rcases q.visit e s' with ⟨t, goesOn⟩
  cases goesOn <;> rfl

/-- With nothing left in the window the loop is over. -/
lemma not_more_of_candidates {q : NearbySearch} {s : NearbyScan} (h : q.Within s)
    (hnil : (q.candidates s).length ≤ 0) : q.more s = false := by
  by_contra hmore
  obtain ⟨e, s', hcons, -⟩ := loop_round h (by simpa using hmore)
  simp [hcons] at hnil

lemma loop_of_not_more {q : NearbySearch} {s : NearbyScan} (h : q.more s = false) (fuel : ℕ) :
    q.loop fuel s = some s.keys := by
  cases fuel <;> simp [loop, h]

/-- The loop scans the merge of the two sides, and comes to an end within as many rounds as there
are candidates. -/
lemma loop_eq_scanNearby {q : NearbySearch} {fuel : ℕ} {s : NearbyScan} (h : q.Within s)
    (hfuel : (q.candidates s).length ≤ fuel) (hlimit : s.keys.length ≤ q.limit)
    (hbudget : s.examined ≤ q.budget) :
    q.loop fuel s = some (q.rest s (q.candidates s)) := by
  induction fuel generalizing s with
  | zero =>
    have hdone := not_more_of_candidates h hfuel
    rw [loop_of_not_more hdone, rest_of_not_more hdone]
  | succ fuel ih =>
    cases hmore : q.more s with
    | false => rw [loop_of_not_more hmore, rest_of_not_more hmore]
    | true =>
      obtain ⟨e, s', hcons, hwithin, hkeys, hexamined, hround⟩ := loop_round h hmore
      have hroom : s'.keys.length < q.limit := hkeys ▸ (more_iff.mp hmore).1
      rw [← hexamined] at hbudget
      have hrest : q.rest s (e :: q.candidates s') = q.rest s' (e :: q.candidates s') := by
        rw [rest, rest, hkeys, hexamined]
      rw [hround, hcons, hrest, rest_cons q e _ hroom hbudget]
      obtain ⟨hlimit', hbudget'⟩ := q.visit_bounds e hroom hbudget
      obtain ⟨hleft, hright, -⟩ := q.visit_cases e s'
      obtain ⟨hwithin', hcandidates⟩ := hwithin.of_cursors hleft hright
      have hfuel' : (q.candidates (q.visit e s').1).length ≤ fuel := by
        rw [hcandidates]
        simpa [hcons] using hfuel
      split_ifs
      · rw [ih hwithin' hfuel' hlimit' hbudget', hcandidates]
      · rfl

/-- Whatever the limits are, the loop comes to an end and has taken some of the candidates. -/
lemma loop_sublist {q : NearbySearch} {fuel : ℕ} {s : NearbyScan} (h : q.Within s)
    (hfuel : (q.candidates s).length ≤ fuel) :
    ∃ taken, q.loop fuel s = some (s.keys ++ taken) ∧
      taken.Sublist ((q.candidates s).map (·.key.key)) := by
  induction fuel generalizing s with
  | zero =>
    refine ⟨[], ?_, List.nil_sublist _⟩
    rw [loop_of_not_more (not_more_of_candidates h hfuel), List.append_nil]
  | succ fuel ih =>
    cases hmore : q.more s with
    | false => exact ⟨[], by rw [loop_of_not_more hmore, List.append_nil], List.nil_sublist _⟩
    | true =>
      obtain ⟨e, s', hcons, hwithin, hkeys, -, hround⟩ := loop_round h hmore
      obtain ⟨hleft, hright, htaken, -⟩ := q.visit_cases e s'
      obtain ⟨hwithin', hcandidates⟩ := hwithin.of_cursors hleft hright
      have hfuel' : (q.candidates (q.visit e s').1).length ≤ fuel := by
        rw [hcandidates]
        simpa [hcons] using hfuel
      obtain ⟨rest, hloop, hrest⟩ := ih hwithin' hfuel'
      -- the key that this round takes, if it takes one
      obtain ⟨head, hhead, hsub⟩ : ∃ head, (q.visit e s').1.keys = s.keys ++ head ∧
          head.Sublist [e.key.key] := by
        rw [← hkeys]
        rcases htaken with htaken | htaken
        · exact ⟨[], by rw [htaken, List.append_nil], List.nil_sublist _⟩
        · exact ⟨[e.key.key], htaken, List.Sublist.refl _⟩
      rw [hround, hcons, List.map_cons]
      split_ifs
      · refine ⟨head ++ rest, by rw [hloop, hhead, List.append_assoc], ?_⟩
        rw [hcandidates] at hrest
        exact hsub.append hrest
      · refine ⟨head, by rw [hhead], ?_⟩
        exact hsub.trans (List.singleton_sublist.mpr (List.mem_cons_self ..))

/-- The candidates stand at different positions of the list. -/
lemma candidates_subperm {q : NearbySearch} {s : NearbyScan} (h : q.Within s) :
    (q.candidates s).Subperm q.entries := by
  set l := (s.left + 1).toNat with hl
  have hlr : l ≤ s.right.toNat := by
    have := h.left_lt
    omega
  have hbelow : ((q.entries.take l).drop q.lo).Sublist (q.entries.take l) := List.drop_sublist ..
  have habove : (q.above s.right).Sublist (q.entries.drop l) := by
    rw [above, List.drop_take]
    exact (List.take_sublist ..).trans (List.drop_sublist_drop_left _ hlr)
  have hsides := hbelow.append habove
  rw [List.take_append_drop] at hsides
  have hperm : (q.candidates s).Perm ((q.entries.take l).drop q.lo ++ q.above s.right) :=
    (List.merge_perm_append ..).trans ((List.reverse_perm _).append_right _)
  exact hperm.subperm_right.mpr hsides.subperm

end NearbySearch

/-! ## Sort and take -/

/-- The order of the search: by distance from the middle, and of two times at one distance the
earlier one first. -/
def Nearer (mid : ℤ) (a b : IndexEntry) : Prop :=
  |a.mtimeUnix - mid| < |b.mtimeUnix - mid| ∨
    |a.mtimeUnix - mid| = |b.mtimeUnix - mid| ∧ a.mtimeUnix ≤ b.mtimeUnix

instance (mid : ℤ) : DecidableRel (Nearer mid) :=
  fun _ _ => inferInstanceAs (Decidable (_ ∨ _))

instance (mid : ℤ) : IsTrans IndexEntry (Nearer mid) where
  trans a b c hab hbc := by
    unfold Nearer at *
    omega

/-- Before the middle, the later of two entries is nearer. -/
lemma nearer_of_below {mid : ℤ} {a b : IndexEntry} (hb : b.mtimeUnix < mid)
    (hab : a.mtimeUnix ≤ b.mtimeUnix) : Nearer mid b a := by
  have habs : |a.mtimeUnix - mid| = -(a.mtimeUnix - mid) := abs_of_neg (by omega)
  have hbbs : |b.mtimeUnix - mid| = -(b.mtimeUnix - mid) := abs_of_neg (by omega)
  rw [Nearer, habs, hbbs]
  omega

/-- After the middle, the earlier of two entries is nearer. -/
lemma nearer_of_above {mid : ℤ} {a b : IndexEntry} (ha : mid ≤ a.mtimeUnix)
    (hab : a.mtimeUnix ≤ b.mtimeUnix) : Nearer mid a b := by
  have habs : |a.mtimeUnix - mid| = a.mtimeUnix - mid := abs_of_nonneg (by omega)
  have hbbs : |b.mtimeUnix - mid| = b.mtimeUnix - mid := abs_of_nonneg (by omega)
  rw [Nearer, habs, hbbs]
  omega

/-- The entries with a time in the window. -/
def windowOf (entries : List IndexEntry) (startUnix endUnix : ℤ) : List IndexEntry :=
  entries.filter fun e => startUnix ≤ e.mtimeUnix && !decide (endUnix < e.mtimeUnix)

/-- The list read outward from the middle: first what lies before it, backwards, then the rest. -/
def outward (mid : ℤ) (entries : List IndexEntry) : List IndexEntry :=
  (entries.filter fun e => !decide (mid ≤ e.mtimeUnix)).reverse ++
    entries.filter fun e => mid ≤ e.mtimeUnix

/-- The entries of the window, the nearest to its middle first. The sort is stable, so entries of
one time keep their order outward from the middle. -/
def nearestFirst (entries : List IndexEntry) (startUnix endUnix : ℤ) : List IndexEntry :=
  let mid := (startUnix + endUnix).tdiv 2
  (outward mid (windowOf entries startUnix endUnix)).insertionSort (Nearer mid)

/-- Takes keys from a list of candidates: the excluded ones are dropped, no more than `budget` of
the others are shown to `skip`, the skipped ones are dropped, and the first `limit` are kept. -/
def takeWanted (excluded : CompactKey → Bool) (skip : Option (Key → Bool)) (limit budget : ℕ)
    (candidates : List IndexEntry) : List Key :=
  let offered := candidates.filter fun e => !excluded e.key
  match skip with
  | none => (offered.map (·.key.key)).take limit
  | some unwanted =>
    (((offered.take budget).map (·.key.key)).filter fun k => !unwanted k).take limit

lemma takeWanted_sublist (excluded : CompactKey → Bool) (skip : Option (Key → Bool))
    (limit budget : ℕ) (cs : List IndexEntry) :
    (takeWanted excluded skip limit budget cs).Sublist (cs.map (·.key.key)) := by
  unfold takeWanted
  cases skip with
  | none => exact (List.take_sublist ..).trans (List.filter_sublist.map _)
  | some unwanted =>
    refine (List.take_sublist ..).trans (List.filter_sublist.trans ?_)
    exact ((List.take_sublist ..).trans List.filter_sublist).map _

/-- What `NearbyKeys` is meant to compute. -/
def sortAndTake (entries : List IndexEntry) (startUnix endUnix limit : ℤ) (exclude : List Key)
    (skip : Option (Key → Bool)) : List Key :=
  takeWanted (· ∈ exclude.map newCompactKey) skip limit.toNat (limit * nearbyScanFactor).toNat
    (nearestFirst entries startUnix endUnix)

/-- The scan takes what is wanted. -/
lemma scanNearby_eq_takeWanted (excluded : CompactKey → Bool) (skip : Option (Key → Bool))
    (limit budget : ℕ) (cs : List IndexEntry) :
    scanNearby excluded skip limit budget cs = takeWanted excluded skip limit budget cs := by
  induction cs generalizing limit budget with
  | nil => cases skip <;> simp [scanNearby, takeWanted]
  | cons e cs ih =>
    cases limit with
    | zero => cases skip <;> simp [scanNearby, takeWanted]
    | succ limit =>
      rw [scanNearby.eq_def]
      cases hexcluded : excluded e.key with
      | true => cases skip <;> simp [ih, takeWanted, hexcluded]
      | false =>
        cases skip with
        | none => simp [ih, takeWanted, hexcluded]
        | some unwanted =>
          cases budget with
          | zero => simp [takeWanted, hexcluded]
          | succ budget =>
            cases hunwanted : unwanted e.key.key <;> simp [ih, takeWanted, hexcluded, hunwanted]

/-! ## The merge of the two sides is the sorted window -/

/-- The entries are sorted by modification time. -/
abbrev MtimeSorted (entries : List IndexEntry) : Prop :=
  entries.Pairwise fun a b => a.mtimeUnix ≤ b.mtimeUnix

lemma mtimeAt_of_lt {entries : List IndexEntry} {i : ℕ} (hi : i < entries.length) :
    Index.mtimeAt entries i = entries[i].mtimeUnix := by
  simp [Index.mtimeAt, hi]

section Window

variable {entries : List IndexEntry} (hsorted : MtimeSorted entries)
include hsorted

lemma pairwise_le (t : ℤ) : entries.Pairwise fun a b =>
    decide (t ≤ a.mtimeUnix) = true → decide (t ≤ b.mtimeUnix) = true := by
  refine hsorted.imp ?_
  intro a b hab ha
  rw [decide_eq_true_eq] at ha ⊢
  exact ha.trans hab

lemma pairwise_lt (t : ℤ) : entries.Pairwise fun a b =>
    decide (t < a.mtimeUnix) = true → decide (t < b.mtimeUnix) = true := by
  refine hsorted.imp ?_
  intro a b hab ha
  rw [decide_eq_true_eq] at ha ⊢
  exact ha.trans_le hab

/-- The two searches cut the window out of the list. -/
lemma drop_take_eq_windowOf (startUnix endUnix : ℤ) :
    (entries.take (search entries.length fun i => endUnix < Index.mtimeAt entries i)).drop
        (search entries.length fun i => startUnix ≤ Index.mtimeAt entries i)
      = windowOf entries startUnix endUnix := by
  refine drop_take_search (fun e : IndexEntry => startUnix ≤ e.mtimeUnix)
    (fun e : IndexEntry => endUnix < e.mtimeUnix) (pairwise_le hsorted startUnix)
    (pairwise_lt hsorted endUnix) ?_ ?_
  · intro i hi
    rw [mtimeAt_of_lt hi]
  · intro i hi
    rw [mtimeAt_of_lt hi]

lemma mtimeSorted_windowOf (startUnix endUnix : ℤ) :
    MtimeSorted (windowOf entries startUnix endUnix) :=
  hsorted.filter _

/-- The third search cuts a sorted list at the middle. -/
lemma outward_eq (mid : ℤ) {f : ℕ → Bool}
    (hf : ∀ i (hi : i < entries.length), f i = decide (mid ≤ entries[i].mtimeUnix)) :
    outward mid entries = (entries.take (search entries.length f)).reverse ++
      entries.drop (search entries.length f) := by
  have hp := pairwise_le hsorted mid
  rw [outward, take_search (fun e => decide (mid ≤ e.mtimeUnix)) hp hf,
    drop_search (fun e => decide (mid ≤ e.mtimeUnix)) hp hf]

/-- Distances ascend on either side, so sorting the outward list is merging the sides. -/
lemma insertionSort_outward (mid : ℤ) {f : ℕ → Bool}
    (hf : ∀ i (hi : i < entries.length), f i = decide (mid ≤ entries[i].mtimeUnix)) :
    (outward mid entries).insertionSort (Nearer mid)
      = (entries.take (search entries.length f)).reverse.merge
          (entries.drop (search entries.length f))
          fun a b => |a.mtimeUnix - mid| ≤ |b.mtimeUnix - mid| := by
  have hp := pairwise_le hsorted mid
  have hbelow : ∀ e ∈ entries.take (search entries.length f), e.mtimeUnix < mid := by
    intro e he
    simpa using not_of_mem_take_search (fun e => decide (mid ≤ e.mtimeUnix)) hp hf he
  have habove : ∀ e ∈ entries.drop (search entries.length f), mid ≤ e.mtimeUnix := by
    intro e he
    simpa using of_mem_drop_search (fun e => decide (mid ≤ e.mtimeUnix)) hp hf he
  have hleft : (entries.take (search entries.length f)).reverse.Pairwise (Nearer mid) := by
    refine List.pairwise_reverse.mpr ((hsorted.sublist (List.take_sublist ..)).imp_of_mem ?_)
    intro a b ha hb hab
    exact nearer_of_below (hbelow b hb) hab
  have hright : (entries.drop (search entries.length f)).Pairwise (Nearer mid) := by
    refine (hsorted.sublist (List.drop_sublist ..)).imp_of_mem ?_
    intro a b ha hb hab
    exact nearer_of_above (habove a ha) hab
  rw [outward_eq hsorted mid hf, insertionSort_append hleft hright]
  refine merge_congr fun a ha b hb => ?_
  have hab := (hbelow a (List.mem_reverse.mp ha)).trans_le (habove b hb)
  rw [decide_eq_decide, Nearer]
  omega

/-- The candidates of `Index.nearbyKeysLocked` are the sorted window. -/
lemma nearbyKeysLocked_eq_scanNearby {idx : Index} (hidx : idx.entries = entries)
    (startUnix endUnix : ℤ) (limit : ℕ) (excluded : CompactKey → Bool)
    (skip : Option (Key → Bool)) :
    idx.nearbyKeysLocked startUnix endUnix limit excluded skip = scanNearby excluded skip limit
      (limit * nearbyScanFactor) (nearestFirst entries startUnix endUnix) := by
  subst hidx
  simp only [Index.nearbyKeysLocked]
  rw [drop_take_eq_windowOf hsorted, nearestFirst,
    insertionSort_outward (mtimeSorted_windowOf hsorted startUnix endUnix)]
  intro i hi
  rw [mtimeAt_of_lt hi]

end Window

namespace NearbySearch

/-- Without an overflow the distance is the absolute difference. -/
lemma dist_eq_abs {q : NearbySearch} {t : ℤ} (h : |t - q.mid| < 2 ^ 63) :
    q.dist t = |t - q.mid| := by
  obtain ⟨hlow, hhigh⟩ := abs_lt.mp h
  rw [dist, int64_eq hlow.le hhigh]
  split_ifs with hneg
  · rw [int64_eq (by omega) (by omega), abs_of_neg hneg]
  · rw [abs_of_nonneg (not_lt.mp hneg)]

section Start

variable {entries : List IndexEntry} {startUnix endUnix limit : ℤ}
  (hsorted : MtimeSorted entries) (hover : NoOverflow entries startUnix endUnix limit)
  (excluded : CompactKey → Bool) (skip : Option (Key → Bool))

lemma beforeMid_le (q : NearbySearch) : q.beforeMid ≤ q.hi - q.lo :=
  search_le _ _

include hover in
lemma mid_ofWindow :
    (ofWindow entries startUnix endUnix limit excluded skip).mid
      = (startUnix + endUnix).tdiv 2 := by
  rw [ofWindow, int64_eq hover.sum.1 hover.sum.2]

/-- At the start the window is before the cursors. -/
lemma within_start {q : NearbySearch} (h : q.lo < q.hi) (hlen : q.hi ≤ q.entries.length) :
    q.Within q.start := by
  have := q.beforeMid_le
  refine ⟨?_, ?_, ?_, hlen⟩ <;> simp only [start] <;> omega

lemma length_candidates_start_le (q : NearbySearch) :
    (q.candidates q.start).length ≤ q.hi - q.lo := by
  have := q.beforeMid_le
  rw [candidates, List.length_merge, below, above, List.length_reverse]
  simp only [start, List.length_drop, List.length_take]
  omega

/-- At the start the part of the window before the middle is on the left. -/
lemma below_start (q : NearbySearch) :
    q.below q.start.left = (((q.entries.take q.hi).drop q.lo).take q.beforeMid).reverse := by
  have htake : (q.start.left + 1).toNat = q.beforeMid + q.lo := by
    simp only [start]
    omega
  rw [below, htake, List.drop_take, List.drop_take, List.take_take, Nat.add_sub_cancel,
    Nat.min_eq_left q.beforeMid_le]

/-- The rest is on the right. -/
lemma above_start (q : NearbySearch) :
    q.above q.start.right = ((q.entries.take q.hi).drop q.lo).drop q.beforeMid := by
  rw [above, start, Int.toNat_natCast, List.drop_drop, Nat.add_comm]

include hsorted hover in
/-- The source's loop starts with the sorted window before it. -/
lemma candidates_start :
    (ofWindow entries startUnix endUnix limit excluded skip).candidates
        (ofWindow entries startUnix endUnix limit excluded skip).start
      = nearestFirst entries startUnix endUnix := by
  have hmid := mid_ofWindow hover excluded skip
  set q := ofWindow entries startUnix endUnix limit excluded skip
  set w := windowOf entries startUnix endUnix
  have hhi : q.hi ≤ entries.length := search_le _ _
  have hwindow : (entries.take q.hi).drop q.lo = w := drop_take_eq_windowOf hsorted _ _
  have hlen : w.length = q.hi - q.lo := by
    rw [← hwindow, List.length_drop, List.length_take, Nat.min_eq_left hhi]
  have hget : ∀ i (hi : i < w.length),
      decide (q.mid ≤ Index.mtimeAt entries (q.lo + i)) = decide (q.mid ≤ w[i].mtimeUnix) := by
    intro i hi
    have hwi : w[i] = entries[q.lo + i] := by
      simp only [← hwindow, List.getElem_drop, List.getElem_take]
    rw [mtimeAt_of_lt (by omega), hwi]
  have hright : q.beforeMid = search w.length fun i =>
      q.mid ≤ Index.mtimeAt entries (q.lo + i) := by
    rw [hlen]
    rfl
  have hbelow : q.below q.start.left = (w.take q.beforeMid).reverse := by
    rw [below_start, ← hwindow]
    rfl
  have habove : q.above q.start.right = w.drop q.beforeMid := by
    rw [above_start, ← hwindow]
    rfl
  have hdist : ∀ e ∈ w, q.dist e.mtimeUnix = |e.mtimeUnix - q.mid| := by
    intro e he
    obtain ⟨hmem, hin⟩ := List.mem_filter.mp he
    simp only [Bool.and_eq_true, decide_eq_true_eq, Bool.not_eq_true', decide_eq_false_iff_not,
      not_lt] at hin
    exact dist_eq_abs (hmid ▸ hover.dist e hmem hin.1 hin.2)
  rw [nearestFirst, ← hmid, insertionSort_outward (mtimeSorted_windowOf hsorted _ _) q.mid hget,
    candidates, hbelow, habove, hright]
  refine merge_congr fun a ha b hb => ?_
  rw [hdist a (List.mem_of_mem_take (List.mem_reverse.mp ha)),
    hdist b (List.mem_of_mem_drop hb)]

include hsorted hover in
/-- The source's search scans the sorted window. -/
lemma nearbyKeysLocked_eq :
    nearbyKeysLocked entries startUnix endUnix limit excluded skip
      = some (scanNearby excluded skip limit.toNat (limit * nearbyScanFactor).toNat
          (nearestFirst entries startUnix endUnix)) := by
  rw [nearbyKeysLocked]
  split_ifs with hnone
  · rcases hnone with hlimit | rfl
    · rw [Int.toNat_of_nonpos hlimit, scanNearby_zero]
    · rfl
  · have hpos : 0 < limit := not_le.mp fun h => hnone (Or.inl h)
    have hcandidates := candidates_start hsorted hover excluded skip
    set q := ofWindow entries startUnix endUnix limit excluded skip
    dsimp only
    split_ifs with hempty
    · have hnil : windowOf entries startUnix endUnix = [] := by
        rw [← drop_take_eq_windowOf hsorted startUnix endUnix]
        refine List.drop_eq_nil_of_le ?_
        rw [List.length_take]
        exact (min_le_left _ _).trans hempty
      rw [nearestFirst, hnil]
      rfl
    · have hfactor : limit * nearbyScanFactor = limit * 8 := rfl
      have hbudget : q.budget = limit * nearbyScanFactor := int64_eq (by omega) hover.budget
      have hnonneg : q.start.examined ≤ q.budget := by
        rw [hbudget, hfactor]
        change (0 : ℤ) ≤ limit * 8
        omega
      have hwithin : q.Within q.start := within_start (not_le.mp hempty) (search_le _ _)
      rw [loop_eq_scanNearby hwithin (length_candidates_start_le q) hpos.le hnonneg, hcandidates,
        rest, hbudget]
      simp [start, q, ofWindow]

end Start

/-- Whatever it is asked for, the search answers with keys of entries at different positions. -/
theorem nearbyKeys_subperm (idx : Index) (startUnix endUnix limit : ℤ) (exclude : List Key)
    (skip : Option (Key → Bool)) :
    ∃ keys, (nearbyKeys idx startUnix endUnix limit exclude skip).1 = some keys ∧
      keys.Subperm (idx.drainEntriesLocked.entries.map (·.key.key)) := by
  have hlocked : ∀ entries, ∃ keys, nearbyKeysLocked entries startUnix endUnix limit
      (fun k => k ∈ exclude.map newCompactKey) skip = some keys ∧
        keys.Subperm (entries.map (·.key.key)) := by
    intro entries
    rw [nearbyKeysLocked]
    split_ifs
    · exact ⟨[], rfl, List.nil_subperm⟩
    · dsimp only
      split_ifs with hempty
      · exact ⟨[], rfl, List.nil_subperm⟩
      · have hwithin := within_start (not_le.mp hempty) (search_le _ _)
        obtain ⟨taken, hloop, hsub⟩ := loop_sublist hwithin (length_candidates_start_le _)
        obtain ⟨l, hperm, hl⟩ := candidates_subperm hwithin
        exact ⟨taken, hloop, hsub.subperm.trans ⟨_, hperm.map _, hl.map _⟩⟩
  rw [nearbyKeys]
  split_ifs with hdrained
  · have hsame : idx.drainEntriesLocked.entries = idx.entries := if_pos hdrained
    rw [hsame]
    exact hlocked idx.entries
  · exact hlocked idx.drainEntriesLocked.entries

/-- The source's search computes what `Index.nearbyKeys` does. -/
theorem nearbyKeys_refines (idx : Index) (hsorted : MtimeSorted idx.drainEntriesLocked.entries)
    {startUnix endUnix limit : ℤ}
    (hover : NoOverflow idx.drainEntriesLocked.entries startUnix endUnix limit)
    (exclude : List Key) (skip : Option (Key → Bool)) :
    nearbyKeys idx startUnix endUnix limit exclude skip
      = (some (idx.nearbyKeys startUnix endUnix limit.toNat exclude skip).1,
          (idx.nearbyKeys startUnix endUnix limit.toNat exclude skip).2) := by
  have hbudget : limit.toNat * nearbyScanFactor = (limit * nearbyScanFactor).toNat := by
    have hfactor : nearbyScanFactor = 8 := rfl
    rw [hfactor]
    omega
  rw [Index.nearbyKeys, nearbyKeysLocked_eq_scanNearby hsorted rfl, hbudget, nearbyKeys]
  split_ifs with hdrained
  · have hsame : idx.drainEntriesLocked = idx := by
      rw [Index.drainEntriesLocked, if_pos hdrained, ← hdrained]
    rw [hsame] at hsorted hover ⊢
    rw [nearbyKeysLocked_eq hsorted hover]
  · dsimp only
    rw [nearbyKeysLocked_eq hsorted hover]

/-- On a list that is drained and sorted, the search returns what sorting the window and taking from
it returns. -/
theorem nearbyKeys_eq_sortAndTake {idx : Index} (hdrained : idx.pendingEntries = [])
    (hsorted : MtimeSorted idx.entries) {startUnix endUnix limit : ℤ}
    (hover : NoOverflow idx.entries startUnix endUnix limit) (exclude : List Key)
    (skip : Option (Key → Bool)) :
    nearbyKeys idx startUnix endUnix limit exclude skip
      = (some (sortAndTake idx.entries startUnix endUnix limit exclude skip), idx) := by
  rw [nearbyKeys, if_pos hdrained, nearbyKeysLocked_eq hsorted hover, scanNearby_eq_takeWanted]
  rfl

/-- Five objects, two of them at one distance before and after the time `20`. -/
def fiveObjects : Index :=
  { Index.empty false 0 0 1 with
    entries := [⟨newCompactKey (ascii "a"), 10⟩, ⟨newCompactKey (ascii "b"), 15⟩,
      ⟨newCompactKey (ascii "c"), 20⟩, ⟨newCompactKey (ascii "d"), 25⟩,
      ⟨newCompactKey (ascii "e"), 25⟩] }

/-- The middle of the window is excluded, and of the two at one distance the earlier one goes
first; the caller does not want `d`. -/
theorem nearbyKeys_eq_sortAndTake_fiveObjects :
    (nearbyKeys fiveObjects 0 40 2 [ascii "c"] (some (· = ascii "d"))).1
      = some [ascii "b", ascii "e"] := by
  have hover : NoOverflow fiveObjects.entries 0 40 2 :=
    ⟨by decide, by decide +kernel, by decide⟩
  rw [nearbyKeys_eq_sortAndTake rfl (by decide +kernel) hover]
  decide +kernel

end NearbySearch

end GoBuildCache
