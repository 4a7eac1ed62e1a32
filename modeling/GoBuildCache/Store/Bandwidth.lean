import GoBuildCache.Foundation.Tally
import GoBuildCache.Index.State

/-!
# Bandwidth

The server keeps how many bytes it has sent in each of the last 300 seconds, by module, in a ring of
buckets. `record` files a response under the second it was served in; a slot of the ring is reset
when its second has passed. A bucket has at most 32 names: what comes later goes to the remainder
`(other)`. `window` reads the ring out for the chart: it ranks the modules over the whole window,
keeps the first ones and sums the others into the remainder.

Counts are `int64`. If the bytes of each second sum to less than `2 ^ 63`, the window adds up, and
only then (`window_addsUp_iff`).
-/

open ByteString

namespace GoBuildCache

/-- The width of a bucket. -/
def bandwidthBucketSeconds : ℕ := 1

/-- How many buckets the ring has. -/
def bandwidthBucketCount : ℕ := 300

/-- The window that the ring answers for. -/
def bandwidthRetentionSeconds : ℕ := bandwidthBucketSeconds * bandwidthBucketCount

/-- How many names a bucket has at most, the remainder included. -/
def bandwidthModuleCap : ℕ := 32

/-- The remainder. -/
def bandwidthOtherModule : Bytes := ascii "(other)"

/-- The name of bytes that belong to no module. -/
def bandwidthUnknownModule : Bytes := ascii "(unknown)"

/-- The bytes of one response. -/
structure BandwidthSample where
  /-- Whether the response was an index. -/
  index : Bool
  /-- The module they belong to. -/
  module : Bytes
  /-- How many there are. -/
  bytes : ℤ

/-- One second. -/
structure BandwidthBucket where
  /-- The second. -/
  start : ℤ
  /-- The bytes of indexes. -/
  index : ℤ
  /-- The bytes of each module. -/
  modules : Tally Bytes

/-- One second as the chart reads it. -/
structure BandwidthPoint where
  /-- The second. -/
  start : ℤ
  /-- All bytes. -/
  total : ℤ
  /-- The bytes of indexes. -/
  index : ℤ
  /-- The bytes of each band. -/
  modules : Tally Bytes

/-- What the chart reads. -/
structure BandwidthWindow where
  /-- The width of a bucket. -/
  bucketSeconds : ℕ
  /-- The seconds covered. -/
  retentionSeconds : ℕ
  /-- The names of the bands. -/
  bands : List Bytes
  /-- The seconds. -/
  points : List BandwidthPoint

/-- `t[name] += n`. -/
def bump (t : Tally Bytes) (name : Bytes) (n : ℤ) : Tally Bytes :=
  t.insert name (int64 (t.count name + n))

/-- The position of a second in the ring, as it is computed. -/
def slotNumber (unixSecond : ℤ) : ℤ :=
  let slot := unixSecond.tmod bandwidthBucketCount
  if slot < 0 then slot + bandwidthBucketCount else slot

lemma slotNumber_eq (unixSecond : ℤ) : slotNumber unixSecond = unixSecond % 300 := by
  simp only [slotNumber, bandwidthBucketCount, Int.tmod_eq_emod]
  split_ifs <;> omega

/-- The position of a second in the ring. -/
def bandwidthSlot (unixSecond : ℤ) : Fin bandwidthBucketCount :=
  ⟨(slotNumber unixSecond).toNat, by
    rw [slotNumber_eq, bandwidthBucketCount]
    omega⟩

/-- The ring. -/
structure BandwidthStore where
  /-- Its buckets. -/
  buckets : Fin bandwidthBucketCount → BandwidthBucket

namespace BandwidthStore

/-- An empty ring. -/
def new : BandwidthStore :=
  ⟨fun _ => ⟨0, 0, ∅⟩⟩

/-- The bucket that a second is filed in. -/
def bucketAt (b : BandwidthStore) (unixSecond : ℤ) : BandwidthBucket :=
  let bucket := b.buckets (bandwidthSlot unixSecond)
  if bucket.start ≠ unixSecond then ⟨unixSecond, 0, ∅⟩ else bucket

/-- The name that a sample is filed under. -/
def filedUnder (modules : Tally Bytes) (module : Bytes) : Bytes :=
  let module := if module = [] then bandwidthUnknownModule else module
  if module ∉ modules ∧ modules.keys.card ≥ bandwidthModuleCap - 1 then bandwidthOtherModule
  else module

/-- Files a sample in its bucket. -/
def file (bucket : BandwidthBucket) (s : BandwidthSample) : BandwidthBucket :=
  if s.index then { bucket with index := int64 (bucket.index + s.bytes) }
  else
    { bucket with
      modules := bump bucket.modules (filedUnder bucket.modules s.module) s.bytes }

/-- Files the bytes of a response under the second that the clock shows. -/
def record (b : BandwidthStore) (second : ℤ) (s : BandwidthSample) : BandwidthStore :=
  if s.bytes ≤ 0 then b
  else ⟨Function.update b.buckets (bandwidthSlot second) (file (b.bucketAt second) s)⟩

/-- The bucket of a second, if the ring still has it. -/
def bucketAtRead (b : BandwidthStore) (unixSecond : ℤ) : Option BandwidthBucket :=
  let bucket := b.buckets (bandwidthSlot unixSecond)
  if bucket.start ≠ unixSecond then none else some bucket

/-- The orders in which the maps are listed when the window is read. -/
structure Orders where
  /-- A bucket, when the modules are ranked. -/
  ranking : ℕ → MapOrder Bytes
  /-- The totals. -/
  totals : MapOrder Bytes
  /-- A bucket, when its point is made. -/
  points : ℕ → MapOrder Bytes

/-- The second of a point. -/
def pointStart (newest : ℤ) (i : ℕ) : ℤ :=
  newest - ((bandwidthBucketCount : ℤ) - 1 - i)

/-- The bytes of each module over the whole window. -/
def totals (b : BandwidthStore) (orders : Orders) (newest : ℤ) : Tally Bytes :=
  (List.range bandwidthBucketCount).foldl
    (fun totals i =>
      match b.bucketAtRead (pointStart newest i) with
      | none => totals
      | some bucket =>
        ((orders.ranking i).values bucket.modules.keys).foldl
          (fun totals module => bump totals module (bucket.modules.count module)) totals)
    ∅

/-- Whether a module is ranked before another one: bytes first, name second. -/
def ranksBefore (totals : Tally Bytes) (m m' : Bytes) : Bool :=
  if totals.count m ≠ totals.count m' then decide (totals.count m > totals.count m')
  else decide (m < m')

/-- The modules that have a band of their own. -/
def ranked (totals : Tally Bytes) (order : MapOrder Bytes) (topModules : ℤ) : List Bytes :=
  let topModules := if topModules < 0 then 0 else topModules
  let names := (order.values totals.keys).filter (· ≠ bandwidthOtherModule)
  let sorted := names.insertionSort fun m m' => ranksBefore totals m m' = true
  if (sorted.length : ℤ) > topModules then sorted.take topModules.toNat else sorted

/-- What has been added up for a point. -/
structure PointSums where
  /-- All bytes. -/
  total : ℤ
  /-- The bytes of modules that have no band of their own. -/
  remainder : ℤ
  /-- The bytes of the others. -/
  modules : Tally Bytes

/-- Adds a module to a point. -/
def addModule (named : List Bytes) (modules : Tally Bytes) (p : PointSums) (module : Bytes) :
    PointSums :=
  let n := modules.count module
  if module ∉ named then
    { p with total := int64 (p.total + n), remainder := int64 (p.remainder + n) }
  else { p with total := int64 (p.total + n), modules := bump p.modules module n }

/-- The point of a second. -/
def point (named : List Bytes) (order : MapOrder Bytes) (start : ℤ) :
    Option BandwidthBucket → BandwidthPoint
  | none => ⟨start, 0, 0, ∅⟩
  | some bucket =>
    let sums := (order.values bucket.modules.keys).foldl (addModule named bucket.modules)
      ⟨bucket.index, 0, ∅⟩
    ⟨start, sums.total, bucket.index,
      if sums.remainder > 0 then bump sums.modules bandwidthOtherModule sums.remainder
      else sums.modules⟩

/-- Reads the ring out. -/
def window (b : BandwidthStore) (orders : Orders) (newest topModules : ℤ) : BandwidthWindow :=
  let named := ranked (b.totals orders newest) orders.totals topModules
  { bucketSeconds := bandwidthBucketSeconds
    retentionSeconds := bandwidthRetentionSeconds
    bands := named ++ [bandwidthOtherModule]
    points := (List.range bandwidthBucketCount).map fun i =>
      point named (orders.points i) (pointStart newest i)
        (b.bucketAtRead (pointStart newest i)) }

/-- The ring after some records, each with the second that the clock showed. -/
def recorded (records : List (ℤ × BandwidthSample)) : BandwidthStore :=
  records.foldl (fun b r => b.record r.1 r.2) new

/-! ## Counts that do not wrap -/

/-- The counts of a tally are not negative. -/
def Counts (t : Tally Bytes) : Prop :=
  ∀ name, 0 ≤ t.count name

lemma counts_empty : Counts ∅ := by
  intro name
  simp [Tally.count]

lemma Counts.total_nonneg {t : Tally Bytes} (h : Counts t) : 0 ≤ t.total :=
  Finset.sum_nonneg fun name _ => h name

lemma Counts.bump {t : Tally Bytes} {n : ℤ} (h : Counts t) (hn : 0 ≤ n)
    (hfit : t.total + n < 2 ^ 63) (name : Bytes) :
    Counts (bump t name n) ∧ (bump t name n).total = t.total + n := by
  have hcount := h name
  have hle := Tally.count_le_total h name
  have hsum : int64 (t.count name + n) = t.count name + n :=
    int64_eq (by omega) (by omega)
  rw [GoBuildCache.bump, hsum]
  constructor
  · intro other
    rw [Tally.count_insert]
    split_ifs
    · omega
    · exact h other
  · rw [Tally.total_insert]
    ring

/-! ## Buckets -/

/-- All bytes of a bucket. -/
def bucketSum (bucket : BandwidthBucket) : ℤ :=
  bucket.index + bucket.modules.total

/-- The counts of a bucket are not negative. -/
def Filled (bucket : BandwidthBucket) : Prop :=
  0 ≤ bucket.index ∧ Counts bucket.modules

lemma Filled.file {bucket : BandwidthBucket} {s : BandwidthSample} (h : Filled bucket)
    (hpos : 0 < s.bytes) (hfit : bucketSum bucket + s.bytes < 2 ^ 63) :
    Filled (file bucket s) ∧ bucketSum (file bucket s) = bucketSum bucket + s.bytes := by
  have hindex := h.1
  have htotal := h.2.total_nonneg
  simp only [bucketSum] at hfit
  rw [BandwidthStore.file]
  split_ifs
  · have hsum : int64 (bucket.index + s.bytes) = bucket.index + s.bytes :=
      int64_eq (by omega) (by omega)
    refine ⟨⟨?_, h.2⟩, ?_⟩
    · simp only [hsum]
      omega
    · simp only [bucketSum, hsum]
      ring
  · obtain ⟨hcounts, hsum⟩ :=
      h.2.bump hpos.le (by omega) (filedUnder bucket.modules s.module)
    refine ⟨⟨hindex, hcounts⟩, ?_⟩
    simp only [bucketSum, hsum]
    ring

/-- A bucket has room for its names: the last place is for the remainder. -/
def Capped (bucket : BandwidthBucket) : Prop :=
  bucket.modules.keys.card ≤ 31 ∨
    bandwidthOtherModule ∈ bucket.modules.keys ∧ bucket.modules.keys.card ≤ 32

lemma Capped.card_le {bucket : BandwidthBucket} (h : Capped bucket) :
    bucket.modules.keys.card ≤ 32 := by
  rcases h with h | h
  · omega
  · exact h.2

/-- A new name goes to the remainder unless there is room. -/
lemma filedUnder_cases {modules : Tally Bytes} {module : Bytes}
    (h : filedUnder modules module ∉ modules.keys) :
    filedUnder modules module = bandwidthOtherModule ∨ modules.keys.card < 31 := by
  simp only [filedUnder] at h ⊢
  generalize (if module = [] then bandwidthUnknownModule else module) = name at h ⊢
  split_ifs at h ⊢ with hfull
  · exact .inl rfl
  · refine .inr (not_le.mp fun hge => hfull ⟨?_, hge⟩)
    exact fun hmem => h (Finmap.mem_keys.mpr hmem)

lemma Capped.file {bucket : BandwidthBucket} (h : Capped bucket) (s : BandwidthSample) :
    Capped (file bucket s) := by
  rw [BandwidthStore.file]
  split_ifs
  · exact h
  simp only [Capped, bump, Tally.keys_insert]
  by_cases hname : filedUnder bucket.modules s.module ∈ bucket.modules.keys
  · rw [Finset.insert_eq_of_mem hname]
    exact h
  rw [Finset.card_insert_of_notMem hname]
  rcases filedUnder_cases hname with hother | hroom
  · rw [hother] at hname ⊢
    rcases h with hcard | ⟨hmem, -⟩
    · exact .inr ⟨Finset.mem_insert_self _ _, by omega⟩
    · exact absurd hmem hname
  · exact .inl (by omega)

/-! ## The ring -/

/-- The sum of the positive byte counts of a second. -/
def servedIn (records : List (ℤ × BandwidthSample)) (second : ℤ) : ℤ :=
  ((records.filter fun r => r.1 = second ∧ 0 < r.2.bytes).map fun r => r.2.bytes).sum

lemma servedIn_concat (records : List (ℤ × BandwidthSample)) (y : ℤ) (s : BandwidthSample)
    (second : ℤ) :
    servedIn (records ++ [(y, s)]) second =
      servedIn records second + if y = second ∧ 0 < s.bytes then s.bytes else 0 := by
  by_cases h : y = second ∧ 0 < s.bytes <;> simp [servedIn, h]

lemma servedIn_eq_zero {records : List (ℤ × BandwidthSample)} {second : ℤ}
    (h : ∀ r ∈ records, r.1 ≠ second) : servedIn records second = 0 := by
  have hnone : records.filter (fun r => r.1 = second ∧ 0 < r.2.bytes) = [] := by
    rw [List.filter_eq_nil_iff]
    intro r hr
    simp [h r hr]
  rw [servedIn, hnone, List.map_nil, List.sum_nil]

variable {b : BandwidthStore} {y x : ℤ} {s : BandwidthSample}

lemma bandwidthSlot_eq_iff : bandwidthSlot x = bandwidthSlot y ↔ x % 300 = y % 300 := by
  simp only [bandwidthSlot, Fin.mk.injEq, slotNumber_eq]
  omega

/-- An empty bucket. -/
def emptyBucket (x : ℤ) : BandwidthBucket := ⟨x, 0, ∅⟩

lemma filled_emptyBucket (x : ℤ) : Filled (emptyBucket x) :=
  ⟨le_rfl, counts_empty⟩

lemma bucketSum_emptyBucket (x : ℤ) : bucketSum (emptyBucket x) = 0 := by
  simp [bucketSum, emptyBucket]

lemma bucketAt_new (x : ℤ) : new.bucketAt x = emptyBucket x := by
  rw [bucketAt, emptyBucket]
  by_cases h : (0 : ℤ) = x
  · subst h
    rfl
  · exact if_pos h

lemma start_file (bucket : BandwidthBucket) (s : BandwidthSample) :
    (file bucket s).start = bucket.start := by
  rw [file]
  split_ifs <;> rfl

lemma start_bucketAt (b : BandwidthStore) (x : ℤ) : (b.bucketAt x).start = x := by
  simp only [bucketAt]
  split_ifs with h
  · rfl
  · exact not_not.mp h

/-- What a record does to the bucket of a second. -/
lemma bucketAt_record (hpos : 0 < s.bytes) :
    (b.record y s).bucketAt x =
      if y = x then file (b.bucketAt x) s
      else if x % 300 = y % 300 then emptyBucket x
      else b.bucketAt x := by
  have hrecord : b.record y s =
      ⟨Function.update b.buckets (bandwidthSlot y) (file (b.bucketAt y) s)⟩ := if_neg hpos.not_ge
  rw [hrecord, bucketAt]
  simp only [Function.update_apply, bandwidthSlot_eq_iff]
  by_cases hslot : x % 300 = y % 300
  · rw [if_pos hslot, start_file, start_bucketAt]
    by_cases hyx : y = x
    · subst hyx
      rw [if_pos rfl, if_neg (not_not.mpr rfl)]
    · rw [if_neg hyx, if_pos hslot, if_pos hyx, emptyBucket]
  · have hyx : y ≠ x := by
      rintro rfl
      exact hslot rfl
    rw [if_neg hslot, if_neg hyx, if_neg hslot, bucketAt]

/-- A bucket that has not been reset is exact: it has all bytes of its second, if they fit. -/
lemma bucketAt_recorded (records : List (ℤ × BandwidthSample))
    (hclock : (records.map Prod.fst).Pairwise (· ≤ ·)) (hkept : ∀ r ∈ records, r.1 < x + 300)
    (hfit : servedIn records x < 2 ^ 63) :
    Filled ((recorded records).bucketAt x) ∧
      bucketSum ((recorded records).bucketAt x) = servedIn records x := by
  induction records using List.reverseRecOn with
  | nil =>
    have hnew : (recorded []).bucketAt x = emptyBucket x := bucketAt_new x
    rw [hnew, bucketSum_emptyBucket]
    exact ⟨filled_emptyBucket x, rfl⟩
  | append_singleton records r ih =>
    obtain ⟨y, s⟩ := r
    rw [servedIn_concat] at hfit ⊢
    rw [List.map_append, List.pairwise_append] at hclock
    obtain ⟨hclock, -, hlast⟩ := hclock
    have hrecorded : recorded (records ++ [(y, s)]) = (recorded records).record y s := by
      simp [recorded]
    have hkept' : ∀ r ∈ records, r.1 < x + 300 := fun r hr =>
      hkept r (List.mem_append_left _ hr)
    rw [hrecorded]
    by_cases hpos : 0 < s.bytes
    swap
    · -- nothing is recorded
      rw [if_neg fun h => hpos h.2, add_zero] at hfit ⊢
      rw [record, if_pos (not_lt.mp hpos)]
      exact ih hclock hkept' hfit
    rw [bucketAt_record hpos]
    by_cases hyx : y = x
    · have hadd : (if y = x ∧ 0 < s.bytes then s.bytes else 0) = s.bytes := if_pos ⟨hyx, hpos⟩
      rw [hadd] at hfit ⊢
      rw [if_pos hyx]
      obtain ⟨hfilled, hsum⟩ := ih hclock hkept' (by omega)
      rw [← hsum] at hfit ⊢
      exact hfilled.file hpos hfit
    · have hadd : (if y = x ∧ 0 < s.bytes then s.bytes else 0) = 0 := if_neg fun h => hyx h.1
      rw [hadd, add_zero] at hfit ⊢
      rw [if_neg hyx]
      split_ifs with hslot
      · -- the slot is reset for an earlier second, before any record of this one
        have hy := hkept (y, s) (List.mem_append_right _ (List.mem_singleton_self _))
        have hnone : servedIn records x = 0 := by
          refine servedIn_eq_zero ?_
          intro r hr
          have hle := hlast r.1 (List.mem_map_of_mem hr) y (by simp)
          simp only at hy
          omega
        rw [hnone, bucketSum_emptyBucket]
        exact ⟨filled_emptyBucket x, rfl⟩
      · exact ih hclock hkept' hfit

/-- What every record keeps of a bucket. -/
structure Bounded (bucket : BandwidthBucket) : Prop where
  /-- There are not too many names. -/
  capped : Capped bucket
  /-- The bytes of indexes are an `int64`. -/
  index_lt : bucket.index < 2 ^ 63

lemma bounded_emptyBucket (x : ℤ) : Bounded (emptyBucket x) :=
  ⟨.inl (by simp [emptyBucket]), by simp [emptyBucket]⟩

lemma Bounded.file {bucket : BandwidthBucket} (h : Bounded bucket) (s : BandwidthSample) :
    Bounded (file bucket s) := by
  refine ⟨h.capped.file s, ?_⟩
  rw [BandwidthStore.file]
  split_ifs
  · exact int64_lt _
  · exact h.index_lt

lemma bounded_bucketAt (h : ∀ slot, Bounded (b.buckets slot)) (x : ℤ) : Bounded (b.bucketAt x) := by
  simp only [bucketAt]
  split_ifs
  · exact bounded_emptyBucket x
  · exact h _

lemma bounded_recorded (records : List (ℤ × BandwidthSample)) (slot : Fin bandwidthBucketCount) :
    Bounded ((recorded records).buckets slot) := by
  induction records using List.reverseRecOn generalizing slot with
  | nil => exact bounded_emptyBucket 0
  | append_singleton records r ih =>
    have hrecorded : recorded (records ++ [r]) = (recorded records).record r.1 r.2 := by
      simp [recorded]
    rw [hrecorded, record]
    split_ifs
    · exact ih slot
    · simp only [Function.update_apply]
      split_ifs
      · exact (bounded_bucketAt ih r.1).file r.2
      · exact ih slot

/-! ## Points -/

/-- What has been added up for a point so far. -/
structure Sums (index added : ℤ) (p : PointSums) : Prop where
  /-- All bytes. -/
  total : p.total = index + added
  /-- The bands and the remainder. -/
  bands : p.remainder + p.modules.total = added
  /-- Nothing is negative. -/
  remainder_nonneg : 0 ≤ p.remainder
  /-- Nothing is negative. -/
  counts : Counts p.modules

variable {named : List Bytes} {modules : Tally Bytes} {index added : ℤ} {p : PointSums}

lemma Sums.addModule (h : Sums index added p) (hindex : 0 ≤ index) (module : Bytes)
    (hn : 0 ≤ modules.count module) (hfit : index + added + modules.count module < 2 ^ 63) :
    Sums index (added + modules.count module) (addModule named modules p module) := by
  have htotal := h.total
  have hbands := h.bands
  have hremainder := h.remainder_nonneg
  have hsum := h.counts.total_nonneg
  have hall : int64 (p.total + modules.count module) = p.total + modules.count module :=
    int64_eq (by omega) (by omega)
  rw [BandwidthStore.addModule]
  split_ifs
  · obtain ⟨hcounts, hbump⟩ := h.counts.bump hn (by omega) module
    refine ⟨?_, ?_, hremainder, hcounts⟩
    · simp only [hall]
      omega
    · simp only [hbump]
      omega
  · have hrest : int64 (p.remainder + modules.count module) =
        p.remainder + modules.count module :=
      int64_eq (by omega) (by omega)
    refine ⟨?_, ?_, ?_, h.counts⟩ <;> simp only [hall, hrest] <;> omega

lemma Sums.foldl (named : List Bytes) (hcounts : Counts modules) (hindex : 0 ≤ index)
    (names : List Bytes) : ∀ (added : ℤ) (p : PointSums), Sums index added p →
      index + added + (names.map modules.count).sum < 2 ^ 63 →
      Sums index (added + (names.map modules.count).sum)
        (names.foldl (BandwidthStore.addModule named modules) p) := by
  induction names with
  | nil =>
    intro added p h _
    simpa using h
  | cons name names ih =>
    intro added p h hfit
    have hn := hcounts name
    have hrest : 0 ≤ (names.map modules.count).sum := by
      refine List.sum_nonneg ?_
      intro n hn
      obtain ⟨other, -, rfl⟩ := List.mem_map.mp hn
      exact hcounts other
    rw [List.map_cons, List.sum_cons] at hfit ⊢
    rw [List.foldl_cons, ← add_assoc]
    exact ih _ _ (h.addModule hindex name hn (by omega)) (by omega)

/-- The point of a bucket whose bytes fit adds up. -/
lemma point_exact {bucket : BandwidthBucket} (h : Filled bucket) (hfit : bucketSum bucket < 2 ^ 63)
    (named : List Bytes) (order : MapOrder Bytes) (x : ℤ) :
    (point named order x (some bucket)).total = bucketSum bucket ∧
      (point named order x (some bucket)).total =
        (point named order x (some bucket)).index +
          (point named order x (some bucket)).modules.total := by
  have hstart : Sums bucket.index 0 ⟨bucket.index, 0, ∅⟩ :=
    ⟨(add_zero _).symm, by simp, le_rfl, counts_empty⟩
  have hloop := Sums.foldl named h.2 h.1 (order.values bucket.modules.keys) 0 _ hstart
    (by rw [Tally.sum_values, add_zero]; exact hfit)
  rw [Tally.sum_values, zero_add] at hloop
  have hbands := hloop.bands
  have hindex := h.1
  simp only [bucketSum] at hfit
  simp only [point]
  refine ⟨hloop.total, ?_⟩
  rw [hloop.total]
  split_ifs with hremainder
  · obtain ⟨-, hsum⟩ := hloop.counts.bump hremainder.le (by omega) bandwidthOtherModule
    rw [hsum]
    omega
  · have hzero := hloop.remainder_nonneg
    omega

/-- What is in a band of its own is named, and a total is an `int64`. -/
lemma foldl_addModule (named : List Bytes) (modules : Tally Bytes) (names : List Bytes) :
    ∀ p : PointSums, p.total < 2 ^ 63 → (∀ name ∈ p.modules, name ∈ named) →
      (names.foldl (addModule named modules) p).total < 2 ^ 63 ∧
        ∀ name ∈ (names.foldl (addModule named modules) p).modules, name ∈ named := by
  induction names with
  | nil => exact fun p hlt hnamed => ⟨hlt, hnamed⟩
  | cons module names ih =>
    intro p hlt hnamed
    refine ih _ ?_ ?_
    · rw [addModule]
      split_ifs <;> exact int64_lt _
    · rw [addModule]
      split_ifs with hmem
      · intro name hname
        rcases Finmap.mem_insert.mp hname with rfl | hname
        · exact hmem
        · exact hnamed name hname
      · exact hnamed

lemma point_bounded {bucket : BandwidthBucket} (h : Bounded bucket) (named : List Bytes)
    (order : MapOrder Bytes) (x : ℤ) :
    (point named order x (some bucket)).total < 2 ^ 63 ∧
      ∀ name ∈ (point named order x (some bucket)).modules,
        name ∈ named ++ [bandwidthOtherModule] := by
  obtain ⟨hlt, hnamed⟩ := foldl_addModule named bucket.modules (order.values bucket.modules.keys)
    ⟨bucket.index, 0, ∅⟩ h.index_lt fun name hname => absurd hname Finmap.notMem_empty
  refine ⟨hlt, ?_⟩
  intro name hname
  simp only [point] at hname
  split_ifs at hname
  · rcases Finmap.mem_insert.mp hname with rfl | hname
    · exact List.mem_append_right _ (List.mem_singleton_self _)
    · exact List.mem_append_left _ (hnamed name hname)
  · exact List.mem_append_left _ (hnamed name hname)

/-- A second that the ring does not have is one without bytes. -/
lemma point_bucketAtRead (b : BandwidthStore) (named : List Bytes) (order : MapOrder Bytes)
    (x : ℤ) :
    point named order x (b.bucketAtRead x) = point named order x (some (b.bucketAt x)) := by
  simp only [bucketAtRead, bucketAt]
  split_ifs with h
  · have hnone : order.values ∅ = [] := by
      rw [← Multiset.coe_eq_zero, order.values_eq]
      rfl
    simp [point, hnone]
  · rfl

/-! ## The window -/

/-- The window adds up. -/
structure AddsUp (records : List (ℤ × BandwidthSample)) (newest topModules : ℤ)
    (b : BandwidthStore) (w : BandwidthWindow) : Prop where
  /-- The points are the last 300 seconds. -/
  starts : w.points.map (·.start) = (List.range 300).map fun i : ℕ => newest - 299 + i
  /-- Each has all the bytes of its second. -/
  total : ∀ p ∈ w.points, p.total = servedIn records p.start
  /-- The bands and the indexes add up to them. -/
  bands : ∀ p ∈ w.points, p.total = p.index + p.modules.total
  /-- The bands of a point are listed. -/
  listed : ∀ p ∈ w.points, ∀ name ∈ p.modules, name ∈ w.bands
  /-- No band is listed twice. -/
  nodup : w.bands.Nodup
  /-- The remainder is the last one, and there are not too many others. -/
  last : ∃ others, w.bands = others ++ [bandwidthOtherModule] ∧
    (others.length : ℤ) ≤ max 0 topModules
  /-- No bucket has too many names. -/
  tracked : ∀ slot, (b.buckets slot).modules.keys.card ≤ 32

lemma ranked_spec (totals : Tally Bytes) (order : MapOrder Bytes) (topModules : ℤ) :
    (ranked totals order topModules ++ [bandwidthOtherModule]).Nodup ∧
      ((ranked totals order topModules).length : ℤ) ≤ max 0 topModules := by
  have htop : (if topModules < 0 then 0 else topModules) = max 0 topModules := by
    split_ifs <;> omega
  simp only [ranked, htop]
  set names := (order.values totals.keys).filter (· ≠ bandwidthOtherModule) with hnames
  set sorted := names.insertionSort fun m m' => ranksBefore totals m m' = true
  have hperm : sorted.Perm names := List.perm_insertionSort _ names
  have hvalues : (order.values totals.keys).Nodup := by
    rw [← Multiset.coe_nodup, order.values_eq]
    exact totals.keys.nodup
  have hall : (sorted ++ [bandwidthOtherModule]).Nodup := by
    rw [List.nodup_append, hperm.nodup_iff]
    refine ⟨hvalues.filter _, List.nodup_singleton _, ?_⟩
    intro name hname other hother
    rw [hperm.mem_iff, hnames, List.mem_filter] at hname
    rw [List.mem_singleton.mp hother]
    simpa using hname.2
  split_ifs with hmany
  · refine ⟨hall.sublist ((List.take_sublist _ _).append (List.Sublist.refl _)), ?_⟩
    rw [List.length_take]
    omega
  · exact ⟨hall, not_lt.mp hmany⟩

lemma mem_points {newest topModules : ℤ} {orders : Orders} {p : BandwidthPoint} :
    p ∈ (b.window orders newest topModules).points ↔ ∃ i < 300,
      p = point (ranked (b.totals orders newest) orders.totals topModules) (orders.points i)
        (pointStart newest i) (some (b.bucketAt (pointStart newest i))) := by
  simp only [window, List.mem_map, List.mem_range, point_bucketAtRead, bandwidthBucketCount,
    eq_comm]

lemma start_point (named : List Bytes) (order : MapOrder Bytes) (x : ℤ)
    (bucket : Option BandwidthBucket) : (point named order x bucket).start = x := by
  cases bucket <;> rfl

/-- A window that is read after its records adds up if and only if the bytes of each of its seconds
are less than `2 ^ 63`. -/
theorem window_addsUp_iff (records : List (ℤ × BandwidthSample))
    (hclock : (records.map Prod.fst).Pairwise (· ≤ ·)) (newest : ℤ)
    (hnewest : ∀ r ∈ records, r.1 ≤ newest) (orders : Orders) (topModules : ℤ) :
    AddsUp records newest topModules (recorded records)
        ((recorded records).window orders newest topModules) ↔
      ∀ second, newest - 300 < second → second ≤ newest → servedIn records second < 2 ^ 63 := by
  constructor
  · intro h second hlow hhigh
    obtain ⟨i, hi⟩ : ∃ i : ℕ, second = pointStart newest i := by
      refine ⟨(second - newest + 299).toNat, ?_⟩
      simp only [pointStart, bandwidthBucketCount]
      omega
    have hlt : i < 300 := by
      simp only [pointStart, bandwidthBucketCount] at hi
      omega
    have htotal := h.total _ (mem_points.mpr ⟨i, hlt, rfl⟩)
    rw [start_point, ← hi] at htotal
    rw [← htotal]
    exact (point_bounded (bounded_bucketAt (bounded_recorded records) second) _ _ _).1
  · intro hfit
    obtain ⟨hnodup, hlength⟩ :=
      ranked_spec ((recorded records).totals orders newest) orders.totals topModules
    have hexact : ∀ i < 300, servedIn records (pointStart newest i) < 2 ^ 63 ∧
        Filled ((recorded records).bucketAt (pointStart newest i)) ∧
        bucketSum ((recorded records).bucketAt (pointStart newest i)) =
          servedIn records (pointStart newest i) := by
      intro i hi
      have hlt := hfit (pointStart newest i)
        (by simp only [pointStart, bandwidthBucketCount]; omega)
        (by simp only [pointStart, bandwidthBucketCount]; omega)
      refine ⟨hlt, bucketAt_recorded records hclock ?_ hlt⟩
      intro r hr
      have hle := hnewest r hr
      simp only [pointStart, bandwidthBucketCount]
      omega
    refine ⟨?_, ?_, ?_, ?_, hnodup, ⟨_, rfl, hlength⟩,
      fun slot => (bounded_recorded records slot).capped.card_le⟩
    · simp only [window, List.map_map, bandwidthBucketCount]
      refine List.map_congr_left ?_
      intro i _
      simp only [Function.comp_apply, start_point, pointStart, bandwidthBucketCount]
      ring
    · intro p hp
      obtain ⟨i, hi, rfl⟩ := mem_points.mp hp
      obtain ⟨hlt, hfilled, hsum⟩ := hexact i hi
      rw [start_point, ← hsum]
      exact (point_exact hfilled (hsum ▸ hlt) _ _ _).1
    · intro p hp
      obtain ⟨i, hi, rfl⟩ := mem_points.mp hp
      obtain ⟨hlt, hfilled, hsum⟩ := hexact i hi
      exact (point_exact hfilled (hsum ▸ hlt) _ _ _).2
    · intro p hp
      obtain ⟨i, -, rfl⟩ := mem_points.mp hp
      exact (point_bounded (bounded_bucketAt (bounded_recorded records) _) _ _ _).2

/-- All maps are listed in the same order. -/
def sameOrders (order : MapOrder Bytes) : Orders :=
  ⟨fun _ => order, order, fun _ => order⟩

/-- Two responses for one module, and one of an index, within two seconds. -/
def threeResponses : List (ℤ × BandwidthSample) :=
  [(500, ⟨false, ascii "m", 7⟩), (500, ⟨true, [], 20⟩), (501, ⟨false, ascii "m", 5⟩)]

theorem window_addsUp_threeResponses :
    AddsUp threeResponses 501 8 (recorded threeResponses)
      ((recorded threeResponses).window (sameOrders (keyOrder Bytes)) 501 8) := by
  refine (window_addsUp_iff threeResponses (by decide) 501 (by decide)
    (sameOrders (keyOrder Bytes)) 8).mpr ?_
  intro second _ _
  by_cases hfirst : (500 : ℤ) = second
  · subst hfirst
    decide
  · by_cases hsecond : (501 : ℤ) = second
    · subst hsecond
      decide
    · simp [servedIn, threeResponses, hfirst, hsecond]

/-- Two responses of `2 ^ 62` bytes within one second. -/
def hugeResponses : List (ℤ × BandwidthSample) :=
  [(500, ⟨false, ascii "m", 2 ^ 62⟩), (500, ⟨false, ascii "m", 2 ^ 62⟩)]

/-- The total of their second is negative. -/
theorem window_total_negative :
    (((recorded hugeResponses).window (sameOrders (keyOrder Bytes)) 500 8).points.getLast?.map
        fun p => (p.start, p.total)) = some (500, -2 ^ 63) ∧
      ¬ AddsUp hugeResponses 500 8 (recorded hugeResponses)
        ((recorded hugeResponses).window (sameOrders (keyOrder Bytes)) 500 8) := by
  have hlast : (((recorded hugeResponses).window (sameOrders (keyOrder Bytes)) 500
      8).points.getLast?.map fun p => (p.start, p.total)) = some (500, -2 ^ 63) := by
    decide +kernel
  refine ⟨hlast, ?_⟩
  intro h
  obtain ⟨p, hp, heq⟩ := Option.map_eq_some_iff.mp hlast
  obtain ⟨hstart, htotal⟩ := Prod.mk.inj heq
  have hserved := h.total p (List.mem_of_getLast? hp)
  rw [hstart, htotal] at hserved
  exact absurd hserved (by decide)

end BandwidthStore

end GoBuildCache
