import Mathlib

/-!
# Histograms and their quantiles

A histogram is a map from buckets to sizes, filled by adding one sample after the other. Walking
through the buckets in ascending order and adding their sizes up finds the first bucket at which a
given amount is reached (`coveringBucket`). In terms of the samples: those in earlier buckets do not
reach the amount, and together with those of the bucket they do (`quantile_spec`).
-/

namespace Histogram

variable {β : Type*} [LinearOrder β]

/-- A map from buckets to sizes, with the buckets that occur. -/
structure Hist (β : Type*) where
  /-- The buckets that have been added to. -/
  keys : List β
  /-- The size of a bucket, which is zero for any other. -/
  size : β → ℕ

/-- The histogram without samples. -/
def empty : Hist β := ⟨[], fun _ => 0⟩

/-- Adds a sample. -/
def add (h : Hist β) (b : β) (n : ℕ) : Hist β where
  keys := if b ∈ h.keys then h.keys else h.keys ++ [b]
  size := Function.update h.size b (h.size b + n)

/-- The first bucket of the list at which the sizes, added to `freed`, reach `need`. -/
def coveringBucket (size : β → ℕ) (need : ℤ) : ℕ → List β → Option β
  | _, [] => none
  | freed, b :: bs =>
    if need ≤ (freed + size b : ℕ) then some b else coveringBucket size need (freed + size b) bs

/-- The total size of the samples whose bucket satisfies `p`. -/
def sumWhere (samples : List (β × ℕ)) (p : β → Prop) [DecidablePred p] : ℕ :=
  ((samples.filter fun x => p x.1).map Prod.snd).sum

section SumWhere

omit [LinearOrder β]

variable (p q : β → Prop) [DecidablePred p] [DecidablePred q] (samples : List (β × ℕ))

lemma sumWhere_concat (x : β × ℕ) :
    sumWhere (samples ++ [x]) p = sumWhere samples p + if p x.1 then x.2 else 0 := by
  unfold sumWhere
  split_ifs with hx
  · simp [List.filter_append, hx]
  · simp [List.filter_append, hx]

lemma sumWhere_true : sumWhere samples (fun _ => True) = (samples.map Prod.snd).sum := by
  simp [sumWhere]

variable {p q samples}

lemma sumWhere_congr (h : ∀ x ∈ samples, p x.1 ↔ q x.1) :
    sumWhere samples p = sumWhere samples q := by
  unfold sumWhere
  congr 2
  refine List.filter_congr ?_
  intro x hx
  simp [h x hx]

/-- Sizes of disjoint sets of buckets add up. -/
lemma sumWhere_add (hpq : ∀ x ∈ samples, p x.1 → ¬ q x.1) :
    sumWhere samples p + sumWhere samples q = sumWhere samples fun b => p b ∨ q b := by
  induction samples using List.reverseRecOn with
  | nil => rfl
  | append_singleton samples x ih =>
    have hx := hpq x (by simp)
    rw [sumWhere_concat, sumWhere_concat, sumWhere_concat,
      ← ih fun y hy => hpq y (by simp [hy])]
    by_cases hp : p x.1
    · simp [hp, hx hp]
      ring
    · by_cases hq : q x.1
      · simp [hp, hq]
        ring
      · simp [hp, hq]

end SumWhere

/-! ## What a histogram holds -/

/-- The histogram of a list of samples. -/
def ofSamples (samples : List (β × ℕ)) : Hist β :=
  samples.foldl (fun h x => add h x.1 x.2) empty

lemma ofSamples_concat (samples : List (β × ℕ)) (x : β × ℕ) :
    ofSamples (samples ++ [x]) = add (ofSamples samples) x.1 x.2 := by
  simp [ofSamples]

lemma size_ofSamples (samples : List (β × ℕ)) (b : β) :
    (ofSamples samples).size b = sumWhere samples (· = b) := by
  induction samples using List.reverseRecOn with
  | nil => rfl
  | append_singleton samples x ih =>
    rw [ofSamples_concat, sumWhere_concat, ← ih, add]
    by_cases hb : x.1 = b
    · subst hb
      simp
    · simp [hb, Function.update_of_ne (Ne.symm hb)]

lemma mem_keys_ofSamples {samples : List (β × ℕ)} {b : β} :
    b ∈ (ofSamples samples).keys ↔ b ∈ samples.map Prod.fst := by
  induction samples using List.reverseRecOn with
  | nil => simp [ofSamples, empty]
  | append_singleton samples x ih =>
    rw [ofSamples_concat, add]
    split_ifs with hx
    · rw [ih]
      constructor
      · intro h
        simp only [List.map_append, List.mem_append]
        exact Or.inl h
      · intro h
        simp only [List.map_append, List.mem_append, List.map_cons, List.map_nil,
          List.mem_singleton] at h
        rcases h with h | rfl
        · exact h
        · exact ih.mp hx
    · simp [ih]

lemma nodup_keys_ofSamples (samples : List (β × ℕ)) : (ofSamples samples).keys.Nodup := by
  induction samples using List.reverseRecOn with
  | nil => exact List.nodup_nil
  | append_singleton samples x ih =>
    rw [ofSamples_concat, add]
    dsimp only
    split_ifs with hx
    · exact ih
    · exact List.Nodup.append ih (List.nodup_singleton _) (by simpa using hx)

/-! ## The first bucket at which an amount is reached -/

omit [LinearOrder β] in
/-- The loop finds the bucket at which the amount is reached, and the buckets before it do not
reach it. -/
lemma coveringBucket_eq_some {size : β → ℕ} {need : ℤ} {freed : ℕ} {bs : List β} {b : β}
    (h : coveringBucket size need freed bs = some b) (hfreed : (freed : ℤ) < need) :
    ∃ before after, bs = before ++ b :: after ∧
      ((freed + (before.map size).sum : ℕ) : ℤ) < need ∧
      need ≤ (freed + ((before ++ [b]).map size).sum : ℕ) := by
  induction bs generalizing freed with
  | nil => cases h
  | cons c bs ih =>
    rw [coveringBucket] at h
    split_ifs at h with hc
    · obtain rfl := Option.some.inj h
      exact ⟨[], bs, rfl, by simpa using hfreed, by simpa using hc⟩
    · obtain ⟨before, after, rfl, hbefore, hat⟩ := ih h (not_le.mp hc)
      refine ⟨c :: before, after, rfl, ?_, ?_⟩
      · simpa [Nat.add_assoc] using hbefore
      · simpa [Nat.add_assoc] using hat

omit [LinearOrder β] in
/-- The loop finds a bucket if all sizes together reach the amount. -/
lemma isSome_coveringBucket {size : β → ℕ} {need : ℤ} {freed : ℕ} {bs : List β}
    (hne : bs ≠ []) (h : need ≤ (freed + (bs.map size).sum : ℕ)) :
    (coveringBucket size need freed bs).isSome = true := by
  induction bs generalizing freed with
  | nil => exact absurd rfl hne
  | cons c bs ih =>
    rw [coveringBucket]
    split_ifs with hc
    · rfl
    · rcases bs with _ | ⟨d, bs⟩
      · exact absurd (by simpa using h) hc
      · exact ih (by simp) (by simpa [Nat.add_assoc] using h)

/-- Adding up the sizes of distinct buckets counts the samples in them. -/
lemma sum_map_size (samples : List (β × ℕ)) {bs : List β} (hbs : bs.Nodup) :
    (bs.map (ofSamples samples).size).sum = sumWhere samples (· ∈ bs) := by
  induction bs with
  | nil => simp [sumWhere]
  | cons b bs ih =>
    obtain ⟨hb, hbs⟩ := List.nodup_cons.mp hbs
    rw [List.map_cons, List.sum_cons, ih hbs, size_ofSamples,
      sumWhere_add (by rintro x - rfl; exact hb)]
    exact sumWhere_congr fun x _ => by simp

/-- The buckets of a histogram in ascending order. -/
def buckets (h : Hist β) : List β :=
  h.keys.insertionSort (· ≤ ·)

lemma mem_buckets {samples : List (β × ℕ)} {b : β} :
    b ∈ buckets (ofSamples samples) ↔ b ∈ samples.map Prod.fst := by
  rw [buckets, List.mem_insertionSort, mem_keys_ofSamples]

lemma pairwise_buckets (samples : List (β × ℕ)) :
    (buckets (ofSamples samples)).Pairwise (· < ·) := by
  have hle : (buckets (ofSamples samples)).Pairwise (· ≤ ·) := List.pairwise_insertionSort _ _
  have hne : (buckets (ofSamples samples)).Nodup :=
    (List.perm_insertionSort _ _).nodup_iff.mpr (nodup_keys_ofSamples samples)
  exact (hle.and hne).imp fun h => lt_of_le_of_ne h.1 h.2

/-- For an amount between one and the total size there is a bucket at which it is reached: the
samples of the earlier buckets do not reach it, and with those of the bucket they do. -/
lemma quantile_spec {samples : List (β × ℕ)} {need : ℤ} (hpos : 0 < need)
    (hneed : need ≤ ((samples.map Prod.snd).sum : ℕ)) :
    ∃ b, coveringBucket (ofSamples samples).size need 0 (buckets (ofSamples samples)) = some b ∧
      b ∈ samples.map Prod.fst ∧ (sumWhere samples (· < b) : ℤ) < need ∧
      need ≤ sumWhere samples (· ≤ b) := by
  set bs := buckets (ofSamples samples) with hbs
  have hasc : bs.Pairwise (· < ·) := pairwise_buckets samples
  have hnodup : bs.Nodup := hasc.imp ne_of_lt
  have hmem : ∀ x ∈ samples, x.1 ∈ bs := fun x hx =>
    mem_buckets.mpr (List.mem_map_of_mem hx)
  have htotal : (bs.map (ofSamples samples).size).sum = (samples.map Prod.snd).sum := by
    rw [sum_map_size samples hnodup, ← sumWhere_true]
    exact sumWhere_congr fun x hx => by simp [hmem x hx]
  have hne : bs ≠ [] := by
    intro hnil
    rw [hnil] at htotal
    simp only [List.map_nil, List.sum_nil] at htotal
    omega
  have hreached : need ≤ (0 + (bs.map (ofSamples samples).size).sum : ℕ) := by
    rw [htotal, Nat.zero_add]
    exact hneed
  obtain ⟨b, hb⟩ := Option.isSome_iff_exists.mp (isSome_coveringBucket hne hreached)
  obtain ⟨before, after, hsplit, hbefore, hat⟩ := coveringBucket_eq_some hb hpos
  rw [hsplit] at hasc hnodup hmem
  obtain ⟨-, hafter, hcross⟩ := List.pairwise_append.mp hasc
  have hbeforeLt : ∀ c ∈ before, c < b := fun c hc => hcross c hc b (by simp)
  have hafterLt : ∀ c ∈ after, b < c := fun c hc => List.rel_of_pairwise_cons hafter hc
  -- membership in the initial part of the sorted list is comparison with its end
  have hbelow : ∀ x ∈ samples, x.1 ∈ before ↔ x.1 < b := by
    intro x hx
    refine ⟨hbeforeLt _, ?_⟩
    intro hlt
    have hin := hmem x hx
    simp only [List.mem_append, List.mem_cons] at hin
    rcases hin with hin | hin | hin
    · exact hin
    · exact absurd hin hlt.ne
    · exact absurd (hafterLt _ hin) hlt.asymm
  have hupto : ∀ x ∈ samples, x.1 ∈ before ++ [b] ↔ x.1 ≤ b := by
    intro x hx
    rw [List.mem_append, hbelow x hx, List.mem_singleton, le_iff_lt_or_eq]
  have hnodupBefore : before.Nodup := (List.nodup_append.mp hnodup).1
  have hnodupUpto : (before ++ [b]).Nodup := by
    rw [← List.singleton_append, ← List.append_assoc] at hnodup
    exact (List.nodup_append.mp hnodup).1
  refine ⟨b, hb, mem_buckets.mp (by rw [← hbs, hsplit]; simp), ?_, ?_⟩
  · rw [sum_map_size samples hnodupBefore, sumWhere_congr (q := (· < b)) hbelow,
      Nat.zero_add] at hbefore
    exact hbefore
  · rw [sum_map_size samples hnodupUpto, sumWhere_congr (q := (· ≤ b)) hupto, Nat.zero_add] at hat
    exact hat

end Histogram
