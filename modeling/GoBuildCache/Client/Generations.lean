import GoBuildCache.Client.IndexLoad
import GoBuildCache.Client.Uploads
import GoBuildCache.Foundation.FrontierSearch

/-!
# Generations of manifests

A manifest is stored under an action id of its own, and a later build that finds it out of date
stores a successor: generation `gen` of a manifest has an id derived from that of generation 0
(`manifestGenID`). A client with an authoritative index finds the newest generation without a
request. For the manifest of a command it tries the generations one by one (`newestKnownGen`), for
the fallback of a module it doubles and halves (`newestFallbackGen`).

The server may have evicted any generation. The first search is right exactly if the generations
that the index has are without gaps (`newestKnownGen_isNewest_iff`). The second one always ends at a
generation whose successor the index lacks (`newestFallbackGen_frontier`).
-/

open ByteString FrontierSearch Checked

namespace GoBuildCache

/-- How many generations of a manifest there are at most. -/
def manifestGenerations : ℕ := 64

/-- How many generations of a module's fallback there are at most. -/
def manifestFallbackGenerations : ℕ := 1 <<< 16

/-- The action id of generation `gen` of the manifest stored under `base`. -/
def manifestGenID (sha256 : Sha256) (base : Bytes) (gen : ℕ) : Bytes :=
  if gen = 0 then base
  else
    hexEncode (sha256 (ascii "go-build-manifest-gen" ++ [0] ++ base ++ [0] ++ decimal gen)).bytes

/-- The action of a generation. An id that names no action stands for the zero hash. -/
def manifestGenHash (sha256 : Sha256) (base : Bytes) (gen : ℕ) : Hash :=
  (parseActionHash (manifestGenID sha256 base gen)).getD zeroHash

namespace WebIndex

/-- Whether the live set has a hash. -/
def keyKnown (b : WebIndex) (h : Hash) : Bool :=
  b.keys.contains h

/-- Whether the live set has a generation. -/
def knowsGen (sha256 : Sha256) (b : WebIndex) (base : Bytes) (gen : ℕ) : Bool :=
  b.keyKnown (manifestGenHash sha256 base gen)

/-- The newest generation that the index has, and whether the index can tell. -/
def newestKnownGen (sha256 : Sha256) (b : WebIndex) (base : Bytes) : ℤ × Bool :=
  if !b.indexAuthoritative then (-1, false)
  else (climb (b.knowsGen sha256 base) (List.range manifestGenerations) (-1), true)

end WebIndex

/-- The search for the newest generation of a fallback among those that are `known`. -/
def searchFallbackGen (known : ℕ → Bool) : Checked ℤ :=
  if !known 0 then .ok (-1)
  else do
    let (low, high) ← double known manifestFallbackGenerations manifestFallbackGenerations 0 1
    let low ← halve known manifestFallbackGenerations low (min high manifestFallbackGenerations)
    .ok low

/-- The newest generation of the fallback that the index has, and whether the index can tell. -/
def WebIndex.newestFallbackGen (sha256 : Sha256) (b : WebIndex) (base : Bytes) :
    Checked (ℤ × Bool) :=
  if !b.indexAuthoritative then .ok (-1, false)
  else do
    let gen ← searchFallbackGen (b.knowsGen sha256 base)
    .ok (gen, true)

/-! ## The manifest of a command -/

/-- An authoritative index names the newest generation below 64 that it has, or -1 if it has none,
exactly if it has no generation below 64 without having all earlier ones. -/
theorem newestKnownGen_isNewest_iff (sha256 : Sha256) (b : WebIndex)
    (hauthoritative : b.indexAuthoritative = true) (base : Bytes) :
    (∃ newest, b.newestKnownGen sha256 base = (newest, true) ∧
        IsNewest (b.knowsGen sha256 base) 64 newest) ↔
      ∀ gen < 64, b.knowsGen sha256 base gen = true →
        ∀ earlier < gen, b.knowsGen sha256 base earlier = true := by
  have hsearch : b.newestKnownGen sha256 base
      = (climb (b.knowsGen sha256 base) (List.range 64) (-1), true) := by
    rw [WebIndex.newestKnownGen, hauthoritative]
    rfl
  constructor
  · rintro ⟨newest, hnewest, h⟩
    rw [hsearch] at hnewest
    obtain rfl := congrArg Prod.fst hnewest
    exact isNewest_climb_iff.mp h
  · intro hgap
    exact ⟨_, hsearch, isNewest_climb_iff.mpr hgap⟩

/-- A digest that starts with the last four bytes of what is digested. -/
def lastBytesDigest : Sha256 := fun bs =>
  .ofValue 32 (leValue (bs.drop (bs.length - 4)) * 2 ^ 224)

/-- The id of a manifest whose generation 0 has been evicted. -/
def evictedBase : Bytes := hexEncode zeroHash.bytes

/-- The index of a server that has evicted generation 0 and still has generation 1. -/
def evictedIndex : WebIndex where
  keys := .adoptSortedKeysAt [keyOf (manifestGenHash lastBytesDigest evictedBase 1)] 64
  keysJournal := none
  indexAuthoritative := true
  indexEmpty := false
  indexKeysAtStart := 1

/-- The generations have different ids on the bits of the index, the index has generation 1, and the
search answers that there is none. -/
theorem newestKnownGen_misses_evicted :
    ((List.range 64).map fun gen =>
        evictedIndex.keys.key (manifestGenHash lastBytesDigest evictedBase gen)).Nodup ∧
      evictedIndex.indexAuthoritative = true ∧
      evictedIndex.knowsGen lastBytesDigest evictedBase 1 = true ∧
      evictedIndex.newestKnownGen lastBytesDigest evictedBase = (-1, true) := by
  decide +kernel

/-- The index of a server that has generation 0 only. -/
def firstGenIndex : WebIndex :=
  { evictedIndex with
    keys := .adoptSortedKeysAt [keyOf (manifestGenHash lastBytesDigest evictedBase 0)] 64 }

theorem newestKnownGen_isNewest_firstGen :
    ∃ newest, firstGenIndex.newestKnownGen lastBytesDigest evictedBase = (newest, true) ∧
      IsNewest (firstGenIndex.knowsGen lastBytesDigest evictedBase) 64 newest :=
  (newestKnownGen_isNewest_iff lastBytesDigest firstGenIndex rfl evictedBase).mpr
    (by decide +kernel)

/-! ## The fallback of a module -/

/-- The search ends, whatever generations are known. -/
lemma searchFallbackGen_spec (known : ℕ → Bool) :
    (known 0 = false → searchFallbackGen known = .ok (-1)) ∧
      (known 0 = true → ∃ gen : ℕ, searchFallbackGen known = .ok (gen : ℤ) ∧
        IsFrontier known 65536 gen) := by
  constructor
  · intro hzero
    rw [searchFallbackGen, hzero]
    rfl
  · intro hzero
    have hcap : manifestFallbackGenerations = 65536 := rfl
    obtain ⟨low, high, hdouble, hlow, hlt, hbelow, hend⟩ :=
      double_spec (show 65536 ≤ 1 + 65536 by decide) hzero Nat.one_pos (by decide)
    have hhigh : known (min high 65536) = false ∨ min high 65536 = 65536 := by
      rcases Nat.le_total high 65536 with hle | hge
      · rw [min_eq_left hle]
        rcases hend with hfalse | hge
        · exact Or.inl hfalse
        · exact Or.inr (le_antisymm hle hge)
      · exact Or.inr (min_eq_right hge)
    have hfuel : min high 65536 ≤ low + 65536 := by omega
    obtain ⟨gen, hhalve, hfrontier⟩ :=
      halve_spec hfuel hlow (lt_min hlt hbelow) (min_le_right high 65536) hhigh
    refine ⟨gen, ?_, hfrontier⟩
    rw [searchFallbackGen, hzero, hcap, hdouble]
    simp only [Bool.not_true, Bool.false_eq_true, if_false, ok_bind, hhalve]

/-- Whatever generations are known, the search for the newest generation of a fallback ends. It
answers -1 if generation 0 is unknown, and otherwise a known generation below 65536 whose successor
is unknown or is 65536. If no known generation has an unknown one before it, that is the greatest
known generation. An authoritative index is searched so for the generations that it has. -/
theorem newestFallbackGen_frontier :
    (∀ known : ℕ → Bool,
      (known 0 = false → searchFallbackGen known = .ok (-1)) ∧
      (known 0 = true → ∃ gen : ℕ, searchFallbackGen known = .ok (gen : ℤ) ∧ gen < 65536 ∧
        known gen = true ∧ (known (gen + 1) = false ∨ gen + 1 = 65536) ∧
        ((∀ n < 65536, known n = true → ∀ m < n, known m = true) →
          IsGreatest {n | n < 65536 ∧ known n = true} gen))) ∧
      ∀ (sha256 : Sha256) (b : WebIndex) (base : Bytes), b.indexAuthoritative = true →
        b.newestFallbackGen sha256 base
          = (searchFallbackGen (b.knowsGen sha256 base)).map fun gen => (gen, true) := by
  constructor
  · intro known
    refine ⟨(searchFallbackGen_spec known).1, ?_⟩
    intro hzero
    obtain ⟨gen, hgen, hfrontier⟩ := (searchFallbackGen_spec known).2 hzero
    exact ⟨gen, hgen, hfrontier.lt, hfrontier.holds, hfrontier.ends, hfrontier.isGreatest⟩
  · intro sha256 b base hauthoritative
    rw [WebIndex.newestFallbackGen, hauthoritative]
    rcases searchFallbackGen (b.knowsGen sha256 base) with fault | gen <;> rfl

end GoBuildCache
