import GoBuildCache.Index.State

/-!
# Questions to the index

`NearbyKeys` looks for objects that were stored at about the same time: it walks outward from the
middle of a window of time, passes over excluded and unwanted keys, and stops when it has enough of
them or has looked at too many. `WireSize` counts the bytes of the version 2 blob without writing
it. Neither changes what the index advertises (`advertises_nearbyKeys`).
-/

open ByteString SortedList

namespace GoBuildCache

/-! ## Objects nearby -/

/-- Bounds how many candidates are shown to `skip`, as a multiple of the limit. -/
def nearbyScanFactor : ℕ := 8

/-- Takes keys from the candidates up to the limit. `excluded` ones do not count, and at most
`budget` candidates are shown to `skip`. -/
def scanNearby (excluded : CompactKey → Bool) (skip : Option (Key → Bool)) :
    ℕ → ℕ → List IndexEntry → List Key
  | _, _, [] => []
  | 0, _, _ :: _ => []
  | limit + 1, budget, e :: candidates =>
    if excluded e.key then scanNearby excluded skip (limit + 1) budget candidates
    else
      match skip with
      | none => e.key.key :: scanNearby excluded none limit budget candidates
      | some unwanted =>
        match budget with
        | 0 => []
        | budget + 1 =>
          if unwanted e.key.key then
            scanNearby excluded (some unwanted) (limit + 1) budget candidates
          else e.key.key :: scanNearby excluded (some unwanted) limit budget candidates

namespace Index

/-- The modification time of the object at a position. -/
def mtimeAt (entries : List IndexEntry) (i : ℕ) : ℤ :=
  (entries[i]?.map (·.mtimeUnix)).getD 0

/-- The keys of up to `limit` objects modified between `startUnix` and `endUnix`, nearest to the
middle first. The objects must be sorted. -/
def nearbyKeysLocked (idx : Index) (startUnix endUnix : ℤ) (limit : ℕ)
    (excluded : CompactKey → Bool) (skip : Option (Key → Bool)) : List Key :=
  let lo := search idx.entries.length fun i => startUnix ≤ mtimeAt idx.entries i
  let hi := search idx.entries.length fun i => endUnix < mtimeAt idx.entries i
  let window := (idx.entries.take hi).drop lo
  let mid := (startUnix + endUnix).tdiv 2
  let right := search window.length fun i => mid ≤ mtimeAt window i
  -- the next candidates on each side of the middle; whichever is nearer is taken first
  let candidates := (window.take right).reverse.merge (window.drop right) fun a b =>
    |a.mtimeUnix - mid| ≤ |b.mtimeUnix - mid|
  scanNearby excluded skip limit (limit * nearbyScanFactor) candidates

/-- The keys nearby, after the objects added since have been sorted in. -/
def nearbyKeys (idx : Index) (startUnix endUnix : ℤ) (limit : ℕ) (exclude : List Key)
    (skip : Option (Key → Bool)) : List Key × Index :=
  let idx := idx.drainEntriesLocked
  (idx.nearbyKeysLocked startUnix endUnix limit (· ∈ exclude.map newCompactKey) skip, idx)

lemma advertises_nearbyKeys (idx : Index) (startUnix endUnix : ℤ) (limit : ℕ) (exclude : List Key)
    (skip : Option (Key → Bool)) (h : Hash) :
    (idx.nearbyKeys startUnix endUnix limit exclude skip).2.Advertises h ↔ idx.Advertises h :=
  Iff.rfl

end Index

/-! ## The size of a blob -/

/-- How many bits the gaps between the values take. -/
def gapBits (k : ℕ) : Option ℕ → List ℕ → ℕ
  | _, [] => 0
  | prev, v :: vs => (gapAfter prev v >>> k) + k + 1 + gapBits k (some v) vs

/-- The length of the blob that `marshalGBCI2` writes. -/
def gbci2Size (widthBits : ℕ) (values : List ℕ) : ℕ :=
  let k := riceParam widthBits values.length
  24 + (gapBits k none values + 7) % 2 ^ 64 / 8 + 32

namespace Index

/-- The length of the version 2 blob that would be served at the time `now`. -/
def wireSize (idx : Index) (form : IndexForm) (now : Time) : ℕ :=
  match idx.servableBlob form now with
  | some c => c.blob.length
  | none =>
    let fresh := if idx.pending = [] then [] else sortDedupe idx.pending
    gbci2Size form.width (prefixValues idx.hashes fresh form.width)

end Index

end GoBuildCache
