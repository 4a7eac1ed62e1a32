import GoBuildCache.Client.BitReader
import GoBuildCache.Foundation.SortedList
import GoBuildCache.Key

/-!
# The client's index

The client parses an index blob (`parseIndexBlob`) into a set of leading bits of action hashes
(`KeySet`). Both wire versions are checked against the digest in the trailer before their body is
read; the gaps of a version 2 body are checked against the width the blob names
(`parseIndexV2`). A `KeySet` holds the leading eight bytes of each hash with the bits beyond its
width set to zero, in a sorted slice that is searched by bisection.
-/

open ByteString BitString SortedList

namespace GoBuildCache

/-! ## Sets of keys -/

/-- A set of keys, held as an ascending slice and the changes since it was last compacted. -/
structure HashSet (K : Type*) where
  /-- The slice. -/
  sorted : List K
  /-- The keys added since. -/
  pending : Finset K
  /-- The keys of the slice removed since. -/
  removed : Finset K

namespace HashSet

variable {K : Type*} [LinearOrder K]

/-- Adopts a list of keys; it is sorted first if it is not ascending. -/
def adoptSorted (keys : List K) : HashSet K where
  sorted := dropRepeats (if keys.Pairwise (· ≤ ·) then keys else keys.insertionSort (· ≤ ·))
  pending := ∅
  removed := ∅

/-- The number of keys. -/
def len (s : HashSet K) : ℕ :=
  s.sorted.length + s.pending.card - s.removed.card

/-- Whether a key is a member. -/
def contains (s : HashSet K) (k : K) : Bool :=
  if k ∈ s.removed then false
  else if k ∈ s.pending then true
  else containsSorted s.sorted k

/-- The slice of an adopted list is the list without its repetitions, in order. -/
lemma sorted_adoptSorted (keys : List K) : (adoptSorted keys).sorted = sortDedupe keys := by
  rw [adoptSorted, sortDedupe]
  split_ifs with h
  · rw [List.Pairwise.insertionSort_eq h]
  · rfl

/-- Membership in an adopted list. -/
lemma contains_adoptSorted (keys : List K) (k : K) :
    (adoptSorted keys).contains k = true ↔ k ∈ keys := by
  have hasc : Ascending (adoptSorted keys).sorted := by
    rw [sorted_adoptSorted]
    exact ascending_sortDedupe keys
  have hcontains : (adoptSorted keys).contains k = containsSorted (adoptSorted keys).sorted k := by
    simp [contains, adoptSorted]
  rw [hcontains, containsSorted_iff hasc, sorted_adoptSorted, mem_sortDedupe]

/-- An adopted list counts every key once. -/
lemma len_adoptSorted (keys : List K) : (adoptSorted keys).len = keys.toFinset.card := by
  have hnodup : (sortDedupe keys).Nodup := (ascending_sortDedupe keys).imp ne_of_lt
  have hset : (sortDedupe keys).toFinset = keys.toFinset := by
    ext k
    simp
  have hlen : (adoptSorted keys).len = (adoptSorted keys).sorted.length := by
    simp [len, adoptSorted]
  rw [hlen, sorted_adoptSorted, ← List.toFinset_card_of_nodup hnodup, hset]

end HashSet

/-- The leading eight bytes of an action hash. -/
abbrev IndexKey : Type := FixedBytes 8

/-- The `IndexKey` of a hash. -/
def keyOf (h : Hash) : IndexKey :=
  ⟨h.bytes.take 8, by rw [List.length_take, h.size]; rfl⟩

/-- The keys the client believes the remote has. -/
structure KeySet where
  /-- The leading bytes of each hash. -/
  keys : HashSet IndexKey
  /-- The low `shift` bits of every key are zero. -/
  shift : ℕ

namespace KeySet

/-- Adopts the keys of an index body, masked to `widthBits` bits. -/
def adoptSortedKeysAt (keys : List IndexKey) (widthBits : ℕ) : KeySet :=
  ⟨.adoptSorted keys, 64 - widthBits⟩

/-- Adopts the keys of an index body with all their bits. -/
def adoptSortedKeys (keys : List IndexKey) : KeySet :=
  adoptSortedKeysAt keys 64

/-- The number of keys. -/
def len (s : KeySet) : ℕ :=
  s.keys.len

/-- Keeps the bits of a key this set holds. -/
def mask (s : KeySet) : ℕ :=
  wrap64 ((2 ^ 64 - 1) <<< s.shift)

/-- The width of the set in bits. -/
def width (s : KeySet) : ℕ :=
  64 - s.shift

/-- Sets the low bits of a key to zero. -/
def maskKey (s : KeySet) (k : IndexKey) : IndexKey :=
  .ofValue 8 (k.value &&& s.mask)

/-- A hash as this set holds it. -/
def key (s : KeySet) (h : Hash) : IndexKey :=
  s.maskKey (keyOf h)

/-- Whether a hash is a member, on the bits this set holds. -/
def contains (s : KeySet) (h : Hash) : Bool :=
  s.keys.contains (s.key h)

end KeySet

/-! ## Parsing -/

/-- Why an index blob was refused. -/
inductive IndexError where
  | tooSmall (size : ℕ)
  | badMagic
  | unsupportedVersion (version : UInt8)
  | unsupportedWidth (bits : ℕ)
  | unsupportedHashSize (size : UInt8)
  | riceParameter (k : ℕ)
  | lengthMismatch (size count entry : ℕ)
  | trailerMismatch
  | countMismatch (count size : ℕ)
  | bodyEnds (i count : ℕ)
  | overflows (i : ℕ)
  | overflowsBits (i bits : ℕ)
  | bytesFollow (n : ℕ)
  deriving DecidableEq

/-- The text of the error. -/
def IndexError.message : IndexError → String
  | tooSmall size => s!"blob too small ({size} bytes)"
  | badMagic => "bad magic"
  | unsupportedVersion version => s!"unsupported version {version}"
  | unsupportedWidth bits => s!"unsupported hash width {bits} bits"
  | unsupportedHashSize size => s!"unsupported hash size {size}"
  | riceParameter k => s!"rice parameter {k} is over 63"
  | lengthMismatch size count entry => s!"length {size} != header+{count}*{entry}+trailer"
  | trailerMismatch => "trailer hash mismatch"
  | countMismatch count size => s!"count {count} does not fit a {size}-byte body"
  | bodyEnds i count => s!"body ends inside value {i} of {count}"
  | overflows i => s!"value {i} overflows"
  | overflowsBits i bits => s!"value {i} overflows {bits} bits"
  | bytesFollow n => s!"{n} bytes follow the last value"

/-- The part `blob[i:j]` of a blob. -/
def slice (blob : Bytes) (i j : ℕ) : Bytes :=
  (blob.take j).drop i

/-- The byte `blob[i]`; the callers have checked the length. -/
def byteAt (blob : Bytes) (i : ℕ) : UInt8 :=
  blob.getD i 0

/-- The largest value of `widthBits` bits. -/
def prefixLimit (widthBits : ℕ) : ℕ :=
  if 64 ≤ widthBits then 2 ^ 64 - 1 else 2 ^ widthBits - 1

/-- The value that the gap `g` leads to from the previous value, if it has `widthBits` bits. -/
def nextValue (widthBits i : ℕ) (prev : Option ℕ) (g : ℕ) : Except IndexError ℕ :=
  let limit := prefixLimit widthBits
  match prev with
  | none => if limit < g then .error (.overflowsBits i widthBits) else .ok g
  | some p =>
    if limit ≤ p ∨ sub64 (sub64 limit p) 1 < g then .error (.overflowsBits i widthBits)
    else
      let v := wrap64 (p + g + 1)
      if limit < v then .error (.overflowsBits i widthBits) else .ok v

/-- One value: the quotient of its gap in unary and the remainder in `k` bits. -/
def readValue (k widthBits count i : ℕ) (prev : Option ℕ) (r : BitReader) :
    Except IndexError (ℕ × BitReader) :=
  match r.readUnary with
  | none => .error (.bodyEnds i count)
  | some (q, r₁) =>
    match r₁.readBits k with
    | none => .error (.bodyEnds i count)
    | some (low, r₂) =>
      if 0 < k ∧ q >>> (64 - k) ≠ 0 then .error (.overflows i)
      else (nextValue widthBits i prev (wrap64 (q <<< k) ||| low)).map fun v => (v, r₂)

/-- The remaining `todo` of `count` values, after the value `prev`. -/
def readValues (k widthBits count : ℕ) :
    ℕ → Option ℕ → BitReader → Except IndexError (List ℕ × BitReader)
  | 0, _, r => .ok ([], r)
  | todo + 1, prev, r =>
    match readValue k widthBits count (count - (todo + 1)) prev r with
    | .error e => .error e
    | .ok (v, r₁) =>
      (readValues k widthBits count todo (some v) r₁).map fun p => (v :: p.1, p.2)

/-- The body of a version 2 blob whose header has been checked. -/
def parseBodyV2 (k widthBits count : ℕ) (body : Bytes) : Except IndexError (List ℕ × ℕ) :=
  if wrap64 (body.length * 8) / (k + 1) < count then .error (.countMismatch count body.length)
  else
    match readValues k widthBits count count none (.ofBytes body) with
    | .error e => .error e
    | .ok (values, r) =>
      if r.rest ≠ [] ∨ 8 ≤ r.n then .error (.bytesFollow (r.rest.length + r.n / 8))
      else .ok (values, widthBits)

/-- Decodes a version 2 blob into its values, ascending, and the width they carry. -/
def parseIndexV2 (sha256 : Sha256) (blob : Bytes) : Except IndexError (List ℕ × ℕ) :=
  let widthBits := (byteAt blob 5).toNat
  let k := (byteAt blob 6).toNat
  let bodyEnd := blob.length - 32
  if blob.length < 24 + 32 then .error (.tooSmall blob.length)
  else if slice blob 0 4 ≠ ascii "GBCI" then .error .badMagic
  else if byteAt blob 4 ≠ 2 then .error (.unsupportedVersion (byteAt blob 4))
  else if widthBits < 32 ∨ 64 < widthBits then .error (.unsupportedWidth widthBits)
  else if 63 < k then .error (.riceParameter k)
  else if (sha256 (blob.take bodyEnd)).bytes ≠ blob.drop bodyEnd then .error .trailerMismatch
  else parseBodyV2 k widthBits (leValue (slice blob 16 24)) (slice blob 24 bodyEnd)

/-- The `i`-th entry of `size` bytes after the header, as a key. -/
def entryKey (blob : Bytes) (size i : ℕ) : IndexKey :=
  .ofValue 8 (beValue (slice blob (24 + i * size) (24 + i * size + 8)))

/-- The text that identifies a version of the blob: its trailer in hexadecimal, in quotes. -/
def trailerETag (blob : Bytes) : Bytes :=
  ascii "\"" ++ hexEncode (blob.drop (blob.length - 32)) ++ ascii "\""

/-- `parseIndexBlob` for version 1: whole hashes, or their first eight bytes. -/
def parseIndexV1 (sha256 : Sha256) (blob : Bytes) : Except IndexError (KeySet × Bytes) :=
  let size := (byteAt blob 5).toNat
  let count := leValue (slice blob 16 24)
  let bodyLen := blob.length - 24 - 32
  let bodyEnd := 24 + bodyLen
  if size ≠ 32 ∧ size ≠ 8 then .error (.unsupportedHashSize (byteAt blob 5))
  else if bodyLen % size ≠ 0 ∨ count ≠ bodyLen / size then
    .error (.lengthMismatch blob.length count size)
  else if (sha256 (blob.take bodyEnd)).bytes ≠ blob.drop bodyEnd then .error .trailerMismatch
  else .ok (.adoptSortedKeys ((List.range count).map (entryKey blob size)), trailerETag blob)

/-- The key of a version 2 value, which carries its bits right-aligned. -/
def valueKey (widthBits v : ℕ) : IndexKey :=
  .ofValue 8 (wrap64 (v <<< (64 - widthBits)))

/-- Parses an index blob of either version. -/
def parseIndexBlob (sha256 : Sha256) (blob : Bytes) : Except IndexError (KeySet × Bytes) :=
  if blob.length < 24 + 32 then .error (.tooSmall blob.length)
  else if slice blob 0 4 ≠ ascii "GBCI" then .error .badMagic
  else if byteAt blob 4 = 1 then parseIndexV1 sha256 blob
  else if byteAt blob 4 = 2 then
    match parseIndexV2 sha256 blob with
    | .error e => .error e
    | .ok (values, width) =>
      .ok (.adoptSortedKeysAt (values.map (valueKey width)) width, trailerETag blob)
  else .error (.unsupportedVersion (byteAt blob 4))

end GoBuildCache
