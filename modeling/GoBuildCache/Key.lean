import GoBuildCache.Foundation.Bytes

/-!
# Keys and action hashes

A key is a byte string chosen by a client. The cacheprog client derives its keys from 32-byte
action hashes: a constant text followed by the hash in hexadecimal. `extractActionHash` recovers
the hash, and `CompactKey` is the form in which the index and the memos hold a key: the hash of a
cacheprog key, the text of any other.
-/

open ByteString

namespace GoBuildCache

/-- A client's name for an object. -/
abbrev Key : Type := Bytes

/-- An action hash: `[gbciHashSize]byte`. -/
abbrev Hash : Type := FixedBytes 32

instance : LawfulBEq Key :=
  inferInstanceAs (LawfulBEq (List UInt8))

instance : LawfulBEq Hash :=
  inferInstance

/-- The type of `sha256.Sum256`. -/
abbrev Sha256 : Type := Bytes → FixedBytes 32

/-- The constant leading portion of every cacheprog cache key. -/
def gbciKeyPrefix : Bytes := ascii "go-buildcache/v1"

/-- A decoded byte string as an action hash, if it has 32 bytes. -/
def toHash? (bs : Bytes) : Option Hash :=
  if h : bs.length = 32 then some ⟨bs, h⟩ else none

/-- The action hash of a cacheprog key: the constant text followed by 64 hexadecimal digits of
either case. -/
def extractActionHash (key : Key) : Option Hash :=
  if !gbciKeyPrefix.isPrefixOf key then none
  else
    let hex64 := key.drop gbciKeyPrefix.length
    if hex64.length ≠ 64 then none else (hexDecode hex64).bind toHash?

/-- A key as the index holds it. -/
structure CompactKey where
  /-- The action hash, meaningful when `raw` is empty. -/
  hash : Hash
  /-- The text of a key that is not a cacheprog key. -/
  raw : Bytes
  deriving DecidableEq

/-- The zero hash. -/
def zeroHash : Hash := .ofValue 32 0

/-- A digest function that the examples below evaluate the definitions with. -/
def zeroDigest : Sha256 := fun _ => zeroHash

/-- The compact form of a key. -/
def newCompactKey (key : Key) : CompactKey :=
  match extractActionHash key with
  | some h => ⟨h, []⟩
  | none => ⟨zeroHash, key⟩

/-- Rebuilds the key. -/
def CompactKey.key (c : CompactKey) : Key :=
  if c.raw ≠ [] then c.raw else gbciKeyPrefix ++ hexEncode c.hash.bytes

/-- The action hash, if this is a cacheprog key at all. -/
def CompactKey.actionHash (c : CompactKey) : Option Hash :=
  if c.raw = [] then some c.hash else none

/-- The action hash under which the index files a key. -/
def actionHash (key : Key) : Option Hash :=
  (newCompactKey key).actionHash

/-- The cacheprog key of an action hash. -/
def hashKey (h : Hash) : Key :=
  gbciKeyPrefix ++ hexEncode h.bytes

/-- The action hash of a cacheprog key is recovered from it. -/
lemma extractActionHash_hashKey (h : Hash) : extractActionHash (hashKey h) = some h := by
  have hprefix : gbciKeyPrefix.isPrefixOf (hashKey h) = true :=
    List.isPrefixOf_iff_prefix.mpr (List.prefix_append _ _)
  have hdrop : (hashKey h).drop gbciKeyPrefix.length = hexEncode h.bytes := by
    simp [hashKey]
  simp [extractActionHash, hprefix, hdrop, hexDecode_hexEncode, toHash?, h.size]

/-- Only the empty key has an action hash without being a cacheprog key. -/
lemma actionHash_of_ne_nil {key : Key} (hne : key ≠ []) :
    actionHash key = extractActionHash key := by
  unfold actionHash newCompactKey
  cases extractActionHash key with
  | none => simp [CompactKey.actionHash, hne]
  | some h => simp [CompactKey.actionHash]

/-- A cacheprog key is the constant text followed by the digits of its action hash. -/
lemma exists_hexDecode_of_extractActionHash {key : Key} {h : Hash}
    (hkey : extractActionHash key = some h) :
    ∃ digits, key = gbciKeyPrefix ++ digits ∧ digits.length = 64 ∧
      hexDecode digits = some h.bytes := by
  unfold extractActionHash at hkey
  dsimp only at hkey
  split_ifs at hkey with hprefix hlen
  obtain ⟨bs, hbs, hhash⟩ := Option.bind_eq_some_iff.mp hkey
  have hpre : gbciKeyPrefix <+: key := by simpa [List.isPrefixOf_iff_prefix] using hprefix
  obtain ⟨digits, rfl⟩ := hpre
  rw [List.drop_left] at hlen hbs
  have hbytes : bs = h.bytes := by
    unfold toHash? at hhash
    split_ifs at hhash
    exact congrArg FixedBytes.bytes (Option.some.inj hhash)
  exact ⟨digits, rfl, not_not.mp hlen, hbytes ▸ hbs⟩

/-- The key of the action hash of a key is that key in lower case. -/
lemma hashKey_of_extractActionHash {key : Key} {h : Hash} (hkey : extractActionHash key = some h) :
    hashKey h = key.map toLower := by
  obtain ⟨digits, rfl, -, hdigits⟩ := exists_hexDecode_of_extractActionHash hkey
  have hprefix : gbciKeyPrefix.map toLower = gbciKeyPrefix := by decide
  rw [hashKey, hexEncode_of_hexDecode hdigits, List.map_append, hprefix]

lemma newCompactKey_of_eq_some {key : Key} {h : Hash} (hkey : extractActionHash key = some h) :
    newCompactKey key = ⟨h, []⟩ := by
  rw [newCompactKey, hkey]

lemma newCompactKey_of_eq_none {key : Key} (hkey : extractActionHash key = none) :
    newCompactKey key = ⟨zeroHash, key⟩ := by
  rw [newCompactKey, hkey]

/-- What is rebuilt from the compact form of a key: a cacheprog key is put in lower case. -/
lemma key_newCompactKey {key : Key} (hne : key ≠ []) :
    (newCompactKey key).key
      = if (extractActionHash key).isSome then key.map toLower else key := by
  rcases hkey : extractActionHash key with _ | h
  · rw [newCompactKey_of_eq_none hkey, CompactKey.key, if_pos hne]
    rfl
  · rw [newCompactKey_of_eq_some hkey, CompactKey.key, if_neg (by simp)]
    exact hashKey_of_extractActionHash hkey

/-- Two keys have the same compact form exactly when they are the same key, or the same cacheprog
key up to case. -/
lemma newCompactKey_eq_iff {k₁ k₂ : Key} (h₁ : k₁ ≠ []) (h₂ : k₂ ≠ []) :
    newCompactKey k₁ = newCompactKey k₂
      ↔ k₁ = k₂ ∨ (extractActionHash k₁).isSome ∧ (extractActionHash k₂).isSome ∧
          k₁.map toLower = k₂.map toLower := by
  rcases hk₁ : extractActionHash k₁ with _ | a₁ <;> rcases hk₂ : extractActionHash k₂ with _ | a₂
  · simp [newCompactKey_of_eq_none hk₁, newCompactKey_of_eq_none hk₂]
  · have hne : k₁ ≠ k₂ := fun h => by simp [← h, hk₁] at hk₂
    simp [newCompactKey_of_eq_none hk₁, newCompactKey_of_eq_some hk₂, h₁, hne]
  · have hne : k₁ ≠ k₂ := fun h => by simp [← h, hk₁] at hk₂
    simp [newCompactKey_of_eq_some hk₁, newCompactKey_of_eq_none hk₂, h₂.symm, hne]
  · rw [newCompactKey_of_eq_some hk₁, newCompactKey_of_eq_some hk₂,
      ← hashKey_of_extractActionHash hk₁, ← hashKey_of_extractActionHash hk₂]
    constructor
    · intro h
      rw [(CompactKey.mk.inj h).1]
      exact Or.inr ⟨rfl, rfl, rfl⟩
    · rintro (rfl | ⟨-, -, h⟩)
      · rw [Option.some.inj (hk₁.symm.trans hk₂)]
      · have hhash := extractActionHash_hashKey a₁
        rw [h, extractActionHash_hashKey] at hhash
        rw [Option.some.inj hhash]

end GoBuildCache
