import GoBuildCache.Store.Paths

/-!
# From file paths back to keys

A walk of the data directory finds files, not keys. `pathToKey` undoes the sharding of
`keyToPath`, and `walkKey` is what the walk reports about a file. Keys that differ only in repeated
or leading slashes share a file, so that nothing can undo `keyToPath` for all of them; for a
cacheprog key the walk reports the key itself (`walkKey_of_extractActionHash`).
-/

open ByteString LexicalPath

namespace GoBuildCache

/-- A file of the data directory, as a walk sees it. -/
structure StoredFile where
  /-- Its path. -/
  path : Bytes
  /-- The extended attribute with the original key; only files named by a digest have it. -/
  originalKey : Option Key

/-- The file that an upload of a key puts in place. -/
def storedFile (sha256 : Sha256) (d : DataDir) (key : Key) : StoredFile :=
  ⟨keyToPath sha256 d key, if isKeySafe key then none else some key⟩

/-- The elements of a path of the data directory, relative to it. -/
def relElems (d : DataDir) (path : Bytes) : List Bytes :=
  (cleanElems path).drop (cleanElems d.path).length

/-- The text of a list of path elements. -/
def joinSlash (es : List Bytes) : Bytes :=
  [slash].intercalate es

/-- The key whose last element is `name`. -/
def keyWithin (lead : List Bytes) (name : Bytes) : Key :=
  if lead = [] then name else joinSlash lead ++ slash :: name

/-- Reverses the sharding of a path. -/
def pathToKey (d : DataDir) (f : StoredFile) : Key :=
  let rel := relElems d f.path
  if rel.head? = some hashedPrefix ∧ 2 ≤ rel.length then f.originalKey.getD []
  else
    match rel.reverse with
    | remainder :: shard₁ :: shard₂ :: rest =>
      if shard₂.length = 2 ∧ shard₁.length = 2 then
        keyWithin rest.reverse (shard₂ ++ shard₁ ++ remainder)
      else if shard₁.length = 2 then keyWithin (shard₂ :: rest).reverse (shard₁ ++ remainder)
      else joinSlash rel
    | [remainder, shard] => if shard.length = 2 then shard ++ remainder else joinSlash rel
    | _ => joinSlash rel

/-- The key that a walk reports for a file; bookkeeping files and files without a key are passed
over. -/
def walkKey (d : DataDir) (f : StoredFile) : Option Key :=
  if isReservedFile (base f.path) then none
  else if pathToKey d f = [] then none
  else some (pathToKey d f)

/-! ## Cacheprog keys -/

/-- A cacheprog key is the constant text followed by 64 hexadecimal digits. -/
lemma exists_digits_of_extractActionHash {key : Key} {h : Hash}
    (hkey : extractActionHash key = some h) :
    ∃ digits, key = gbciKeyPrefix ++ digits ∧ digits.length = 64 ∧
      ∀ c ∈ digits, (hexDigitValue c).isSome = true := by
  obtain ⟨digits, rfl, hlen, hdigits⟩ := exists_hexDecode_of_extractActionHash hkey
  exact ⟨digits, rfl, hlen, fun c hc => isSome_hexDigitValue_of_mem hdigits hc⟩

/-- Hexadecimal digits are safe in a path, and neither dots nor separators. -/
lemma isSafeChar_of_isSome_hexDigitValue {c : UInt8} (h : (hexDigitValue c).isSome = true) :
    isSafeChar c = true ∧ c ≠ 46 ∧ c ≠ slash := by
  have hne : ∀ n : UInt8, (hexDigitValue n).isSome = false → c ≠ n := by
    rintro n hn rfl
    rw [hn] at h
    cases h
  refine ⟨?_, hne 46 (by decide), hne slash (by decide)⟩
  unfold hexDigitValue at h
  split_ifs at h with hdigit hlower hupper
  · simp [isSafeChar, hdigit]
  · have : c.toNat ≤ 122 := by omega
    simp [isSafeChar, hlower, this]
  · have : c.toNat ≤ 90 := by omega
    simp [isSafeChar, hupper, this]
  · cases h

section Cacheprog

variable {digits : Bytes} (hlen : digits.length = 64)
  (hdigits : ∀ c ∈ digits, (hexDigitValue c).isSome = true)

include hdigits in
lemma isKeySafe_cacheprog : isKeySafe (gbciKeyPrefix ++ digits) = true := by
  have hprefix : gbciKeyPrefix.all isSafeChar = true := by decide
  have hall : digits.all isSafeChar = true :=
    List.all_eq_true.mpr fun c hc => (isSafeChar_of_isSome_hexDigitValue (hdigits c hc)).1
  rw [isKeySafe, List.all_append, hprefix, hall]
  rfl

include hdigits in
/-- A cacheprog key has two elements. -/
lemma dir_base_cacheprog :
    dir (gbciKeyPrefix ++ digits) = ascii "go-buildcache" ∧
      base (gbciKeyPrefix ++ digits) = ascii "v1" ++ digits := by
  have hslash : slash ∉ ascii "v1" ++ digits := by
    rw [List.mem_append, not_or]
    exact ⟨by decide, fun h => (isSafeChar_of_isSome_hexDigitValue (hdigits _ h)).2.2 rfl⟩
  have hkey : gbciKeyPrefix ++ digits
      = lead false [ascii "go-buildcache"] ++ (ascii "v1" ++ digits) := by
    rw [← List.append_assoc]
    rfl
  constructor
  · rw [dir, hkey, (rscan_lead_append hslash).1]
    rfl
  · rw [hkey, ← render_concat, base_render_concat ⟨by simp [ascii], hslash⟩]

include hlen hdigits

/-- The file of a cacheprog key. -/
lemma keyToPath_cacheprog (sha256 : Sha256) (d : DataDir) :
    keyToPath sha256 d (gbciKeyPrefix ++ digits)
      = join [d.path, ascii "go-buildcache", ascii "v1", digits.take 2, digits.drop 2] := by
  obtain ⟨hdir, hbase⟩ := dir_base_cacheprog hdigits
  have h4 : 4 < (ascii "v1" ++ digits).length := by
    rw [List.length_append, hlen]
    decide
  rw [keyToPath, if_pos (isKeySafe_cacheprog hdigits), shardPath]
  simp only [hdir, hbase, h4, if_true]
  rfl

/-- The elements of the file of a cacheprog key. -/
lemma cleanElems_keyToPath_cacheprog (sha256 : Sha256) (d : DataDir) :
    cleanElems (keyToPath sha256 d (gbciKeyPrefix ++ digits))
      = cleanElems d.path
        ++ [ascii "go-buildcache", ascii "v1", digits.take 2, digits.drop 2] := by
  have hdot : 46 ∉ digits := fun h => (isSafeChar_of_isSome_hexDigitValue (hdigits _ h)).2.1 rfl
  have hslash : slash ∉ digits := fun h =>
    (isSafeChar_of_isSome_hexDigitValue (hdigits _ h)).2.2 rfl
  have htake : elems (digits.take 2) = [digits.take 2] :=
    elems_eq_singleton (List.ne_nil_of_length_pos (by simp [hlen]))
      fun h => hslash (List.mem_of_mem_take h)
  have hdrop : elems (digits.drop 2) = [digits.drop 2] :=
    elems_eq_singleton (List.ne_nil_of_length_pos (by simp [hlen]))
      fun h => hslash (List.mem_of_mem_drop h)
  have hconst : elems (ascii "go-buildcache") = [ascii "go-buildcache"] ∧
      elems (ascii "v1") = [ascii "v1"] := by decide
  have hflat : [ascii "go-buildcache", ascii "v1", digits.take 2, digits.drop 2].flatMap elems
      = [ascii "go-buildcache", ascii "v1", digits.take 2, digits.drop 2] := by
    simp [htake, hdrop, hconst]
  have hnodot : ∀ e ∈ [ascii "go-buildcache", ascii "v1", digits.take 2, digits.drop 2],
      46 ∉ e := by
    intro e he
    simp only [List.mem_cons, List.not_mem_nil, or_false] at he
    rcases he with rfl | rfl | rfl | rfl
    · decide
    · decide
    · exact fun h => hdot (List.mem_of_mem_take h)
    · exact fun h => hdot (List.mem_of_mem_drop h)
  rw [keyToPath_cacheprog hlen hdigits, cleanElems_join_cons d.path_ne_nil, hflat,
    List.filter_eq_self.mpr]
  · intro e he
    refine decide_eq_true ?_
    rintro rfl
    exact hnodot dot he (by decide)
  · rw [hflat]
    exact fun h => hnodot dotdot h (by decide)

/-- The name of the file of a cacheprog key. -/
lemma base_keyToPath_cacheprog (sha256 : Sha256) (d : DataDir) :
    base (keyToPath sha256 d (gbciKeyPrefix ++ digits)) = digits.drop 2 := by
  have helems := cleanElems_keyToPath_cacheprog hlen hdigits sha256 d
  rw [keyToPath_cacheprog hlen hdigits, join_cons d.path_ne_nil] at helems ⊢
  rw [cleanElems_clean] at helems
  have hconcat : cleanElems d.path
        ++ [ascii "go-buildcache", ascii "v1", digits.take 2, digits.drop 2]
      = (cleanElems d.path ++ [ascii "go-buildcache", ascii "v1", digits.take 2])
        ++ [digits.drop 2] := by
    simp
  exact base_clean (helems.trans hconcat)

end Cacheprog

/-- The walk reports the file of a cacheprog key under that key. -/
theorem walkKey_of_extractActionHash (sha256 : Sha256) (d : DataDir) {key : Key} {h : Hash}
    (hkey : extractActionHash key = some h) {f : StoredFile}
    (hf : f.path = keyToPath sha256 d key) : walkKey d f = some key := by
  obtain ⟨digits, rfl, hlen, hdigits⟩ := exists_digits_of_extractActionHash hkey
  have hdot : 46 ∉ digits := fun h => (isSafeChar_of_isSome_hexDigitValue (hdigits _ h)).2.1 rfl
  have hname : isReservedFile (base f.path) = false := by
    rw [hf, base_keyToPath_cacheprog hlen hdigits]
    exact isReservedFile_eq_false fun h => hdot (List.mem_of_mem_drop h)
  have hrel : relElems d f.path
      = [ascii "go-buildcache", ascii "v1", digits.take 2, digits.drop 2] := by
    rw [relElems, hf, cleanElems_keyToPath_cacheprog hlen hdigits, List.drop_left]
  have hnotHashed : ¬ ((relElems d f.path).head? = some hashedPrefix ∧
      2 ≤ (relElems d f.path).length) := by
    rw [hrel]
    exact fun h => absurd (Option.some.inj h.1) (by decide)
  have hshards : (ascii "v1").length = 2 ∧ (digits.take 2).length = 2 :=
    ⟨by decide, by simp [hlen]⟩
  have hpathToKey : pathToKey d f = gbciKeyPrefix ++ digits := by
    rw [pathToKey, if_neg hnotHashed, hrel]
    simp only [List.reverse_cons, List.reverse_nil, List.nil_append, List.cons_append, hshards,
      and_self, if_true, keyWithin, List.cons_ne_nil, if_false]
    rw [List.append_assoc, List.take_append_drop]
    rfl
  simp [walkKey, hname, hpathToKey, gbciKeyPrefix, ascii]

end GoBuildCache
