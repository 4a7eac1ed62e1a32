import GoBuildCache.Foundation.LexicalPath
import GoBuildCache.Key

/-!
# From keys to file paths

`keyToPath` turns a key into the path of the file that
holds the object: a key made of safe characters is sharded by the first bytes of its last element
(`shardPath`), every other key is replaced by its sha256 digest under a tree of its own.

`Confined` says that the file stays in the data directory, is not one of the server's own
bookkeeping files, and is uploaded through a temporary file in the data directory.
`confined_of_isKeySafe_eq_false` and `confined_of_elems_ne_nil` establish it for hashed keys and
for safe keys with an element; a key made of slashes only names the data directory itself
(`cleanElems_keyToPath_of_elems_eq_nil`). Together: `confined_iff_exists_ne_slash`.
-/

open ByteString LexicalPath

namespace GoBuildCache

/-- The data directory of a running server. `NewStorage` creates it with `os.MkdirAll`, which
fails on the empty path. -/
structure DataDir where
  /-- The path as configured. -/
  path : Bytes
  /-- The path is not empty. -/
  path_ne_nil : path ≠ []

/-- `isKeySafe` on one byte: an ASCII letter, a digit, `/`, `-` or `_`. -/
def isSafeChar (c : UInt8) : Bool :=
  (97 ≤ c.toNat && c.toNat ≤ 122) || (65 ≤ c.toNat && c.toNat ≤ 90) ||
    (48 ≤ c.toNat && c.toNat ≤ 57) || c == 47 || c == 45 || c == 95

/-- Whether a key is not empty and all its bytes are safe in a path. -/
def isKeySafe (key : Key) : Bool :=
  !key.isEmpty && key.all isSafeChar

/-- The tree of the keys that are stored under their digest. -/
def hashedPrefix : Bytes := ascii "__hashed__"

/-- The sharded path of a safe key below `root`. -/
def shardPath (root : Bytes) (key : Key) : Bytes :=
  let d := dir key
  let name := base key
  if 4 < name.length then join [root, d, name.take 2, (name.take 4).drop 2, name.drop 4]
  else if 2 < name.length then join [root, d, name.take 2, name.drop 2]
  else join [root, d, name]

/-- The path of the file that holds the object of a key. -/
def keyToPath (sha256 : Sha256) (d : DataDir) (key : Key) : Bytes :=
  if isKeySafe key then shardPath d.path key
  else
    let name := hexEncode (sha256 key).bytes
    join [d.path, hashedPrefix, name.take 2, (name.take 4).drop 2, name.drop 4]

/-- The directory in which `PutStream` creates the temporary file of an upload. -/
def uploadDir (sha256 : Sha256) (d : DataDir) (key : Key) : Bytes :=
  dir (keyToPath sha256 d key)

/-- The file that locks the data directory. -/
def lockFileName : Bytes := ascii ".lock"

/-- The file that holds the format version of the data directory. -/
def cacheVersionFile : Bytes := ascii ".cache_version"

/-- The file that records the last eviction sweep. -/
def sweepMarkerFile : Bytes := ascii ".last_sweep"

/-- How the names of uploads in progress start. -/
def tempFilePrefix : Bytes := ascii ".tmp-"

/-- Whether a file name is server bookkeeping rather than a stored object. On unix there are no
metadata sidecar files. -/
def isReservedFile (name : Bytes) : Bool :=
  name == lockFileName || name == cacheVersionFile || name == sweepMarkerFile ||
    tempFilePrefix.isPrefixOf name

/-- The object of a key is confined to the data directory. -/
structure Confined (sha256 : Sha256) (d : DataDir) (key : Key) : Prop where
  /-- Its file lies strictly below the data directory. -/
  below : Below d.path (keyToPath sha256 d key)
  /-- Its file is not a bookkeeping file. -/
  not_reserved : isReservedFile (base (keyToPath sha256 d key)) = false
  /-- Its uploads pass through a directory that is the data directory or below it. -/
  upload : AtOrBelow d.path (uploadDir sha256 d key)

/-! ## Names without dots -/

/-- A bookkeeping name starts with a dot. -/
lemma isReservedFile_eq_false {name : Bytes} (h : 46 ∉ name) : isReservedFile name = false := by
  have hne : ∀ s : Bytes, 46 ∈ s → (name == s) = false := by
    intro s hs
    rw [beq_eq_false_iff_ne]
    rintro rfl
    exact h hs
  have htmp : tempFilePrefix.isPrefixOf name = false := by
    rw [← Bool.not_eq_true, List.isPrefixOf_iff_prefix]
    exact fun hp => h (hp.subset (by decide))
  simp [isReservedFile, hne lockFileName (by decide), hne cacheVersionFile (by decide),
    hne sweepMarkerFile (by decide), htmp]

lemma dot_notMem_of_isKeySafe {key : Key} (h : isKeySafe key = true) : 46 ∉ key := by
  intro hmem
  have hall : key.all isSafeChar = true := by
    simp only [isKeySafe, Bool.and_eq_true] at h
    exact h.2
  exact absurd (List.all_eq_true.mp hall 46 hmem) (by decide)

lemma hexDigit_ne {d : ℕ} (hd : d < 16) : hexDigit d ≠ 46 ∧ hexDigit d ≠ slash := by
  interval_cases d <;> decide

/-- A hexadecimal text holds neither dots nor separators. -/
lemma notMem_hexEncode (bs : Bytes) : 46 ∉ hexEncode bs ∧ slash ∉ hexEncode bs := by
  induction bs with
  | nil => simp [hexEncode]
  | cons b bs ih =>
    have hb : b.toNat < 256 := b.toNat_lt
    have hhi := hexDigit_ne (d := b.toNat / 16) (by omega)
    have hlo := hexDigit_ne (d := b.toNat % 16) (by omega)
    simp [hexEncode, hhi.1.symm, hhi.2.symm, hlo.1.symm, hlo.2.symm, ih]

/-- A dot-free path, joined below the data directory and ending in a non-empty, dot-free name,
satisfies everything that confinement asks for. -/
lemma confined_of_keyToPath_eq {sha256 : Sha256} {d : DataDir} {key : Key} {rel : List Bytes}
    {l : Bytes} (hpath : keyToPath sha256 d key = join (d.path :: (rel ++ [l])))
    (hrel : dotdot ∉ rel.flatMap elems) (hl : IsElem l) (hdot : 46 ∉ l) :
    Confined sha256 d key := by
  have hne : ∀ s : Bytes, 46 ∈ s → l ≠ s := by
    rintro s hs rfl
    exact hdot hs
  obtain ⟨hbelow, hbase, hdir⟩ := join_concat_elem d.path_ne_nil hrel hl
    (hne dot (by decide)) (hne dotdot (by decide))
  rw [← hpath] at hbelow hbase hdir
  exact ⟨hbelow, hbase ▸ isReservedFile_eq_false hdot, hdir⟩

/-- A piece of a dot-free name contributes no `..`. -/
lemma dotdot_notMem_elems_of_sublist {name piece : Bytes} (hname : 46 ∉ name)
    (h : piece.Sublist name) : dotdot ∉ elems piece :=
  dotdot_notMem_elems fun hmem => hname (h.subset hmem)

/-- The part of a name from position `n` on is an element again. -/
lemma isElem_drop {name : Bytes} (hname : IsElem name) {n : ℕ} (hn : n < name.length) :
    IsElem (name.drop n) :=
  ⟨by simpa using hn, fun h => hname.2 (List.mem_of_mem_drop h)⟩

/-! ## Confinement -/

/-- Keys stored under their digest are confined. -/
lemma confined_of_isKeySafe_eq_false (sha256 : Sha256) (d : DataDir) {key : Key}
    (h : isKeySafe key = false) : Confined sha256 d key := by
  set name := hexEncode (sha256 key).bytes with hname
  have hlen : name.length = 64 := by rw [hname, length_hexEncode, (sha256 key).size]
  obtain ⟨hdot, hslash⟩ := notMem_hexEncode (sha256 key).bytes
  rw [← hname] at hdot hslash
  have helem : IsElem name := ⟨List.ne_nil_of_length_pos (by omega), hslash⟩
  have hpath : keyToPath sha256 d key
      = join (d.path :: ([hashedPrefix, name.take 2, (name.take 4).drop 2] ++ [name.drop 4])) := by
    simp [keyToPath, h, hname]
  refine confined_of_keyToPath_eq hpath ?_ (isElem_drop helem (by omega))
    fun hmem => hdot (List.mem_of_mem_drop hmem)
  have hhashed : dotdot ∉ elems hashedPrefix := dotdot_notMem_elems (by decide)
  have h₁ : dotdot ∉ elems (name.take 2) :=
    dotdot_notMem_elems_of_sublist hdot (List.take_sublist _ _)
  have h₂ : dotdot ∉ elems ((name.take 4).drop 2) :=
    dotdot_notMem_elems_of_sublist hdot ((List.drop_sublist _ _).trans (List.take_sublist _ _))
  simp [hhashed, h₁, h₂]

/-- Safe keys with at least one element are confined. -/
lemma confined_of_elems_ne_nil (sha256 : Sha256) (d : DataDir) {key : Key}
    (h : isKeySafe key = true) (hkey : elems key ≠ []) : Confined sha256 d key := by
  obtain ⟨helem, hsub⟩ := isElem_base hkey
  have hdotKey : 46 ∉ key := dot_notMem_of_isKeySafe h
  set name := base key with hname
  have hdot : 46 ∉ name := fun hmem => hdotKey (hsub 46 hmem)
  have hdir : dotdot ∉ elems (dir key) := dotdot_notMem_elems_dir hdotKey
  have h₁ : dotdot ∉ elems (name.take 2) :=
    dotdot_notMem_elems_of_sublist hdot (List.take_sublist _ _)
  have h₂ : dotdot ∉ elems ((name.take 4).drop 2) :=
    dotdot_notMem_elems_of_sublist hdot ((List.drop_sublist _ _).trans (List.take_sublist _ _))
  have hdrop : ∀ n, 46 ∉ name.drop n := fun n hmem => hdot (List.mem_of_mem_drop hmem)
  have hpath : keyToPath sha256 d key = shardPath d.path key := by simp [keyToPath, h]
  by_cases h4 : 4 < name.length
  · have hpath : keyToPath sha256 d key
        = join (d.path :: ([dir key, name.take 2, (name.take 4).drop 2] ++ [name.drop 4])) := by
      simp [hpath, shardPath, ← hname, h4]
    exact confined_of_keyToPath_eq hpath (by simp [hdir, h₁, h₂]) (isElem_drop helem h4) (hdrop 4)
  by_cases h2 : 2 < name.length
  · have hpath : keyToPath sha256 d key
        = join (d.path :: ([dir key, name.take 2] ++ [name.drop 2])) := by
      simp [hpath, shardPath, ← hname, h4, h2]
    exact confined_of_keyToPath_eq hpath (by simp [hdir, h₁]) (isElem_drop helem h2) (hdrop 2)
  · have hpath : keyToPath sha256 d key = join (d.path :: ([dir key] ++ [name])) := by
      simp [hpath, shardPath, ← hname, h4, h2]
    exact confined_of_keyToPath_eq hpath (by simp [hdir]) helem hdot

/-- A non-empty key made of slashes only names the data directory itself. -/
lemma cleanElems_keyToPath_of_elems_eq_nil (sha256 : Sha256) (d : DataDir) {key : Key}
    (hne : key ≠ []) (hkey : elems key = []) :
    cleanElems (keyToPath sha256 d key) = cleanElems d.path := by
  have hall : ∀ c ∈ key, c = slash := elems_eq_nil_iff.mp hkey
  have hsafe : isKeySafe key = true := by
    have hchars : key.all isSafeChar = true :=
      List.all_eq_true.mpr fun c hc => hall c hc ▸ by decide
    simp [isKeySafe, hne, hchars]
  have hdir : elems (dir key) ⊆ [dot] := by
    intro e he
    rcases mem_elems_clean he with rfl | he
    · simp
    · obtain ⟨hene, hslash⟩ := isElem_of_mem_elems he
      obtain ⟨c, hc⟩ := List.exists_mem_of_ne_nil e hene
      have hckey : c ∈ key := (List.rdropWhile_prefix _ _).subset (mem_of_mem_elems he hc)
      exact absurd (hall c hckey ▸ hc) hslash
  have hpath : keyToPath sha256 d key = join [d.path, dir key, [slash]] := by
    simp [keyToPath, hsafe, shardPath, base_of_elems_eq_nil hne hkey]
  have hflat : ([dir key, [slash]].flatMap elems) = elems (dir key) := by simp
  have hdd : dotdot ∉ [dir key, [slash]].flatMap elems := by
    rw [hflat]
    exact fun h => absurd (hdir h) (by decide)
  rw [hpath, cleanElems_join_cons d.path_ne_nil hdd, hflat, List.filter_eq_nil_iff.mpr,
    List.append_nil]
  intro e he
  simpa using hdir he

/-- An object is confined to the data directory exactly when its key is not made of slashes
only. -/
theorem confined_iff_exists_ne_slash (sha256 : Sha256) (d : DataDir) (key : Key)
    (hne : key ≠ []) : Confined sha256 d key ↔ ∃ c ∈ key, c ≠ slash := by
  constructor
  · intro h
    by_contra hall
    push Not at hall
    exact not_below_of_cleanElems_eq
      (cleanElems_keyToPath_of_elems_eq_nil sha256 d hne (elems_eq_nil_iff.mpr hall)) h.below
  · rintro ⟨c, hc, hcs⟩
    rcases hsafe : isKeySafe key with _ | _
    · exact confined_of_isKeySafe_eq_false sha256 d hsafe
    · refine confined_of_elems_ne_nil sha256 d hsafe fun hnil => ?_
      exact hcs (elems_eq_nil_iff.mp hnil c hc)

/-- A data directory at `/data`. -/
def slashData : DataDir := ⟨ascii "/data", by decide⟩

/-- The key `/` of a server on `/data`: its file is the directory `/data` itself, and an upload
would create its temporary file in `/`. -/
theorem keyToPath_slash :
    keyToPath zeroDigest slashData (ascii "/") = ascii "/data" ∧
      uploadDir zeroDigest slashData (ascii "/") = ascii "/" ∧
      ¬ Confined zeroDigest slashData (ascii "/") := by
  refine ⟨by rfl, by rfl, fun h => ?_⟩
  exact not_below_of_cleanElems_eq (by rfl) h.below

/-- The key `go-buildcache/v1ab` is confined. -/
theorem confined_buildcache_key :
    Confined zeroDigest slashData (ascii "go-buildcache/v1ab") :=
  (confined_iff_exists_ne_slash zeroDigest slashData (ascii "go-buildcache/v1ab")
    (by decide)).mpr ⟨103, by decide, by decide⟩

end GoBuildCache
