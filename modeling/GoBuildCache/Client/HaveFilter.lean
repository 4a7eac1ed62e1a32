import GoBuildCache.Client.KeySets
import GoBuildCache.Foundation.BitArray
import GoBuildCache.Index.State

/-!
# What a client says it holds

A client states the hashes of the objects it holds as a Bloom filter (`ClientFilter.newHaveFilter`),
which goes with a request. The server asks the filter before it sends an object that was not
requested (`HaveFilter.contains`). Both sides have their own code for the positions of a hash. The
filter has no false negatives (`heldFilter_contains`): an object that the client holds is not sent
again.
-/

open ByteString Checked BitArray

namespace GoBuildCache

/-- The filter, as it goes over the wire: both sides have the fields `bits` and `k`. -/
structure HaveFilter where
  /-- The array of bits. -/
  bits : Bytes
  /-- The number of positions of a hash. -/
  k : ℤ

/-- The most bytes of a request that the server reads. -/
def requestLimit : ℕ := 2 ^ 20

/-- The remainder of a division of unsigned numbers of 32 bits. -/
def remainder (a m : UInt32) : Checked UInt32 :=
  if m = 0 then .error .zeroDivisor else .ok (a % m)

/-! ## The client -/

/-- The leading eight bytes of a hash, as a number. -/
def keyOf64 (h : Hash) : UInt64 :=
  .ofNat (beValue (h.bytes.take 8))

namespace ClientFilter

/-- The number of positions of a hash. -/
def haveFilterHashes : ℤ := 6

/-- The number of bits for a hash. -/
def haveFilterBitsPerKey : ℤ := 16

/-- The least number of bytes of a filter. -/
def haveFilterMinBytes : ℤ := 2 ^ 10

/-- The greatest number of bytes of a filter. -/
def haveFilterMaxBytes : ℤ := 64 * 2 ^ 10

/-- A position of a key in a filter of `m` bits. -/
def haveFilterBit (key : UInt64) (i : ℕ) (m : UInt32) : Checked UInt32 :=
  let h1 := (key >>> 32).toUInt32
  let h2 := key.toUInt32 ||| 1
  remainder (h1 + .ofNat i * h2) m

/-- The size of a filter for `n` keys. -/
def haveFilterBytes (n : ℤ) : ℤ :=
  let size := (int64 (n * haveFilterBitsPerKey)).tdiv 8
  if size < haveFilterMinBytes then haveFilterMinBytes
  else if haveFilterMaxBytes < size then haveFilterMaxBytes
  else size

/-- A position of a key is set. -/
def stateBit (m : UInt32) (key : UInt64) (bits : Bytes) (i : ℕ) : Checked Bytes := do
  let idx ← haveFilterBit key i m
  setBit bits idx.toNat

/-- All positions of a key are set. -/
def stateKey (m : UInt32) (bits : Bytes) (key : UInt64) : Checked Bytes :=
  (List.range haveFilterHashes.toNat).foldlM (stateBit m key) bits

/-- A filter of the keys; none for no keys. -/
def newHaveFilter (n : ℤ) (all : List UInt64) : Checked (Option HaveFilter) :=
  if n = 0 then .ok none
  else do
    let bits := List.replicate (haveFilterBytes n).toNat 0
    let m : UInt32 := .ofNat (bits.length * 8)
    let bits ← all.foldlM (stateKey m) bits
    .ok (some ⟨bits, haveFilterHashes⟩)

/-- Whether the filter states a hash. -/
def contains (f : Option HaveFilter) (h : Hash) : Checked Bool :=
  match f with
  | none => .ok false
  | some f =>
    if f.bits.length = 0 then .ok false
    else
      let m : UInt32 := .ofNat (f.bits.length * 8)
      (List.range f.k.toNat).allM fun i => do
        let idx ← haveFilterBit (keyOf64 h) i m
        testBit f.bits idx.toNat

/-- The set that the client holds, at the start. -/
def newHashSet : HashSet Hash :=
  ⟨[], ∅, ∅⟩

/-- The client has the object of a hash. -/
def noteHeld (held : HashSet Hash) (note : Runtime Hash × Hash) : Checked (HashSet Hash) :=
  HashSet.InPlace.add note.1 held note.2

/-- The filter of the set that the client holds. -/
def heldFilter (r : Runtime Hash) (held : HashSet Hash) : Checked (Option HaveFilter) :=
  newHaveFilter held.len ((HashSet.InPlace.all r held).map keyOf64)

end ClientFilter

/-! ## The server -/

namespace HaveFilter

/-- The greatest number of positions of a hash. -/
def haveFilterMaxHashes : ℤ := 10

/-- Whether the filter says anything. -/
def usable : Option HaveFilter → Bool
  | none => false
  | some f => 0 < f.bits.length && 1 ≤ f.k && f.k ≤ haveFilterMaxHashes

/-- A position of a hash in a filter of `m` bits. -/
def haveFilterBit (h : Hash) (i : ℕ) (m : UInt32) : Checked UInt32 :=
  let key : UInt64 := .ofNat (beValue (h.bytes.take 8))
  let h1 := (key >>> 32).toUInt32
  let h2 := key.toUInt32 ||| 1
  remainder (h1 + .ofNat i * h2) m

/-- Whether the client has said that it holds a hash. -/
def contains (f : Option HaveFilter) (h : Hash) : Checked Bool :=
  if !usable f then .ok false
  else
    match f with
    | none => .error .nilPointer
    | some f =>
      let m : UInt32 := .ofNat (f.bits.length * 8)
      (List.range f.k.toNat).allM fun i => do
        let idx ← haveFilterBit h i m
        testBit f.bits idx.toNat

end HaveFilter

/-! ## Positions -/

/-- A position of a key, if there are bits. -/
def bitPosition (key : UInt64) (i n : ℕ) : ℕ :=
  (((key >>> 32).toUInt32 + .ofNat i * (key.toUInt32 ||| 1)) % .ofNat (n * 8)).toNat

section Positions

variable {key : UInt64} {i n : ℕ} {bits : Bytes}

/-- Both sides compute the same positions. -/
lemma haveFilterBit_keyOf64 (h : Hash) :
    HaveFilter.haveFilterBit h = ClientFilter.haveFilterBit (keyOf64 h) :=
  rfl

/-- In an array of `n` bytes a key has its positions within it. -/
lemma haveFilterBit_spec (key : UInt64) (i : ℕ) (hpos : 0 < n) (hlt : n * 8 < 2 ^ 32) :
    ∃ idx, ClientFilter.haveFilterBit key i (.ofNat (n * 8)) = .ok idx ∧
      idx.toNat = bitPosition key i n ∧ bitPosition key i n / 8 < n := by
  have hm : (UInt32.ofNat (n * 8)).toNat = n * 8 := UInt32.toNat_ofNat_of_lt hlt
  have hne : UInt32.ofNat (n * 8) ≠ 0 := by
    intro hzero
    rw [hzero, UInt32.toNat_zero] at hm
    omega
  rw [ClientFilter.haveFilterBit, remainder, if_neg hne]
  refine ⟨_, rfl, rfl, ?_⟩
  rw [bitPosition, UInt32.toNat_mod, hm, Nat.div_lt_iff_lt_mul (by decide)]
  exact Nat.mod_lt _ (by omega)

/-- A position of the filter can be asked for. -/
lemma testBit_haveFilterBit (key : UInt64) (i : ℕ) (hpos : 0 < bits.length)
    (hlt : bits.length * 8 < 2 ^ 32) :
    (do
      let idx ← ClientFilter.haveFilterBit key i (.ofNat (bits.length * 8))
      testBit bits idx.toNat) = testBit bits (bitPosition key i bits.length) := by
  obtain ⟨idx, hidx, hposition, -⟩ := haveFilterBit_spec key i hpos hlt
  rw [hidx, ok_bind, hposition]

lemma stateBit_marks (key : UInt64) (i : ℕ) (hpos : 0 < n) (hlt : n * 8 < 2 ^ 32)
    (hbits : bits.length = n) :
    ∃ bits', ClientFilter.stateBit (.ofNat (n * 8)) key bits i = .ok bits' ∧
      Marks bits bits' {bitPosition key i n} := by
  obtain ⟨idx, hidx, hposition, hmem⟩ := haveFilterBit_spec key i hpos hlt
  rw [ClientFilter.stateBit, hidx, ok_bind, hposition]
  exact setBit_marks (hbits ▸ hmem)

/-- Stating keys sets the positions of all of them. -/
lemma foldlM_stateKey_marks (all : List UInt64) (hpos : 0 < n) (hlt : n * 8 < 2 ^ 32)
    (hbits : bits.length = n) :
    ∃ bits', all.foldlM (ClientFilter.stateKey (.ofNat (n * 8))) bits = .ok bits' ∧
      Marks bits bits'
        {p | ∃ key ∈ all, ∃ i ∈ List.range 6, p ∈ ({bitPosition key i n} : Set ℕ)} := by
  refine foldlM_marks ?_ all hbits
  intro bits key hbits
  refine foldlM_marks ?_ (List.range 6) hbits
  intro bits i hbits
  exact stateBit_marks key i hpos hlt hbits

end Positions

lemma haveFilterBytes_bounds (n : ℤ) :
    2 ^ 10 ≤ ClientFilter.haveFilterBytes n ∧ ClientFilter.haveFilterBytes n ≤ 2 ^ 16 := by
  unfold ClientFilter.haveFilterBytes ClientFilter.haveFilterMinBytes
    ClientFilter.haveFilterMaxBytes
  dsimp only
  split_ifs
  · omega
  · omega
  · omega

/-! ## No false negatives -/

/-- The filter of a set of keys: it is of a size that fits in a request, and all positions of the
keys are set. -/
lemma newHaveFilter_spec {n : ℤ} (hn : n ≠ 0) (all : List UInt64) :
    ∃ bits, ClientFilter.newHaveFilter n all = .ok (some ⟨bits, 6⟩) ∧
      0 < bits.length ∧ bits.length ≤ 2 ^ 16 ∧
      ∀ key ∈ all, ∀ i < 6, IsSet bits (bitPosition key i bits.length) := by
  obtain ⟨hmin, hmax⟩ := haveFilterBytes_bounds n
  set size := (ClientFilter.haveFilterBytes n).toNat with hsize
  have hlength : (List.replicate size (0 : UInt8)).length = size := List.length_replicate
  obtain ⟨bits, hrun, hmarks⟩ := foldlM_stateKey_marks all (n := size) (by omega) (by omega) hlength
  have hbits : bits.length = size := hmarks.length.trans hlength
  refine ⟨bits, ?_, by omega, by omega, ?_⟩
  · rw [ClientFilter.newHaveFilter, if_neg hn]
    dsimp only
    rw [hlength, hrun]
    rfl
  · intro key hkey i hi
    rw [hbits]
    exact hmarks.sets _ ⟨key, hkey, i, List.mem_range.mpr hi, rfl⟩

/-- The server finds a hash whose positions are set. -/
lemma contains_of_isSet {bits : Bytes} {h : Hash} (hpos : 0 < bits.length)
    (hlt : bits.length * 8 < 2 ^ 32)
    (hset : ∀ i < 6, IsSet bits (bitPosition (keyOf64 h) i bits.length)) :
    HaveFilter.contains (some ⟨bits, 6⟩) h = .ok true := by
  have husable : HaveFilter.usable (some ⟨bits, 6⟩) = true := by
    simp [HaveFilter.usable, HaveFilter.haveFilterMaxHashes, hpos]
  rw [HaveFilter.contains, husable]
  refine allM_of_forall_true ?_
  intro i hi
  rw [haveFilterBit_keyOf64, testBit_haveFilterBit _ _ hpos hlt]
  exact hset i (List.mem_range.mp hi)

/-- Asking for the positions of a key has no fault. -/
lemma exists_allM_testBit {bits : Bytes} (hpos : 0 < bits.length) (hlt : bits.length * 8 < 2 ^ 32)
    (key : UInt64) (k : ℕ) :
    ∃ b, ((List.range k).allM fun i => do
      let idx ← ClientFilter.haveFilterBit key i (.ofNat (bits.length * 8))
      testBit bits idx.toNat) = .ok b := by
  refine exists_allM_eq_ok ?_
  intro i _
  obtain ⟨-, -, -, hmem⟩ := haveFilterBit_spec key i hpos hlt
  exact ⟨_, (testBit_haveFilterBit key i hpos hlt).trans (testBit_of_lt hmem)⟩

/-- Neither side has a fault on a filter that fits in a request. -/
lemma exists_contains (f : Option HaveFilter) (hf : ∀ g ∈ f, g.bits.length ≤ requestLimit)
    (h : Hash) :
    (∃ b, HaveFilter.contains f h = .ok b) ∧ ∃ b, ClientFilter.contains f h = .ok b := by
  cases f with
  | none => exact ⟨⟨false, rfl⟩, false, rfl⟩
  | some f =>
    have hlimit : f.bits.length ≤ 2 ^ 20 := hf f rfl
    have hlt : f.bits.length * 8 < 2 ^ 32 := by omega
    constructor
    · rw [HaveFilter.contains]
      split_ifs with husable
      · exact ⟨false, rfl⟩
      · have hpos : 0 < f.bits.length := by
          simp only [HaveFilter.usable, Bool.not_eq_true', Bool.not_eq_false, Bool.and_eq_true,
            decide_eq_true_eq] at husable
          exact husable.1.1
        exact exists_allM_testBit hpos hlt (keyOf64 h) f.k.toNat
    · rw [ClientFilter.contains]
      split_ifs with hempty
      · exact ⟨false, rfl⟩
      · exact exists_allM_testBit (Nat.pos_of_ne_zero hempty) hlt (keyOf64 h) f.k.toNat

/-- The filter has no false negatives. Whatever hashes a client has noted, in any order and any
number, the filter it states is usable for the server and fits in a request, and the server finds
every one of them in it. On any filter that fits in a request, and any hash, neither side reads
outside the array. -/
theorem heldFilter_contains (r : Runtime Hash) (noted : List (Runtime Hash × Hash))
    (hnoted : noted ≠ []) :
    (∃ held f, noted.foldlM ClientFilter.noteHeld ClientFilter.newHashSet = .ok held ∧
      ClientFilter.heldFilter r held = .ok (some f) ∧ HaveFilter.usable (some f) = true ∧
      f.bits.length ≤ requestLimit ∧
      ∀ note ∈ noted, HaveFilter.contains (some f) note.2 = .ok true) ∧
    ∀ f : Option HaveFilter, (∀ g ∈ f, g.bits.length ≤ requestLimit) → ∀ h,
      (∃ b, HaveFilter.contains f h = .ok b) ∧ ∃ b, ClientFilter.contains f h = .ok b := by
  refine ⟨?_, exists_contains⟩
  have hstart : ClientFilter.newHashSet.Valid := HashSet.valid_adoptSorted []
  have hrun := HashSet.InPlace.foldlM_add_eq (Prod.fst : Runtime Hash × Hash → _) Prod.snd noted
    hstart
  obtain ⟨hvalid, hmem⟩ := HashSet.foldl_add_spec (Prod.snd : Runtime Hash × Hash → _) noted hstart
  set held := noted.foldl (fun s note => s.add note.2) ClientFilter.newHashSet
  have hheld : ∀ note ∈ noted, note.2 ∈ held.all := fun note hnote =>
    (hmem note.2).mpr (Or.inl ⟨note, hnote, rfl⟩)
  have hlen : (held.len : ℤ) ≠ 0 := by
    obtain ⟨note, hnote⟩ := List.exists_mem_of_ne_nil noted hnoted
    rw [HashSet.len_eq hvalid]
    exact_mod_cast (List.length_pos_of_mem (hheld note hnote)).ne'
  obtain ⟨bits, hfilter, hpos, hle, hset⟩ :=
    newHaveFilter_spec hlen ((HashSet.InPlace.all r held).map keyOf64)
  refine ⟨held, ⟨bits, 6⟩, hrun, hfilter, ?_, ?_, ?_⟩
  · simp [HaveFilter.usable, HaveFilter.haveFilterMaxHashes, hpos]
  · exact hle.trans (by decide)
  · intro note hnote
    refine contains_of_isSet hpos (by omega) (hset _ ?_)
    refine List.mem_map_of_mem ?_
    exact (HashSet.InPlace.all_perm r held).mem_iff.mpr (hheld note hnote)

theorem heldFilter_contains_oneHash :
    ∃ held f,
      [(plainRuntime 32, zeroHash)].foldlM ClientFilter.noteHeld ClientFilter.newHashSet
        = .ok held ∧
      ClientFilter.heldFilter (plainRuntime 32) held = .ok (some f) ∧
      HaveFilter.contains (some f) zeroHash = .ok true := by
  obtain ⟨⟨held, f, hrun, hfilter, _, _, hcontains⟩, _⟩ :=
    heldFilter_contains (plainRuntime 32) [(plainRuntime 32, zeroHash)] (List.cons_ne_nil _ _)
  exact ⟨held, f, hrun, hfilter, hcontains (plainRuntime 32, zeroHash) (List.mem_singleton_self _)⟩

end GoBuildCache
