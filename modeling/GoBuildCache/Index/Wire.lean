import GoBuildCache.Foundation.RiceCode
import GoBuildCache.Key

/-!
# The wire forms of the index

The index is served as a blob: a header, a body, and the sha256 digest of both. Version 1 lists
the leading bytes of every hash (`marshalGBCIWidth`); version 2 lists the leading bits of every
hash as Rice-coded gaps (`marshalGBCI2`), packed by a `BitWriter`. Hashes that agree on what a
form keeps are written once.

The writer is described by the bits it has taken so far (`BitWriter.bits`): `bits_writeBits`,
`bits_writeUnary` and `bytesToBits_flush` say what each operation appends, and
`bits_writeValues` puts them together: the body of a version 2 blob is the Rice code of its
values, padded with zeros to a whole byte.
-/

open ByteString BitString SortedList RiceCode

namespace GoBuildCache

/-! ## Packing bits -/

/-- A buffer to which bits are appended, most significant first. -/
structure BitWriter where
  /-- The complete bytes. -/
  buf : Bytes
  /-- The low `n` bits are pending. -/
  acc : ℕ
  /-- The number of pending bits. -/
  n : ℕ
  /-- Between two calls less than a byte is pending. -/
  n_lt : n < 8

namespace BitWriter

/-- A writer that has taken nothing. -/
def empty : BitWriter := ⟨[], 0, 0, by decide⟩

/-- Moves complete bytes from the pending bits to the buffer. -/
def drain (acc : ℕ) (buf : Bytes) (n : ℕ) : BitWriter :=
  if h : 8 ≤ n then drain acc (buf ++ [UInt8.ofNat (acc >>> (n - 8))]) (n - 8)
  else ⟨buf, acc, n, by omega⟩
termination_by n

/-- `writeBits` for at most 32 bits. -/
def writeChunk (w : BitWriter) (v nbits : ℕ) : BitWriter :=
  drain (wrap64 (w.acc <<< nbits) ||| (v &&& (2 ^ nbits - 1))) w.buf (w.n + nbits)

/-- Appends the low `nbits` bits of `v`. -/
def writeBits (w : BitWriter) (v nbits : ℕ) : BitWriter :=
  if 32 < nbits then
    writeBits (w.writeChunk (v >>> (nbits - 32)) 32) (v &&& (2 ^ 32 - 1)) (nbits - 32)
  else w.writeChunk v nbits
termination_by nbits

/-- Appends `q` ones and a zero. -/
def writeUnary (w : BitWriter) (q : ℕ) : BitWriter :=
  if 32 ≤ q then writeUnary (w.writeBits (2 ^ 32 - 1) 32) (q - 32)
  else w.writeBits ((2 ^ q - 1) <<< 1) (q + 1)
termination_by q

/-- Pads the pending bits to a byte and returns the buffer. -/
def flush (w : BitWriter) : Bytes :=
  if 0 < w.n then w.buf ++ [UInt8.ofNat (wrap64 (w.acc <<< (8 - w.n)))] else w.buf

/-- The bits taken so far. -/
def bits (w : BitWriter) : List Bool :=
  bytesToBits w.buf ++ bitsBE w.n w.acc

@[simp]
lemma bits_empty : empty.bits = [] :=
  rfl

/-- Draining moves bits but keeps their sequence. -/
lemma bits_drain (acc : ℕ) (buf : Bytes) (n : ℕ) :
    (drain acc buf n).bits = bytesToBits buf ++ bitsBE n acc := by
  fun_induction drain acc buf n with
  | case1 buf n h ih =>
    have hsplit : bitsBE n acc = bitsBE 8 (acc >>> (n - 8)) ++ bitsBE (n - 8) acc := by
      have hadd := bitsBE_add 8 (n - 8) acc
      rwa [Nat.add_sub_cancel' h, ← Nat.shiftRight_eq_div_pow] at hadd
    rw [ih, bytesToBits_append, bytesToBits_cons, bitsBE_toNat_ofNat, bytesToBits_nil,
      List.append_nil, List.append_assoc, ← hsplit]
  | case2 buf n h => rfl

lemma bits_writeChunk (w : BitWriter) (v : ℕ) {nbits : ℕ} (h : nbits ≤ 32) :
    (w.writeChunk v nbits).bits = w.bits ++ bitsBE nbits v := by
  have hn := w.n_lt
  have hacc : bitsBE (w.n + nbits) (wrap64 (w.acc <<< nbits) ||| (v &&& (2 ^ nbits - 1)))
      = bitsBE (w.n + nbits) (w.acc * 2 ^ nbits + v % 2 ^ nbits) := by
    have hlow : v % 2 ^ nbits < 2 ^ nbits := Nat.mod_lt _ (by positivity)
    rw [← Nat.shiftLeft_eq, Nat.shiftLeft_add_eq_or_of_lt hlow, Nat.and_two_pow_sub_one_eq_mod]
    apply bitsBE_congr
    intro i hi
    rw [Nat.testBit_or, Nat.testBit_or, wrap64, Nat.testBit_mod_two_pow]
    simp [show i < 64 by omega]
  rw [writeChunk, bits_drain, hacc, bitsBE_mul_add (Nat.mod_lt _ (by positivity)),
    bitsBE_mod le_rfl, bits, List.append_assoc]

/-- `writeBits` appends the bits it is given. -/
lemma bits_writeBits (w : BitWriter) (v : ℕ) {nbits : ℕ} (h64 : nbits ≤ 64) :
    (w.writeBits v nbits).bits = w.bits ++ bitsBE nbits v := by
  fun_induction writeBits w v nbits with
  | case1 w v nbits h ih =>
    have hlow : bitsBE (nbits - 32) (v &&& (2 ^ 32 - 1)) = bitsBE (nbits - 32) v := by
      rw [Nat.and_two_pow_sub_one_eq_mod, bitsBE_mod (by omega)]
    have hadd := bitsBE_add 32 (nbits - 32) v
    rw [Nat.add_sub_cancel' h.le, ← Nat.shiftRight_eq_div_pow] at hadd
    rw [ih (by omega), bits_writeChunk w _ le_rfl, hlow, hadd, List.append_assoc]
  | case2 w v nbits h => exact bits_writeChunk w v (not_lt.mp h)

/-- `writeUnary` appends the unary code. -/
lemma bits_writeUnary (w : BitWriter) (q : ℕ) :
    (w.writeUnary q).bits = w.bits ++ unary q := by
  fun_induction writeUnary w q with
  | case1 w q h ih =>
    have hones : unary q = List.replicate 32 true ++ unary (q - 32) := by
      rw [unary, unary, ← List.append_assoc, List.replicate_append_replicate,
        Nat.add_sub_cancel' h]
    rw [ih, bits_writeBits w _ (by decide), bitsBE_two_pow_sub_one, hones, List.append_assoc]
  | case2 w q h =>
    have hcode : bitsBE (q + 1) ((2 ^ q - 1) <<< 1) = unary q := by
      rw [Nat.shiftLeft_eq, bitsBE_mul_two_pow, bitsBE_two_pow_sub_one]
      rfl
    rw [bits_writeBits w _ (by omega), hcode]

/-- `flush` appends zeros up to the next byte boundary. -/
lemma bytesToBits_flush (w : BitWriter) :
    ∃ pad < 8, bytesToBits w.flush = w.bits ++ List.replicate pad false := by
  rw [flush]
  split_ifs with h
  · refine ⟨8 - w.n, by omega, ?_⟩
    have hn := w.n_lt
    have hbyte : bitsBE 8 (wrap64 (w.acc <<< (8 - w.n)))
        = bitsBE w.n w.acc ++ List.replicate (8 - w.n) false := by
      have hmul := bitsBE_mul_two_pow w.n (8 - w.n) w.acc
      rw [Nat.add_sub_cancel' hn.le] at hmul
      rw [wrap64, bitsBE_mod (by decide), Nat.shiftLeft_eq, hmul]
    rw [bytesToBits_append, bytesToBits_cons, bytesToBits_nil, List.append_nil,
      bitsBE_toNat_ofNat, hbyte, bits, List.append_assoc]
  · refine ⟨0, by decide, ?_⟩
    have hn : w.n = 0 := by omega
    rw [bits, hn]
    simp [bitsBE]

end BitWriter

/-! ## Version 2: Rice-coded gaps -/

/-- The number of bits needed for `v`: `bits.Len64`. -/
def len64 (v : ℕ) : ℕ := v.size

/-- The Rice parameter for `n` values of `widthBits` bits. -/
def riceParam (widthBits n : ℕ) : ℕ :=
  min (if 1 < n then widthBits - len64 (n - 1) else widthBits) 63

/-- The gap that is written for `v` after the value `prev`, if there is one. -/
def gapAfter : Option ℕ → ℕ → ℕ
  | none, v => v
  | some p, v => sub64 (sub64 v p) 1

/-- Writes the gaps between the values. -/
def writeValues (k : ℕ) : BitWriter → Option ℕ → List ℕ → BitWriter
  | w, _, [] => w
  | w, prev, v :: vs =>
    let g := gapAfter prev v
    writeValues k ((w.writeUnary (g >>> k)).writeBits (g &&& (2 ^ k - 1)) k) (some v) vs

/-- The four bytes that identify an index blob. -/
def gbciMagic : Bytes := ascii "GBCI"

/-- The header of a blob: the two bytes that depend on the form, the first eight bytes of the
digest of the body, and the number of entries. -/
def gbciHeader (sha256 : Sha256) (version width param : UInt8) (count : ℕ) (body : Bytes) : Bytes :=
  gbciMagic ++ [version, width, param, 0] ++ (sha256 body).bytes.take 8 ++ leBytes 8 count

/-- A blob: the header, the body, and the digest of both. -/
def gbciBlob (sha256 : Sha256) (version width param : UInt8) (count : ℕ) (body : Bytes) : Bytes :=
  let signed := gbciHeader sha256 version width param count body ++ body
  signed ++ (sha256 signed).bytes

/-- The version 2 blob of an ascending list of values of `widthBits` bits. -/
def marshalGBCI2 (sha256 : Sha256) (widthBits : ℕ) (values : List ℕ) : Bytes :=
  let k := riceParam widthBits values.length
  let body := (writeValues k .empty none values).flush
  gbciBlob sha256 2 (UInt8.ofNat widthBits) (UInt8.ofNat k) values.length body

/-- The leading `bits` bits of a hash, at most 64 of them. -/
def prefixBits (bits : ℕ) (h : Hash) : ℕ :=
  beValue (h.bytes.take 8) >>> (64 - bits)

/-- The leading bits of the hashes in the union of two ascending lists, ascending, each once. -/
def prefixValues (a b : List Hash) (bits : ℕ) : List ℕ :=
  collapse (prefixBits bits) (a.merge b (· ≤ ·))

/-! ## Version 1: entries of a fixed size -/

/-- The entries of a version 1 body: the first `width` bytes of every hash, an entry that repeats
the one before it left out. -/
def entriesOfWidth (hashes : List Hash) (width : ℕ) : List Bytes :=
  (hashes.map fun h => h.bytes.take width).destutter (· ≠ ·)

/-- The version 1 blob of an ascending list of hashes. -/
def marshalGBCIWidth (sha256 : Sha256) (hashes : List Hash) (width : ℕ) : Bytes :=
  let entries := entriesOfWidth hashes width
  gbciBlob sha256 1 (UInt8.ofNat width) 0 entries.length entries.flatten

/-! ## Forms -/

/-- A serialization of the index that the server serves: the wire version and the hash width, in
bytes for version 1 and in bits for version 2. -/
structure IndexForm where
  /-- The wire version. -/
  version : ℕ
  /-- The width of an entry. -/
  width : ℕ
  /-- Version 1 lists whole hashes or their first `gbciPrefixSize` bytes; the width of version 2
  lies between `indexHashBitsMin` and `indexHashBitsMax`. -/
  valid : (version = 1 ∧ (width = 32 ∨ width = 8)) ∨ (version = 2 ∧ 32 ≤ width ∧ width ≤ 64)
  deriving DecidableEq

/-- Encodes an ascending list of hashes in a form. -/
def marshalForm (sha256 : Sha256) (hashes : List Hash) (form : IndexForm) : Bytes :=
  if form.version = 2 then
    marshalGBCI2 sha256 form.width (prefixValues hashes [] form.width)
  else marshalGBCIWidth sha256 hashes form.width

/-- The ETag of a blob: its trailer in hexadecimal, in quotes. -/
def blobETag (blob : Bytes) : Bytes :=
  ascii "\"" ++ hexEncode (blob.drop (blob.length - 32)) ++ ascii "\""

/-! ## What the writer writes -/

/-- The gap computed modulo `2 ^ 64` is the true one. -/
lemma gapAfter_eq {prev : Option ℕ} {v : ℕ} (hprev : floor prev ≤ v) (hv : v < 2 ^ 64) :
    gapAfter prev v = v - floor prev := by
  cases prev with
  | none => simp [gapAfter, floor]
  | some p =>
    have hp : p + 1 ≤ v := hprev
    rw [gapAfter, floor, sub64_of_le (by omega) hv, sub64_of_le (by omega) (by omega)]
    omega

/-- The writer appends the Rice code of the values. -/
lemma bits_writeValues {k : ℕ} (hk : k ≤ 63) {prev : Option ℕ} {vs : List ℕ}
    (hvs : AscendsFrom prev vs) (h64 : ∀ v ∈ vs, v < 2 ^ 64) (w : BitWriter) :
    (writeValues k w prev vs).bits = w.bits ++ bitsFrom k prev vs := by
  induction vs generalizing w prev with
  | nil => simp [writeValues, bitsFrom, gapsFrom]
  | cons v vs ih =>
    have hgap := gapAfter_eq hvs.floor_le (h64 v (by simp))
    have hlow : bitsBE k ((v - floor prev) &&& (2 ^ k - 1)) = bitsBE k (v - floor prev) := by
      rw [Nat.and_two_pow_sub_one_eq_mod, bitsBE_mod le_rfl]
    simp only [writeValues]
    rw [hgap, ih hvs.tail fun u hu => h64 u (by simp [hu]), BitWriter.bits_writeBits _ _ (by omega),
      BitWriter.bits_writeUnary, hlow, bitsFrom_cons, code, Nat.shiftRight_eq_div_pow]
    simp only [List.append_assoc]

/-- The body of a version 2 blob is the Rice code of its values, padded to a whole byte. -/
lemma bytesToBits_body {k : ℕ} (hk : k ≤ 63) {vs : List ℕ} (hvs : Ascending vs)
    (h64 : ∀ v ∈ vs, v < 2 ^ 64) :
    ∃ pad < 8, bytesToBits (writeValues k .empty none vs).flush
      = bitsFrom k none vs ++ List.replicate pad false := by
  obtain ⟨pad, hpad, hflush⟩ := (writeValues k .empty none vs).bytesToBits_flush
  refine ⟨pad, hpad, ?_⟩
  rw [hflush, bits_writeValues hk (ascendsFrom_none hvs) h64, BitWriter.bits_empty,
    List.nil_append]

lemma riceParam_le (widthBits n : ℕ) : riceParam widthBits n ≤ 63 :=
  min_le_right _ _

/-! ## What a form keeps of a hash -/

lemma prefixBits_lt {bits : ℕ} (hbits : bits ≤ 64) (h : Hash) : prefixBits bits h < 2 ^ bits := by
  have hlt : beValue (h.bytes.take 8) < 2 ^ bits * 2 ^ (64 - bits) := by
    have h8 := beValue_lt (h.bytes.take 8)
    rw [List.length_take, h.size] at h8
    rw [← pow_add, Nat.add_sub_cancel' hbits]
    exact h8
  rw [prefixBits, Nat.shiftRight_eq_div_pow]
  exact Nat.div_lt_of_lt_mul (by rwa [Nat.mul_comm])

/-- The leading bytes of a hash grow with the hash. -/
lemma monotone_beValue_take (n : ℕ) : Monotone fun h : Hash => beValue (h.bytes.take n) := by
  intro a b hab
  simp only [beValue_take, a.size, b.size]
  exact Nat.div_le_div_right hab

/-- The leading bits of a hash grow with the hash. -/
lemma monotone_prefixBits (bits : ℕ) : Monotone (prefixBits bits) := by
  intro a b hab
  simp only [prefixBits, Nat.shiftRight_eq_div_pow]
  exact Nat.div_le_div_right (monotone_beValue_take 8 hab)

lemma prefixValues_nil (hashes : List Hash) (bits : ℕ) :
    prefixValues hashes [] bits = collapse (prefixBits bits) hashes := by
  simp [prefixValues]

end GoBuildCache
