import GoBuildCache.Foundation.Bytes

/-!
# The lz4 frame format

A stream is a sequence of frames. A frame is a descriptor, blocks up to an end mark, and an optional
checksum; the data of a block are stored as they are, or are sequences of literals and of copies of
earlier output. `decode` is the content of a stream, if the stream is well formed. The checksum
function is a parameter.

Every step of the decoder appends to what it has. So the content begins with the output of the first
block (`prefix_of_decode`), and that one with the first run of literals
(`literals_prefix_of_decodeSequences`).
-/

open ByteString

namespace Lz4

/-- The number that starts a frame. -/
def frameMagic : ℕ := 0x184D2204

/-- The numbers that start a frame without content, up to the last four bits. -/
def skippableMagic : ℕ := 0x184D2A5

/-- The first `n` bytes, and what follows them. -/
def split (n : ℕ) (src : Bytes) : Option (Bytes × Bytes) :=
  if src.length < n then none else some (src.take n, src.drop n)

/-! ## Blocks -/

/-- A length goes on with bytes to be added, up to one that is not 255. -/
def extendLength : ℕ → Bytes → Option (ℕ × Bytes)
  | _, [] => none
  | len, b :: src =>
    if b ≠ 255 then some (len + b.toNat, src) else extendLength (len + b.toNat) src

/-- A length of four bits, which goes on if they are all set. -/
def readLength (bits : UInt8) (src : Bytes) : Option (ℕ × Bytes) :=
  if bits = 15 then extendLength 15 src else some (bits.toNat, src)

/-- Appends `len` bytes, each one a copy of the byte `offset` positions before it. -/
def copyMatch (offset : ℕ) : ℕ → Bytes → Bytes
  | 0, out => out
  | len + 1, out => copyMatch offset len (out ++ [out.getD (out.length - offset) 0])

/-- Decodes the sequences of a block and appends them to `out`. Copies may reach back into what
`out` was at the start. The last sequence ends with its literals. -/
def decodeSequences : ℕ → Bytes → Bytes → Option Bytes
  | 0, _, _ => none
  | _ + 1, _, [] => none
  | fuel + 1, out, token :: src => do
    let (litLen, src) ← readLength (token >>> 4) src
    let (literals, src) ← split litLen src
    match src with
    | [] => some (out ++ literals)
    | [_] => none
    | lo :: hi :: src =>
      let offset := leValue [lo, hi]
      if offset = 0 ∨ (out ++ literals).length < offset then none
      else do
        let (matchLen, src) ← readLength (token &&& 15) src
        decodeSequences fuel (copyMatch offset (matchLen + 4) (out ++ literals)) src

/-! ## Frames -/

/-- What a frame says about itself. -/
structure Descriptor where
  /-- Whether copies stay within their block. -/
  blockIndependent : Bool
  /-- Whether a checksum follows each block. -/
  blockChecksum : Bool
  /-- The size of the content, if it is told. -/
  contentSize : Option ℕ
  /-- Whether a checksum follows the content. -/
  contentChecksum : Bool
  /-- The greatest size of the output of a block. -/
  blockMax : ℕ

/-- Reads the descriptor behind the magic number. A frame that needs a dictionary has no content of
its own. -/
def readDescriptor (checksum : Bytes → ℕ) (src : Bytes) : Option (Descriptor × Bytes) :=
  let flg := src.getD 0 0
  let bd := src.getD 1 0
  let len := if flg &&& 0x08 ≠ 0 then 10 else 2
  if src.length < len + 1 then none
  else if flg >>> 6 ≠ 1 ∨ flg &&& 0x02 ≠ 0 ∨ flg &&& 0x01 ≠ 0 then none
  else if bd &&& 0x8F ≠ 0 ∨ bd >>> 4 < 4 then none
  else if (src.getD len 0).toNat ≠ checksum (src.take len) / 256 % 256 then none
  else
    some
      (⟨flg &&& 0x20 ≠ 0, flg &&& 0x10 ≠ 0,
          if flg &&& 0x08 ≠ 0 then some (leValue ((src.drop 2).take 8)) else none,
          flg &&& 0x04 ≠ 0, 4 ^ ((bd >>> 4).toNat + 4)⟩,
        src.drop (len + 1))

/-- Reads a checksum, if there is to be one, and compares it with that of `bytes`. -/
def readChecksum (checksum : Bytes → ℕ) (present : Bool) (bytes src : Bytes) : Option Bytes :=
  if present then
    (split 4 src).bind fun (sum, rest) => if leValue sum = checksum bytes then some rest else none
  else some src

/-- The output of the data of a block, appended to that of the blocks before it. -/
def decodeData (d : Descriptor) (stored : Bool) (out data : Bytes) : Option Bytes :=
  if stored then some (out ++ data)
  else if d.blockIndependent then (decodeSequences data.length [] data).map (out ++ ·)
  else decodeSequences data.length out data

/-- Decodes blocks up to the end mark and appends them to `out`. The top bit of the size says
whether the data are stored as they are. -/
def decodeBlocks (checksum : Bytes → ℕ) (d : Descriptor) :
    ℕ → Bytes → Bytes → Option (Bytes × Bytes)
  | 0, _, _ => none
  | fuel + 1, out, src => do
    let (size, src) ← split 4 src
    if leValue size = 0 then some (out, src)
    else do
      let (data, src) ← split (leValue size % 2 ^ 31) src
      let src ← readChecksum checksum d.blockChecksum data src
      let out' ← decodeData d ((leValue size).testBit 31) out data
      if d.blockMax < out'.length - out.length then none
      else decodeBlocks checksum d fuel out' src

/-- The content of a frame with its magic number removed, and what follows the frame. -/
def decodeFrame (checksum : Bytes → ℕ) (src : Bytes) : Option (Bytes × Bytes) := do
  let (d, src) ← readDescriptor checksum src
  let (content, src) ← decodeBlocks checksum d src.length [] src
  let src ← readChecksum checksum d.contentChecksum content src
  if ∀ size ∈ d.contentSize, size = content.length then some (content, src) else none

/-- The content of a frame that readers skip, and what follows it. -/
def skipFrame (src : Bytes) : Option (Bytes × Bytes) := do
  let (size, src) ← split 4 src
  let (_, src) ← split (leValue size) src
  some ([], src)

/-- The content of a frame that starts with a magic number, and what follows it. -/
def decodeNext (checksum : Bytes → ℕ) (magic : ℕ) (src : Bytes) : Option (Bytes × Bytes) :=
  if magic = frameMagic then decodeFrame checksum src
  else if magic / 16 = skippableMagic then skipFrame src
  else none

/-- The content of a sequence of frames. -/
def decodeFrames (checksum : Bytes → ℕ) : ℕ → Bytes → Option Bytes
  | 0, src => if src = [] then some [] else none
  | fuel + 1, src =>
    if src = [] then some []
    else do
      let (magic, src) ← split 4 src
      let (content, src) ← decodeNext checksum (leValue magic) src
      let rest ← decodeFrames checksum fuel src
      some (content ++ rest)

/-- The content of a stream. -/
def decode (checksum : Bytes → ℕ) (src : Bytes) : Option Bytes :=
  decodeFrames checksum src.length src

/-! ## The content begins with the first literals -/

lemma split_eq_some {n : ℕ} {src xs rest : Bytes} (h : split n src = some (xs, rest)) :
    n ≤ src.length ∧ xs = src.take n ∧ rest = src.drop n := by
  unfold split at h
  split_ifs at h with hlen
  obtain ⟨rfl, rfl⟩ := Prod.mk.inj (Option.some.inj h)
  exact ⟨not_lt.mp hlen, rfl, rfl⟩

/-- A length that can be read off the start of a string is the same for the whole string. -/
lemma extendLength_append {start len : ℕ} {src rest : Bytes} (tail : Bytes)
    (h : extendLength start src = some (len, rest)) :
    extendLength start (src ++ tail) = some (len, rest ++ tail) := by
  induction src generalizing start with
  | nil => cases h
  | cons b src ih =>
    simp only [List.cons_append, extendLength] at h ⊢
    split_ifs at h ⊢ with hb
    · obtain ⟨rfl, rfl⟩ := Prod.mk.inj (Option.some.inj h)
      rfl
    · exact ih h

lemma readLength_append {bits : UInt8} {len : ℕ} {src rest : Bytes} (tail : Bytes)
    (h : readLength bits src = some (len, rest)) :
    readLength bits (src ++ tail) = some (len, rest ++ tail) := by
  unfold readLength at h ⊢
  split_ifs at h ⊢ with hbits
  · exact extendLength_append tail h
  · obtain ⟨rfl, rfl⟩ := Prod.mk.inj (Option.some.inj h)
    rfl

lemma prefix_copyMatch (offset len : ℕ) (out : Bytes) : out <+: copyMatch offset len out := by
  induction len generalizing out with
  | zero => exact List.prefix_rfl
  | succ len ih => exact (List.prefix_append out _).trans (ih _)

/-- The output of a block begins with what was there and the literals of the first sequence. -/
lemma literals_prefix_of_decodeSequences {fuel : ℕ} {out src out' : Bytes} {token : UInt8}
    (h : decodeSequences fuel out (token :: src) = some out') :
    ∃ litLen rest, readLength (token >>> 4) src = some (litLen, rest) ∧ litLen ≤ rest.length ∧
      out ++ rest.take litLen <+: out' := by
  induction fuel generalizing out token src with
  | zero => cases h
  | succ fuel ih =>
    simp only [decodeSequences, Option.bind_eq_bind, Option.bind_eq_some_iff, Prod.exists] at h
    obtain ⟨litLen, rest, hlen, literals, src', hsplit, h⟩ := h
    obtain ⟨hle, rfl, rfl⟩ := split_eq_some hsplit
    refine ⟨litLen, rest, hlen, hle, ?_⟩
    rcases hdrop : rest.drop litLen with _ | ⟨lo, _ | ⟨hi, src'⟩⟩ <;> rw [hdrop] at h
    · obtain rfl := Option.some.inj h
      exact List.prefix_rfl
    · cases h
    · dsimp only at h
      split_ifs at h
      simp only [Option.bind_eq_some_iff, Prod.exists] at h
      obtain ⟨matchLen, src'', -, h⟩ := h
      refine (prefix_copyMatch (leValue [lo, hi]) (matchLen + 4) _).trans ?_
      rcases src'' with _ | ⟨token', src''⟩
      · cases fuel <;> cases h
      · obtain ⟨n, rest', -, -, hprefix⟩ := ih h
        exact (List.prefix_append _ _).trans hprefix

lemma prefix_decodeSequences {fuel : ℕ} {out src out' : Bytes}
    (h : decodeSequences fuel out src = some out') : out <+: out' := by
  rcases src with _ | ⟨token, src⟩
  · cases fuel <;> cases h
  · obtain ⟨n, rest, -, -, hprefix⟩ := literals_prefix_of_decodeSequences h
    exact (List.prefix_append _ _).trans hprefix

lemma prefix_decodeData {d : Descriptor} {stored : Bool} {out data out' : Bytes}
    (h : decodeData d stored out data = some out') : out <+: out' := by
  unfold decodeData at h
  split_ifs at h
  · obtain rfl := Option.some.inj h
    exact List.prefix_append _ _
  · obtain ⟨block, -, rfl⟩ := Option.map_eq_some_iff.mp h
    exact List.prefix_append _ _
  · exact prefix_decodeSequences h

/-- The output of compressed data begins with the literals of the first sequence. -/
lemma literals_prefix_of_decodeData {d : Descriptor} {token : UInt8} {src out : Bytes}
    (h : decodeData d false [] (token :: src) = some out) :
    ∃ litLen rest, readLength (token >>> 4) src = some (litLen, rest) ∧ litLen ≤ rest.length ∧
      rest.take litLen <+: out := by
  have hsequences : decodeSequences (token :: src).length [] (token :: src) = some out := by
    rw [decodeData, if_neg Bool.false_ne_true] at h
    split_ifs at h
    · simpa using h
    · exact h
  exact literals_prefix_of_decodeSequences hsequences

/-- Blocks end at once, or begin with one whose output is appended first. -/
lemma decodeBlocks_succ {checksum : Bytes → ℕ} {d : Descriptor} {fuel : ℕ}
    {out src content rest : Bytes}
    (h : decodeBlocks checksum d (fuel + 1) out src = some (content, rest)) :
    4 ≤ src.length ∧ (leValue (src.take 4) = 0 ∧ content = out ∨
      leValue (src.take 4) % 2 ^ 31 ≤ (src.drop 4).length ∧
      ∃ out' src', decodeData d ((leValue (src.take 4)).testBit 31) out
          ((src.drop 4).take (leValue (src.take 4) % 2 ^ 31)) = some out' ∧
        decodeBlocks checksum d fuel out' src' = some (content, rest)) := by
  simp only [decodeBlocks, Option.bind_eq_bind, Option.bind_eq_some_iff, Prod.exists] at h
  obtain ⟨size, src₁, hsize, h⟩ := h
  obtain ⟨hlen, rfl, rfl⟩ := split_eq_some hsize
  refine ⟨hlen, ?_⟩
  split_ifs at h with hzero
  · exact Or.inl ⟨hzero, (Prod.mk.inj (Option.some.inj h)).1.symm⟩
  · simp only [Option.bind_eq_some_iff, Prod.exists] at h
    obtain ⟨data, src₂, hdata, src₃, -, out', hout, h⟩ := h
    obtain ⟨hlen', rfl, rfl⟩ := split_eq_some hdata
    split_ifs at h
    exact Or.inr ⟨hlen', out', src₃, hout, h⟩

lemma prefix_decodeBlocks {checksum : Bytes → ℕ} {d : Descriptor} {fuel : ℕ}
    {out src content rest : Bytes}
    (h : decodeBlocks checksum d fuel out src = some (content, rest)) : out <+: content := by
  induction fuel generalizing out src with
  | zero => cases h
  | succ fuel ih =>
    obtain ⟨-, ⟨-, rfl⟩ | ⟨-, out', src', hout, hrest⟩⟩ := decodeBlocks_succ h
    · exact List.prefix_rfl
    · exact (prefix_decodeData hout).trans (ih hrest)

/-- Where the first block of a stream starts that begins with the flags `flg` of a frame. -/
def firstBlock (flg : UInt8) (src : Bytes) : Bytes :=
  src.drop (if flg &&& 0x08 ≠ 0 then 15 else 7)

/-- The content of a stream that begins with a frame begins with the output of the first block, if
there is one. -/
lemma prefix_of_decode {checksum : Bytes → ℕ} {src content : Bytes}
    (hmagic : leValue (src.take 4) = frameMagic) (h : decode checksum src = some content) :
    let blocks := firstBlock (src.getD 4 0) src
    let size := leValue (blocks.take 4)
    size = 0 ∨ size % 2 ^ 31 ≤ (blocks.drop 4).length ∧ ∃ d out,
      decodeData d (size.testBit 31) [] ((blocks.drop 4).take (size % 2 ^ 31)) = some out ∧
        out <+: content := by
  intro blocks size
  rcases hlen : src.length with _ | fuel
  · rw [List.length_eq_zero_iff.mp hlen] at hmagic
    cases hmagic
  rw [decode, hlen, decodeFrames, if_neg (by rintro rfl; cases hlen)] at h
  simp only [Option.bind_eq_bind, Option.bind_eq_some_iff, Prod.exists] at h
  obtain ⟨magic, src₁, hsplit, content₁, src₂, hframe, more, -, hcontent⟩ := h
  obtain ⟨-, rfl, rfl⟩ := split_eq_some hsplit
  obtain rfl := Option.some.inj hcontent
  rw [decodeNext, if_pos hmagic] at hframe
  simp only [decodeFrame, Option.bind_eq_bind, Option.bind_eq_some_iff, Prod.exists] at hframe
  obtain ⟨d, src₃, hdescriptor, content₂, src₄, hblocks, src₅, -, hend⟩ := hframe
  split_ifs at hend
  obtain ⟨rfl, -⟩ := Prod.mk.inj (Option.some.inj hend)
  have hsrc : src₃ = blocks := by
    simp only [readDescriptor] at hdescriptor
    split_ifs at hdescriptor
    all_goals
      rw [← (Prod.mk.inj (Option.some.inj hdescriptor)).2, List.drop_drop]
      simp_all [blocks, firstBlock]
  rw [hsrc] at hblocks
  rcases hfuel : blocks.length with _ | fuel'
  · rw [hfuel] at hblocks
    cases hblocks
  rw [hfuel] at hblocks
  obtain ⟨-, ⟨hzero, -⟩ | ⟨hle, out, src', hout, hrest⟩⟩ := decodeBlocks_succ hblocks
  · exact Or.inl hzero
  · exact Or.inr ⟨hle, d, out, hout, (prefix_decodeBlocks hrest).trans (List.prefix_append _ _)⟩

end Lz4
