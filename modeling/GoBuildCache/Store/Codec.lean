import GoBuildCache.Foundation.Bytes

/-!
# Stored bodies

A stored body names its codec in its first bytes (`frameCodec`). Several readers look inside a body:
the module-index guards of reads and of uploads need the first decompressed bytes
(`readIsModuleIndex`, `looksLikeGoModuleIndex`), which for most lz4 frames can be read off the frame
itself (`lz4LeadingBytes`), the self-heal needs all of them (`decompressBody`), and the comparison
of build ids takes what there is (`decompressedBytes`). The decoders of the compression libraries
are parameters.
-/

open ByteString

namespace GoBuildCache

/-- How a module index starts. -/
def goModuleIndexMagic : Bytes := ascii "go index v"

/-- How many decompressed bytes are read to recognise a module index. -/
def indexMagicProbeBytes : ℕ := 16

/-- How many leading bytes of a body the guard looks at. -/
def lz4HeadPeekBytes : ℕ := 64

/-- How many leading bytes settle the codec. -/
def codecPeekBytes : ℕ := 4

/-- The number that starts a zstd frame. -/
def zstdFrameMagic : ℕ := 0xFD2FB528

/-- The number that starts an lz4 frame. -/
def lz4FrameMagic : ℕ := 0x184D2204

/-- A codec that a body can name. -/
inductive Codec where
  | zstd
  | lz4
  deriving DecidableEq

/-- How the stream of a decoder ends. -/
inductive DecodeEnd where
  /-- `io.EOF`. -/
  | eof
  /-- `io.ErrUnexpectedEOF`. -/
  | unexpectedEOF
  /-- Any other error. -/
  | failed
  deriving DecidableEq

/-- What a decoder makes of a body. -/
structure Decoded where
  /-- The bytes that it yields. -/
  out : Bytes
  /-- What it reports then. -/
  ending : DecodeEnd

/-- The decoders of the compression libraries. -/
structure Decoders where
  /-- The reader of lz4 frames. -/
  lz4 : Bytes → Decoded
  /-- The reader of zstd frames. -/
  zstd : Bytes → Decoded

/-- `io.ReadFull` into a buffer of `n` bytes; a stream that ends early, expected or not, yields what
it has. -/
def Decoded.readFull (d : Decoded) (n : ℕ) : Option Bytes :=
  if n ≤ d.out.length then some (d.out.take n)
  else if d.ending = .failed then none
  else some d.out

/-- The codec that a body starts with. -/
def frameCodec (head : Bytes) : Option Codec :=
  if head.length < codecPeekBytes then none
  else if leValue (head.take 4) = zstdFrameMagic then some .zstd
  else if leValue (head.take 4) = lz4FrameMagic then some .lz4
  else none

/-! ## The head of an lz4 frame -/

/-- The length of a literal run that does not fit into the token, and what follows it. -/
def lz4LitLen : ℕ → Bytes → Option (ℕ × Bytes)
  | _, [] => none
  | litLen, b :: rest =>
    if b ≠ 255 then some (litLen + b.toNat, rest) else lz4LitLen (litLen + b.toNat) rest

/-- The first `avail` bytes, of which at least one must be there and at most `want` are taken. -/
def leadingRun (rest : Bytes) (avail want : ℕ) : Option Bytes :=
  let avail := min rest.length avail
  if avail = 0 then none else some (rest.take (min avail want))

/-- Up to `want` leading decompressed bytes of the frame at the start of `head`, read off its first
literal run. -/
def lz4LeadingBytes (head : Bytes) (want : ℕ) : Option Bytes :=
  if head.length < 7 then none
  else if leValue (head.take 4) ≠ lz4FrameMagic then none
  else
    let flg := head.getD 4 0
    if flg >>> 6 ≠ 1 then none
    else if flg &&& 0x01 ≠ 0 then none -- a dictionary may supply the leading bytes
    else
      -- The descriptor ends with an optional content size and a checksum.
      let rest := head.drop (if flg &&& 0x08 ≠ 0 then 15 else 7)
      if rest.length < 4 then none
      else
        let blockSize := leValue (rest.take 4)
        let rest := rest.drop 4
        if blockSize = 0 then none
        else if blockSize.testBit 31 then leadingRun rest (blockSize % 2 ^ 31) want
        else
          match rest with
          | [] => none
          | token :: rest =>
            let run := if token >>> 4 = 15 then lz4LitLen 15 rest
              else some ((token >>> 4).toNat, rest)
            match run with
            | none => none
            | some (litLen, rest) => leadingRun rest litLen want

/-- Whether the frame at the start of `head` decompresses to something that begins with `want`, when
its first literal run settles that. -/
def lz4HasPrefix (head want : Bytes) : Option Bool :=
  match lz4LeadingBytes head want.length with
  | none => none
  | some lead =>
    if want.length ≤ lead.length then some (lead.take want.length = want)
    else if want.take lead.length ≠ lead then some false
    else none

/-! ## Looking inside a body -/

/-- Whether a decoded stream starts like a module index. -/
def Decoded.startsModuleIndex (d : Decoded) : Bool :=
  match d.readFull indexMagicProbeBytes with
  | none => false
  | some buf => goModuleIndexMagic.isPrefixOf buf

/-- Whether a body is a module index, under the `compression` hint of its metadata. A frame that
does not decode is none. -/
def readIsModuleIndex (dec : Decoders) (body compression : Bytes) : Bool :=
  let head := body.take lz4HeadPeekBytes
  let codec := frameCodec head
  if codec = some .zstd then (dec.zstd body).startsModuleIndex
  else if compression = ascii "lz4" ∨ codec = some .lz4 then
    match lz4HasPrefix head goModuleIndexMagic with
    | some verdict => verdict
    | none => (dec.lz4 body).startsModuleIndex
  else goModuleIndexMagic.isPrefixOf (body.take indexMagicProbeBytes)

/-- The bytes that a decoder yields, if it gets to their end. -/
def Decoded.all (d : Decoded) : Option Bytes :=
  if d.ending = .eof then some d.out else none

/-- All of the decompressed bytes of a body. A body that is no compressed frame has none. -/
def decompressBody (dec : Decoders) (body : Bytes) : Option Bytes :=
  match frameCodec (body.take codecPeekBytes) with
  | some .zstd => (dec.zstd body).all
  | some .lz4 => (dec.lz4 body).all
  | none => none

/-- The decompressed bytes that can be read of a body: those before an error, and the body itself if
it is no compressed frame. -/
def decompressedBytes (dec : Decoders) (body : Bytes) : Bytes :=
  match frameCodec (body.take codecPeekBytes) with
  | some .zstd => (dec.zstd body).out
  | some .lz4 => (dec.lz4 body).out
  | none => body

/-- How many leading bytes of an upload the guard looks at. -/
def indexPutPeekBytes : ℕ := 2 ^ 20

/-- Whether the leading bytes of an upload are those of a module index. -/
def looksLikeGoModuleIndex (dec : Decoders) (input compression : Bytes) : Bool :=
  if frameCodec input = some .zstd then readIsModuleIndex dec input compression
  else if compression = ascii "lz4" ∨ frameCodec input = some .lz4 then
    match lz4HasPrefix input goModuleIndexMagic with
    | some verdict => verdict
    | none => goModuleIndexMagic.isPrefixOf ((dec.lz4 input).out.take indexMagicProbeBytes)
  else goModuleIndexMagic.isPrefixOf input

end GoBuildCache
