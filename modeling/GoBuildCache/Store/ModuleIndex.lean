import GoBuildCache.Foundation.Lz4
import GoBuildCache.Store.Objects

/-!
# Module indexes inside stored bodies

The content of a body is what its frame decompresses to, or the body itself if it is no compressed
frame (`bodyContent`). The read guard asks whether the content begins like a module index, and often
answers from the first bytes of the frame alone. With an exact lz4 decoder those bytes are the first
ones of the content (`lz4LeadingBytes_prefix`), so the guard finds every module index whose metadata
do not call a body compressed that is not (`readIsModuleIndex_of_holdsModuleIndex`).
-/

open ByteString

namespace GoBuildCache

/-- The decompressed content of a body. A frame that does not decode to its end has none. -/
def bodyContent (dec : Decoders) (body : Bytes) : Option Bytes :=
  match frameCodec (body.take codecPeekBytes) with
  | some .zstd => (dec.zstd body).all
  | some .lz4 => (dec.lz4 body).all
  | none => some body

/-- The content of the body begins like a module index. -/
def holdsModuleIndex (dec : Decoders) (body : Bytes) : Bool :=
  (bodyContent dec body).any (goModuleIndexMagic.isPrefixOf ·)

/-- The reader of lz4 frames comes to the end of a stream exactly if the stream is well formed, and
has then yielded its content. -/
def Lz4Exact (checksum : Bytes → ℕ) (dec : Decoders) : Prop :=
  ∀ body out, dec.lz4 body = ⟨out, .eof⟩ ↔ Lz4.decode checksum body = some out

/-- The compression hint of an object calls only compressed bodies compressed. -/
def StoredObject.HonestHint (o : StoredObject) : Prop :=
  o.md.get compressionMetaKey = ascii "lz4" → frameCodec o.body ≠ none

instance (o : StoredObject) : Decidable o.HonestHint :=
  inferInstanceAs (Decidable (_ → _))

/-! ## The head of a frame -/

lemma lz4LitLen_eq_extendLength (litLen : ℕ) (rest : Bytes) :
    lz4LitLen litLen rest = Lz4.extendLength litLen rest := by
  induction rest generalizing litLen with
  | nil => rfl
  | cons b rest ih => simp only [lz4LitLen, Lz4.extendLength, ih]

lemma leadingRun_head {rest lead : Bytes} {avail want : ℕ} (tail : Bytes)
    (h : leadingRun rest avail want = some lead) : lead <+: (rest ++ tail).take avail := by
  unfold leadingRun at h
  dsimp only at h
  split_ifs at h
  obtain rfl := Option.some.inj h
  have hle : min (min rest.length avail) want ≤ avail := by omega
  rw [show rest.take (min (min rest.length avail) want)
      = (rest ++ tail).take (min (min rest.length avail) want) by
    rw [List.take_append_of_le_length (by omega)]]
  exact List.take_prefix_take_left hle

lemma lz4Run_eq_readLength (token : UInt8) (rest : Bytes) :
    (if token >>> 4 = 15 then lz4LitLen 15 rest else some ((token >>> 4).toNat, rest))
      = Lz4.readLength (token >>> 4) rest := by
  rw [Lz4.readLength, lz4LitLen_eq_extendLength]

/-- What `lz4LeadingBytes` finds: the stored bytes of the first block, or the literals of its first
sequence. -/
lemma lz4LeadingBytes_eq_some_iff {head lead : Bytes} {want : ℕ} :
    lz4LeadingBytes head want = some lead ↔
      7 ≤ head.length ∧ leValue (head.take 4) = lz4FrameMagic ∧
        head.getD 4 0 >>> 6 = 1 ∧ head.getD 4 0 &&& 0x01 = 0 ∧
        let blocks := Lz4.firstBlock (head.getD 4 0) head
        let size := leValue (blocks.take 4)
        4 ≤ blocks.length ∧ size ≠ 0 ∧
          (size.testBit 31 = true ∧ leadingRun (blocks.drop 4) (size % 2 ^ 31) want = some lead ∨
            size.testBit 31 = false ∧ ∃ token rest litLen rest', blocks.drop 4 = token :: rest ∧
              Lz4.readLength (token >>> 4) rest = some (litLen, rest') ∧
              leadingRun rest' litLen want = some lead) := by
  have hfirst : head.drop (if head.getD 4 0 &&& 0x08 ≠ 0 then 15 else 7)
      = Lz4.firstBlock (head.getD 4 0) head := rfl
  unfold lz4LeadingBytes
  dsimp only
  rw [hfirst]
  simp only [lz4Run_eq_readLength]
  constructor
  · intro h
    split_ifs at h with hlen hmagic hversion hdict hblocks hzero hstored
    · exact ⟨not_lt.mp hlen, not_not.mp hmagic, not_not.mp hversion, not_not.mp hdict,
        not_lt.mp hblocks, hzero, Or.inl ⟨hstored, h⟩⟩
    · refine ⟨not_lt.mp hlen, not_not.mp hmagic, not_not.mp hversion, not_not.mp hdict,
        not_lt.mp hblocks, hzero, Or.inr ⟨by simpa using hstored, ?_⟩⟩
      split at h
      · cases h
      · next token rest hdrop =>
        split at h
        · cases h
        · next litLen rest' hrun => exact ⟨token, rest, litLen, rest', hdrop, hrun, h⟩
  · rintro ⟨hlen, hmagic, hversion, hdict, hblocks, hzero, hrun⟩
    rw [if_neg (not_lt.mpr hlen), if_neg (not_not.mpr hmagic), if_neg (not_not.mpr hversion),
      if_neg (not_not.mpr hdict), if_neg (not_lt.mpr hblocks), if_neg hzero]
    rcases hrun with ⟨hstored, hrun⟩ | ⟨hpacked, token, rest, litLen, rest', hdrop, hlength, hrun⟩
    · rw [if_pos hstored]
      exact hrun
    · rw [if_neg (Bool.eq_false_iff.mp hpacked), hdrop]
      dsimp only
      rw [hlength]
      exact hrun

/-- The descriptor of a frame, once it is in the head, is the same in every longer head. -/
lemma firstBlock_append {head : Bytes} (hlen : 7 ≤ head.length)
    (hblocks : 4 ≤ (Lz4.firstBlock (head.getD 4 0) head).length) (tail : Bytes) :
    (head ++ tail).take 4 = head.take 4 ∧ (head ++ tail).getD 4 0 = head.getD 4 0 ∧
      Lz4.firstBlock (head.getD 4 0) (head ++ tail)
        = Lz4.firstBlock (head.getD 4 0) head ++ tail := by
  refine ⟨List.take_append_of_le_length (by omega), ?_, ?_⟩
  · simp [List.getD, List.getElem?_append_left (show 4 < head.length by omega)]
  · unfold Lz4.firstBlock at hblocks ⊢
    rw [List.length_drop] at hblocks
    exact List.drop_append_of_le_length (by omega)

/-- The bytes that are read off the head of a frame are the first ones of its content. -/
lemma lz4LeadingBytes_prefix {checksum : Bytes → ℕ} {head tail content lead : Bytes} {want : ℕ}
    (hlead : lz4LeadingBytes head want = some lead)
    (hdecode : Lz4.decode checksum (head ++ tail) = some content) : lead <+: content := by
  obtain ⟨hlen, hmagic, -, -, hblocks, hzero, hrun⟩ := lz4LeadingBytes_eq_some_iff.mp hlead
  obtain ⟨htake, hflg, hfirst⟩ := firstBlock_append hlen hblocks tail
  have hcontent := Lz4.prefix_of_decode (by rw [htake]; exact hmagic) hdecode
  set blocks := Lz4.firstBlock (head.getD 4 0) head
  rw [hflg, hfirst] at hcontent
  simp only [List.take_append_of_le_length hblocks, List.drop_append_of_le_length hblocks]
    at hcontent
  obtain ⟨-, d, out, hout, hprefix⟩ := hcontent.resolve_left hzero
  refine List.IsPrefix.trans ?_ hprefix
  rcases hrun with ⟨hstored, hrun⟩ | ⟨hpacked, token, rest, litLen, rest', hdrop, hlength, hrun⟩
  · rw [hstored, Lz4.decodeData, if_pos rfl, List.nil_append] at hout
    obtain rfl := Option.some.inj hout
    exact leadingRun_head tail hrun
  · -- the decoder reads the length in the data of the block, and the guard in the bytes it has
    rw [hpacked, hdrop, List.cons_append] at hout
    rcases hsize : leValue (blocks.take 4) % 2 ^ 31 with _ | n
    · rw [hsize, List.take_zero] at hout
      simp [Lz4.decodeData, Lz4.decodeSequences] at hout
    rw [hsize, List.take_succ_cons] at hout
    obtain ⟨litLen', r, hlength', hle, hliterals⟩ := Lz4.literals_prefix_of_decodeData hout
    have hwhole := Lz4.readLength_append ((rest ++ tail).drop n) hlength'
    rw [List.take_append_drop, Lz4.readLength_append tail hlength] at hwhole
    obtain ⟨rfl, hrest⟩ := Prod.mk.inj (Option.some.inj hwhole)
    refine (leadingRun_head tail hrun).trans ?_
    rw [hrest, List.take_append_of_le_length hle]
    exact hliterals

/-- Whenever the head of a frame settles how the content begins, it settles it rightly. -/
lemma lz4HasPrefix_eq_some {checksum : Bytes → ℕ} {head tail content want : Bytes} {verdict : Bool}
    (h : lz4HasPrefix head want = some verdict)
    (hdecode : Lz4.decode checksum (head ++ tail) = some content) :
    verdict = want.isPrefixOf content := by
  unfold lz4HasPrefix at h
  rcases hlead : lz4LeadingBytes head want.length with _ | lead
  · rw [hlead] at h
    cases h
  rw [hlead] at h
  obtain ⟨rest, rfl⟩ := lz4LeadingBytes_prefix hlead hdecode
  dsimp only at h
  split_ifs at h with hlong hshort
  · obtain rfl := Option.some.inj h
    rw [Bool.eq_iff_iff, decide_eq_true_iff, List.isPrefixOf_iff_prefix, List.prefix_iff_eq_take,
      List.take_append_of_le_length hlong, eq_comm]
  · obtain rfl := Option.some.inj h
    rw [eq_comm, Bool.eq_false_iff, ne_eq, List.isPrefixOf_iff_prefix]
    intro hprefix
    refine hshort ?_
    obtain ⟨more, hmore⟩ := hprefix
    have htake := congrArg (List.take lead.length) hmore
    rwa [List.take_append_of_le_length (by omega), List.take_left] at htake

/-! ## The guard -/

/-- The codec is settled by the first bytes. -/
lemma frameCodec_take {n : ℕ} (hn : 4 ≤ n) (body : Bytes) :
    frameCodec (body.take n) = frameCodec body := by
  have hlen : (body.take n).length < codecPeekBytes ↔ body.length < codecPeekBytes := by
    rw [List.length_take, codecPeekBytes]
    omega
  have htake : (body.take n).take 4 = body.take 4 := by
    rw [List.take_take, min_eq_left hn]
  simp only [frameCodec, hlen, htake]

lemma Decoded.eq_of_all {d : Decoded} {content : Bytes} (h : d.all = some content) :
    d = ⟨content, .eof⟩ := by
  unfold Decoded.all at h
  split_ifs at h with heof
  rw [← Option.some.inj h, ← heof]

/-- The bytes that are probed settle how the content begins. -/
lemma isPrefixOf_take_probe (content : Bytes) :
    goModuleIndexMagic.isPrefixOf (content.take indexMagicProbeBytes)
      = goModuleIndexMagic.isPrefixOf content := by
  rw [Bool.eq_iff_iff, List.isPrefixOf_iff_prefix, List.isPrefixOf_iff_prefix,
    List.prefix_take_iff]
  exact and_iff_left (by decide)

/-- A stream that ends well starts like a module index if its content does. -/
lemma Decoded.startsModuleIndex_eof (content : Bytes) :
    Decoded.startsModuleIndex ⟨content, .eof⟩ = goModuleIndexMagic.isPrefixOf content := by
  have hread : Decoded.readFull ⟨content, .eof⟩ indexMagicProbeBytes
      = some (content.take indexMagicProbeBytes) := by
    unfold Decoded.readFull
    split_ifs with hlong hfailed
    · rfl
    · cases hfailed
    · rw [List.take_of_length_le (not_le.mp hlong).le]
  rw [Decoded.startsModuleIndex, hread]
  exact isPrefixOf_take_probe content

lemma Decoded.startsModuleIndex_of_all {d : Decoded} {content : Bytes} (h : d.all = some content)
    (hmagic : goModuleIndexMagic.isPrefixOf content = true) : d.startsModuleIndex = true := by
  rw [Decoded.eq_of_all h, Decoded.startsModuleIndex_eof, hmagic]

/-- The read guard finds every module index, unless the hint calls a body compressed that is not. -/
lemma readIsModuleIndex_of_holdsModuleIndex {checksum : Bytes → ℕ} {dec : Decoders}
    (hexact : Lz4Exact checksum dec) {body compression : Bytes}
    (hhint : compression = ascii "lz4" → frameCodec body ≠ none)
    (h : holdsModuleIndex dec body = true) : readIsModuleIndex dec body compression = true := by
  obtain ⟨content, hcontent, hmagic⟩ := (Option.any_eq_true _ _).mp h
  rw [bodyContent, frameCodec_take (by decide)] at hcontent
  simp only [readIsModuleIndex, frameCodec_take (show 4 ≤ lz4HeadPeekBytes by decide)]
  rcases hcodec : frameCodec body with _ | _ | _ <;> rw [hcodec] at hcontent
  · -- stored as it is
    have hnot : ¬ (compression = ascii "lz4" ∨ (none : Option Codec) = some .lz4) := by
      rintro (hlz4 | hlz4)
      · exact hhint hlz4 hcodec
      · cases hlz4
    obtain rfl := Option.some.inj hcontent
    rw [if_neg (by simp), if_neg hnot, isPrefixOf_take_probe, hmagic]
  · rw [if_pos rfl]
    exact Decoded.startsModuleIndex_of_all hcontent hmagic
  · rw [if_neg (by simp), if_pos (Or.inr rfl)]
    rcases hverdict : lz4HasPrefix (body.take lz4HeadPeekBytes) goModuleIndexMagic with _ | verdict
    · exact Decoded.startsModuleIndex_of_all hcontent hmagic
    · have hdecode : Lz4.decode checksum
          (body.take lz4HeadPeekBytes ++ body.drop lz4HeadPeekBytes) = some content := by
        rw [List.take_append_drop]
        exact (hexact body content).mp (Decoded.eq_of_all hcontent)
      exact (lz4HasPrefix_eq_some hverdict hdecode).trans hmagic

end GoBuildCache
