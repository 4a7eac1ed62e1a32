import GoBuildCache.Store.ModuleIndex

/-!
# What the module-index guards decide

Uploads are guarded by `looksLikeGoModuleIndex` and reads by `readIsModuleIndex`. Both may answer
from the head of an lz4 frame. A verdict that the head settles is never revised by more of the frame
(`lz4HasPrefix_append`), and with exact decoders both guards answer whether the content of the body
begins like a module index (`moduleIndexGuards_decide`).
-/

open ByteString

namespace GoBuildCache

/-- What the body of an object with a compression hint decompresses to. The hint is empty or names
the codec. -/
inductive BodyOf (checksum : Bytes → ℕ) (zstdContent : Bytes → Option Bytes) :
    Bytes → Bytes → Bytes → Prop
  /-- A sequence of lz4 frames. Without a hint, the first one must have content. -/
  | lz4 {body compression content : Bytes} (hdecode : Lz4.decode checksum body = some content)
    (hhint : compression = ascii "lz4" ∨ compression = [] ∧ frameCodec body = some .lz4) :
    BodyOf checksum zstdContent body compression content
  /-- A zstd stream. -/
  | zstd {body compression content : Bytes} (hmagic : frameCodec body = some .zstd)
    (hdecode : zstdContent body = some content)
    (hhint : compression = ascii "zstd" ∨ compression = []) :
    BodyOf checksum zstdContent body compression content
  /-- A body that starts with neither magic number stands for itself. -/
  | plain {body : Bytes} (hmagic : frameCodec body = none) :
    BodyOf checksum zstdContent body [] body

/-- The reader of zstd frames comes to the end of a stream exactly if the stream is well formed, and
has then yielded its content. -/
def ZstdExact (zstdContent : Bytes → Option Bytes) (dec : Decoders) : Prop :=
  ∀ body out, dec.zstd body = ⟨out, .eof⟩ ↔ zstdContent body = some out

/-! ## Longer heads -/

section Head

variable {head lead want : Bytes} (tail : Bytes)

lemma leadingRun_append {rest : Bytes} {avail n : ℕ} (h : leadingRun rest avail n = some lead) :
    ∃ lead', leadingRun (rest ++ tail) avail n = some lead' ∧ lead <+: lead' := by
  unfold leadingRun at h ⊢
  dsimp only at h ⊢
  split_ifs at h with hnone
  obtain rfl := Option.some.inj h
  have hsome : ¬ min (rest ++ tail).length avail = 0 := by
    rw [List.length_append]
    omega
  rw [if_neg hsome]
  refine ⟨_, rfl, ?_⟩
  rw [← List.take_append_of_le_length (show min (min rest.length avail) n ≤ rest.length by omega)]
  refine List.take_prefix_take_left ?_
  rw [List.length_append]
  omega

/-- A longer head has at least the bytes that a shorter one has. -/
lemma lz4LeadingBytes_append {n : ℕ} (h : lz4LeadingBytes head n = some lead) :
    ∃ lead', lz4LeadingBytes (head ++ tail) n = some lead' ∧ lead <+: lead' := by
  obtain ⟨hlen, hmagic, hversion, hdict, hblocks, hzero, hrun⟩ :=
    lz4LeadingBytes_eq_some_iff.mp h
  obtain ⟨htake, hflg, hfirst⟩ := firstBlock_append hlen hblocks tail
  have hlen' : 7 ≤ (head ++ tail).length := by
    rw [List.length_append]
    omega
  simp only [lz4LeadingBytes_eq_some_iff, htake, hflg, hfirst,
    List.take_append_of_le_length hblocks, List.drop_append_of_le_length hblocks]
  have hblocks' : 4 ≤ (Lz4.firstBlock (head.getD 4 0) head ++ tail).length := by
    rw [List.length_append]
    omega
  rcases hrun with ⟨hstored, hrun⟩ | ⟨hpacked, token, rest, litLen, rest', hdrop, hlength, hrun⟩
  · obtain ⟨lead', hrun', hprefix⟩ := leadingRun_append tail hrun
    exact ⟨lead', ⟨hlen', hmagic, hversion, hdict, hblocks', hzero, Or.inl ⟨hstored, hrun'⟩⟩,
      hprefix⟩
  · obtain ⟨lead', hrun', hprefix⟩ := leadingRun_append tail hrun
    refine ⟨lead', ⟨hlen', hmagic, hversion, hdict, hblocks', hzero, Or.inr ⟨hpacked, ?_⟩⟩,
      hprefix⟩
    exact ⟨token, rest ++ tail, litLen, rest' ++ tail, by rw [hdrop, List.cons_append],
      Lz4.readLength_append tail hlength, hrun'⟩

/-- A verdict that the head of a frame settles is the one of every longer head. -/
lemma lz4HasPrefix_append {verdict : Bool} (h : lz4HasPrefix head want = some verdict) :
    lz4HasPrefix (head ++ tail) want = some verdict := by
  unfold lz4HasPrefix at h ⊢
  rcases hlead : lz4LeadingBytes head want.length with _ | lead
  · rw [hlead] at h
    cases h
  rw [hlead] at h
  obtain ⟨lead', hlead', more, rfl⟩ := lz4LeadingBytes_append tail hlead
  rw [hlead']
  dsimp only at h ⊢
  split_ifs at h with hlong hdiffers
  · -- the head has all the bytes that are compared
    have hlong' : want.length ≤ (lead ++ more).length := by
      rw [List.length_append]
      omega
    rw [if_pos hlong', List.take_append_of_le_length hlong]
    exact h
  · -- the head has fewer bytes, and they differ
    obtain rfl := Option.some.inj h
    have hdiffers' : ∀ n, lead.length ≤ n → want.take n ≠ (lead ++ more).take n := by
      intro n hn heq
      have hshort := congrArg (List.take lead.length) heq
      rw [List.take_take, List.take_take, min_eq_left hn, List.take_left] at hshort
      exact hdiffers hshort
    split_ifs with hlong' hsame
    · have hne := hdiffers' want.length (not_le.mp hlong).le
      rw [List.take_length] at hne
      rw [decide_eq_false (Ne.symm hne)]
    · rfl
    · have hne := hdiffers' (lead ++ more).length (by simp)
      rw [List.take_length] at hne
      exact absurd (not_not.mp hsame) hne

end Head

/-! ## Both guards -/

section Guards

variable {checksum : Bytes → ℕ} {zstdContent : Bytes → Option Bytes} {dec : Decoders}
  {body compression content : Bytes}

/-- A sequence of lz4 frames does not start like a zstd stream. -/
lemma frameCodec_ne_zstd_of_decode (h : Lz4.decode checksum body = some content) :
    frameCodec body ≠ some .zstd := by
  intro hzstd
  have hlen : ¬ body.length < codecPeekBytes := by
    intro hshort
    rw [frameCodec, if_pos hshort] at hzstd
    cases hzstd
  have hmagic : leValue (body.take 4) = zstdFrameMagic := by
    by_contra hne
    rw [frameCodec, if_neg hlen, if_neg hne] at hzstd
    split_ifs at hzstd
    cases hzstd
  rcases hfuel : body.length with _ | fuel
  · rw [hfuel] at hlen
    exact hlen (by decide)
  have hsplit : Lz4.split 4 body = some (body.take 4, body.drop 4) := if_neg hlen
  have hnext : ∀ src, Lz4.decodeNext checksum zstdFrameMagic src = none := fun _ => rfl
  rw [Lz4.decode, hfuel, Lz4.decodeFrames, if_neg (by rintro rfl; cases hfuel), hsplit] at h
  simp only [Option.bind_eq_bind, Option.bind_some, hmagic, hnext, Option.bind_none] at h
  cases h

/-- Both guards decide by the lz4 reader, or by a verdict that agrees with it. -/
lemma guards_of_lz4 (hlz4 : Lz4Exact checksum dec)
    (hdecode : Lz4.decode checksum body = some content)
    (hhint : compression = ascii "lz4" ∨ frameCodec body = some .lz4) :
    looksLikeGoModuleIndex dec body compression = goModuleIndexMagic.isPrefixOf content ∧
      readIsModuleIndex dec body compression = goModuleIndexMagic.isPrefixOf content := by
  have hread : dec.lz4 body = ⟨content, .eof⟩ := (hlz4 body content).mpr hdecode
  have hnot := frameCodec_ne_zstd_of_decode hdecode
  constructor
  · rw [looksLikeGoModuleIndex, if_neg hnot, if_pos hhint]
    rcases hverdict : lz4HasPrefix body goModuleIndexMagic with _ | verdict
    · rw [hread]
      exact isPrefixOf_take_probe content
    · rw [← List.append_nil body] at hdecode
      exact lz4HasPrefix_eq_some hverdict hdecode
  · simp only [readIsModuleIndex, frameCodec_take (show 4 ≤ lz4HeadPeekBytes by decide)]
    rw [if_neg hnot, if_pos hhint]
    rcases hverdict : lz4HasPrefix (body.take lz4HeadPeekBytes) goModuleIndexMagic with
      _ | verdict
    · rw [hread]
      exact Decoded.startsModuleIndex_eof content
    · rw [← List.take_append_drop lz4HeadPeekBytes body] at hdecode
      exact lz4HasPrefix_eq_some hverdict hdecode

/-- Both guards decide by the zstd reader. -/
lemma guards_of_zstd (hzstd : ZstdExact zstdContent dec) (hmagic : frameCodec body = some .zstd)
    (hdecode : zstdContent body = some content) :
    looksLikeGoModuleIndex dec body compression = goModuleIndexMagic.isPrefixOf content ∧
      readIsModuleIndex dec body compression = goModuleIndexMagic.isPrefixOf content := by
  have hread : readIsModuleIndex dec body compression = goModuleIndexMagic.isPrefixOf content := by
    simp only [readIsModuleIndex, frameCodec_take (show 4 ≤ lz4HeadPeekBytes by decide)]
    rw [if_pos hmagic, (hzstd body content).mpr hdecode]
    exact Decoded.startsModuleIndex_eof content
  refine ⟨?_, hread⟩
  rw [looksLikeGoModuleIndex, if_pos hmagic]
  exact hread

/-- Both guards compare the body itself. -/
lemma guards_of_plain (hmagic : frameCodec body = none) :
    looksLikeGoModuleIndex dec body [] = goModuleIndexMagic.isPrefixOf body ∧
      readIsModuleIndex dec body [] = goModuleIndexMagic.isPrefixOf body := by
  have hnot : ¬ (([] : Bytes) = ascii "lz4" ∨ (none : Option Codec) = some .lz4) := by decide
  constructor
  · rw [looksLikeGoModuleIndex, hmagic, if_neg (by decide), if_neg hnot]
  · simp only [readIsModuleIndex, frameCodec_take (show 4 ≤ lz4HeadPeekBytes by decide)]
    rw [hmagic, if_neg (by decide), if_neg hnot]
    exact isPrefixOf_take_probe body

end Guards

/-- The readers of a checksum whose second byte is the one that real frames with the flags of
`storedFrame` have. -/
def frameReaders : Decoders where
  lz4 := fun body =>
    match Lz4.decode (fun _ => 0x8200) body with
    | some out => ⟨out, .eof⟩
    | none => ⟨[], .failed⟩
  zstd := fun _ => ⟨[], .failed⟩

lemma lz4Exact_frameReaders : Lz4Exact (fun _ => 0x8200) frameReaders := by
  intro body out
  unfold frameReaders
  dsimp only
  rcases Lz4.decode (fun _ => 0x8200) body with _ | out' <;> simp

lemma zstdExact_frameReaders : ZstdExact (fun _ => none) frameReaders := by
  intro body out
  simp [frameReaders]

/-- A module index in a frame with one stored block. -/
def storedFrame : Bytes :=
  [0x04, 0x22, 0x4D, 0x18, 0x60, 0x40, 0x82, 12, 0, 0, 0x80] ++ ascii "go index v2\n" ++
    [0, 0, 0, 0]

end GoBuildCache
