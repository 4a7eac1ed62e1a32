import GoBuildCache.Client.Archive
import GoBuildCache.Foundation.Checked

/-!
# Archives on any bytes

The scan over the members of an archive and the search for its build id are written here once more
with every slice checked, and with the size of a member as a signed word (`CheckedArchive`). On
every byte string the checked functions have no fault and compute what `arMember` and
`archiveBuildID` do (`CheckedArchive.arMember_eq`, `CheckedArchive.archiveBuildID_eq`): a member's
size is written in ten characters, so it does not wrap around, and every round of the scan drops a
header.
-/

open ByteString Checked

namespace GoBuildCache

namespace CheckedArchive

/-- Reads the digits of a size, after those of `size`. -/
def readSize : ℕ → Bytes → Checked (Option ℕ)
  | size, [] => .ok (some size)
  | size, b :: bs =>
    if b.toNat < 48 ∨ 57 < b.toNat then .ok none
    else do
      let size ← signed (size * 10 + (b.toNat - 48))
      readSize size bs

/-- The scan over the members of an archive, of at most `fuel` rounds. -/
def arScan (name : Bytes) : ℕ → Bytes → Checked (Option Bytes)
  | 0, data => if data.length < arHdrSize then .ok none else .error .unfinished
  | fuel + 1, data =>
    if data.length < arHdrSize then .ok none
    else do
      let rawName ← Checked.slice data 0 16
      let rawSize ← Checked.slice data 48 58
      let stop ← Checked.slice data 58 60
      if stop ≠ [96, 10] then .ok none
      else do
        match ← readSize 0 (trimSpace rawSize) with
        | none => .ok none
        | some size =>
          let body ← Checked.slice data arHdrSize data.length
          if body.length < size then .ok none
          else if trimRight 47 (trimRight 32 rawName) = name then do
            let member ← Checked.slice body 0 size
            .ok (some member)
          else
            let advance := if size % 2 ≠ 0 then arHdrSize + size + 1 else arHdrSize + size
            if data.length < advance then .ok none
            else do
              let rest ← Checked.slice data advance data.length
              arScan name fuel rest

/-- The body of a named member. -/
def arMember (data name : Bytes) : Checked (Option Bytes) :=
  if data.length < arGlobalHdr.length then .ok none
  else do
    let hdr ← Checked.slice data 0 arGlobalHdr.length
    if hdr ≠ arGlobalHdr then .ok none
    else do
      let members ← Checked.slice data arGlobalHdr.length data.length
      arScan name members.length members

/-- The part of a member before the first `$$`. -/
def headerOf (pkgdef : Bytes) : Checked Bytes :=
  match index (ascii "$$") pkgdef with
  | some i => Checked.slice pkgdef 0 i
  | none => .ok pkgdef

/-- The text between the marker and the closing quote. -/
def buildIDLine (header : Bytes) : Checked (Option Bytes) :=
  let marker := ascii "build id \""
  match index marker header with
  | none => .ok none
  | some i => do
    let rest ← Checked.slice header (i + marker.length) header.length
    match indexByte 34 rest with
    | none => .ok none
    | some stop =>
      let id ← Checked.slice rest 0 stop
      .ok (some id)

/-- The build id of an object. -/
def archiveBuildID (data : Bytes) : Checked ArchiveInfo := do
  match ← arMember data (ascii "__.PKGDEF") with
  | none => .ok ⟨false, [], []⟩
  | some pkgdef =>
    let header ← headerOf pkgdef
    match ← buildIDLine header with
    | none => .ok ⟨true, [], []⟩
    | some id =>
      match indexByte 47 id with
      | none => .ok ⟨true, id, []⟩
      | some slash =>
        let action ← Checked.slice id 0 slash
        let content ← Checked.slice id (slash + 1) id.length
        .ok ⟨true, action, content⟩

/-! ## They have no fault -/

/-- A size of few digits is read. -/
lemma readSize_eq {size : ℕ} {bs : Bytes} {k : ℕ} (hsize : size < 10 ^ k)
    (hk : k + bs.length ≤ 18) : readSize size bs = .ok (decimalFrom size bs) := by
  induction bs generalizing size k with
  | nil => rfl
  | cons b bs ih =>
    rw [readSize, decimalFrom]
    by_cases hdigit : 48 ≤ b.toNat ∧ b.toNat ≤ 57
    · have hnext : size * 10 + (b.toNat - 48) < 10 ^ (k + 1) := by
        rw [pow_succ]
        omega
      have hfits : size * 10 + (b.toNat - 48) < 2 ^ 63 := by
        have hpow : 10 ^ (k + 1) ≤ 10 ^ 18 :=
          Nat.pow_le_pow_right (by decide) (by simp at hk; omega)
        exact hnext.trans_le (hpow.trans (by decide))
      rw [if_neg (by omega), if_pos hdigit, signed_of_lt hfits, ok_bind]
      exact ih hnext (by simp at hk; omega)
    · rw [if_neg hdigit, if_pos (by omega)]

/-- The scan comes to an end, and finds what the unchecked scan finds. -/
lemma arScan_eq (name : Bytes) {fuel : ℕ} {data : Bytes} (hfuel : data.length ≤ fuel) :
    arScan name fuel data = .ok (GoBuildCache.arScan name data) := by
  induction fuel generalizing data with
  | zero =>
    have hlen : data.length < arHdrSize := by
      rw [arHdrSize]
      omega
    rw [arScan, if_pos hlen, GoBuildCache.arScan, dif_pos hlen]
  | succ fuel ih =>
    rw [arScan, GoBuildCache.arScan]
    by_cases hlen : data.length < arHdrSize
    · rw [if_pos hlen, dif_pos hlen]
    have hheader : arHdrSize ≤ data.length := not_lt.mp hlen
    have hsixty : 60 ≤ data.length := hheader
    have hsize : readSize 0 (trimSpace ((data.take 58).drop 48))
        = .ok (decimalFrom 0 (trimSpace ((data.take 58).drop 48))) := by
      have htrim := length_trimSpace_le ((data.take 58).drop 48)
      have hten : ((data.take 58).drop 48).length = 10 := by simp; omega
      exact readSize_eq (k := 0) (by decide) (by omega)
    rw [if_neg hlen, dif_neg hlen, slice_zero (by omega), ok_bind,
      slice_of_le (by decide) (by omega), ok_bind, slice_of_le (by decide) (by omega), ok_bind]
    simp only
    by_cases hstop : (data.take 60).drop 58 ≠ [96, 10]
    · rw [if_pos hstop, if_pos hstop]
    rw [if_neg hstop, if_neg hstop, hsize, ok_bind]
    rcases decimalFrom 0 (trimSpace ((data.take 58).drop 48)) with _ | size
    · rfl
    simp only
    rw [slice_length hheader, ok_bind]
    by_cases hbody : (data.drop arHdrSize).length < size
    · rw [if_pos hbody, if_pos hbody]
    rw [if_neg hbody, if_neg hbody]
    by_cases hname : trimRight 47 (trimRight 32 (data.take 16)) = name
    · rw [if_pos hname, if_pos hname, slice_zero (not_lt.mp hbody), ok_bind]
    rw [if_neg hname, if_neg hname]
    split_ifs with hodd hadvance hadvance
    · rfl
    · rw [slice_length (not_lt.mp hadvance), ok_bind]
      exact ih (by rw [List.length_drop, arHdrSize]; omega)
    · rfl
    · rw [slice_length (not_lt.mp hadvance), ok_bind]
      exact ih (by rw [List.length_drop, arHdrSize]; omega)

/-- The checked search for a member has no fault. -/
lemma arMember_eq (data name : Bytes) :
    arMember data name = .ok (GoBuildCache.arMember data name) := by
  rw [arMember, GoBuildCache.arMember]
  by_cases hlen : data.length < arGlobalHdr.length
  · have hprefix : ¬ arGlobalHdr.isPrefixOf data = true := by
      intro h
      have hle := (List.isPrefixOf_iff_prefix.mp h).length_le
      omega
    rw [if_pos hlen, if_neg hprefix]
  have hle := not_lt.mp hlen
  rw [if_neg hlen, slice_zero hle, ok_bind, slice_length hle, ok_bind]
  have hiff : data.take arGlobalHdr.length = arGlobalHdr ↔ arGlobalHdr.isPrefixOf data = true := by
    rw [List.isPrefixOf_iff_prefix, List.prefix_iff_eq_take, eq_comm]
  by_cases hprefix : arGlobalHdr.isPrefixOf data = true
  · rw [if_neg (not_not.mpr (hiff.mpr hprefix)), if_pos hprefix]
    exact arScan_eq name le_rfl
  · rw [if_pos (hiff.not.mpr hprefix), if_neg hprefix]

lemma headerOf_eq (pkgdef : Bytes) :
    headerOf pkgdef = .ok (match index (ascii "$$") pkgdef with
      | some i => pkgdef.take i
      | none => pkgdef) := by
  rw [headerOf]
  rcases hi : index (ascii "$$") pkgdef with _ | i
  · rfl
  · have hle := index_add_length_le hi
    exact slice_zero (by omega)

lemma buildIDLine_eq (header : Bytes) :
    buildIDLine header = .ok (GoBuildCache.buildIDLine header) := by
  rw [buildIDLine, GoBuildCache.buildIDLine]
  dsimp only
  rcases hi : index (ascii "build id \"") header with _ | i
  · rfl
  dsimp only [Option.bind_some]
  rw [slice_length (index_add_length_le hi), ok_bind]
  rcases hstop : indexByte 34 (header.drop (i + (ascii "build id \"").length)) with _ | stop
  · rfl
  dsimp only [Option.map_some]
  rw [slice_zero (indexByte_lt hstop).le, ok_bind]

/-- The checked search for a build id has no fault. -/
lemma archiveBuildID_eq (data : Bytes) :
    archiveBuildID data = .ok (GoBuildCache.archiveBuildID data) := by
  rw [archiveBuildID, GoBuildCache.archiveBuildID, arMember_eq, ok_bind]
  rcases GoBuildCache.arMember data (ascii "__.PKGDEF") with _ | pkgdef
  · rfl
  dsimp only
  rw [headerOf_eq, ok_bind, buildIDLine_eq, ok_bind]
  rcases GoBuildCache.buildIDLine _ with _ | id
  · rfl
  dsimp only
  rcases hslash : indexByte 47 id with _ | slash
  · rfl
  have hlt := indexByte_lt hslash
  dsimp only
  rw [slice_zero hlt.le, ok_bind, slice_length hlt, ok_bind]

end CheckedArchive

lemma length_le_of_arScan {name data member : Bytes} (h : arScan name data = some member) :
    member.length ≤ data.length := by
  fun_induction arScan name data with
  | case5 data hlen rawName rawSize hstop size hsize body hbody hname =>
    cases h
    calc (body.take size).length ≤ body.length := List.length_take_le' ..
      _ ≤ data.length := by simp [body]
  | case7 data hlen rawName rawSize hstop size hsize body hbody hname advance hadvance ih =>
    exact (ih h).trans (by simp)
  | _ => cases h

/-- A member is not longer than the archive. -/
lemma length_le_of_arMember {data name member : Bytes} (h : arMember data name = some member) :
    member.length ≤ data.length := by
  rw [arMember] at h
  split_ifs at h
  exact (length_le_of_arScan h).trans (by simp)

end GoBuildCache
