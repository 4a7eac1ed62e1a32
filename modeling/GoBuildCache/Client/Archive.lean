import GoBuildCache.Foundation.Text
import GoBuildCache.Key

/-!
# Build ids of compiled archives

A compiled Go package is an `ar` archive whose member `__.PKGDEF` carries a line
`build id "ACTION/CONTENT"`. `archiveBuildID` extracts the two fields, and `BuildIDMatchesAction`
compares the first one with what the `go` command would stamp for an action.
`buildIDMatchesAction_of_isPkgArchive` says what acceptance means for an archive: its action field
is the expected one, or repeats the content field.
-/

open ByteString

namespace GoBuildCache

/-- How an archive starts. -/
def arGlobalHdr : Bytes := ascii "!<arch>\n"

/-- The size of a member header. -/
def arHdrSize : ℕ := 60

/-- The scan over the members of an archive. -/
def arScan (name data : Bytes) : Option Bytes :=
  if _hlen : data.length < arHdrSize then none
  else
    let rawName := trimRight 32 (data.take 16)
    let rawSize := trimSpace ((data.take 58).drop 48)
    if (data.take 60).drop 58 ≠ [96, 10] then none
    else
      match decimalFrom 0 rawSize with
      | none => none
      | some size =>
        let body := data.drop arHdrSize
        if body.length < size then none
        else if trimRight 47 rawName = name then some (body.take size)
        else
          let advance := if size % 2 ≠ 0 then arHdrSize + size + 1 else arHdrSize + size
          if data.length < advance then none else arScan name (data.drop advance)
termination_by data.length
decreasing_by
  have hpos : arHdrSize = 60 := rfl
  rw [List.length_drop]
  split_ifs <;> omega

/-- The body of a named member. -/
def arMember (data name : Bytes) : Option Bytes :=
  if arGlobalHdr.isPrefixOf data then arScan name (data.drop arGlobalHdr.length) else none

/-- What an object says about itself. -/
structure ArchiveInfo where
  /-- Whether it is a compiled package. -/
  isPkgArchive : Bool
  /-- The first field of the build id. -/
  action : Bytes
  /-- The second field of the build id. -/
  content : Bytes

/-- The text between the marker and the closing quote. -/
def buildIDLine (header : Bytes) : Option Bytes :=
  let marker := ascii "build id \""
  (index marker header).bind fun i =>
    let rest := header.drop (i + marker.length)
    (indexByte 34 rest).map fun stop => rest.take stop

/-- The build id of an object. -/
def archiveBuildID (data : Bytes) : ArchiveInfo :=
  match arMember data (ascii "__.PKGDEF") with
  | none => ⟨false, [], []⟩
  | some pkgdef =>
    let header :=
      match index (ascii "$$") pkgdef with
      | some i => pkgdef.take i
      | none => pkgdef
    match buildIDLine header with
    | none => ⟨true, [], []⟩
    | some id =>
      match indexByte 47 id with
      | some slash => ⟨true, id.take slash, id.drop (slash + 1)⟩
      | none => ⟨true, id, []⟩

/-- How many bytes of the action hash a build id carries. -/
def buildIDHashSize : ℕ := 15

/-- The action field that the `go` command stamps for an action; empty if the text of the action is
too short or no hexadecimal text. -/
def expectedBuildIDAction (actionIDHex : Bytes) : Bytes :=
  match hexDecode actionIDHex with
  | none => []
  | some raw => if raw.length < buildIDHashSize then [] else base64RawURL (raw.take buildIDHashSize)

/-- Whether an object is consistent with an action, and the action it names. -/
def buildIDMatchesAction (actionIDHex body : Bytes) : Bytes × Bool :=
  let info := archiveBuildID body
  let want := expectedBuildIDAction actionIDHex
  if info.action ≠ [] then
    if want = [] then (info.action, true)
    else (info.action, info.action = want ∨ info.action = info.content)
  else if info.isPkgArchive ∧ want ≠ [] then ([], false)
  else ([], true)

/-- Every action of 32 bytes has an expected action field. -/
lemma expectedBuildIDAction_ne_nil (h : Hash) : expectedBuildIDAction (hexEncode h.bytes) ≠ [] := by
  have hlen : ¬ h.bytes.length < buildIDHashSize := by
    rw [h.size]
    decide
  simp only [expectedBuildIDAction, hexDecode_hexEncode, hlen, if_false]
  apply base64RawURL_ne_nil
  intro hnil
  have hlength := congrArg List.length hnil
  rw [List.length_take, h.size] at hlength
  exact absurd hlength (by decide)

/-- An accepted archive carries the expected action, or repeats its content field. -/
lemma buildIDMatchesAction_of_isPkgArchive {h : Hash} {body : Bytes}
    (hpkg : (archiveBuildID body).isPkgArchive = true)
    (hok : (buildIDMatchesAction (hexEncode h.bytes) body).2 = true) :
    (archiveBuildID body).action = expectedBuildIDAction (hexEncode h.bytes) ∨
      (archiveBuildID body).action = (archiveBuildID body).content := by
  have hwant := expectedBuildIDAction_ne_nil h
  by_cases haction : (archiveBuildID body).action = []
  · simp [buildIDMatchesAction, haction, hpkg, hwant] at hok
  · simpa [buildIDMatchesAction, haction, hwant] using hok

end GoBuildCache
