import GoBuildCache.Client.Archive
import GoBuildCache.Store.Codec

/-!
# The gates of the client

Every body that a server sends passes `verify` before the client uses it: the metadata must name an
output and no other action, the body must decompress to the output it claims to be, a compiled
archive must carry a build id that fits the action, and module indexes are refused.
`verify_eq_ok_iff` says exactly when a body is accepted.

For a compiled archive one may hope that acceptance ties it to the action: its build id carries the
action, or it is stamped with its content only and the metadata names the action. The metadata may
be missing, and then nothing ties a content stamp to the action (`verify_unbound_archive`).
`bound_iff` says that this is the only exception.
-/

open ByteString

namespace GoBuildCache

/-- `DecompressSized`: the uncompressed body, given the size that the metadata claims. -/
abbrev Decompress : Type := Bytes → ℤ → Option Bytes

/-- Whether a body is a module index. -/
def isGoModuleIndex (body : Bytes) : Bool :=
  goModuleIndexMagic.isPrefixOf body

/-- Whether a body is the output it claims to be. The text of the digest is hexadecimal, so that
only the case of ASCII letters is folded. -/
def outputIDMatches (sha256 : Sha256) (outputID body : Bytes) : Bytes × Bool :=
  let got := hexEncode (sha256 body).bytes
  (got, equalFold got outputID)

/-- Why a body is refused. -/
inductive VerifyError where
  | noOutputID
  | otherAction
  | decompress
  | checksum
  | buildID
  | moduleIndex
  deriving DecidableEq

/-- Decompresses a stored body and puts it through every gate. -/
def verify (sha256 : Sha256) (decompress : Decompress)
    (actionID outputID storedAction stored : Bytes) (rawSize : ℤ) : Except VerifyError Bytes :=
  if outputID = [] then .error .noOutputID
  else if storedAction ≠ [] ∧ storedAction ≠ actionID then .error .otherAction
  else
    match decompress stored rawSize with
    | none => .error .decompress
    | some data =>
      if (outputIDMatches sha256 outputID data).2 = false then .error .checksum
      else if (buildIDMatchesAction actionID data).2 = false then .error .buildID
      else if isGoModuleIndex data then .error .moduleIndex
      else .ok data

/-- What the gates establish about a body and its metadata. -/
structure Verified (sha256 : Sha256) (actionID outputID storedAction data : Bytes) : Prop where
  /-- The body is the output it claims to be. -/
  digest : (outputIDMatches sha256 outputID data).2 = true
  /-- The metadata names the action, or none. -/
  action : storedAction = [] ∨ storedAction = actionID
  /-- The build id is consistent with the action. -/
  buildID : (buildIDMatchesAction actionID data).2 = true
  /-- The body is not a module index. -/
  notModuleIndex : isGoModuleIndex data = false

/-- Exactly the bodies that pass every gate are accepted. -/
lemma verify_eq_ok_iff {sha256 : Sha256} {decompress : Decompress}
    {actionID outputID storedAction stored data : Bytes} {rawSize : ℤ} :
    verify sha256 decompress actionID outputID storedAction stored rawSize = .ok data ↔
      outputID ≠ [] ∧ decompress stored rawSize = some data ∧
        Verified sha256 actionID outputID storedAction data := by
  have haction : ¬ (storedAction ≠ [] ∧ storedAction ≠ actionID) ↔
      storedAction = [] ∨ storedAction = actionID := by
    rw [not_and_or, not_not, not_not]
  constructor
  · intro h
    unfold verify at h
    split_ifs at h with houtput hother
    cases hdata : decompress stored rawSize with
    | none => simp [hdata] at h
    | some body =>
      simp only [hdata] at h
      split_ifs at h with hdigest hbuild hindex
      obtain rfl := Except.ok.inj h
      exact ⟨houtput, rfl, by simpa using hdigest, haction.mp hother, by simpa using hbuild,
        by simpa using hindex⟩
  · rintro ⟨houtput, hdata, hverified⟩
    simp [verify, houtput, haction.mpr hverified.action, hdata, hverified.digest,
      hverified.buildID, hverified.notModuleIndex]

/-! ## What acceptance says about an archive -/

/-- The archive belongs to the action: its build id carries the action, or it is stamped with its
content and the metadata names the action. -/
def Bound (actionID storedAction data : Bytes) : Prop :=
  (archiveBuildID data).action = expectedBuildIDAction actionID ∨
    (archiveBuildID data).action = (archiveBuildID data).content ∧ storedAction = actionID

instance (actionID storedAction data : Bytes) : Decidable (Bound actionID storedAction data) :=
  inferInstanceAs (Decidable (_ ∨ _))

/-- An accepted archive belongs to its action exactly when the metadata names an action or the
build id carries the expected one. -/
theorem bound_iff (sha256 : Sha256) (decompress : Decompress) (h : Hash)
    (outputID storedAction stored data : Bytes) (rawSize : ℤ)
    (hok : verify sha256 decompress (hexEncode h.bytes) outputID storedAction stored rawSize
      = .ok data)
    (hpkg : (archiveBuildID data).isPkgArchive = true) :
    Bound (hexEncode h.bytes) storedAction data ↔
      storedAction ≠ [] ∨
        (archiveBuildID data).action = expectedBuildIDAction (hexEncode h.bytes) := by
  obtain ⟨-, -, hverified⟩ := verify_eq_ok_iff.mp hok
  have hid : hexEncode h.bytes ≠ [] := by
    intro hnil
    have hlength := congrArg List.length hnil
    rw [length_hexEncode, h.size] at hlength
    cases hlength
  constructor
  · rintro (hexpected | ⟨-, hstored⟩)
    · exact Or.inr hexpected
    · exact Or.inl (hstored ▸ hid)
  · rintro (hnamed | hexpected)
    · have hstored := hverified.action.resolve_left hnamed
      have hstamp := buildIDMatchesAction_of_isPkgArchive hpkg hverified.buildID
      exact hstamp.imp_right fun hcontent => ⟨hcontent, hstored⟩
    · exact Or.inl hexpected

/-- A compiled archive with a content stamp. -/
def stampedArchive : Bytes :=
  ascii "!<arch>\n__.PKGDEF       0           0     0     644     27        " ++ [96, 10] ++
    ascii "go obj\nbuild id \"Zm9v/Zm9v\"\n$$B\n"

/-- Without action metadata, an archive with a content stamp is accepted under an action that
nothing ties it to. -/
theorem verify_unbound_archive :
    verify zeroDigest (fun body _ => some body) (hexEncode zeroHash.bytes)
        (hexEncode zeroHash.bytes) [] stampedArchive 0 = .ok stampedArchive ∧
      (archiveBuildID stampedArchive).isPkgArchive = true ∧
      ¬ Bound (hexEncode zeroHash.bytes) [] stampedArchive := by
  refine ⟨?_, by decide +kernel, by decide +kernel⟩
  exact verify_eq_ok_iff.mpr ⟨by decide, rfl, by decide +kernel, by decide, by decide +kernel,
    by decide +kernel⟩

/-- With action metadata, the same archive is tied to the action. -/
theorem bound_stampedArchive :
    Bound (hexEncode zeroHash.bytes) (hexEncode zeroHash.bytes) stampedArchive := by
  have hok : verify zeroDigest (fun body _ => some body) (hexEncode zeroHash.bytes)
      (hexEncode zeroHash.bytes) (hexEncode zeroHash.bytes) stampedArchive 0
        = .ok stampedArchive :=
    verify_eq_ok_iff.mpr ⟨by decide, rfl, by decide +kernel, by decide, by decide +kernel,
      by decide +kernel⟩
  exact (bound_iff zeroDigest (fun body _ => some body) zeroHash (hexEncode zeroHash.bytes)
    (hexEncode zeroHash.bytes) stampedArchive stampedArchive 0 hok (by decide +kernel)).mpr
    (Or.inl (by decide))

end GoBuildCache
