import GoBuildCache.Client.ArchiveSafe
import GoBuildCache.Foundation.LexicalPath
import GoBuildCache.Index.State

/-!
# The export data of an archive

The member `__.PKGDEF` of a compiled archive carries a payload of elements in ten sections. Its
tables say where the sections and the elements end. An element begins with its relocations, which
refer to other elements, and a string in it is the number of a relocation.

The functions that read an import path and source files from a payload are translated here with
every access checked (`Checked`): a position outside a table, a slice outside the data, and a new
array whose length is negative or above a given `limit` are faults. The tables are not checked by
the source against each other, and neither are the numbers in an element.

`IsPayload` says what the bytes of a payload are, without reading them; what is read is exactly that
(`openPkgbits_eq_ok_iff`).
-/

open ByteString Checked

namespace GoBuildCache

/-- The section of strings. -/
def pbSectionString : ℕ := 0

/-- The section of position bases, one for each source file. -/
def pbSectionPosBase : ℕ := 2

/-- The section of packages. -/
def pbSectionPkg : ℕ := 3

/-- The number of sections. -/
def pbNumSections : ℕ := 10

/-- The flag for synchronisation markers. -/
def pbFlagSyncMarkers : ℕ := 1

/-- The marker before the relocations of an element. -/
def pbSyncRelocs : ℕ := 8

/-- The marker before one relocation. -/
def pbSyncReloc : ℕ := 9

/-- The marker before the use of a relocation. -/
def pbSyncUseReloc : ℕ := 10

/-- The marker before a number. -/
def pbSyncUint64 : ℕ := 4

/-- The marker before a string. -/
def pbSyncString : ℕ := 5

/-- The marker that opens a position base. -/
def pbSyncPosBase : ℕ := 13

/-- The marker that opens a package. -/
def pbSyncPkgDef : ℕ := 17

/-- The tables and the data of a payload. -/
structure PkgbitsPayload where
  /-- Where the sections end in the table of elements. -/
  elemEndsEnds : List ℕ
  /-- Where the elements end in the data. -/
  elemEnds : List ℕ
  /-- The data. -/
  elemData : Bytes
  /-- Whether there are synchronisation markers. -/
  sync : Bool
  /-- There is one end for each section. -/
  length_elemEndsEnds : elemEndsEnds.length = pbNumSections
  deriving DecidableEq

/-- A reference of an element to another one. -/
structure Reloc where
  /-- The section. -/
  kind : ℕ
  /-- The element within the section. -/
  idx : ℕ
  deriving DecidableEq

/-! ## Numbers and markers -/

/-- Reads a number of which the bytes before are the bits `x` before `s`. Bits above the 64th are
lost. -/
def rawUvarintLoop : ℕ → ℕ → Bytes → Option (ℕ × Bytes)
  | _, _, [] => none
  | x, s, b :: rest =>
    if b < 0x80 then some (x ||| (b.toNat <<< s) % 2 ^ 64, rest)
    else rawUvarintLoop (x ||| ((b &&& 0x7f).toNat <<< s) % 2 ^ 64) (s + 7) rest

/-- Reads a number. -/
def rawUvarint (r : Bytes) : Option (ℕ × Bytes) :=
  rawUvarintLoop 0 0 r

/-- Reads a marker, if there are any. -/
def skipSync (sync : Bool) (marker : ℕ) (r : Bytes) : Option Bytes :=
  if !sync then some r
  else (rawUvarint r).bind fun (v, rest) => if v >>> 8 = marker then some rest else none

/-- Reads a number after its marker. -/
def syncUvarint (sync : Bool) (r : Bytes) : Option (ℕ × Bytes) :=
  (skipSync sync pbSyncUint64 r).bind rawUvarint

/-- Reads the number of relocations of an element. -/
def readRelocCount (sync : Bool) (r : Bytes) : Option (ℕ × Bytes) :=
  (skipSync sync pbSyncRelocs r).bind (syncUvarint sync)

/-- Reads one relocation. -/
def readReloc (sync : Bool) (r : Bytes) : Option (Reloc × Bytes) :=
  (skipSync sync pbSyncReloc r).bind fun r =>
    (syncUvarint sync r).bind fun (kind, r) =>
      (syncUvarint sync r).map fun (idx, r) => (⟨kind, idx⟩, r)

/-- Reads the relocation that stands for the first string of an element. -/
def readStringReloc (sync : Bool) (openingSync : ℕ) (r : Bytes) : Option ℕ :=
  (skipSync sync openingSync r).bind fun r =>
    (skipSync sync pbSyncString r).bind fun r =>
      (skipSync sync pbSyncUseReloc r).bind fun r => (syncUvarint sync r).map Prod.fst

/-! ## Opening a payload -/

/-- A number of 32 bits at the start of a slice. -/
def uint32 (b : Bytes) : Checked ℕ := do
  let _ ← get b 3
  .ok (leValue (b.take 4))

/-- The numbers in a slice from the `i`-th one on. -/
def uint32sFrom (payload : Bytes) : (n : ℕ) → ℕ → Checked { l : List ℕ // l.length = n }
  | 0, _ => .ok ⟨[], rfl⟩
  | n + 1, i => do
    let b ← Checked.slice payload (i * 4) payload.length
    let v ← uint32 b
    let rest ← uint32sFrom payload n (i + 1)
    .ok ⟨v :: rest.1, congrArg (· + 1) rest.2⟩

/-- The size of a fingerprint. -/
def fingerprintSize : ℕ := 8

/-- Reads the table of elements and the data. -/
def parseElems (limit flags : ℕ) (elemEndsEnds : { l : List ℕ // l.length = pbNumSections })
    (payload : Bytes) : Checked (Option PkgbitsPayload) := do
  let numElems ← get elemEndsEnds.1 (pbNumSections - 1)
  if payload.length < numElems * 4 then .ok none
  else do
    let n ← alloc limit numElems
    let elemEnds ← uint32sFrom payload n 0
    let payload ← Checked.slice payload (numElems * 4) payload.length
    if payload.length < fingerprintSize then .ok none
    else do
      let elemData ← Checked.slice payload 0 (payload.length - fingerprintSize)
      .ok (some ⟨elemEndsEnds.1, elemEnds.1, elemData, flags &&& pbFlagSyncMarkers ≠ 0,
        elemEndsEnds.2⟩)

/-- Reads what follows the flags. -/
def parseTables (limit flags : ℕ) (payload : Bytes) : Checked (Option PkgbitsPayload) :=
  if payload.length < pbNumSections * 4 then .ok none
  else do
    let elemEndsEnds ← uint32sFrom payload pbNumSections 0
    let payload ← Checked.slice payload (pbNumSections * 4) payload.length
    parseElems limit flags elemEndsEnds payload

/-- Takes a number of 32 bits off a payload. -/
def takeUint32 (payload : Bytes) : Checked (ℕ × Bytes) := do
  let head ← Checked.slice payload 0 4
  let v ← uint32 head
  let rest ← Checked.slice payload 4 payload.length
  .ok (v, rest)

/-- Reads a payload. -/
def parsePkgbits (limit : ℕ) (payload : Bytes) : Checked (Option PkgbitsPayload) :=
  if payload.length < 4 then .ok none
  else do
    let (version, payload) ← takeUint32 payload
    if version < 1 then parseTables limit 0 payload
    else if payload.length < 4 then .ok none
    else do
      let (flags, payload) ← takeUint32 payload
      parseTables limit flags payload

/-- The text before a payload. -/
def pkgbitsMarker : Bytes := ascii "$$B\n"

/-- The text after a payload. -/
def pkgbitsEnd : Bytes := ascii "\n$$\n"

/-- Cuts a payload at the text that ends it. -/
def cutPayload (payload : Bytes) : Checked Bytes :=
  match index pkgbitsEnd payload with
  | some stop => Checked.slice payload 0 stop
  | none => .ok payload

/-- Finds and opens the payload of an archive. -/
def openPkgbits (limit : ℕ) (data : Bytes) : Checked (Option PkgbitsPayload) := do
  match ← CheckedArchive.arMember data (ascii "__.PKGDEF") with
  | none => .ok none
  | some pkgdef =>
    match index pkgbitsMarker pkgdef with
    | none => .ok none
    | some idx =>
      let after ← Checked.slice pkgdef (idx + pkgbitsMarker.length) pkgdef.length
      if after.length = 0 then .ok none
      else do
        let kind ← get after 0
        if kind ≠ 117 then .ok none
        else do
          let payload ← Checked.slice after 1 after.length
          let payload ← cutPayload payload
          parsePkgbits limit payload

/-! ## Reading elements -/

namespace PkgbitsPayload

/-- Where a section begins in the table of elements. -/
def readSectionStart (p : PkgbitsPayload) (s : ℕ) : Checked ℕ :=
  if 0 < s then get p.elemEndsEnds (s - 1) else .ok 0

/-- The number of elements of a section, negative if it ends before it begins. -/
def sectionLen (p : PkgbitsPayload) (s : ℕ) : Checked ℤ := do
  let stop ← get p.elemEndsEnds s
  let start ← p.readSectionStart s
  .ok (stop - start)

/-- Where an element begins in the data. -/
def readElemStart (p : PkgbitsPayload) (i : ℤ) : Checked ℕ :=
  if 0 < i then getInt p.elemEnds (i - 1) else .ok 0

/-- The bytes of an element; the steps are those for an element of a section and for a string. -/
def readElem (p : PkgbitsPayload) (i : ℤ) : Checked (Option Bytes) := do
  let start ← p.readElemStart i
  let stop ← getInt p.elemEnds i
  if p.elemData.length < stop ∨ stop < start then .ok none
  else do
    let bytes ← Checked.slice p.elemData start stop
    .ok (some bytes)

/-- Fills the array of relocations from the `i`-th one on. -/
def fillRelocs (sync : Bool) : ℕ → ℕ → List Reloc → Bytes → Checked (Option (List Reloc × Bytes))
  | 0, _, relocs, r => .ok (some (relocs, r))
  | n + 1, i, relocs, r =>
    match readReloc sync r with
    | none => .ok none
    | some (reloc, r) => do
      let relocs ← Checked.set relocs i reloc
      fillRelocs sync n (i + 1) relocs r

/-- The string that a relocation refers to. -/
def resolveString (p : PkgbitsPayload) (ref : Reloc) : Checked Bytes :=
  if ref.kind ≠ pbSectionString then .ok []
  else do
    let strEnd ← get p.elemEndsEnds pbSectionString
    let strElemAbs := int64 ref.idx
    if (strEnd : ℤ) ≤ strElemAbs then .ok []
    else do
      let text ← p.readElem strElemAbs
      .ok (text.getD [])

/-- The string that the relocation with a given number refers to. -/
def useReloc (p : PkgbitsPayload) (relocs : List Reloc) (relocIdx : ℕ) : Checked Bytes :=
  if (relocs.length : ℤ) ≤ int64 relocIdx then .ok []
  else do
    let ref ← get relocs relocIdx
    p.resolveString ref

/-- The first string of an element with the given bytes. -/
def readString (limit : ℕ) (p : PkgbitsPayload) (openingSync : ℕ) (r : Bytes) : Checked Bytes :=
  match readRelocCount p.sync r with
  | none => .ok []
  | some (nrelocs, r) => do
    let n ← alloc limit (int64 nrelocs)
    match ← fillRelocs p.sync n 0 (List.replicate n ⟨0, 0⟩) r with
    | none => .ok []
    | some (relocs, r) =>
      match readStringReloc p.sync openingSync r with
      | none => .ok []
      | some relocIdx => p.useReloc relocs relocIdx

/-- The first string of an element of a section; empty if there is none. -/
def readSectionString (limit : ℕ) (p : PkgbitsPayload) (s relIdx openingSync : ℕ) :
    Checked Bytes := do
  let base ← p.readSectionStart s
  let absIdx := base + relIdx
  let stop ← get p.elemEndsEnds s
  if stop ≤ absIdx then .ok []
  else do
    match ← p.readElem absIdx with
    | none => .ok []
    | some r => p.readString limit openingSync r

/-- Adds the name of a source file to the names seen and to the list, unless it was seen. -/
def addSourceFile (acc : Finset Bytes × List Bytes) (full : Bytes) : Finset Bytes × List Bytes :=
  if full = [] then acc
  else
    let base := LexicalPath.base full
    if LexicalPath.ext base = ascii ".go" ∧ base ∉ acc.1 then
      (insert base acc.1, acc.2 ++ [base])
    else acc

/-- The names of the source files, from the `i`-th position base on. -/
def sourceFilesFrom (limit : ℕ) (p : PkgbitsPayload) :
    ℕ → ℕ → Finset Bytes × List Bytes → Checked (List Bytes)
  | 0, _, acc => .ok acc.2
  | n + 1, i, acc => do
    let full ← p.readSectionString limit pbSectionPosBase i pbSyncPosBase
    sourceFilesFrom limit p n (i + 1) (addSourceFile acc full)

/-- The position of the last separator of either kind. -/
def lastSeparator (s : Bytes) : Option ℕ :=
  let name := s.rtakeWhile fun c => c ≠ 47 ∧ c ≠ 92
  if name.length < s.length then some (s.length - name.length - 1) else none

/-- The directory of the source files, from the `i`-th position base on. -/
def sourceDirFrom (limit : ℕ) (p : PkgbitsPayload) : ℕ → ℕ → Checked Bytes
  | 0, _ => .ok []
  | n + 1, i => do
    let full ← p.readSectionString limit pbSectionPosBase i pbSyncPosBase
    match lastSeparator full with
    | none => sourceDirFrom limit p n (i + 1)
    | some cut =>
      if 0 < cut ∧ LexicalPath.ext full = ascii ".go" then Checked.slice full 0 cut
      else sourceDirFrom limit p n (i + 1)

/-- The names of the source files, each once. -/
def sourceFiles (limit : ℕ) (p : PkgbitsPayload) : Checked (List Bytes) := do
  let n ← p.sectionLen pbSectionPosBase
  -- the set of the names seen is made for `n` elements
  let _ ← alloc limit n
  p.sourceFilesFrom limit n.toNat 0 (∅, [])

/-- The directory of the source files. -/
def sourceDir (limit : ℕ) (p : PkgbitsPayload) : Checked Bytes := do
  let n ← p.sectionLen pbSectionPosBase
  p.sourceDirFrom limit n.toNat 0

end PkgbitsPayload

/-- Opens an archive and reads its payload with `f`, if it has one. -/
def withPkgbits {α : Type} (limit : ℕ) (data : Bytes) (otherwise : α)
    (f : PkgbitsPayload → Checked α) : Checked α := do
  match ← openPkgbits limit data with
  | none => .ok otherwise
  | some p => f p

/-- The import path of an archive. -/
def parseImportPath (limit : ℕ) (data : Bytes) : Checked Bytes :=
  withPkgbits limit data [] fun p => p.readSectionString limit pbSectionPkg 0 pbSyncPkgDef

/-- The names of the source files of an archive. -/
def parseSourceFiles (limit : ℕ) (data : Bytes) : Checked (List Bytes) :=
  withPkgbits limit data [] fun p => p.sourceFiles limit

/-- The directory from which the source files of an archive were compiled. -/
def parseSourceDir (limit : ℕ) (data : Bytes) : Checked Bytes :=
  withPkgbits limit data [] fun p => p.sourceDir limit

/-! ## The bytes of a payload -/

/-- The bytes of a table of numbers of 32 bits. -/
def tableBytes (l : List ℕ) : Bytes :=
  l.flatMap (leBytes 4)

namespace PkgbitsPayload

/-- Where a section ends in the table of elements. -/
def sectionEnd (p : PkgbitsPayload) (s : ℕ) : ℕ :=
  p.elemEndsEnds.getD s 0

/-- The bytes are two tables of numbers of 32 bits, the data and a fingerprint; the last section
ends where the table of elements does. -/
def IsTables (p : PkgbitsPayload) (bytes : Bytes) : Prop :=
  (∀ v ∈ p.elemEndsEnds, v < 2 ^ 32) ∧ (∀ v ∈ p.elemEnds, v < 2 ^ 32) ∧
    p.elemEnds.length = p.sectionEnd (pbNumSections - 1) ∧
    ∃ fingerprint, fingerprint.length = fingerprintSize ∧
      bytes = tableBytes p.elemEndsEnds ++ (tableBytes p.elemEnds ++ (p.elemData ++ fingerprint))

/-- The bytes are a version, flags unless the version is 0, and the tables. -/
def IsPayload (p : PkgbitsPayload) (bytes : Bytes) : Prop :=
  ∃ version flags tables, version < 2 ^ 32 ∧ flags < 2 ^ 32 ∧ (version < 1 → flags = 0) ∧
    bytes = leBytes 4 version ++ ((if version < 1 then [] else leBytes 4 flags) ++ tables) ∧
    p.sync = decide (flags &&& pbFlagSyncMarkers ≠ 0) ∧ p.IsTables tables

end PkgbitsPayload

/-- The bytes of the payload of an archive: in the member `__.PKGDEF`, after the first marker and
the letter `u`, up to the text that ends it. -/
def exportData (data : Bytes) : Option Bytes :=
  (arMember data (ascii "__.PKGDEF")).bind fun pkgdef =>
    (index pkgbitsMarker pkgdef).bind fun idx =>
      match pkgdef.drop (idx + pkgbitsMarker.length) with
      | [] => none
      | kind :: payload =>
        if kind ≠ 117 then none
        else
          match index pkgbitsEnd payload with
          | some stop => some (payload.take stop)
          | none => some payload

/-- An archive carries a payload. -/
def Carries (data : Bytes) (p : PkgbitsPayload) : Prop :=
  ∃ bytes, exportData data = some bytes ∧ p.IsPayload bytes

section Tables

@[simp]
lemma length_tableBytes (l : List ℕ) : (tableBytes l).length = l.length * 4 := by
  induction l with
  | nil => rfl
  | cons v l ih =>
    simp only [tableBytes, List.flatMap_cons, List.length_append, length_leBytes,
      List.length_cons] at ih ⊢
    omega

/-- Four bytes are those of a number. -/
lemma exists_leBytes (bytes : Bytes) (h : 4 ≤ bytes.length) :
    ∃ v rest, v < 2 ^ 32 ∧ bytes = leBytes 4 v ++ rest := by
  have hlen : (bytes.take 4).reverse.length = 4 := by simp [h]
  have hlt := beValue_lt (bytes.take 4).reverse
  rw [hlen] at hlt
  refine ⟨leValue (bytes.take 4), bytes.drop 4, hlt, ?_⟩
  have hback : (beBytes 4 (leValue (bytes.take 4))) = (bytes.take 4).reverse := by
    refine beValue_injOn (by rw [length_beBytes, hlen]) ?_
    rw [leValue, beValue_beBytes_of_lt hlt]
  rw [leBytes, hback, List.reverse_reverse, List.take_append_drop]

/-- Enough bytes are those of a table. -/
lemma exists_tableBytes (n : ℕ) (bytes : Bytes) (h : n * 4 ≤ bytes.length) :
    ∃ l rest, l.length = n ∧ (∀ v ∈ l, v < 2 ^ 32) ∧ bytes = tableBytes l ++ rest := by
  induction n generalizing bytes with
  | zero => exact ⟨[], bytes, rfl, by simp, rfl⟩
  | succ n ih =>
    obtain ⟨v, rest, hv, rfl⟩ := exists_leBytes bytes (by omega)
    rw [List.length_append, length_leBytes] at h
    obtain ⟨l, rest, hl, hlt, rfl⟩ := ih rest (by omega)
    refine ⟨v :: l, rest, by rw [List.length_cons, hl], ?_, ?_⟩
    · exact List.forall_mem_cons.mpr ⟨hv, hlt⟩
    · rw [tableBytes, tableBytes, List.flatMap_cons, List.append_assoc]

/-- A number is read. -/
lemma uint32_leBytes {v : ℕ} (hv : v < 2 ^ 32) (rest : Bytes) :
    uint32 (leBytes 4 v ++ rest) = .ok v := by
  have hlt : 3 < (leBytes 4 v ++ rest).length := by
    rw [List.length_append, length_leBytes]
    omega
  rw [uint32, get_of_lt hlt, ok_bind, List.take_left' (length_leBytes 4 v),
    leValue_leBytes_of_lt (by simpa using hv)]

/-- A table is read. -/
lemma uint32sFrom_tableBytes {l : List ℕ} (hl : ∀ v ∈ l, v < 2 ^ 32) {n : ℕ} (hn : l.length = n)
    (front rest : Bytes) {i : ℕ} (hi : front.length = i * 4) :
    uint32sFrom (front ++ (tableBytes l ++ rest)) n i = .ok ⟨l, hn⟩ := by
  subst hn
  induction l generalizing front i with
  | nil => rfl
  | cons v l ih =>
    obtain ⟨hv, hl⟩ := List.forall_mem_cons.mp hl
    have hsplit : front ++ (tableBytes (v :: l) ++ rest)
        = (front ++ leBytes 4 v) ++ (tableBytes l ++ rest) := by
      simp [tableBytes]
    have hslice : Checked.slice (front ++ (leBytes 4 v ++ (tableBytes l ++ rest))) (i * 4)
        (front ++ (leBytes 4 v ++ (tableBytes l ++ rest))).length
        = .ok (leBytes 4 v ++ (tableBytes l ++ rest)) := by
      rw [← hi]
      exact slice_append_right ..
    have hrest := ih hl (front ++ leBytes 4 v) (i := i + 1)
      (by rw [List.length_append, length_leBytes, hi]; omega)
    simp only [List.length_cons, hsplit]
    rw [uint32sFrom, hrest, List.append_assoc, hslice, ok_bind, uint32_leBytes hv, ok_bind, ok_bind]

/-- What follows a table that has been read. -/
lemma slice_tableBytes {l : List ℕ} {n : ℕ} (hn : l.length = n) (rest : Bytes) :
    Checked.slice (tableBytes l ++ rest) (n * 4) (tableBytes l ++ rest).length = .ok rest := by
  rw [← hn, ← length_tableBytes]
  exact slice_append_right ..

lemma getD_last {ends : List ℕ} (hends : ends.length = pbNumSections) :
    get ends (pbNumSections - 1) = .ok (ends.getD (pbNumSections - 1) 0) := by
  have hinside : pbNumSections - 1 < ends.length := by
    rw [hends]
    decide
  rw [get_of_lt hinside, List.getD_eq_getElem _ _ hinside]

/-- The ends of the sections are read. -/
lemma parseTables_tableBytes (limit flags : ℕ) {ends : List ℕ}
    (hends : ends.length = pbNumSections) (hlt : ∀ v ∈ ends, v < 2 ^ 32) (rest : Bytes) :
    parseTables limit flags (tableBytes ends ++ rest) =
      parseElems limit flags ⟨ends, hends⟩ rest := by
  have hlong : ¬ (tableBytes ends ++ rest).length < pbNumSections * 4 := by
    rw [List.length_append, length_tableBytes, hends]
    omega
  have hread : uint32sFrom (tableBytes ends ++ rest) pbNumSections 0 = .ok ⟨ends, hends⟩ :=
    uint32sFrom_tableBytes hlt hends [] rest rfl
  rw [parseTables, if_neg hlong, hread, ok_bind, slice_tableBytes hends, ok_bind]

/-- The ends of the elements are read; the data end before the fingerprint. -/
lemma parseElems_tableBytes {limit : ℕ} (flags : ℕ) {ends elems : List ℕ}
    (hends : ends.length = pbNumSections) (helems : elems.length = ends.getD (pbNumSections - 1) 0)
    (hlt : ∀ v ∈ elems, v < 2 ^ 32) {rest : Bytes}
    (hlimit : (tableBytes elems ++ rest).length ≤ limit) :
    parseElems limit flags ⟨ends, hends⟩ (tableBytes elems ++ rest) =
      if rest.length < fingerprintSize then .ok none
      else .ok (some ⟨ends, elems, rest.take (rest.length - fingerprintSize),
        flags &&& pbFlagSyncMarkers ≠ 0, hends⟩) := by
  rw [List.length_append, length_tableBytes] at hlimit
  have hlong : ¬ (tableBytes elems ++ rest).length < elems.length * 4 := by
    rw [List.length_append, length_tableBytes]
    omega
  have hread : uint32sFrom (tableBytes elems ++ rest) elems.length 0 = .ok ⟨elems, rfl⟩ :=
    uint32sFrom_tableBytes hlt rfl [] rest rfl
  rw [parseElems, getD_last hends, ← helems, ok_bind, if_neg hlong, alloc_of_le (by omega), ok_bind,
    hread, ok_bind, slice_tableBytes rfl, ok_bind]
  by_cases hshort : rest.length < fingerprintSize
  · rw [if_pos hshort, if_pos hshort]
  · rw [if_neg hshort, if_neg hshort, slice_zero (Nat.sub_le ..), ok_bind]

/-- Tables are read. -/
lemma parseTables_of_isTables {limit flags : ℕ} {bytes : Bytes} {p : PkgbitsPayload}
    (h : p.IsTables bytes) (hsync : p.sync = decide (flags &&& pbFlagSyncMarkers ≠ 0))
    (hlimit : bytes.length ≤ limit) : parseTables limit flags bytes = .ok (some p) := by
  obtain ⟨hends, helems, hlast, fingerprint, hfingerprint, rfl⟩ := h
  rcases p with ⟨ends, elems, elemData, sync, hlength⟩
  simp only at hends helems hlast hsync hlimit ⊢
  subst hsync
  have hrest : (elemData ++ fingerprint).length - fingerprintSize = elemData.length := by
    rw [List.length_append, hfingerprint, Nat.add_sub_cancel]
  have hshort : ¬ (elemData ++ fingerprint).length < fingerprintSize := by
    rw [List.length_append, hfingerprint]
    omega
  have hle : (tableBytes elems ++ (elemData ++ fingerprint)).length ≤ limit := by
    rw [List.length_append] at hlimit
    omega
  rw [parseTables_tableBytes limit flags hlength hends,
    parseElems_tableBytes flags hlength hlast helems hle, if_neg hshort, hrest, List.take_left]

/-- What is read are tables. -/
lemma parseTables_cases (limit flags : ℕ) (bytes : Bytes) (hlimit : bytes.length ≤ limit) :
    parseTables limit flags bytes = .ok none ∨ ∃ p : PkgbitsPayload, p.IsTables bytes ∧
      p.sync = decide (flags &&& pbFlagSyncMarkers ≠ 0) := by
  by_cases hlong : bytes.length < pbNumSections * 4
  · left
    rw [parseTables, if_pos hlong]
  obtain ⟨ends, rest, hends, hlt, rfl⟩ := exists_tableBytes pbNumSections bytes (not_lt.mp hlong)
  rw [parseTables_tableBytes limit flags hends hlt]
  by_cases helems : rest.length < ends.getD (pbNumSections - 1) 0 * 4
  · left
    rw [parseElems, getD_last hends, ok_bind, if_pos helems]
  obtain ⟨elems, rest, hlength, helt, rfl⟩ := exists_tableBytes _ rest (not_lt.mp helems)
  by_cases hshort : rest.length < fingerprintSize
  · left
    have hle : (tableBytes elems ++ rest).length ≤ limit := by
      rw [List.length_append] at hlimit
      omega
    rw [parseElems_tableBytes flags hends hlength helt hle, if_pos hshort]
  · right
    refine ⟨⟨ends, elems, rest.take (rest.length - fingerprintSize),
      flags &&& pbFlagSyncMarkers ≠ 0, hends⟩, ⟨hlt, helt, hlength,
      rest.drop (rest.length - fingerprintSize), ?_, ?_⟩, rfl⟩
    · rw [List.length_drop]
      omega
    · rw [List.take_append_drop]

lemma not_length_leBytes_append_lt (v : ℕ) (rest : Bytes) : ¬ (leBytes 4 v ++ rest).length < 4 := by
  rw [List.length_append, length_leBytes]
  omega

lemma takeUint32_leBytes {v : ℕ} (hv : v < 2 ^ 32) (rest : Bytes) :
    takeUint32 (leBytes 4 v ++ rest) = .ok (v, rest) := by
  have hle := not_lt.mp (not_length_leBytes_append_lt v rest)
  have hvalue := uint32_leBytes hv []
  rw [List.append_nil] at hvalue
  rw [takeUint32, slice_zero hle, List.take_left' (length_leBytes 4 v), ok_bind, hvalue, ok_bind,
    slice_length hle, List.drop_left' (length_leBytes 4 v), ok_bind]

/-- A payload of version 0 has no flags. -/
lemma parsePkgbits_zero (limit : ℕ) {version : ℕ} (hzero : version < 1) (tables : Bytes) :
    parsePkgbits limit (leBytes 4 version ++ tables) = parseTables limit 0 tables := by
  rw [parsePkgbits, if_neg (not_length_leBytes_append_lt version tables),
    takeUint32_leBytes (by omega), ok_bind]
  exact if_pos hzero

/-- A payload of another version has flags. -/
lemma parsePkgbits_flags (limit : ℕ) {version flags : ℕ} (hversion : version < 2 ^ 32)
    (hpos : ¬ version < 1) (hflags : flags < 2 ^ 32) (tables : Bytes) :
    parsePkgbits limit (leBytes 4 version ++ (leBytes 4 flags ++ tables)) =
      parseTables limit flags tables := by
  rw [parsePkgbits, if_neg (not_length_leBytes_append_lt version _), takeUint32_leBytes hversion,
    ok_bind]
  dsimp only
  rw [if_neg hpos, if_neg (not_length_leBytes_append_lt flags _), takeUint32_leBytes hflags,
    ok_bind]

/-- A payload is read. -/
lemma parsePkgbits_of_isPayload {limit : ℕ} {bytes : Bytes} {p : PkgbitsPayload}
    (h : p.IsPayload bytes) (hlimit : bytes.length ≤ limit) :
    parsePkgbits limit bytes = .ok (some p) := by
  obtain ⟨version, flags, tables, hversion, hflags, hzero, rfl, hsync, htables⟩ := h
  simp only [List.length_append] at hlimit
  by_cases hpos : version < 1
  · rw [if_pos hpos, List.nil_append, parsePkgbits_zero limit hpos]
    rw [hzero hpos] at hsync
    exact parseTables_of_isTables htables hsync (by omega)
  · rw [if_neg hpos, parsePkgbits_flags limit hversion hpos hflags]
    exact parseTables_of_isTables htables hsync (by omega)

/-- What is read is a payload. -/
lemma parsePkgbits_cases {limit : ℕ} {bytes : Bytes} (hlimit : bytes.length ≤ limit) :
    parsePkgbits limit bytes = .ok none ∨ ∃ p : PkgbitsPayload, p.IsPayload bytes := by
  by_cases hlong : bytes.length < 4
  · left
    rw [parsePkgbits, if_pos hlong]
  obtain ⟨version, rest, hversion, rfl⟩ := exists_leBytes bytes (not_lt.mp hlong)
  rw [List.length_append, length_leBytes] at hlimit
  by_cases hpos : version < 1
  · rw [parsePkgbits_zero limit hpos]
    rcases parseTables_cases limit 0 rest (by omega) with hnone | ⟨p, hp, hsync⟩
    · exact .inl hnone
    · exact .inr ⟨p, version, 0, rest, hversion, by decide, fun _ => rfl, by simp [hpos], hsync, hp⟩
  by_cases hshort : rest.length < 4
  · left
    rw [parsePkgbits, if_neg hlong, takeUint32_leBytes hversion, ok_bind]
    dsimp only
    rw [if_neg hpos, if_pos hshort]
  obtain ⟨flags, tables, hflags, rfl⟩ := exists_leBytes rest (not_lt.mp hshort)
  rw [List.length_append, length_leBytes] at hlimit
  rw [parsePkgbits_flags limit hversion hpos hflags]
  rcases parseTables_cases limit flags tables (by omega) with hnone | ⟨p, hp, hsync⟩
  · exact .inl hnone
  · exact .inr ⟨p, version, flags, tables, hversion, hflags, fun h => absurd h hpos,
      by rw [if_neg hpos], hsync, hp⟩

end Tables

/-! ## The payload of an archive -/

/-- The payload is found where the archive has it, and then read. -/
lemma openPkgbits_eq (limit : ℕ) (data : Bytes) :
    openPkgbits limit data =
      match exportData data with
      | none => .ok none
      | some payload => parsePkgbits limit payload := by
  rw [openPkgbits, exportData, CheckedArchive.arMember_eq, ok_bind]
  rcases arMember data (ascii "__.PKGDEF") with _ | pkgdef
  · rfl
  dsimp only [Option.bind_some]
  rcases hidx : index pkgbitsMarker pkgdef with _ | idx
  · rfl
  dsimp only [Option.bind_some]
  rw [slice_length (index_add_length_le hidx), ok_bind]
  rcases pkgdef.drop (idx + pkgbitsMarker.length) with _ | ⟨kind, payload⟩
  · rfl
  rw [if_neg (by simp)]
  change (if kind ≠ 117 then _ else _) = _
  by_cases hkind : kind ≠ 117
  · rw [if_pos hkind]
    simp [hkind]
  rw [if_neg hkind, slice_length (by simp), ok_bind, cutPayload]
  simp only [hkind, if_false, List.drop_succ_cons, List.drop_zero]
  rcases hstop : index pkgbitsEnd payload with _ | stop
  · rfl
  · have hle := index_add_length_le hstop
    dsimp only
    rw [slice_zero (by omega), ok_bind]

lemma length_le_of_exportData {data payload : Bytes} (h : exportData data = some payload) :
    payload.length ≤ data.length := by
  obtain ⟨pkgdef, hmember, h⟩ := Option.bind_eq_some_iff.mp h
  obtain ⟨idx, -, h⟩ := Option.bind_eq_some_iff.mp h
  have hmember := length_le_of_arMember hmember
  rcases hafter : pkgdef.drop (idx + pkgbitsMarker.length) with _ | ⟨kind, rest⟩
  · rw [hafter] at h
    cases h
  have hrest : (kind :: rest).length ≤ pkgdef.length := by
    rw [← hafter, List.length_drop]
    omega
  rw [List.length_cons] at hrest
  rw [hafter] at h
  dsimp only at h
  split_ifs at h
  split at h
  · cases h
    exact (List.length_take_le' ..).trans (by omega)
  · cases h
    omega

/-- Opening an archive has no fault, and yields the payload that it carries. -/
theorem openPkgbits_eq_ok_iff {limit : ℕ} {data : Bytes} (hlimit : data.length ≤ limit) :
    Safe (openPkgbits limit data) ∧
      ∀ p, openPkgbits limit data = .ok (some p) ↔ Carries data p := by
  rw [openPkgbits_eq]
  rcases hdata : exportData data with _ | bytes
  · refine ⟨safe_ok none, fun p => ⟨nofun, ?_⟩⟩
    rintro ⟨bytes, hbytes, -⟩
    rw [hdata] at hbytes
    cases hbytes
  have hle := (length_le_of_exportData hdata).trans hlimit
  have hcarries : ∀ p, Carries data p ↔ p.IsPayload bytes := by
    intro p
    constructor
    · rintro ⟨bytes', hbytes, hp⟩
      obtain rfl := Option.some.inj (hdata.symm.trans hbytes)
      exact hp
    · exact fun hp => ⟨bytes, hdata, hp⟩
  simp only [hcarries]
  rcases parsePkgbits_cases hle with hnone | ⟨p, hp⟩
  · refine ⟨⟨none, hnone⟩, fun p => ⟨fun h => ?_, fun hp => parsePkgbits_of_isPayload hp hle⟩⟩
    rw [hnone] at h
    cases h
  · have hread := parsePkgbits_of_isPayload hp hle
    refine ⟨⟨some p, hread⟩, fun p' => ⟨fun h => ?_, fun hp' => parsePkgbits_of_isPayload hp' hle⟩⟩
    rw [hread] at h
    cases h
    exact hp

/-- The elements of a payload are no more than the bytes of the archive. -/
lemma Carries.length_elemEnds_le {data : Bytes} {p : PkgbitsPayload} (h : Carries data p) :
    p.elemEnds.length ≤ data.length := by
  obtain ⟨bytes, hbytes, version, flags, tables, -, -, -, rfl, -, -, -, -, fingerprint, -, rfl⟩ := h
  have hle := length_le_of_exportData hbytes
  simp only [List.length_append, length_tableBytes] at hle
  omega

/-- Reading the payload of an archive is safe if and only if reading the payload that it carries
is. -/
lemma safe_withPkgbits_iff {α : Type} {limit : ℕ} {data : Bytes} (hlimit : data.length ≤ limit)
    (otherwise : α) (f : PkgbitsPayload → Checked α) :
    Safe (withPkgbits limit data otherwise f) ↔ ∀ p, Carries data p → Safe (f p) := by
  obtain ⟨⟨o, ho⟩, hiff⟩ := openPkgbits_eq_ok_iff hlimit
  rw [withPkgbits, ho, ok_bind]
  simp only [← hiff, ho, Except.ok.injEq]
  rcases o with _ | p
  · exact iff_of_true (safe_ok _) nofun
  · simp only [Option.some.injEq, forall_eq']

end GoBuildCache
