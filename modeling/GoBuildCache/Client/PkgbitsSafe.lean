import GoBuildCache.Client.Pkgbits

/-!
# Reading export data on any bytes

Nothing in a payload is checked by the source against the number of its elements, and the numbers in
an element are not checked against its size. So the functions that read export data have a fault on
some byte strings. `PkgbitsPayload.InOrder` says what the tables and the elements of a payload must
be like, in terms of its bytes; `archiveMetadata_safe_iff` says that on every byte string the four
functions that describe an archive have no fault if and only if the payload that it carries, if any,
is in order. Each function has one lemma that says when it is safe.
-/

open ByteString Checked

namespace GoBuildCache

/-! ## Numbers have 64 bits -/

lemma rawUvarintLoop_lt {x s v : ℕ} {r rest : Bytes} (hx : x < 2 ^ 64)
    (h : rawUvarintLoop x s r = some (v, rest)) : v < 2 ^ 64 := by
  induction r generalizing x s with
  | nil => cases h
  | cons b r ih =>
    rw [rawUvarintLoop] at h
    split_ifs at h
    · cases h
      exact Nat.or_lt_two_pow hx (Nat.mod_lt _ (by positivity))
    · exact ih (Nat.or_lt_two_pow hx (Nat.mod_lt _ (by positivity))) h

lemma syncUvarint_lt {sync : Bool} {v : ℕ} {r rest : Bytes}
    (h : syncUvarint sync r = some (v, rest)) : v < 2 ^ 64 := by
  obtain ⟨r', -, h⟩ := Option.bind_eq_some_iff.mp h
  exact rawUvarintLoop_lt (by decide) h

lemma readRelocCount_lt {sync : Bool} {n : ℕ} {r rest : Bytes}
    (h : readRelocCount sync r = some (n, rest)) : n < 2 ^ 64 := by
  obtain ⟨r', -, h⟩ := Option.bind_eq_some_iff.mp h
  exact syncUvarint_lt h

lemma readReloc_lt {sync : Bool} {reloc : Reloc} {r rest : Bytes}
    (h : readReloc sync r = some (reloc, rest)) : reloc.idx < 2 ^ 64 := by
  obtain ⟨r₁, -, h⟩ := Option.bind_eq_some_iff.mp h
  obtain ⟨⟨kind, r₂⟩, -, h⟩ := Option.bind_eq_some_iff.mp h
  obtain ⟨⟨idx, r₃⟩, hidx, h⟩ := Option.map_eq_some_iff.mp h
  cases h
  exact syncUvarint_lt hidx

lemma readStringReloc_lt {sync : Bool} {openingSync k : ℕ} {r : Bytes}
    (h : readStringReloc sync openingSync r = some k) : k < 2 ^ 64 := by
  obtain ⟨r₁, -, h⟩ := Option.bind_eq_some_iff.mp h
  obtain ⟨r₂, -, h⟩ := Option.bind_eq_some_iff.mp h
  obtain ⟨r₃, -, h⟩ := Option.bind_eq_some_iff.mp h
  obtain ⟨⟨k', r₄⟩, hk, h⟩ := Option.map_eq_some_iff.mp h
  cases h
  exact syncUvarint_lt hk

/-- A large number of 64 bits is negative as a signed one. -/
lemma int64_neg {v : ℕ} (h : 2 ^ 63 ≤ v) (h' : v < 2 ^ 64) : int64 v < 0 := by
  rw [int64, Int.bmod_def]
  split_ifs <;> omega

/-! ## What the bytes of an element say -/

/-- Reads relocations. -/
def readRelocs (sync : Bool) : ℕ → Bytes → Option (List Reloc × Bytes)
  | 0, r => some ([], r)
  | n + 1, r =>
    (readReloc sync r).bind fun (reloc, r) =>
      (readRelocs sync n r).map fun (relocs, r) => (reloc :: relocs, r)

lemma readRelocs_spec {sync : Bool} {n : ℕ} {r rest : Bytes} {relocs : List Reloc}
    (h : readRelocs sync n r = some (relocs, rest)) :
    relocs.length = n ∧ ∀ reloc ∈ relocs, reloc.idx < 2 ^ 64 := by
  induction n generalizing r relocs with
  | zero =>
    cases h
    exact ⟨rfl, by simp⟩
  | succ n ih =>
    obtain ⟨⟨reloc, r'⟩, hreloc, h⟩ := Option.bind_eq_some_iff.mp h
    obtain ⟨⟨relocs', r''⟩, hrelocs, h⟩ := Option.map_eq_some_iff.mp h
    cases h
    obtain ⟨hlength, hlt⟩ := ih hrelocs
    exact ⟨congrArg (· + 1) hlength, List.forall_mem_cons.mpr ⟨readReloc_lt hreloc, hlt⟩⟩

namespace PkgbitsPayload

/-- The bytes of an element within the table, if they are within the data. -/
def elemBytes (p : PkgbitsPayload) (i : ℕ) : Option Bytes :=
  let start := if 0 < i then p.elemEnds.getD (i - 1) 0 else 0
  let stop := p.elemEnds.getD i 0
  if p.elemData.length < stop ∨ stop < start then none
  else some ((p.elemData.take stop).drop start)

/-- A relocation that refers to a string refers to an element within the table. -/
def StringInside (p : PkgbitsPayload) (ref : Reloc) : Prop :=
  ref.kind = pbSectionString → ref.idx < 2 ^ 63 ∧
    (ref.idx < p.sectionEnd pbSectionString → ref.idx < p.elemEnds.length)

/-- The numbers at the start of an element: it announces at most `limit` relocations, and its string
is a relocation with a signed number, which refers to a string within the table. -/
def ElemInOrder (p : PkgbitsPayload) (limit openingSync : ℕ) (r : Bytes) : Prop :=
  ∀ count ∈ readRelocCount p.sync r, count.1 < 2 ^ 63 ∧ count.1 ≤ limit ∧
    ∀ relocs ∈ readRelocs p.sync count.1 count.2,
      ∀ k ∈ readStringReloc p.sync openingSync relocs.2,
        k < 2 ^ 63 ∧ ∀ ref ∈ relocs.1[k]?, p.StringInside ref

/-- An element is within the table, and the numbers in it are in order. -/
def ElemReadable (p : PkgbitsPayload) (limit openingSync i : ℕ) : Prop :=
  i < p.elemEnds.length ∧ ∀ r ∈ p.elemBytes i, p.ElemInOrder limit openingSync r

/-- A payload can be read with new arrays of at most `limit` elements. -/
structure InOrder (p : PkgbitsPayload) (limit : ℕ) : Prop where
  /-- The position bases do not end before they begin. -/
  posBase_le : p.sectionEnd (pbSectionPosBase - 1) ≤ p.sectionEnd pbSectionPosBase
  /-- Each of them can be read. -/
  posBase : ∀ i, p.sectionEnd (pbSectionPosBase - 1) ≤ i → i < p.sectionEnd pbSectionPosBase →
    p.ElemReadable limit pbSyncPosBase i
  /-- The first package can be read, if there is one. -/
  pkg : p.sectionEnd (pbSectionPkg - 1) < p.sectionEnd pbSectionPkg →
    p.ElemReadable limit pbSyncPkgDef (p.sectionEnd (pbSectionPkg - 1))

/-! ## When reading is safe -/

variable (p : PkgbitsPayload)

lemma get_elemEndsEnds {s : ℕ} (hs : s < pbNumSections) :
    get p.elemEndsEnds s = .ok (p.sectionEnd s) := by
  have hlt : s < p.elemEndsEnds.length := p.length_elemEndsEnds ▸ hs
  rw [get_of_lt hlt, sectionEnd, List.getD_eq_getElem _ _ hlt]

lemma get_elemEnds {i : ℕ} (hi : i < p.elemEnds.length) :
    get p.elemEnds i = .ok (p.elemEnds.getD i 0) := by
  rw [get_of_lt hi, List.getD_eq_getElem _ _ hi]

/-- An element within the table is read. -/
lemma readElem_of_lt {i : ℕ} (hi : i < p.elemEnds.length) :
    p.readElem i = .ok (p.elemBytes i) := by
  have hstart : p.readElemStart i = .ok (if 0 < i then p.elemEnds.getD (i - 1) 0 else 0) := by
    rw [readElemStart]
    by_cases hpos : 0 < i
    · have hpred : (i : ℤ) - 1 = (i - 1 : ℕ) := by omega
      rw [if_pos (by omega), if_pos hpos, hpred, getInt_natCast, p.get_elemEnds (by omega)]
    · rw [if_neg (by omega), if_neg hpos]
  rw [readElem, hstart, ok_bind, getInt_natCast, p.get_elemEnds hi, ok_bind, elemBytes]
  generalize (if 0 < i then p.elemEnds.getD (i - 1) 0 else 0) = start
  split_ifs with hout
  · rfl
  · rw [not_or, not_lt, not_lt] at hout
    rw [slice_of_le hout.2 hout.1, ok_bind]

/-- An element can be read if and only if it is within the table. -/
lemma safe_readElem_iff (i : ℤ) : Safe (p.readElem i) ↔ 0 ≤ i ∧ i < p.elemEnds.length := by
  constructor
  · intro h
    rw [readElem, safe_bind_iff] at h
    obtain ⟨start, -, h⟩ := h
    obtain ⟨stop, hstop, -⟩ := safe_bind_iff.mp h
    by_contra hout
    rcases lt_or_ge i 0 with hneg | hpos
    · rw [getInt_of_neg hneg] at hstop
      cases hstop
    · obtain ⟨j, rfl⟩ := Int.eq_ofNat_of_zero_le hpos
      rw [getInt_natCast, get_of_length_le (by omega)] at hstop
      cases hstop
  · rintro ⟨hpos, hlt⟩
    obtain ⟨j, rfl⟩ := Int.eq_ofNat_of_zero_le hpos
    exact ⟨_, p.readElem_of_lt (by omega)⟩

/-- The array is filled with the relocations that the bytes say. -/
lemma fillRelocs_eq (sync : Bool) (n : ℕ) (done zeros : List Reloc) (hzeros : zeros.length = n)
    (r : Bytes) :
    fillRelocs sync n done.length (done ++ zeros) r
      = .ok ((readRelocs sync n r).map fun (relocs, r) => (done ++ relocs, r)) := by
  induction n generalizing done zeros r with
  | zero =>
    obtain rfl := List.length_eq_zero_iff.mp hzeros
    rfl
  | succ n ih =>
    obtain ⟨zero, zeros, rfl⟩ := List.exists_cons_of_length_eq_add_one hzeros
    rw [fillRelocs, readRelocs]
    rcases readReloc sync r with _ | ⟨reloc, r⟩
    · rfl
    dsimp only [Option.bind_some]
    rw [set_append_cons, ok_bind]
    have hnext := ih (done ++ [reloc]) zeros (by simpa using hzeros) r
    rw [List.length_append, List.append_assoc, List.singleton_append, List.length_singleton]
      at hnext
    rw [hnext, Option.map_map]
    congr 2
    funext ⟨relocs, r⟩
    simp

/-- A string can be read if and only if the relocation refers to an element within the table. -/
lemma safe_resolveString_iff {ref : Reloc} (hidx : ref.idx < 2 ^ 64) :
    Safe (p.resolveString ref) ↔ p.StringInside ref := by
  rw [resolveString, StringInside]
  by_cases hkind : ref.kind ≠ pbSectionString
  · rw [if_pos hkind]
    exact iff_of_true (safe_ok _) fun h => absurd h hkind
  rw [if_neg hkind, p.get_elemEndsEnds (by decide), ok_bind]
  simp only [not_not.mp hkind, true_imp_iff]
  by_cases hsigned : ref.idx < 2 ^ 63
  · rw [int64_eq (by omega) (by omega)]
    by_cases hout : p.sectionEnd pbSectionString ≤ ref.idx
    · rw [if_pos (by omega)]
      exact iff_of_true (safe_ok _) ⟨hsigned, fun h => absurd h (by omega)⟩
    · rw [if_neg (by omega), safe_bind_iff_left fun _ => safe_ok _, safe_readElem_iff]
      omega
  · have hneg := int64_neg (not_lt.mp hsigned) hidx
    rw [if_neg (by omega), safe_bind_iff_left fun _ => safe_ok _, safe_readElem_iff]
    omega

/-- A relocation can be used if and only if its number is signed, and it refers to a string within
the table if it refers to a string. -/
lemma safe_useReloc_iff {relocs : List Reloc} {k : ℕ} (hk : k < 2 ^ 64)
    (hlength : relocs.length < 2 ^ 63) (hrelocs : ∀ reloc ∈ relocs, reloc.idx < 2 ^ 64) :
    Safe (p.useReloc relocs k) ↔
      k < 2 ^ 63 ∧ ∀ ref ∈ relocs[k]?, p.StringInside ref := by
  rw [useReloc]
  by_cases hsigned : k < 2 ^ 63
  · rw [int64_eq (by omega) (by omega)]
    simp only [hsigned, true_and]
    by_cases hout : relocs.length ≤ k
    · rw [if_pos (by omega), List.getElem?_eq_none hout]
      exact iff_of_true (safe_ok _) (by simp)
    · have hlt := not_le.mp hout
      rw [if_neg (by omega), get_of_lt hlt, ok_bind, List.getElem?_eq_getElem hlt]
      simp only [Option.mem_def, Option.some.injEq, forall_eq']
      exact p.safe_resolveString_iff (hrelocs _ (List.getElem_mem hlt))
  · -- a negative number passes the check of the source
    have hneg := int64_neg (not_lt.mp hsigned) hk
    rw [if_neg (by omega), get_of_length_le (by omega)]
    exact iff_of_false (not_safe_error _) fun h => hsigned h.1

/-- The string of an element can be read if and only if its numbers are in order. -/
lemma safe_readString_iff (limit openingSync : ℕ) (r : Bytes) :
    Safe (p.readString limit openingSync r) ↔ p.ElemInOrder limit openingSync r := by
  rw [readString, ElemInOrder]
  rcases hcount : readRelocCount p.sync r with _ | ⟨n, rest⟩
  · exact iff_of_true (safe_ok _) (by simp)
  have hn := readRelocCount_lt hcount
  simp only [Option.mem_def, Option.some.injEq, forall_eq']
  by_cases hfits : n < 2 ^ 63 ∧ n ≤ limit
  · have hfill := fillRelocs_eq p.sync n [] (List.replicate n ⟨0, 0⟩) List.length_replicate rest
    rw [List.nil_append, List.length_nil] at hfill
    rw [int64_eq (by omega) (by omega), alloc_of_le hfits.2, ok_bind, hfill, ok_bind]
    simp only [hfits.1, hfits.2, true_and]
    rcases hrelocs : readRelocs p.sync n rest with _ | ⟨relocs, rest'⟩
    · exact iff_of_true (safe_ok _) (by simp)
    obtain ⟨hlength, hlt⟩ := readRelocs_spec hrelocs
    simp only [Option.map_some, List.nil_append, Option.some.injEq, forall_eq']
    rcases hk : readStringReloc p.sync openingSync rest' with _ | k
    · exact iff_of_true (safe_ok _) (by simp)
    simp only [Option.some.injEq, forall_eq']
    exact p.safe_useReloc_iff (readStringReloc_lt hk) (by omega) hlt
  · have hbad : ¬ (0 ≤ int64 n ∧ int64 n ≤ limit) := by
      by_cases hsigned : n < 2 ^ 63
      · rw [int64_eq (by omega) (by omega)]
        omega
      · have hneg := int64_neg (not_lt.mp hsigned) hn
        omega
    rw [alloc_of_not hbad]
    exact iff_of_false (not_safe_error _) fun h => hfits ⟨h.1, h.2.1⟩

/-- The string of an element of a section can be read if and only if the element is not in the
section or is readable. -/
lemma safe_readSectionString_iff (limit openingSync relIdx : ℕ) {s : ℕ} (hpos : 0 < s)
    (hs : s < pbNumSections) :
    Safe (p.readSectionString limit s relIdx openingSync) ↔
      (p.sectionEnd (s - 1) + relIdx < p.sectionEnd s →
        p.ElemReadable limit openingSync (p.sectionEnd (s - 1) + relIdx)) := by
  rw [readSectionString, readSectionStart, if_pos hpos, p.get_elemEndsEnds (by omega), ok_bind,
    p.get_elemEndsEnds hs, ok_bind, ElemReadable]
  set i := p.sectionEnd (s - 1) + relIdx
  by_cases hout : p.sectionEnd s ≤ i
  · rw [if_pos hout]
    exact iff_of_true (safe_ok _) fun h => absurd h (by omega)
  rw [if_neg hout]
  simp only [not_le.mp hout, true_imp_iff]
  by_cases hinside : i < p.elemEnds.length
  · rw [p.readElem_of_lt hinside, ok_bind]
    simp only [hinside, true_and]
    rcases p.elemBytes i with _ | r
    · exact iff_of_true (safe_ok _) (by simp)
    · simp only [Option.mem_def, Option.some.injEq, forall_eq']
      exact p.safe_readString_iff limit openingSync r
  · have hunsafe : ¬ Safe (p.readElem i) := by
      rw [safe_readElem_iff]
      omega
    rw [safe_bind_iff]
    constructor
    · rintro ⟨o, ho, -⟩
      exact absurd ⟨o, ho⟩ hunsafe
    · exact fun h => absurd h.1 hinside

lemma sectionLen_eq {s : ℕ} (hpos : 0 < s) (hs : s < pbNumSections) :
    p.sectionLen s = .ok ((p.sectionEnd s : ℤ) - p.sectionEnd (s - 1)) := by
  rw [sectionLen, p.get_elemEndsEnds hs, ok_bind, readSectionStart, if_pos hpos,
    p.get_elemEndsEnds (by omega), ok_bind]

/-- The loop over the source files is safe if and only if every round is. -/
lemma safe_sourceFilesFrom_iff (limit n i : ℕ) (acc : Finset Bytes × List Bytes) :
    Safe (p.sourceFilesFrom limit n i acc) ↔
      ∀ j < n, Safe (p.readSectionString limit pbSectionPosBase (i + j) pbSyncPosBase) := by
  induction n generalizing i acc with
  | zero => exact iff_of_true (safe_ok _) (by simp)
  | succ n ih =>
    rw [sourceFilesFrom, safe_bind_iff]
    simp only [ih]
    constructor
    · rintro ⟨full, hfull, h⟩ j hj
      rcases j with _ | j
      · exact ⟨full, hfull⟩
      · have hj := h j (by omega)
        rwa [Nat.add_right_comm] at hj
    · intro h
      obtain ⟨full, hfull⟩ := h 0 (by omega)
      refine ⟨full, hfull, fun j hj => ?_⟩
      rw [Nat.add_right_comm]
      exact h (j + 1) (by omega)

/-- The loop for the directory is safe if every round is. -/
lemma safe_sourceDirFrom {limit n i : ℕ}
    (h : ∀ j < n, Safe (p.readSectionString limit pbSectionPosBase (i + j) pbSyncPosBase)) :
    Safe (p.sourceDirFrom limit n i) := by
  induction n generalizing i with
  | zero => exact safe_ok _
  | succ n ih =>
    have hnext : Safe (p.sourceDirFrom limit n (i + 1)) := by
      refine ih fun j hj => ?_
      rw [Nat.add_right_comm]
      exact h (j + 1) (by omega)
    obtain ⟨full, hfull⟩ := h 0 (by omega)
    rw [sourceDirFrom]
    refine safe_bind_iff.mpr ⟨full, hfull, ?_⟩
    rcases hcut : lastSeparator full with _ | cut
    · exact hnext
    dsimp only
    split_ifs
    · have hle : cut ≤ full.length := by
        rw [lastSeparator] at hcut
        split_ifs at hcut
        cases hcut
        omega
      exact ⟨_, slice_zero hle⟩
    · exact hnext

/-! ## The sections -/

/-- All position bases can be read. -/
lemma safe_posBase_iff (limit : ℕ) :
    (∀ j < p.sectionEnd pbSectionPosBase - p.sectionEnd (pbSectionPosBase - 1),
        Safe (p.readSectionString limit pbSectionPosBase (0 + j) pbSyncPosBase)) ↔
      ∀ i, p.sectionEnd (pbSectionPosBase - 1) ≤ i → i < p.sectionEnd pbSectionPosBase →
        p.ElemReadable limit pbSyncPosBase i := by
  simp only [p.safe_readSectionString_iff limit pbSyncPosBase _ (s := pbSectionPosBase) (by decide)
    (by decide), Nat.zero_add]
  constructor
  · intro h i hstart hstop
    have hi := h (i - p.sectionEnd (pbSectionPosBase - 1)) (by omega) (by omega)
    rwa [Nat.add_sub_cancel' hstart] at hi
  · exact fun h j _ hlt => h _ (Nat.le_add_right ..) hlt

/-- The source files of a payload can be read, with a set for as many names. -/
lemma safe_sourceFiles_iff {limit : ℕ} (hlimit : p.elemEnds.length ≤ limit) :
    Safe (p.sourceFiles limit) ↔
      p.sectionEnd (pbSectionPosBase - 1) ≤ p.sectionEnd pbSectionPosBase ∧
      ∀ i, p.sectionEnd (pbSectionPosBase - 1) ≤ i → i < p.sectionEnd pbSectionPosBase →
        p.ElemReadable limit pbSyncPosBase i := by
  rw [sourceFiles, p.sectionLen_eq (by decide) (by decide), ok_bind]
  by_cases hle : p.sectionEnd (pbSectionPosBase - 1) ≤ p.sectionEnd pbSectionPosBase
  · rw [← Nat.cast_sub hle, Int.toNat_natCast]
    simp only [hle, true_and]
    by_cases hfits : p.sectionEnd pbSectionPosBase - p.sectionEnd (pbSectionPosBase - 1) ≤ limit
    · rw [alloc_of_le hfits, ok_bind, safe_sourceFilesFrom_iff, safe_posBase_iff]
    · -- more position bases than elements
      rw [alloc_of_not (by omega)]
      refine iff_of_false (not_safe_error _) fun h => ?_
      have hlast := (h (p.sectionEnd pbSectionPosBase - 1) (by omega) (by omega)).1
      omega
  · rw [alloc_of_not (by omega)]
    exact iff_of_false (not_safe_error _) fun h => hle h.1

/-- Where the source files can be read, so can their directory. -/
lemma safe_sourceDir {limit : ℕ} (hlimit : p.elemEnds.length ≤ limit)
    (h : Safe (p.sourceFiles limit)) : Safe (p.sourceDir limit) := by
  obtain ⟨hle, hposBase⟩ := (p.safe_sourceFiles_iff hlimit).mp h
  rw [sourceDir, p.sectionLen_eq (by decide) (by decide), ok_bind, ← Nat.cast_sub hle,
    Int.toNat_natCast]
  exact p.safe_sourceDirFrom ((p.safe_posBase_iff limit).mpr hposBase)

/-- A payload is in order if and only if its package and its source files can be read. -/
lemma inOrder_iff {limit : ℕ} (hlimit : p.elemEnds.length ≤ limit) :
    p.InOrder limit ↔ Safe (p.readSectionString limit pbSectionPkg 0 pbSyncPkgDef) ∧
      Safe (p.sourceFiles limit) := by
  rw [p.safe_readSectionString_iff _ _ _ (by decide) (by decide), Nat.add_zero,
    p.safe_sourceFiles_iff hlimit]
  constructor
  · exact fun h => ⟨h.pkg, h.posBase_le, h.posBase⟩
  · rintro ⟨hpkg, hle, hposBase⟩
    exact ⟨hle, hposBase, hpkg⟩

end PkgbitsPayload

/-! ## Archives -/

/-- On every byte string, the functions that describe an archive return without a fault, with new
arrays of at most `c` times its length, if and only if the payload that it carries is in order. -/
theorem archiveMetadata_safe_iff (c : ℕ) (hc : 1 ≤ c) (data : Bytes) :
    (Safe (parseImportPath (c * data.length) data) ∧
        Safe (parseSourceFiles (c * data.length) data) ∧
        Safe (parseSourceDir (c * data.length) data) ∧
        Safe (CheckedArchive.archiveBuildID data)) ↔
      ∀ p, Carries data p → p.InOrder (c * data.length) := by
  have hlimit : data.length ≤ c * data.length := Nat.le_mul_of_pos_left _ hc
  have helems : ∀ p, Carries data p → p.elemEnds.length ≤ c * data.length :=
    fun p hp => hp.length_elemEnds_le.trans hlimit
  rw [parseImportPath, parseSourceFiles, parseSourceDir, safe_withPkgbits_iff hlimit,
    safe_withPkgbits_iff hlimit, safe_withPkgbits_iff hlimit]
  constructor
  · rintro ⟨hpkg, hfiles, -, -⟩ p hp
    exact (p.inOrder_iff (helems p hp)).mpr ⟨hpkg p hp, hfiles p hp⟩
  · intro h
    have hread := fun p (hp : Carries data p) => (p.inOrder_iff (helems p hp)).mp (h p hp)
    refine ⟨fun p hp => (hread p hp).1, fun p hp => (hread p hp).2, fun p hp => ?_,
      ⟨_, CheckedArchive.archiveBuildID_eq data⟩⟩
    exact p.safe_sourceDir (helems p hp) (hread p hp).2

/-- An archive with the given payload. -/
def archiveWith (payload : Bytes) : Bytes :=
  let body := pkgbitsMarker ++ 117 :: payload
  let size := decimal body.length
  arGlobalHdr ++ ascii "__.PKGDEF" ++ List.replicate 39 32 ++ size ++
    List.replicate (10 - size.length) 32 ++ [96, 10] ++ body

/-- The archive of the package `p` with the source file `d/a.go`: two strings, a position base and a
package. -/
def onePackage : Bytes :=
  archiveWith (leBytes 4 0 ++ tableBytes [2, 2, 3, 4, 4, 4, 4, 4, 4, 4] ++
    tableBytes [1, 7, 11, 15] ++ (ascii "pd/a.go" ++ [1, 0, 1, 0] ++ [1, 0, 0, 0]) ++
    List.replicate fingerprintSize 0)

theorem archiveMetadata_safe_onePackage :
    1 ≤ 1 ∧ parseImportPath (1 * onePackage.length) onePackage = .ok (ascii "p") ∧
      parseSourceFiles (1 * onePackage.length) onePackage = .ok [ascii "a.go"] ∧
      parseSourceDir (1 * onePackage.length) onePackage = .ok (ascii "d") ∧
      ∀ p, Carries onePackage p → p.InOrder (1 * onePackage.length) := by
  have hpkg : parseImportPath (1 * onePackage.length) onePackage = .ok (ascii "p") := by
    decide +kernel
  have hfiles : parseSourceFiles (1 * onePackage.length) onePackage = .ok [ascii "a.go"] := by
    decide +kernel
  have hdir : parseSourceDir (1 * onePackage.length) onePackage = .ok (ascii "d") := by
    decide +kernel
  have hid := CheckedArchive.archiveBuildID_eq onePackage
  exact ⟨le_rfl, hpkg, hfiles, hdir,
    (archiveMetadata_safe_iff 1 le_rfl onePackage).mp ⟨⟨_, hpkg⟩, ⟨_, hfiles⟩, ⟨_, hdir⟩, ⟨_, hid⟩⟩⟩

/-- An archive with one element, a package that announces `2 ^ 63` relocations. -/
def hugeRelocCount : Bytes :=
  archiveWith (leBytes 4 0 ++ tableBytes [0, 0, 0, 1, 1, 1, 1, 1, 1, 1] ++ tableBytes [10] ++
    (List.replicate 9 0x80 ++ [1]) ++ List.replicate fingerprintSize 0)

/-- Whatever multiple of its length a new array may have, reading the import path of this archive
has a fault: the length of the array of relocations is negative. -/
theorem parseImportPath_hugeRelocCount :
    hugeRelocCount.length = 139 ∧
      ¬ ∃ c, 1 ≤ c ∧ Safe (parseImportPath (c * hugeRelocCount.length) hugeRelocCount) := by
  refine ⟨by decide +kernel, ?_⟩
  rintro ⟨c, hc, hsafe⟩
  let p : PkgbitsPayload := ⟨[0, 0, 0, 1, 1, 1, 1, 1, 1, 1], [10], List.replicate 9 0x80 ++ [1],
    false, rfl⟩
  have hopen : openPkgbits hugeRelocCount.length hugeRelocCount = .ok (some p) := by
    decide +kernel
  have hcarries : Carries hugeRelocCount p := ((openPkgbits_eq_ok_iff le_rfl).2 p).mp hopen
  rw [parseImportPath, safe_withPkgbits_iff (Nat.le_mul_of_pos_left _ hc)] at hsafe
  have hpkg := (p.safe_readSectionString_iff _ pbSyncPkgDef 0 (by decide) (by decide)).mp
    (hsafe p hcarries) (by decide)
  have hcount : readRelocCount p.sync p.elemData = some (2 ^ 63, []) := by decide +kernel
  exact absurd (hpkg.2 p.elemData (by decide +kernel) _ hcount).1 (lt_irrefl _)

end GoBuildCache
