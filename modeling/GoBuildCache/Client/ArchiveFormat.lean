import GoBuildCache.Client.Archive

/-!
# Well-formed archives

The common `ar` format: after the global header come the members, each with a header of 60 bytes
(name, modification time, owner, group, mode, size, all padded with blanks, and an end mark), its
body, and one more byte if the length of the body is odd.

`arMember_arEncode` says that `arMember` reads such an archive exactly: it returns the body of the
first member with the name.
-/

open ByteString

namespace GoBuildCache

/-- A text in a field of `n` bytes. -/
def arField (n : ℕ) (s : Bytes) : Bytes :=
  s ++ List.replicate (n - s.length) 32

/-- A member that can be written to an archive. -/
structure ArEntry where
  /-- Its name. -/
  name : Bytes
  /-- Whether a slash is written after the name. -/
  slash : Bool
  /-- The fields between the name and the size. -/
  info : Bytes
  /-- Its contents. -/
  body : Bytes
  /-- What is written after contents of odd length. -/
  pad : UInt8
  name_ne : name ≠ []
  name_slash : name.getLast? ≠ some 47
  name_blank : name.getLast? ≠ some 32
  name_fits : (name ++ if slash then [47] else []).length ≤ 16
  info_size : info.length = 32
  body_fits : body.length < 10 ^ 10

namespace ArEntry

variable (m : ArEntry)

/-- The name as it is written. -/
def writtenName : Bytes :=
  m.name ++ if m.slash then [47] else []

/-- The header of a member. -/
def header : Bytes :=
  arField 16 m.writtenName ++ m.info ++ arField 10 (decimal m.body.length) ++ [96, 10]

/-- A member; the byte after contents of odd length may be left out. -/
def encode (padded : Bool) : Bytes :=
  m.header ++ m.body ++ if m.body.length % 2 ≠ 0 ∧ padded = true then [m.pad] else []

end ArEntry

/-- The members of an archive one after the other; only the last one may lack its padding. -/
def arEncodeMembers (lastPad : Bool) : List ArEntry → Bytes
  | [] => []
  | [m] => m.encode lastPad
  | m :: next :: ms => m.encode true ++ arEncodeMembers lastPad (next :: ms)

/-- An archive. -/
def arEncode (members : List ArEntry) (lastPad : Bool) : Bytes :=
  arGlobalHdr ++ arEncodeMembers lastPad members

/-! ## The fields of a header -/

lemma length_arField {n : ℕ} {s : Bytes} (h : s.length ≤ n) : (arField n s).length = n := by
  rw [arField, List.length_append, List.length_replicate]
  exact Nat.add_sub_cancel' h

namespace ArEntry

variable (m : ArEntry)

lemma length_sizeField : (arField 10 (decimal m.body.length)).length = 10 :=
  length_arField (length_decimal_le (by decide) m.body_fits)

lemma length_nameField : (arField 16 m.writtenName).length = 16 :=
  length_arField m.name_fits

lemma length_header : m.header.length = arHdrSize := by
  simp [header, length_sizeField, length_nameField, m.info_size, arHdrSize]

lemma take_header : m.header.take 16 = arField 16 m.writtenName := by
  rw [header, List.append_assoc, List.append_assoc]
  exact List.take_left' m.length_nameField

lemma drop_header_size : (m.header.take 58).drop 48 = arField 10 (decimal m.body.length) := by
  have hfront : (arField 16 m.writtenName ++ m.info).length = 48 := by
    rw [List.length_append, length_nameField, m.info_size]
  rw [header, List.take_left' (by rw [List.length_append, hfront, length_sizeField]),
    List.drop_left' hfront]

lemma drop_header_end : m.header.drop 58 = [96, 10] := by
  rw [header]
  refine List.drop_left' ?_
  rw [List.length_append, List.length_append, length_nameField, m.info_size, length_sizeField]

/-- The name is read back, with and without the slash. -/
lemma trimRight_name : trimRight 47 (trimRight 32 (arField 16 m.writtenName)) = m.name := by
  have hlast : m.writtenName.getLast? ≠ some 32 := by
    cases hslash : m.slash with
    | true => simp [writtenName, hslash]
    | false => simpa [writtenName, hslash] using m.name_blank
  rw [arField, trimRight_append_replicate hlast]
  cases hslash : m.slash with
  | true =>
    rw [writtenName, hslash]
    exact trimRight_append_replicate m.name_slash 1
  | false =>
    rw [writtenName, hslash]
    exact trimRight_append_replicate m.name_slash 0

/-- The size is read back. -/
lemma decimalFrom_size :
    decimalFrom 0 (trimSpace (arField 10 (decimal m.body.length))) = some m.body.length := by
  rw [arField, trimSpace_blanks (visible_decimal _) (decimal_ne_nil _), decimal]
  exact decimalFrom_decimalDigits (Nat.lt_succ_self _)

end ArEntry

/-! ## The scan -/

/-- The scan at a header: the member is the one, or the scan goes on behind it. -/
lemma arScan_header (m : ArEntry) (tail name : Bytes) :
    arScan name (m.header ++ tail) =
      if tail.length < m.body.length then none
      else if m.name = name then some (tail.take m.body.length)
      else if tail.length < m.body.length + m.body.length % 2 then none
      else arScan name (tail.drop (m.body.length + m.body.length % 2)) := by
  have hlength : (m.header ++ tail).length = arHdrSize + tail.length := by
    rw [List.length_append, m.length_header]
  have hname : (m.header ++ tail).take 16 = arField 16 m.writtenName := by
    rw [List.take_append_of_le_length (by rw [m.length_header]; decide), m.take_header]
  have hsize : ((m.header ++ tail).take 58).drop 48 = arField 10 (decimal m.body.length) := by
    rw [List.take_append_of_le_length (by rw [m.length_header]; decide), m.drop_header_size]
  have hend : ((m.header ++ tail).take 60).drop 58 = [96, 10] := by
    have htake : (m.header ++ tail).take 60 = m.header := List.take_left' m.length_header
    rw [htake, m.drop_header_end]
  have hbody : (m.header ++ tail).drop arHdrSize = tail := List.drop_left' m.length_header
  have hbehind : ∀ n, (m.header ++ tail).drop (arHdrSize + n) = tail.drop n := by
    intro n
    rw [← List.drop_drop, hbody]
  rw [arScan, dif_neg (by rw [hlength]; omega)]
  simp only [hname, hsize, hend, hbody, m.trimRight_name, m.decimalFrom_size, ne_eq,
    not_true_eq_false, if_false]
  rcases Nat.mod_two_eq_zero_or_one m.body.length with heven | hodd
  · simp [heven, hlength, hbehind]
  · simp [hodd, Nat.add_assoc, hlength, hbehind]

lemma arScan_nil (name : Bytes) : arScan name [] = none := by
  rw [arScan]
  exact dif_pos (by decide)

/-- The scan reads one member, and goes on behind it if the name is another one. Only at the end of
the archive may the padding be missing. -/
lemma arScan_encode (m : ArEntry) {padded : Bool} {rest : Bytes}
    (hpadded : padded = true ∨ rest = []) (name : Bytes) :
    arScan name (m.encode padded ++ rest) =
      if m.name = name then some m.body else arScan name rest := by
  set pad : Bytes := if m.body.length % 2 ≠ 0 ∧ padded = true then [m.pad] else [] with hpad
  have htail : m.encode padded ++ rest = m.header ++ (m.body ++ (pad ++ rest)) := by
    simp only [ArEntry.encode, ← hpad, List.append_assoc]
  have hlength : ¬ (m.body ++ (pad ++ rest)).length < m.body.length := by
    rw [List.length_append]
    omega
  rw [htail, arScan_header, if_neg hlength, List.take_left]
  refine if_congr Iff.rfl rfl ?_
  have hshort : (m.body ++ (pad ++ rest)).length < m.body.length + m.body.length % 2 ↔
      (pad ++ rest).length < m.body.length % 2 := by
    rw [List.length_append, Nat.add_lt_add_iff_left]
  rw [← List.drop_drop, List.drop_left, if_congr hshort rfl rfl]
  rcases Nat.mod_two_eq_zero_or_one m.body.length with heven | hodd
  · have hnone : pad = [] := by simp [hpad, heven]
    simp [hnone, heven]
  · rw [hodd]
    rcases hpadded with rfl | rfl
    · have hone : pad = [m.pad] := by simp [hpad, hodd]
      simp [hone]
    · -- without its padding this is the last member, so the scan ends in both cases
      rw [List.append_nil, arScan_nil]
      cases hp : padded with
      | true =>
        have hone : pad = [m.pad] := by simp [hpad, hodd, hp]
        simp [hone, arScan_nil]
      | false =>
        have hnone : pad = [] := by simp [hpad, hp]
        simp [hnone]

lemma arScan_arEncodeMembers (lastPad : Bool) (members : List ArEntry) (name : Bytes) :
    arScan name (arEncodeMembers lastPad members) =
      (members.find? fun m => m.name = name).map ArEntry.body := by
  induction members with
  | nil => exact arScan_nil name
  | cons m ms ih =>
    have hstep : arScan name (arEncodeMembers lastPad (m :: ms)) =
        if m.name = name then some m.body else arScan name (arEncodeMembers lastPad ms) := by
      cases ms with
      | nil =>
        have hlast : arScan name (m.encode lastPad ++ []) = _ := arScan_encode m (.inr rfl) name
        rwa [List.append_nil] at hlast
      | cons next ms => exact arScan_encode m (.inl rfl) name
    rw [hstep, ih, List.find?_cons]
    by_cases hname : m.name = name <;> simp [hname]

/-- The body of the first member with the name is found. -/
theorem arMember_arEncode (members : List ArEntry) (lastPad : Bool) (name : Bytes) :
    arMember (arEncode members lastPad) name =
      (members.find? fun m => m.name = name).map ArEntry.body := by
  have hstarts : arGlobalHdr.isPrefixOf (arEncode members lastPad) = true :=
    List.isPrefixOf_iff_prefix.mpr (List.prefix_append ..)
  rw [arMember, if_pos hstarts, arEncode, List.drop_left]
  exact arScan_arEncodeMembers lastPad members name

end GoBuildCache
