import GoBuildCache.Foundation.Text

/-!
# The header line of a compiled package

A compiled package says for which system and by which version of Go it was made, in a line
`go object GOOS GOARCH VERSION ...`. `parseArchiveHeader` looks for such a line in the first 1024
bytes. It searches for the text `go object `, takes the first place at the head of what it searches
or behind a newline, and otherwise cuts off what it has searched.

After a cut the head is no longer the start of a line. What is taken is the first place that starts
a line or follows another such text directly (`headerScan_drop`), and the line is a whole one
exactly if no such repetition comes first (`parseArchiveHeader_wholeLine_iff`).
-/

open ByteString

namespace GoBuildCache

/-- How the line starts. -/
def goObject : Bytes := ascii "go object "

/-- How many bytes are searched. -/
def headerLimit : ℕ := 1024

/-- A text up to the first newline. -/
def lineOf (s : Bytes) : Bytes :=
  match indexByte 10 s with
  | some nl => s.take nl
  | none => s

/-- The version and the target that a line names. -/
def headerFields (line : Bytes) : Bytes × Bytes :=
  match fields line with
  | _ :: _ :: goos :: goarch :: version :: _ => (version, goos ++ ascii "/" ++ goarch)
  | _ => ([], [])

/-- The search of a window. -/
def headerScan (window : Bytes) : Bytes × Bytes :=
  match _hindex : index goObject window with
  | none => ([], [])
  | some idx =>
    if 0 < idx ∧ window[idx - 1]? ≠ some 10 then
      headerScan (window.drop (idx + goObject.length))
    else headerFields (lineOf (window.drop idx))
termination_by window.length
decreasing_by
  have hle := index_add_length_le _hindex
  have hpos : goObject.length = 10 := by decide
  rw [List.length_drop]
  omega

lemma headerScan_of_index {window : Bytes} {idx : ℕ} (h : index goObject window = some idx) :
    headerScan window =
      if 0 < idx ∧ window[idx - 1]? ≠ some 10 then
        headerScan (window.drop (idx + goObject.length))
      else headerFields (lineOf (window.drop idx)) := by
  rw [headerScan]
  split
  · simp_all
  · simp_all

lemma headerScan_of_index_none {window : Bytes} (h : index goObject window = none) :
    headerScan window = ([], []) := by
  rw [headerScan]
  split
  · rfl
  · simp_all

/-- The version of Go and the target of a compiled package. -/
def parseArchiveHeader (data : Bytes) : Bytes × Bytes :=
  headerScan (data.take headerLimit)

/-! ## Places in the window -/

section Places

variable (w : Bytes)

/-- The text is at a position. -/
def Begins (p : ℕ) : Prop :=
  goObject <+: w.drop p

/-- A line starts at a position. -/
def StartsLine (p : ℕ) : Prop :=
  p = 0 ∨ w[p - 1]? = some 10

/-- A position directly behind the text. -/
def FollowsText (p : ℕ) : Prop :=
  ∃ q, q + goObject.length = p ∧ Begins w q

/-- The line at a position has at least five fields, and these are its version and its target. -/
def NamesAt (p : ℕ) (version target : Bytes) : Prop :=
  ∃ first second goos goarch more,
    fields (lineOf (w.drop p)) = first :: second :: goos :: goarch :: version :: more ∧
      target = goos ++ ascii "/" ++ goarch

/-- The places that are taken: the first of them is. -/
def Taken (p : ℕ) : Prop :=
  Begins w p ∧ (StartsLine w p ∨ FollowsText w p)

end Places

variable {w : Bytes} {p q : ℕ}

lemma goObject_ne_nil : goObject ≠ [] := by decide

/-- The text does not overlap itself. -/
lemma Begins.not_overlap (hp : Begins w p) (hq : Begins w q) (hlt : p < q) :
    p + goObject.length ≤ q := by
  by_contra hover
  have hinner : ∀ d < goObject.length, 0 < d → goObject[d]? ≠ goObject[0]? := by decide
  obtain ⟨rest, hrest⟩ := hp
  obtain ⟨rest', hrest'⟩ := hq
  have hat : w[q]? = goObject[q - p]? := by
    have h := congrArg (fun l => l[q - p]?) hrest
    simp only [List.getElem?_drop] at h
    rw [List.getElem?_append_left (by omega), Nat.add_sub_cancel' hlt.le] at h
    exact h.symm
  have hat' : w[q]? = goObject[0]? := by
    have h := congrArg (fun l => l[0]?) hrest'
    simp only [List.getElem?_drop] at h
    rw [List.getElem?_append_left (by decide), Nat.add_zero] at h
    exact h.symm
  exact hinner (q - p) (by omega) (by omega) (hat.symm.trans hat')

/-! ## What the search takes -/

/-- A place that the search passes over neither starts a line nor follows the text: the text before
it would overlap the one at which the search has cut. -/
lemma not_taken_of_cut {o idx : ℕ} (ho : o = 0 ∨ FollowsText w o) (hbegins : Begins w (o + idx))
    (hgap : ∀ p, o ≤ p → p < o + idx → ¬ Begins w p)
    (hcut : 0 < idx ∧ (w.drop o)[idx - 1]? ≠ some 10) : ¬ Taken w (o + idx) := by
  rintro ⟨-, (hzero | hnewline) | ⟨q, hq, hbegins'⟩⟩
  · omega
  · apply hcut.2
    rwa [List.getElem?_drop, ← Nat.add_sub_assoc hcut.1]
  · have hpos : 0 < goObject.length := by decide
    have hlt : q < o := by
      by_contra hge
      exact hgap q (not_lt.mp hge) (by omega) hbegins'
    rcases ho with rfl | ⟨q', rfl, hcutAt⟩
    · exact Nat.not_lt_zero q hlt
    · have hover := hcutAt.not_overlap hbegins' (by omega)
      omega

/-- The search from a position at which it has cut off what comes before: it takes the first place
of all, if there is one. -/
lemma headerScan_drop (o : ℕ) (ho : o = 0 ∨ FollowsText w o) (hbefore : ∀ p < o, ¬ Taken w p) :
    (∃ p, IsLeast {p | Taken w p} p ∧ headerScan (w.drop o) = headerFields (lineOf (w.drop p))) ∨
      (∀ p, ¬ Taken w p) ∧ headerScan (w.drop o) = ([], []) := by
  induction hn : w.length - o using Nat.strong_induction_on generalizing o with
  | _ n ih =>
    rcases hindex : index goObject (w.drop o) with _ | idx
    · right
      refine ⟨?_, headerScan_of_index_none hindex⟩
      rw [index_eq_none_iff goObject_ne_nil] at hindex
      intro p hp
      rcases Nat.lt_or_ge p o with hlt | hge
      · exact hbefore p hlt hp
      · have hnot := hindex (p - o)
        rw [List.drop_drop, Nat.add_sub_cancel' hge] at hnot
        exact hnot hp.1
    · have hin := index_add_length_le hindex
      rw [List.length_drop] at hin
      rw [headerScan_of_index hindex]
      rw [index_eq_some_iff goObject_ne_nil, List.drop_drop] at hindex
      obtain ⟨hplace, hfirst⟩ := hindex
      have hbegins : Begins w (o + idx) := hplace
      have hgap : ∀ p, o ≤ p → p < o + idx → ¬ Begins w p := by
        intro p hge hlt
        have hnot := hfirst (p - o) (by omega)
        rwa [List.drop_drop, Nat.add_sub_cancel' hge] at hnot
      have hbefore' : ∀ p < o + idx, ¬ Taken w p := by
        intro p hlt hp
        rcases Nat.lt_or_ge p o with hlt' | hge
        · exact hbefore p hlt' hp
        · exact hgap p hge hlt hp.1
      split_ifs with hcut
      · -- the place is passed over, and so is everything up to its end
        have hpassed : ¬ Taken w (o + idx) := not_taken_of_cut ho hbegins hgap hcut
        rw [List.drop_drop, ← Nat.add_assoc]
        refine ih _ ?_ (o + idx + goObject.length) (.inr ⟨o + idx, rfl, hbegins⟩) ?_ rfl
        · have hpos : 0 < goObject.length := by decide
          omega
        · intro p hlt hp
          rcases Nat.lt_trichotomy p (o + idx) with hlt' | rfl | hgt
          · exact hbefore' p hlt' hp
          · exact hpassed hp
          · exact absurd (hbegins.not_overlap hp.1 hgt) (not_le.mpr hlt)
      · left
        refine ⟨o + idx, ⟨⟨hbegins, ?_⟩, ?_⟩, by rw [List.drop_drop]⟩
        · rcases Nat.eq_zero_or_pos idx with rfl | hpos
          · rcases ho with rfl | hfollows
            · exact .inl (.inl rfl)
            · exact .inr hfollows
          · left
            right
            have hnewline : (w.drop o)[idx - 1]? = some 10 := by
              by_contra hnot
              exact hcut ⟨hpos, hnot⟩
            rwa [List.getElem?_drop, ← Nat.add_sub_assoc hpos] at hnewline
        · intro p hp
          by_contra hlt
          exact hbefore' p (not_le.mp hlt) hp

/-- What is taken, from the start. -/
lemma parseArchiveHeader_eq (data : Bytes) :
    (∃ p, IsLeast {p | Taken (data.take headerLimit) p} p ∧
      parseArchiveHeader data = headerFields (lineOf ((data.take headerLimit).drop p))) ∨
      (∀ p, ¬ Taken (data.take headerLimit) p) ∧ parseArchiveHeader data = ([], []) :=
  headerScan_drop 0 (.inl rfl) fun p hp => absurd hp (Nat.not_lt_zero p)

lemma headerFields_of_namesAt {version target : Bytes} (h : NamesAt w p version target) :
    headerFields (lineOf (w.drop p)) = (version, target) := by
  obtain ⟨first, second, goos, goarch, more, hfields, rfl⟩ := h
  rw [headerFields, hfields]

/-- A version that is reported is named by the line. -/
lemma namesAt_of_headerFields {version target : Bytes} (hversion : version ≠ [])
    (h : headerFields (lineOf (w.drop p)) = (version, target)) : NamesAt w p version target := by
  unfold headerFields at h
  split at h
  · rename_i first second goos goarch version' more hfields
    obtain ⟨rfl, rfl⟩ := Prod.mk.inj h
    exact ⟨first, second, goos, goarch, more, hfields, rfl⟩
  · exact absurd (Prod.mk.inj h).1.symm hversion

lemma NamesAt.version_ne_nil {version target : Bytes} (h : NamesAt w p version target) :
    version ≠ [] := by
  obtain ⟨first, second, goos, goarch, more, hfields, -⟩ := h
  exact ne_nil_of_mem_fields (s := lineOf (w.drop p)) (by simp [hfields])

/-! ## Whole lines -/

/-- A version is only reported from a line of the window that starts with the text. -/
def WholeLine (data : Bytes) : Prop :=
  (parseArchiveHeader data).1 ≠ [] →
    ∃ p, StartsLine (data.take headerLimit) p ∧ Begins (data.take headerLimit) p ∧
      NamesAt (data.take headerLimit) p (parseArchiveHeader data).1 (parseArchiveHeader data).2

/-- If the first place that is taken is a repetition of the text, and names a version, then a line
of the window names the same. -/
def NoRepetition (w : Bytes) : Prop :=
  ∀ p, Begins w p → FollowsText w p → (∀ q < p, ¬ Taken w q) →
    ∀ version target, NamesAt w p version target →
      ∃ q, StartsLine w q ∧ Begins w q ∧ NamesAt w q version target

/-- What is reported is from a whole line exactly if no repetition of the text comes first. -/
theorem parseArchiveHeader_wholeLine_iff (data : Bytes) :
    WholeLine data ↔ NoRepetition (data.take headerLimit) := by
  constructor
  · intro hwhole p hbegins hfollows hfirst version target hnames
    have htaken : Taken (data.take headerLimit) p := ⟨hbegins, .inr hfollows⟩
    obtain ⟨p', hleast, hparse⟩ : ∃ p', IsLeast {p | Taken (data.take headerLimit) p} p' ∧
        parseArchiveHeader data = headerFields (lineOf ((data.take headerLimit).drop p')) :=
      (parseArchiveHeader_eq data).resolve_right fun hnone => hnone.1 p htaken
    obtain rfl : p' = p :=
      le_antisymm (hleast.2 htaken) (not_lt.mp fun hlt => hfirst p' hlt hleast.1)
    rw [headerFields_of_namesAt hnames] at hparse
    unfold WholeLine at hwhole
    rw [hparse] at hwhole
    exact hwhole hnames.version_ne_nil
  · intro hrepetition hversion
    rcases parseArchiveHeader_eq data with ⟨p, hleast, hparse⟩ | ⟨-, hnone⟩
    · have hnames := namesAt_of_headerFields hversion hparse.symm
      rcases hleast.1.2 with hline | hfollows
      · exact ⟨p, hline, hleast.1.1, hnames⟩
      · exact hrepetition p hleast.1.1 hfollows
          (fun q hlt hq => not_le.mpr hlt (hleast.2 hq)) _ _ hnames
    · exact absurd (congrArg Prod.fst hnone) hversion

/-- The text twice in the middle of a line. -/
def repeatedText : Bytes := ascii "xgo object go object linux amd64 go1.22"

/-- The second of them is taken for the start of a line. -/
theorem parseArchiveHeader_repeatedText :
    parseArchiveHeader repeatedText = (ascii "go1.22", ascii "linux/amd64") ∧
      ¬ WholeLine repeatedText := by
  have hwindow : repeatedText.take headerLimit = repeatedText := by decide +kernel
  have hparse : parseArchiveHeader repeatedText = (ascii "go1.22", ascii "linux/amd64") := by
    have hfirst : index goObject repeatedText = some 1 := by decide +kernel
    have hsecond : index goObject (repeatedText.drop (1 + goObject.length)) = some 0 := by
      decide +kernel
    rw [parseArchiveHeader, hwindow, headerScan_of_index hfirst, if_pos (by decide),
      headerScan_of_index hsecond, if_neg (by decide)]
    decide +kernel
  refine ⟨hparse, ?_⟩
  intro hwhole
  unfold WholeLine at hwhole
  rw [hparse, hwindow] at hwhole
  obtain ⟨p, hline, hbegins, -⟩ := hwhole (by decide)
  -- the text is at the positions 1 and 11 only, and there is no newline
  have hnone : ∀ p < repeatedText.length,
      ¬ ((p = 0 ∨ repeatedText[p - 1]? = some 10) ∧ goObject <+: repeatedText.drop p) := by
    decide +kernel
  have hin : p < repeatedText.length := by
    by_contra hout
    rw [Begins, List.drop_eq_nil_of_le (not_lt.mp hout), List.prefix_nil] at hbegins
    exact goObject_ne_nil hbegins
  exact hnone p hin ⟨hline, hbegins⟩

end GoBuildCache
