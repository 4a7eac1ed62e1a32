import GoBuildCache.Foundation.Text

/-!
# The list of source files

The metadata of a compiled package name the source files, in a value that has to fit the attributes
of the stored object. `capSrcList` keeps at most eight names, drops further ones from the end until
the value has at most 256 bytes, and says how many it has dropped.

`capSrcList_longest` is its specification: it renders the longest prefix of the list that fits.
-/

open ByteString

namespace GoBuildCache

/-- How many names the value has at most. -/
def srcMetaMaxFiles : ℕ := 8

/-- How many bytes the value has at most. -/
def srcMetaMaxBytes : ℕ := 256

/-- Names with single spaces between them. -/
def joinNames (names : List Bytes) : Bytes :=
  (ascii " ").intercalate names

/-- How many names have been dropped. -/
def moreSuffix (dropped : ℕ) : Bytes :=
  ascii "+" ++ decimal dropped ++ ascii " more"

/-- The value when `n` names are left. -/
def renderSrc (files : List Bytes) (n : ℕ) : Bytes :=
  let s := joinNames (files.take n)
  let dropped := files.length - n
  if 0 < dropped then
    if s = [] then moreSuffix dropped else s ++ ascii " " ++ moreSuffix dropped
  else s

/-- Drops names until the value fits. -/
def capSrcLoop (files : List Bytes) : ℕ → Bytes
  | 0 => renderSrc files 0
  | n + 1 =>
    if (renderSrc files (n + 1)).length ≤ srcMetaMaxBytes then renderSrc files (n + 1)
    else capSrcLoop files n

/-- The value for a list of source files. -/
def capSrcList (files : List Bytes) : Bytes :=
  capSrcLoop files (min srcMetaMaxFiles files.length)

/-! ## What is rendered -/

/-- Some names, and how many are left out if there are any. -/
def srcRendering (names : List Bytes) (leftOut : ℕ) : Bytes :=
  joinNames (names ++ if leftOut = 0 then [] else [moreSuffix leftOut])

lemma joinNames_concat {names : List Bytes} (hnames : names ≠ []) (last : Bytes) :
    joinNames (names ++ [last]) = joinNames names ++ ascii " " ++ last := by
  induction names with
  | nil => exact absurd rfl hnames
  | cons name names ih =>
    cases names with
    | nil => simp [joinNames, List.intercalate]
    | cons next names =>
      have hrest := ih (List.cons_ne_nil _ _)
      simp only [joinNames, List.intercalate, List.cons_append, List.intersperse_cons_cons,
        List.flatten_cons] at hrest ⊢
      rw [hrest]
      simp only [List.append_assoc]

lemma joinNames_eq_nil {names : List Bytes} (hnames : ∀ name ∈ names, name ≠ []) :
    joinNames names = [] ↔ names = [] := by
  cases names with
  | nil => simp [joinNames]
  | cons name names =>
    have hname := hnames name (List.mem_cons_self ..)
    cases names <;> simp [joinNames, List.intercalate, hname]

/-- The value is the rendering of the names that are left. -/
lemma renderSrc_eq {files : List Bytes} (hfiles : ∀ name ∈ files, name ≠ []) (n : ℕ) :
    renderSrc files n = srcRendering (files.take n) (files.length - n) := by
  have htake : ∀ name ∈ files.take n, name ≠ [] :=
    fun name h => hfiles name (List.mem_of_mem_take h)
  rcases Nat.eq_zero_or_pos (files.length - n) with hzero | hpos
  · simp [renderSrc, srcRendering, hzero]
  · simp only [renderSrc, srcRendering, if_pos hpos, if_neg hpos.ne', joinNames_eq_nil htake]
    split_ifs with hnone
    · simp [hnone, joinNames, List.intercalate]
    · exact (joinNames_concat hnone _).symm

/-! ## The longest prefix that fits -/

/-- The first `k` names fit, with the number of the others. -/
def SrcFits (files : List Bytes) (k : ℕ) : Prop :=
  k ≤ srcMetaMaxFiles ∧ k ≤ files.length ∧
    (srcRendering (files.take k) (files.length - k)).length ≤ srcMetaMaxBytes

/-- The loop stops at the greatest number of names that fits. -/
lemma capSrcLoop_eq (files : List Bytes) (n : ℕ) :
    capSrcLoop files n = renderSrc files
      (Nat.findGreatest (fun k => (renderSrc files k).length ≤ srcMetaMaxBytes) n) := by
  induction n with
  | zero => rfl
  | succ n ih =>
    rw [capSrcLoop, Nat.findGreatest_succ]
    split_ifs
    · rfl
    · exact ih

/-- The number of names alone always fits. -/
lemma srcFits_zero {files : List Bytes} (hlen : files.length < 2 ^ 63) : SrcFits files 0 := by
  refine ⟨Nat.zero_le _, Nat.zero_le _, ?_⟩
  rw [List.take_zero, Nat.sub_zero, srcRendering, List.nil_append]
  split_ifs
  · exact Nat.zero_le _
  · have hdigits : (decimal files.length).length ≤ 19 :=
      length_decimal_le (by decide) (hlen.trans (by decide))
    have hends : (ascii "+").length = 1 ∧ (ascii " more").length = 5 := by decide
    simp only [joinNames, List.intercalate, List.intersperse_singleton, List.flatten_singleton,
      moreSuffix, List.length_append, hends, srcMetaMaxBytes]
    omega

/-- The value lists the longest prefix of the names that fits, and the number of the others. -/
theorem capSrcList_longest (files : List Bytes) (hne : files ≠ [])
    (hfiles : ∀ name ∈ files, name ≠ []) (hlen : files.length < 2 ^ 63) :
    ∃ k leftOut, IsGreatest {k | SrcFits files k} k ∧ k + leftOut = files.length ∧
      capSrcList files = srcRendering (files.take k) leftOut ∧
      (k = 0 → capSrcList files = moreSuffix files.length) ∧
      (capSrcList files).length ≤ srcMetaMaxBytes := by
  set n := min srcMetaMaxFiles files.length with hn
  set k := Nat.findGreatest (fun k => (renderSrc files k).length ≤ srcMetaMaxBytes) n with hk
  have hcap : capSrcList files = srcRendering (files.take k) (files.length - k) := by
    rw [capSrcList, capSrcLoop_eq, renderSrc_eq hfiles]
  have hkn : k ≤ n := Nat.findGreatest_le n
  have hfits : SrcFits files k := by
    refine ⟨hkn.trans (min_le_left _ _), hkn.trans (min_le_right _ _), ?_⟩
    have hzero : (renderSrc files 0).length ≤ srcMetaMaxBytes := by
      rw [renderSrc_eq hfiles]
      exact (srcFits_zero hlen).2.2
    rw [← renderSrc_eq hfiles]
    exact Nat.findGreatest_spec (P := fun k => (renderSrc files k).length ≤ srcMetaMaxBytes)
      (Nat.zero_le n) hzero
  refine ⟨k, files.length - k, ⟨hfits, ?_⟩, Nat.add_sub_cancel' hfits.2.1, hcap, ?_, ?_⟩
  · intro j hj
    refine Nat.le_findGreatest (le_min hj.1 hj.2.1) ?_
    rw [renderSrc_eq hfiles]
    exact hj.2.2
  · intro hzero
    have hpos : files.length ≠ 0 := fun h => hne (List.length_eq_zero_iff.mp h)
    rw [hcap, hzero, List.take_zero, Nat.sub_zero, srcRendering, List.nil_append, if_neg hpos]
    simp [joinNames, List.intercalate]
  · rw [hcap]
    exact hfits.2.2

/-- Ten names of which the last two are left out. -/
theorem capSrcList_longest_tenFiles :
    capSrcList (List.replicate 10 (ascii "a.go")) =
        ascii "a.go a.go a.go a.go a.go a.go a.go a.go +2 more" ∧
      ∃ k leftOut, IsGreatest {k | SrcFits (List.replicate 10 (ascii "a.go")) k} k ∧
        k + leftOut = 10 ∧
        capSrcList (List.replicate 10 (ascii "a.go")) =
          srcRendering ((List.replicate 10 (ascii "a.go")).take k) leftOut := by
  obtain ⟨k, leftOut, hgreatest, hsum, hcap, -, -⟩ :=
    capSrcList_longest (List.replicate 10 (ascii "a.go")) (by simp) (by simp [ascii]) (by simp)
  refine ⟨by decide +kernel, k, leftOut, hgreatest, ?_, hcap⟩
  rw [hsum, List.length_replicate]

end GoBuildCache
