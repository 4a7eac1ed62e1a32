import GoBuildCache.Foundation.Transition
import GoBuildCache.Index.State

/-!
# Skip reports

A client answers many reads and writes from its own copy of the index, and sends nothing. It counts
them, keeps a sample of the keys, and now and then tells the server about those it has not told of
yet (`FlushSkips`). The counters go on while a report is made and sent, and calls of `FlushSkips`
may overlap; the lock lets one of them at a time send a report.

What the accepted reports add up to is what the last of them has read from the counters, and their
keys, followed by those still in the sample, are the keys that were put into the sample, in order
(`skipReports_counted_once`). A report passes the server's check of it, `SkipReportBody.valid`.
-/

open ByteString Transition

namespace GoBuildCache

/-- The counts of a report, in the order in which the counters are read. -/
inductive SkipField where
  | getNotInIndex
  | getEmptyIndex
  | getBatchBackoff
  | getKnownMiss
  | putKnown
  | putFailed
  | putRefusedBuildID
  | putRefusedModIndex
  | putAbandoned
  deriving DecidableEq

/-- All of them. -/
def SkipField.all : List SkipField :=
  [.getNotInIndex, .getEmptyIndex, .getBatchBackoff, .getKnownMiss, .putKnown, .putFailed,
    .putRefusedBuildID, .putRefusedModIndex, .putAbandoned]

lemma SkipField.mem_all (f : SkipField) : f ∈ SkipField.all := by
  cases f <;> decide

/-- A number for each count. -/
abbrev SkipCounts : Type := SkipField → ℕ

/-- The differences, as `uint64` numbers. -/
def SkipCounts.minus (r o : SkipCounts) : SkipCounts :=
  fun f => (r f + 2 ^ 64 - o f) % 2 ^ 64

/-- What the client sends. -/
structure SkipReport where
  /-- The counts since the last accepted report. -/
  counts : SkipCounts
  /-- A sample of the keys, in hexadecimal. -/
  skippedKeys : List Bytes
  /-- For each of them, how many seconds ago it was skipped. -/
  skippedAgo : List ℤ

/-- Whether the report carries nothing. The counts are added up as `uint64` numbers. -/
def SkipReport.empty (r : SkipReport) : Bool :=
  r.skippedKeys.isEmpty && (SkipField.all.map r.counts).sum % 2 ^ 64 == 0

/-! ## The server's check -/

/-- What the server decodes. -/
structure SkipReportBody where
  /-- The counts. -/
  counts : SkipCounts
  /-- The count of refusals in the first form of the report. -/
  putRefused : ℕ
  /-- The sample of the keys. -/
  skippedKeys : List Bytes
  /-- Their ages. -/
  skippedAgo : List ℤ

/-- The bound of a count. -/
def maxSkipReportCount : ℕ := 2 ^ 32

/-- The bound of the sample, for the server. -/
def maxSkipSample : ℕ := 64

/-- Whether the server takes the report. -/
def SkipReportBody.valid (r : SkipReportBody) : Bool :=
  (SkipField.all.map r.counts ++ [r.putRefused]).all (· < maxSkipReportCount) &&
    r.skippedKeys.length ≤ maxSkipSample && r.skippedAgo.length ≤ r.skippedKeys.length &&
    r.skippedAgo.all (0 ≤ ·) &&
    r.skippedKeys.all fun k => (extractActionHash (gbciKeyPrefix ++ k)).isSome

/-- The report as the server decodes it. -/
def SkipReport.body (r : SkipReport) : SkipReportBody :=
  ⟨r.counts, 0, r.skippedKeys, r.skippedAgo⟩

/-! ## The client -/

/-- The bound of the sample, for the client. -/
def skipSampleMax : ℕ := 64

/-- One sampled skip. -/
structure SkippedKey where
  /-- The action hash. -/
  hash : Hash
  /-- When it was skipped. -/
  skippedAt : Time

/-- The key as a report carries it. -/
def SkippedKey.text (k : SkippedKey) : Bytes :=
  hexEncode k.hash.bytes

/-- How far the call of `FlushSkips` is that holds the lock. -/
inductive FlushState where
  /-- It reads the counters; those of `left` are still to be read. -/
  | loading (left : List SkipField) (total : SkipCounts)
  /-- It has made a report, with the first `sampled` keys of the sample. -/
  | made (total : SkipCounts) (delta : SkipReport) (sampled : ℕ)
  /-- It has sent the report. -/
  | sending (total : SkipCounts) (delta : SkipReport) (sampled : ℕ)
  /-- The report has been accepted, and its keys are still in the sample. -/
  | clearing (sampled : ℕ)

/-- A report that was accepted, and what its call has read from the counters. -/
structure AcceptedReport where
  /-- What the counters were. -/
  total : SkipCounts
  /-- The report. -/
  report : SkipReport

/-- The reporter of a backend, its counters, and the history of both. -/
structure SkipReporter where
  /-- The server. -/
  endpoint : Bytes
  /-- The time. -/
  now : Time
  /-- The counters, which are `uint32` numbers. -/
  counters : SkipCounts
  /-- What the server has accepted. -/
  sent : SkipCounts
  /-- Whether the server has no skip endpoint. -/
  disabled : Bool
  /-- The sample. -/
  sample : List SkippedKey
  /-- The calls of `FlushSkips` that wait for the lock. -/
  waiting : ℕ
  /-- The call that holds the lock. -/
  flush : Option FlushState
  /-- What calls have returned. -/
  results : List Bool
  /-- Every skip that was put into the sample. -/
  buffered : List SkippedKey
  /-- The reports that were sent. -/
  reports : List SkipReport
  /-- The reports that were accepted. -/
  accepted : List AcceptedReport

namespace SkipReporter

/-- What can happen. -/
inductive Label where
  /-- Time passes. -/
  | tick (d : ℕ)
  /-- A counter is increased. -/
  | add (f : SkipField) (n : ℕ)
  /-- A skipped key is sampled. -/
  | sampleSkippedKey (h : Hash)
  /-- `FlushSkips` is called. -/
  | call
  /-- A call gets the lock. -/
  | lock
  /-- It reads the next counter. -/
  | load
  /-- It takes the sample, and returns if there is nothing to report. -/
  | takeSample
  /-- It cannot make a request, and returns. -/
  | giveUp
  /-- It sends the report. -/
  | send
  /-- The report is accepted. -/
  | accept
  /-- It is not; `missing` tells whether the server answers that it has no such endpoint. -/
  | fail (missing : Bool)
  /-- The call removes the keys of the report from the sample, and returns. -/
  | clearSample

/-- The call that holds the lock returns. -/
def ret (s : SkipReporter) (ok : Bool) : SkipReporter :=
  { s with flush := none, results := s.results ++ [ok] }

/-- The age of a key in seconds. -/
def age (now : Time) (k : SkippedKey) : ℤ :=
  (timeSince now k.skippedAt).tdiv (10 ^ 9)

/-- The report that a call makes. -/
def delta (s : SkipReporter) (total : SkipCounts) : SkipReport where
  counts := total.minus s.sent
  skippedKeys := s.sample.map SkippedKey.text
  skippedAgo := s.sample.map (age s.now)

/-- A step of the call that holds the lock. -/
def flushStep (s : SkipReporter) : Label → FlushState → Option SkipReporter
  | .load, .loading (f :: left) total =>
    some { s with flush := some (.loading left (Function.update total f (s.counters f))) }
  | .takeSample, .loading [] total =>
    if (s.delta total).empty then some (s.ret true)
    else some { s with flush := some (.made total (s.delta total) s.sample.length) }
  | .giveUp, .made _ _ _ => some (s.ret false)
  | .send, .made total delta sampled =>
    some { s with flush := some (.sending total delta sampled), reports := s.reports ++ [delta] }
  | .accept, .sending total delta sampled =>
    some { s with
      sent := total
      flush := some (.clearing sampled)
      accepted := s.accepted ++ [⟨total, delta⟩] }
  | .fail missing, .sending _ _ _ =>
    some { s.ret false with disabled := s.disabled || missing }
  | .clearSample, .clearing sampled =>
    some { s.ret true with sample := s.sample.drop sampled }
  | _, _ => none

/-- One step. -/
def step (s : SkipReporter) : Label → Option SkipReporter
  | .tick d => some { s with now := s.now + d }
  | .add f n =>
    some { s with
      counters := Function.update s.counters f ((s.counters f + n) % 2 ^ 32) }
  | .sampleSkippedKey h =>
    if s.sample.length < skipSampleMax then
      some { s with
        sample := s.sample ++ [⟨h, s.now⟩]
        buffered := s.buffered ++ [⟨h, s.now⟩] }
    else some s
  | .call =>
    if s.endpoint = [] ∨ s.disabled then some { s with results := s.results ++ [false] }
    else some { s with waiting := s.waiting + 1 }
  | .lock =>
    if s.waiting = 0 ∨ s.flush.isSome then none
    else some { s with
      waiting := s.waiting - 1
      flush := some (.loading SkipField.all fun _ => 0) }
  | l => s.flush.bind (s.flushStep l)

/-- A backend that has counted nothing. -/
def start (endpoint : Bytes) (now : Time) : SkipReporter :=
  ⟨endpoint, now, fun _ => 0, fun _ => 0, false, [], 0, none, [], [], [], []⟩

/-- No counter wraps around. -/
def Below (s : SkipReporter) : Label → Prop
  | .add f n => s.counters f + n < 2 ^ 32
  | _ => True

instance (s : SkipReporter) : (l : Label) → Decidable (Below s l)
  | .add f n => inferInstanceAs (Decidable (s.counters f + n < 2 ^ 32))
  | .tick _ | .sampleSkippedKey _ | .call | .lock | .load | .takeSample | .giveUp | .send
  | .accept | .fail _ | .clearSample => isTrue trivial

/-- What the last accepted call has read from the counters. -/
def lastTotal (s : SkipReporter) : SkipCounts :=
  (s.accepted.getLast?.map AcceptedReport.total).getD fun _ => 0

/-- The keys that the accepted reports have carried. -/
def carried (s : SkipReporter) : List Bytes :=
  s.accepted.flatMap fun a => a.report.skippedKeys

/-- The part of the sample that no accepted report has carried. -/
def unreported (s : SkipReporter) : List SkippedKey :=
  match s.flush with
  | some (.clearing sampled) => s.sample.drop sampled
  | _ => s.sample

/-! ## The report of a call -/

variable {s s' t : SkipReporter} {total : SkipCounts} {r : SkipReport} {sampled : ℕ}

lemma minus_eq {r o : SkipCounts} {f : SkipField} (hle : o f ≤ r f) (hlt : r f < 2 ^ 32) :
    r.minus o f = r f - o f := by
  rw [SkipCounts.minus]
  omega

lemma age_nonneg {now : Time} {k : SkippedKey} (h : k.skippedAt ≤ now) : 0 ≤ age now k := by
  refine Int.tdiv_nonneg ?_ (by norm_num)
  have hcut : (0 : ℤ) ≤ min maxDuration (now - k.skippedAt) :=
    le_min (by decide) (Int.sub_nonneg.mpr h)
  exact le_trans hcut (le_max_right _ _)

lemma valid_body (hcounts : ∀ f, r.counts f < 2 ^ 32) (hkeys : r.skippedKeys.length ≤ maxSkipSample)
    (hago : r.skippedAgo.length ≤ r.skippedKeys.length) (hages : ∀ a ∈ r.skippedAgo, 0 ≤ a)
    (htexts : ∀ k ∈ r.skippedKeys, (extractActionHash (gbciKeyPrefix ++ k)).isSome) :
    r.body.valid = true := by
  simp only [SkipReportBody.valid, SkipReport.body, Bool.and_eq_true, List.all_eq_true,
    decide_eq_true_eq]
  refine ⟨⟨⟨⟨?_, decide_eq_true hkeys⟩, decide_eq_true hago⟩, hages⟩, htexts⟩
  intro n hn
  rcases List.mem_append.mp hn with hfield | hrefused
  · obtain ⟨f, -, rfl⟩ := List.mem_map.mp hfield
    exact hcounts f
  · rw [List.mem_singleton.mp hrefused]
    decide

/-- What a call knows about the report that it has made. -/
structure Made (sent counters : SkipCounts) (sample : List SkippedKey) (total : SkipCounts)
    (r : SkipReport) (sampled : ℕ) : Prop where
  /-- The counters have been read after the last accepted call had read them. -/
  sent_le : ∀ f, sent f ≤ total f
  /-- They have not become less since. -/
  total_le : ∀ f, total f ≤ counters f
  /-- The report has the differences. -/
  counts : ∀ f, r.counts f = total f - sent f
  /-- Its keys are in the sample. -/
  sampled_le : sampled ≤ sample.length
  /-- They are the first ones. -/
  keys : r.skippedKeys = (sample.take sampled).map SkippedKey.text
  /-- The server takes it. -/
  valid : r.body.valid = true

/-- What the call that holds the lock knows. -/
def Knows (sent counters : SkipCounts) (sample : List SkippedKey) : FlushState → Prop
  | .loading left total => ∀ f ∉ left, sent f ≤ total f ∧ total f ≤ counters f
  | .made total r sampled => Made sent counters sample total r sampled
  | .sending total r sampled => Made sent counters sample total r sampled
  | .clearing sampled => sampled ≤ sample.length

/-- Other goroutines increase counters and add to the sample. -/
lemma Made.mono {sent counters counters' : SkipCounts} {sample sample' : List SkippedKey}
    (h : Made sent counters sample total r sampled) (hcounters : ∀ f, counters f ≤ counters' f)
    (hsample : sample <+: sample') : Made sent counters' sample' total r sampled where
  sent_le := h.sent_le
  total_le f := (h.total_le f).trans (hcounters f)
  counts := h.counts
  sampled_le := h.sampled_le.trans hsample.length_le
  keys := by
    obtain ⟨more, rfl⟩ := hsample
    rw [List.take_append_of_le_length h.sampled_le]
    exact h.keys
  valid := h.valid

lemma Knows.mono {sent counters counters' : SkipCounts} {sample sample' : List SkippedKey}
    {fs : FlushState} (h : Knows sent counters sample fs)
    (hcounters : ∀ f, counters f ≤ counters' f) (hsample : sample <+: sample') :
    Knows sent counters' sample' fs := by
  cases fs with
  | loading left total => exact fun f hf => ⟨(h f hf).1, (h f hf).2.trans (hcounters f)⟩
  | made total r sampled => exact Made.mono h hcounters hsample
  | sending total r sampled => exact Made.mono h hcounters hsample
  | clearing sampled => exact le_trans h hsample.length_le

/-! ## The invariant -/

/-- What holds at any time. -/
structure Inv (s : SkipReporter) : Prop where
  /-- The counters are `uint32` numbers. -/
  counters_lt : ∀ f, s.counters f < 2 ^ 32
  /-- They are not less than what was accepted. -/
  sent_le : ∀ f, s.sent f ≤ s.counters f
  /-- The sample is bounded. -/
  sample_le : s.sample.length ≤ skipSampleMax
  /-- It was taken in the past. -/
  sample_past : ∀ k ∈ s.sample, k.skippedAt ≤ s.now
  /-- The call that holds the lock is right. -/
  knows : ∀ fs, s.flush = some fs → Knows s.sent s.counters s.sample fs
  /-- What was accepted is what the last accepted call has read. -/
  sent_eq : s.sent = s.lastTotal
  /-- It is the sum of the accepted reports. -/
  sum_eq : ∀ f, (s.accepted.map fun a => a.report.counts f).sum = s.sent f
  /-- No key is lost or carried twice. -/
  keys_eq : s.carried ++ s.unreported.map SkippedKey.text = s.buffered.map SkippedKey.text
  /-- The server takes every report. -/
  valid : ∀ r ∈ s.reports, r.body.valid = true

lemma inv_start (endpoint : Bytes) (now : Time) : Inv (start endpoint now) where
  counters_lt f := by simp [start]
  sent_le f := le_rfl
  sample_le := Nat.zero_le _
  sample_past := by simp [start]
  knows := by simp [start]
  sent_eq := rfl
  sum_eq f := rfl
  keys_eq := rfl
  valid := by simp [start]

/-- The report of a call that has read all counters. -/
lemma Inv.made_delta (h : s.Inv) (htotal : ∀ f, s.sent f ≤ total f ∧ total f ≤ s.counters f) :
    Made s.sent s.counters s.sample total (s.delta total) s.sample.length := by
  have hcounts : ∀ f, (s.delta total).counts f = total f - s.sent f := by
    intro f
    exact minus_eq (htotal f).1 (lt_of_le_of_lt (htotal f).2 (h.counters_lt f))
  refine ⟨fun f => (htotal f).1, fun f => (htotal f).2, hcounts, le_rfl, ?_, ?_⟩
  · rw [List.take_length]
    rfl
  · refine valid_body ?_ ?_ ?_ ?_ ?_
    · intro f
      have hle := (htotal f).2
      have hlt := h.counters_lt f
      rw [hcounts]
      omega
    · change (s.sample.map SkippedKey.text).length ≤ skipSampleMax
      rw [List.length_map]
      exact h.sample_le
    · simp [delta]
    · intro a ha
      obtain ⟨k, hk, rfl⟩ := List.mem_map.mp ha
      exact age_nonneg (h.sample_past k hk)
    · intro text htext
      obtain ⟨k, -, rfl⟩ := List.mem_map.mp htext
      change (extractActionHash (hashKey k.hash)).isSome
      rw [extractActionHash_hashKey]
      rfl

/-- Only what no statement is about changes, and the call that holds the lock. -/
lemma Inv.setFlush (h : s.Inv) {fs : Option FlushState} {waiting : ℕ} {results : List Bool}
    {disabled : Bool} (hknows : ∀ fs', fs = some fs' → Knows s.sent s.counters s.sample fs')
    (hunreported : ({ s with flush := fs } : SkipReporter).unreported = s.unreported) :
    Inv { s with
      flush := fs
      waiting := waiting
      results := results
      disabled := disabled } where
  counters_lt := h.counters_lt
  sent_le := h.sent_le
  sample_le := h.sample_le
  sample_past := h.sample_past
  knows := hknows
  sent_eq := h.sent_eq
  sum_eq := h.sum_eq
  keys_eq := by
    have hkeys := h.keys_eq
    rw [← hunreported] at hkeys
    exact hkeys
  valid := h.valid

/-- Counters are increased, and time passes. -/
lemma Inv.grow (h : s.Inv) {counters : SkipCounts} {now : Time}
    (hcounters : ∀ f, s.counters f ≤ counters f) (hlt : ∀ f, counters f < 2 ^ 32)
    (hnow : s.now ≤ now) : Inv { s with counters := counters, now := now } where
  counters_lt := hlt
  sent_le f := (h.sent_le f).trans (hcounters f)
  sample_le := h.sample_le
  sample_past k hk := (h.sample_past k hk).trans hnow
  knows fs hfs := (h.knows fs hfs).mono hcounters (List.prefix_refl _)
  sent_eq := h.sent_eq
  sum_eq := h.sum_eq
  keys_eq := h.keys_eq
  valid := h.valid

/-- A key is added to the sample. -/
lemma unreported_concat (h : s.Inv) (k : SkippedKey) :
    ({ s with sample := s.sample ++ [k] } : SkipReporter).unreported = s.unreported ++ [k] := by
  rcases hflush : s.flush with _ | fs
  · simp [unreported, hflush]
  · cases fs with
    | loading left total => simp [unreported, hflush]
    | made total r sampled => simp [unreported, hflush]
    | sending total r sampled => simp [unreported, hflush]
    | clearing sampled =>
      have hle : sampled ≤ s.sample.length := h.knows _ hflush
      simp [unreported, hflush, List.drop_append_of_le_length hle]

lemma Inv.sampleSkippedKey (h : s.Inv) (hroom : s.sample.length < skipSampleMax) (hash : Hash) :
    Inv { s with
      sample := s.sample ++ [⟨hash, s.now⟩]
      buffered := s.buffered ++ [⟨hash, s.now⟩] } where
  counters_lt := h.counters_lt
  sent_le := h.sent_le
  sample_le := by simpa using hroom
  sample_past k hk := by
    rcases List.mem_append.mp hk with hold | hnew
    · exact h.sample_past k hold
    · rw [List.mem_singleton.mp hnew]
  knows fs hfs := (h.knows fs hfs).mono (fun _ => le_rfl) (List.prefix_append _ _)
  sent_eq := h.sent_eq
  sum_eq := h.sum_eq
  keys_eq := by
    have hkeys := h.keys_eq
    have hunreported := unreported_concat h ⟨hash, s.now⟩
    change s.carried ++ (unreported { s with sample := s.sample ++ [⟨hash, s.now⟩] }).map _ = _
    rw [hunreported, List.map_append, ← List.append_assoc, hkeys, ← List.map_append]
  valid := h.valid

/-- A report is accepted. -/
lemma Inv.accepted (h : s.Inv) (hmade : Made s.sent s.counters s.sample total r sampled)
    (hflush : s.flush = some (.sending total r sampled)) :
    Inv { s with
      sent := total
      flush := some (.clearing sampled)
      accepted := s.accepted ++ [⟨total, r⟩] } where
  counters_lt := h.counters_lt
  sent_le := hmade.total_le
  sample_le := h.sample_le
  sample_past := h.sample_past
  knows fs hfs := by
    obtain rfl := Option.some.inj hfs
    exact hmade.sampled_le
  sent_eq := by simp [lastTotal]
  sum_eq f := by
    have hsum := h.sum_eq f
    have hle := hmade.sent_le f
    simp only [List.map_append, List.map_singleton, List.sum_append, List.sum_singleton, hsum,
      hmade.counts]
    omega
  keys_eq := by
    -- the keys of the report are the first ones that were not reported yet
    have hkeys := h.keys_eq
    have hall : s.unreported = s.sample := by simp [unreported, hflush]
    rw [hall, ← List.take_append_drop sampled s.sample, List.map_append, ← hmade.keys,
      ← List.append_assoc] at hkeys
    simpa [carried, unreported] using hkeys
  valid := h.valid

/-- The call that holds the lock keeps the invariant. -/
lemma Inv.flushStep {l : Label} {fs : FlushState} (h : s.Inv) (hflush : s.flush = some fs)
    (hstep : flushStep s l fs = some s') : s'.Inv := by
  have hknows := h.knows fs hflush
  cases fs with
  | loading left total =>
    cases left with
    | nil =>
      cases l <;> simp only [SkipReporter.flushStep, reduceCtorEq] at hstep
      -- `takeSample`
      have hmade := h.made_delta fun f => hknows f List.not_mem_nil
      split_ifs at hstep
      · obtain rfl := Option.some.inj hstep
        exact h.setFlush (by simp) (by simp [unreported, hflush])
      · obtain rfl := Option.some.inj hstep
        refine h.setFlush ?_ (by simp [unreported, hflush])
        intro fs' hfs'
        obtain rfl := Option.some.inj hfs'
        exact hmade
    | cons f left =>
      cases l <;> simp only [SkipReporter.flushStep, reduceCtorEq] at hstep
      -- `load`
      obtain rfl := Option.some.inj hstep
      refine h.setFlush ?_ (by simp [unreported, hflush])
      intro fs' hfs'
      obtain rfl := Option.some.inj hfs'
      intro g hg
      by_cases hgf : g = f
      · subst hgf
        rw [Function.update_self]
        exact ⟨h.sent_le g, le_rfl⟩
      · rw [Function.update_of_ne hgf]
        exact hknows g (by simp [hgf, hg])
  | made total r sampled =>
    cases l <;> simp only [SkipReporter.flushStep, reduceCtorEq] at hstep
    · obtain rfl := Option.some.inj hstep
      exact h.setFlush (by simp) (by simp [unreported, hflush])
    · obtain rfl := Option.some.inj hstep
      have hsent : Inv { s with flush := some (.sending total r sampled) } :=
        h.setFlush (fun fs' hfs' => Option.some.inj hfs' ▸ hknows) (by simp [unreported, hflush])
      refine { hsent with valid := ?_ }
      intro r' hr'
      rcases List.mem_append.mp hr' with hold | hnew
      · exact h.valid r' hold
      · rw [List.mem_singleton.mp hnew]
        exact hknows.valid
  | sending total r sampled =>
    cases l <;> simp only [SkipReporter.flushStep, reduceCtorEq] at hstep
    · obtain rfl := Option.some.inj hstep
      exact h.accepted hknows hflush
    · obtain rfl := Option.some.inj hstep
      exact h.setFlush (by simp [ret]) (by simp [unreported, ret, hflush])
  | clearing sampled =>
    cases l <;> simp only [SkipReporter.flushStep, reduceCtorEq] at hstep
    obtain rfl := Option.some.inj hstep
    have hkeys := h.keys_eq
    refine ⟨h.counters_lt, h.sent_le, ?_, ?_, by simp [ret], h.sent_eq, h.sum_eq, ?_, h.valid⟩
    · rw [List.length_drop]
      exact (Nat.sub_le _ _).trans h.sample_le
    · exact fun k hk => h.sample_past k (List.mem_of_mem_drop hk)
    · simpa [unreported, ret, carried, hflush] using hkeys

/-- Every step that wraps no counter keeps the invariant. -/
lemma Inv.step {l : Label} (h : s.Inv) (hbelow : Below s l) (hstep : step s l = some s') :
    s'.Inv := by
  cases l with
  | tick d =>
    obtain rfl := Option.some.inj hstep
    exact h.grow (fun _ => le_rfl) h.counters_lt (by simp)
  | add f n =>
    obtain rfl := Option.some.inj hstep
    have hsum : (s.counters f + n) % 2 ^ 32 = s.counters f + n := Nat.mod_eq_of_lt hbelow
    refine h.grow ?_ ?_ le_rfl
    · intro g
      by_cases hgf : g = f
      · subst hgf
        rw [Function.update_self, hsum]
        exact Nat.le_add_right _ _
      · rw [Function.update_of_ne hgf]
    · intro g
      by_cases hgf : g = f
      · subst hgf
        rw [Function.update_self]
        exact Nat.mod_lt _ (by norm_num)
      · rw [Function.update_of_ne hgf]
        exact h.counters_lt g
  | sampleSkippedKey hash =>
    simp only [SkipReporter.step] at hstep
    split_ifs at hstep with hroom
    · obtain rfl := Option.some.inj hstep
      exact h.sampleSkippedKey hroom hash
    · exact Option.some.inj hstep ▸ h
  | call =>
    simp only [SkipReporter.step] at hstep
    split_ifs at hstep
    · obtain rfl := Option.some.inj hstep
      exact h.setFlush h.knows rfl
    · obtain rfl := Option.some.inj hstep
      exact h.setFlush h.knows rfl
  | lock =>
    simp only [SkipReporter.step] at hstep
    split_ifs at hstep with hbusy
    obtain rfl := Option.some.inj hstep
    have hfree : s.flush = none := by simpa using (not_or.mp hbusy).2
    refine h.setFlush ?_ (by simp [unreported, hfree])
    intro fs hfs
    obtain rfl := Option.some.inj hfs
    exact fun f hf => absurd f.mem_all hf
  | load | takeSample | giveUp | send | accept | fail | clearSample =>
    obtain ⟨fs, hflush, hstep⟩ := Option.bind_eq_some_iff.mp hstep
    exact h.flushStep hflush hstep

/-- A key is in no more of the lists than it is in their concatenation. -/
lemma countP_mem_le_count_flatMap (accepted : List AcceptedReport) (key : Bytes) :
    accepted.countP (fun a => key ∈ a.report.skippedKeys) ≤
      (accepted.flatMap fun a => a.report.skippedKeys).count key := by
  induction accepted with
  | nil => exact Nat.zero_le _
  | cons a accepted ih =>
    rw [List.countP_cons, List.flatMap_cons, List.count_append]
    by_cases hkey : key ∈ a.report.skippedKeys
    · have hpos := List.count_pos_iff.mpr hkey
      simp only [hkey, decide_true, if_true]
      omega
    · simp only [hkey, decide_false, Bool.false_eq_true, if_false]
      omega

/-- Skips are reported once. As long as no counter wraps around, the accepted reports add up, field
by field, to what the last accepted call has read from the counters. Their keys, followed by those
still waiting in the sample, are the keys that were put into the sample, in that order; so no more
accepted reports carry a key than the times it was sampled. Every report that is sent passes the
server's check. -/
theorem skipReports_counted_once (endpoint : Bytes) (now : Time) {ls : List Label}
    (hbelow : Guarded step Below (start endpoint now) ls)
    (hrun : run step (start endpoint now) ls = some t) :
    (∀ f, (t.accepted.map fun a => a.report.counts f).sum = t.lastTotal f) ∧
      (∀ key, t.accepted.countP (fun a => key ∈ a.report.skippedKeys) ≤
        (t.buffered.map SkippedKey.text).count key) ∧
      t.carried ++ t.unreported.map SkippedKey.text = t.buffered.map SkippedKey.text ∧
      ∀ r ∈ t.reports, r.body.valid = true := by
  have hinv : t.Inv :=
    run_invariant (fun _ _ _ h hl hstep => h.step hl hstep) (inv_start endpoint now) hbelow hrun
  refine ⟨?_, ?_, hinv.keys_eq, hinv.valid⟩
  · intro f
    rw [hinv.sum_eq, hinv.sent_eq]
  · intro key
    refine (countP_mem_le_count_flatMap t.accepted key).trans ?_
    rw [← hinv.keys_eq, List.count_append]
    exact Nat.le_add_right _ _

/-- A call gets the lock and makes a report. -/
def makeReport : List Label :=
  .lock :: (SkipField.all.map fun _ => .load) ++ [Label.takeSample]

/-- Two calls, of which the first fails; the counters and the sample go on in between. -/
def twoFlushes : List Label :=
  List.flatten [[.add .getNotInIndex 1, .sampleSkippedKey zeroHash, .call, .call], makeReport,
    [.add .putFailed 2, .send, .fail false], makeReport,
    [.send, .tick (10 ^ 9), .sampleSkippedKey zeroHash, .accept, .clearSample]]

theorem skipReports_counted_once_twoFlushes :
    ∃ t, run step (start (ascii "s") 0) twoFlushes = some t ∧
      (t.reports.length, t.buffered.length, t.lastTotal .putFailed) = (2, 2, 2) ∧
      (t.accepted.map fun a => a.report.counts .putFailed).sum = t.lastTotal .putFailed ∧
      t.carried ++ t.unreported.map SkippedKey.text = t.buffered.map SkippedKey.text := by
  have hcounts : (run step (start (ascii "s") 0) twoFlushes).map
      (fun t => (t.reports.length, t.buffered.length, t.lastTotal .putFailed)) =
        some (2, 2, 2) := by
    decide +kernel
  obtain ⟨t, hrun, ht⟩ := Option.map_eq_some_iff.mp hcounts
  obtain ⟨hsum, -, hkeys, -⟩ :=
    skipReports_counted_once (ascii "s") 0 (by decide +kernel) hrun
  exact ⟨t, hrun, ht, hsum .putFailed, hkeys⟩

end SkipReporter

end GoBuildCache
