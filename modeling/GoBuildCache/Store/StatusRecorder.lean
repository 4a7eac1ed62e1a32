import GoBuildCache.Foundation.Bytes
import GoBuildCache.Foundation.Reader

/-!
# Copying a response

The server wraps its response writers to count what they send. `ReadFrom` of the wrapper hands the
source on to the wrapped writer in chunks of 1 MiB, so that the counts move while a large body is
sent; it takes the limit off a limited source and keeps that limit itself.

What the wrapped writer does is a parameter, and `ReadFromContract` is what `io.ReaderFrom` asks of
it. `readFrom_exact` says that then nothing is lost between the chunks: on every exit the number
returned, the limit and the counts agree with what was read, and without an error everything up to
the limit has been copied. A writer without `ReadFrom` is served by `io.Copy`, which counts through
`Write` (`ioCopy_counts`).
-/

open ByteString

namespace GoBuildCache

/-- The counts of a response. -/
structure StatusRecorder where
  /-- Bytes sent. -/
  bytesWritten : Int64
  /-- A count that moves whenever something is sent. -/
  progress : Int64

/-- Counts `n` bytes. -/
def StatusRecorder.count (r : StatusRecorder) (n : ℤ) : StatusRecorder :=
  ⟨r.bytesWritten + Int64.ofInt n, r.progress + Int64.ofInt n⟩

/-- A source of a response; `limit` is the rest of an `io.LimitedReader` around it. -/
structure Source where
  /-- What is inside the limit. -/
  inner : Reader UInt8
  /-- How much may be read, if there is a limit. -/
  limit : Option ℤ

/-- What a call that copies says. -/
structure CopyResult (W : Type) where
  /-- The writer. -/
  writer : W
  /-- How many bytes it says it has copied. -/
  n : ℕ
  /-- Whether it returns an error. -/
  failed : Bool

/-- A response writer: `Write`, and `ReadFrom` if it has it. -/
structure ResponseWriter (W : Type) where
  /-- Writes some bytes. -/
  write : W → Bytes → CopyResult W
  /-- Copies a source. -/
  readFrom : Option (W → Reader UInt8 → CopyResult W)

/-- The most that one forwarded call copies. -/
def readFromChunk : ℤ := 1 <<< 20

/-- The largest `int64`. -/
def maxInt64 : ℤ := 2 ^ 63 - 1

/-- The size of the buffer of `io.Copy`. -/
def copyBuffer : ℕ := 32 * 1024

/-- Where the copying stands. -/
structure CopyState (W : Type) where
  /-- The wrapped writer. -/
  writer : W
  /-- The source inside the limit. -/
  inner : Reader UInt8
  /-- How much may still be read. -/
  remaining : ℤ
  /-- How much has been copied. -/
  total : ℤ
  /-- The counts. -/
  recorder : StatusRecorder

variable {W : Type}

/-- The state after the wrapped writer has copied `result.n` bytes. -/
def CopyState.advance (s : CopyState W) (result : CopyResult W) : CopyState W :=
  ⟨result.writer, s.inner.skip result.n, s.remaining - result.n, s.total + result.n,
    s.recorder.count result.n⟩

/-- The loop over the chunks. The sums stay within the limit, so they do not wrap around. -/
def readFromLoop (rf : W → Reader UInt8 → CopyResult W) (s : CopyState W) : CopyState W × Bool :=
  if _hmore : 0 < s.remaining then
    let chunk := min s.remaining readFromChunk
    let result := rf s.writer (s.inner.limit chunk.toNat)
    if _hshort : result.failed = true ∨ (result.n : ℤ) < chunk then
      (s.advance result, result.failed)
    else readFromLoop rf (s.advance result)
  else (s, false)
termination_by s.remaining.toNat
decreasing_by
  have hchunk : 0 < min s.remaining readFromChunk := lt_min _hmore (by decide)
  have hcopied : min s.remaining readFromChunk ≤ result.n := not_lt.mp (not_or.mp _hshort).2
  exact (Int.toNat_lt_toNat _hmore).mpr (Int.sub_lt_self _ (hchunk.trans_le hcopied))

/-- `io.Copy` to the wrapper with everything but `Write` hidden, as far as the source goes. -/
def ioCopy (write : W → Bytes → CopyResult W) (w : W) (r : StatusRecorder) (src : Reader UInt8)
    (written : ℤ) : CopyState W × Bool :=
  if _hmore : src.rest = [] then (⟨w, src, 0, written, r⟩, src.fails)
  else
    let piece := src.rest.take copyBuffer
    let result := write w piece
    let r' := r.count result.n
    if result.failed = true ∨ result.n ≠ piece.length then
      (⟨result.writer, src.skip copyBuffer, 0, written + result.n, r'⟩, true)
    else ioCopy write result.writer r' (src.skip copyBuffer) (written + result.n)
termination_by src.rest.length
decreasing_by
  have hbuffer : copyBuffer = 32768 := by decide
  have hpos := List.length_pos_iff.mpr _hmore
  rw [Reader.skip, List.length_drop]
  omega

/-- What `ReadFrom` of the wrapper returns and leaves behind. -/
structure ReadFromResult (W : Type) where
  /-- The number it returns. -/
  count : ℤ
  /-- Whether it returns an error. -/
  failed : Bool
  /-- The wrapped writer. -/
  writer : W
  /-- The counts. -/
  recorder : StatusRecorder
  /-- The source. -/
  source : Source

/-- What the source looks like to a reader that does not take the limit off. -/
def Source.reader (src : Source) : Reader UInt8 :=
  match src.limit with
  | none => src.inner
  | some n => src.inner.limit n.toNat

/-- The source when `n` bytes have been read from it. -/
def Source.skip (src : Source) (n : ℕ) : Source :=
  ⟨src.inner.skip n, src.limit.map (· - n)⟩

/-- `ReadFrom` of the wrapper. -/
def readFrom (writer : ResponseWriter W) (w : W) (r : StatusRecorder) (src : Source) :
    ReadFromResult W :=
  match writer.readFrom with
  | none =>
    let (s, failed) := ioCopy writer.write w r src.reader 0
    ⟨s.total, failed, s.writer, s.recorder,
      src.skip (src.reader.rest.length - s.inner.rest.length)⟩
  | some rf =>
    let (s, failed) := readFromLoop rf ⟨w, src.inner, src.limit.getD maxInt64, 0, r⟩
    ⟨s.total, failed, s.writer, s.recorder, ⟨s.inner, src.limit.map fun _ => s.remaining⟩⟩

/-! ## The loop -/

/-- What `io.ReaderFrom` asks of a writer, where `output` is what the writer has been given so far:
it copies the source in order up to its end or an error, and says how much of it it has read. -/
structure ReadFromContract (rf : W → Reader UInt8 → CopyResult W) (output : W → Bytes) : Prop where
  /-- It reads no more than there is. -/
  read_le : ∀ w src, (rf w src).n ≤ src.rest.length
  /-- What it copies is the start of what it has read. -/
  copies : ∀ w src, ∃ m ≤ (rf w src).n, output (rf w src).writer = output w ++ src.rest.take m
  /-- Without an error it has come to the end of the source, and copied everything. -/
  complete : ∀ w src, (rf w src).failed = false →
    (rf w src).n = src.rest.length ∧ src.fails = false ∧
      output (rf w src).writer = output w ++ src.rest

/-- What has become of the copying when `n` bytes have been read. -/
structure Copied (output : W → Bytes) (s : CopyState W) (result : CopyState W × Bool) (n : ℕ) :
    Prop where
  read_le : n ≤ s.inner.rest.length
  inner : result.1.inner = s.inner.skip n
  remaining : result.1.remaining = s.remaining - n
  total : result.1.total = s.total + n
  recorder : result.1.recorder = s.recorder.count n
  copies : ∃ m ≤ n, output result.1.writer = output s.writer ++ s.inner.rest.take m
  complete : result.2 = false → (n : ℤ) = max 0 (min s.remaining s.inner.rest.length) ∧
    output result.1.writer = output s.writer ++ s.inner.rest.take n

lemma StatusRecorder.count_count (r : StatusRecorder) (m n : ℤ) :
    (r.count m).count n = r.count (m + n) := by
  simp only [StatusRecorder.count, Int64.ofInt_add, Int64.add_assoc]

section Loop

variable {rf : W → Reader UInt8 → CopyResult W} {output : W → Bytes} {s : CopyState W}

/-- One chunk: what is read of the limited source is read of the source. -/
lemma readFrom_chunk (hrf : ReadFromContract rf output) (w : W) (src : Reader UInt8) (chunk : ℕ) :
    (rf w (src.limit chunk)).n ≤ min chunk src.rest.length ∧
      (∃ m ≤ (rf w (src.limit chunk)).n,
        output (rf w (src.limit chunk)).writer = output w ++ src.rest.take m) ∧
      ((rf w (src.limit chunk)).failed = false →
        (rf w (src.limit chunk)).n = min chunk src.rest.length ∧
          output (rf w (src.limit chunk)).writer = output w ++ src.rest.take chunk) := by
  have hread := hrf.read_le w (src.limit chunk)
  obtain ⟨m, hm, hout⟩ := hrf.copies w (src.limit chunk)
  have hcomplete := hrf.complete w (src.limit chunk)
  rw [Reader.rest_limit, List.length_take] at hread hcomplete
  rw [Reader.rest_limit, List.take_take, min_eq_left (by omega)] at hout
  exact ⟨hread, ⟨m, hm, hout⟩, fun hok => ⟨(hcomplete hok).1, (hcomplete hok).2.2⟩⟩

lemma readFromLoop_done (hdone : ¬ 0 < s.remaining) : readFromLoop rf s = (s, false) := by
  rw [readFromLoop, dif_neg hdone]

lemma readFromLoop_more (hmore : 0 < s.remaining) {chunk : ℕ}
    (hchunk : (chunk : ℤ) = min s.remaining readFromChunk) {result : CopyResult W}
    (hresult : rf s.writer (s.inner.limit chunk) = result) :
    readFromLoop rf s =
      if result.failed = true ∨ result.n < chunk then (s.advance result, result.failed)
      else readFromLoop rf (s.advance result) := by
  rw [readFromLoop, dif_pos hmore]
  simp only [← hchunk, Int.toNat_natCast, hresult, Nat.cast_lt, dite_eq_ite]

/-- A chunk of the loop. -/
lemma exists_chunk (hmore : 0 < s.remaining) :
    ∃ chunk : ℕ, (chunk : ℤ) = min s.remaining readFromChunk ∧ 0 < chunk := by
  have hpos : 0 < min s.remaining readFromChunk := lt_min hmore (by decide)
  exact ⟨(min s.remaining readFromChunk).toNat, Int.toNat_of_nonneg hpos.le, by omega⟩

/-- A whole chunk, and what is copied after it. -/
lemma Copied.chunk {result : CopyResult W} {end' : CopyState W × Bool} {chunk n : ℕ}
    (h : Copied output (s.advance result) end' n) (hn : result.n = chunk)
    (hle : chunk ≤ s.inner.rest.length) (hremaining : (chunk : ℤ) ≤ s.remaining)
    (hout : output result.writer = output s.writer ++ s.inner.rest.take chunk) :
    Copied output s end' (chunk + n) := by
  subst hn
  have hrest : (s.advance result).inner.rest = s.inner.rest.drop result.n := rfl
  have hread := h.read_le
  rw [hrest, List.length_drop] at hread
  refine ⟨by omega, ?_, ?_, ?_, ?_, ?_, ?_⟩
  · rw [h.inner]
    exact Reader.skip_skip ..
  · rw [h.remaining]
    simp only [CopyState.advance]
    push_cast
    omega
  · rw [h.total]
    simp only [CopyState.advance]
    push_cast
    omega
  · rw [h.recorder]
    simp only [CopyState.advance, StatusRecorder.count_count]
    push_cast
    rfl
  · obtain ⟨m, hm, hcopied⟩ := h.copies
    refine ⟨result.n + m, by omega, ?_⟩
    rw [hcopied, hrest, List.take_add, ← List.append_assoc, ← hout]
    rfl
  · intro hok
    obtain ⟨hcount, hcopied⟩ := h.complete hok
    rw [hrest, List.length_drop] at hcount
    have hadvance : (s.advance result).remaining = s.remaining - result.n := rfl
    refine ⟨by omega, ?_⟩
    rw [hcopied, hrest, List.take_add, ← List.append_assoc, ← hout]
    rfl

/-- The loop, from any state. -/
lemma readFromLoop_copied (hrf : ReadFromContract rf output) (s : CopyState W) :
    ∃ n, Copied output s (readFromLoop rf s) n := by
  induction hn : s.remaining.toNat using Nat.strong_induction_on generalizing s with
  | _ n ih =>
    by_cases hmore : 0 < s.remaining
    swap
    · rw [readFromLoop_done hmore]
      refine ⟨0, Nat.zero_le _, rfl, by simp, by simp, by simp [StatusRecorder.count],
        ⟨0, le_rfl, by simp⟩, ?_⟩
      intro _
      refine ⟨?_, by simp⟩
      omega
    obtain ⟨chunk, hchunk, hpos⟩ := exists_chunk hmore
    obtain ⟨hle, hcopies, hcomplete⟩ := readFrom_chunk hrf s.writer s.inner chunk
    set result := rf s.writer (s.inner.limit chunk) with hresult
    rw [readFromLoop_more hmore hchunk hresult.symm]
    split_ifs with hshort
    · refine ⟨result.n, hle.trans (min_le_right _ _), rfl, rfl, rfl, rfl, hcopies, ?_⟩
      intro (hok : result.failed = false)
      obtain ⟨hcount, hcopied⟩ := hcomplete hok
      have hlt : result.n < chunk := hshort.resolve_left (by simp [hok])
      have hall : s.inner.rest.take chunk = s.inner.rest.take result.n := by
        rw [hcount, List.take_of_length_le (by omega), List.take_of_length_le (by omega)]
      exact ⟨by omega, hall ▸ hcopied⟩
    · obtain ⟨hok, hfull⟩ := not_or.mp hshort
      obtain ⟨hcount, hcopied⟩ := hcomplete (by simpa using hok)
      have hexact : result.n = chunk := by omega
      have hless : (s.advance result).remaining.toNat < n := by
        have hadvance : (s.advance result).remaining = s.remaining - result.n := rfl
        omega
      obtain ⟨n', hn'⟩ := ih _ hless (s.advance result) rfl
      exact ⟨chunk + n', hn'.chunk hexact (by omega) (by omega) hcopied⟩

/-- If neither the source nor the writer fails, nor does the loop. -/
lemma readFromLoop_ok (hrf : ReadFromContract rf output)
    (hok : ∀ w src, src.fails = false → (rf w src).failed = false) (s : CopyState W)
    (hs : s.inner.fails = false ∨ s.remaining ≤ s.inner.rest.length) :
    (readFromLoop rf s).2 = false := by
  induction hn : s.remaining.toNat using Nat.strong_induction_on generalizing s with
  | _ n ih =>
    by_cases hmore : 0 < s.remaining
    swap
    · rw [readFromLoop_done hmore]
    obtain ⟨chunk, hchunk, hpos⟩ := exists_chunk hmore
    obtain ⟨hle, -, -⟩ := readFrom_chunk hrf s.writer s.inner chunk
    set result := rf s.writer (s.inner.limit chunk) with hresult
    have hlimit : (s.inner.limit chunk).fails = false := by
      unfold Reader.limit
      split_ifs with hin
      · rfl
      · exact hs.resolve_right (by omega)
    have hfailed : result.failed = false := hok _ _ hlimit
    rw [readFromLoop_more hmore hchunk hresult.symm]
    split_ifs with hshort
    · exact hfailed
    · have hadvance : (s.advance result).remaining = s.remaining - result.n := rfl
      have hfull := (not_or.mp hshort).2
      refine ih _ ?_ (s.advance result) ?_ rfl
      · omega
      · refine hs.imp id ?_
        intro hin
        change s.remaining - result.n ≤ ((s.inner.rest.drop result.n).length : ℤ)
        rw [List.length_drop]
        omega

end Loop

/-! ## The whole call -/

/-- Nothing is lost. On every exit the number returned is the number of bytes read, the limit has
fallen and the counts have risen by it, and what was copied is the start of what was read. Without
an error this is everything up to the limit, which is the largest `int64` if there is none; and
there is no error unless the source or the writer has one. -/
theorem readFrom_exact {rf : W → Reader UInt8 → CopyResult W} {output : W → Bytes}
    (hrf : ReadFromContract rf output) (write : W → Bytes → CopyResult W) (w : W)
    (r : StatusRecorder) (src : Source) :
    let result := readFrom ⟨write, some rf⟩ w r src
    let limit := src.limit.getD maxInt64
    ∃ n ≤ src.inner.rest.length,
      result.count = n ∧ result.source = src.skip n ∧ result.recorder = r.count n ∧
      (∃ m ≤ n, output result.writer = output w ++ src.inner.rest.take m) ∧
      (result.failed = false → (n : ℤ) = max 0 (min limit src.inner.rest.length) ∧
        output result.writer = output w ++ src.inner.rest.take n) ∧
      ((∀ w src, src.fails = false → (rf w src).failed = false) →
        src.inner.fails = false ∨ limit ≤ src.inner.rest.length → result.failed = false) := by
  intro result limit
  set s : CopyState W := ⟨w, src.inner, limit, 0, r⟩ with hs
  obtain ⟨n, h⟩ := readFromLoop_copied hrf s
  refine ⟨n, h.read_le, ?_, ?_, h.recorder, h.copies, h.complete, ?_⟩
  · exact h.total.trans (zero_add _)
  · change (⟨_, src.limit.map fun _ => (readFromLoop rf s).1.remaining⟩ : Source) = _
    rw [h.inner, h.remaining, Source.skip]
    rcases hlimit : src.limit with _ | N
    · rfl
    · have hN : limit = N := by simp only [limit, hlimit, Option.getD_some]
      simp only [hs, hN, Option.map_some]
  · intro hok hsource
    exact readFromLoop_ok hrf hok s hsource

/-- A buffer. -/
def bufferWriter : ResponseWriter Bytes where
  write w b := ⟨w ++ b, b.length, false⟩
  readFrom := some fun w src => ⟨w ++ src.rest, src.rest.length, src.fails⟩

lemma bufferWriter_contract :
    ReadFromContract (fun (w : Bytes) src => (⟨w ++ src.rest, src.rest.length, src.fails⟩ :
      CopyResult Bytes)) id where
  read_le _ _ := le_rfl
  copies _ src := ⟨src.rest.length, le_rfl, by simp⟩
  complete _ _ h := ⟨rfl, h, rfl⟩

theorem readFrom_exact_buffer :
    (readFrom bufferWriter [] ⟨0, 0⟩ ⟨⟨[1, 2, 3], false⟩, some 2⟩).count = 2 ∧
      (readFrom bufferWriter [] ⟨0, 0⟩ ⟨⟨[1, 2, 3], false⟩, some 2⟩).writer = [1, 2] := by
  obtain ⟨n, -, hcount, -, -, -, hcomplete, hok⟩ :=
    readFrom_exact bufferWriter_contract bufferWriter.write [] ⟨0, 0⟩ ⟨⟨[1, 2, 3], false⟩, some 2⟩
  obtain ⟨hn, hwriter⟩ := hcomplete (hok (fun _ _ h => h) (.inl rfl))
  have htwo : (n : ℤ) = 2 := by simpa using hn
  obtain rfl : n = 2 := by exact_mod_cast htwo
  exact ⟨hcount, hwriter⟩

/-- A writer without `ReadFrom`: `io.Copy` returns what `Write` has counted. -/
theorem ioCopy_counts (write : W → Bytes → CopyResult W) (w : W) (r : StatusRecorder)
    (src : Reader UInt8) (written : ℤ) :
    ∃ n : ℕ, (ioCopy write w r src written).1.total = written + n ∧
      (ioCopy write w r src written).1.recorder = r.count n := by
  induction hn : src.rest.length using Nat.strong_induction_on
    generalizing w r src written with
  | _ length ih =>
    rw [ioCopy]
    by_cases hdone : src.rest = []
    · rw [dif_pos hdone]
      exact ⟨0, by simp, by simp [StatusRecorder.count]⟩
    rw [dif_neg hdone]
    dsimp only
    split_ifs with hshort
    · exact ⟨_, rfl, rfl⟩
    · set result := write w (src.rest.take copyBuffer)
      have hless : (src.skip copyBuffer).rest.length < length := by
        have hbuffer : copyBuffer = 32768 := by decide
        have hpos := List.length_pos_iff.mpr hdone
        rw [Reader.skip, List.length_drop]
        omega
      obtain ⟨n, htotal, hrecorder⟩ :=
        ih _ hless result.writer (r.count result.n) (src.skip copyBuffer) (written + result.n) rfl
      refine ⟨result.n + n, ?_, ?_⟩
      · rw [htotal]
        push_cast
        ring
      · rw [hrecorder, StatusRecorder.count_count]
        push_cast
        rfl

end GoBuildCache
