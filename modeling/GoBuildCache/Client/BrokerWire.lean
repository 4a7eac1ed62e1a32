import GoBuildCache.Key

/-!
# The records of the broker

One process of a build owns the cache directory, and the others ask it over a pair of rings. A
request and a reply are one record each, with a type word beside it and a correlation id in front.
The owner copies the id of the request into its reply (`recordID_answer`), and the process that
asked reads from the reply what the owner has found (`readReply_answer_get`).
-/

open ByteString

namespace GoBuildCache

/-- What an action has produced. -/
structure Entry where
  /-- The output. -/
  outputID : Hash
  /-- Its size. -/
  size : Int64
  /-- When it was added, in nanoseconds. -/
  time : Int64
  deriving DecidableEq

/-- The entry of a reply that carries none. -/
def Entry.zero : Entry :=
  ⟨zeroHash, 0, 0⟩

/-! ## Type words -/

/-- A lookup. -/
def opGet : ℕ := 2

/-- A store. -/
def opPut : ℕ := 3

/-- A reply with an entry. -/
def stEntry : ℕ := 2

/-- The owner has no such entry. -/
def stMiss : ℕ := 3

/-- The owner refuses the request. -/
def stError : ℕ := 4

/-- The length of a correlation id. -/
def idBytes : ℕ := 8

/-- The length of an entry. -/
def entryBytes : ℕ := 32 + 8 + 8

/-- The tier of the owner's own directory. -/
def tierDisk : Bytes := ascii "disk"

/-! ## Requests -/

/-- A lookup request. -/
def getRecord (dst : Bytes) (id : ℕ) (action : Hash) : Bytes :=
  dst ++ leBytes 8 id ++ action.bytes

/-- A store request: the body is in the file at a path. -/
def putRecord (dst : Bytes) (id : ℕ) (action : Hash) (path : Bytes) : Bytes :=
  dst ++ leBytes 8 id ++ action.bytes ++ path

/-- The id of a record; `none` is `errShortRecord`. -/
def recordID (rec : Bytes) : Option ℕ :=
  if rec.length < idBytes then none else some (leValue (rec.take 8))

/-- The hash at the beginning of a byte string that is long enough. -/
def copyHash (bytes : Bytes) (h : 32 ≤ bytes.length) : Hash :=
  ⟨bytes.take 32, List.length_take_of_le h⟩

/-- The id and the action of a request, and what follows them; `none` is `errShortRecord`. -/
def readRequest (rec : Bytes) : Option (ℕ × Hash × Bytes) :=
  if h : rec.length < idBytes + 32 then none
  else
    some (leValue (rec.take 8), copyHash (rec.drop 8) (by simp only [idBytes] at h; simp; omega),
      rec.drop 40)

/-! ## Replies -/

/-- A reply with an entry and its tier. -/
def entryRecord (dst : Bytes) (id : ℕ) (e : Entry) (tier : Bytes) : Bytes :=
  dst ++ leBytes 8 id ++ e.outputID.bytes ++ leBytes 8 e.size.toUInt64.toNat ++
    leBytes 8 e.time.toUInt64.toNat ++ tier

/-- The entry of a reply, and its tier; `none` is `errShortRecord`. -/
def readEntryRecord (rec : Bytes) : Option (Entry × Bytes) :=
  if h : rec.length < idBytes + entryBytes then none
  else
    let body := rec.drop 8
    some (⟨copyHash body (by simp only [idBytes, entryBytes] at h; simp [body]; omega),
      (UInt64.ofNat (leValue ((body.drop 32).take 8))).toInt64,
      (UInt64.ofNat (leValue ((body.drop 40).take 8))).toInt64⟩, body.drop 48)

/-- Why an answer is no entry. -/
inductive BrokerError (E : Type) where
  /-- `errShortRecord`: the record is too short. -/
  | shortRecord
  /-- The owner has no such entry, which is a miss of the cache. -/
  | miss
  /-- The owner refused the request. -/
  | refused
  /-- The channel has failed. -/
  | channel (e : E)
  deriving DecidableEq

/-- What the owner answered. -/
structure Reply (E : Type) where
  /-- The type word. -/
  typ : ℕ
  /-- The entry. -/
  entry : Entry
  /-- The tier. -/
  tier : Bytes
  /-- The error. -/
  err : Option (BrokerError E)
  deriving DecidableEq

/-- The body of the loop of `read`: the id of a record, and the reply that it makes. A record that
is too short for an id is passed over. -/
def readReply (E : Type) (typ : ℕ) (rec : Bytes) : Option (ℕ × Reply E) :=
  (recordID rec).map fun id =>
    (id,
      if typ = stEntry then
        match readEntryRecord rec with
        | some (e, tier) => ⟨typ, e, tier, none⟩
        | none => ⟨typ, .zero, [], some .shortRecord⟩
      else if typ = stMiss then ⟨typ, .zero, [], some .miss⟩
      else ⟨typ, .zero, [], some .refused⟩)

/-- The reply of the owner to a request, with its type word; `lookup` and `store` are what the owner
finds and stores. -/
def answer (lookup : Hash → Option (Entry × Bytes)) (store : Hash → Bytes → Except Bytes Entry)
    (typ : ℕ) (req : Bytes) : Option (ℕ × Bytes) :=
  match readRequest req with
  | none => (recordID req).map fun id => (stError, getRecord [] id zeroHash)
  | some (id, action, rest) =>
    if typ = opGet then
      match lookup action with
      | none => some (stMiss, getRecord [] id action)
      | some (e, tier) => some (stEntry, entryRecord [] id e tier)
    else if typ = opPut then
      match store action rest with
      | .error text => some (stError, getRecord [] id action ++ text)
      | .ok e => some (stEntry, entryRecord [] id e tierDisk)
    else some (stError, getRecord [] id action)

/-! ## What the records say -/

section Records

variable {id : ℕ} {req : Bytes}

lemma recordID_append (hid : id < 2 ^ 64) (rest : Bytes) :
    recordID (leBytes 8 id ++ rest) = some id := by
  have hlen : ¬ (leBytes 8 id ++ rest).length < idBytes := by simp [idBytes]
  rw [recordID, if_neg hlen, List.take_left' (length_leBytes 8 id),
    leValue_leBytes_of_lt (by simpa using hid)]

lemma recordID_lt (h : recordID req = some id) : id < 2 ^ 64 := by
  rw [recordID] at h
  split_ifs at h with hshort
  obtain rfl := Option.some.inj h
  have hlt := beValue_lt (req.take 8).reverse
  have hlen : (req.take 8).reverse.length = 8 := by
    simp only [idBytes] at hshort
    simp only [List.length_reverse, List.length_take]
    omega
  rw [hlen] at hlt
  exact hlt.trans_le (by norm_num)

lemma readRequest_recordID {action : Hash} {rest : Bytes}
    (h : readRequest req = some (id, action, rest)) : recordID req = some id := by
  rw [readRequest] at h
  split_ifs at h with hshort
  have hlen : ¬ req.length < idBytes := by
    simp only [idBytes] at hshort ⊢
    omega
  rw [recordID, if_neg hlen]
  cases h
  rfl

lemma readRequest_append (hid : id < 2 ^ 64) (action : Hash) (rest : Bytes) :
    readRequest (leBytes 8 id ++ action.bytes ++ rest) = some (id, action, rest) := by
  have haction := action.size
  have hlen : ¬ (leBytes 8 id ++ action.bytes ++ rest).length < idBytes + 32 := by
    simp only [idBytes, List.length_append, length_leBytes]
    omega
  have hvalue : leValue ((leBytes 8 id ++ action.bytes ++ rest).take 8) = id := by
    rw [List.append_assoc, List.take_left' (length_leBytes 8 id),
      leValue_leBytes_of_lt (by simpa using hid)]
  have hdrop : (leBytes 8 id ++ action.bytes ++ rest).drop 8 = action.bytes ++ rest := by
    rw [List.append_assoc, List.drop_left' (length_leBytes 8 id)]
  have hrest : (leBytes 8 id ++ action.bytes ++ rest).drop 40 = rest := by
    rw [List.drop_left']
    simp [haction]
  rw [readRequest, dif_neg hlen]
  simp only [hvalue, hdrop, hrest, copyHash, List.take_left' haction]

/-- An entry is read back from its record. -/
lemma readEntryRecord_entryRecord (id : ℕ) (e : Entry) (tier : Bytes) :
    readEntryRecord (entryRecord [] id e tier) = some (e, tier) := by
  have houtput := e.outputID.size
  have hsize : leValue (leBytes 8 e.size.toUInt64.toNat) = e.size.toUInt64.toNat :=
    leValue_leBytes_of_lt (by simpa using e.size.toUInt64.toNat_lt)
  have htime : leValue (leBytes 8 e.time.toUInt64.toNat) = e.time.toUInt64.toNat :=
    leValue_leBytes_of_lt (by simpa using e.time.toUInt64.toNat_lt)
  have hbody : (entryRecord [] id e tier).drop 8 = e.outputID.bytes ++
      (leBytes 8 e.size.toUInt64.toNat ++ (leBytes 8 e.time.toUInt64.toNat ++ tier)) := by
    simp only [entryRecord, List.nil_append, List.append_assoc]
    rw [List.drop_left' (length_leBytes 8 id)]
  have hlen : ¬ (entryRecord [] id e tier).length < idBytes + entryBytes := by
    simp only [entryRecord, idBytes, entryBytes, List.length_append, length_leBytes, houtput,
      List.length_nil]
    omega
  have hsizeField : (((entryRecord [] id e tier).drop 8).drop 32).take 8 =
      leBytes 8 e.size.toUInt64.toNat := by
    rw [hbody, List.drop_left' houtput, List.take_left' (length_leBytes _ _)]
  have htimeField : (((entryRecord [] id e tier).drop 8).drop 40).take 8 =
      leBytes 8 e.time.toUInt64.toNat := by
    rw [hbody, ← List.append_assoc, List.drop_left' (by simp [houtput]),
      List.take_left' (length_leBytes _ _)]
  have htier : ((entryRecord [] id e tier).drop 8).drop 48 = tier := by
    rw [hbody, ← List.append_assoc, ← List.append_assoc, List.drop_left' (by simp [houtput])]
  rw [readEntryRecord, dif_neg hlen]
  simp only [hsizeField, htimeField, htier, hsize, htime, UInt64.ofNat_toNat, copyHash]
  simp only [hbody, List.take_left' houtput]
  rfl

/-- The owner answers with the id of the request. -/
theorem recordID_answer {lookup : Hash → Option (Entry × Bytes)}
    {store : Hash → Bytes → Except Bytes Entry} {typ : ℕ} {reply : ℕ × Bytes}
    (h : answer lookup store typ req = some reply) : recordID reply.2 = recordID req := by
  rw [answer] at h
  rcases hreq : readRequest req with _ | ⟨id, action, rest⟩
  · simp only [hreq, Option.map_eq_some_iff] at h
    obtain ⟨id, hid, rfl⟩ := h
    rw [hid]
    exact recordID_append (recordID_lt hid) _
  · have hid := readRequest_recordID hreq
    have hcarries := recordID_append (recordID_lt hid)
    simp only [hreq] at h
    rw [hid]
    split_ifs at h with hget hput
    · rcases hlookup : lookup action with _ | ⟨e, tier⟩ <;> rw [hlookup] at h
      · obtain rfl := Option.some.inj h
        exact hcarries _
      · obtain rfl := Option.some.inj h
        simpa [entryRecord] using hcarries (e.outputID.bytes ++ _)
    · rcases hstore : store action rest with text | e <;> rw [hstore] at h
      · obtain rfl := Option.some.inj h
        simpa [getRecord] using hcarries (action.bytes ++ text)
      · obtain rfl := Option.some.inj h
        simpa [entryRecord] using hcarries (e.outputID.bytes ++ _)
    · obtain rfl := Option.some.inj h
      exact hcarries _

/-- A lookup is answered with what the owner has found. -/
theorem readReply_answer_get (E : Type) (lookup : Hash → Option (Entry × Bytes))
    (store : Hash → Bytes → Except Bytes Entry) (hid : id < 2 ^ 64) (action : Hash) :
    (answer lookup store opGet (getRecord [] id action)).bind (fun r => readReply E r.1 r.2) =
      some (id, match lookup action with
        | some (e, tier) => ⟨stEntry, e, tier, none⟩
        | none => ⟨stMiss, .zero, [], some .miss⟩) := by
  have hreq : readRequest (getRecord [] id action) = some (id, action, []) := by
    simpa [getRecord] using readRequest_append hid action []
  have hcarries := recordID_append hid
  simp only [answer, hreq]
  rcases lookup action with _ | ⟨e, tier⟩
  · have hrec : recordID (getRecord [] id action) = some id := hcarries _
    simp [readReply, hrec, stMiss, stEntry]
  · have hrec : recordID (entryRecord [] id e tier) = some id := by
      simpa [entryRecord] using hcarries (e.outputID.bytes ++ _)
    simp [readReply, hrec, readEntryRecord_entryRecord]

theorem readReply_answer_get_found :
    (answer (fun _ => some (.zero, [])) (fun _ _ => .error []) opGet (getRecord [] 7 zeroHash)).bind
      (fun r => readReply Unit r.1 r.2) = some (7, ⟨stEntry, .zero, [], none⟩) :=
  readReply_answer_get Unit _ _ (by decide) zeroHash

end Records

end GoBuildCache
