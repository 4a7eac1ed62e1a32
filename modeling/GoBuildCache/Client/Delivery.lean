import GoBuildCache.Client.Batch

/-!
# What reaches the build

Bodies come from the server on five paths: look-ups that share a batch, their one-by-one fallback,
entries of a batch that nobody has asked for, the look-ahead window, and the fetch of what a
manifest or the module fallback names. The first two end in `getTiered`, which writes the body to
the local disk tier and hands it to the build; the others end in `populate`, which writes it to the
disk tier under the action that its key names.

`ClientEvent` lists these paths with everything the server and the environment decide. Whatever
they decide, every body delivered has passed the gates of `verify`, for the action and the output
under which it is delivered (`delivered_gated`).
-/

open ByteString

namespace GoBuildCache

/-- An entry of the disk tier. -/
structure DiskEntry where
  /-- Its action. -/
  action : Hash
  /-- The output of the action. -/
  output : Hash
  /-- The bytes of the output. -/
  data : Bytes

/-- Where a body goes. -/
inductive Destination where
  | build
  | disk

/-- A body that the server sent, decompressed, as the client is about to use it. -/
structure ServedBody where
  /-- The action under which it is used. -/
  action : Hash
  /-- The action as the client's text has it. -/
  actionID : Bytes
  /-- The output under which it is used. -/
  output : Hash
  /-- The body. -/
  data : Bytes
  /-- The `action-id` metadata that came with it. -/
  storedAction : Bytes

/-- The body has passed the gates, for its action and its output. -/
structure ServedBody.Gated (sha256 : Sha256) (b : ServedBody) : Prop where
  /-- The text names the action. -/
  actionID : hexDecode b.actionID = some b.action.bytes
  /-- The body hashes to the output. -/
  digest : sha256 b.data = b.output
  /-- The metadata names the action, or none. -/
  action : b.storedAction = [] ∨ b.storedAction = b.actionID
  /-- The build id is consistent with the action. -/
  buildID : (buildIDMatchesAction b.actionID b.data).2 = true
  /-- The body is not a module index. -/
  notModuleIndex : isGoModuleIndex b.data = false

/-- A body handed to the build or written to the disk tier. -/
structure Delivery where
  /-- Where it goes. -/
  destination : Destination
  /-- The body. -/
  body : ServedBody

/-- The disk tier, and what was delivered. -/
structure ClientState where
  /-- The disk tier. -/
  disk : List DiskEntry
  /-- The bodies delivered so far. -/
  delivered : List Delivery

/-- The entry of the disk tier for an action. -/
def ClientState.diskGet (s : ClientState) (id : Hash) : Option DiskEntry :=
  s.disk.find? (·.action = id)

/-- Records a delivery. -/
def ClientState.deliver (s : ClientState) (destination : Destination) (b : ServedBody) :
    ClientState :=
  { s with delivered := s.delivered ++ [⟨destination, b⟩] }

/-- Writes a body to the disk tier, if the disk can be written. -/
def ClientState.keep (writable : Hash → Bool) (s : ClientState) (b : ServedBody) : ClientState :=
  if writable b.action then
    { s.deliver .disk b with disk := ⟨b.action, b.output, b.data⟩ :: s.disk }
  else s

/-- The output that a text names. -/
def decodeOutputID (text : Bytes) : Option Hash :=
  (hexDecode text).bind toHash?

/-- The action that the key of an entry names. -/
def actionIDFromKey (keyPrefix : Bytes) (key : Key) : Option Bytes :=
  if key.length ≠ keyPrefix.length + 64 ∨ !keyPrefix.isPrefixOf key then none
  else
    let id := key.drop keyPrefix.length
    if (hexDecode id).isSome then some id else none

section Client

variable (sha256 : Sha256) (decompress : Decompress) (keyPrefix : Bytes)

/-- The body of an entry that the client has not asked for, if it passes the gates under the action
that its key names. -/
def populateBody (s : ClientState) (e : BatchEntry) : Option ServedBody :=
  match actionIDFromKey keyPrefix e.key with
  | none => none
  | some actionID =>
    match (hexDecode actionID).bind toHash? with
    | none => none
    | some id =>
      if (s.diskGet id).isSome then none
      else
        match verify sha256 decompress actionID e.outputID e.actionID e.data e.rawSize with
        | .error _ => none
        | .ok data =>
          match decodeOutputID e.outputID with
          | none => none
          | some out => some ⟨id, actionID, out, data, e.actionID⟩

/-- Stores one entry that the client has not asked for. -/
def populateEntry (writable : Hash → Bool) (s : ClientState) (e : BatchEntry) : ClientState :=
  match populateBody sha256 decompress keyPrefix s e with
  | none => s
  | some b => s.keep writable b

/-- Stores entries that the client has not asked for. -/
def populate (writable : Hash → Bool) (s : ClientState) (entries : List BatchEntry) :
    ClientState :=
  entries.foldl (populateEntry sha256 decompress keyPrefix writable) s

/-- Whether an unrequested entry of a batch passes the gates. -/
def admitPrefetched (e : BatchEntry) : Bool :=
  match actionIDFromKey keyPrefix e.key with
  | none => false
  | some actionID =>
    match verify sha256 decompress actionID e.outputID e.actionID e.data e.rawSize with
    | .error _ => false
    | .ok _ => true

/-- Stores the unrequested entries of a batch that pass the gates. -/
def storePrefetched (writable : Hash → Bool) (s : ClientState) (entries : List BatchEntry) :
    ClientState :=
  populate sha256 decompress keyPrefix writable s
    (entries.filter (admitPrefetched sha256 decompress keyPrefix))

/-- The requests of look-ups that share a batch; the position of a look-up stands for its reply
channel. -/
def lookupReqs (ids : List Hash) : List BatchReq :=
  ids.zipIdx.map fun (id, i) => ⟨hexEncode id.bytes, keyPrefix ++ hexEncode id.bytes, i⟩

/-- The end of a look-up of `id`: a hit is written to the disk tier and handed to the build from
there. -/
def getTiered (writable : Hash → Bool) (s : ClientState) (id : Hash) : BatchResp → ClientState
  | .miss => s
  | .hit outputID data storedAction =>
    match decodeOutputID outputID with
    | none => s
    | some out =>
      let b : ServedBody := ⟨id, hexEncode id.bytes, out, data, storedAction⟩
      let s := s.keep writable b
      if writable id then s.deliver .build b else s

/-- A reply arrives at the look-up that waits for it. -/
def onReply (writable : Hash → Bool) (ids : List Hash) (s : ClientState)
    (reply : ℕ × BatchResp) : ClientState :=
  match ids[reply.1]? with
  | none => s
  | some id => getTiered writable s id reply.2

end Client

/-- What the client does, with all that the server and the environment decide. -/
inductive ClientEvent where
  /-- Look-ups share a batch. `sink` tells which unrequested entries there is room for. -/
  | lookups (ids : List Hash) (answer : BatchAnswer) (individual : BatchReq → GetAnswer)
      (sink : BatchEntry → Bool) (writable : Hash → Bool)
  /-- A look-ahead window arrives, of which the first `n` entries are taken. -/
  | window (entries : List BatchEntry) (n : ℕ) (writable : Hash → Bool)
  /-- Entries that a manifest or the module fallback names arrive. -/
  | named (entries : List BatchEntry) (writable : Hash → Bool)
  /-- The build stores an output of its own. -/
  | put (entry : DiskEntry)

/-- The client after an event. -/
def ClientState.step (sha256 : Sha256) (decompress : Decompress) (keyPrefix : Bytes)
    (s : ClientState) : ClientEvent → ClientState
  | .lookups ids answer individual sink writable =>
    let run := sendBatch sha256 decompress (lookupReqs keyPrefix ids) individual answer
    let s := run.replies.foldl (onReply writable ids) s
    storePrefetched sha256 decompress keyPrefix writable s (run.unrequested.filter sink)
  | .window entries n writable =>
    populate sha256 decompress keyPrefix writable s (entries.take n)
  | .named entries writable => populate sha256 decompress keyPrefix writable s entries
  | .put entry => { s with disk := entry :: s.disk }

/-! ## Everything delivered is verified -/

section Gates

variable {sha256 : Sha256} {decompress : Decompress} {keyPrefix : Bytes}

/-- What passes the gates under an action and decodes to an output is gated. -/
lemma gated_of_verified {id out : Hash} {actionID outputID storedAction data : Bytes}
    (hid : hexDecode actionID = some id.bytes) (hout : decodeOutputID outputID = some out)
    (h : Verified sha256 actionID outputID storedAction data) :
    ServedBody.Gated sha256 ⟨id, actionID, out, data, storedAction⟩ := by
  have hdecode : hexDecode outputID = some (sha256 data).bytes := hexDecode_of_equalFold h.digest
  have hdigest : sha256 data = out := by
    rw [decodeOutputID, hdecode, Option.bind_some, toHash?, dif_pos (sha256 data).size] at hout
    exact Option.some.inj hout
  exact ⟨hid, hdigest, h.action, h.buildID, h.notModuleIndex⟩

lemma bytes_of_toHash? {bs : Bytes} {id : Hash} (h : toHash? bs = some id) : bs = id.bytes := by
  unfold toHash? at h
  split_ifs at h
  rw [← Option.some.inj h]

lemma gated_populateBody {s : ClientState} {e : BatchEntry} {b : ServedBody}
    (h : populateBody sha256 decompress keyPrefix s e = some b) : b.Gated sha256 := by
  unfold populateBody at h
  split at h
  · cases h
  next actionID _ =>
  split at h
  · cases h
  next id hid =>
  split_ifs at h
  split at h
  · cases h
  next data hdata =>
  split at h
  · cases h
  next out hout =>
  obtain rfl := Option.some.inj h
  obtain ⟨raw, hraw, hsize⟩ := Option.bind_eq_some_iff.mp hid
  rw [bytes_of_toHash? hsize] at hraw
  exact gated_of_verified hraw hout (verify_eq_ok_iff.mp hdata).2.2

/-- Every delivery so far is gated. -/
def ClientState.AllGated (sha256 : Sha256) (s : ClientState) : Prop :=
  ∀ d ∈ s.delivered, d.body.Gated sha256

lemma ClientState.AllGated.deliver {s : ClientState} (hs : s.AllGated sha256) {b : ServedBody}
    (hb : b.Gated sha256) (destination : Destination) :
    (s.deliver destination b).AllGated sha256 := by
  intro d hd
  rcases List.mem_append.mp hd with hd | hd
  · exact hs d hd
  · obtain rfl := List.mem_singleton.mp hd
    exact hb

lemma ClientState.AllGated.keep {s : ClientState} (hs : s.AllGated sha256) {b : ServedBody}
    (hb : b.Gated sha256) (writable : Hash → Bool) : (s.keep writable b).AllGated sha256 := by
  unfold ClientState.keep
  split_ifs
  · exact hs.deliver hb .disk
  · exact hs

/-- Storing unrequested entries delivers gated bodies only. -/
lemma ClientState.AllGated.populate {s : ClientState} (hs : s.AllGated sha256)
    (writable : Hash → Bool) (entries : List BatchEntry) :
    (populate sha256 decompress keyPrefix writable s entries).AllGated sha256 := by
  induction entries generalizing s with
  | nil => exact hs
  | cons e es ih =>
    refine ih ?_
    unfold populateEntry
    split
    · exact hs
    · next b hb => exact hs.keep (gated_populateBody hb) writable

/-! ## Replies -/

/-- The reply is a miss, or its body passes the gates under the action of the request. -/
def BatchResp.VerifiedFor (sha256 : Sha256) (actionID : Bytes) : BatchResp → Prop
  | .miss => True
  | .hit outputID data storedAction => Verified sha256 actionID outputID storedAction data

lemma verifiedFor_getIndividual (actionID : Bytes) (answer : GetAnswer) :
    (getIndividual sha256 decompress actionID answer).VerifiedFor sha256 actionID := by
  unfold getIndividual
  split
  · trivial
  · dsimp only
    split_ifs
    · trivial
    all_goals
      split
      · trivial
      · split
        · trivial
        · next data hdata => exact (verify_eq_ok_iff.mp hdata).2.2

lemma verifiedFor_replyTo (r : BatchReq) (e : BatchEntry) :
    (replyTo sha256 decompress r e).VerifiedFor sha256 r.actionID := by
  unfold replyTo
  split
  · trivial
  · next data hdata => exact (verify_eq_ok_iff.mp hdata).2.2

/-- Every reply is verified for a request of the batch, and every waiter is one. -/
structure BatchRun.Replied (sha256 : Sha256) (reqs : List BatchReq) (run : BatchRun) : Prop where
  /-- The waiters are requests of the batch. -/
  waiters : ∀ r ∈ run.waiters, r ∈ reqs
  /-- The replies are verified for requests of the batch. -/
  replies : ∀ p ∈ run.replies, ∃ r ∈ reqs, r.resp = p.1 ∧ p.2.VerifiedFor sha256 r.actionID

lemma BatchRun.Replied.onEntry {reqs : List BatchReq} {run : BatchRun}
    (h : run.Replied sha256 reqs) (e : BatchEntry) :
    (run.onEntry sha256 decompress e).Replied sha256 reqs := by
  unfold BatchRun.onEntry
  cases hfind : run.waiters.find? (·.key = e.key) with
  | none => exact ⟨h.waiters, h.replies⟩
  | some r =>
    refine ⟨fun x hx => h.waiters x (List.mem_of_mem_filter hx), fun p hp => ?_⟩
    rcases List.mem_append.mp hp with hp | hp
    · exact h.replies p hp
    · obtain rfl := List.mem_singleton.mp hp
      exact ⟨r, h.waiters r (List.mem_of_find?_eq_some hfind), rfl, verifiedFor_replyTo r e⟩

lemma BatchRun.Replied.foldl_onEntry {reqs : List BatchReq} {run : BatchRun}
    (h : run.Replied sha256 reqs) (entries : List BatchEntry) :
    (entries.foldl (BatchRun.onEntry sha256 decompress) run).Replied sha256 reqs := by
  induction entries generalizing run with
  | nil => exact h
  | cons e es ih => exact ih (h.onEntry e)

lemma BatchRun.Replied.replyAll {reqs : List BatchReq} {run : BatchRun}
    (h : run.Replied sha256 reqs) {reply : BatchReq → BatchResp}
    (hreply : ∀ r, (reply r).VerifiedFor sha256 r.actionID) :
    (run.replyAll reply).Replied sha256 reqs := by
  refine ⟨by simp [BatchRun.replyAll], fun p hp => ?_⟩
  rcases List.mem_append.mp hp with hp | hp
  · exact h.replies p hp
  · obtain ⟨r, hr, rfl⟩ := List.mem_map.mp hp
    exact ⟨r, h.waiters r hr, rfl, hreply r⟩

/-- Every reply of a batch is verified for the request it answers. -/
lemma replied_sendBatch (sha256 : Sha256) (decompress : Decompress) (reqs : List BatchReq)
    (individual : BatchReq → GetAnswer) (answer : BatchAnswer) :
    (sendBatch sha256 decompress reqs individual answer).Replied sha256 reqs := by
  have hstart : BatchRun.Replied sha256 reqs ⟨reqs, [], [], []⟩ := ⟨fun r hr => hr, by simp⟩
  have hmap : BatchRun.Replied sha256 reqs ⟨reqByKey reqs, [], [], []⟩ :=
    ⟨fun r hr => mem_of_mem_reqByKey hr, by simp⟩
  have hindividual : ∀ r : BatchReq,
      (getIndividual sha256 decompress r.actionID (individual r)).VerifiedFor sha256 r.actionID :=
    fun r => verifiedFor_getIndividual r.actionID (individual r)
  cases answer with
  | unsent => exact hstart.replyAll fun _ => trivial
  | failed => exact hstart.replyAll fun _ => trivial
  | response status entries cut =>
    simp only [sendBatch]
    split_ifs
    · exact hstart.replyAll hindividual
    · exact hstart.replyAll fun _ => trivial
    · exact (hmap.foldl_onEntry entries).replyAll hindividual
    · exact (hmap.foldl_onEntry entries).replyAll fun _ => trivial

/-- A request of the look-ups is for the look-up at its channel. -/
lemma getElem?_of_mem_lookupReqs {ids : List Hash} {r : BatchReq}
    (hr : r ∈ lookupReqs keyPrefix ids) :
    ∃ id, ids[r.resp]? = some id ∧ r.actionID = hexEncode id.bytes := by
  obtain ⟨⟨id, i⟩, hmem, rfl⟩ := List.mem_map.mp hr
  exact ⟨id, List.mem_zipIdx_iff_getElem?.mp hmem, rfl⟩

/-- The end of a look-up delivers gated bodies only. -/
lemma ClientState.AllGated.getTiered {s : ClientState} (hs : s.AllGated sha256) {id : Hash}
    {resp : BatchResp} (h : resp.VerifiedFor sha256 (hexEncode id.bytes))
    (writable : Hash → Bool) : (getTiered writable s id resp).AllGated sha256 := by
  cases resp with
  | miss => exact hs
  | hit outputID data storedAction =>
    cases hout : decodeOutputID outputID with
    | none => simpa only [GoBuildCache.getTiered, hout] using hs
    | some out =>
      have hb := gated_of_verified (hexDecode_hexEncode id.bytes) hout h
      simp only [GoBuildCache.getTiered, hout]
      split_ifs
      · exact (hs.keep hb writable).deliver hb .build
      · exact hs.keep hb writable

lemma ClientState.AllGated.foldl_onReply {s : ClientState} (hs : s.AllGated sha256)
    {ids : List Hash} {replies : List (ℕ × BatchResp)}
    (h : ∀ p ∈ replies, ∃ r ∈ lookupReqs keyPrefix ids,
      r.resp = p.1 ∧ p.2.VerifiedFor sha256 r.actionID) (writable : Hash → Bool) :
    (replies.foldl (onReply writable ids) s).AllGated sha256 := by
  induction replies generalizing s with
  | nil => exact hs
  | cons p ps ih =>
    refine ih ?_ fun q hq => h q (List.mem_cons_of_mem _ hq)
    obtain ⟨r, hr, hchannel, hverified⟩ := h p (List.mem_cons_self ..)
    obtain ⟨id, hid, haction⟩ := getElem?_of_mem_lookupReqs hr
    rw [onReply, ← hchannel, hid]
    exact hs.getTiered (haction ▸ hverified) writable

/-- Every event delivers gated bodies only. -/
lemma ClientState.AllGated.step {s : ClientState} (hs : s.AllGated sha256) (event : ClientEvent) :
    (s.step sha256 decompress keyPrefix event).AllGated sha256 := by
  cases event with
  | lookups ids answer individual sink writable =>
    have hreplied :=
      replied_sendBatch sha256 decompress (lookupReqs keyPrefix ids) individual answer
    exact (hs.foldl_onReply hreplied.replies writable).populate writable _
  | window entries n writable => exact hs.populate writable _
  | named entries writable => exact hs.populate writable _
  | put entry => exact hs

end Gates

/-- Whatever the server answers, every body that is handed to the build or written to the disk tier
has passed the gates, for the action and the output under which it is delivered. -/
theorem delivered_gated (sha256 : Sha256) (decompress : Decompress) (keyPrefix : Bytes)
    (disk : List DiskEntry) (events : List ClientEvent) :
    ∀ d ∈ (events.foldl (ClientState.step sha256 decompress keyPrefix) ⟨disk, []⟩).delivered,
      d.body.Gated sha256 := by
  have hrun : ∀ s : ClientState, s.AllGated sha256 →
      (events.foldl (ClientState.step sha256 decompress keyPrefix) s).AllGated sha256 := by
    induction events with
    | nil => exact fun s hs => hs
    | cons event events ih => exact fun s hs => ih _ (hs.step event)
  exact hrun ⟨disk, []⟩ (by simp [ClientState.AllGated])

/-- A look-up that the server answers with the entry asked for. -/
def answeredLookup : ClientEvent :=
  .lookups [zeroHash]
    (.response 200 [⟨hashKey zeroHash, hexEncode zeroHash.bytes, [], [], 0⟩] false)
    (fun _ => .failed) (fun _ => true) (fun _ => true)

/-- The entry goes to the disk tier and to the build, gated. -/
theorem delivered_gated_answeredLookup :
    ∃ s, [answeredLookup].foldl
        (ClientState.step zeroDigest (fun body _ => some body) gbciKeyPrefix) ⟨[], []⟩ = s ∧
      s.delivered.length = 2 ∧ ∀ d ∈ s.delivered, d.body.Gated zeroDigest := by
  refine ⟨_, rfl, by decide +kernel, ?_⟩
  exact delivered_gated zeroDigest (fun body _ => some body) gbciKeyPrefix [] [answeredLookup]

end GoBuildCache
