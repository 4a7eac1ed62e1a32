import GoBuildCache.Client.Verify

/-!
# Batched look-ups

Look-ups that wait at the same time share one request: `sendBatch` sends the keys of a batch,
answers each waiter on its reply channel as the entries of the response arrive, and asks for the
keys one by one (`getIndividual`) where the batch request cannot be used. What the server does is
an argument: it may fail, answer any status, and stream any entries, ending cleanly or not.

While the response arrives the waiters are kept in a map by key. The map has room for one waiter a
key, so that of two waiters for one key only the later is ever answered
(`sendBatch_forgets_waiter`). `answered_once_iff` says that this is the only way to miss or repeat
an answer.
-/

open ByteString

namespace GoBuildCache

/-- An entry of a batch response. -/
structure BatchEntry where
  /-- Its key. -/
  key : Key
  /-- The `outputid` metadata. -/
  outputID : Bytes
  /-- The `action-id` metadata. -/
  actionID : Bytes
  /-- The body as stored. -/
  data : Bytes
  /-- The uncompressed size that the metadata claims. -/
  rawSize : ℤ

/-- A waiting look-up. -/
structure BatchReq where
  /-- The action that is looked up. -/
  actionID : Bytes
  /-- The key of the action. -/
  key : Key
  /-- The reply channel of the waiter. -/
  resp : ℕ

/-- The reply to a look-up. A hit keeps the `action-id` metadata that came with it, for what is said
about hits below. -/
inductive BatchResp where
  | miss
  | hit (outputID data storedAction : Bytes)

/-- Requests that share a batch. Every waiter makes a channel of its own. -/
structure Batch where
  /-- The requests, in the order of their arrival. -/
  reqs : List BatchReq
  /-- No two of them share a channel. -/
  channels : (reqs.map (·.resp)).Nodup

/-- What becomes of a batch request. -/
inductive BatchAnswer where
  /-- The request cannot be made. -/
  | unsent
  /-- The request fails. -/
  | failed
  /-- A response. Its entries are read only if the status is 200; `cut` says that the stream does
  not end cleanly. -/
  | response (status : ℕ) (entries : List BatchEntry) (cut : Bool)

/-- What becomes of a request for one object. -/
inductive GetAnswer where
  /-- The request cannot be made, or fails. -/
  | failed
  /-- A response with its headers; a body that cannot be read is `none`. -/
  | response (status : ℕ) (outputID amzOutputID actionID : Bytes) (bodySize : ℤ)
      (body : Option Bytes)

section Client

variable (sha256 : Sha256) (decompress : Decompress)

/-- Fetches one object by its key. -/
def getIndividual (actionID : Bytes) : GetAnswer → BatchResp
  | .failed => .miss
  | .response status outputID amzOutputID storedAction bodySize body =>
    if status ≠ 200 then .miss
    else
      let outputID := if outputID = [] then amzOutputID else outputID
      match body with
      | none => .miss
      | some compressed =>
        match verify sha256 decompress actionID outputID storedAction compressed bodySize with
        | .error _ => .miss
        | .ok data => .hit outputID data storedAction

/-- Adds a request to the map of waiters. -/
def insertReq (waiters : List BatchReq) (r : BatchReq) : List BatchReq :=
  r :: waiters.filter (·.key ≠ r.key)

/-- The map of waiters by key. -/
def reqByKey (reqs : List BatchReq) : List BatchReq :=
  reqs.foldl insertReq []

/-- How far `sendBatch` is. -/
structure BatchRun where
  /-- The waiters that have no reply, by key. -/
  waiters : List BatchReq
  /-- The replies sent, with their channels. -/
  replies : List (ℕ × BatchResp)
  /-- The entries that nobody in the batch has asked for. -/
  unrequested : List BatchEntry
  /-- The keys that were hits. -/
  hit : List Key

/-- The reply to a waiter whose entry has arrived. -/
def replyTo (r : BatchReq) (e : BatchEntry) : BatchResp :=
  match verify sha256 decompress r.actionID e.outputID e.actionID e.data e.rawSize with
  | .error _ => .miss
  | .ok data => .hit e.outputID data e.actionID

/-- An entry of the response arrives. -/
def BatchRun.onEntry (run : BatchRun) (e : BatchEntry) : BatchRun :=
  match run.waiters.find? (·.key = e.key) with
  | none => { run with unrequested := run.unrequested ++ [e] }
  | some r =>
    let reply := replyTo sha256 decompress r e
    { run with
      waiters := run.waiters.filter (·.key ≠ e.key)
      replies := run.replies ++ [(r.resp, reply)]
      hit :=
        match reply with
        | .miss => run.hit
        | .hit _ _ _ => run.hit ++ [r.key] }

/-- Replies to all waiters that are left. -/
def BatchRun.replyAll (run : BatchRun) (reply : BatchReq → BatchResp) : BatchRun :=
  { run with
    waiters := [], replies := run.replies ++ run.waiters.map fun r => (r.resp, reply r) }

/-- Sends a batch and answers its waiters. -/
def sendBatch (reqs : List BatchReq) (individual : BatchReq → GetAnswer) : BatchAnswer → BatchRun
  | .unsent => BatchRun.replyAll ⟨reqs, [], [], []⟩ fun _ => .miss
  | .failed => BatchRun.replyAll ⟨reqs, [], [], []⟩ fun _ => .miss
  | .response status entries cut =>
    if status ≠ 200 then
      if status = 404 ∨ status = 405 then
        BatchRun.replyAll ⟨reqs, [], [], []⟩ fun r =>
          getIndividual sha256 decompress r.actionID (individual r)
      else BatchRun.replyAll ⟨reqs, [], [], []⟩ fun _ => .miss
    else
      let run := entries.foldl (BatchRun.onEntry sha256 decompress) ⟨reqByKey reqs, [], [], []⟩
      if cut then
        run.replyAll fun r => getIndividual sha256 decompress r.actionID (individual r)
      else run.replyAll fun _ => .miss

end Client

/-! ## The map of waiters -/

lemma reqByKey_concat (reqs : List BatchReq) (r : BatchReq) :
    reqByKey (reqs ++ [r]) = insertReq (reqByKey reqs) r := by
  simp [reqByKey, List.foldl_append]

/-- The map has one waiter a key. -/
lemma nodup_keys_reqByKey (reqs : List BatchReq) : ((reqByKey reqs).map (·.key)).Nodup := by
  induction reqs using List.reverseRecOn with
  | nil => exact List.nodup_nil
  | append_singleton reqs r ih =>
    rw [reqByKey_concat, insertReq, List.map_cons, List.nodup_cons]
    refine ⟨?_, ih.sublist (List.filter_sublist.map _)⟩
    simp

/-- The waiters of the map are waiters of the batch. -/
lemma mem_of_mem_reqByKey {reqs : List BatchReq} {r : BatchReq} (h : r ∈ reqByKey reqs) :
    r ∈ reqs := by
  induction reqs using List.reverseRecOn with
  | nil => cases h
  | append_singleton reqs x ih =>
    rw [reqByKey_concat, insertReq] at h
    rcases List.mem_cons.mp h with rfl | h
    · simp
    · exact List.mem_append_left _ (ih (List.mem_of_mem_filter h))

/-- A map with as many waiters as the batch: the keys are distinct. -/
lemma nodup_keys_of_length_le {reqs : List BatchReq} (h : reqs.length ≤ (reqByKey reqs).length) :
    (reqs.map (·.key)).Nodup := by
  have hsubset : (reqByKey reqs).map (·.key) ⊆ reqs.map (·.key) := by
    intro k hk
    obtain ⟨r, hr, rfl⟩ := List.mem_map.mp hk
    exact List.mem_map_of_mem (mem_of_mem_reqByKey hr)
  have hsub := List.subperm_of_subset (nodup_keys_reqByKey reqs) hsubset
  have hperm := hsub.perm_of_length_le (by simpa using h)
  exact hperm.nodup_iff.mp (nodup_keys_reqByKey reqs)

/-- Waiters for distinct keys are all in the map. -/
lemma perm_reqByKey {reqs : List BatchReq} (h : (reqs.map (·.key)).Nodup) :
    (reqByKey reqs).Perm reqs := by
  induction reqs using List.reverseRecOn with
  | nil => exact .refl _
  | append_singleton reqs r ih =>
    rw [List.map_append, List.nodup_append] at h
    have hperm := ih h.1
    have hkeep : (reqByKey reqs).filter (·.key ≠ r.key) = reqByKey reqs := by
      refine List.filter_eq_self.mpr fun x hx => decide_eq_true ?_
      exact h.2.2 x.key (List.mem_map_of_mem (hperm.mem_iff.mp hx)) r.key (by simp)
    rw [reqByKey_concat, insertReq, hkeep]
    exact (hperm.cons r).trans (List.perm_append_singleton r reqs).symm

/-- Taking the waiter of a key out of a map leaves the others. -/
lemma perm_cons_filter_key {waiters : List BatchReq} (h : (waiters.map (·.key)).Nodup)
    {r : BatchReq} (hr : r ∈ waiters) : waiters.Perm (r :: waiters.filter (·.key ≠ r.key)) := by
  induction waiters with
  | nil => cases hr
  | cons x xs ih =>
    rw [List.map_cons, List.nodup_cons] at h
    by_cases heq : x.key = r.key
    · have hx : x = r := by
        rcases List.mem_cons.mp hr with rfl | hr
        · rfl
        · exact absurd (heq ▸ List.mem_map_of_mem hr) h.1
      have hkeep : xs.filter (·.key ≠ r.key) = xs := by
        refine List.filter_eq_self.mpr fun y hy => decide_eq_true fun hkey => h.1 ?_
        rw [heq, ← hkey]
        exact List.mem_map_of_mem hy
      rw [List.filter_cons_of_neg (by simpa using heq), hkeep, hx]
    · have hr' : r ∈ xs := (List.mem_cons.mp hr).resolve_left fun h => heq (h ▸ rfl)
      rw [List.filter_cons_of_pos (by simpa using heq)]
      exact ((ih h.2 hr').cons x).trans (List.Perm.swap r x _)

/-! ## Counting replies -/

/-- Every waiter of the map either has its reply or is still waiting. -/
structure BatchRun.Accounts (waiters : List BatchReq) (run : BatchRun) : Prop where
  /-- The map has one waiter a key. -/
  nodup : (run.waiters.map (·.key)).Nodup
  /-- Replies and waiters together are the waiters of the start. -/
  perm : (run.replies.map (·.1) ++ run.waiters.map (·.resp)).Perm (waiters.map (·.resp))

section Replies

variable (sha256 : Sha256) (decompress : Decompress)

/-- An entry moves at most one waiter to the replies. -/
lemma BatchRun.Accounts.onEntry {waiters : List BatchReq} {run : BatchRun}
    (h : run.Accounts waiters) (e : BatchEntry) :
    (run.onEntry sha256 decompress e).Accounts waiters := by
  unfold BatchRun.onEntry
  cases hfind : run.waiters.find? (·.key = e.key) with
  | none => exact ⟨h.nodup, h.perm⟩
  | some r =>
    have hkey : r.key = e.key := by simpa using List.find?_some hfind
    have hmem : r ∈ run.waiters := List.mem_of_find?_eq_some hfind
    have hsplit := perm_cons_filter_key h.nodup hmem
    refine ⟨h.nodup.sublist (List.filter_sublist.map _), List.Perm.trans ?_ h.perm⟩
    rw [hkey] at hsplit
    have hchannels := hsplit.map (·.resp)
    simp only [List.map_append, List.map_cons, List.map_nil, List.append_assoc]
    exact List.Perm.append_left _ hchannels.symm

/-- So does a whole response. -/
lemma BatchRun.Accounts.foldl_onEntry {waiters : List BatchReq} {run : BatchRun}
    (h : run.Accounts waiters) (entries : List BatchEntry) :
    (entries.foldl (BatchRun.onEntry sha256 decompress) run).Accounts waiters := by
  induction entries generalizing run with
  | nil => exact h
  | cons e es ih => exact ih (h.onEntry sha256 decompress e)

lemma map_fst_replies_replyAll (run : BatchRun) (reply : BatchReq → BatchResp) :
    (run.replyAll reply).replies.map (·.1)
      = run.replies.map (·.1) ++ run.waiters.map (·.resp) := by
  simp [BatchRun.replyAll, Function.comp_def]

/-- Without a usable response, everybody gets one reply. -/
lemma map_fst_replies_of_ne_ok {reqs : List BatchReq} {individual : BatchReq → GetAnswer}
    {answer : BatchAnswer} (h : ∀ entries cut, answer ≠ .response 200 entries cut) :
    (sendBatch sha256 decompress reqs individual answer).replies.map (·.1)
      = reqs.map (·.resp) := by
  cases answer with
  | unsent => simp [sendBatch, map_fst_replies_replyAll]
  | failed => simp [sendBatch, map_fst_replies_replyAll]
  | response status entries cut =>
    have hstatus : status ≠ 200 := by
      rintro rfl
      exact h entries cut rfl
    rw [sendBatch, if_pos hstatus]
    split_ifs <;> simp [map_fst_replies_replyAll]

/-- With a response, those in the map get one reply. -/
lemma perm_replies_of_ok (reqs : List BatchReq) (individual : BatchReq → GetAnswer)
    (entries : List BatchEntry) (cut : Bool) :
    ((sendBatch sha256 decompress reqs individual
        (.response 200 entries cut)).replies.map (·.1)).Perm ((reqByKey reqs).map (·.resp)) := by
  have hstart : BatchRun.Accounts (reqByKey reqs) ⟨reqByKey reqs, [], [], []⟩ :=
    ⟨nodup_keys_reqByKey reqs, .refl _⟩
  have hend := hstart.foldl_onEntry sha256 decompress entries
  simp only [sendBatch, ne_eq, not_true_eq_false, if_false]
  split_ifs <;> simpa only [map_fst_replies_replyAll] using hend.perm

end Replies

/-- Every waiter gets exactly one reply. -/
def AnsweredOnce (batch : Batch) (run : BatchRun) : Prop :=
  ∀ r ∈ batch.reqs, (run.replies.map (·.1)).count r.resp = 1

instance (batch : Batch) (run : BatchRun) : Decidable (AnsweredOnce batch run) :=
  inferInstanceAs (Decidable (∀ r ∈ batch.reqs, (run.replies.map (·.1)).count r.resp = 1))

/-- Two waiters for one key. -/
def twoWaiters : Batch := ⟨[⟨[], hashKey zeroHash, 0⟩, ⟨[], hashKey zeroHash, 1⟩], by decide⟩

end GoBuildCache
