import GoBuildCache.Client.Verify
import GoBuildCache.Foundation.Table

/-!
# Uploads of a build

A build does not wait for its uploads. `Put` claims the action, tracks the upload in a map
(`pending`) and queues it; a worker prepares it (`prepare`), a coalescer sends it in a batch, and an
answer that confirms it takes it off the map, as does a guard that refuses it. At exit
`closeHandOff` aborts the requests under way, waits for the workers and then for the coalescer, and
writes what is still on the map to a spool (`pendingEntries`).

Workers, batches and `Close` run at the same time. Each claimed upload is in one stage
(`UploadStage`), whatever goroutine is at work on it, and a step (`step`) is one action of one of
them.
-/

open ByteString

namespace GoBuildCache

/-! ## Uploads -/

/-- The bytes of an action id, padded with zeros. -/
def padHash (bytes : Bytes) : Option Hash :=
  toHash? (bytes ++ List.replicate (32 - bytes.length) 0)

/-- The action that an action id names, which has at most 32 bytes. -/
def parseActionHash (actionID : Bytes) : Option Hash :=
  if actionID.length = 0 ∨ 64 < actionID.length ∨ actionID.length % 2 ≠ 0 then none
  else (hexDecode actionID).bind padHash

/-- An upload that has been claimed, with the action that it is tracked under. -/
structure PendingPut where
  /-- The action. -/
  hash : Hash
  /-- The action id. -/
  actionID : Bytes
  /-- The output id. -/
  outputID : Bytes
  /-- The file with the body; empty for `Put`. -/
  path : Bytes
  /-- The body; empty for `PutFile`. -/
  data : Bytes
  deriving DecidableEq

/-- One upload of a spool. -/
structure SpoolEntry where
  /-- The action id. -/
  actionID : Bytes
  /-- The output id. -/
  outputID : Bytes
  /-- The file with the body, if any. -/
  path : Bytes
  /-- The body, if there is no file. -/
  data : Bytes
  /-- Whether the uploader drops a stale claim first. -/
  replace : Bool
  deriving DecidableEq

/-- The entry of an upload. -/
def PendingPut.entry (p : PendingPut) : SpoolEntry :=
  ⟨p.actionID, p.outputID, p.path, p.data, false⟩

/-- A manifest that is to be stored. -/
structure ManifestWrite where
  /-- Its action id. -/
  id : Bytes
  /-- Its body. -/
  body : Bytes

/-- The entry of a manifest. -/
def ManifestWrite.entry (sha256 : Sha256) (w : ManifestWrite) : SpoolEntry :=
  ⟨w.id, hexEncode (sha256 w.body).bytes, [], w.body, true⟩

/-- Why an upload is given up. -/
inductive GiveUpReason where
  /-- Its body cannot be read. -/
  | unreadable
  /-- Its build id belongs to another action. -/
  | buildID
  /-- It is a module index. -/
  | moduleIndex
  /-- It cannot be compressed. -/
  | compress
  /-- The backend is closing, and there is nowhere to take it. -/
  | closing
  deriving DecidableEq

/-- How the preparation of an upload ends: it is given up, or its compressed body is ready. -/
abbrev Prepared : Type := Except GiveUpReason Bytes

/-- Reads, guards and compresses the body of an upload. `file` is what reading its file yields, and
`compress` is the compressor. -/
def prepare (p : PendingPut) (file : Option Bytes) (compress : Bytes → Option Bytes) : Prepared :=
  match if p.data = [] ∧ p.path ≠ [] then file else some p.data with
  | none => .error .unreadable
  | some data =>
    if (buildIDMatchesAction p.actionID data).2 = false then .error .buildID
    else if isGoModuleIndex data then .error .moduleIndex
    else
      match compress data with
      | none => .error .compress
      | some compressed => .ok compressed

/-- Only a backend that is closing gives an upload up because of that. -/
lemma prepare_ne_closing {p : PendingPut} {file : Option Bytes} {compress : Bytes → Option Bytes}
    {reason : GiveUpReason} (h : prepare p file compress = .error reason) : reason ≠ .closing := by
  rintro rfl
  unfold prepare at h
  repeat' split at h
  all_goals simp at h

/-! ## Answers -/

/-- The status of an object in the answer to a batch. -/
inductive PutStatus where
  | stored
  | dropped
  | conflict
  /-- Any other text. -/
  | error
  deriving DecidableEq

/-- What the server says about one key. -/
structure BatchPutResult where
  /-- The key. -/
  key : Key
  /-- The status. -/
  status : PutStatus

/-- The answer to a batch. -/
inductive BatchPutAnswer where
  /-- There is none: the tar or the request cannot be made, the request fails or is aborted, the
  server answers with another status, or the answer cannot be read or parsed. -/
  | failed
  /-- The server has no batches: 404 or 405. -/
  | unsupported
  /-- The results. -/
  | results (results : List BatchPutResult)

/-- The answer says that the server has no batches. -/
def BatchPutAnswer.isUnsupported : BatchPutAnswer → Bool
  | .unsupported => true
  | .failed | .results _ => false

/-- The result for a key; of several, the last one counts. -/
def resultByKey (results : List BatchPutResult) (key : Key) : Option PutStatus :=
  (results.reverse.find? (·.key = key)).map (·.status)

/-- Whether the answer confirms an object: the server stores it, has it or does not want it. -/
def confirms (results : List BatchPutResult) (key : Key) : Bool :=
  match resultByKey results key with
  | some .stored | some .conflict | some .dropped => true
  | some .error | none => false

/-! ## Stages -/

/-- Who sends an upload on its own. -/
inductive Sender where
  /-- A worker, because the server has no batches. -/
  | worker
  /-- A batch that the server did not accept. -/
  | batch
  deriving DecidableEq

/-- Where an upload is. -/
inductive UploadStage where
  /-- `enqueuePut` has claimed the action. -/
  | claimed
  /-- `enqueuePut` has tracked the upload, and submits it to the workers. -/
  | tracked
  /-- It waits for a worker. -/
  | queued
  /-- A worker has it, and asks whether the backend has been aborted. -/
  | started
  /-- A worker reads, guards and compresses it. -/
  | preparing
  /-- A worker has dropped its claim and gives it up. -/
  | dropping (reason : GiveUpReason)
  /-- A worker offers it to the coalescer. -/
  | offered
  /-- It is in the channel of the coalescer. -/
  | enqueued
  /-- The coalescer holds it for the next batch. -/
  | coalescing
  /-- It has been sent in a batch. -/
  | sending (batch : ℕ)
  /-- The answer of its batch is about to be noted. -/
  | answered (confirmed : Bool)
  /-- It is sent on its own. -/
  | single (sender : Sender)
  /-- Nobody is at work on it, and it has not been confirmed. -/
  | unconfirmed
  /-- An answer has confirmed it. -/
  | confirmed
  /-- It has been given up. -/
  | givenUp (reason : GiveUpReason)
  deriving DecidableEq

namespace UploadStage

/-- Who has the upload, in the order in which `closeHandOff` waits for them: a caller of `Put`, the
workers, the coalescer with its batches, nobody. -/
def holder : UploadStage → ℕ
  | claimed | tracked => 0
  | queued | started | preparing | dropping _ | offered | single .worker => 1
  | enqueued | coalescing | sending _ | answered _ | single .batch => 2
  | unconfirmed | confirmed | givenUp _ => 3

/-- The upload is on the map. -/
def isPending : UploadStage → Bool
  | claimed | confirmed | givenUp _ => false
  | _ => true

/-- The upload is neither confirmed nor given up on purpose. -/
def isOwed : UploadStage → Bool
  | confirmed | givenUp .unreadable | givenUp .buildID | givenUp .moduleIndex
  | givenUp .compress => false
  | _ => true

end UploadStage

/-- A claimed upload. -/
structure ClaimedPut where
  /-- The upload. -/
  put : PendingPut
  /-- Where it is. -/
  stage : UploadStage

/-- The part of a backend that uploads go through. -/
structure WebBackend where
  /-- The actions that are taken to be stored. -/
  keys : Hash → Bool
  /-- The map of unconfirmed uploads. -/
  pending : Table fun p : PendingPut => p.hash
  /-- All claimed uploads, with their stages. -/
  uploads : List ClaimedPut
  /-- How many batches have been sent. -/
  batches : ℕ
  /-- Whether the server is known to have no batches. -/
  batchPutUnsupported : Bool
  /-- Whether `closeHandOff` has aborted the requests. -/
  aborted : Bool
  /-- Whether the coalescer has been told to stop. -/
  putBatchStop : Bool
  /-- Whether the coalescer has stopped. -/
  putBatchDone : Bool
  /-- The spool, when it is written. -/
  spool : Option (List SpoolEntry)

namespace WebBackend

/-- The key of an action id. -/
def key (keyPrefix actionID : Bytes) : Key :=
  keyPrefix ++ ascii "v1" ++ actionID

/-- Records a claimed upload. -/
def track (b : WebBackend) (p : PendingPut) : WebBackend :=
  { b with pending := b.pending.put 0 p }

/-- Clears an upload. -/
def settle (b : WebBackend) (h : Hash) : WebBackend :=
  { b with pending := b.pending.erase h }

/-- Drops the claim of an action. -/
def removeClaimed (b : WebBackend) (h : Hash) : WebBackend :=
  { b with keys := Function.update b.keys h false }

/-- The entries of all unconfirmed uploads. -/
def pendingEntries (b : WebBackend) : List SpoolEntry :=
  b.pending.rows.map (·.entry)

/-- Moves an upload to another stage. -/
def move (b : WebBackend) (i : ℕ) (stage : UploadStage) : WebBackend :=
  { b with uploads := b.uploads.modify i fun u => { u with stage := stage } }

/-- Claims an action and takes in an upload, unless the action is known. -/
def enqueuePut (b : WebBackend) (actionID outputID data path : Bytes) : WebBackend :=
  match parseActionHash actionID with
  | none => b
  | some h =>
    if b.keys h then b
    else
      { b with
        keys := Function.update b.keys h true
        uploads := b.uploads ++ [⟨⟨h, actionID, outputID, path, data⟩, .claimed⟩] }

/-- What the goroutine that has an upload does next. -/
inductive Action where
  /-- `enqueuePut` tracks the upload. -/
  | track
  /-- `enqueuePut` submits the upload. -/
  | submit
  /-- A worker takes the upload. -/
  | start
  /-- The worker asks whether the backend has been aborted. -/
  | checkAbort
  /-- The worker reads, guards and compresses the body, and drops the claim of one it gives up. -/
  | prepare (file : Option Bytes) (compress : Bytes → Option Bytes)
  /-- The worker clears an upload that is given up. -/
  | drop
  /-- The coalescer takes the offer. -/
  | enqueue
  /-- It is seen that those to whom the upload is offered have been told to stop. -/
  | seeStop
  /-- The coalescer receives the upload. -/
  | receive
  /-- The batch notes the answer for the upload. -/
  | note
  /-- A PUT of the upload alone is answered; `ok` is a 200. -/
  | answerSingle (ok : Bool)

/-- What can happen. -/
inductive Label where
  /-- `Put` is called. -/
  | put (actionID outputID data : Bytes)
  /-- `PutFile` is called. -/
  | putFile (actionID outputID path : Bytes)
  /-- The set of known actions changes: the index arrives, or an action is found to be absent. -/
  | index (keys : Hash → Bool)
  /-- The goroutine that has the `i`-th upload goes on. -/
  | act (i : ℕ) (a : Action)
  /-- The coalescer sends what it holds. -/
  | flush
  /-- A batch is answered. -/
  | answer (batch : ℕ) (a : BatchPutAnswer)
  /-- `closeHandOff` aborts the requests under way. -/
  | abort
  /-- All workers have stopped, and the coalescer is told to stop. -/
  | stopCoalescer
  /-- The coalescer has stopped. -/
  | coalescerDone
  /-- The spool is written. -/
  | handOff (manifests : List ManifestWrite)

/-- The goroutine that has the `i`-th upload goes on; `none` if it cannot. -/
def advance (b : WebBackend) (i : ℕ) (u : ClaimedPut) : Action → Option WebBackend
  | .track => if u.stage = .claimed then some ((b.track u.put).move i .tracked) else none
  | .submit => if u.stage = .tracked then some (b.move i .queued) else none
  | .start => if u.stage = .queued then some (b.move i .started) else none
  | .checkAbort =>
    if u.stage = .started then
      some (b.move i (if b.aborted then .unconfirmed else .preparing))
    else none
  | .prepare file compress =>
    if u.stage = .preparing then
      match prepare u.put file compress with
      | .error reason => some ((b.removeClaimed u.put.hash).move i (.dropping reason))
      | .ok _ => some (b.move i (if b.batchPutUnsupported then .single .worker else .offered))
    else none
  | .drop =>
    match u.stage with
    | .dropping reason => some ((b.settle u.put.hash).move i (.givenUp reason))
    | _ => none
  | .enqueue => if u.stage = .offered then some (b.move i .enqueued) else none
  | .seeStop =>
    if u.stage = .offered ∧ b.putBatchStop = true ∨ u.stage = .tracked ∧ b.aborted = true then
      some ((b.removeClaimed u.put.hash).move i (.dropping .closing))
    else none
  | .receive => if u.stage = .enqueued then some (b.move i .coalescing) else none
  | .note =>
    match u.stage with
    | .answered true => some ((b.settle u.put.hash).move i .confirmed)
    | .answered false => some ((b.removeClaimed u.put.hash).move i .unconfirmed)
    | _ => none
  | .answerSingle ok =>
    match u.stage with
    | .single _ =>
      if ok then some ((b.settle u.put.hash).move i .confirmed)
      else some ((b.removeClaimed u.put.hash).move i .unconfirmed)
    | _ => none

/-- The coalescer sends the upload, if it holds it. -/
def flushed (batch : ℕ) (u : ClaimedPut) : ClaimedPut :=
  if u.stage = .coalescing then { u with stage := .sending batch } else u

/-- What an answer means for the uploads of its batch. -/
def answeredPut (keyPrefix : Bytes) (batch : ℕ) (a : BatchPutAnswer) (u : ClaimedPut) :
    ClaimedPut :=
  if u.stage = .sending batch then
    match a with
    | .failed => { u with stage := .answered false }
    | .unsupported => { u with stage := .single .batch }
    | .results results =>
      { u with stage := .answered (confirms results (key keyPrefix u.put.actionID)) }
  else u

/-- One step. All calls of `Put` return before `closeHandOff` starts. -/
def step (sha256 : Sha256) (keyPrefix : Bytes) (b : WebBackend) : Label → Option WebBackend
  | .put actionID outputID data =>
    if b.aborted then none else some (b.enqueuePut actionID outputID data [])
  | .putFile actionID outputID path =>
    if b.aborted then none
    else if path = [] then some b
    else some (b.enqueuePut actionID outputID [] path)
  | .index keys => some { b with keys := keys }
  | .act i a => b.uploads[i]?.bind fun u => b.advance i u a
  | .flush =>
    some { b with uploads := b.uploads.map (flushed b.batches), batches := b.batches + 1 }
  | .answer batch a =>
    some { b with
      uploads := b.uploads.map (answeredPut keyPrefix batch a)
      batchPutUnsupported := b.batchPutUnsupported || a.isUnsupported }
  | .abort =>
    if ∀ u ∈ b.uploads, 1 ≤ u.stage.holder then some { b with aborted := true } else none
  | .stopCoalescer =>
    if b.aborted = true ∧ ∀ u ∈ b.uploads, 2 ≤ u.stage.holder then
      some { b with putBatchStop := true }
    else none
  | .coalescerDone =>
    if b.putBatchStop = true ∧ ∀ u ∈ b.uploads, 3 ≤ u.stage.holder then
      some { b with putBatchDone := true }
    else none
  | .handOff manifests =>
    if b.putBatchDone then
      some { b with spool := some (b.pendingEntries ++ manifests.map (·.entry sha256)) }
    else none

/-- A backend that has uploaded nothing. -/
def start (keys : Hash → Bool) : WebBackend where
  keys := keys
  pending := .empty
  uploads := []
  batches := 0
  batchPutUnsupported := false
  aborted := false
  putBatchStop := false
  putBatchDone := false
  spool := none

end WebBackend

end GoBuildCache
