import GoBuildCache.Foundation.Transition
import GoBuildCache.Store.Objects

/-!
# Reading and overwriting one object

A single-object GET opens the file, loads the metadata through the metadata cache or from the path,
passes the module-index guard, checks the stored digest, repairs a missing output id, and sends the
body of the open file. A batch get stats the path first, does the same with private handles, and
opens the body last. An upload renames a new file over the path. A read that finds a module index or
a digest mismatch deletes the object.

The state of the object (`ObjectState`) is what these requests share: the inodes, the path, the
metadata cache and the two memos. `Request` is a request between two of its atomic steps, and
`Request.advance` is its next one. `ReadState.step` interleaves any number of requests.
-/

open ByteString Transition

namespace GoBuildCache

/-- What does not change while the server runs: the digest function, the decoders, and the key whose
object is read and overwritten. -/
structure ReadEnv where
  /-- The digest function. -/
  sha256 : Sha256
  /-- The decoders of the compression libraries. -/
  decoders : Decoders
  /-- The key. -/
  key : Key

/-- The key is a cacheprog key, the only kind that the guards and the self-heal apply to. -/
def ReadEnv.isCacheprog (env : ReadEnv) : Bool :=
  (extractActionHash env.key).isSome

/-- A file that an upload has renamed to the path. -/
structure Inode where
  /-- Its inode number. -/
  ino : ℕ
  /-- What the upload has stored in it. -/
  object : StoredObject

/-- `identityOf`: the identity of an open file. -/
def Inode.identity (f : Inode) : FileIdentity :=
  ⟨f.ino, f.object.info⟩

/-- What the requests for one key share, with a record of what they have done. -/
structure ObjectState where
  /-- Every version stored so far; the inode with number `i` is at index `i`. -/
  versions : List Inode
  /-- The metadata in the extended attributes of an inode. -/
  attrs : ℕ → Metadata
  /-- The inode at the path of the key. -/
  path : Option Inode
  /-- The entry of the key in the metadata cache. -/
  metaCache : Option MetaEntry
  /-- Whether the key is known to hold no module index. -/
  clean : Bool
  /-- The version whose digest is known to match. -/
  digestOK : Option FileIdentity
  /-- The bodies that reads have sent, with the metadata sent along. -/
  served : List (Bytes × Metadata)
  /-- The inodes that reads have unlinked. -/
  removed : List Inode

namespace ObjectState

/-- No object has been stored. -/
def empty : ObjectState :=
  ⟨[], fun _ => .empty, none, none, false, none, [], []⟩

/-- A new inode is renamed over the path. -/
def install (st : ObjectState) (o : StoredObject) : ObjectState :=
  let ino := st.versions.length
  { st with
    versions := st.versions ++ [⟨ino, o⟩]
    attrs := Function.update st.attrs ino o.md
    path := some ⟨ino, o⟩ }

/-- The file at hand: the one that is open, or the one that an open of the path finds. -/
def handle (st : ObjectState) (file : Option Inode) : Option Inode :=
  file.or st.path

/-- `getMetadata`: the metadata of the file at the path, which is empty if there is none. -/
def getMetadata (st : ObjectState) : Metadata :=
  match st.path with
  | none => .empty
  | some c => st.attrs c.ino

/-- The body of an open file is sent. -/
def serve (st : ObjectState) (f : Inode) (md : Metadata) : ObjectState :=
  { st with served := (f.object.body, md) :: st.served }

end ObjectState

/-- A request between two steps. A read carries the file that it has open, if it is a single-object
GET, and the metadata once it is loaded. -/
inductive Request where
  /-- The file is open or has been stat'ed; the metadata cache is next. -/
  | lookup (file : Option Inode) (info : FileInfo)
  /-- The cache does not know the file; the attributes at the path are next. -/
  | readAttrs (file : Option Inode) (info : FileInfo)
  /-- The metadata goes into the cache. -/
  | record (file : Option Inode) (info : FileInfo) (md : Metadata)
  /-- The memo of clean keys is next. -/
  | inspect (file : Option Inode) (md : Metadata)
  /-- The first bytes of the body are next. -/
  | peek (file : Option Inode) (md : Metadata)
  /-- The key goes into the memo of clean keys. -/
  | mark (file : Option Inode) (md : Metadata)
  /-- The memo of digests is next. -/
  | verify (f : Inode) (md : Metadata) (single : Bool)
  /-- The body is to be hashed. -/
  | hash (f : Inode) (md : Metadata) (single : Bool)
  /-- The version goes into the memo of digests. -/
  | remember (f : Inode) (md : Metadata) (single : Bool)
  /-- A missing output id is to be reconstructed. -/
  | repair (file : Option Inode) (md : Metadata)
  /-- The reconstructed output id is to be merged into the attributes of `f`. -/
  | stamp (file : Option Inode) (md : Metadata) (f : Inode) (outputID : Bytes)
  /-- The merged attributes are to be written. -/
  | write (file : Option Inode) (md : Metadata) (f : Inode) (outputID : Bytes) (attrs : Metadata)
  /-- The cached metadata of the repaired object is to be dropped. -/
  | forget (file : Option Inode) (md : Metadata)
  /-- A batch get opens the body. -/
  | openBody (md : Metadata)
  /-- The object is to be deleted. -/
  | evict
  /-- A deletion or an upload has changed the path; the memos are to be dropped. -/
  | forgetClean
  /-- A deletion or an upload has dropped the memos; the cached metadata is next. -/
  | forgetMeta

namespace Request

/-- A read has passed the module-index guard. -/
def guarded : Option Inode → Metadata → Request
  | some f, md => .verify f md true
  | none, md => .repair none md

/-- A read has the output id: a GET answers, a batch get opens the body. -/
def repaired (st : ObjectState) : Option Inode → Metadata → ObjectState × Option Request
  | some f, md => (st.serve f md, none)
  | none, md => (st, some (.openBody md))

/-- A read has passed the digest check: a GET goes on to the output id, a batch get streams. -/
def verified (st : ObjectState) (f : Inode) (md : Metadata) (single : Bool) :
    ObjectState × Option Request :=
  if single then (st, some (.repair (some f) md)) else (st.serve f md, none)

/-- Whether the digest memo is used: only for cacheprog keys with an output id. -/
def memo (env : ReadEnv) (md : Metadata) : Bool :=
  env.isCacheprog && md.get outputIDMetaKey ≠ []

/-- The next step of a request. With `fail` an access to the body of a file, or the write of its
attributes, fails. -/
def advance (env : ReadEnv) (st : ObjectState) (fail : Bool) :
    Request → ObjectState × Option Request
  | .lookup file info =>
    match st.metaCache with
    | none => (st, some (.readAttrs file info))
    | some e =>
      if e.info = info then (st, some (.inspect file e.md)) else (st, some (.readAttrs file info))
  | .readAttrs file info => (st, some (.record file info st.getMetadata))
  | .record file info md => ({ st with metaCache := some ⟨info, md⟩ }, some (.inspect file md))
  | .inspect file md =>
    if env.isCacheprog && !st.clean then (st, some (.peek file md))
    else (st, some (guarded file md))
  | .peek file md =>
    match st.handle file with
    | none => (st, some (guarded file md))
    | some f =>
      -- A body that cannot be read is a miss for a GET and no module index for a batch get.
      if fail then (st, if file.isSome then none else some (guarded file md))
      else if readIsModuleIndex env.decoders f.object.body (md.get compressionMetaKey) then
        (st, some .evict)
      else (st, some (.mark file md))
  | .mark file md => ({ st with clean := true }, some (guarded file md))
  | .verify f md single =>
    if memo env md && st.digestOK = some f.identity then verified st f md single
    else (st, some (.hash f md single))
  | .hash f md single =>
    if fail then (st, none)
    else if bodyMatchesStoredDigest env.sha256 f.object.body (md.get storedDigestMetaKey) then
      if memo env md then (st, some (.remember f md single)) else verified st f md single
    else (st, some .evict)
  | .remember f md single => verified { st with digestOK := some f.identity } f md single
  | .repair file md =>
    if md.get outputIDMetaKey ≠ [] ∨ env.isCacheprog = false then repaired st file md
    else
      match st.handle file with
      | none => (st, none)
      | some f =>
        if fail then (st, none)
        else
          match reconstructOutputID env.sha256 env.decoders f.object.body
              ((st.attrs f.ino).get storedDigestMetaKey) with
          | none => (st, none)
          | some outputID => (st, some (.stamp file md f outputID))
  | .stamp file md f outputID => (st, some (.write file md f outputID (st.attrs f.ino)))
  | .write file md f outputID attrs =>
    if fail then (st, none)
    else
      ({ st with
          attrs := Function.update st.attrs f.ino (attrs.set outputIDMetaKey outputID) },
        some (.forget file (md.set outputIDMetaKey outputID)))
  | .forget file md => repaired { st with metaCache := none } file md
  | .openBody md =>
    match st.path with
    | none => (st, none)
    | some f => if fail then (st, none) else (st, some (.verify f md false))
  | .evict =>
    match st.path with
    | none => (st, none)
    | some c =>
      if fail then (st, none)
      else ({ st with path := none, removed := c :: st.removed }, some .forgetClean)
  | .forgetClean => ({ st with clean := false, digestOK := none }, some .forgetMeta)
  | .forgetMeta => ({ st with metaCache := none }, none)

/-- A read that will look at the path again before it has all that it sends: its metadata, or, in a
batch get, its body. -/
def awaitsPath : Request → Bool
  | .lookup .. | .readAttrs .. | .openBody _ => true
  | .record file .. | .inspect file _ | .peek file _ | .mark file _ | .repair file _
  | .stamp file .. | .write file .. | .forget file _ => file.isNone
  | .verify .. | .hash .. | .remember .. | .evict | .forgetClean | .forgetMeta => false

/-- A GET that has opened the file and not loaded its metadata. -/
def awaitsMetadata : Request → Bool
  | .lookup file _ | .readAttrs file _ => file.isSome
  | _ => false

/-- The file for which the request is about to record metadata in the cache. -/
def recording : Request → Option FileInfo
  | .record _ info _ => some info
  | _ => none

/-- A read that is about to delete the object. -/
def evicts : Request → Bool
  | .evict => true
  | _ => false

end Request

/-- The object and the requests in progress. -/
structure ReadState where
  /-- The state of the object. -/
  object : ObjectState
  /-- The requests in progress. -/
  requests : List Request

namespace ReadState

/-- What can happen. -/
inductive Label where
  /-- A single-object GET opens the file. -/
  | get
  /-- A batch get stats the path. -/
  | batchGet
  /-- An upload renames its file over the path. -/
  | rename (o : StoredObject)
  /-- The `i`-th request takes its next step. -/
  | advance (i : ℕ) (fail : Bool)
  /-- The metadata cache evicts the entry of the key. -/
  | expireMeta
  /-- The memo of clean keys evicts the key. -/
  | expireClean
  /-- The memo of digests evicts the key. -/
  | expireDigest

/-- The requests after the `i`-th one has taken a step. -/
def replace (requests : List Request) (i : ℕ) : Option Request → List Request
  | none => requests.eraseIdx i
  | some r => requests.set i r

/-- One step. Requests for a key without a file end at once. -/
def step (env : ReadEnv) (s : ReadState) : Label → Option ReadState
  | .get =>
    s.object.path.map fun f =>
      { s with requests := s.requests ++ [.lookup (some f) f.object.info] }
  | .batchGet =>
    s.object.path.map fun f => { s with requests := s.requests ++ [.lookup none f.object.info] }
  | .rename o => some ⟨s.object.install o, s.requests ++ [.forgetClean]⟩
  | .advance i fail =>
    s.requests[i]?.map fun r =>
      let next := r.advance env s.object fail
      ⟨next.1, replace s.requests i next.2⟩
  | .expireMeta => some { s with object := { s.object with metaCache := none } }
  | .expireClean => some { s with object := { s.object with clean := false } }
  | .expireDigest => some { s with object := { s.object with digestOK := none } }

/-- A server that has just started, with an object or none at the path. -/
def start (object : Option StoredObject) : ReadState :=
  ⟨object.elim .empty ObjectState.empty.install, []⟩

/-- The step does not change the path under a read that will look at it again. A rename waits for
the GETs that have opened the file and not loaded its metadata, and for the batch gets that have not
opened the body; and no metadata is cached, or about to be, for a file with the modification time
and the size of the new one. A deletion waits for the GETs alone. -/
def Undisturbed (s : ReadState) : Label → Prop
  | .rename o =>
    (∀ r ∈ s.requests, r.awaitsPath = false ∧ r.recording ≠ some o.info) ∧
      ∀ e ∈ s.object.metaCache, e.info ≠ o.info
  | .advance i _ =>
    ∀ r ∈ s.requests[i]?, r.evicts = true → ∀ r' ∈ s.requests, r'.awaitsMetadata = false
  | _ => True

instance (s : ReadState) : (l : Label) → Decidable (s.Undisturbed l)
  | .rename o => inferInstanceAs (Decidable
      ((∀ r ∈ s.requests, r.awaitsPath = false ∧ r.recording ≠ some o.info) ∧
        ∀ e ∈ s.object.metaCache, e.info ≠ o.info))
  | .advance i _ => inferInstanceAs (Decidable
      (∀ r ∈ s.requests[i]?, r.evicts = true → ∀ r' ∈ s.requests, r'.awaitsMetadata = false))
  | .get | .batchGet | .expireMeta | .expireClean | .expireDigest => isTrue trivial

end ReadState

end GoBuildCache
