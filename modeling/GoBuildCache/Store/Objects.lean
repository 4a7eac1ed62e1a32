import GoBuildCache.Key
import GoBuildCache.Store.Codec

/-!
# Stored objects

A version of an object is a body with the metadata of the upload that stored it. The metadata may
carry the digest of the stored bytes, which a read compares with them
(`bodyMatchesStoredDigest`), and the output id, which is the digest of the decompressed body; a read
that misses it reconstructs it (`reconstructOutputID`). Metadata *describes* a version if it is that
of its upload, up to a reconstructed output id.
-/

open ByteString

namespace GoBuildCache

/-- The metadata of an object: `map[string]string`. -/
def Metadata : Type := Bytes → Option Bytes

namespace Metadata

/-- No metadata. -/
def empty : Metadata := fun _ => none

/-- The value of a field, which is empty if the field is absent. -/
def get (md : Metadata) (field : Bytes) : Bytes :=
  (md field).getD []

/-- The metadata with a field set. -/
def set (md : Metadata) (field value : Bytes) : Metadata :=
  Function.update md field (some value)

@[simp]
lemma set_set (md : Metadata) (field v w : Bytes) :
    (md.set field v).set field w = md.set field w :=
  Function.update_idem ..

lemma get_set_of_ne {field field' : Bytes} (hne : field' ≠ field) (md : Metadata) (v : Bytes) :
    (md.set field v).get field' = md.get field' :=
  congrArg (Option.getD · []) (Function.update_of_ne hne _ _)

end Metadata

/-- The field with the digest of the bytes as stored. -/
def storedDigestMetaKey : Bytes := ascii "storedsha256"

/-- The field with the content address of the object. -/
def outputIDMetaKey : Bytes := ascii "outputid"

/-- The field with the codec of the body. -/
def compressionMetaKey : Bytes := ascii "compression"

/-- A version of an object: what one upload stores under a key. -/
structure StoredObject where
  /-- The bytes of the file. -/
  body : Bytes
  /-- The modification time of the file in nanoseconds. -/
  modNano : ℤ
  /-- The metadata of the upload. -/
  md : Metadata

/-- The part of a stat result that identifies cached metadata. -/
structure FileInfo where
  /-- The modification time in nanoseconds. -/
  modNano : ℤ
  /-- The size. -/
  size : ℕ
  deriving DecidableEq

/-- An entry of the metadata cache. -/
structure MetaEntry where
  /-- The file that the entry is for. -/
  info : FileInfo
  /-- The cached metadata. -/
  md : Metadata

/-- What names one version of a stored file. -/
structure FileIdentity where
  /-- The inode number. -/
  ino : ℕ
  /-- The size and the modification time. -/
  info : FileInfo
  deriving DecidableEq

/-- The stat result of a version. -/
def StoredObject.info (o : StoredObject) : FileInfo :=
  ⟨o.modNano, o.body.length⟩

/-- Whether a body hashes to the digest recorded for it. No digest is no claim. -/
def bodyMatchesStoredDigest (sha256 : Sha256) (body want : Bytes) : Bool :=
  if want = [] then true else equalFold want (hexEncode (sha256 body).bytes)

/-- The content address of a body: the digest of what it decompresses to. -/
def contentID (sha256 : Sha256) (dec : Decoders) (body : Bytes) : Option Bytes :=
  (decompressBody dec body).map fun data => hexEncode (sha256 data).bytes

/-- The output id of a body, unless the body disagrees with the digest recorded for it. -/
def reconstructOutputID (sha256 : Sha256) (dec : Decoders) (body digest : Bytes) : Option Bytes :=
  if bodyMatchesStoredDigest sha256 body digest then contentID sha256 dec body else none

lemma contentID_of_reconstructOutputID {sha256 : Sha256} {dec : Decoders} {body digest id : Bytes}
    (h : reconstructOutputID sha256 dec body digest = some id) :
    contentID sha256 dec body = some id :=
  (Option.ite_none_right_eq_some.mp h).2

namespace StoredObject

/-- The bytes of the version hash to the digest in its own metadata. -/
def Intact (sha256 : Sha256) (o : StoredObject) : Prop :=
  equalFold (o.md.get storedDigestMetaKey) (hexEncode (sha256 o.body).bytes) = true

instance (sha256 : Sha256) (o : StoredObject) : Decidable (o.Intact sha256) :=
  inferInstanceAs (Decidable (_ = true))

/-- The version is a module index, under its own compression hint. -/
def isModuleIndex (dec : Decoders) (o : StoredObject) : Bool :=
  readIsModuleIndex dec o.body (o.md.get compressionMetaKey)

/-- The version is one that no read should refuse. -/
def Sound (sha256 : Sha256) (dec : Decoders) (o : StoredObject) : Prop :=
  o.Intact sha256 ∧ o.isModuleIndex dec = false

instance (sha256 : Sha256) (dec : Decoders) (o : StoredObject) : Decidable (o.Sound sha256 dec) :=
  inferInstanceAs (Decidable (_ ∧ _))

/-- Metadata is that of the version, up to an output id reconstructed from its body. -/
def Describes (sha256 : Sha256) (dec : Decoders) (md : Metadata) (o : StoredObject) : Prop :=
  md = o.md ∨ ∃ id, contentID sha256 dec o.body = some id ∧ md = o.md.set outputIDMetaKey id

variable {sha256 : Sha256} {dec : Decoders} {md : Metadata} {o : StoredObject}

/-- A reconstructed output id may be added any number of times. -/
lemma Describes.set (h : Describes sha256 dec md o) {id : Bytes}
    (hid : contentID sha256 dec o.body = some id) :
    Describes sha256 dec (md.set outputIDMetaKey id) o := by
  rcases h with rfl | ⟨id', -, rfl⟩
  · exact Or.inr ⟨id, hid, rfl⟩
  · exact Or.inr ⟨id, hid, Metadata.set_set ..⟩

/-- Every other field is that of the version. -/
lemma Describes.get_of_ne (h : Describes sha256 dec md o) {field : Bytes}
    (hne : field ≠ outputIDMetaKey) : md.get field = o.md.get field := by
  rcases h with rfl | ⟨id, -, rfl⟩
  · rfl
  · exact Metadata.get_set_of_ne hne ..

/-- An intact version passes the digest check under any metadata that describes it. -/
lemma Describes.bodyMatchesStoredDigest (h : Describes sha256 dec md o)
    (hintact : o.Intact sha256) :
    bodyMatchesStoredDigest sha256 o.body (md.get storedDigestMetaKey) = true := by
  have hget : md.get storedDigestMetaKey = o.md.get storedDigestMetaKey :=
    h.get_of_ne (by decide)
  unfold GoBuildCache.bodyMatchesStoredDigest
  rw [hget]
  split_ifs
  · rfl
  · exact hintact

/-- Any metadata that describes a version leads the module-index guard to the same verdict. -/
lemma Describes.readIsModuleIndex (h : Describes sha256 dec md o) :
    readIsModuleIndex dec o.body (md.get compressionMetaKey) = o.isModuleIndex dec := by
  have hget : md.get compressionMetaKey = o.md.get compressionMetaKey :=
    h.get_of_ne (by decide)
  rw [hget, isModuleIndex]

end StoredObject

end GoBuildCache
