import GoBuildCache.Store.AttrCodec
import GoBuildCache.Store.PutCalls

/-!
# Attributes that do not fit

An extended attribute holds a limited number of bytes. When the value of an object's attributes does
not fit, `writeObjAttrs` drops the audit fields, and then the optional metadata with the longest
value, one after the other, until it fits or nothing optional is left.

Metadata come from the headers of an upload, and a header may name the empty field. `writeObjAttrs`
takes the empty field for the sign that nothing is left, and gives up although dropping it would be
enough (`writeObjAttrs_gives_up`). Without such a field it drops only what it must
(`writeObjAttrs_drops_longest`).
-/

open ByteString Checked

namespace GoBuildCache

/-- The fields of a map, as a function. -/
def StringMap.toMetadata (kv : StringMap) : Metadata :=
  fun k => kv.lookup k

/-- What `writeObjAttrs` has done. -/
structure AttrWritten where
  /-- The value that the attribute holds now, if one was accepted; none is an error. -/
  stored : Option Bytes
  /-- The names of the fields that were dropped, in their order. -/
  dropped : List Bytes
  deriving DecidableEq

/-- A value is accepted if it has at most `limit` bytes; otherwise there is no space. -/
def setter (limit : ℕ) (value : Bytes) : Option Bytes :=
  if value.length ≤ limit then some value else none

/-- The field to be dropped next: the optional one with the longest value. The empty field stands
for none. -/
def longestKey (order : MapOrder Bytes) (md : StringMap) : Bytes :=
  longestField (StringMap.toMetadata md) (order.values md.keys)

/-- Drops metadata until the value is accepted; each round lists the map anew. -/
def dropMetadata (order : ℕ → MapOrder Bytes) (limit : ℕ) :
    ℕ → Option Bytes → StringMap → List Bytes → Checked AttrWritten
  | fuel, stored, md, dropped =>
    if stored.isSome then .ok ⟨stored, dropped⟩
    else
      let longest := longestKey (order fuel) md
      if longest = [] then .ok ⟨stored, dropped⟩
      else
        match fuel with
        | 0 => .error .unfinished
        | fuel + 1 =>
          let md := md.erase longest
          dropMetadata order limit fuel (setter limit (encodeObjAttrs ⟨md, ∅⟩)) md
            (dropped ++ [longest])

/-- Stores attributes, without those that do not fit. -/
def ObjAttrMaps.writeObjAttrs (order : ℕ → MapOrder Bytes) (auditOrder : MapOrder Bytes)
    (limit : ℕ) (attrs : ObjAttrMaps) : Checked AttrWritten :=
  let stored := setter limit (encodeObjAttrs attrs)
  if stored.isSome then .ok ⟨stored, []⟩
  else
    let dropped := (auditOrder.values attrs.audit.keys).map (ascii "audit." ++ ·)
    let stored :=
      if 0 < attrs.audit.keys.card then setter limit (encodeObjAttrs ⟨attrs.md, ∅⟩) else stored
    dropMetadata order limit attrs.md.keys.card stored attrs.md dropped

/-! ## The longest field -/

section Longest

variable {md : Metadata} {fields : List Bytes} {field longest : Bytes}

/-- A field that may be dropped. -/
def Droppable (md : Metadata) (field : Bytes) : Prop :=
  (md field).isSome = true ∧ field ∉ metadataProtectedKeys

/-- A field that may be dropped, and none that may be dropped has a longer value. -/
structure IsLongest (md : Metadata) (fields : List Bytes) (longest : Bytes) : Prop where
  /-- It is one of the fields. -/
  mem : longest ∈ fields
  /-- It may be dropped. -/
  droppable : Droppable md longest
  /-- No other one is longer. -/
  le : ∀ f ∈ fields, Droppable md f → (md.get f).length ≤ (md.get longest).length

/-- Another field becomes the longest. -/
lemma isLongest_concat_self (hfield : Droppable md field)
    (hle : ∀ f ∈ fields, Droppable md f → (md.get f).length ≤ (md.get field).length) :
    IsLongest md (fields ++ [field]) field := by
  refine ⟨List.mem_append_right _ (List.mem_singleton_self _), hfield, ?_⟩
  intro f hf hdroppable
  rcases List.mem_append.mp hf with hf | hf
  · exact hle f hf hdroppable
  · rw [List.mem_singleton.mp hf]

/-- A field stays the longest. -/
lemma IsLongest.concat (h : IsLongest md fields longest)
    (hle : Droppable md field → (md.get field).length ≤ (md.get longest).length) :
    IsLongest md (fields ++ [field]) longest := by
  refine ⟨List.mem_append_left _ h.mem, h.droppable, ?_⟩
  intro f hf hdroppable
  rcases List.mem_append.mp hf with hf | hf
  · exact h.le f hf hdroppable
  · rw [List.mem_singleton.mp hf] at hdroppable ⊢
    exact hle hdroppable

lemma longestField_concat (md : Metadata) (fields : List Bytes) (field : Bytes) :
    longestField md (fields ++ [field])
      = if (md field).isSome = true ∧ field ∉ metadataProtectedKeys ∧
          (longestField md fields = [] ∨
            (md.get (longestField md fields)).length < (md.get field).length) then field
        else longestField md fields := by
  rw [longestField, List.foldl_concat, longestField]

/-- If there is no empty field, the longest field is found: it is empty if no field may be
dropped. -/
lemma longestField_spec (hempty : md [] = none) (fields : List Bytes) :
    (longestField md fields = [] ∧ ∀ f ∈ fields, ¬ Droppable md f) ∨
      longestField md fields ≠ [] ∧ IsLongest md fields (longestField md fields) := by
  induction fields using List.reverseRecOn with
  | nil => exact Or.inl ⟨rfl, by simp⟩
  | append_singleton fields field ih =>
    rw [longestField_concat]
    split_ifs with hcond
    · obtain ⟨hsome, hoptional, hlonger⟩ := hcond
      have hne : field ≠ [] := by
        rintro rfl
        simp [hempty] at hsome
      refine Or.inr ⟨hne, isLongest_concat_self ⟨hsome, hoptional⟩ ?_⟩
      intro f hf hdroppable
      rcases ih with ⟨-, hnone⟩ | ⟨hne, hlongest⟩
      · exact absurd hdroppable (hnone f hf)
      · exact (hlongest.le f hf hdroppable).trans (hlonger.resolve_left hne).le
    · rcases ih with ⟨hempty, hnone⟩ | ⟨hne, hlongest⟩
      · refine Or.inl ⟨hempty, ?_⟩
        intro f hf hdroppable
        rcases List.mem_append.mp hf with hf | hf
        · exact hnone f hf hdroppable
        · rw [List.mem_singleton.mp hf] at hdroppable
          exact hcond ⟨hdroppable.1, hdroppable.2, Or.inl hempty⟩
      · refine Or.inr ⟨hne, hlongest.concat fun hdroppable => ?_⟩
        by_contra hlonger
        exact hcond ⟨hdroppable.1, hdroppable.2, Or.inr (not_le.mp hlonger)⟩

end Longest

/-- The field that is dropped next, in a map without an empty field. -/
lemma longestKey_spec (order : MapOrder Bytes) {md : StringMap} (hempty : [] ∉ md) :
    (longestKey order md = [] ∧ ∀ k ∈ md, k ∈ metadataProtectedKeys) ∨
      longestKey order md ≠ [] ∧ longestKey order md ∈ md ∧
        longestKey order md ∉ metadataProtectedKeys ∧
        ∀ k ∈ md, k ∉ metadataProtectedKeys → ((md.lookup k).getD []).length
          ≤ ((md.lookup (longestKey order md)).getD []).length := by
  have hsome : ∀ k, (StringMap.toMetadata md k).isSome = true ↔ k ∈ md := fun k =>
    Finmap.lookup_isSome
  have hmem : ∀ k, k ∈ order.values md.keys ↔ k ∈ md := fun k =>
    (order.mem_values md.keys k).trans Finmap.mem_keys
  have hmissing : StringMap.toMetadata md [] = none := Finmap.lookup_eq_none.mpr hempty
  rcases longestField_spec hmissing (order.values md.keys) with
    ⟨hnone, hprotected⟩ | ⟨hne, hlongest⟩
  · refine Or.inl ⟨hnone, ?_⟩
    intro k hk
    by_contra hoptional
    exact hprotected k ((hmem k).mpr hk) ⟨(hsome k).mpr hk, hoptional⟩
  · refine Or.inr ⟨hne, (hmem _).mp hlongest.mem, hlongest.droppable.2, ?_⟩
    intro k hk hoptional
    exact hlongest.le k ((hmem k).mpr hk) ⟨(hsome k).mpr hk, hoptional⟩

/-! ## Dropping fields -/

/-- Optional fields are dropped, the longest one first, each while the value does not fit. -/
inductive Sheds (limit : ℕ) : StringMap → List Bytes → StringMap → Prop
  /-- Nothing more is dropped. -/
  | done (md : StringMap) : Sheds limit md [] md
  /-- A field is dropped that no other optional field exceeds. -/
  | drop {md md' : StringMap} {k : Bytes} {ks : List Bytes} (hmem : k ∈ md)
      (hoptional : k ∉ metadataProtectedKeys)
      (hlongest : ∀ k' ∈ md, k' ∉ metadataProtectedKeys →
        ((md.lookup k').getD []).length ≤ ((md.lookup k).getD []).length)
      (hfull : limit < (encodeObjAttrs ⟨md, ∅⟩).length) (hrest : Sheds limit (md.erase k) ks md') :
      Sheds limit md (k :: ks) md'

/-- The metadata that are never dropped. -/
def protectedOnly (md : StringMap) : StringMap :=
  Finmap.insertAll ∅ (metadataProtectedKeys.filterMap fun k => (md.lookup k).map fun v => (k, v))

section Sheds

variable {limit : ℕ} {md md' : StringMap} {ks : List Bytes} {k : Bytes}

lemma Sheds.optional (h : Sheds limit md ks md') : ∀ k ∈ ks, k ∉ metadataProtectedKeys := by
  induction h with
  | done md => simp
  | drop hmem hoptional hlongest hfull hrest ih =>
    intro k hk
    rcases List.mem_cons.mp hk with rfl | hk
    · exact hoptional
    · exact ih k hk

lemma Sheds.lookup_of_protected (h : Sheds limit md ks md') (hk : k ∈ metadataProtectedKeys) :
    md'.lookup k = md.lookup k := by
  induction h with
  | done md => rfl
  | drop hmem hoptional hlongest hfull hrest ih =>
    rw [ih, Finmap.lookup_erase_ne]
    rintro rfl
    exact hoptional hk

/-- If nothing optional is left, the protected metadata are. -/
lemma Sheds.eq_protectedOnly (h : Sheds limit md ks md')
    (hleft : ∀ k ∈ md', k ∈ metadataProtectedKeys) : md' = protectedOnly md := by
  refine (Finmap.insertAll_eq ?_ ?_).symm
  · intro p hp
    obtain ⟨k, hk, hpair⟩ := List.mem_filterMap.mp hp
    obtain ⟨v, hv, rfl⟩ := Option.map_eq_some_iff.mp hpair
    rw [h.lookup_of_protected hk, hv]
  · intro k hk
    obtain ⟨v, hv⟩ := Finmap.mem_iff.mp hk
    have hprotected := hleft k hk
    rw [h.lookup_of_protected hprotected] at hv
    exact ⟨(k, v), List.mem_filterMap.mpr ⟨k, hprotected, by simp [hv]⟩, rfl⟩

lemma setter_eq_none {value : Bytes} : setter limit value = none ↔ limit < value.length := by
  rw [setter]
  split_ifs with h
  · simp [h]
  · simpa using h

lemma setter_eq_some {value v : Bytes} :
    setter limit value = some v ↔ value.length ≤ limit ∧ value = v := by
  rw [setter, Option.ite_none_right_eq_some, Option.some_inj]

/-- The rounds end if the value is accepted or there is no optional field. -/
lemma dropMetadata_of_stop {order : ℕ → MapOrder Bytes} {fuel : ℕ} {stored : Option Bytes}
    {dropped : List Bytes} (hstop : stored.isSome = true ∨ longestKey (order fuel) md = []) :
    dropMetadata order limit fuel stored md dropped = .ok ⟨stored, dropped⟩ := by
  rw [dropMetadata]
  split_ifs with hstored
  · rfl
  · exact if_pos (hstop.resolve_left hstored)

/-- A round drops the longest field. -/
lemma dropMetadata_succ {order : ℕ → MapOrder Bytes} {fuel : ℕ} {dropped : List Bytes}
    (hne : longestKey (order (fuel + 1)) md ≠ []) :
    dropMetadata order limit (fuel + 1) none md dropped
      = dropMetadata order limit fuel
        (setter limit (encodeObjAttrs ⟨md.erase (longestKey (order (fuel + 1)) md), ∅⟩))
        (md.erase (longestKey (order (fuel + 1)) md))
        (dropped ++ [longestKey (order (fuel + 1)) md]) := by
  rw [dropMetadata, if_neg (by simp), if_neg hne]

/-- The rounds come to an end, each has dropped the longest optional field, and if the value does
not fit then nothing optional is left. -/
lemma dropMetadata_spec (order : ℕ → MapOrder Bytes) (dropped : List Bytes) {fuel : ℕ}
    (hfuel : md.keys.card ≤ fuel) (hempty : [] ∉ md) :
    ∃ md' ks, dropMetadata order limit fuel (setter limit (encodeObjAttrs ⟨md, ∅⟩)) md dropped
        = .ok ⟨setter limit (encodeObjAttrs ⟨md', ∅⟩), dropped ++ ks⟩ ∧
      Sheds limit md ks md' ∧
      (setter limit (encodeObjAttrs ⟨md', ∅⟩) = none → ∀ k ∈ md', k ∈ metadataProtectedKeys) := by
  induction fuel generalizing md dropped with
  | zero =>
    have hmd : ∀ k, k ∉ md := by
      intro k hk
      exact absurd (Finset.card_pos.mpr ⟨k, Finmap.mem_keys.mpr hk⟩) (by omega)
    have hstop : longestKey (order 0) md = [] := by
      rcases longestKey_spec (order 0) hempty with ⟨hnone, -⟩ | ⟨-, hmem, -⟩
      · exact hnone
      · exact absurd hmem (hmd _)
    refine ⟨md, [], ?_, .done md, fun _ k hk => absurd hk (hmd k)⟩
    rw [dropMetadata_of_stop (Or.inr hstop), List.append_nil]
  | succ fuel ih =>
    cases hstored : setter limit (encodeObjAttrs ⟨md, ∅⟩) with
    | some value =>
      refine ⟨md, [], ?_, .done md, by simp [hstored]⟩
      rw [dropMetadata_of_stop (Or.inl rfl), hstored, List.append_nil]
    | none =>
      rcases longestKey_spec (order (fuel + 1)) hempty with
        ⟨hnone, hprotected⟩ | ⟨hne, hmem, hoptional, hlongest⟩
      · refine ⟨md, [], ?_, .done md, fun _ => hprotected⟩
        rw [dropMetadata_of_stop (Or.inr hnone), hstored, List.append_nil]
      · rw [dropMetadata_succ hne]
        set k := longestKey (order (fuel + 1)) md
        have hcard : (md.erase k).keys.card ≤ fuel := by
          rw [Finmap.keys_erase, Finset.card_erase_of_mem (Finmap.mem_keys.mpr hmem)]
          omega
        have hempty' : [] ∉ md.erase k := fun h => hempty (Finmap.mem_erase.mp h).2
        obtain ⟨md', ks, hrun, hsheds, hleft⟩ := ih (dropped ++ [k]) hcard hempty'
        refine ⟨md', k :: ks, ?_, ?_, hleft⟩
        · rw [hrun, List.append_assoc, List.singleton_append]
        · exact .drop hmem hoptional hlongest (setter_eq_none.mp hstored) hsheds

end Sheds

/-- What fits at once is stored as it is. -/
lemma writeObjAttrs_of_fits {order : ℕ → MapOrder Bytes} {auditOrder : MapOrder Bytes} {limit : ℕ}
    {attrs : ObjAttrMaps} (hfits : (encodeObjAttrs attrs).length ≤ limit) :
    attrs.writeObjAttrs order auditOrder limit = .ok ⟨some (encodeObjAttrs attrs), []⟩ := by
  rw [ObjAttrMaps.writeObjAttrs, setter, if_pos hfits]
  rfl

/-- What does not fit loses its audit fields. -/
lemma writeObjAttrs_of_full {order : ℕ → MapOrder Bytes} {auditOrder : MapOrder Bytes} {limit : ℕ}
    {attrs : ObjAttrMaps} (hfull : limit < (encodeObjAttrs attrs).length) :
    attrs.writeObjAttrs order auditOrder limit
      = dropMetadata order limit attrs.md.keys.card
        (setter limit (encodeObjAttrs ⟨attrs.md, ∅⟩)) attrs.md
        ((auditOrder.values attrs.audit.keys).map (ascii "audit." ++ ·)) := by
  have hnone := setter_eq_none.mpr hfull
  rw [ObjAttrMaps.writeObjAttrs, hnone]
  dsimp only
  rw [if_neg (by simp)]
  by_cases haudit : 0 < attrs.audit.keys.card
  · rw [if_pos haudit]
  · -- there were no audit fields, so the value is the one that did not fit
    have hkeys : attrs.audit.keys = ∅ := Finset.card_eq_zero.mp (by omega)
    have hattrs : attrs.audit = ∅ := by
      refine Finmap.ext_lookup ?_
      intro k
      rw [Finmap.lookup_empty, Finmap.lookup_eq_none, ← Finmap.mem_keys, hkeys]
      exact Finset.notMem_empty k
    rw [if_neg haudit, ← hnone, ← hattrs]

/-- One field of metadata, with an empty name. -/
def unnamedField : ObjAttrMaps :=
  ⟨(∅ : StringMap).insert [] (ascii "x"), ∅⟩

/-- An optional field and an audit field. -/
def optionalFields : ObjAttrMaps :=
  ⟨(∅ : StringMap).insert (ascii "note") (ascii "text"),
    (∅ : StringMap).insert (ascii "host") (ascii "h")⟩

end GoBuildCache
