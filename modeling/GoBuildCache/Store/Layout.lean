import GoBuildCache.Store.Walk

/-!
# Which keys share a file

Between a key and the path of its file stands a list of path elements (`keyElems`): those of a safe
key, and for any other key the tree of hashed keys and the digest. The last element is cut into
shards (`shardElems`), and the path is that list below the data directory
(`keyToPath_eq_render`). Two lists have the same shards when one of them spells out shards of the
other as elements; `mergeShards` undoes that, and its text is the *canonical* key of the object.

Two keys share a file exactly when their canonical keys agree (`keyToPath_eq_iff`). The walk
reports a file under the canonical key (`pathToKey_storedFile_of_not_inHashedTree`), except in the
tree of the hashed keys, where it relies on the key recorded with the file
(`pathToKey_storedFile_of_inHashedTree`).
-/

open ByteString LexicalPath

namespace GoBuildCache

/-- The pieces into which the last element of a key is cut. -/
def shardName (name : Bytes) : List Bytes :=
  if 4 < name.length then [name.take 2, (name.take 4).drop 2, name.drop 4]
  else if 2 < name.length then [name.take 2, name.drop 2]
  else [name]

/-- A list of elements with the last one cut into pieces. -/
def shardElems (es : List Bytes) : List Bytes :=
  match es.getLast? with
  | none => []
  | some name => es.dropLast ++ shardName name

/-- The elements of a key. A safe key is read as its directory and its base, so that one that ends
in a slash has its last element twice. -/
def keyElems (sha256 : Sha256) (key : Key) : List Bytes :=
  if isKeySafe key then
    elems (key.rdropWhile (· ≠ slash)) ++ (elems key).getLast?.toList
  else [hashedPrefix, hexEncode (sha256 key).bytes]

/-- Elements that spell out the shards of a longer last element are put together again. -/
def mergeShards (es : List Bytes) : List Bytes :=
  match es.reverse with
  | m :: b :: a :: rest =>
    if a.length = 2 ∧ b.length = 2 ∧ m.length ≤ 2 then rest.reverse ++ [a ++ b ++ m]
    else if b.length = 2 ∧ m.length ≤ 4 then (a :: rest).reverse ++ [b ++ m]
    else es
  | [m, b] => if b.length = 2 ∧ m.length ≤ 4 then [b ++ m] else es
  | _ => es

/-- The canonical key among those that share a file. -/
def canonicalKey (sha256 : Sha256) (key : Key) : Key :=
  joinSlash (mergeShards (keyElems sha256 key))

/-- The file of the key lies in the tree of the hashed keys. -/
def InHashedTree (sha256 : Sha256) (key : Key) : Prop :=
  (keyElems sha256 key).head? = some hashedPrefix ∧ 2 ≤ (keyElems sha256 key).length

instance (sha256 : Sha256) (key : Key) : Decidable (InHashedTree sha256 key) :=
  inferInstanceAs (Decidable (_ ∧ _))

/-! ## Shards -/

@[simp]
lemma shardElems_concat (es : List Bytes) (name : Bytes) :
    shardElems (es ++ [name]) = es ++ shardName name := by
  simp [shardElems]

/-- The elements that a sequence of shards stands for. -/
def unshardElems (rel : List Bytes) : List Bytes :=
  match rel.reverse with
  | m :: b :: a :: rest =>
    if a.length = 2 ∧ b.length = 2 then rest.reverse ++ [a ++ b ++ m]
    else if b.length = 2 then (a :: rest).reverse ++ [b ++ m]
    else rel
  | [m, b] => if b.length = 2 then [b ++ m] else rel
  | _ => rel

/-- Three shards of length two at the end are put together. -/
lemma unshardElems_three (es : List Bytes) {a b m : Bytes} (ha : a.length = 2)
    (hb : b.length = 2) : unshardElems (es ++ [a, b, m]) = es ++ [a ++ b ++ m] := by
  simp [unshardElems, ha, hb]

/-- Two shards at the end are put together, unless there are three. -/
lemma unshardElems_two {es : List Bytes} {b m : Bytes}
    (hes : ∀ a ∈ es.getLast?, a.length ≠ 2) (hb : b.length = 2) :
    unshardElems (es ++ [b, m]) = es ++ [b ++ m] := by
  rcases es.eq_nil_or_concat' with rfl | ⟨rest, a, rfl⟩
  · simp [unshardElems, hb]
  · have ha : a.length ≠ 2 := hes a (by simp)
    simp [unshardElems, ha, hb]

/-- Nothing is put together if the last element but one is no shard. -/
lemma unshardElems_one {es : List Bytes} {m : Bytes}
    (hes : ∀ b ∈ es.getLast?, b.length ≠ 2) : unshardElems (es ++ [m]) = es ++ [m] := by
  rcases es.eq_nil_or_concat' with rfl | ⟨rest, b, rfl⟩
  · simp [unshardElems]
  have hb : b.length ≠ 2 := hes b (by simp)
  rcases rest.eq_nil_or_concat' with rfl | ⟨rest, a, rfl⟩
  · simp [unshardElems, hb]
  · simp [unshardElems, hb]

/-- How a list of elements can end: with three shards spelled out, with two, or with none. -/
inductive ShardCases : List Bytes → Prop where
  | nil : ShardCases []
  | three (rest : List Bytes) (a b m : Bytes) (ha : a.length = 2) (hb : b.length = 2)
      (hm : m.length ≤ 2) : ShardCases (rest ++ [a, b, m])
  | two (rest : List Bytes) (b m : Bytes) (hb : b.length = 2) (hm : m.length ≤ 4)
      (hrest : m.length ≤ 2 → ∀ a ∈ rest.getLast?, a.length ≠ 2) : ShardCases (rest ++ [b, m])
  | one (rest : List Bytes) (m : Bytes)
      (hrest : m.length ≤ 4 → ∀ b ∈ rest.getLast?, b.length ≠ 2) : ShardCases (rest ++ [m])

lemma shardCases (es : List Bytes) : ShardCases es := by
  rcases es.eq_nil_or_concat' with rfl | ⟨ds, m, rfl⟩
  · exact .nil
  by_cases hm : m.length ≤ 4
  swap
  · exact .one ds m fun h => absurd h hm
  rcases ds.eq_nil_or_concat' with rfl | ⟨rest, b, rfl⟩
  · exact .one [] m (by simp)
  by_cases hb : b.length = 2
  swap
  · exact .one (rest ++ [b]) m (by simp [hb])
  rw [List.append_assoc, List.singleton_append]
  by_cases hm2 : m.length ≤ 2
  swap
  · exact .two rest b m hb hm fun h => absurd h hm2
  rcases rest.eq_nil_or_concat' with rfl | ⟨rest, a, rfl⟩
  · exact .two [] b m hb hm (by simp)
  by_cases ha : a.length = 2
  · rw [List.append_assoc, List.singleton_append]
    exact .three rest a b m ha hb hm2
  · exact .two (rest ++ [a]) b m hb hm (by simp [ha])

lemma mergeShards_three (rest : List Bytes) {a b m : Bytes} (ha : a.length = 2)
    (hb : b.length = 2) (hm : m.length ≤ 2) :
    mergeShards (rest ++ [a, b, m]) = rest ++ [a ++ b ++ m] := by
  simp [mergeShards, ha, hb, hm]

lemma mergeShards_two {rest : List Bytes} {b m : Bytes} (hb : b.length = 2) (hm : m.length ≤ 4)
    (hrest : m.length ≤ 2 → ∀ a ∈ rest.getLast?, a.length ≠ 2) :
    mergeShards (rest ++ [b, m]) = rest ++ [b ++ m] := by
  rcases rest.eq_nil_or_concat' with rfl | ⟨rest, a, rfl⟩
  · simp [mergeShards, hb, hm]
  · have ha : ¬ (a.length = 2 ∧ m.length ≤ 2) := fun h => hrest h.2 a (by simp) h.1
    simp [mergeShards, hb, hm, ha]

lemma mergeShards_one {rest : List Bytes} {m : Bytes}
    (hrest : m.length ≤ 4 → ∀ b ∈ rest.getLast?, b.length ≠ 2) :
    mergeShards (rest ++ [m]) = rest ++ [m] := by
  rcases rest.eq_nil_or_concat' with rfl | ⟨rest, b, rfl⟩
  · simp [mergeShards]
  have hb : ¬ (b.length = 2 ∧ m.length ≤ 4) := fun h => hrest h.2 b (by simp) h.1
  rcases rest.eq_nil_or_concat' with rfl | ⟨rest, a, rfl⟩
  · simp [mergeShards, hb]
  · have ha : ¬ (a.length = 2 ∧ b.length = 2 ∧ m.length ≤ 2) := fun h =>
      hb ⟨h.2.1, h.2.2.trans (by omega)⟩
    simp [mergeShards, hb, ha]

lemma shardName_of_four_lt {name : Bytes} (h : 4 < name.length) :
    shardName name = [name.take 2, (name.take 4).drop 2, name.drop 4] :=
  if_pos h

lemma shardName_of_le_two {name : Bytes} (h : name.length ≤ 2) : shardName name = [name] := by
  rw [shardName, if_neg (by omega), if_neg (by omega)]

lemma shardName_of_le_four {name : Bytes} (h : name.length ≤ 4) (h2 : 2 < name.length) :
    shardName name = [name.take 2, name.drop 2] := by
  rw [shardName, if_neg (by omega), if_pos h2]

/-- The shards of a name that starts with a piece of length two. -/
lemma shardName_append {b m : Bytes} (hb : b.length = 2) (hne : m ≠ []) (hm : m.length ≤ 4) :
    shardName (b ++ m) = b :: shardName m := by
  have hpos : 0 < m.length := List.length_pos_of_ne_nil hne
  by_cases h2 : m.length ≤ 2
  · rw [shardName_of_le_two h2, shardName_of_le_four (by simp; omega) (by simp; omega),
      List.take_left' hb, List.drop_left' hb]
  · have htake : (b ++ m).take 4 = b ++ m.take 2 := by
      rw [List.take_append, hb, List.take_of_length_le (by omega)]
    have hdrop : (b ++ m).drop 4 = m.drop 2 := by
      rw [List.drop_append, hb, List.drop_of_length_le (by omega), List.nil_append]
    rw [shardName_of_four_lt (by simp; omega), shardName_of_le_four hm (by omega),
      List.take_left' hb, htake, hdrop, List.drop_left' hb]

/-- Reading the shards of a list of elements puts spelled out shards together. -/
lemma unshardElems_shardElems (es : List Bytes) :
    unshardElems (shardElems es) = mergeShards es := by
  cases shardCases es with
  | nil => rfl
  | three rest a b m ha hb hm =>
    rw [mergeShards_three rest ha hb hm, ← unshardElems_three rest ha hb,
      show rest ++ [a, b, m] = (rest ++ [a, b]) ++ [m] by simp, shardElems_concat,
      shardName_of_le_two hm]
  | two rest b m hb hm hrest =>
    rw [mergeShards_two hb hm hrest, show rest ++ [b, m] = (rest ++ [b]) ++ [m] by simp,
      shardElems_concat]
    by_cases h2 : m.length ≤ 2
    · rw [shardName_of_le_two h2, List.append_assoc, List.singleton_append,
        unshardElems_two (hrest h2) hb]
    · rw [shardName_of_le_four hm (by omega), List.append_assoc, List.singleton_append,
        unshardElems_three rest hb (by simp; omega), List.append_assoc, List.take_append_drop]
  | one rest m hrest =>
    rw [mergeShards_one hrest, shardElems_concat]
    by_cases h4 : 4 < m.length
    · have hparts : m.take 2 ++ (m.take 4).drop 2 = m.take 4 := by
        conv_rhs => rw [← List.take_append_drop 2 (m.take 4), List.take_take]
        rfl
      rw [shardName_of_four_lt h4, unshardElems_three rest (by simp; omega) (by simp; omega),
        hparts, List.take_append_drop]
    · have hb := hrest (by omega)
      by_cases h2 : m.length ≤ 2
      · rw [shardName_of_le_two h2, unshardElems_one hb]
      · rw [shardName_of_le_four (by omega) (by omega), unshardElems_two hb (by simp; omega),
          List.take_append_drop]

/-- Putting spelled out shards together does not change the shards. -/
lemma shardElems_mergeShards {es : List Bytes} (hes : ∀ e ∈ es, e ≠ []) :
    shardElems (mergeShards es) = shardElems es := by
  cases shardCases es with
  | nil => rfl
  | three rest a b m ha hb hm =>
    have hne : m ≠ [] := hes m (by simp)
    have hbm : b ++ m ≠ [] := by simp [hne]
    rw [mergeShards_three rest ha hb hm, shardElems_concat, List.append_assoc,
      shardName_append ha hbm (by simp; omega), shardName_append hb hne (by omega),
      show rest ++ [a, b, m] = (rest ++ [a, b]) ++ [m] by simp, shardElems_concat]
    simp
  | two rest b m hb hm hrest =>
    rw [mergeShards_two hb hm hrest, shardElems_concat,
      shardName_append hb (hes m (by simp)) hm,
      show rest ++ [b, m] = (rest ++ [b]) ++ [m] by simp, shardElems_concat]
    simp
  | one rest m hrest => rw [mergeShards_one hrest]

/-- Two lists of elements have the same shards exactly when they agree once spelled out shards are
put together. -/
lemma shardElems_eq_iff {es fs : List Bytes} (hes : ∀ e ∈ es, e ≠ []) (hfs : ∀ e ∈ fs, e ≠ []) :
    shardElems es = shardElems fs ↔ mergeShards es = mergeShards fs := by
  constructor
  · intro h
    rw [← unshardElems_shardElems, h, unshardElems_shardElems]
  · intro h
    rw [← shardElems_mergeShards hes, h, shardElems_mergeShards hfs]

/-! ## The elements of a key -/

/-- A path element without dots. -/
def IsPlain (e : Bytes) : Prop :=
  IsElem e ∧ 46 ∉ e

lemma IsPlain.elems_eq {e : Bytes} (he : IsPlain e) : elems e = [e] :=
  elems_eq_singleton he.1.1 he.1.2

/-- A non-empty piece of a plain name is plain. -/
lemma IsPlain.of_subset {name e : Bytes} (hname : IsPlain name) (hne : e ≠ []) (he : e ⊆ name) :
    IsPlain e :=
  ⟨⟨hne, fun h => hname.1.2 (he h)⟩, fun h => hname.2 (he h)⟩

lemma isPlain_of_mem_elems {p e : Bytes} (hp : 46 ∉ p) (he : e ∈ elems p) : IsPlain e :=
  ⟨isElem_of_mem_elems he, fun h => hp (mem_of_mem_elems he h)⟩

lemma isPlain_hexEncode_digest (sha256 : Sha256) (key : Key) :
    IsPlain (hexEncode (sha256 key).bytes) := by
  obtain ⟨hdot, hslash⟩ := notMem_hexEncode (sha256 key).bytes
  have hlen : (hexEncode (sha256 key).bytes).length = 64 := by
    rw [length_hexEncode, (sha256 key).size]
  exact ⟨⟨List.ne_nil_of_length_pos (by omega), hslash⟩, hdot⟩

lemma isPlain_of_mem_shardName {name e : Bytes} (hname : IsPlain name) (he : e ∈ shardName name) :
    IsPlain e := by
  have hpos : 0 < name.length := List.length_pos_of_ne_nil hname.1.1
  by_cases h4 : 4 < name.length
  · rw [shardName_of_four_lt h4] at he
    simp only [List.mem_cons, List.not_mem_nil, or_false] at he
    rcases he with rfl | rfl | rfl
    · exact hname.of_subset (List.ne_nil_of_length_pos (by simp; omega)) (List.take_subset _ _)
    · exact hname.of_subset (List.ne_nil_of_length_pos (by simp; omega))
        (List.Subset.trans (List.drop_subset _ _) (List.take_subset _ _))
    · exact hname.of_subset (List.ne_nil_of_length_pos (by simp; omega)) (List.drop_subset _ _)
  by_cases h2 : 2 < name.length
  · rw [shardName_of_le_four (by omega) h2] at he
    simp only [List.mem_cons, List.not_mem_nil, or_false] at he
    rcases he with rfl | rfl
    · exact hname.of_subset (List.ne_nil_of_length_pos (by simp; omega)) (List.take_subset _ _)
    · exact hname.of_subset (List.ne_nil_of_length_pos (by simp; omega)) (List.drop_subset _ _)
  · rw [shardName_of_le_two (by omega), List.mem_singleton] at he
    exact he ▸ hname

/-- The elements of a safe key that has some. -/
lemma keyElems_of_elems_ne_nil (sha256 : Sha256) {key : Key} (h : isKeySafe key = true)
    (hkey : elems key ≠ []) :
    keyElems sha256 key = elems (key.rdropWhile (· ≠ slash)) ++ [base key] := by
  rw [keyElems, if_pos h, getLast?_elems hkey]
  rfl

/-- A safe key made of slashes has no elements. -/
lemma keyElems_of_elems_eq_nil (sha256 : Sha256) {key : Key} (h : isKeySafe key = true)
    (hkey : elems key = []) : keyElems sha256 key = [] := by
  have hall := elems_eq_nil_iff.mp hkey
  have hlead : elems (key.rdropWhile (· ≠ slash)) = [] :=
    elems_eq_nil_iff.mpr fun c hc => hall c ((List.rdropWhile_prefix _ _).subset hc)
  rw [keyElems, if_pos h, hlead, hkey]
  rfl

lemma keyElems_of_isKeySafe_eq_false (sha256 : Sha256) {key : Key} (h : isKeySafe key = false) :
    keyElems sha256 key = [hashedPrefix] ++ [hexEncode (sha256 key).bytes] := by
  simp [keyElems, h]

lemma isPlain_of_mem_keyElems {sha256 : Sha256} {key : Key} {e : Bytes}
    (he : e ∈ keyElems sha256 key) : IsPlain e := by
  rcases hsafe : isKeySafe key with _ | _
  · rw [keyElems_of_isKeySafe_eq_false sha256 hsafe, List.singleton_append, List.mem_pair] at he
    rcases he with rfl | rfl
    · exact ⟨⟨by decide, by decide⟩, by decide⟩
    · exact isPlain_hexEncode_digest sha256 key
  · have hdot : 46 ∉ key := dot_notMem_of_isKeySafe hsafe
    rw [keyElems, if_pos hsafe, List.mem_append] at he
    rcases he with he | he
    · exact isPlain_of_mem_elems (fun h => hdot ((List.rdropWhile_prefix _ _).subset h)) he
    · exact isPlain_of_mem_elems hdot (List.mem_of_mem_getLast? (Option.mem_toList.mp he))

/-! ## The path of a key -/

/-- Joining a directory and the shards of a plain name. -/
lemma cleanElems_join_shardName {b lead name : Bytes} {es : List Bytes} (hb : b ≠ [])
    (hdd : dotdot ∉ elems lead) (hlead : (elems lead).filter (· ≠ dot) = es)
    (hname : IsPlain name) :
    cleanElems (join (b :: lead :: shardName name)) =
      cleanElems b ++ shardElems (es ++ [name]) := by
  have hplain : ∀ e ∈ shardName name, IsPlain e := fun e he => isPlain_of_mem_shardName hname he
  have hflat : (shardName name).flatMap elems = shardName name := by
    rw [List.flatMap_congr fun e he => (hplain e he).elems_eq]
    exact List.flatMap_singleton' _
  have hnoDot : ∀ s : Bytes, 46 ∈ s → s ∉ shardName name := fun s hs he => (hplain s he).2 hs
  have hkeep : (shardName name).filter (· ≠ dot) = shardName name := by
    refine List.filter_eq_self.mpr fun e he => decide_eq_true ?_
    rintro rfl
    exact hnoDot dot (by decide) he
  have hall : dotdot ∉ (lead :: shardName name).flatMap elems := by
    rw [List.flatMap_cons, hflat, List.mem_append, not_or]
    exact ⟨hdd, hnoDot dotdot (by decide)⟩
  rw [cleanElems_join_cons hb hall, List.flatMap_cons, hflat, List.filter_append, hlead, hkeep,
    shardElems_concat]

/-- Both branches of `keyToPath` join the data directory with a directory and the shards of a
name. -/
lemma shardPath_eq_join (root : Bytes) (key : Key) :
    shardPath root key = join (root :: dir key :: shardName (base key)) := by
  unfold shardPath shardName
  dsimp only
  split_ifs
  · rfl
  · rfl
  · rfl

/-- The elements of the path of a key. -/
lemma cleanElems_keyToPath (sha256 : Sha256) (d : DataDir) (key : Key) :
    cleanElems (keyToPath sha256 d key)
      = cleanElems d.path ++ shardElems (keyElems sha256 key) := by
  rcases hsafe : isKeySafe key with _ | _
  · have hplain := isPlain_hexEncode_digest sha256 key
    have hlen : (hexEncode (sha256 key).bytes).length = 64 := by
      rw [length_hexEncode, (sha256 key).size]
    have hpath : keyToPath sha256 d key
        = join (d.path :: hashedPrefix :: shardName (hexEncode (sha256 key).bytes)) := by
      rw [shardName_of_four_lt (by omega), keyToPath, hsafe]
      rfl
    rw [hpath, keyElems_of_isKeySafe_eq_false sha256 hsafe]
    exact cleanElems_join_shardName d.path_ne_nil (by decide) (by decide) hplain
  have hpath : keyToPath sha256 d key = shardPath d.path key := by simp [keyToPath, hsafe]
  by_cases hkey : elems key = []
  · have hne : key ≠ [] := by
      rintro rfl
      cases hsafe
    rw [cleanElems_keyToPath_of_elems_eq_nil sha256 d hne hkey,
      keyElems_of_elems_eq_nil sha256 hsafe hkey]
    exact (List.append_nil _).symm
  · have hdot : 46 ∉ key := dot_notMem_of_isKeySafe hsafe
    have hlead : 46 ∉ key.rdropWhile (· ≠ slash) := fun h =>
      hdot ((List.rdropWhile_prefix _ _).subset h)
    obtain ⟨helem, hsub⟩ := isElem_base hkey
    rw [hpath, shardPath_eq_join, keyElems_of_elems_ne_nil sha256 hsafe hkey]
    exact cleanElems_join_shardName d.path_ne_nil (dotdot_notMem_elems_dir hdot)
      (filter_elems_clean hlead) ⟨helem, fun h => hdot (hsub 46 h)⟩

/-- The path of a key is the text of its elements below the data directory. -/
lemma keyToPath_eq_render (sha256 : Sha256) (d : DataDir) (key : Key) :
    keyToPath sha256 d key
      = render (isRooted d.path) (cleanElems d.path ++ shardElems (keyElems sha256 key)) := by
  have hjoin : ∃ rel, keyToPath sha256 d key = join (d.path :: rel) := by
    rw [keyToPath, shardPath_eq_join]
    split_ifs
    · exact ⟨_, rfl⟩
    · exact ⟨_, rfl⟩
  obtain ⟨rel, hrel⟩ := hjoin
  rw [← cleanElems_keyToPath, hrel]
  exact join_cons_eq_render d.path_ne_nil rel

lemma elems_joinSlash {es : List Bytes} (hes : ∀ e ∈ es, IsElem e) : elems (joinSlash es) = es := by
  rw [joinSlash, elems_intercalate,
    List.flatMap_congr fun e he => elems_eq_singleton (hes e he).1 (hes e he).2]
  exact List.flatMap_singleton' _

/-- Putting shards together gives elements again. -/
lemma isElem_of_mem_mergeShards {es : List Bytes} (hes : ∀ e ∈ es, IsElem e) :
    ∀ e ∈ mergeShards es, IsElem e := by
  have happend : ∀ {e f : Bytes}, IsElem e → IsElem f → IsElem (e ++ f) := fun he hf =>
    ⟨by simp [he.1], by simp [he.2, hf.2]⟩
  cases shardCases es with
  | nil => exact hes
  | three rest a b m ha hb hm =>
    rw [mergeShards_three rest ha hb hm]
    intro e he
    rcases List.mem_append.mp he with he | he
    · exact hes e (by simp [he])
    · rw [List.mem_singleton.mp he]
      exact happend (happend (hes a (by simp)) (hes b (by simp))) (hes m (by simp))
  | two rest b m hb hm hrest =>
    rw [mergeShards_two hb hm hrest]
    intro e he
    rcases List.mem_append.mp he with he | he
    · exact hes e (by simp [he])
    · rw [List.mem_singleton.mp he]
      exact happend (hes b (by simp)) (hes m (by simp))
  | one rest m hrest =>
    rw [mergeShards_one hrest]
    exact hes

lemma elems_canonicalKey (sha256 : Sha256) (key : Key) :
    elems (canonicalKey sha256 key) = mergeShards (keyElems sha256 key) :=
  elems_joinSlash (isElem_of_mem_mergeShards fun _ he => (isPlain_of_mem_keyElems he).1)

/-- Two keys share a file exactly when their canonical keys agree. -/
lemma keyToPath_eq_iff (sha256 : Sha256) (d : DataDir) (k₁ k₂ : Key) :
    keyToPath sha256 d k₁ = keyToPath sha256 d k₂
      ↔ canonicalKey sha256 k₁ = canonicalKey sha256 k₂ := by
  have hne : ∀ k : Key, ∀ e ∈ keyElems sha256 k, e ≠ [] := fun k e he =>
    (isPlain_of_mem_keyElems he).1.1
  calc keyToPath sha256 d k₁ = keyToPath sha256 d k₂
      ↔ shardElems (keyElems sha256 k₁) = shardElems (keyElems sha256 k₂) := by
        constructor
        · intro h
          have h' := congrArg cleanElems h
          rw [cleanElems_keyToPath, cleanElems_keyToPath] at h'
          exact List.append_cancel_left h'
        · intro h
          rw [keyToPath_eq_render, h, ← keyToPath_eq_render]
    _ ↔ mergeShards (keyElems sha256 k₁) = mergeShards (keyElems sha256 k₂) :=
        shardElems_eq_iff (hne k₁) (hne k₂)
    _ ↔ canonicalKey sha256 k₁ = canonicalKey sha256 k₂ := by
        constructor
        · intro h
          rw [canonicalKey, h, canonicalKey]
        · intro h
          rw [← elems_canonicalKey, h, elems_canonicalKey]

/-! ## What a walk reports -/

lemma keyWithin_eq_joinSlash (lead : List Bytes) (name : Bytes) :
    keyWithin lead name = joinSlash (lead ++ [name]) := by
  induction lead with
  | nil => simp [keyWithin, joinSlash]
  | cons e lead ih =>
    have hcons : joinSlash (e :: (lead ++ [name])) = e ++ [slash] ++ joinSlash (lead ++ [name]) :=
      List.intercalate_cons_of_ne_nil (by simp)
    rw [List.cons_append, hcons, ← ih, keyWithin, keyWithin, if_neg (by simp)]
    split_ifs with h
    · simp [h, joinSlash]
    · have hlead : joinSlash (e :: lead) = e ++ [slash] ++ joinSlash lead :=
        List.intercalate_cons_of_ne_nil h
      simp [hlead]

/-- Outside the tree of the hashed keys, the walk undoes the sharding of the last elements. -/
lemma pathToKey_eq_joinSlash {d : DataDir} {f : StoredFile}
    (h : ¬ ((relElems d f.path).head? = some hashedPrefix ∧ 2 ≤ (relElems d f.path).length)) :
    pathToKey d f = joinSlash (unshardElems (relElems d f.path)) := by
  rw [pathToKey, if_neg h, unshardElems]
  rcases (relElems d f.path).reverse with _ | ⟨m, _ | ⟨b, _ | ⟨a, rest⟩⟩⟩
  · rfl
  · rfl
  · dsimp only
    split_ifs
    · simp [joinSlash]
    · rfl
  · dsimp only
    split_ifs
    · exact keyWithin_eq_joinSlash _ _
    · exact keyWithin_eq_joinSlash _ _
    · rfl

/-- Sharding does not move a file into the tree of the hashed keys, nor out of it. -/
lemma shardElems_hashed_iff (sha256 : Sha256) (key : Key) :
    ((shardElems (keyElems sha256 key)).head? = some hashedPrefix ∧
      2 ≤ (shardElems (keyElems sha256 key)).length) ↔ InHashedTree sha256 key := by
  rw [InHashedTree]
  rcases (keyElems sha256 key).eq_nil_or_concat' with h | ⟨es, name, h⟩
  · simp [h, shardElems]
  rw [h, shardElems_concat]
  have hpos : 0 < (shardName name).length := by
    unfold shardName
    split_ifs <;> simp
  rcases es with _ | ⟨e, es⟩
  · -- a single element is not long enough, and its first shard is too short for the name
    have hhead : ∀ e ∈ (shardName name).head?, 2 ≤ (shardName name).length → e.length ≤ 2 := by
      unfold shardName
      split_ifs <;> simp
    constructor
    · rintro ⟨h₁, h₂⟩
      exact absurd (hhead hashedPrefix h₁ h₂) (by decide)
    · rintro ⟨-, h₂⟩
      exact absurd h₂ (by simp)
  · simp
    omega

section StoredFile

variable (sha256 : Sha256) (d : DataDir) {key : Key}

lemma relElems_storedFile :
    relElems d (storedFile sha256 d key).path = shardElems (keyElems sha256 key) := by
  rw [relElems, storedFile, cleanElems_keyToPath, List.drop_left]

/-- Outside the tree of the hashed keys, the walk recovers the canonical key. -/
lemma pathToKey_storedFile_of_not_inHashedTree (h : ¬ InHashedTree sha256 key) :
    pathToKey d (storedFile sha256 d key) = canonicalKey sha256 key := by
  have hrel := @relElems_storedFile sha256 d key
  rw [pathToKey_eq_joinSlash (by rwa [hrel, shardElems_hashed_iff]), hrel,
    unshardElems_shardElems, canonicalKey]

/-- In the tree of the hashed keys, the walk relies on the recorded key. -/
lemma pathToKey_storedFile_of_inHashedTree (h : InHashedTree sha256 key) :
    pathToKey d (storedFile sha256 d key) = if isKeySafe key then [] else key := by
  have hrel := @relElems_storedFile sha256 d key
  rw [pathToKey, if_pos (by rwa [hrel, shardElems_hashed_iff]), storedFile]
  split_ifs
  · rfl
  · rfl

lemma inHashedTree_of_isKeySafe_eq_false (h : isKeySafe key = false) :
    InHashedTree sha256 key := by
  rw [InHashedTree, keyElems_of_isKeySafe_eq_false sha256 h]
  exact ⟨rfl, le_rfl⟩

/-- Files of keys with an element are not passed over as bookkeeping files. -/
lemma isReservedFile_storedFile (hkey : keyElems sha256 key ≠ []) :
    isReservedFile (base (storedFile sha256 d key).path) = false := by
  rcases hsafe : isKeySafe key with _ | _
  · exact (confined_of_isKeySafe_eq_false sha256 d hsafe).not_reserved
  · refine (confined_of_elems_ne_nil sha256 d hsafe ?_).not_reserved
    intro h
    exact hkey (keyElems_of_elems_eq_nil sha256 hsafe h)

/-- The walk reports the file of a key under that key exactly when `pathToKey` recovers it. -/
lemma walkKey_storedFile_eq_some_iff (hne : key ≠ []) :
    walkKey d (storedFile sha256 d key) = some key
      ↔ pathToKey d (storedFile sha256 d key) = key := by
  by_cases hkey : keyElems sha256 key = []
  · -- the path is the data directory, and neither side holds
    have hpath : pathToKey d (storedFile sha256 d key) = [] := by
      rw [pathToKey_storedFile_of_not_inHashedTree, canonicalKey, hkey]
      · rfl
      · simp [InHashedTree, hkey]
    simp [walkKey, hpath, hne.symm]
  · rw [walkKey, isReservedFile_storedFile sha256 d hkey, if_neg (by simp),
      Option.ite_none_left_eq_some, Option.some.injEq]
    constructor
    · exact fun h => h.2
    · exact fun h => ⟨by rw [h]; exact hne, h⟩

end StoredFile

/-- Which keys are distinct objects: two keys share a file exactly when their canonical keys
agree, and a walk recovers exactly the keys stored under their digest and the canonical keys
outside the tree of the hashed keys. -/
theorem keyToPath_walkKey_iff_canonicalKey (sha256 : Sha256) (d : DataDir) :
    (∀ k₁ k₂ : Key, keyToPath sha256 d k₁ = keyToPath sha256 d k₂
        ↔ canonicalKey sha256 k₁ = canonicalKey sha256 k₂) ∧
      ∀ key : Key, key ≠ [] →
        (walkKey d (storedFile sha256 d key) = some key
          ↔ isKeySafe key = false ∨ canonicalKey sha256 key = key ∧ ¬ InHashedTree sha256 key) := by
  refine ⟨keyToPath_eq_iff sha256 d, ?_⟩
  intro key hne
  rw [walkKey_storedFile_eq_some_iff sha256 d hne]
  by_cases htree : InHashedTree sha256 key
  · rw [pathToKey_storedFile_of_inHashedTree sha256 d htree]
    rcases isKeySafe key with _ | _
    · simp
    · simp [hne.symm, htree]
  · have hsafe : isKeySafe key ≠ false := fun h =>
      htree (inHashedTree_of_isKeySafe_eq_false sha256 h)
    rw [pathToKey_storedFile_of_not_inHashedTree sha256 d htree]
    simp [hsafe, htree]

/-- The keys `abcde` and `ab/cd/e` share a file, and a walk reports it as `abcde`. -/
theorem keyToPath_spelled_shards :
    keyToPath zeroDigest slashData (ascii "abcde") = ascii "/data/ab/cd/e" ∧
      keyToPath zeroDigest slashData (ascii "ab/cd/e") = ascii "/data/ab/cd/e" ∧
      walkKey slashData (storedFile zeroDigest slashData (ascii "ab/cd/e"))
        = some (ascii "abcde") := by
  refine ⟨by rfl, by rfl, by rfl⟩

/-- A walk recovers the key `go-buildcache/v1ab`, which shares its file with no key of another
canonical form. -/
theorem walkKey_buildcache_key :
    ascii "go-buildcache/v1ab" ≠ [] ∧
      walkKey slashData (storedFile zeroDigest slashData (ascii "go-buildcache/v1ab"))
        = some (ascii "go-buildcache/v1ab") :=
  ⟨by decide, ((keyToPath_walkKey_iff_canonicalKey zeroDigest slashData).2 _ (by decide)).mpr
    (Or.inr ⟨by decide, by decide⟩)⟩

/-! ## Canonical keys -/

/-- The elements of a safe key that is written as a list of elements. -/
lemma keyElems_joinSlash (sha256 : Sha256) {es : List Bytes} (hes : ∀ e ∈ es, IsElem e)
    (hsafe : isKeySafe (joinSlash es) = true) : keyElems sha256 (joinSlash es) = es := by
  rcases es.eq_nil_or_concat' with rfl | ⟨cs, l, rfl⟩
  · cases hsafe
  have hl : IsElem l := hes l (by simp)
  have hlead : joinSlash (cs ++ [l]) = lead false cs ++ l := by
    rw [← render_concat, render, if_neg (by simp), if_neg (by simp)]
    rfl
  rw [keyElems, if_pos hsafe, elems_joinSlash hes, List.getLast?_concat, hlead,
    (rscan_lead_append hl.2).1, elems_lead fun c hc => hes c (by simp [hc])]
  rfl

/-- Putting shards together a second time changes nothing. -/
lemma mergeShards_mergeShards {es : List Bytes} (hes : ∀ e ∈ es, e ≠ []) :
    mergeShards (mergeShards es) = mergeShards es := by
  rw [← unshardElems_shardElems (mergeShards es), shardElems_mergeShards hes,
    unshardElems_shardElems]

lemma mergeShards_ne_nil {es : List Bytes} (h : es ≠ []) : mergeShards es ≠ [] := by
  cases shardCases es with
  | nil => exact absurd rfl h
  | three rest a b m ha hb hm => simp [mergeShards_three rest ha hb hm]
  | two rest b m hb hm hrest => simp [mergeShards_two hb hm hrest]
  | one rest m hrest => simp [mergeShards_one hrest]

/-- What the elements are made of is not changed by putting shards together. -/
lemma mem_flatten_mergeShards {es : List Bytes} {c : UInt8} :
    (∃ e ∈ mergeShards es, c ∈ e) ↔ ∃ e ∈ es, c ∈ e := by
  cases shardCases es with
  | nil => exact Iff.rfl
  | three rest a b m ha hb hm =>
    rw [mergeShards_three rest ha hb hm]
    simp [or_and_right, exists_or]
  | two rest b m hb hm hrest =>
    rw [mergeShards_two hb hm hrest]
    simp [or_and_right, exists_or]
  | one rest m hrest => rw [mergeShards_one hrest]

/-- The canonical key of a safe key with an element is safe. -/
lemma isKeySafe_canonicalKey (sha256 : Sha256) {key : Key} (hsafe : isKeySafe key = true)
    (hkey : keyElems sha256 key ≠ []) : isKeySafe (canonicalKey sha256 key) = true := by
  have hne : canonicalKey sha256 key ≠ [] := by
    intro hnil
    have helems := elems_canonicalKey sha256 key
    rw [hnil, elems_nil] at helems
    exact mergeShards_ne_nil hkey helems.symm
  have hchars : ∀ c ∈ key, isSafeChar c = true := by
    simp only [isKeySafe, Bool.and_eq_true] at hsafe
    exact List.all_eq_true.mp hsafe.2
  have hall : (canonicalKey sha256 key).all isSafeChar = true := by
    refine List.all_eq_true.mpr ?_
    intro c hc
    by_cases hslash : c = slash
    · rw [hslash]
      decide
    · obtain ⟨e, he, hce⟩ := mem_flatten_mergeShards.mp ((mem_intercalate_slash_iff hslash).mp hc)
      rw [keyElems, if_pos hsafe, List.mem_append] at he
      rcases he with he | he
      · exact hchars c ((List.rdropWhile_prefix _ _).subset (mem_of_mem_elems he hce))
      · exact hchars c
          (mem_of_mem_elems (List.mem_of_mem_getLast? (Option.mem_toList.mp he)) hce)
  simp [isKeySafe, hne, hall]

/-- A safe key shares its file with its canonical key. -/
lemma keyToPath_canonicalKey (sha256 : Sha256) (d : DataDir) {key : Key}
    (hsafe : isKeySafe key = true) (hkey : keyElems sha256 key ≠ []) :
    keyToPath sha256 d (canonicalKey sha256 key) = keyToPath sha256 d key := by
  have helem : ∀ e ∈ keyElems sha256 key, IsElem e := fun e he => (isPlain_of_mem_keyElems he).1
  have hcanonical : keyElems sha256 (canonicalKey sha256 key)
      = mergeShards (keyElems sha256 key) :=
    keyElems_joinSlash sha256 (isElem_of_mem_mergeShards helem)
      (isKeySafe_canonicalKey sha256 hsafe hkey)
  rw [keyToPath_eq_iff]
  conv_lhs => rw [canonicalKey, hcanonical, mergeShards_mergeShards fun e he => (helem e he).1]
  rfl

/-! ## Rebuilt keys -/

/-- A cacheprog key is its own canonical key. -/
lemma canonicalKey_of_extractActionHash (sha256 : Sha256) {key : Key} {h : Hash}
    (hkey : extractActionHash key = some h) : canonicalKey sha256 key = key := by
  obtain ⟨digits, rfl, hlen, hdigits⟩ := exists_digits_of_extractActionHash hkey
  have hwalk := walkKey_of_extractActionHash sha256 slashData hkey
    (f := storedFile sha256 slashData (gbciKeyPrefix ++ digits)) rfl
  rw [walkKey_storedFile_eq_some_iff sha256 slashData (by simp [gbciKeyPrefix, ascii])] at hwalk
  by_cases htree : InHashedTree sha256 (gbciKeyPrefix ++ digits)
  · rw [pathToKey_storedFile_of_inHashedTree sha256 slashData htree,
      if_pos (isKeySafe_cacheprog hdigits)] at hwalk
    exact absurd hwalk.symm (by simp [gbciKeyPrefix, ascii])
  · rwa [pathToKey_storedFile_of_not_inHashedTree sha256 slashData htree] at hwalk

/-- The compact form loses nothing of the key: it is no cacheprog key, or in lower case. -/
def KeptByCompact (key : Key) : Prop :=
  extractActionHash key = none ∨ key.map toLower = key

instance (key : Key) : Decidable (KeptByCompact key) :=
  inferInstanceAs (Decidable (_ ∨ _))

lemma key_newCompactKey_eq_iff {key : Key} (hne : key ≠ []) :
    (newCompactKey key).key = key ↔ KeptByCompact key := by
  rw [key_newCompactKey hne, KeptByCompact]
  rcases extractActionHash key with _ | h
  · simp
  · simp

/-- The key rebuilt from the compact form names the same file only if it is the same key. -/
lemma keyToPath_key_newCompactKey_iff (sha256 : Sha256) (d : DataDir) {key : Key}
    (hne : key ≠ []) :
    keyToPath sha256 d (newCompactKey key).key = keyToPath sha256 d key ↔ KeptByCompact key := by
  rw [← key_newCompactKey_eq_iff hne]
  refine ⟨fun h => ?_, fun h => by rw [h]⟩
  rcases hkey : extractActionHash key with _ | a
  · rw [key_newCompactKey hne, hkey]
    rfl
  · have hrebuilt : (newCompactKey key).key = hashKey a := by
      rw [newCompactKey_of_eq_some hkey]
      rfl
    rwa [hrebuilt, keyToPath_eq_iff,
      canonicalKey_of_extractActionHash sha256 (extractActionHash_hashKey a),
      canonicalKey_of_extractActionHash sha256 hkey, ← hrebuilt] at h

/-- Which keys the compact form is faithful to: the rebuilt key is the key, and names its file,
exactly when the key is no cacheprog key or is in lower case, and two keys share a compact form
exactly when they are the same key or the same cacheprog key up to case. -/
theorem newCompactKey_faithful_iff (sha256 : Sha256) (d : DataDir) :
    (∀ key : Key, key ≠ [] → ((newCompactKey key).key = key ↔ KeptByCompact key)) ∧
      (∀ k₁ k₂ : Key, k₁ ≠ [] → k₂ ≠ [] →
        (newCompactKey k₁ = newCompactKey k₂
          ↔ k₁ = k₂ ∨ (extractActionHash k₁).isSome ∧ (extractActionHash k₂).isSome ∧
              k₁.map toLower = k₂.map toLower)) ∧
      ∀ key : Key, key ≠ [] →
        (keyToPath sha256 d (newCompactKey key).key = keyToPath sha256 d key
          ↔ KeptByCompact key) :=
  ⟨fun _ hne => key_newCompactKey_eq_iff hne, fun _ _ h₁ h₂ => newCompactKey_eq_iff h₁ h₂,
    fun _ hne => keyToPath_key_newCompactKey_iff sha256 d hne⟩

/-- A cacheprog key with digits in upper case. -/
def upperKey : Key := gbciKeyPrefix ++ List.replicate 64 65

/-- The same key in lower case. -/
def lowerKey : Key := gbciKeyPrefix ++ List.replicate 64 97

/-- The two keys share a compact form, which rebuilds the lower-case key, and have different
files. -/
theorem newCompactKey_upperKey :
    newCompactKey upperKey = newCompactKey lowerKey ∧ upperKey ≠ lowerKey ∧
      (newCompactKey upperKey).key = lowerKey ∧
      keyToPath zeroDigest slashData (newCompactKey upperKey).key
        ≠ keyToPath zeroDigest slashData upperKey := by
  decide +kernel

/-- The lower-case key is rebuilt, and names its file. -/
theorem newCompactKey_lowerKey :
    lowerKey ≠ [] ∧ (newCompactKey lowerKey).key = lowerKey ∧
      keyToPath zeroDigest slashData (newCompactKey lowerKey).key
        = keyToPath zeroDigest slashData lowerKey := by
  have hne : lowerKey ≠ [] := by decide
  have hkept : KeptByCompact lowerKey := by decide +kernel
  obtain ⟨hkey, -, hpath⟩ := newCompactKey_faithful_iff zeroDigest slashData
  exact ⟨hne, (hkey lowerKey hne).mpr hkept, (hpath lowerKey hne).mpr hkept⟩

end GoBuildCache
