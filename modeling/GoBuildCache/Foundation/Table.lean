import Mathlib

/-!
# Tables of named rows

A table is a list of rows with distinct names. `find` looks a name up, `erase` drops the row of a
name, `put` adds a row in place of the one with its name, and `modify` changes a row that keeps its
name. Each is described by the rows of its result, and `find_eq_some_iff` turns a lookup into
membership.
-/

/-- A list of rows with distinct names. -/
structure Table {α κ : Type*} (name : α → κ) where
  /-- The rows. -/
  rows : List α
  /-- No two rows have the same name. -/
  distinct : (rows.map name).Nodup

namespace Table

variable {α κ : Type*} [DecidableEq κ] {name : α → κ}

/-- The table without rows. -/
def empty : Table name := ⟨[], List.nodup_nil⟩

/-- The row of a name. -/
def find (t : Table name) (k : κ) : Option α :=
  t.rows.find? (name · = k)

omit [DecidableEq κ] in
/-- The names are distinct in any part of the rows. -/
lemma nodup_of_sublist (t : Table name) {rows : List α} (h : rows.Sublist t.rows) :
    (rows.map name).Nodup :=
  t.distinct.sublist (h.map name)

/-- Drops the row of a name. -/
def erase (t : Table name) (k : κ) : Table name where
  rows := t.rows.filter (name · ≠ k)
  distinct := t.nodup_of_sublist List.filter_sublist

/-- A new row goes anywhere among the other ones. -/
lemma nodup_insert (t : Table name) (slot : ℕ) (a : α) :
    (((t.erase (name a)).rows.take slot ++ a :: (t.erase (name a)).rows.drop slot).map
      name).Nodup := by
  have hperm : ((t.erase (name a)).rows.take slot ++ a :: (t.erase (name a)).rows.drop slot).Perm
      (a :: (t.erase (name a)).rows) := by
    refine List.perm_middle.trans (List.Perm.cons a ?_)
    rw [List.take_append_drop]
  rw [(hperm.map name).nodup_iff, List.map_cons, List.nodup_cons]
  refine ⟨fun h => ?_, (t.erase (name a)).distinct⟩
  obtain ⟨b, hb, hname⟩ := List.mem_map.mp h
  have hne : name b ≠ name a := by simpa using (List.mem_filter.mp hb).2
  exact hne hname

/-- Adds a row in place of the one with its name; `slot` is its position. -/
def put (t : Table name) (slot : ℕ) (a : α) : Table name where
  rows := (t.erase (name a)).rows.take slot ++ a :: (t.erase (name a)).rows.drop slot
  distinct := t.nodup_insert slot a

lemma nodup_map_rows (t : Table name) (k : κ) {f : α → α} (hf : ∀ a, name (f a) = name a) :
    ((t.rows.map fun a => if name a = k then f a else a).map name).Nodup := by
  have hsame : name ∘ (fun a => if name a = k then f a else a) = name := by
    funext a
    by_cases ha : name a = k
    · simp [ha, hf a]
    · simp [ha]
  rw [List.map_map, hsame]
  exact t.distinct

/-- Changes the row of a name by a function that keeps names. -/
def modify (t : Table name) (k : κ) (f : α → α) (hf : ∀ a, name (f a) = name a) : Table name where
  rows := t.rows.map fun a => if name a = k then f a else a
  distinct := t.nodup_map_rows k hf

variable {t : Table name} {a b : α} {k : κ}

omit [DecidableEq κ] in
/-- Rows with the same name are the same row. -/
lemma eq_of_name_eq (ha : a ∈ t.rows) (hb : b ∈ t.rows) (h : name a = name b) : a = b :=
  List.inj_on_of_nodup_map t.distinct ha hb h

lemma find_eq_some_iff : t.find k = some a ↔ a ∈ t.rows ∧ name a = k := by
  constructor
  · intro h
    exact ⟨List.mem_of_find?_eq_some h, by simpa using List.find?_some h⟩
  · rintro ⟨ha, rfl⟩
    rcases hfind : t.find (name a) with _ | b
    · have hnone := List.find?_eq_none.mp hfind a ha
      simp at hnone
    · have hb : b ∈ t.rows := List.mem_of_find?_eq_some hfind
      have hname : name b = name a := by simpa using List.find?_some hfind
      rw [eq_of_name_eq hb ha hname]

lemma rows_erase (t : Table name) (k : κ) : (t.erase k).rows = t.rows.filter (name · ≠ k) :=
  rfl

@[simp]
lemma mem_erase : a ∈ (t.erase k).rows ↔ a ∈ t.rows ∧ name a ≠ k := by
  simp [erase, List.mem_filter]

@[simp]
lemma mem_put {slot : ℕ} : b ∈ (t.put slot a).rows ↔ b = a ∨ b ∈ t.rows ∧ name b ≠ name a := by
  have hrest : b ∈ (t.erase (name a)).rows.take slot ∨ b ∈ (t.erase (name a)).rows.drop slot
      ↔ b ∈ (t.erase (name a)).rows := by
    rw [← List.mem_append, List.take_append_drop]
  rw [put, List.mem_append, List.mem_cons, or_left_comm, hrest, mem_erase]

@[simp]
lemma mem_modify {f : α → α} {hf : ∀ a, name (f a) = name a} :
    b ∈ (t.modify k f hf).rows ↔ ∃ a ∈ t.rows, (if name a = k then f a else a) = b := by
  simp [modify, List.mem_map]

lemma find_erase (t : Table name) (k k' : κ) :
    (t.erase k).find k' = if k' = k then none else t.find k' := by
  ext a
  split_ifs with h
  · subst h
    simp [find_eq_some_iff]
  · simp only [find_eq_some_iff, mem_erase]
    constructor
    · rintro ⟨⟨ha, -⟩, hk⟩
      exact ⟨ha, hk⟩
    · rintro ⟨ha, rfl⟩
      exact ⟨⟨ha, h⟩, rfl⟩

lemma find_put (t : Table name) (slot : ℕ) (a : α) (k : κ) :
    (t.put slot a).find k = if k = name a then some a else t.find k := by
  ext b
  split_ifs with h
  · subst h
    simp only [find_eq_some_iff, mem_put, Option.some.injEq]
    constructor
    · rintro ⟨rfl | ⟨-, hne⟩, hb⟩
      · rfl
      · exact absurd hb hne
    · rintro rfl
      exact ⟨Or.inl rfl, rfl⟩
  · simp only [find_eq_some_iff, mem_put]
    constructor
    · rintro ⟨rfl | ⟨hb, -⟩, rfl⟩
      · exact absurd rfl h
      · exact ⟨hb, rfl⟩
    · rintro ⟨hb, rfl⟩
      exact ⟨Or.inr ⟨hb, h⟩, rfl⟩

omit [DecidableEq κ] in
lemma ext_rows {t t' : Table name} (h : t.rows = t'.rows) : t = t' := by
  cases t
  cases t'
  subst h
  rfl

/-- A name that is not there has nothing to drop. -/
lemma erase_of_find_eq_none (h : t.find k = none) : t.erase k = t := by
  refine ext_rows (List.filter_eq_self.mpr ?_)
  intro a ha
  simpa using List.find?_eq_none.mp h a ha

/-- A row that is added and dropped again leaves the others. -/
lemma erase_put (t : Table name) (slot : ℕ) (a : α) :
    (t.put slot a).erase (name a) = t.erase (name a) := by
  have hself : ∀ rows : List α, rows.Sublist (t.erase (name a)).rows →
      rows.filter (name · ≠ name a) = rows := by
    intro rows hrows
    refine List.filter_eq_self.mpr ?_
    intro b hb
    simpa using (mem_erase.mp (hrows.subset hb)).2
  refine ext_rows ?_
  rw [rows_erase, put, List.filter_append, List.filter_cons_of_neg (by simp),
    hself _ (List.take_sublist ..), hself _ (List.drop_sublist ..), List.take_append_drop]

/-- A row that is changed and dropped leaves the others. -/
lemma erase_modify (t : Table name) (k : κ) {f : α → α} (hf : ∀ a, name (f a) = name a) :
    (t.modify k f hf).erase k = t.erase k := by
  refine ext_rows ?_
  rw [rows_erase, rows_erase, modify, List.filter_map]
  have hsame : ∀ a ∈ t.rows.filter (name · ≠ k), (if name a = k then f a else a) = a := by
    intro a ha
    rw [if_neg (by simpa using (List.mem_filter.mp ha).2)]
  have hfilter : (fun a => decide (name a ≠ k)) ∘ (fun a => if name a = k then f a else a)
      = fun a => decide (name a ≠ k) := by
    funext a
    by_cases ha : name a = k <;> simp [ha, hf a]
  rw [hfilter, List.map_congr_left hsame, List.map_id']

lemma find_modify (t : Table name) (k : κ) {f : α → α} (hf : ∀ a, name (f a) = name a) (k' : κ) :
    (t.modify k f hf).find k' = if k' = k then (t.find k').map f else t.find k' := by
  ext b
  simp only [find_eq_some_iff, mem_modify]
  split_ifs with h
  · subst h
    simp only [Option.map_eq_some_iff, find_eq_some_iff]
    constructor
    · rintro ⟨⟨a, ha, rfl⟩, hname⟩
      split_ifs at hname with hk
      · exact ⟨a, ⟨ha, hk⟩, (if_pos hk).symm⟩
      · exact absurd hname hk
    · rintro ⟨a, ⟨ha, rfl⟩, rfl⟩
      exact ⟨⟨a, ha, if_pos rfl⟩, hf a⟩
  · rw [find_eq_some_iff]
    constructor
    · rintro ⟨⟨a, ha, rfl⟩, hname⟩
      split_ifs at hname ⊢ with hk
      · exact absurd (hname.symm.trans ((hf a).trans hk)) h
      · exact ⟨ha, hname⟩
    · rintro ⟨hb, rfl⟩
      exact ⟨⟨b, hb, if_neg h⟩, rfl⟩

end Table
