import GoBuildCache.Store.LruCache

/-!
# What the calls do to the lists

`LruModel` says what the cache is for: every shard has its entries in the order of their last use. A
shard is `Coherent` when its map points to the elements of its list and its bytes are counted, and a
cache is when its shards are and every entry is in the shard of its key. Every call keeps this, and
`Reworked` says what it does to the list of its shard: `get` touches an entry, `put` inserts one and
trims the list, `forget` erases one. The counts are kept in `Int64`, so that they are the sums of
the sizes only up to multiples of `2 ^ 64`; the eviction loop needs that the sums can be
represented.
-/

namespace GoBuildCache

variable {K V : Type} [DecidableEq K]

/-! ## The operations -/

/-- A call. -/
inductive LruOp (K V : Type) where
  | get (k : K)
  | put (k : K) (v : V)
  | forget (k : K)
  | setBudget (budget : Int64)
  | clear

/-- What a call does to a cache. -/
def LruCache.apply (p : LruParams K V) (c : LruCache K V) : LruOp K V → LruCache K V
  | .get k => (c.get p k).2
  | .put k v => c.put p k v
  | .forget k => c.forget p k
  | .setBudget budget => c.setBudget budget
  | .clear => c.clear

/-- What a call writes under the keys. -/
def LruOp.record (last : K → Option V) : LruOp K V → K → Option V
  | .put k v => Function.update last k (some v)
  | .forget k => Function.update last k none
  | .clear => fun _ => none
  | .get _ | .setBudget _ => last

/-- What a cache is for: in every shard the entries in the order of their last use. -/
@[ext]
structure LruModel (K V : Type) where
  /-- The budget. -/
  budget : ℤ
  /-- The entries of the shards. -/
  lists : Fin lruShardCount → List (LruEntry K V)

namespace LruModel

/-- How many bytes a shard may have. -/
def bound (m : LruModel K V) : ℤ :=
  max 1 (m.budget / 64)

/-- The bytes of all entries. -/
def total (m : LruModel K V) : ℤ :=
  ∑ i, Recency.cost (·.size.toInt) (m.lists i)

/-- The entries with a new one, before any of the others goes. -/
def stored (p : LruParams K V) (m : LruModel K V) (k : K) (v : V) : LruModel K V :=
  { m with
    lists := Function.update m.lists (p.shard k)
      (Recency.insert (·.key) ⟨k, v, p.sizeOf k v⟩ (m.lists (p.shard k))) }

/-- A new value does not make the counts overflow. -/
def Room (p : LruParams K V) (m : LruModel K V) : LruOp K V → Prop
  | .put k v => (m.stored p k v).total < 2 ^ 63
  | _ => True

instance (p : LruParams K V) (m : LruModel K V) : (op : LruOp K V) → Decidable (m.Room p op)
  | .put _ _ => inferInstanceAs (Decidable (_ < _))
  | .get _ | .forget _ | .setBudget _ | .clear => inferInstanceAs (Decidable True)

/-- The value of a key. -/
def value (p : LruParams K V) (m : LruModel K V) (k : K) : Option V :=
  ((m.lists (p.shard k)).find? (·.key = k)).map (·.val)

/-- What a call does. -/
def apply (p : LruParams K V) (m : LruModel K V) : LruOp K V → LruModel K V
  | .get k =>
    { m with
      lists := Function.update m.lists (p.shard k)
        (Recency.touch (·.key) k (m.lists (p.shard k))) }
  | .put k v =>
    { m with
      lists := Function.update m.lists (p.shard k)
        (Recency.trim (·.size.toInt) m.bound
          (Recency.insert (·.key) ⟨k, v, p.sizeOf k v⟩ (m.lists (p.shard k)))) }
  | .forget k =>
    { m with
      lists := Function.update m.lists (p.shard k)
        (Recency.erase (·.key) k (m.lists (p.shard k))) }
  | .setBudget budget =>
    { budget := max 0 budget.toInt
      lists := fun i =>
        Recency.trim (·.size.toInt) (max 1 (max 0 budget.toInt / 64)) (m.lists i) }
  | .clear => { m with lists := fun _ => [] }

end LruModel

/-- The entries of a cache. -/
def LruCache.model (c : LruCache K V) : LruModel K V :=
  ⟨c.budget.toInt, fun i => (c.shards i).ll.map (·.toLruEntry)⟩

/-! ## A shard -/

namespace LruShard

/-- The bytes of a list of elements. -/
def total (ll : List (LruElement K V)) : ℤ :=
  Recency.cost (fun e => e.size.toInt) ll

/-- The map points to the elements of the list, and the bytes are counted. -/
structure Coherent (sh : LruShard K V) : Prop where
  /-- No two elements have the same key. -/
  keys : (sh.ll.map (·.key)).Nodup
  /-- No two elements have the same address. -/
  addrs : (sh.ll.map (·.addr)).Nodup
  /-- Later elements get other addresses. -/
  fresh : ∀ e ∈ sh.ll, e.addr < sh.fresh
  /-- The map has the keys of the list. -/
  items : ∀ k a, sh.items k = some a ↔ ∃ e ∈ sh.ll, e.key = k ∧ e.addr = a
  /-- The bytes are the sum of the sizes, as far as it can be represented. -/
  bytes : sh.bytes = Int64.ofInt (total sh.ll)

variable {sh : LruShard K V} {e x : LruElement K V} {k : K} {v : V} {size : Int64}

omit [DecidableEq K] in
lemma coherent_empty : (empty : LruShard K V).Coherent where
  keys := List.nodup_nil
  addrs := List.nodup_nil
  fresh := by simp [empty]
  items := by simp [empty]
  bytes := rfl

omit [DecidableEq K] in
lemma Coherent.key_eq_iff (h : sh.Coherent) (hx : x ∈ sh.ll) (he : e ∈ sh.ll) :
    x.key = e.key ↔ x.addr = e.addr := by
  constructor
  · intro hkey
    rw [List.inj_on_of_nodup_map h.keys hx he hkey]
  · intro haddr
    rw [List.inj_on_of_nodup_map h.addrs hx he haddr]

omit [DecidableEq K] in
/-- What a call finds when it looks for a key. -/
lemma Coherent.lookup (h : sh.Coherent) (k : K) :
    ((sh.items k).bind sh.element = none ∧ ∀ e ∈ sh.ll, e.key ≠ k) ∨
      ∃ e ∈ sh.ll, e.key = k ∧ (sh.items k).bind sh.element = some e := by
  rcases hitem : sh.items k with _ | a
  · refine Or.inl ⟨rfl, ?_⟩
    intro e he hkey
    have hsome := (h.items k e.addr).mpr ⟨e, he, hkey, rfl⟩
    rw [hitem] at hsome
    cases hsome
  · obtain ⟨e, he, hkey, rfl⟩ := (h.items k a).mp hitem
    exact Or.inr ⟨e, he, hkey, Recency.find_eq_some h.addrs he⟩

/-- An element that is taken out by its address is the one of its key. -/
lemma Coherent.erase_addr (h : sh.Coherent) (he : e ∈ sh.ll) :
    Recency.erase (·.addr) e.addr sh.ll = Recency.erase (·.key) e.key sh.ll := by
  refine List.filter_congr ?_
  intro x hx
  simp [h.key_eq_iff hx he]

/-- Without an element of the list. -/
lemma Coherent.remove (h : sh.Coherent) (he : e ∈ sh.ll) : (sh.remove e).Coherent where
  keys := (h.keys.sublist ((Recency.erase_sublist _ _).map _))
  addrs := (h.addrs.sublist ((Recency.erase_sublist _ _).map _))
  fresh := fun x hx => h.fresh x (Recency.mem_erase.mp hx).1
  items := by
    intro k a
    change Function.update sh.items e.key none k = some a ↔
      ∃ x ∈ Recency.erase (·.addr) e.addr sh.ll, x.key = k ∧ x.addr = a
    rw [h.erase_addr he]
    rcases eq_or_ne k e.key with rfl | hne
    · rw [Function.update_self]
      refine iff_of_false (by simp) ?_
      rintro ⟨x, hx, hk, -⟩
      exact (Recency.mem_erase.mp hx).2 hk
    · rw [Function.update_of_ne hne, h.items]
      refine exists_congr ?_
      intro x
      rw [Recency.mem_erase]
      constructor
      · rintro ⟨hx, rfl, ha⟩
        exact ⟨⟨hx, hne⟩, rfl, ha⟩
      · rintro ⟨⟨hx, -⟩, hk, ha⟩
        exact ⟨hx, hk, ha⟩
  bytes := by
    change sh.bytes - e.size = Int64.ofInt (total (Recency.erase (·.addr) e.addr sh.ll))
    rw [total, Recency.cost_erase h.addrs he, Int64.ofInt_sub, Int64.ofInt_toInt, h.bytes, total]

/-- With another element in front of the list. -/
lemma Coherent.cons (h : sh.Coherent) {fresh : ℕ} (hkey : ∀ x ∈ sh.ll, x.key ≠ e.key)
    (haddr : ∀ x ∈ sh.ll, x.addr ≠ e.addr) (hle : sh.fresh ≤ fresh) (hfresh : e.addr < fresh) :
    (⟨e :: sh.ll, Function.update sh.items e.key (some e.addr), sh.bytes + e.size, fresh⟩ :
      LruShard K V).Coherent where
  keys := by
    rw [List.map_cons, List.nodup_cons]
    exact ⟨by simpa using hkey, h.keys⟩
  addrs := by
    rw [List.map_cons, List.nodup_cons]
    exact ⟨by simpa using haddr, h.addrs⟩
  fresh := by
    intro x hx
    rcases List.mem_cons.mp hx with rfl | hx
    · exact hfresh
    · exact (h.fresh x hx).trans_le hle
  items := by
    intro k a
    change Function.update sh.items e.key (some e.addr) k = some a ↔ _
    rw [List.exists_mem_cons_iff]
    rcases eq_or_ne k e.key with rfl | hne
    · rw [Function.update_self, Option.some.injEq]
      constructor
      · rintro rfl
        exact Or.inl ⟨rfl, rfl⟩
      · rintro (⟨-, ha⟩ | ⟨x, hx, hk, -⟩)
        · exact ha
        · exact absurd hk (hkey x hx)
    · rw [Function.update_of_ne hne, h.items]
      exact (or_iff_right fun hk => hne hk.1.symm).symm
  bytes := by
    rw [total, Recency.cost_cons, Int64.ofInt_add, Int64.ofInt_toInt, h.bytes, total]
    exact Int64.add_comm _ _

/-- An element gets another value and comes to the front. -/
lemma Coherent.replace (h : sh.Coherent) (he : e ∈ sh.ll) (hkey : x.key = e.key)
    (haddr : x.addr = e.addr) :
    ({ sh with
        ll := x :: Recency.erase (·.key) e.key sh.ll
        bytes := sh.bytes + (x.size - e.size) } : LruShard K V).Coherent := by
  have hmem : ∀ y ∈ (sh.remove e).ll, y.key ≠ x.key ∧ y.addr ≠ x.addr := by
    intro y hy
    have hy' := Recency.mem_erase.mp hy
    rw [hkey, haddr]
    exact ⟨fun hk => hy'.2 ((h.key_eq_iff hy'.1 he).mp hk), hy'.2⟩
  have hcons := (h.remove he).cons (fun y hy => (hmem y hy).1) (fun y hy => (hmem y hy).2) le_rfl
    (haddr ▸ h.fresh e he)
  have hitem : sh.items e.key = some e.addr := (h.items _ _).mpr ⟨e, he, rfl, rfl⟩
  have hitems : Function.update (Function.update sh.items e.key none) x.key (some x.addr) =
      sh.items := by
    rw [hkey, haddr, Function.update_idem, ← hitem, Function.update_eq_self]
  have hbytes : sh.bytes - e.size + x.size = sh.bytes + (x.size - e.size) := by grind
  simp only [LruShard.remove, h.erase_addr he, hitems, hbytes] at hcons
  exact hcons

/-- Without its last element, a list is as it was. -/
lemma Coherent.remove_last (h : sh.Coherent) {init : List (LruElement K V)}
    (hll : sh.ll = init ++ [e]) : (sh.remove e).ll = init := by
  have hne : ∀ x ∈ init, x.addr ≠ e.addr := by
    have hnodup := h.addrs
    rw [hll, List.map_append, List.nodup_append] at hnodup
    intro x hx
    exact hnodup.2.2 x.addr (List.mem_map_of_mem hx) e.addr (by simp)
  change Recency.erase (·.addr) e.addr sh.ll = init
  rw [hll, Recency.erase, List.filter_append]
  simpa using hne

lemma Coherent.moveToFront_ll (h : sh.Coherent) (he : e ∈ sh.ll) :
    (sh.moveToFront e.addr).ll = e :: Recency.erase (·.key) e.key sh.ll := by
  change Recency.touch (·.addr) e.addr sh.ll = _
  rw [Recency.touch_of_mem h.addrs he, Recency.insert, h.erase_addr he]

lemma Coherent.overwrite_ll (h : sh.Coherent) (he : e ∈ sh.ll) (v : V) (size : Int64) :
    ((sh.overwrite e v size).moveToFront e.addr).ll =
      { e with val := v, size := size } :: Recency.erase (·.key) e.key sh.ll := by
  let f : LruElement K V → LruElement K V := fun x =>
    if x.addr = e.addr then { x with val := v, size := size } else x
  have haddr : ∀ x ∈ sh.ll, (f x).addr = x.addr := by
    intro x hx
    simp only [f]
    split_ifs <;> rfl
  have hother : ∀ x ∈ sh.ll, x.addr ≠ e.addr → f x = x := by
    intro x hx hne
    simp [f, hne]
  have hmem : f e ∈ sh.ll.map f := List.mem_map_of_mem he
  have hfe : f e = { e with val := v, size := size } := by simp [f]
  have hnodup : ((sh.ll.map f).map (·.addr)).Nodup := by
    have hmap : sh.ll.map ((·.addr) ∘ f) = sh.ll.map (·.addr) := List.map_congr_left haddr
    rw [List.map_map, hmap]
    exact h.addrs
  change Recency.touch (·.addr) e.addr (sh.ll.map f) = _
  rw [← haddr e he, Recency.touch_of_mem hnodup hmem, Recency.insert, haddr e he,
    Recency.erase_map_of_name haddr hother, h.erase_addr he, hfe]

end LruShard

/-! ## The shards together -/

/-- No entry has a negative size. -/
def LruParams.Sized (p : LruParams K V) : Prop :=
  ∀ k v, 0 ≤ p.sizeOf k v

namespace LruCache

variable {p : LruParams K V} {c c' : LruCache K V} {i : Fin lruShardCount} {sh : LruShard K V}

/-- The bytes of all entries. -/
def total (c : LruCache K V) : ℤ :=
  ∑ i, LruShard.total (c.shards i).ll

/-- Every shard is coherent and has entries of its own, and their bytes are counted. -/
structure Coherent (p : LruParams K V) (c : LruCache K V) : Prop where
  /-- The shards are coherent. -/
  shards : ∀ i, (c.shards i).Coherent
  /-- An entry is in the shard of its key and has the size of its value. -/
  homed : ∀ i, ∀ e ∈ (c.shards i).ll, p.shard e.key = i ∧ e.size = p.sizeOf e.key e.val
  /-- The bytes are the sum of the sizes, as far as it can be represented. -/
  bytes : c.bytes = Int64.ofInt c.total

omit [DecidableEq K] in
lemma coherent_new (p : LruParams K V) (budget : Int64) : (new budget).Coherent p where
  shards := fun _ => LruShard.coherent_empty
  homed := by simp [new, LruShard.empty]
  bytes := by
    have htotal : (new budget : LruCache K V).total = 0 := Finset.sum_const_zero
    rw [htotal]
    rfl

omit [DecidableEq K] in
lemma Coherent.size_nonneg (h : c.Coherent p) (hp : p.Sized) (i : Fin lruShardCount) :
    ∀ e ∈ (c.shards i).ll, 0 ≤ e.size.toInt := by
  intro e he
  rw [(h.homed i e he).2]
  exact Int64.le_iff_toInt_le.mp (hp e.key e.val)

omit [DecidableEq K] in
lemma total_setShard (c : LruCache K V) (i : Fin lruShardCount) (sh : LruShard K V)
    (delta : Int64) :
    (c.setShard i sh delta).total = c.total - LruShard.total (c.shards i).ll +
      LruShard.total sh.ll := by
  have hothers : ∑ j ∈ Finset.univ.erase i, LruShard.total ((c.setShard i sh delta).shards j).ll =
      ∑ j ∈ Finset.univ.erase i, LruShard.total (c.shards j).ll := by
    refine Finset.sum_congr rfl ?_
    intro j hj
    change LruShard.total (Function.update c.shards i sh j).ll = _
    rw [Function.update_of_ne (Finset.ne_of_mem_erase hj)]
  have hself : (c.setShard i sh delta).shards i = sh := Function.update_self ..
  rw [total, total, ← Finset.add_sum_erase _ _ (Finset.mem_univ i), hothers, hself,
    ← Finset.add_sum_erase _ (fun j => LruShard.total (c.shards j).ll) (Finset.mem_univ i)]
  ring

omit [DecidableEq K] in
/-- A shard may change if its bytes are counted. -/
lemma Coherent.setShard (h : c.Coherent p) (hsh : sh.Coherent)
    (hhomed : ∀ e ∈ sh.ll, p.shard e.key = i ∧ e.size = p.sizeOf e.key e.val) {delta : Int64}
    (hdelta : delta = sh.bytes - (c.shards i).bytes) : (c.setShard i sh delta).Coherent p where
  shards := by
    intro j
    rcases eq_or_ne j i with rfl | hne
    · simpa [LruCache.setShard] using hsh
    · simpa [LruCache.setShard, hne] using h.shards j
  homed := by
    intro j
    rcases eq_or_ne j i with rfl | hne
    · simpa [LruCache.setShard] using hhomed
    · simpa [LruCache.setShard, hne] using h.homed j
  bytes := by
    change c.bytes + delta = _
    rw [total_setShard, hdelta, hsh.bytes, (h.shards i).bytes, h.bytes, ← Int64.ofInt_sub,
      ← Int64.ofInt_add]
    congr 1
    ring

omit [DecidableEq K] in
/-- A shard has no more bytes than all of them. -/
lemma Coherent.total_shard_le (h : c.Coherent p) (hp : p.Sized) (i : Fin lruShardCount) :
    LruShard.total (c.shards i).ll ≤ c.total := by
  refine Finset.single_le_sum (f := fun i => LruShard.total (c.shards i).ll) ?_ (Finset.mem_univ i)
  intro j _
  exact Recency.cost_nonneg (h.size_nonneg hp j)

omit [DecidableEq K] in
/-- The bytes of a shard, when they can be represented. -/
lemma Coherent.toInt_bytes (h : c.Coherent p) (hp : p.Sized) (htotal : c.total < 2 ^ 63)
    (i : Fin lruShardCount) : (c.shards i).bytes.toInt = LruShard.total (c.shards i).ll := by
  have hnonneg : 0 ≤ LruShard.total (c.shards i).ll := Recency.cost_nonneg (h.size_nonneg hp i)
  have hle := h.total_shard_le hp i
  rw [(h.shards i).bytes]
  exact Int64.toInt_ofInt_of_le (by omega) (by omega)

omit [DecidableEq K] in
/-- Fewer entries have fewer bytes. -/
lemma Coherent.total_le_of_subperm (h : c.Coherent p) (hp : p.Sized)
    (hsub : ∀ i, (c'.shards i).ll.Subperm (c.shards i).ll) : c'.total ≤ c.total :=
  Finset.sum_le_sum fun i _ => Recency.cost_le_of_subperm (hsub i) (h.size_nonneg hp i)

/-- An operation on one shard: `f` says what becomes of its list. -/
structure Reworked (p : LruParams K V) (i : Fin lruShardCount)
    (f : List (LruElement K V) → List (LruElement K V)) (c c' : LruCache K V) : Prop where
  /-- The cache is coherent. -/
  coherent : c'.Coherent p
  /-- The budget stays. -/
  budget : c'.budget = c.budget
  /-- The list. -/
  list : (c'.shards i).ll = f (c.shards i).ll
  /-- The other shards stay. -/
  others : ∀ j, j ≠ i → c'.shards j = c.shards j

variable {f g : List (LruElement K V) → List (LruElement K V)}

omit [DecidableEq K] in
lemma Reworked.refl (h : c.Coherent p) (hf : f (c.shards i).ll = (c.shards i).ll) :
    Reworked p i f c c :=
  ⟨h, rfl, hf.symm, fun _ _ => rfl⟩

omit [DecidableEq K] in
lemma Reworked.setShard (h : c.Coherent p) (hsh : sh.Coherent)
    (hhomed : ∀ e ∈ sh.ll, p.shard e.key = i ∧ e.size = p.sizeOf e.key e.val) {delta : Int64}
    (hdelta : delta = sh.bytes - (c.shards i).bytes) (hlist : sh.ll = f (c.shards i).ll) :
    Reworked p i f c (c.setShard i sh delta) where
  coherent := h.setShard hsh hhomed hdelta
  budget := rfl
  list := by
    change (Function.update c.shards i sh i).ll = _
    rw [Function.update_self, hlist]
  others := fun _ hne => Function.update_of_ne hne ..

omit [DecidableEq K] in
lemma Reworked.trans {c'' : LruCache K V} (h : Reworked p i f c c') (h' : Reworked p i g c' c'') :
    Reworked p i (g ∘ f) c c'' where
  coherent := h'.coherent
  budget := h'.budget.trans h.budget
  list := by rw [h'.list, h.list, Function.comp_apply]
  others := fun j hne => (h'.others j hne).trans (h.others j hne)

omit [DecidableEq K] in
lemma Reworked.subperm (h : Reworked p i f c c')
    (hf : (f (c.shards i).ll).Subperm (c.shards i).ll) (j : Fin lruShardCount) :
    (c'.shards j).ll.Subperm (c.shards j).ll := by
  rcases eq_or_ne j i with rfl | hne
  · rw [h.list]
    exact hf
  · rw [h.others j hne]

/-- The last entry of a shard goes. -/
lemma Coherent.evictBack (h : c.Coherent p) {init : List (LruElement K V)} {e : LruElement K V}
    (hll : (c.shards i).ll = init ++ [e]) :
    Reworked p i (fun _ => init) c (c.evictBack i) := by
  have he : e ∈ (c.shards i).ll := by simp [hll]
  have hremove := (h.shards i).remove_last hll
  have hrework : Reworked p i (fun _ => init) c
      (c.setShard i ((c.shards i).remove e) (-e.size)) := by
    refine Reworked.setShard h ((h.shards i).remove he) ?_ ?_ hremove
    · rw [hremove]
      intro x hx
      exact h.homed i x (hll ▸ List.mem_append_left _ hx)
    · change -e.size = (c.shards i).bytes - e.size - (c.shards i).bytes
      grind
  have hlast : (c.shards i).ll.getLast? = some e := by simp [hll]
  simp only [LruCache.evictBack, hlast]
  exact ⟨⟨hrework.coherent.shards, hrework.coherent.homed, hrework.coherent.bytes⟩,
    hrework.budget, hrework.list, hrework.others⟩

/-- The loop of `evictLocked` drops entries from the end of the list until the others fit. -/
lemma evictLoop_reworked (hp : p.Sized) (budget : Int64) {n : ℕ} (h : c.Coherent p)
    (htotal : c.total < 2 ^ 63) (hn : (c.shards i).ll.length ≤ n) :
    Reworked p i (Recency.trim (fun e => e.size.toInt) budget.toInt) c
      (evictLoop i budget n c) := by
  induction n generalizing c with
  | zero =>
    have hnil : (c.shards i).ll = [] := List.eq_nil_of_length_eq_zero (Nat.le_zero.mp hn)
    exact .refl h (Recency.trim_of_fits (Or.inr (by simp [hnil])))
  | succ n ih =>
    have hcond : (budget < (c.shards i).bytes ∧ 1 < (c.shards i).ll.length) ↔
        ¬ Recency.Fits (fun e => e.size.toInt) budget.toInt (c.shards i).ll := by
      rw [Int64.lt_iff_toInt_lt, h.toInt_bytes hp htotal, Recency.Fits, not_or, not_le, not_le]
      rfl
    rw [evictLoop]
    simp only [hcond]
    split_ifs with hfits
    · exact .refl h (Recency.trim_of_fits hfits)
    · rcases List.eq_nil_or_concat (c.shards i).ll with hnil | ⟨init, e, hll⟩
      · exact absurd (Or.inr (by simp [hnil])) hfits
      · rw [List.concat_eq_append] at hll
        have hback := h.evictBack hll
        have hsub := h.total_le_of_subperm hp
          (hback.subperm (hll ▸ (List.sublist_append_left init [e]).subperm))
        have hrest := ih hback.coherent (hsub.trans_lt htotal) (by
          rw [hback.list]
          simp only [hll, List.length_append, List.length_singleton] at hn
          omega)
        have htrans := hback.trans hrest
        refine ⟨htrans.coherent, htrans.budget, ?_, htrans.others⟩
        rw [htrans.list, Function.comp_apply, hll, Recency.trim_concat, if_neg (hll ▸ hfits)]

lemma evictLocked_reworked (hp : p.Sized) (h : c.Coherent p) (htotal : c.total < 2 ^ 63)
    (i : Fin lruShardCount) (budget : Int64) :
    Reworked p i (Recency.trim (fun e => e.size.toInt) budget.toInt) c (c.evictLocked i budget) :=
  evictLoop_reworked hp budget h htotal le_rfl

/-! ## The calls -/

lemma get_reworked (h : c.Coherent p) (k : K) :
    Reworked p (p.shard k) (Recency.touch (·.key) k) c (c.get p k).2 := by
  have hsh := h.shards (p.shard k)
  rcases hsh.lookup k with ⟨hnone, habsent⟩ | ⟨e, he, rfl, hsome⟩
  · simp only [get, hnone]
    exact .refl h (Recency.touch_eq_self habsent)
  · have hlist := hsh.moveToFront_ll he
    simp only [get, hsome]
    refine .setShard h ?_ ?_ ?_ ?_
    · have hreplace := hsh.replace he (x := e) rfl rfl
      have hbytes : (c.shards (p.shard e.key)).bytes + (e.size - e.size) =
          (c.shards (p.shard e.key)).bytes := by grind
      simp only [hbytes, ← hlist] at hreplace
      exact hreplace
    · rw [hlist]
      intro x hx
      rcases List.mem_cons.mp hx with rfl | hx
      · exact h.homed _ x he
      · exact h.homed _ x (Recency.mem_erase.mp hx).1
    · change 0 = (c.shards (p.shard e.key)).bytes - (c.shards (p.shard e.key)).bytes
      grind
    · rw [hlist]
      exact (Recency.touch_of_mem hsh.keys he).symm

lemma forget_reworked (h : c.Coherent p) (k : K) :
    Reworked p (p.shard k) (Recency.erase (·.key) k) c (c.forget p k) := by
  have hsh := h.shards (p.shard k)
  rcases hsh.lookup k with ⟨hnone, habsent⟩ | ⟨e, he, rfl, hsome⟩
  · simp only [forget, hnone]
    exact .refl h (Recency.erase_eq_self habsent)
  · simp only [forget, hsome]
    refine .setShard h (hsh.remove he) ?_ ?_ (hsh.erase_addr he)
    · intro x hx
      exact h.homed _ x (Recency.mem_erase.mp hx).1
    · change -e.size = (c.shards (p.shard e.key)).bytes - e.size - (c.shards (p.shard e.key)).bytes
      grind

/-- `put` stores the value in front of the others, and then evicts. -/
lemma put_stored (h : c.Coherent p) (k : K) (v : V) :
    ∃ (stored : LruCache K V) (x : LruElement K V), x.toLruEntry = ⟨k, v, p.sizeOf k v⟩ ∧
      Reworked p (p.shard k) (fun ll => x :: Recency.erase (·.key) k ll) c stored ∧
      c.put p k v = stored.evictLocked (p.shard k) c.shardBudget := by
  have hsh := h.shards (p.shard k)
  have hhomed : ∀ x : LruElement K V, x.toLruEntry = ⟨k, v, p.sizeOf k v⟩ →
      ∀ y ∈ x :: Recency.erase (·.key) k (c.shards (p.shard k)).ll,
        p.shard y.key = p.shard k ∧ y.size = p.sizeOf y.key y.val := by
    intro x hx y hy
    rcases List.mem_cons.mp hy with rfl | hy
    · rw [hx]
      exact ⟨rfl, rfl⟩
    · exact h.homed _ y (Recency.mem_erase.mp hy).1
  rcases hsh.lookup k with ⟨hnone, habsent⟩ | ⟨e, he, rfl, hsome⟩
  · let x : LruElement K V := ⟨⟨k, v, p.sizeOf k v⟩, (c.shards (p.shard k)).fresh⟩
    refine ⟨c.setShard (p.shard k) ((c.shards (p.shard k)).pushFront k v (p.sizeOf k v))
      (p.sizeOf k v), x, rfl, ?_, by simp only [put, hnone]⟩
    have hlist : ((c.shards (p.shard k)).pushFront k v (p.sizeOf k v)).ll =
        x :: Recency.erase (·.key) k (c.shards (p.shard k)).ll := by
      rw [Recency.erase_eq_self habsent]
      rfl
    refine .setShard h ?_ (hlist ▸ hhomed x rfl) ?_ hlist
    · exact hsh.cons (e := x) habsent (fun y hy => (hsh.fresh y hy).ne) (Nat.le_succ _)
        (Nat.lt_succ_self _)
    · change p.sizeOf k v =
        (c.shards (p.shard k)).bytes + p.sizeOf k v - (c.shards (p.shard k)).bytes
      grind
  · let x : LruElement K V := { e with val := v, size := p.sizeOf e.key v }
    refine ⟨_, x, rfl, ?_, by simp only [put, hsome]; rfl⟩
    have hlist := hsh.overwrite_ll he v (p.sizeOf e.key v)
    refine .setShard h ?_ (hlist ▸ hhomed x rfl) ?_ hlist
    · have hreplace := hsh.replace he (x := x) rfl rfl
      rw [← hlist] at hreplace
      exact hreplace
    · change p.sizeOf e.key v - e.size = (c.shards (p.shard e.key)).bytes +
        (p.sizeOf e.key v - e.size) - (c.shards (p.shard e.key)).bytes
      grind

omit [DecidableEq K] in
/-- An operation on one shard after another. -/
lemma foldl_reworked {act : LruCache K V → Fin lruShardCount → LruCache K V}
    (hact : ∀ c i, c.Coherent p → c.total < 2 ^ 63 → Reworked p i f c (act c i))
    (hp : p.Sized) (hf : ∀ ll, (f ll).Subperm ll) {l : List (Fin lruShardCount)} (hl : l.Nodup)
    (h : c.Coherent p) (htotal : c.total < 2 ^ 63) :
    (l.foldl act c).Coherent p ∧ (l.foldl act c).budget = c.budget ∧
      ∀ j, ((l.foldl act c).shards j).ll =
        if j ∈ l then f (c.shards j).ll else (c.shards j).ll := by
  induction l generalizing c with
  | nil => exact ⟨h, rfl, fun _ => rfl⟩
  | cons i l ih =>
    rw [List.nodup_cons] at hl
    have hfirst := hact c i h htotal
    have hle := h.total_le_of_subperm hp (hfirst.subperm (hf _))
    obtain ⟨hcoherent, hbudget, hlists⟩ := ih hl.2 hfirst.coherent (hle.trans_lt htotal)
    refine ⟨hcoherent, hbudget.trans hfirst.budget, ?_⟩
    intro j
    rw [List.foldl_cons, hlists]
    rcases eq_or_ne j i with rfl | hne
    · rw [if_neg hl.1, if_pos (List.mem_cons_self ..), hfirst.list]
    · simp only [List.mem_cons, hne, false_or, hfirst.others j hne]

omit [DecidableEq K] in
lemma trim_subperm {b : ℤ} (ll : List (LruElement K V)) :
    (Recency.trim (fun e => e.size.toInt) b ll).Subperm ll :=
  (Recency.trim_spec _ b ll).isPrefix.sublist.subperm

omit [DecidableEq K] in
/-- The budget of a shard is that of the model. -/
lemma toInt_shardBudget (c : LruCache K V) : c.shardBudget.toInt = c.model.bound := by
  have hdiv : (c.budget / 64).toInt = c.budget.toInt.tdiv 64 :=
    Int64.toInt_div_of_ne_right _ _ (by decide)
  have hlt : c.budget / 64 < 1 ↔ c.budget.toInt.tdiv 64 < 1 := by
    rw [Int64.lt_iff_toInt_lt, hdiv]
    rfl
  have htdiv : c.budget.toInt.tdiv 64 =
      c.budget.toInt / 64 + if 0 ≤ c.budget.toInt ∨ 64 ∣ c.budget.toInt then 0 else 1 :=
    Int.tdiv_eq_ediv
  have hbound : c.model.bound = max 1 (c.budget.toInt / 64) := rfl
  simp only [shardBudget, hlt, hbound]
  split_ifs with hsmall
  · change (1 : ℤ) = _
    grind
  · rw [hdiv]
    grind

lemma setBudget_spec (hp : p.Sized) (h : c.Coherent p) (htotal : c.total < 2 ^ 63)
    (budget : Int64) :
    (c.setBudget budget).Coherent p ∧ (c.setBudget budget).budget.toInt = max 0 budget.toInt ∧
      ∀ i, ((c.setBudget budget).shards i).ll =
        Recency.trim (fun e => e.size.toInt) (max 1 (max 0 budget.toInt / 64))
          (c.shards i).ll := by
  set clamped : Int64 := if budget < 0 then 0 else budget with hclamped
  have hcoherent : ({ c with budget := clamped } : LruCache K V).Coherent p :=
    ⟨h.shards, h.homed, h.bytes⟩
  have hbudget : clamped.toInt = max 0 budget.toInt := by
    have hneg : budget < 0 ↔ budget.toInt < 0 := Int64.lt_iff_toInt_lt
    rw [hclamped]
    split_ifs with hlt
    · have := hneg.mp hlt
      have hzero : (0 : Int64).toInt = 0 := rfl
      omega
    · have := mt hneg.mpr hlt
      omega
  have hfold := foldl_reworked
    (fun c' i h' ht' => evictLocked_reworked hp h' ht' i
      ({ c with budget := clamped } : LruCache K V).shardBudget)
    hp trim_subperm (List.nodup_finRange lruShardCount) hcoherent htotal
  rw [toInt_shardBudget] at hfold
  unfold setBudget
  refine ⟨hfold.1, (congrArg Int64.toInt hfold.2.1).trans hbudget, ?_⟩
  intro i
  rw [hfold.2.2 i, if_pos (List.mem_finRange i), ← hbudget]
  rfl

omit [DecidableEq K] in
lemma clear_spec (hp : p.Sized) (h : c.Coherent p) (htotal : c.total < 2 ^ 63) :
    c.clear.Coherent p ∧ c.clear.budget = c.budget ∧ ∀ i, (c.clear.shards i).ll = [] := by
  have hact : ∀ (c : LruCache K V) i, c.Coherent p → c.total < 2 ^ 63 →
      Reworked p i (fun _ => []) c
        (c.setShard i { c.shards i with ll := [], items := fun _ => none, bytes := 0 }
          (-(c.shards i).bytes)) := by
    intro c i h _
    refine .setShard h ?_ (by simp) ?_ rfl
    · exact ⟨List.nodup_nil, List.nodup_nil, by simp, by simp, rfl⟩
    · change -(c.shards i).bytes = 0 - (c.shards i).bytes
      grind
  have hfold := foldl_reworked hact hp (fun _ => List.nil_subperm)
    (List.nodup_finRange lruShardCount) h htotal
  refine ⟨hfold.1, hfold.2.1, ?_⟩
  intro i
  rw [clear, hfold.2.2 i, if_pos (List.mem_finRange i)]

end LruCache

end GoBuildCache
