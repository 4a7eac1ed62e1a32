import GoBuildCache.Foundation.Transition
import GoBuildCache.Store.LruLists

/-!
# The cache keeps what was used last

The faithful cache refines `LruModel`: what a call does to the lists is what it does in the model
(`apply_model`). A run of calls remembers for every key the last value that was put since the key
left the cache. As long as the sizes of the entries have a sum below `2 ^ 63`, the maps, the lists
and the counts agree, evictions drop no more entries than they must, and `Get` finds the last values
(`lru_exact`). Two entries of `2 ^ 62` bytes are too many (`not_exact_hugeEntries`).
-/

open Transition

namespace GoBuildCache

variable {K V : Type} [DecidableEq K]

namespace LruCache

variable {p : LruParams K V} {c c' : LruCache K V} {i : Fin lruShardCount}
  {f : List (LruElement K V) → List (LruElement K V)}

/-! ## The cache and its model -/

omit [DecidableEq K] in
@[simp]
lemma model_budget (c : LruCache K V) : c.model.budget = c.budget.toInt :=
  rfl

omit [DecidableEq K] in
@[simp]
lemma model_lists (c : LruCache K V) (i : Fin lruShardCount) :
    c.model.lists i = (c.shards i).ll.map (·.toLruEntry) :=
  rfl

omit [DecidableEq K] in
lemma total_model (c : LruCache K V) : c.model.total = c.total := by
  refine Finset.sum_congr rfl ?_
  intro i _
  simp [model, Recency.cost, LruShard.total, Function.comp_def]

omit [DecidableEq K] in
lemma Reworked.model_eq (h : Reworked p i f c c') :
    c'.model =
      { c.model with
        lists := Function.update c.model.lists i ((f (c.shards i).ll).map (·.toLruEntry)) } := by
  refine LruModel.ext ?_ ?_
  · exact congrArg Int64.toInt h.budget
  · funext j
    rcases eq_or_ne j i with rfl | hne
    · simp [model, h.list]
    · simp [model, hne, h.others j hne]

omit [DecidableEq K] in
lemma trim_toLruEntry (b : ℤ) (ll : List (LruElement K V)) :
    Recency.trim (·.size.toInt) b (ll.map (·.toLruEntry)) =
      (Recency.trim (fun e => e.size.toInt) b ll).map (·.toLruEntry) :=
  Recency.trim_map (·.toLruEntry) (·.size.toInt) b ll

lemma erase_toLruEntry (k : K) (ll : List (LruElement K V)) :
    Recency.erase (·.key) k (ll.map (·.toLruEntry)) =
      (Recency.erase (fun e => e.key) k ll).map (·.toLruEntry) :=
  Recency.erase_map (·.toLruEntry) k ll

lemma touch_toLruEntry (k : K) (ll : List (LruElement K V)) :
    Recency.touch (·.key) k (ll.map (·.toLruEntry)) =
      (Recency.touch (fun e => e.key) k ll).map (·.toLruEntry) :=
  Recency.touch_map (·.toLruEntry) k ll

lemma model_stored {k : K} {v : V} {x : LruElement K V}
    (hx : x.toLruEntry = ⟨k, v, p.sizeOf k v⟩)
    (h : Reworked p (p.shard k) (fun ll => x :: Recency.erase (·.key) k ll) c c') :
    c'.model = c.model.stored p k v := by
  rw [h.model_eq, LruModel.stored, List.map_cons, hx, Recency.insert, model_lists,
    erase_toLruEntry]

/-- `put` with room for the value. -/
lemma put_reworked (hp : p.Sized) (h : c.Coherent p) {k : K} {v : V}
    (hroom : (c.model.stored p k v).total < 2 ^ 63) :
    (c.put p k v).total < 2 ^ 63 ∧ ∃ x : LruElement K V, x.toLruEntry = ⟨k, v, p.sizeOf k v⟩ ∧
      Reworked p (p.shard k)
        (fun ll => Recency.trim (fun e => e.size.toInt) c.model.bound
          (x :: Recency.erase (·.key) k ll)) c (c.put p k v) := by
  obtain ⟨stored, x, hx, hstored, hput⟩ := put_stored h k v
  have htotal : stored.total < 2 ^ 63 := by
    rw [← total_model, model_stored hx hstored]
    exact hroom
  have hevict := evictLocked_reworked hp hstored.coherent htotal (p.shard k) c.shardBudget
  have hle := hstored.coherent.total_le_of_subperm hp (hevict.subperm (trim_subperm _))
  rw [← hput] at hle
  rw [toInt_shardBudget, ← hput] at hevict
  exact ⟨hle.trans_lt htotal, x, hx, hstored.trans hevict⟩

/-- Every call does what it does in the model. -/
theorem apply_model (hp : p.Sized) (h : c.Coherent p) (htotal : c.total < 2 ^ 63) {op : LruOp K V}
    (hroom : c.model.Room p op) :
    (c.apply p op).Coherent p ∧ (c.apply p op).total < 2 ^ 63 ∧
      (c.apply p op).model = c.model.apply p op := by
  cases op with
  | get k =>
    have hget := get_reworked h k
    have hle := h.total_le_of_subperm hp
      (hget.subperm (Recency.touch_perm (h.shards (p.shard k)).keys).subperm)
    refine ⟨hget.coherent, hle.trans_lt htotal, hget.model_eq.trans ?_⟩
    simp only [LruModel.apply, model_lists, touch_toLruEntry]
  | put k v =>
    obtain ⟨hlt, x, hx, hput⟩ := put_reworked hp h hroom
    refine ⟨hput.coherent, hlt, hput.model_eq.trans ?_⟩
    simp only [LruModel.apply, model_lists, Recency.insert, erase_toLruEntry, ← hx,
      ← List.map_cons (f := LruElement.toLruEntry), trim_toLruEntry]
  | forget k =>
    have hforget := forget_reworked h k
    have hle := h.total_le_of_subperm hp (hforget.subperm (Recency.erase_sublist _ _).subperm)
    refine ⟨hforget.coherent, hle.trans_lt htotal, hforget.model_eq.trans ?_⟩
    simp only [LruModel.apply, model_lists, erase_toLruEntry]
  | setBudget budget =>
    obtain ⟨hcoherent, hbudget, hlists⟩ := setBudget_spec hp h htotal budget
    have hle := h.total_le_of_subperm hp fun i => (hlists i) ▸ trim_subperm _
    refine ⟨hcoherent, hle.trans_lt htotal, LruModel.ext ?_ ?_⟩
    · simp only [model_budget, LruCache.apply, hbudget, LruModel.apply]
    · funext i
      simp only [model_lists, LruCache.apply, hlists, LruModel.apply, trim_toLruEntry]
  | clear =>
    obtain ⟨hcoherent, hbudget, hlists⟩ := clear_spec hp h htotal
    have hle := h.total_le_of_subperm hp fun i => (hlists i) ▸ List.nil_subperm
    refine ⟨hcoherent, hle.trans_lt htotal, LruModel.ext ?_ ?_⟩
    · simp only [model_budget, LruCache.apply, hbudget, LruModel.apply]
    · funext i
      simp only [model_lists, LruCache.apply, hlists, LruModel.apply, List.map_nil]

/-- The map of the shard of a key has it. -/
def held (p : LruParams K V) (c : LruCache K V) (k : K) : Bool :=
  ((c.shards (p.shard k)).items k).isSome

/-- What a call finds under a key is the value in the model. -/
lemma get_value (h : c.Coherent p) (k : K) : (c.get p k).1 = c.model.value p k := by
  have hsh := h.shards (p.shard k)
  rw [LruModel.value, model_lists, List.find?_map]
  rcases hsh.lookup k with ⟨hnone, habsent⟩ | ⟨e, he, rfl, hsome⟩
  · have hfind : (c.shards (p.shard k)).ll.find? (fun e => decide (e.key = k)) = none := by
      simpa using habsent
    simp only [get, hnone, Function.comp_def, hfind, Option.map_none]
  · have hfind := Recency.find_eq_some hsh.keys he
    simp only [get, hsome, Function.comp_def, hfind, Option.map_some]

omit [DecidableEq K] in
lemma Coherent.nodup_model (h : c.Coherent p) (i : Fin lruShardCount) :
    ((c.model.lists i).map (·.key)).Nodup := by
  rw [model_lists, List.map_map]
  exact (h.shards i).keys

lemma held_iff (h : c.Coherent p) (k : K) :
    c.held p k ↔ c.model.value p k ≠ none := by
  rw [← get_value h k, held]
  rcases (h.shards (p.shard k)).lookup k with ⟨hnone, habsent⟩ | ⟨e, he, rfl, hsome⟩
  · have hitem : (c.shards (p.shard k)).items k = none := by
      rcases hitem : (c.shards (p.shard k)).items k with _ | a
      · rfl
      · obtain ⟨e, he, hkey, -⟩ := ((h.shards (p.shard k)).items k a).mp hitem
        exact absurd hkey (habsent e he)
    simp [get, hitem]
  · have hitem := ((h.shards (p.shard e.key)).items e.key e.addr).mpr ⟨e, he, rfl, rfl⟩
    simp only [get, hsome]
    simp [hitem]

end LruCache

namespace LruModel

variable {p : LruParams K V} {m m' : LruModel K V} {k : K}

lemma value_eq_some (hm : ∀ i, ((m.lists i).map (·.key)).Nodup) {v : V} :
    m.value p k = some v ↔ ∃ e ∈ m.lists (p.shard k), e.key = k ∧ e.val = v := by
  rw [value, Option.map_eq_some_iff]
  constructor
  · rintro ⟨e, hfind, hval⟩
    exact ⟨e, List.mem_of_find?_eq_some hfind, by simpa using List.find?_some hfind, hval⟩
  · rintro ⟨e, he, rfl, hval⟩
    exact ⟨e, Recency.find_eq_some (hm _) he, hval⟩

/-- A value that is among the old ones is the old one. -/
lemma value_of_subset (hm : ∀ i, ((m.lists i).map (·.key)).Nodup)
    (hm' : ∀ i, ((m'.lists i).map (·.key)).Nodup)
    (hsub : ∀ e ∈ m'.lists (p.shard k), e.key = k → e ∈ m.lists (p.shard k)) :
    m'.value p k = m.value p k ∨ m'.value p k = none ∧ m.value p k ≠ none := by
  rcases hvalue : m'.value p k with _ | v
  · rcases m.value p k with _ | w
    · exact Or.inl rfl
    · exact Or.inr ⟨rfl, by simp⟩
  · obtain ⟨e, he, hkey, hval⟩ := (value_eq_some hm').mp hvalue
    exact Or.inl ((value_eq_some hm).mpr ⟨e, hsub e he hkey, hkey, hval⟩).symm

omit [DecidableEq K] in
lemma mem_update {lists : Fin lruShardCount → List (LruEntry K V)} {i j : Fin lruShardCount}
    {l : List (LruEntry K V)} {e : LruEntry K V} (he : e ∈ Function.update lists i l j)
    (hl : e ∈ l → e ∈ lists i) : e ∈ lists j := by
  rcases eq_or_ne j i with rfl | hne
  · rw [Function.update_self] at he
    exact hl he
  · rwa [Function.update_of_ne hne] at he

/-- A call leaves under a key what it writes there, or evicts it. -/
lemma value_apply {op : LruOp K V} (hm : ∀ i, ((m.lists i).map (·.key)).Nodup)
    (hm' : ∀ i, (((m.apply p op).lists i).map (·.key)).Nodup) (k : K) :
    (m.apply p op).value p k = op.record (m.value p) k ∨
      (m.apply p op).value p k = none ∧ m.value p k ≠ none := by
  cases op with
  | get k₀ =>
    refine value_of_subset hm hm' ?_
    intro e he _
    exact mem_update he (Recency.touch_perm (hm _)).mem_iff.mp
  | put k₀ v =>
    have htrim := Recency.trim_spec (·.size.toInt) m.bound
      (Recency.insert (·.key) ⟨k₀, v, p.sizeOf k₀ v⟩ (m.lists (p.shard k₀)))
    rcases eq_or_ne k k₀ with rfl | hne
    · refine Or.inl ?_
      rw [LruOp.record, Function.update_self, value_eq_some hm']
      refine ⟨⟨k, v, p.sizeOf k v⟩, ?_, rfl, rfl⟩
      simp only [apply, Function.update_self]
      exact List.mem_of_mem_head? htrim.head_mem
    · rw [LruOp.record, Function.update_of_ne hne]
      refine value_of_subset hm hm' ?_
      intro e he hkey
      refine mem_update he ?_
      intro hmem
      rcases List.mem_cons.mp (htrim.isPrefix.subset hmem) with rfl | hold
      · exact absurd hkey hne.symm
      · exact (Recency.mem_erase.mp hold).1
  | forget k₀ =>
    rcases eq_or_ne k k₀ with rfl | hne
    · refine Or.inl ?_
      rw [LruOp.record, Function.update_self, Option.eq_none_iff_forall_ne_some]
      intro v hv
      obtain ⟨e, he, hkey, -⟩ := (value_eq_some hm').mp hv
      simp only [apply, Function.update_self] at he
      exact (Recency.mem_erase.mp he).2 hkey
    · rw [LruOp.record, Function.update_of_ne hne]
      refine value_of_subset hm hm' ?_
      intro e he _
      exact mem_update he fun hmem => (Recency.mem_erase.mp hmem).1
  | setBudget budget =>
    refine value_of_subset hm hm' ?_
    intro e he _
    exact (Recency.trim_spec _ _ _).isPrefix.subset he
  | clear =>
    exact Or.inl rfl

end LruModel

/-! ## Runs -/

/-- A cache, and for every key the last value that was put since the key was evicted, forgotten or
cleared. -/
structure LruRun (K V : Type) where
  /-- The cache. -/
  cache : LruCache K V
  /-- The last values. -/
  last : K → Option V

namespace LruRun

/-- A run starts with an empty cache. -/
def start (budget : Int64) : LruRun K V :=
  ⟨.new budget, fun _ => none⟩

/-- A call. A key that the map had before and does not have afterwards has been evicted. -/
def step (p : LruParams K V) (s : LruRun K V) (op : LruOp K V) : Option (LruRun K V) :=
  let cache := s.cache.apply p op
  some ⟨cache, fun k =>
    if s.cache.held p k ∧ ¬ cache.held p k then none else op.record s.last k⟩

/-- What holds in every state of a run. -/
structure Inv (p : LruParams K V) (s : LruRun K V) : Prop where
  /-- The cache is coherent. -/
  coherent : s.cache.Coherent p
  /-- The counts have not overflowed. -/
  total : s.cache.total < 2 ^ 63
  /-- The values are the last ones. -/
  last : ∀ k, s.last k = s.cache.model.value p k

variable {p : LruParams K V} {s s' : LruRun K V}

/-- What a call does, and what it keeps. -/
lemma Inv.step (h : s.Inv p) (hp : p.Sized) {op : LruOp K V} (hroom : s.cache.model.Room p op)
    (hstep : step p s op = some s') : s'.Inv p := by
  obtain rfl := Option.some.inj hstep
  obtain ⟨hcoherent, htotal, hmodel⟩ := s.cache.apply_model hp h.coherent h.total hroom
  refine ⟨hcoherent, htotal, ?_⟩
  intro k
  have hlast : s.last = s.cache.model.value p := funext h.last
  have hvalue := LruModel.value_apply (p := p) h.coherent.nodup_model
    (hmodel ▸ hcoherent.nodup_model) k
  change (if s.cache.held p k ∧ ¬ (s.cache.apply p op).held p k then none
    else op.record s.last k) = _
  simp only [LruCache.held_iff h.coherent, LruCache.held_iff hcoherent, hlast, not_not, hmodel]
  grind

/-- The maps, the lists and the counts agree, and the values are the last ones. -/
structure Exact (p : LruParams K V) (s : LruRun K V) : Prop where
  /-- The list of a shard has no key twice. -/
  once : ∀ i, ((s.cache.shards i).ll.map (·.key)).Nodup
  /-- The map of a shard has the same keys. -/
  sameKeys : ∀ i k, ((s.cache.shards i).items k).isSome ↔ k ∈ (s.cache.shards i).ll.map (·.key)
  /-- The bytes of a shard are the sum of the sizes of its entries. -/
  shardBytes : ∀ i, (s.cache.shards i).bytes.toInt =
    ((s.cache.shards i).ll.map (·.size.toInt)).sum
  /-- All bytes are the sum of those of the shards. -/
  bytes : s.cache.bytes.toInt = ∑ i, (s.cache.shards i).bytes.toInt
  /-- `Get` finds the last value. -/
  get : ∀ k, (s.cache.get p k).1 = s.last k

/-- What a call does to the lists. -/
structure ExactStep (p : LruParams K V) (s : LruRun K V) (op : LruOp K V) (s' : LruRun K V) :
    Prop where
  /-- The entries are those of the model. -/
  refines : s'.cache.model = s.cache.model.apply p op
  /-- `Put` evicts as few entries as it can, and not the new one. -/
  put : ∀ k v, op = .put k v →
    Recency.Trimmed (·.size.toInt) s.cache.model.bound
      (Recency.insert (·.key) ⟨k, v, p.sizeOf k v⟩ (s.cache.model.lists (p.shard k)))
      (s'.cache.model.lists (p.shard k)) ∧
    (s'.cache.model.lists (p.shard k)).head? = some ⟨k, v, p.sizeOf k v⟩
  /-- `SetBudget` evicts as few entries as it can. -/
  setBudget : ∀ budget, op = .setBudget budget → ∀ i,
    Recency.Trimmed (·.size.toInt) s'.cache.model.bound (s.cache.model.lists i)
      (s'.cache.model.lists i)

lemma Inv.exact (h : s.Inv p) (hp : p.Sized) : s.Exact p where
  once := fun i => (h.coherent.shards i).keys
  sameKeys := by
    intro i k
    rw [Option.isSome_iff_exists, List.mem_map]
    simp only [(h.coherent.shards i).items]
    constructor
    · rintro ⟨a, e, he, hkey, -⟩
      exact ⟨e, he, hkey⟩
    · rintro ⟨e, he, hkey⟩
      exact ⟨e.addr, e, he, hkey, rfl⟩
  shardBytes := fun i => h.coherent.toInt_bytes hp h.total i
  bytes := by
    have hnonneg : 0 ≤ s.cache.total := by
      refine Finset.sum_nonneg ?_
      intro i _
      exact Recency.cost_nonneg (h.coherent.size_nonneg hp i)
    rw [h.coherent.bytes, Int64.toInt_ofInt_of_le (by omega) h.total, LruCache.total]
    exact Finset.sum_congr rfl fun i _ => (h.coherent.toInt_bytes hp h.total i).symm
  get := fun k => (LruCache.get_value h.coherent k).trans (h.last k).symm

lemma Inv.exactStep (h : s.Inv p) (hp : p.Sized) {op : LruOp K V}
    (hroom : s.cache.model.Room p op) (hstep : LruRun.step p s op = some s') :
    s.ExactStep p op s' := by
  obtain rfl := Option.some.inj hstep
  obtain ⟨-, -, hmodel⟩ := s.cache.apply_model hp h.coherent h.total hroom
  refine ⟨hmodel, ?_, ?_⟩
  · rintro k v rfl
    have htrim := Recency.trim_spec (·.size.toInt) s.cache.model.bound
      (Recency.insert (·.key) ⟨k, v, p.sizeOf k v⟩ (s.cache.model.lists (p.shard k)))
    simp only [hmodel, LruModel.apply, Function.update_self]
    exact ⟨htrim, htrim.head_mem⟩
  · rintro budget rfl i
    simp only [hmodel, LruModel.apply]
    exact Recency.trim_spec _ _ _

lemma inv_start (p : LruParams K V) (budget : Int64) :
    (start budget : LruRun K V).Inv p := by
  refine ⟨LruCache.coherent_new p budget, ?_, fun _ => rfl⟩
  have htotal : (LruCache.new budget : LruCache K V).total = 0 := Finset.sum_const_zero
  exact htotal ▸ by decide

/-- As long as the sizes of all entries, with the one to be put, have a sum below `2 ^ 63`, the
cache is exact. -/
theorem lru_exact (hp : p.Sized) (budget : Int64) (ops : List (LruOp K V))
    (hroom : Guarded (step p) (fun s op => s.cache.model.Room p op) (start budget) ops)
    (hrun : run (step p) (start budget) ops = some s) :
    s.Exact p ∧ ∀ op s', s.cache.model.Room p op → step p s op = some s' →
      s.ExactStep p op s' := by
  have hinv : s.Inv p := by
    refine run_invariant ?_ (inv_start p budget) hroom hrun
    intro s op s' hs hguard hstep
    exact hs.step hp hguard hstep
  exact ⟨hinv.exact hp, fun op s' hroom' hstep => hinv.exactStep hp hroom' hstep⟩

/-- Entries of `size` bytes, all in one shard. -/
def oneShard (size : Int64) : LruParams ℕ ℕ :=
  ⟨fun _ => 0, fun _ _ => size⟩

/-- The third entry does not fit, and the one that was used last stays. -/
theorem lru_exact_threeEntries :
    (oneShard 30).Sized ∧ ∃ s, run (step (oneShard 30)) (start 4096)
        [.put 1 10, .put 2 20, .get 1, .put 3 30] = some s ∧
      (s.last 1 = some 10 ∧ s.last 2 = none ∧ s.last 3 = some 30) ∧
      s.Exact (oneShard 30) ∧ ∀ op s', s.cache.model.Room (oneShard 30) op →
        step (oneShard 30) s op = some s' → s.ExactStep (oneShard 30) op s' := by
  have hsized : (oneShard 30).Sized := fun _ _ => (by decide : (0 : Int64) ≤ 30)
  obtain ⟨s, hrun, hlast⟩ : ∃ s ∈ run (step (oneShard 30)) (start 4096)
      [.put 1 10, .put 2 20, .get 1, .put 3 30],
      s.last 1 = some 10 ∧ s.last 2 = none ∧ s.last 3 = some 30 := by
    decide +kernel
  exact ⟨hsized, s, hrun, hlast, lru_exact hsized 4096 _ (by decide +kernel) hrun⟩

/-- Two entries of `2 ^ 62` bytes: the count of the shard is negative, and nothing is evicted. -/
theorem not_exact_hugeEntries :
    (oneShard (2 ^ 62)).Sized ∧ ∃ s, run (step (oneShard (2 ^ 62))) (start 4096)
        [.put 1 10, .put 2 20] = some s ∧
      ¬ s.Exact (oneShard (2 ^ 62)) ∧
      ¬ Recency.Fits (·.size.toInt) s.cache.model.bound (s.cache.model.lists 0) := by
  have hsized : (oneShard (2 ^ 62)).Sized := fun _ _ => (by decide +kernel : (0 : Int64) ≤ 2 ^ 62)
  obtain ⟨s, hrun, hbytes, hfits⟩ : ∃ s ∈ run (step (oneShard (2 ^ 62))) (start 4096)
      [.put 1 10, .put 2 20],
      (s.cache.shards 0).bytes.toInt ≠ ((s.cache.shards 0).ll.map (·.size.toInt)).sum ∧
      ¬ Recency.Fits (·.size.toInt) s.cache.model.bound (s.cache.model.lists 0) := by
    decide +kernel
  exact ⟨hsized, s, hrun, fun h => hbytes (h.shardBytes 0), hfits⟩

end LruRun

end GoBuildCache
