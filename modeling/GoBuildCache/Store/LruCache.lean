import GoBuildCache.Foundation.Recency

/-!
# The cache with a byte budget

The memos and the metadata cache of the server are caches of this kind. A cache is made of shards,
each with a list of elements in the order of their last use, a map from keys to elements, and a
count of bytes. A `put` evicts elements from the end of its shard until the shard is within its part
of the budget (`evictLocked`), and a smaller budget does the same in all shards.
-/

namespace GoBuildCache

/-- How many independent shards there are. -/
abbrev lruShardCount : ℕ := 64

/-- What a cache is made with. -/
structure LruParams (K V : Type) where
  /-- The number that decides about the shard of a key. -/
  shardOf : K → UInt32
  /-- The size of an entry. -/
  sizeOf : K → V → Int64

lemma lruShard_lt (n : UInt32) : (n % 64).toNat < lruShardCount := by
  rw [UInt32.toNat_mod]
  exact Nat.mod_lt _ (by decide)

/-- The shard of a key. -/
def LruParams.shard {K V : Type} (p : LruParams K V) (k : K) : Fin lruShardCount :=
  ⟨(p.shardOf k % 64).toNat, lruShard_lt _⟩

/-- An entry. -/
structure LruEntry (K V : Type) where
  /-- The key. -/
  key : K
  /-- The value. -/
  val : V
  /-- The size. -/
  size : Int64

/-- An element of a list, which a map can point to. -/
structure LruElement (K V : Type) extends LruEntry K V where
  /-- Its address. -/
  addr : ℕ

/-- A shard. -/
structure LruShard (K V : Type) where
  /-- The elements, the most recently used one first. -/
  ll : List (LruElement K V)
  /-- The element of a key. -/
  items : K → Option ℕ
  /-- How many bytes the entries have. -/
  bytes : Int64
  /-- The address of the next element. -/
  fresh : ℕ

namespace LruShard

variable {K V : Type}

/-- A shard without entries. -/
def empty : LruShard K V :=
  ⟨[], fun _ => none, 0, 0⟩

/-- The element at an address. -/
def element (sh : LruShard K V) (addr : ℕ) : Option (LruElement K V) :=
  sh.ll.find? (·.addr = addr)

/-- Moves the element at an address to the front. -/
def moveToFront (sh : LruShard K V) (addr : ℕ) : LruShard K V :=
  { sh with ll := Recency.touch (·.addr) addr sh.ll }

/-- Overwrites the value and the size of an element. -/
def overwrite (sh : LruShard K V) (e : LruElement K V) (v : V) (size : Int64) : LruShard K V :=
  { sh with
    ll := sh.ll.map fun x => if x.addr = e.addr then { x with val := v, size := size } else x
    bytes := sh.bytes + (size - e.size) }

variable [DecidableEq K]

/-- Puts a new element in front of the others. -/
def pushFront (sh : LruShard K V) (k : K) (v : V) (size : Int64) : LruShard K V where
  ll := ⟨⟨k, v, size⟩, sh.fresh⟩ :: sh.ll
  items := Function.update sh.items k (some sh.fresh)
  bytes := sh.bytes + size
  fresh := sh.fresh + 1

/-- Takes an element out of the list and the map. -/
def remove (sh : LruShard K V) (e : LruElement K V) : LruShard K V where
  ll := Recency.erase (·.addr) e.addr sh.ll
  items := Function.update sh.items e.key none
  bytes := sh.bytes - e.size
  fresh := sh.fresh

end LruShard

/-- The cache. -/
structure LruCache (K V : Type) where
  /-- How many bytes all shards may have. -/
  budget : Int64
  /-- How many bytes all shards have. -/
  bytes : Int64
  /-- How many entries have been evicted. -/
  evictions : Int64
  /-- The shards. -/
  shards : Fin lruShardCount → LruShard K V

namespace LruCache

variable {K V : Type}

/-- `newLRUCache`: a cache without entries. -/
def new (budget : Int64) : LruCache K V :=
  ⟨budget, 0, 0, fun _ => .empty⟩

/-- The part of the budget that a shard has. -/
def shardBudget (c : LruCache K V) : Int64 :=
  let b := c.budget / 64
  if b < 1 then 1 else b

/-- The cache with another shard, and `delta` bytes more. -/
def setShard (c : LruCache K V) (i : Fin lruShardCount) (sh : LruShard K V) (delta : Int64) :
    LruCache K V :=
  { c with bytes := c.bytes + delta, shards := Function.update c.shards i sh }

variable [DecidableEq K]

/-- The body of the loop of `evictLocked`: the last entry of a shard goes. -/
def evictBack (c : LruCache K V) (i : Fin lruShardCount) : LruCache K V :=
  match (c.shards i).ll.getLast? with
  | none => c
  | some e =>
    { c.setShard i ((c.shards i).remove e) (-e.size) with evictions := c.evictions + 1 }

/-- The loop of `evictLocked`; `n` bounds the number of its rounds. -/
def evictLoop (i : Fin lruShardCount) (budget : Int64) : ℕ → LruCache K V → LruCache K V
  | 0, c => c
  | n + 1, c =>
    if budget < (c.shards i).bytes ∧ 1 < (c.shards i).ll.length then
      evictLoop i budget n (c.evictBack i)
    else c

/-- Evicts entries of a shard until it is within its budget. Every round takes one entry away, so
there are no more rounds than entries. -/
def evictLocked (c : LruCache K V) (i : Fin lruShardCount) (budget : Int64) : LruCache K V :=
  evictLoop i budget (c.shards i).ll.length c

/-- The value of a key, which is marked as used. -/
def get (p : LruParams K V) (c : LruCache K V) (k : K) : Option V × LruCache K V :=
  let i := p.shard k
  let sh := c.shards i
  match (sh.items k).bind sh.element with
  | none => (none, c)
  | some e => (some e.val, c.setShard i (sh.moveToFront e.addr) 0)

/-- Stores a value, and evicts others if it has to. -/
def put (p : LruParams K V) (c : LruCache K V) (k : K) (v : V) : LruCache K V :=
  let size := p.sizeOf k v
  let i := p.shard k
  let sh := c.shards i
  let stored :=
    match (sh.items k).bind sh.element with
    | some e => c.setShard i ((sh.overwrite e v size).moveToFront e.addr) (size - e.size)
    | none => c.setShard i (sh.pushFront k v size) size
  stored.evictLocked i c.shardBudget

/-- Drops the entry of a key, if there is one. -/
def forget (p : LruParams K V) (c : LruCache K V) (k : K) : LruCache K V :=
  let i := p.shard k
  let sh := c.shards i
  match (sh.items k).bind sh.element with
  | none => c
  | some e => c.setShard i (sh.remove e) (-e.size)

/-- Changes the budget, and evicts down to it. -/
def setBudget (c : LruCache K V) (budget : Int64) : LruCache K V :=
  let c := { c with budget := if budget < 0 then 0 else budget }
  (List.finRange lruShardCount).foldl (fun c' i => c'.evictLocked i c.shardBudget) c

/-- Drops everything. -/
def clear (c : LruCache K V) : LruCache K V :=
  (List.finRange lruShardCount).foldl
    (fun c i =>
      c.setShard i { c.shards i with ll := [], items := fun _ => none, bytes := 0 }
        (-(c.shards i).bytes))
    c

end LruCache

end GoBuildCache
