import GoBuildCache.Store.Serve

/-!
# The misses of a batch get

A batch get counts the keys that were requested and those that were found, and each key that it
leaves out as a miss with a reason: in the first round when a key does not pass the guards, in the
last one when a body cannot be opened or is not what was stored. Keys that are added by look-ahead
are not counted as misses.

The handler is written over any store (`BatchStore`): whatever the calls of the store answer, errors
of the file system included, is covered. `handleBatchGet_storage` says that over the store of this
development it sends what `Storage.handleBatchGet` sends. Requested minus found is the number of
misses, except for a request that only looks ahead: its keys are not counted as requested, but their
misses are counted, and if nothing is looked for they are found (`misses_balance_iff`).
-/

open ByteString

namespace GoBuildCache

/-- Why a key that a batch asked for is left out of the answer. -/
inductive MissReason where
  /-- `not_found`. -/
  | notFound
  /-- `evicted`: the sweeper has removed it. -/
  | evicted
  /-- `advertised_unservable`: the index has it. -/
  | advertised
  /-- `module_index_evicted`. -/
  | moduleIndex
  /-- `selfheal_failed`. -/
  | selfHeal
  /-- `stored_digest`. -/
  | storedDigest
  /-- `stat_error`. -/
  | statError
  deriving DecidableEq

/-- What a batch get asks of a store with states `σ`. -/
structure BatchStore (σ : Type) where
  /-- `servableEntry`: the guards for one key. -/
  servableEntry : σ → Key → Except MissReason Storage.BatchEntry × σ
  /-- `openVerifiedEntry`: opens and checks one body. -/
  openVerifiedEntry : σ → Storage.BatchEntry → Option Storage.SentObject × σ
  /-- The keys of objects stored at about the same time as some entries, if there is an index. -/
  prefetchKeys : Option (σ → Storage.BatchGetRequest → List Key → List Storage.BatchEntry →
    List Key × σ)

/-- What a batch get counts, and what it sends. -/
structure BatchGetResult (σ : Type) where
  /-- The keys that were requested. -/
  requested : ℤ
  /-- The keys that were found. -/
  found : ℤ
  /-- The keys around which others were looked for. -/
  anchors : ℤ
  /-- The keys that were added. -/
  prefetched : ℤ
  /-- The bodies that were written. -/
  streamed : ℤ
  /-- The misses that were counted. -/
  misses : List MissReason
  /-- The objects that were sent. -/
  sent : List Storage.SentObject
  /-- The store afterwards. -/
  store : σ

namespace BatchStore

variable {σ α β : Type}

/-- Does the work of a batch item by item: an item is kept, or it is dropped and some misses are
counted. -/
def parallelFilter (fn : σ → α → Except (List MissReason) β × σ) :
    σ → List α → List β × List MissReason × σ
  | s, [] => ([], [], s)
  | s, x :: xs =>
    let result := fn s x
    let rest := parallelFilter fn result.2 xs
    match result.1 with
    | .ok y => (y :: rest.1, rest.2.1, rest.2.2)
    | .error misses => (rest.1, misses ++ rest.2.1, rest.2.2)

/-- The guards for one key; `count` says what is counted when it does not pass them. -/
def guards (store : BatchStore σ) (count : MissReason → List MissReason) (s : σ) (key : Key) :
    Except (List MissReason) Storage.BatchEntry × σ :=
  let result := store.servableEntry s key
  (result.1.mapError count, result.2)

/-- The first round counts every key that does not pass the guards. -/
def lookUp (store : BatchStore σ) : σ → Key → Except (List MissReason) Storage.BatchEntry × σ :=
  store.guards fun reason => [reason]

/-- The second round counts no key. -/
def buildPrefetchEntry (store : BatchStore σ) :
    σ → Key → Except (List MissReason) Storage.BatchEntry × σ :=
  store.guards fun _ => []

/-- The last round counts the requested keys among the entries that it leaves out. The flag of an
entry says whether it has been added. -/
def openEntry (store : BatchStore σ) (s : σ) (e : Storage.BatchEntry × Bool) :
    Except (List MissReason) (Storage.SentObject × Bool) × σ :=
  let result := store.openVerifiedEntry s e.1
  (match result.1 with
    | some o => .ok (o, e.2)
    | none => .error (if e.2 then [] else [.storedDigest]),
    result.2)

/-- The entries whose bodies are opened: those of the requested keys, those that are added, or
both. -/
def lookAhead (store : BatchStore σ) (s : σ) (prefetch prefetchOnly : Bool)
    (req : Storage.BatchGetRequest) (lookup : List Key) (entries : List Storage.BatchEntry) :
    List (Storage.BatchEntry × Bool) × σ :=
  let requested := entries.map fun e => (e, false)
  match store.prefetchKeys with
  | none => (requested, s)
  | some prefetchKeys =>
    if prefetch = true ∧ entries ≠ [] ∧ (Storage.modSpan entries).1 ≠ Storage.zeroModNano then
      let fresh := prefetchKeys s req lookup entries
      let added := parallelFilter store.buildPrefetchEntry fresh.2 fresh.1
      let prefetched := added.1.map fun e => (e, true)
      (if prefetchOnly then prefetched else requested ++ prefetched, added.2.2)
    else (requested, s)

/-- A batch get that streams to the end; `none` if the request is refused. -/
def handleBatchGet (store : BatchStore σ) (prefetchEnabled : Bool) (req : Storage.BatchGetRequest)
    (s : σ) : Option (BatchGetResult σ) :=
  if req.keys = [] ∨ Storage.maxBatchKeys < req.keys.length then none
  else
    let lookup := req.lookup prefetchEnabled
    let anchorsOnly := req.prefetchOnly
    let prefetch := prefetchEnabled && req.prefetch
    let prefetchOnly := prefetchEnabled && req.prefetchOnly
    let entries := parallelFilter store.lookUp s lookup
    let all := store.lookAhead entries.2.2 prefetch prefetchOnly req lookup entries.1
    let opened := parallelFilter store.openEntry all.2 all.1
    let prefetched := opened.1.countP (·.2)
    some {
      requested := if anchorsOnly then 0 else req.keys.length
      found := opened.1.length - prefetched
      anchors := if anchorsOnly then req.keys.length else 0
      prefetched := prefetched
      streamed := opened.1.length
      misses := entries.2.1 ++ opened.2.1
      sent := opened.1.map Prod.fst
      store := opened.2.2 }

/-! ## Rounds -/

/-- A round keeps count: if a dropped item that counts is one miss, then what is kept and the misses
are the items. -/
lemma countP_parallelFilter {fn : σ → α → Except (List MissReason) β × σ} {p : α → Bool}
    {q : β → Bool} (hkept : ∀ s x y, (fn s x).1 = .ok y → q y = p x)
    (hdropped : ∀ s x misses, (fn s x).1 = .error misses →
      misses.length = if p x = true then 1 else 0) (s : σ) (xs : List α) :
    (parallelFilter fn s xs).1.countP q + (parallelFilter fn s xs).2.1.length = xs.countP p := by
  induction xs generalizing s with
  | nil => rfl
  | cons x xs ih =>
    have hrest := ih (fn s x).2
    rw [parallelFilter, List.countP_cons]
    rcases hx : (fn s x).1 with misses | y
    · have hlength := hdropped s x misses hx
      simp only [List.length_append, hlength]
      omega
    · have hy := hkept s x y hx
      simp only [List.countP_cons, hy]
      omega

variable (store : BatchStore σ)

/-- In the first round, every key is an entry or a miss. -/
lemma length_lookUp (s : σ) (keys : List Key) :
    (parallelFilter store.lookUp s keys).1.length +
      (parallelFilter store.lookUp s keys).2.1.length = keys.length := by
  have hcount : (parallelFilter store.lookUp s keys).1.countP (fun _ => true) +
      (parallelFilter store.lookUp s keys).2.1.length = keys.countP fun _ => true := by
    refine countP_parallelFilter (fun _ _ _ _ => rfl) ?_ s keys
    intro s key misses h
    simp only [lookUp, guards] at h
    rcases hresult : (store.servableEntry s key).1 with reason | e
    · rw [hresult] at h
      cases h
      rfl
    · rw [hresult] at h
      cases h
  simpa using hcount

/-- In the last round, every requested entry is found or a miss. -/
lemma countP_openEntry (s : σ) (entries : List (Storage.BatchEntry × Bool)) :
    (parallelFilter store.openEntry s entries).1.countP (!·.2) +
      (parallelFilter store.openEntry s entries).2.1.length = entries.countP (!·.2) := by
  refine countP_parallelFilter ?_ ?_ s entries
  · intro s e o h
    simp only [openEntry] at h
    split at h
    · cases h
      rfl
    · cases h
  · intro s e misses h
    simp only [openEntry] at h
    split at h
    · cases h
    · cases h
      cases e.2 <;> rfl

/-- The store lets all keys pass, one after the other, with these entries. -/
def PassesGuards : σ → List Key → List Storage.BatchEntry → Prop
  | _, [], entries => entries = []
  | s, key :: keys, entries => ∃ e rest, entries = e :: rest ∧
    (store.servableEntry s key).1 = .ok e ∧
      PassesGuards (store.servableEntry s key).2 keys rest

lemma passesGuards_iff (s : σ) (keys : List Key) (entries : List Storage.BatchEntry) :
    store.PassesGuards s keys entries ↔ (parallelFilter store.lookUp s keys).1 = entries ∧
      (parallelFilter store.lookUp s keys).2.1 = [] := by
  induction keys generalizing s entries with
  | nil => simp [PassesGuards, parallelFilter, eq_comm]
  | cons key keys ih =>
    rw [PassesGuards, parallelFilter]
    rcases hresult : (store.servableEntry s key).1 with reason | e
    · simp [lookUp, guards, hresult, Except.mapError]
    · simp only [lookUp, guards, hresult, Except.mapError, ih, Except.ok.injEq]
      constructor
      · rintro ⟨e', rest, rfl, rfl, hrest, hmisses⟩
        exact ⟨by rw [hrest], hmisses⟩
      · rintro ⟨rfl, hmisses⟩
        exact ⟨e, _, rfl, rfl, rfl, hmisses⟩

/-- The requested entries among those that are opened: none if the request only looks ahead and
something is looked for, and all of them otherwise. -/
lemma countP_lookAhead (s : σ) (prefetch prefetchOnly : Bool) (req : Storage.BatchGetRequest)
    (lookup : List Key) (entries : List Storage.BatchEntry) :
    (store.lookAhead s prefetch prefetchOnly req lookup entries).1.countP (!·.2) =
      if prefetchOnly = true ∧ store.prefetchKeys.isSome = true ∧ prefetch = true ∧
        entries ≠ [] ∧ (Storage.modSpan entries).1 ≠ Storage.zeroModNano then 0
      else entries.length := by
  have hrequested : ((entries.map fun e => (e, false)).countP fun e => !e.2) = entries.length := by
    rw [List.countP_map]
    simp [Function.comp_def]
  have hadded : ∀ added : List Storage.BatchEntry,
      ((added.map fun e => (e, true)).countP fun e => !e.2) = 0 := by
    intro added
    rw [List.countP_map]
    simp [Function.comp_def]
  rw [lookAhead]
  rcases hkeys : store.prefetchKeys with _ | prefetchKeys
  · simp [hrequested]
  · simp only [Option.isSome_some, true_and]
    by_cases hruns : prefetch = true ∧ entries ≠ [] ∧
        (Storage.modSpan entries).1 ≠ Storage.zeroModNano
    · cases prefetchOnly <;> simp [hruns, hrequested, hadded]
    · simp [hruns, hrequested]

/-! ## Counts -/

/-- Requested minus found is not negative, and it is the number of misses. -/
def Balanced (r : BatchGetResult σ) : Prop :=
  0 ≤ r.requested - r.found ∧ r.requested - r.found = r.misses.length

/-- What is not flagged. -/
lemma length_sub_countP (l : List (α × Bool)) :
    (l.length : ℤ) - l.countP (·.2) = l.countP (!·.2) := by
  have hsplit := List.length_eq_countP_add_countP (fun x : α × Bool => x.2) (l := l)
  simp only [Bool.not_eq_true, Bool.decide_eq_false] at hsplit
  omega

/-- What was found, and all misses, are the entries of the requested keys that are opened and the
keys that did not pass the guards. -/
lemma found_add_misses {r : BatchGetResult σ} {prefetchEnabled : Bool}
    {req : Storage.BatchGetRequest} {s s' : σ} {entries : List Storage.BatchEntry}
    {misses : List MissReason} (h : store.handleBatchGet prefetchEnabled req s = some r)
    (hentries :
      parallelFilter store.lookUp s (req.lookup prefetchEnabled) = (entries, misses, s')) :
    0 ≤ r.found ∧ r.found + r.misses.length = (misses.length : ℤ) +
      if (prefetchEnabled && req.prefetchOnly) = true ∧ store.prefetchKeys.isSome = true ∧
        (prefetchEnabled && req.prefetch) = true ∧ entries ≠ [] ∧
        (Storage.modSpan entries).1 ≠ Storage.zeroModNano then 0
      else (entries.length : ℤ) := by
  rw [handleBatchGet] at h
  split_ifs at h
  obtain rfl := Option.some.inj h
  simp only [hentries]
  set all := store.lookAhead s' (prefetchEnabled && req.prefetch)
    (prefetchEnabled && req.prefetchOnly) req (req.lookup prefetchEnabled) entries with hall
  have hopened := store.countP_openEntry all.2 all.1
  rw [hall, countP_lookAhead, ← hall] at hopened
  simp only [length_sub_countP, List.length_append]
  split_ifs at hopened ⊢ <;> omega

lemma requested_eq {r : BatchGetResult σ} {prefetchEnabled : Bool} {req : Storage.BatchGetRequest}
    {s : σ} (h : store.handleBatchGet prefetchEnabled req s = some r) :
    req.keys ≠ [] ∧ r.requested = if req.prefetchOnly = true then 0 else (req.keys.length : ℤ) := by
  rw [handleBatchGet] at h
  split_ifs at h with hrefused
  obtain rfl := Option.some.inj h
  exact ⟨fun hnil => hrefused (.inl hnil), rfl⟩

/-! ## The store of this development -/

/-- A round over a store of which only what is kept is looked at. -/
lemma parallelFilter_eq {α' β' : Type} {fn : Storage → α → Except (List MissReason) β × Storage}
    {fn' : Storage → α' → Option β' × Storage} (g : α → α') (k : β → β')
    (h : ∀ s x, ((fn s x).1.toOption.map k, (fn s x).2) = fn' s (g x)) (s : Storage)
    (xs : List α) :
    ((parallelFilter fn s xs).1.map k, (parallelFilter fn s xs).2.2) =
      Storage.parallelFilter fn' s (xs.map g) := by
  induction xs generalizing s with
  | nil => rfl
  | cons x xs ih =>
    have hx := h s x
    have hrest := ih (fn s x).2
    rw [List.map_cons, Storage.parallelFilter, ← hx, parallelFilter]
    simp only at hrest ⊢
    rw [← hrest]
    rcases (fn s x).1 with misses | y <;> rfl

end BatchStore

namespace Storage

/-- Why a key that the store does not hold is a miss. -/
def absentKeyReason (wasEvicted : Key → Bool) (s : Storage) (key : Key) : MissReason :=
  if (extractActionHash key).any s.index.contains then .advertised
  else if wasEvicted key then .evicted
  else .notFound

/-- The guards of a batch for one key, with the reason of a miss. -/
def servableOrMiss (env : StorageEnv) (wasEvicted : Key → Bool) (s : Storage) (key : Key) :
    Except MissReason BatchEntry × Storage :=
  match s.fileOf env key with
  | none => (.error (s.absentKeyReason wasEvicted key), s)
  | some f =>
    let loaded := s.loadMetadata key f
    let guard := loaded.2.evictModuleIndexOnReadByKey env key loaded.1
    if !guard.1 then (.error .moduleIndex, guard.2)
    else
      let healed := guard.2.ensureOutputID env key loaded.1 none
      match healed.1 with
      | none => (.error .selfHeal, healed.2)
      | some md => (.ok ⟨key, md, f.object.modNano⟩, healed.2)

lemma servableOrMiss_eq (env : StorageEnv) (wasEvicted : Key → Bool) (s : Storage) (key : Key) :
    ((s.servableOrMiss env wasEvicted key).1.toOption, (s.servableOrMiss env wasEvicted key).2) =
      s.servableEntry env key := by
  rcases hf : s.fileOf env key with _ | f
  · simp only [servableOrMiss, servableEntry, hf]
    rfl
  simp only [servableOrMiss, servableEntry, hf]
  rcases (s.loadMetadata key f).2.evictModuleIndexOnReadByKey env key (s.loadMetadata key f).1 with
    ⟨_ | _, s'⟩
  · rfl
  · simp only [Bool.not_true, Bool.false_eq_true, if_false]
    rcases s'.ensureOutputID env key (s.loadMetadata key f).1 none with ⟨_ | md, s''⟩ <;> rfl

/-- A batch get over this store at the time `now`. -/
def batchStore (env : StorageEnv) (wasEvicted : Key → Bool) (now : ℤ) : BatchStore Storage where
  servableEntry := servableOrMiss env wasEvicted
  openVerifiedEntry := openVerifiedEntry env now
  prefetchKeys := some prefetchKeys

section Rounds

lemma batchStore_prefetchKeys (env : StorageEnv) (wasEvicted : Key → Bool) (now : ℤ) :
    (batchStore env wasEvicted now).prefetchKeys = some prefetchKeys :=
  rfl

variable (env : StorageEnv) (wasEvicted : Key → Bool) (now : ℤ) (s : Storage)

lemma parallelFilter_guards (count : MissReason → List MissReason) (keys : List Key) :
    ((BatchStore.parallelFilter ((batchStore env wasEvicted now).guards count) s keys).1,
        (BatchStore.parallelFilter ((batchStore env wasEvicted now).guards count) s keys).2.2) =
      parallelFilter (servableEntry env) s keys := by
  have hone : ∀ s key, ((((batchStore env wasEvicted now).guards count s key).1.toOption.map id,
      ((batchStore env wasEvicted now).guards count s key).2)) = servableEntry env s (id key) := by
    intro s key
    rw [id_eq, ← servableOrMiss_eq env wasEvicted, Option.map_id]
    simp only [BatchStore.guards, batchStore, id_eq]
    rcases (servableOrMiss env wasEvicted s key).1 with reason | e <;> rfl
  have hround := BatchStore.parallelFilter_eq id id hone s keys
  rw [List.map_id, List.map_id] at hround
  exact hround

lemma parallelFilter_openEntry (entries : List (BatchEntry × Bool)) :
    ((BatchStore.parallelFilter (batchStore env wasEvicted now).openEntry s entries).1.map Prod.fst,
        (BatchStore.parallelFilter (batchStore env wasEvicted now).openEntry s entries).2.2) =
      parallelFilter (openVerifiedEntry env now) s (entries.map Prod.fst) := by
  refine BatchStore.parallelFilter_eq Prod.fst Prod.fst ?_ s entries
  intro s e
  simp only [BatchStore.openEntry, batchStore]
  rcases openVerifiedEntry env now s e.1 with ⟨_ | o, s'⟩ <;> rfl

end Rounds

/-- Over this store, the handler that counts sends what the handler without counts sends. -/
theorem handleBatchGet_storage (env : StorageEnv) (wasEvicted : Key → Bool) (now : ℤ)
    (prefetchEnabled : Bool) (req : BatchGetRequest) (s : Storage) (r : BatchGetResult Storage)
    (h : (batchStore env wasEvicted now).handleBatchGet prefetchEnabled req s = some r) :
    s.handleBatchGet env prefetchEnabled req now = (r.sent, r.store) := by
  rw [BatchStore.handleBatchGet] at h
  split_ifs at h with hrefused
  obtain rfl := Option.some.inj h
  clear h
  rw [handleBatchGet, if_neg hrefused]
  have hfirst := parallelFilter_guards env wasEvicted now s (fun reason => [reason])
    (req.lookup prefetchEnabled)
  rcases hround : BatchStore.parallelFilter (batchStore env wasEvicted now).lookUp s
    (req.lookup prefetchEnabled) with ⟨entries, misses, s'⟩
  rw [← BatchStore.lookUp, hround] at hfirst
  simp only [batchLookup, ← hfirst]
  rw [parallelFilter_openEntry]
  by_cases hruns : (prefetchEnabled && req.prefetch) = true ∧ entries ≠ [] ∧
      (modSpan entries).1 ≠ zeroModNano
  · obtain rfl : prefetchEnabled = true := (Bool.and_eq_true_iff.mp hruns.1).1
    have hadded := parallelFilter_guards env wasEvicted now
      (s'.prefetchKeys req (req.lookup true) entries).2 (fun _ => [])
      (s'.prefetchKeys req (req.lookup true) entries).1
    rw [← BatchStore.buildPrefetchEntry] at hadded
    rw [BatchStore.lookAhead]
    simp only [batchStore_prefetchKeys, if_pos hruns, buildPrefetchEntries]
    rw [← hadded, Bool.true_and]
    split_ifs <;> simp [Function.comp_def]
  · rw [BatchStore.lookAhead]
    simp only [batchStore_prefetchKeys, if_neg hruns]
    simp [Function.comp_def]

end Storage

/-! ## The balance -/

namespace BatchStore

/-- For any store, and whatever its calls answer: the misses of a batch get that streams to the end
balance, if and only if the request does not only look ahead, or look-ahead is disabled, or
something is looked for and all keys pass the guards. -/
theorem misses_balance_iff {σ : Type} (store : BatchStore σ) (prefetchEnabled : Bool)
    (req : Storage.BatchGetRequest) (s : σ) (r : BatchGetResult σ)
    (h : store.handleBatchGet prefetchEnabled req s = some r) :
    Balanced r ↔ req.prefetchOnly = false ∨ prefetchEnabled = false ∨
      req.prefetch = true ∧ store.prefetchKeys.isSome = true ∧
        ∃ entries, store.PassesGuards s req.keys entries ∧
          (Storage.modSpan entries).1 ≠ Storage.zeroModNano := by
  obtain ⟨hkeys, hrequested⟩ := store.requested_eq h
  rcases hround : parallelFilter store.lookUp s (req.lookup prefetchEnabled) with
    ⟨entries, misses, s'⟩
  obtain ⟨hfound, hsum⟩ := store.found_add_misses h hround
  have hlength := store.length_lookUp s (req.lookup prefetchEnabled)
  simp only [hround] at hlength
  rw [Balanced, hrequested]
  cases honly : req.prefetchOnly
  · -- the keys are asked for
    have hlookup : req.lookup prefetchEnabled = req.keys := by
      simp [Storage.BatchGetRequest.lookup, honly]
    rw [hlookup] at hlength
    simp only [honly, Bool.and_false, Bool.false_eq_true, false_and, if_false] at hsum ⊢
    simp only [true_or, iff_true]
    omega
  cases prefetchEnabled
  · -- the keys are not even looked up
    have hlookup : req.lookup false = [] := by
      simp [Storage.BatchGetRequest.lookup, honly]
    rw [hlookup, List.length_nil] at hlength
    simp only [Bool.false_and, Bool.false_eq_true, false_and, if_false] at hsum
    simp only [if_true, true_or, or_true, iff_true]
    omega
  have hlookup : req.lookup true = req.keys := by
    simp [Storage.BatchGetRequest.lookup]
  have hpos : 0 < req.keys.length := List.length_pos_iff.mpr hkeys
  rw [hlookup] at hround hlength
  simp only [honly, Bool.and_self, Bool.true_and, true_and, if_true, Bool.true_eq_false, false_or]
    at hsum ⊢
  constructor
  · rintro ⟨hnonneg, hbalance⟩
    split_ifs at hsum with hruns
    · refine ⟨hruns.2.1, hruns.1, entries, ?_, hruns.2.2.2⟩
      have hmisses : misses = [] := List.length_eq_zero_iff.mp (by omega)
      rw [passesGuards_iff, hround]
      exact ⟨rfl, hmisses⟩
    · omega
  · rintro ⟨hprefetch, hsome, entries', hpasses, hspan⟩
    rw [passesGuards_iff, hround] at hpasses
    obtain ⟨rfl, rfl⟩ := hpasses
    have hne : entries ≠ [] := by
      rintro rfl
      simp at hlength
      omega
    rw [if_pos ⟨hsome, hprefetch, hne, hspan⟩] at hsum
    simp only [List.length_nil] at hsum
    omega

/-- An absent key of an ordinary request. -/
theorem misses_balance_absentKey :
    ∃ r, (Storage.batchStore plainEnv (fun _ => false) 1).handleBatchGet true
        ⟨[lowerKey], true, false, fun _ => false⟩ (.empty none) = some r ∧
      (r.requested, r.found, r.misses) = (1, 0, [.notFound]) ∧ Balanced r := by
  have hrun : ((Storage.batchStore plainEnv (fun _ => false) 1).handleBatchGet true
      ⟨[lowerKey], true, false, fun _ => false⟩ (.empty none)).map
        (fun r => (r.requested, r.found, r.misses)) = some (1, 0, [.notFound]) := by
    decide +kernel
  obtain ⟨r, hr, hcounts⟩ := Option.map_eq_some_iff.mp hrun
  exact ⟨r, hr, hcounts, (misses_balance_iff _ _ _ _ r hr).mpr (.inl rfl)⟩

/-- A request that only looks ahead, around a key that is not stored: no key was requested, and a
miss is counted. -/
theorem anchor_counted_as_miss :
    ∃ r, (Storage.batchStore plainEnv (fun _ => false) 1).handleBatchGet true
        ⟨[lowerKey], true, true, fun _ => false⟩ (.empty none) = some r ∧
      (r.requested, r.found, r.anchors, r.misses) = (0, 0, 1, [.notFound]) ∧ ¬ Balanced r := by
  have hrun : ((Storage.batchStore plainEnv (fun _ => false) 1).handleBatchGet true
      ⟨[lowerKey], true, true, fun _ => false⟩ (.empty none)).map
        (fun r => (r.requested, r.found, r.anchors, r.misses)) = some (0, 0, 1, [.notFound]) := by
    decide +kernel
  obtain ⟨r, hr, hcounts⟩ := Option.map_eq_some_iff.mp hrun
  refine ⟨r, hr, hcounts, ?_⟩
  simp only [Prod.mk.injEq] at hcounts
  rw [Balanced, hcounts.1, hcounts.2.1, hcounts.2.2.2]
  decide

end BatchStore

end GoBuildCache
