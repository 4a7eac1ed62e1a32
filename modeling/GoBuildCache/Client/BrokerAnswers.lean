import GoBuildCache.Client.BrokerLink

/-!
# Every call gets its own answer

The channel of a call is in one place at most: in the table, on its way out of it with the reader,
or among those that have been sent a value. `weight` counts the places of a call, and `Inv` says
that a call that is on its way has exactly one. `Values` says that the values on their way are made
of records with the right ids, and `AllDue` that no call waits for a value that has been read. Put
together, these are the promises of the link (`asks_answered`).
-/

open ByteString Transition

namespace GoBuildCache

variable {E : Type}

/-- The call has registered its channel and has not returned. -/
def AskStage.InFlight : AskStage E → Prop
  | .registered | .unsent _ | .receiving => True
  | .numbered | .returned _ => False

/-- The calls whose channels the reader has taken out of the table, and not yet sent on. -/
def ReaderStage.pending : ReaderStage E → List ℕ
  | .sending i _ => [i]
  | .waking _ waiters => waiters
  | .receiving | .delivering .. | .failing _ | .ended => []

/-- `fail` has taken the table. -/
def ReaderStage.failed : ReaderStage E → Bool
  | .waking .. | .ended => true
  | .receiving | .delivering .. | .sending .. | .failing _ => false

namespace BrokerLink

/-- How often the channel of a call is in the table, with the reader, or has been sent a value. -/
def weight (b : BrokerLink E) (i : ℕ) : ℕ :=
  b.waiting.rows.count (i + 1, i) + b.reader.pending.count i + b.sends.count i

/-- What holds of a call. -/
structure AskInv (b : BrokerLink E) (i : ℕ) (a : Ask E) : Prop where
  /-- Calls are numbered in their order. -/
  id : a.id = i + 1
  /-- The channel is in one place at most. -/
  weight_le : b.weight i ≤ 1
  /-- A channel that is not registered is nowhere. -/
  numbered : a.stage = .numbered → b.weight i = 0
  /-- A channel that is registered is somewhere. -/
  inFlight : a.stage.InFlight → b.weight i = 1
  /-- The channels in the table are those of calls on their way. -/
  row : (i + 1, i) ∈ b.waiting.rows → a.stage.InFlight
  /-- A value in the slot has been sent. -/
  sent : a.waiter.isSome → i ∈ b.sends
  /-- A value that has been sent is in the slot until the call returns. -/
  slot : i ∈ b.sends → a.stage.InFlight → a.waiter.isSome

/-- What holds of a link. -/
structure Inv (b : BrokerLink E) : Prop where
  /-- Calls are numbered in their order. -/
  next : b.next = b.asks.length
  /-- A channel is registered under its number. -/
  rows : ∀ w ∈ b.waiting.rows, w.1 = w.2 + 1
  /-- Only channels of calls are anywhere. -/
  absent : ∀ i, b.asks.length ≤ i → b.weight i = 0
  /-- The calls. -/
  asks : ∀ i a, b.asks[i]? = some a → b.AskInv i a
  /-- `fail` has closed the link. -/
  closed : b.closed = b.reader.failed
  /-- A closed link has no channels in its table. -/
  empty : b.closed = true → b.waiting.rows = []

variable {b b' : BrokerLink E} {i j : ℕ} {a a' : Ask E}

/-- A step that does not touch the channel of a call keeps what holds of it. -/
lemma AskInv.frame (h : b.AskInv i a) (hweight : b'.weight i = b.weight i)
    (hrow : (i + 1, i) ∈ b'.waiting.rows → (i + 1, i) ∈ b.waiting.rows)
    (hsends : i ∈ b'.sends ↔ i ∈ b.sends) : b'.AskInv i a where
  id := h.id
  weight_le := hweight ▸ h.weight_le
  numbered := fun hstage => hweight ▸ h.numbered hstage
  inFlight := fun hstage => hweight ▸ h.inFlight hstage
  row := fun hmem => h.row (hrow hmem)
  sent := fun hslot => hsends.mpr (h.sent hslot)
  slot := fun hmem => h.slot (hsends.mp hmem)

/-- A step on the channel of one call. -/
lemma Inv.update (h : b.Inv) (hi : b.asks[i]? = some a) (hasks : b'.asks = b.asks.set i a')
    (hnext : b'.next = b.next) (hrows : ∀ w ∈ b'.waiting.rows, w.1 = w.2 + 1)
    (hweight : ∀ j ≠ i, b'.weight j = b.weight j)
    (hrow : ∀ j ≠ i, (j + 1, j) ∈ b'.waiting.rows → (j + 1, j) ∈ b.waiting.rows)
    (hsends : ∀ j ≠ i, (j ∈ b'.sends ↔ j ∈ b.sends)) (hself : b'.AskInv i a')
    (hclosed : b'.closed = b'.reader.failed) (hempty : b'.closed = true → b'.waiting.rows = []) :
    b'.Inv where
  next := by rw [hnext, hasks, List.length_set, h.next]
  rows := hrows
  absent := by
    intro j hj
    rw [hasks, List.length_set] at hj
    have hlt := (List.getElem?_eq_some_iff.mp hi).1
    rw [hweight j (by omega), h.absent j hj]
  asks := by
    intro j x hx
    rw [hasks, Parties.getElem?_set hi] at hx
    split_ifs at hx with hj
    · obtain rfl := Option.some.inj hx
      exact hj ▸ hself
    · exact (h.asks j x hx).frame (hweight j hj) (hrow j hj) (hsends j hj)
  closed := hclosed
  empty := hempty

/-- A step that leaves the calls as they are. -/
lemma Inv.keep (h : b.Inv) (hasks : b'.asks = b.asks) (hnext : b'.next = b.next)
    (hrows : ∀ w ∈ b'.waiting.rows, w ∈ b.waiting.rows)
    (hweight : ∀ j, b'.weight j = b.weight j) (hsends : b'.sends = b.sends)
    (hclosed : b'.closed = b'.reader.failed) (hempty : b'.closed = true → b'.waiting.rows = []) :
    b'.Inv where
  next := by rw [hnext, hasks, h.next]
  rows := fun w hw => h.rows w (hrows w hw)
  absent := by
    intro j hj
    rw [hweight, h.absent j (hasks ▸ hj)]
  asks := by
    intro j x hx
    rw [hasks] at hx
    exact (h.asks j x hx).frame (hweight j) (hrows _) (by rw [hsends])
  closed := hclosed
  empty := hempty

lemma weight_eq_zero_iff : b.weight i = 0 ↔
    (i + 1, i) ∉ b.waiting.rows ∧ i ∉ b.reader.pending ∧ i ∉ b.sends := by
  simp [weight, and_assoc, List.count_eq_zero]

lemma count_erase (t : Table (fun w : ℕ × ℕ => w.1)) (i j : ℕ) :
    (t.erase (i + 1)).rows.count (j + 1, j) = if j = i then 0 else t.rows.count (j + 1, j) := by
  rw [Table.rows_erase]
  split_ifs with h
  · subst h
    exact List.count_eq_zero.mpr (by simp)
  · exact List.count_filter (by simpa using h)

lemma count_put (t : Table (fun w : ℕ × ℕ => w.1)) (i j : ℕ) :
    (t.put 0 (i + 1, i)).rows.count (j + 1, j) = if j = i then 1 else t.rows.count (j + 1, j) := by
  change ((i + 1, i) :: (t.erase (i + 1)).rows).count (j + 1, j) = _
  rw [List.count_cons, count_erase]
  by_cases h : j = i
  · simp [h]
  · simp [h, Ne.symm h]

lemma inv_start : (start : BrokerLink E).Inv where
  next := rfl
  rows := by simp [start, Table.empty]
  absent := by simp [start, Table.empty, weight, ReaderStage.pending]
  asks := by simp [start]
  closed := rfl
  empty := by simp [start]

/-! ## Steps -/

lemma Inv.ask (h : b.Inv) :
    ({ b with next := b.next + 1, asks := b.asks ++ [⟨b.next + 1, .numbered, none⟩] } :
      BrokerLink E).Inv := by
  refine ⟨by simp [h.next], h.rows, ?_, ?_, h.closed, h.empty⟩
  · intro i hi
    rw [List.length_append, List.length_singleton] at hi
    exact h.absent i (by omega)
  · intro i a ha
    rcases Nat.lt_or_ge i b.asks.length with hlt | hge
    · rw [List.getElem?_append_left hlt] at ha
      exact (h.asks i a ha).frame rfl id Iff.rfl
    · have hweight : b.weight i = 0 := h.absent i hge
      have hnowhere := weight_eq_zero_iff.mp hweight
      obtain rfl : i = b.asks.length := by
        by_contra hne
        rw [List.getElem?_eq_none (by simp; omega)] at ha
        cases ha
      obtain rfl : _ = a := by simpa using ha
      exact ⟨by rw [h.next], hweight.le.trans zero_le_one, fun _ => hweight, False.elim,
        fun hmem => absurd hmem hnowhere.1, fun hslot => by simp at hslot, fun _ => False.elim⟩

/-- A call registers. -/
lemma Inv.registered (h : b.Inv) (hi : b.asks[i]? = some a) (hstage : a.stage = .numbered)
    (hclosed : b.closed = false) :
    ({ b.move i { a with stage := .registered } with waiting := b.waiting.put 0 (a.id, i) } :
      BrokerLink E).Inv := by
  have ha := h.asks i a hi
  have hnowhere := weight_eq_zero_iff.mp (ha.numbered hstage)
  rw [ha.id]
  have hcount := count_put b.waiting i
  refine h.update hi rfl rfl ?_ ?_ ?_ (fun _ _ => Iff.rfl) ?_ h.closed ?_
  · intro w hw
    rcases Table.mem_put.mp hw with rfl | ⟨hw, -⟩
    · rfl
    · exact h.rows w hw
  · intro j hj
    simp only [weight, hcount, if_neg hj]
    rfl
  · intro j hj hw
    rcases Table.mem_put.mp hw with heq | ⟨hw, -⟩
    · cases heq
      exact absurd rfl hj
    · exact hw
  · have hweight : BrokerLink.weight ({ b.move i { a with stage := .registered } with
        waiting := b.waiting.put 0 (i + 1, i) } : BrokerLink E) i = 1 := by
      simp only [weight, hcount, if_pos]
      simp only [move, List.count_eq_zero.mpr hnowhere.2.1, List.count_eq_zero.mpr hnowhere.2.2]
    exact ⟨rfl, hweight.le, nofun, fun _ => hweight, fun _ => trivial, ha.sent,
      fun hmem => absurd hmem hnowhere.2.2⟩
  · intro hc
    exact absurd (hclosed.symm.trans hc) Bool.false_ne_true

/-- A call changes its stage on the way. -/
lemma Inv.sent (h : b.Inv) (hi : b.asks[i]? = some a) (hstage : a.stage.InFlight)
    {stage : AskStage E} (hstage' : stage.InFlight) :
    (b.move i { a with stage := stage }).Inv := by
  have ha := h.asks i a hi
  refine h.update hi rfl rfl h.rows (fun _ _ => rfl) (fun _ _ => id) (fun _ _ => Iff.rfl) ?_
    h.closed h.empty
  have hne : stage ≠ .numbered := by
    rintro rfl
    exact hstage'
  exact ⟨ha.id, ha.weight_le, fun hst => absurd hst hne, fun _ => ha.inFlight hstage,
    fun _ => hstage', ha.sent, fun hmem _ => ha.slot hmem hstage⟩

/-- A call returns, and its channel is not in the table. -/
lemma Inv.returned (h : b.Inv) (hi : b.asks[i]? = some a)
    {result : AskResult E} {waiter : Option (Reply E)} (hrow : (i + 1, i) ∉ b.waiting.rows)
    (hslot : waiter.isSome → i ∈ b.sends) :
    (b.move i { a with stage := .returned result, waiter := waiter }).Inv := by
  have ha := h.asks i a hi
  refine h.update hi rfl rfl h.rows (fun _ _ => rfl) (fun _ _ => id) (fun _ _ => Iff.rfl) ?_
    h.closed h.empty
  exact ⟨ha.id, ha.weight_le, nofun, False.elim, fun hmem => absurd hmem hrow, hslot,
    fun _ => False.elim⟩

/-- A channel leaves the table. -/
lemma Inv.withdrawn (h : b.Inv) (hi : b.asks[i]? = some a) {result : AskResult E} :
    ({ b.move i { a with stage := .returned result } with waiting := b.waiting.erase a.id } :
      BrokerLink E).Inv := by
  have ha := h.asks i a hi
  rw [ha.id]
  have hcount := count_erase b.waiting i
  refine h.update hi rfl rfl ?_ ?_ ?_ (fun _ _ => Iff.rfl) ?_ h.closed ?_
  · intro w hw
    exact h.rows w (Table.mem_erase.mp hw).1
  · intro j hj
    simp only [weight, hcount, if_neg hj]
    rfl
  · intro j hj hw
    exact (Table.mem_erase.mp hw).1
  · refine ⟨rfl, ?_, nofun, False.elim, ?_, ha.sent, fun _ => False.elim⟩
    · have hle := ha.weight_le
      simp only [weight, hcount, if_pos] at hle ⊢
      simp only [move]
      omega
    · intro hmem
      exact absurd rfl (Table.mem_erase.mp hmem).2
  · intro hc
    have hrows := h.empty hc
    simp [Table.rows_erase, hrows]

lemma Inv.weight_le (h : b.Inv) (i : ℕ) : b.weight i ≤ 1 := by
  rcases hi : b.asks[i]? with _ | a
  · exact (h.absent i (List.getElem?_eq_none_iff.mp hi)).le.trans zero_le_one
  · exact (h.asks i a hi).weight_le

lemma count_map_snd {rows : List (ℕ × ℕ)} (h : ∀ w ∈ rows, w.1 = w.2 + 1) (j : ℕ) :
    (rows.map (·.2)).count j = rows.count (j + 1, j) := by
  induction rows with
  | nil => rfl
  | cons w rows ih =>
    rw [List.forall_mem_cons] at h
    obtain ⟨k, i⟩ := w
    obtain rfl : k = i + 1 := h.1
    rw [List.map_cons, List.count_cons, List.count_cons, ih h.2]
    simp [Prod.ext_iff]

/-- The reader takes a channel out of the table. -/
lemma Inv.taken (h : b.Inv) {id : ℕ} {r : Reply E} (hreader : b.reader = .delivering id r)
    (hrow : (id, i) ∈ b.waiting.rows) :
    ({ b with waiting := b.waiting.erase id, reader := .sending i r } : BrokerLink E).Inv := by
  obtain rfl : id = i + 1 := h.rows _ hrow
  have hcount := count_erase b.waiting i
  have hpos := List.count_pos_iff.mpr hrow
  have hopen : b.closed = false := by rw [h.closed, hreader, ReaderStage.failed]
  refine h.keep rfl rfl (fun w hw => (Table.mem_erase.mp hw).1) ?_ rfl hopen ?_
  · intro j
    have hle := h.weight_le j
    simp only [weight, hcount, hreader, ReaderStage.pending, List.count_nil, List.count_singleton,
      beq_iff_eq] at hle ⊢
    by_cases hj : j = i
    · subst hj
      simp only [if_pos]
      omega
    · simp [hj, Ne.symm hj]
  · intro hc
    exact absurd (hopen.symm.trans hc) Bool.false_ne_true

/-- The reader finds no channel in the table. -/
lemma Inv.dropped (h : b.Inv) {id : ℕ} {r : Reply E} (hreader : b.reader = .delivering id r)
    (hrow : ∀ i, (id, i) ∉ b.waiting.rows) :
    ({ b with waiting := b.waiting.erase id, reader := .receiving } : BrokerLink E).Inv := by
  have hrows : (b.waiting.erase id).rows = b.waiting.rows := by
    rw [Table.rows_erase, List.filter_eq_self]
    rintro ⟨k, i⟩ hw
    have hne : k ≠ id := by
      rintro rfl
      exact hrow i hw
    simpa using hne
  have hopen : b.closed = false := by rw [h.closed, hreader, ReaderStage.failed]
  refine h.keep rfl rfl (fun w hw => (Table.mem_erase.mp hw).1) ?_ rfl hopen ?_
  · intro j
    simp only [weight, hrows, hreader, ReaderStage.pending]
  · intro hc
    exact absurd (hopen.symm.trans hc) Bool.false_ne_true

/-- `fail` takes all channels out of the table. -/
lemma Inv.failed (h : b.Inv) {e : E} (hreader : b.reader = .failing e) (due : List ℕ) :
    ({ b with
        waiting := .empty
        closed := true
        reader := .waking e (b.waiting.rows.map (·.2))
        due := due } : BrokerLink E).Inv := by
  refine h.keep rfl rfl nofun ?_ rfl rfl (fun _ => rfl)
  intro j
  have hempty : (Table.empty : Table (fun w : ℕ × ℕ => w.1)).rows = [] := rfl
  simp only [weight, hreader, ReaderStage.pending, count_map_snd h.rows, hempty, List.count_nil]
  omega

/-- The reader sends a value on a channel. -/
lemma Inv.delivered (h : b.Inv) (hi : b.asks[i]? = some a) {reader : ReaderStage E} {r : Reply E}
    (hpending : ∀ j, b.reader.pending.count j = reader.pending.count j + if i = j then 1 else 0)
    (hfailed : reader.failed = b.reader.failed) :
    ({ b.move i { a with waiter := some r } with sends := i :: b.sends, reader := reader } :
      BrokerLink E).Inv := by
  have ha := h.asks i a hi
  have hweight : ∀ j, BrokerLink.weight ({ b.move i { a with waiter := some r } with
      sends := i :: b.sends, reader := reader } : BrokerLink E) j = b.weight j := by
    intro j
    have hj := hpending j
    simp only [weight, move, List.count_cons, beq_iff_eq]
    omega
  refine h.update hi rfl rfl h.rows (fun j _ => hweight j) (fun _ _ => id) ?_ ?_
    (h.closed.trans hfailed.symm) h.empty
  · intro j hj
    simp [hj]
  · exact ⟨ha.id, (hweight i).le.trans ha.weight_le, fun hst => (hweight i).trans (ha.numbered hst),
      fun hst => (hweight i).trans (ha.inFlight hst), ha.row, fun _ => List.mem_cons_self ..,
      fun _ _ => rfl⟩

lemma cons_eraseIdx_perm {l : List ℕ} {n : ℕ} (hn : l[n]? = some i) :
    (i :: l.eraseIdx n).Perm l := by
  obtain ⟨hlt, rfl⟩ := List.getElem?_eq_some_iff.mp hn
  exact List.getElem_cons_eraseIdx_perm hlt

theorem Inv.goes (h : b.Inv) (hgoes : b.Goes b') : b'.Inv := by
  cases hgoes with
  | ask => exact h.ask
  | turnedAway hi hstage hclosed =>
    have hrows := h.empty hclosed
    exact h.returned hi (by simp [hrows]) (h.asks _ _ hi).sent
  | registered hi hstage hclosed => exact h.registered hi hstage hclosed
  | sent hi hstage err =>
    refine h.sent hi (hstage ▸ trivial) ?_
    cases err <;> trivial
  | withdrawn hi hstage => exact h.withdrawn hi
  | received hi hstage hslot =>
    have ha := h.asks _ _ hi
    have hmem := ha.sent (by simp [hslot])
    refine h.returned hi ?_ nofun
    intro hrow
    have hle := ha.weight_le
    have hrows := List.count_pos_iff.mpr hrow
    have hsends := List.count_pos_iff.mpr hmem
    simp only [weight] at hle
    omega
  | skipped hreader => exact h.keep rfl rfl (fun _ => id) (fun _ => rfl) rfl h.closed h.empty
  | read hreader hrec =>
    have hopen : b.closed = false := by rw [h.closed, hreader, ReaderStage.failed]
    refine h.keep rfl rfl (fun _ => id) ?_ rfl hopen h.empty
    intro j
    simp only [weight, hreader, ReaderStage.pending]
  | failing hreader =>
    have hopen : b.closed = false := by rw [h.closed, hreader, ReaderStage.failed]
    refine h.keep rfl rfl (fun _ => id) ?_ rfl hopen h.empty
    intro j
    simp only [weight, hreader, ReaderStage.pending]
  | taken hreader hrow => exact h.taken hreader hrow
  | dropped hreader hrow => exact h.dropped hreader hrow
  | @delivered i a r hreader hi hslot =>
    refine h.delivered hi ?_ (by rw [hreader]; rfl)
    intro j
    simp [hreader, ReaderStage.pending, List.count_singleton]
  | failed hreader => exact h.failed hreader _
  | @woken e waiters n i a hreader hn hi hslot =>
    refine h.delivered hi ?_ (by rw [hreader]; rfl)
    intro j
    rw [hreader]
    have hcount := (cons_eraseIdx_perm hn).count_eq j
    rw [List.count_cons] at hcount
    simp only [ReaderStage.pending, ← hcount, beq_iff_eq]
  | finished hreader =>
    refine h.keep rfl rfl (fun _ => id) ?_ rfl ?_ h.empty
    · intro j
      simp only [weight, hreader, ReaderStage.pending]
    · rw [h.closed, hreader]
      rfl

/-! ## Values -/

/-- A record with the id has been read, and the reply is made of it. -/
def Answers (b : BrokerLink E) (id : ℕ) (r : Reply E) : Prop :=
  ∃ t ∈ b.records, readReply E t.1 t.2 = some (id, r)

/-- The reply is an answer to the call, or says that the link has failed. -/
def Told (b : BrokerLink E) (id : ℕ) (r : Reply E) : Prop :=
  b.Answers id r ∨ b.closed = true ∧ ∃ e, r = failure e

/-- The values on their way are for the calls that get them. -/
structure Values (b : BrokerLink E) : Prop where
  /-- The value in a slot. -/
  slot : ∀ (i : ℕ) (a : Ask E) (r : Reply E), b.asks[i]? = some a → a.waiter = some r →
    b.Told a.id r
  /-- The value that a call has returned. -/
  reply : ∀ (i : ℕ) (a : Ask E) (r : Reply E), b.asks[i]? = some a →
    a.stage = .returned (.reply r) → b.Told a.id r
  /-- A call finds the link closed only if it is. -/
  closed : ∀ (i : ℕ) (a : Ask E), b.asks[i]? = some a → a.stage = .returned .closed →
    b.closed = true
  /-- The value with which the reader looks for a channel. -/
  delivering : ∀ id r, b.reader = .delivering id r → b.Answers id r
  /-- The value with which it has found one. -/
  sending : ∀ i r, b.reader = .sending i r → b.Answers (i + 1) r

lemma Told.mono {id : ℕ} {r : Reply E} (h : b.Told id r)
    (hrecords : ∀ t ∈ b.records, t ∈ b'.records) (hclosed : b.closed = true → b'.closed = true) :
    b'.Told id r := by
  rcases h with ⟨t, ht, hread⟩ | ⟨hc, he⟩
  · exact Or.inl ⟨t, hrecords t ht, hread⟩
  · exact Or.inr ⟨hclosed hc, he⟩

/-- A step on one call. -/
lemma Values.update (h : b.Values) (hi : b.asks[i]? = some a) (hasks : b'.asks = b.asks.set i a')
    (hid : a'.id = a.id) (hrecords : b'.records = b.records) (hclosed : b'.closed = b.closed)
    (hslot : ∀ r, a'.waiter = some r → a.waiter = some r ∨ b.Told a.id r)
    (hreply : ∀ r, a'.stage = .returned (.reply r) →
      a.stage = .returned (.reply r) ∨ b.Told a.id r)
    (hturned : a'.stage = .returned .closed → a.stage = .returned .closed ∨ b.closed = true)
    (hdelivering : ∀ id r, b'.reader = .delivering id r → b.reader = .delivering id r)
    (hsending : ∀ i r, b'.reader = .sending i r → b.reader = .sending i r) : b'.Values := by
  have htold : ∀ {id r}, b.Told id r → b'.Told id r := by
    intro id r htold
    exact htold.mono (fun t ht => hrecords ▸ ht) (fun hc => hclosed ▸ hc)
  have hanswers : ∀ {id r}, b.Answers id r → b'.Answers id r := by
    rintro id r ⟨t, ht, hread⟩
    exact ⟨t, hrecords ▸ ht, hread⟩
  refine ⟨?_, ?_, ?_, fun id r hr => hanswers (h.delivering id r (hdelivering id r hr)),
    fun i r hr => hanswers (h.sending i r (hsending i r hr))⟩
  all_goals
    intro j x
    rw [hasks, Parties.getElem?_set hi]
    split_ifs with hj
  · intro r hx hr
    obtain rfl := Option.some.inj hx
    rw [hid]
    rcases hslot r hr with hold | hnew
    · exact htold (h.slot i a r hi hold)
    · exact htold hnew
  · intro r hx hr
    exact htold (h.slot j x r hx hr)
  · intro r hx hr
    obtain rfl := Option.some.inj hx
    rw [hid]
    rcases hreply r hr with hold | hnew
    · exact htold (h.reply i a r hi hold)
    · exact htold hnew
  · intro r hx hr
    exact htold (h.reply j x r hx hr)
  · intro hx hr
    obtain rfl := Option.some.inj hx
    rw [hclosed]
    rcases hturned hr with hold | hnew
    · exact h.closed i a hi hold
    · exact hnew
  · intro hx hr
    rw [hclosed]
    exact h.closed j x hx hr

/-- A step that leaves the calls as they are. -/
lemma Values.keep (h : b.Values) (hasks : b'.asks = b.asks)
    (hrecords : ∀ t ∈ b.records, t ∈ b'.records) (hclosed : b.closed = true → b'.closed = true)
    (hdelivering : ∀ id r, b'.reader = .delivering id r → b'.Answers id r)
    (hsending : ∀ i r, b'.reader = .sending i r → b'.Answers (i + 1) r) : b'.Values where
  slot := fun i a r hi hr => (h.slot i a r (hasks ▸ hi) hr).mono hrecords hclosed
  reply := fun i a r hi hr => (h.reply i a r (hasks ▸ hi) hr).mono hrecords hclosed
  closed := fun i a hi hr => hclosed (h.closed i a (hasks ▸ hi) hr)
  delivering := hdelivering
  sending := hsending

/-- A call that has just begun has no value. -/
lemma Values.ask (h : b.Values) :
    ({ b with next := b.next + 1, asks := b.asks ++ [⟨b.next + 1, .numbered, none⟩] } :
      BrokerLink E).Values := by
  have hold : ∀ (j : ℕ) (x : Ask E), (b.asks ++ [⟨b.next + 1, .numbered, none⟩])[j]? = some x →
      b.asks[j]? = some x ∨ x.waiter = none ∧ x.stage = .numbered := by
    intro j x hx
    rcases Nat.lt_or_ge j b.asks.length with hlt | hge
    · rw [List.getElem?_append_left hlt] at hx
      exact Or.inl hx
    · rw [List.getElem?_append_right hge] at hx
      have hmem := List.mem_of_getElem? hx
      rw [List.mem_singleton] at hmem
      rw [hmem]
      exact Or.inr ⟨rfl, rfl⟩
  refine ⟨?_, ?_, ?_, h.delivering, h.sending⟩
  · intro j x r hx hr
    rcases hold j x hx with hx | ⟨hslot, -⟩
    · exact h.slot j x r hx hr
    · rw [hslot] at hr
      cases hr
  · intro j x r hx hr
    rcases hold j x hx with hx | ⟨-, hstage⟩
    · exact h.reply j x r hx hr
    · rw [hstage] at hr
      cases hr
  · intro j x hx hr
    rcases hold j x hx with hx | ⟨-, hstage⟩
    · exact h.closed j x hx hr
    · rw [hstage] at hr
      cases hr

theorem Values.goes (h : b.Values) (hb : b.Inv) (hgoes : b.Goes b') : b'.Values := by
  cases hgoes with
  | ask => exact h.ask
  | turnedAway hi hstage hclosed =>
    exact h.update hi rfl rfl rfl rfl (fun _ => Or.inl) nofun (fun _ => Or.inr hclosed)
      (fun _ _ => id) (fun _ _ => id)
  | registered hi hstage hclosed =>
    exact h.update hi rfl rfl rfl rfl (fun _ => Or.inl) nofun nofun (fun _ _ => id) (fun _ _ => id)
  | sent hi hstage err =>
    refine h.update hi rfl rfl rfl rfl (fun _ => Or.inl) ?_ ?_ (fun _ _ => id) (fun _ _ => id)
    · cases err <;> nofun
    · cases err <;> nofun
  | withdrawn hi hstage =>
    exact h.update hi rfl rfl rfl rfl (fun _ => Or.inl) nofun nofun (fun _ _ => id) (fun _ _ => id)
  | received hi hstage hslot =>
    refine h.update hi rfl rfl rfl rfl nofun ?_ nofun (fun _ _ => id) (fun _ _ => id)
    intro r hr
    cases hr
    exact Or.inr (h.slot _ _ _ hi hslot)
  | skipped hreader =>
    refine h.keep rfl (fun _ => List.mem_cons_of_mem _) id ?_ ?_
    · intro id r hr
      exact absurd (hreader.symm.trans hr) nofun
    · intro i r hr
      exact absurd (hreader.symm.trans hr) nofun
  | read hreader hrec =>
    refine h.keep rfl (fun _ => List.mem_cons_of_mem _) id ?_ nofun
    intro id r hr
    cases hr
    exact ⟨_, List.mem_cons_self .., hrec⟩
  | failing hreader => exact h.keep rfl (fun _ => id) id nofun nofun
  | @taken number i r hreader hrow =>
    obtain rfl : number = i + 1 := hb.rows _ hrow
    refine h.keep rfl (fun _ => id) id nofun ?_
    intro j r' hr
    cases hr
    exact h.delivering _ _ hreader
  | dropped hreader hrow => exact h.keep rfl (fun _ => id) id nofun nofun
  | delivered hreader hi hslot =>
    refine h.update hi rfl rfl rfl rfl ?_ (fun _ => Or.inl) Or.inl nofun nofun
    intro r hr
    cases hr
    rw [(hb.asks _ _ hi).id]
    exact Or.inr (Or.inl (h.sending _ _ hreader))
  | failed hreader => exact h.keep rfl (fun _ => id) (fun _ => rfl) nofun nofun
  | woken hreader hn hi hslot =>
    refine h.update hi rfl rfl rfl rfl ?_ (fun _ => Or.inl) Or.inl nofun nofun
    intro r hr
    cases hr
    refine Or.inr (Or.inr ⟨?_, _, rfl⟩)
    rw [hb.closed, hreader]
    rfl
  | finished hreader => exact h.keep rfl (fun _ => id) id nofun nofun

/-! ## Calls that are due a value -/

/-- A call that is due a value has it, or the reader is about to send it, or the call has
returned. -/
def Due (b : BrokerLink E) (i : ℕ) (a : Ask E) : Prop :=
  (∃ result, a.stage = .returned result) ∨ a.stage.InFlight ∧
    (i ∈ b.reader.pending ∨ i ∈ b.sends ∨ ∃ r, b.reader = .delivering (i + 1) r)

/-- All calls that are due a value. -/
def AllDue (b : BrokerLink E) : Prop :=
  ∀ i ∈ b.due, ∃ a, b.asks[i]? = some a ∧ b.Due i a

/-- A step on one call. -/
lemma AllDue.update (h : b.AllDue) (hi : b.asks[i]? = some a) (hasks : b'.asks = b.asks.set i a')
    (hdue : b'.due = b.due) (hself : b.Due i a → b'.Due i a')
    (hothers : ∀ j x, b.Due j x → b'.Due j x) : b'.AllDue := by
  intro j hj
  obtain ⟨x, hx, hxdue⟩ := h j (hdue ▸ hj)
  rw [hasks, Parties.getElem?_set hi]
  split_ifs with hji
  · subst hji
    obtain rfl := Option.some.inj (hi.symm.trans hx)
    exact ⟨a', rfl, hself hxdue⟩
  · exact ⟨x, hx, hothers j x hxdue⟩

/-- A step that leaves the calls as they are. -/
lemma AllDue.keep (h : b.AllDue) (hasks : b'.asks = b.asks)
    (hdue : ∀ i ∈ b'.due, i ∈ b.due ∨ ∃ a, b.asks[i]? = some a ∧ b'.Due i a)
    (hold : ∀ (i : ℕ) (a : Ask E), b.asks[i]? = some a → b.Due i a → b'.Due i a) :
    b'.AllDue := by
  intro i hi
  rw [hasks]
  rcases hdue i hi with hmem | hnew
  · obtain ⟨a, ha, hadue⟩ := h i hmem
    exact ⟨a, ha, hold i a ha hadue⟩
  · exact hnew

/-- A call with its channel in the table is on its way. -/
lemma Inv.row_inFlight (h : b.Inv) {number : ℕ} (hrow : (number, i) ∈ b.waiting.rows) :
    number = i + 1 ∧ ∃ a, b.asks[i]? = some a ∧ a.stage.InFlight := by
  obtain rfl : number = i + 1 := h.rows _ hrow
  refine ⟨rfl, ?_⟩
  rcases hi : b.asks[i]? with _ | a
  · have hzero := weight_eq_zero_iff.mp (h.absent i (List.getElem?_eq_none_iff.mp hi))
    exact absurd hrow hzero.1
  · exact ⟨a, rfl, (h.asks i a hi).row hrow⟩

/-- While the reader has nothing to hand over, a call that is due a value has it. -/
lemma Due.of_receiving (h : b.Due i a) (hpending : b.reader.pending = [])
    (hreader : ∀ id r, b.reader ≠ .delivering id r) :
    (∃ result, a.stage = .returned result) ∨ a.stage.InFlight ∧ i ∈ b.sends := by
  rcases h with hreturned | ⟨hflight, hmem | hsent | ⟨r, hr⟩⟩
  · exact Or.inl hreturned
  · rw [hpending] at hmem
    cases hmem
  · exact Or.inr ⟨hflight, hsent⟩
  · exact absurd hr (hreader _ r)

/-- It keeps the value, whatever the reader does next. -/
lemma AllDue.of_idle (h : b.AllDue) (hasks : b'.asks = b.asks) (hsends : b'.sends = b.sends)
    (hpending : b.reader.pending = []) (hreader : ∀ id r, b.reader ≠ .delivering id r)
    (hdue : ∀ i ∈ b'.due, i ∈ b.due ∨ ∃ a, b.asks[i]? = some a ∧ b'.Due i a) : b'.AllDue := by
  refine h.keep hasks hdue ?_
  intro i a _ hold
  rcases hold.of_receiving hpending hreader with hreturned | ⟨hflight, hsent⟩
  · exact Or.inl hreturned
  · exact Or.inr ⟨hflight, Or.inr (Or.inl (hsends ▸ hsent))⟩

/-- The reader sends a value on a channel. -/
lemma AllDue.delivered (h : b.AllDue) (hi : b.asks[i]? = some a) {reader : ReaderStage E}
    {r : Reply E} (hpending : ∀ j ∈ b.reader.pending, j = i ∨ j ∈ reader.pending)
    (hreader : ∀ id r, b.reader ≠ .delivering id r) :
    AllDue ({ b.move i { a with waiter := some r } with
      sends := i :: b.sends, reader := reader } : BrokerLink E) := by
  have hold : ∀ j x, b.Due j x → Due ({ b.move i { a with waiter := some r } with
      sends := i :: b.sends, reader := reader } : BrokerLink E) j x := by
    rintro j x (hreturned | ⟨hflight, hmem | hsent | ⟨r', hr⟩⟩)
    · exact Or.inl hreturned
    · rcases hpending j hmem with rfl | hmem
      · exact Or.inr ⟨hflight, Or.inr (Or.inl (List.mem_cons_self ..))⟩
      · exact Or.inr ⟨hflight, Or.inl hmem⟩
    · exact Or.inr ⟨hflight, Or.inr (Or.inl (List.mem_cons_of_mem _ hsent))⟩
    · exact absurd hr (hreader _ r')
  exact h.update hi rfl rfl (hold i a) hold

lemma AllDue.ask (h : b.AllDue) :
    AllDue ({ b with next := b.next + 1, asks := b.asks ++ [⟨b.next + 1, .numbered, none⟩] } :
      BrokerLink E) := by
  intro i hi
  obtain ⟨a, ha, hadue⟩ := h i hi
  refine ⟨a, ?_, hadue⟩
  have hlt := (List.getElem?_eq_some_iff.mp ha).1
  change (b.asks ++ _)[i]? = some a
  rw [List.getElem?_append_left hlt, ha]

/-- A reply is due to the call that is registered under its id. -/
lemma AllDue.read (h : b.AllDue) (hb : b.Inv) (hreader : b.reader = .receiving)
    (records : List (ℕ × Bytes)) (id : ℕ) (r : Reply E) :
    AllDue ({ b with
      records := records
      reader := .delivering id r
      due := ((b.waiting.find id).map (·.2)).toList ++ b.due } : BrokerLink E) := by
  refine h.of_idle rfl rfl (by rw [hreader]; rfl) (by simp [hreader]) ?_
  intro i hi
  rcases List.mem_append.mp hi with hnew | hold
  · rw [Option.mem_toList, Option.map_eq_some_iff] at hnew
    obtain ⟨⟨number, j⟩, hfind, rfl⟩ := hnew
    obtain ⟨hrow, rfl⟩ := Table.find_eq_some_iff.mp hfind
    obtain ⟨rfl, a, ha, hflight⟩ := hb.row_inFlight hrow
    exact Or.inr ⟨a, ha, Or.inr ⟨hflight, Or.inr (Or.inr ⟨r, rfl⟩)⟩⟩
  · exact Or.inl hold

/-- The channel that the reader has taken is the one that was due the value. -/
lemma AllDue.taken (h : b.AllDue) (hb : b.Inv) {number : ℕ} {r : Reply E}
    (hreader : b.reader = .delivering number r) (hrow : (number, i) ∈ b.waiting.rows) :
    AllDue ({ b with
      waiting := b.waiting.erase number, reader := .sending i r } : BrokerLink E) := by
  obtain rfl : number = i + 1 := hb.rows _ hrow
  refine h.keep rfl (fun _ => Or.inl) ?_
  rintro j a ha (hreturned | ⟨hflight, hmem | hsent | ⟨r', hr⟩⟩)
  · exact Or.inl hreturned
  · rw [hreader] at hmem
    cases hmem
  · exact Or.inr ⟨hflight, Or.inr (Or.inl hsent)⟩
  · rw [hreader] at hr
    cases hr
    exact Or.inr ⟨hflight, Or.inl (List.mem_singleton_self _)⟩

/-- A call that was due the value of a reply that finds no channel has been sent another one. -/
lemma AllDue.dropped (h : b.AllDue) (hb : b.Inv) {number : ℕ} {r : Reply E}
    (hreader : b.reader = .delivering number r) (hrow : ∀ i, (number, i) ∉ b.waiting.rows) :
    AllDue ({ b with
      waiting := b.waiting.erase number, reader := .receiving } : BrokerLink E) := by
  refine h.keep rfl (fun _ => Or.inl) ?_
  rintro j a ha (hreturned | ⟨hflight, hplace⟩)
  · exact Or.inl hreturned
  · refine Or.inr ⟨hflight, Or.inr (Or.inl ?_)⟩
    rcases hplace with hmem | hsent | ⟨r', hr⟩
    · rw [hreader] at hmem
      cases hmem
    · exact hsent
    · -- The channel is not in the table any more, and the reader does not have it.
      rw [hreader] at hr
      cases hr
      have hweight := (hb.asks j a ha).inFlight hflight
      have hzero : b.waiting.rows.count (j + 1, j) = 0 := List.count_eq_zero.mpr (hrow j)
      rw [weight, hzero, hreader] at hweight
      simp only [ReaderStage.pending, List.count_nil, zero_add] at hweight
      exact List.count_pos_iff.mp (hweight ▸ Nat.one_pos)

/-- A failure is due to all calls that are registered. -/
lemma AllDue.failed (h : b.AllDue) (hb : b.Inv) {e : E} (hreader : b.reader = .failing e) :
    AllDue ({ b with
      waiting := .empty
      closed := true
      reader := .waking e (b.waiting.rows.map (·.2))
      due := b.waiting.rows.map (·.2) ++ b.due } : BrokerLink E) := by
  refine h.of_idle rfl rfl (by rw [hreader]; rfl) (by simp [hreader]) ?_
  intro i hi
  rcases List.mem_append.mp hi with hnew | hold
  · obtain ⟨⟨number, j⟩, hrow, rfl⟩ := List.mem_map.mp hnew
    obtain ⟨-, a, ha, hflight⟩ := hb.row_inFlight hrow
    exact Or.inr ⟨a, ha, Or.inr ⟨hflight, Or.inl hnew⟩⟩
  · exact Or.inl hold

theorem AllDue.goes (h : b.AllDue) (hb : b.Inv) (hgoes : b.Goes b') : b'.AllDue := by
  cases hgoes with
  | ask => exact h.ask
  | turnedAway hi hstage hclosed =>
    exact h.update hi rfl rfl (fun _ => Or.inl ⟨_, rfl⟩) (fun _ _ => id)
  | registered hi hstage hclosed =>
    refine h.update hi rfl rfl ?_ (fun _ _ => id)
    rintro (⟨result, hr⟩ | ⟨hflight, -⟩)
    · rw [hstage] at hr
      cases hr
    · rw [hstage] at hflight
      exact hflight.elim
  | sent hi hstage err =>
    refine h.update hi rfl rfl ?_ (fun _ _ => id)
    rintro (⟨result, hr⟩ | ⟨-, hplace⟩)
    · rw [hstage] at hr
      cases hr
    · refine Or.inr ⟨?_, hplace⟩
      cases err <;> trivial
  | withdrawn hi hstage => exact h.update hi rfl rfl (fun _ => Or.inl ⟨_, rfl⟩) (fun _ _ => id)
  | received hi hstage hslot =>
    exact h.update hi rfl rfl (fun _ => Or.inl ⟨_, rfl⟩) (fun _ _ => id)
  | skipped hreader => exact h.keep rfl (fun _ => Or.inl) (fun _ _ _ => id)
  | read hreader hrec => exact h.read hb hreader _ _ _
  | failing hreader =>
    exact h.of_idle rfl rfl (by rw [hreader]; rfl) (by simp [hreader]) (fun _ => Or.inl)
  | taken hreader hrow => exact h.taken hb hreader hrow
  | dropped hreader hrow => exact h.dropped hb hreader hrow
  | delivered hreader hi hslot =>
    refine h.delivered hi ?_ (by simp [hreader])
    intro j hj
    rw [hreader] at hj
    exact Or.inl (List.mem_singleton.mp hj)
  | failed hreader => exact h.failed hb hreader
  | woken hreader hn hi hslot =>
    refine h.delivered hi ?_ (by simp [hreader])
    intro j hj
    rw [hreader] at hj
    exact List.mem_cons.mp ((cons_eraseIdx_perm hn).mem_iff.mpr hj)
  | finished hreader =>
    exact h.of_idle rfl rfl (by rw [hreader]; rfl) (by simp [hreader]) (fun _ => Or.inl)

/-! ## The guarantee -/

/-- A call has returned an answer to its own id, or an error of the ring. -/
def OwnResult (b : BrokerLink E) (a : Ask E) : AskResult E → Prop
  | .reply r => b.Told a.id r
  | .sendError _ => True
  | .closed => b.closed = true

/-- What the link promises its callers. -/
structure Guarantee (b : BrokerLink E) : Prop where
  /-- The calls have different ids. -/
  distinct : (b.asks.map (·.id)).Nodup
  /-- A call that returns does so with an answer to its id, a send error or a failure of the
  link. -/
  own : ∀ (i : ℕ) (a : Ask E) (result : AskResult E), b.asks[i]? = some a →
    a.stage = .returned result → b.OwnResult a result
  /-- No channel is sent two values. -/
  once : b.sends.Nodup
  /-- `deliver` does not block. -/
  delivers : ∀ i r, b.reader = .sending i r → (b.step .deliver).isSome
  /-- `fail` does not block. -/
  wakes : ∀ e waiters, b.reader = .waking e waiters → ∀ n < waiters.length,
    (b.step (.wake n)).isSome
  /-- A call for which a reply has been read, or the link has failed, while it was registered has a
  value, as soon as the reader has handed it over. -/
  due : b.reader.pending = [] → (∀ id r, b.reader ≠ .delivering id r) → ∀ i ∈ b.due,
    ∃ a, b.asks[i]? = some a ∧ ((∃ result, a.stage = .returned result) ∨ a.waiter.isSome)
  /-- After `fail` has taken the table, it stays empty. -/
  empty : b.closed = true → b.waiting.rows = []
  /-- After that, a call that has not registered returns at once. -/
  turnedAway : b.closed = true → ∀ (i : ℕ) (a : Ask E), b.asks[i]? = some a → a.stage = .numbered →
    b.step (.act i .register) = some (b.move i { a with stage := .returned .closed })
  /-- When `fail` has completed, no call is left blocked. -/
  unblocked : b.reader = .ended → ∀ (i : ℕ) (a : Ask E), b.asks[i]? = some a →
    (∃ result, a.stage = .returned result) ∨ ∃ action, (b.step (.act i action)).isSome

/-- A channel that the reader has taken out of the table is free. -/
lemma Inv.free_of_pending (h : b.Inv) (hi : i ∈ b.reader.pending) :
    ∃ a, b.asks[i]? = some a ∧ a.waiter = none := by
  have hpos := List.count_pos_iff.mpr hi
  rcases ha : b.asks[i]? with _ | a
  · have hzero := h.absent i (List.getElem?_eq_none_iff.mp ha)
    rw [weight] at hzero
    omega
  · refine ⟨a, rfl, ?_⟩
    rcases hslot : a.waiter with _ | r
    · rfl
    · have hsent := List.count_pos_iff.mpr ((h.asks i a ha).sent (by simp [hslot]))
      have hle := h.weight_le i
      rw [weight] at hle
      omega

lemma send_isSome {r : Reply E} (hi : b.asks[i]? = some a) (hslot : a.waiter = none) :
    (b.send i r).isSome := by
  simp [send, hi, hslot]

lemma Inv.guarantee (h : b.Inv) (hvalues : b.Values) (hdue : b.AllDue) : b.Guarantee where
  distinct := by
    have hids : b.asks.map (·.id) = (List.range b.asks.length).map (· + 1) := by
      refine List.ext_getElem (by simp) ?_
      intro i hi _
      rw [List.length_map] at hi
      rw [List.getElem_map, List.getElem_map, List.getElem_range]
      exact (h.asks i _ (List.getElem?_eq_getElem hi)).id
    rw [hids]
    exact List.nodup_range.map (add_left_injective 1)
  own := by
    intro i a result hi hstage
    cases result with
    | reply r => exact hvalues.reply i a r hi hstage
    | sendError e => trivial
    | closed => exact hvalues.closed i a hi hstage
  once := by
    rw [List.nodup_iff_count_le_one]
    intro i
    have hle := h.weight_le i
    rw [weight] at hle
    omega
  delivers := by
    intro i r hreader
    have hmem : i ∈ b.reader.pending := by
      rw [hreader]
      exact List.mem_singleton_self i
    obtain ⟨a, hi, hslot⟩ := h.free_of_pending hmem
    simp only [step, hreader, Option.isSome_map]
    exact send_isSome hi hslot
  wakes := by
    intro e waiters hreader n hn
    have hmem : waiters[n] ∈ b.reader.pending := by
      rw [hreader]
      exact List.getElem_mem hn
    obtain ⟨a, hi, hslot⟩ := h.free_of_pending hmem
    simp only [step, hreader, List.getElem?_eq_getElem hn, Option.bind_some, Option.isSome_map]
    exact send_isSome hi hslot
  due := by
    intro hpending hreader i hi
    obtain ⟨a, ha, hadue⟩ := hdue i hi
    refine ⟨a, ha, ?_⟩
    rcases hadue.of_receiving hpending hreader with hreturned | ⟨hflight, hsent⟩
    · exact Or.inl hreturned
    · exact Or.inr ((h.asks i a ha).slot hsent hflight)
  empty := h.empty
  turnedAway := by
    intro hclosed i a hi hstage
    simp [step, hi, advance, hstage, hclosed]
  unblocked := by
    intro hreader i a hi
    have hclosed : b.closed = true := by rw [h.closed, hreader]; rfl
    rcases hstage : a.stage with _ | _ | e | _ | result
    · exact Or.inr ⟨.register, by simp [step, hi, advance, hstage, hclosed]⟩
    · exact Or.inr ⟨.sendTyped none, by simp [step, hi, advance, hstage]⟩
    · exact Or.inr ⟨.withdraw, by simp [step, hi, advance, hstage]⟩
    · -- A call that is on its way has its channel among those that have been sent a value.
      have hflight : a.stage.InFlight := hstage ▸ trivial
      have hweight := (h.asks i a hi).inFlight hflight
      rw [weight, h.empty hclosed, hreader] at hweight
      simp only [ReaderStage.pending, List.count_nil, zero_add] at hweight
      have hsent : i ∈ b.sends := List.count_pos_iff.mp (hweight ▸ Nat.one_pos)
      obtain ⟨r, hr⟩ := Option.isSome_iff_exists.mp ((h.asks i a hi).slot hsent hflight)
      exact Or.inr ⟨.receive, by simp [step, hi, advance, hstage, hr]⟩
    · exact Or.inl ⟨result, rfl⟩

/-- Whatever the ring delivers and whenever it fails, every call gets its own answer. -/
theorem asks_answered (ls : List (Label E)) (hrun : run step start ls = some b) :
    b.Guarantee := by
  have hall : b.Inv ∧ b.Values ∧ b.AllDue := by
    refine run_invariant_of_step (I := fun b => b.Inv ∧ b.Values ∧ b.AllDue) ?_ ?_ hrun
    · rintro s l t ⟨hinv, hvalues, hdue⟩ hstep
      have hgoes := goes_of_step hstep
      exact ⟨hinv.goes hgoes, hvalues.goes hinv hgoes, hdue.goes hinv hgoes⟩
    · exact ⟨inv_start, ⟨by simp [start], by simp [start], by simp [start], nofun, nofun⟩, nofun⟩
  exact hall.1.guarantee hall.2.1 hall.2.2

/-- Two calls, replies out of order, repeated and for nobody, and then the ring fails. -/
def crossedReplies : List (Label Unit) :=
  [.ask, .ask, .act 1 .register, .act 0 .register, .act 0 (.sendTyped none),
    .recv stMiss (leBytes 8 2), .take, .deliver, .act 1 (.sendTyped none), .act 1 .receive,
    .recv stMiss (leBytes 8 2), .take, .recv stEntry (leBytes 8 9), .take, .recv stMiss [1],
    .recvError (), .ask, .fail, .act 2 .register, .wake 0, .finish, .act 0 .receive]

theorem asks_answered_crossedReplies :
    ∃ b, run step start crossedReplies = some b ∧
      b.asks.map (·.stage) = [.returned (.reply (failure ())),
        .returned (.reply ⟨stMiss, .zero, [], some .miss⟩), .returned .closed] ∧
      b.Guarantee := by
  obtain ⟨b, hrun, hstages⟩ : ∃ b ∈ run step start crossedReplies,
      b.asks.map (·.stage) = [.returned (.reply (failure ())),
        .returned (.reply ⟨stMiss, .zero, [], some .miss⟩), .returned .closed] := by
    decide +kernel
  exact ⟨b, hrun, hstages, asks_answered crossedReplies hrun⟩

end BrokerLink

end GoBuildCache
