import GoBuildCache.Foundation.Bytes

/-!
# Lexical processing of slash-separated paths

`clean`, `join`, `dir` and `base` follow the documented lexical rules for slash-separated paths:
`clean` drops empty and `.` elements, lets `..` cancel the element before it, and drops `..` at a
root. A path is read as a flag, whether it is rooted, and the list `cleanElems` of the elements
that survive. On that reading the operations are list operations: `join` concatenates
(`cleanElems_join`), `dir` drops the last element and `base` returns it (`cleanElems_dir_render`,
`base_render`). `Below` and `AtOrBelow` say that a path lies in the tree of another one.
-/

open ByteString

namespace LexicalPath

/-- The separator. -/
def slash : UInt8 := 47

/-- The element that names the current directory. -/
def dot : Bytes := [46]

/-- The element that names the parent directory. -/
def dotdot : Bytes := [46, 46]

/-- Whether a path starts at the root. -/
def isRooted : Bytes → Bool
  | [] => false
  | c :: _ => c == slash

/-- The non-empty elements of a path, in order. -/
def elems (p : Bytes) : List Bytes :=
  (p.splitOn slash).filter (· ≠ [])

/-- Processes one more element; the elements kept so far are listed last first. -/
def push (rooted : Bool) (stack : List Bytes) (e : Bytes) : List Bytes :=
  if e = dot then stack
  else if e = dotdot then
    match stack with
    | [] => if rooted then [] else [dotdot]
    | top :: rest => if top = dotdot then dotdot :: stack else rest
  else e :: stack

/-- The elements kept from a list, last first. -/
def resolve (rooted : Bool) (es : List Bytes) : List Bytes :=
  es.foldl (push rooted) []

/-- The elements of a path that survive cleaning, in order. -/
def cleanElems (p : Bytes) : List Bytes :=
  (resolve (isRooted p) (elems p)).reverse

/-- The text of a path with the given elements. -/
def render (rooted : Bool) (cs : List Bytes) : Bytes :=
  if rooted then slash :: [slash].intercalate cs
  else if cs = [] then dot
  else [slash].intercalate cs

/-- The shortest path equivalent to `p` by purely lexical processing. -/
def clean (p : Bytes) : Bytes :=
  render (isRooted p) (cleanElems p)

/-- Joins elements with separators, ignoring empty ones at the front, and cleans the result. -/
def join (es : List Bytes) : Bytes :=
  match es.dropWhile (· = []) with
  | [] => []
  | e :: rest => clean ([slash].intercalate (e :: rest))

/-- All but the last element of a path, cleaned. -/
def dir (p : Bytes) : Bytes :=
  clean (p.rdropWhile (· ≠ slash))

/-- The last element of a path, trailing separators removed. -/
def base (p : Bytes) : Bytes :=
  if p = [] then dot
  else
    match (p.rdropWhile (· = slash)).rtakeWhile (· ≠ slash) with
    | [] => [slash]
    | name => name

/-- The part of the last element from its last dot on. -/
def ext (p : Bytes) : Bytes :=
  let name := p.rtakeWhile (· ≠ slash)
  if 46 ∈ name then 46 :: name.rtakeWhile (· ≠ 46) else []

/-! ## Elements of a path -/

@[simp]
lemma elems_nil : elems [] = [] := by
  simp [elems]

/-- The elements on both sides of a separator. -/
lemma elems_append_slash_cons (p q : Bytes) : elems (p ++ slash :: q) = elems p ++ elems q := by
  simp [elems, List.splitOn_append_cons_self]

@[simp]
lemma elems_slash_cons (p : Bytes) : elems (slash :: p) = elems p := by
  simpa using elems_append_slash_cons [] p

/-- A slash-free, non-empty string is its own single element. -/
lemma elems_eq_singleton {p : Bytes} (hne : p ≠ []) (hp : slash ∉ p) : elems p = [p] := by
  simp [elems, List.splitOn_eq_singleton hp, hne]

/-- The elements of an interspersed list of paths. -/
lemma elems_intercalate (ps : List Bytes) :
    elems ([slash].intercalate ps) = ps.flatMap elems := by
  induction ps with
  | nil => simp
  | cons p ps ih =>
    rcases ps with _ | ⟨q, qs⟩
    · simp
    · rw [List.intercalate_cons_cons, List.append_assoc, List.singleton_append,
        elems_append_slash_cons, ih, List.flatMap_cons (x := p)]

/-- An element of a path: non-empty, with no separator in it. -/
def IsElem (e : Bytes) : Prop :=
  e ≠ [] ∧ slash ∉ e

/-- What `splitOn` returns has no separator in it. -/
lemma slash_notMem_of_mem_splitOn {p e : Bytes} (he : e ∈ p.splitOn slash) : slash ∉ e := by
  induction p generalizing e with
  | nil =>
    obtain rfl : e = [] := by simpa using he
    simp
  | cons c p ih =>
    rw [List.splitOn_cons_eq_if_modifyHead] at he
    split_ifs at he with hc
    · rcases List.mem_cons.mp he with rfl | he
      · simp
      · exact ih he
    · obtain ⟨q, qs, hq⟩ := List.exists_cons_of_ne_nil (List.splitOn_ne_nil slash p)
      rw [hq, List.modifyHead_cons, List.mem_cons] at he
      rcases he with rfl | he
      · have hq' : slash ∉ q := ih (by simp [hq])
        have hcs : slash ≠ c := fun h => hc (by simp [h])
        simp [hcs, hq']
      · exact ih (by simp [hq, he])

lemma isElem_of_mem_elems {p e : Bytes} (he : e ∈ elems p) : IsElem e := by
  obtain ⟨hmem, hne⟩ := List.mem_filter.mp he
  exact ⟨by simpa using hne, slash_notMem_of_mem_splitOn hmem⟩

lemma mem_intercalate_slash_iff {ps : List Bytes} {c : UInt8} (hc : c ≠ slash) :
    c ∈ [slash].intercalate ps ↔ ∃ e ∈ ps, c ∈ e := by
  induction ps with
  | nil => simp
  | cons p ps ih =>
    rcases ps with _ | ⟨q, qs⟩
    · simp
    · rw [List.intercalate_cons_cons, List.append_assoc, List.mem_append, List.mem_append, ih]
      simp [hc]

/-- The characters of a path other than separators are those of its elements. -/
lemma mem_iff_exists_mem_elems {p : Bytes} {c : UInt8} (hc : c ≠ slash) :
    c ∈ p ↔ ∃ e ∈ elems p, c ∈ e := by
  have hsplit : [slash].intercalate (p.splitOn slash) = p := List.intercalate_splitOn slash
  conv_lhs => rw [← hsplit]
  rw [mem_intercalate_slash_iff hc]
  constructor
  · rintro ⟨e, he, hce⟩
    have hne : e ≠ [] := List.ne_nil_of_mem hce
    exact ⟨e, List.mem_filter.mpr ⟨he, by simpa using hne⟩, hce⟩
  · rintro ⟨e, he, hce⟩
    exact ⟨e, (List.mem_filter.mp he).1, hce⟩

/-- Elements of a path consist of characters of it. -/
lemma mem_of_mem_elems {p e : Bytes} (he : e ∈ elems p) {c : UInt8} (hc : c ∈ e) : c ∈ p := by
  have hcs : c ≠ slash := by
    rintro rfl
    exact (isElem_of_mem_elems he).2 hc
  exact (mem_iff_exists_mem_elems hcs).mpr ⟨e, he, hc⟩

/-- A path has no elements exactly when it consists of separators. -/
lemma elems_eq_nil_iff {p : Bytes} : elems p = [] ↔ ∀ c ∈ p, c = slash := by
  constructor
  · intro h c hc
    by_contra hcs
    obtain ⟨e, he, -⟩ := (mem_iff_exists_mem_elems hcs).mp hc
    simp [h] at he
  · intro h
    rw [List.eq_nil_iff_forall_not_mem]
    intro e he
    obtain ⟨hne, hslash⟩ := isElem_of_mem_elems he
    obtain ⟨c, hc⟩ := List.exists_mem_of_ne_nil e hne
    exact hslash (h c (mem_of_mem_elems he hc) ▸ hc)

/-! ## Cleaning -/

/-- After one more element, what is kept was kept before or is that element, and then it is not
`.`. -/
lemma mem_push {rooted : Bool} {stack : List Bytes} {e x : Bytes}
    (hx : x ∈ push rooted stack e) : x ∈ stack ∨ x = e ∧ e ≠ dot := by
  by_cases hdot : e = dot
  · exact Or.inl (by simpa [push, hdot] using hx)
  by_cases hdd : e = dotdot
  · simp only [push, if_neg hdot, if_pos hdd] at hx
    rcases stack with _ | ⟨top, rest⟩
    · rcases rooted with _ | _
      · exact Or.inr ⟨by simpa [hdd] using hx, hdot⟩
      · simp at hx
    · simp only at hx
      split_ifs at hx
      · rcases List.mem_cons.mp hx with rfl | hx
        · exact Or.inr ⟨hdd.symm, hdot⟩
        · exact Or.inl hx
      · exact Or.inl (List.mem_cons_of_mem _ hx)
  · simp only [push, if_neg hdot, if_neg hdd] at hx
    rcases List.mem_cons.mp hx with rfl | hx
    · exact Or.inr ⟨rfl, hdot⟩
    · exact Or.inl hx

lemma resolve_concat (rooted : Bool) (es : List Bytes) (e : Bytes) :
    resolve rooted (es ++ [e]) = push rooted (resolve rooted es) e := by
  simp [resolve, List.foldl_append]

/-- The kept elements are among the given ones and none of them is `.`. -/
lemma mem_resolve {rooted : Bool} {es : List Bytes} {x : Bytes} (hx : x ∈ resolve rooted es) :
    x ∈ es ∧ x ≠ dot := by
  induction es using List.reverseRecOn with
  | nil => simp [resolve] at hx
  | append_singleton es e ih =>
    rw [resolve_concat] at hx
    rcases mem_push hx with hx | ⟨rfl, hdot⟩
    · exact ⟨List.mem_append_left _ (ih hx).1, (ih hx).2⟩
    · exact ⟨by simp, hdot⟩

/-- Elements without `..` among them are all kept, apart from `.`. -/
lemma foldl_push_of_dotdot_notMem {rooted : Bool} {es : List Bytes} (h : dotdot ∉ es)
    (stack : List Bytes) :
    es.foldl (push rooted) stack = (es.filter (· ≠ dot)).reverse ++ stack := by
  induction es generalizing stack with
  | nil => simp
  | cons e es ih =>
    have he : e ≠ dotdot := fun h' => h (by simp [h'])
    have hes : dotdot ∉ es := fun h' => h (by simp [h'])
    rw [List.foldl_cons, ih hes]
    by_cases hdot : e = dot
    · simp [push, hdot]
    · simp [push, hdot, he]

/-- Resolving the kept elements again keeps all of them. -/
lemma resolve_reverse_resolve (rooted : Bool) (es : List Bytes) :
    resolve rooted (resolve rooted es).reverse = resolve rooted es := by
  induction es using List.reverseRecOn with
  | nil => simp [resolve]
  | append_singleton es e ih =>
    rw [resolve_concat]
    set stack := resolve rooted es with hstack
    by_cases hdot : e = dot
    · simpa [push, hdot] using ih
    by_cases hdd : e = dotdot
    · subst hdd
      rcases hs : stack with _ | ⟨top, rest⟩
      · rcases rooted with _ | _ <;> decide
      · by_cases htop : top = dotdot
        · have hpush : push rooted (top :: rest) dotdot = dotdot :: top :: rest := by
            simp [push, htop, hdot]
          rw [hpush, List.reverse_cons, resolve_concat, ← hs, ih, hs, hpush]
        · have hpush : push rooted (top :: rest) dotdot = rest := by
            simp [push, htop, hdot]
          have htopdot : top ≠ dot := (mem_resolve (by rw [← hstack, hs]; simp)).2
          rw [hs, List.reverse_cons, resolve_concat] at ih
          have hkeep : push rooted (resolve rooted rest.reverse) top
              = top :: resolve rooted rest.reverse := by
            simp [push, htop, htopdot]
          rw [hkeep] at ih
          rw [hpush]
          exact (List.cons.inj ih).2
    · have hpush : push rooted stack e = e :: stack := by simp [push, hdot, hdd]
      rw [hpush, List.reverse_cons, resolve_concat, ih, hpush]

lemma isElem_of_mem_cleanElems {p e : Bytes} (he : e ∈ cleanElems p) : IsElem e :=
  isElem_of_mem_elems (mem_resolve (List.mem_reverse.mp he)).1

/-- The text that precedes the last element of a rendered path. -/
def lead (rooted : Bool) (cs : List Bytes) : Bytes :=
  (if rooted then [slash] else []) ++ cs.flatMap (· ++ [slash])

/-- A rendered path with at least one element is its lead followed by the last element. -/
lemma render_concat (rooted : Bool) (cs : List Bytes) (l : Bytes) :
    render rooted (cs ++ [l]) = lead rooted cs ++ l := by
  have hinter : [slash].intercalate (cs ++ [l]) = cs.flatMap (· ++ [slash]) ++ l := by
    induction cs with
    | nil => simp
    | cons c cs ih =>
      rw [List.cons_append, List.intercalate_cons_of_ne_nil (by simp), ih]
      simp
  rcases rooted with _ | _
  · simp [render, lead, hinter]
  · simp [render, lead, hinter]

lemma elems_lead {rooted : Bool} {cs : List Bytes} (hcs : ∀ c ∈ cs, IsElem c) :
    elems (lead rooted cs) = cs := by
  have hflat : elems (cs.flatMap (· ++ [slash])) = cs := by
    induction cs with
    | nil => simp
    | cons c cs ih =>
      have hc := hcs c (by simp)
      rw [List.flatMap_cons, List.append_assoc, List.singleton_append, elems_append_slash_cons,
        elems_eq_singleton hc.1 hc.2, ih fun d hd => hcs d (by simp [hd])]
      rfl
  rcases rooted with _ | _
  · simpa [lead] using hflat
  · simpa [lead] using hflat

lemma isRooted_lead {rooted : Bool} {cs : List Bytes} (hcs : ∀ c ∈ cs, IsElem c) :
    isRooted (lead rooted cs) = rooted := by
  rcases rooted with _ | _
  · rcases cs with _ | ⟨c, cs⟩
    · rfl
    · obtain ⟨hne, hslash⟩ := hcs c (by simp)
      obtain ⟨x, xs, rfl⟩ := List.exists_cons_of_ne_nil hne
      have hx : x ≠ slash := fun h => hslash (by simp [h])
      simp [lead, isRooted, hx]
  · rfl

/-- What is in front of a non-empty element decides whether a path is rooted, and if nothing is
there the path is not rooted. -/
lemma isRooted_append_elem {p e : Bytes} (he : IsElem e) : isRooted (p ++ e) = isRooted p := by
  rcases p with _ | ⟨c, p⟩
  · obtain ⟨x, xs, rfl⟩ := List.exists_cons_of_ne_nil he.1
    have hx : x ≠ slash := fun h => he.2 (by simp [h])
    simp [isRooted, hx]
  · rfl

/-- Reading back a rendered path: the elements and the root flag. -/
lemma elems_render_concat {rooted : Bool} {cs : List Bytes} {l : Bytes}
    (hcs : ∀ c ∈ cs, IsElem c) (hl : IsElem l) :
    elems (render rooted (cs ++ [l])) = cs ++ [l] ∧
      isRooted (render rooted (cs ++ [l])) = rooted := by
  rw [render_concat, isRooted_append_elem hl, isRooted_lead hcs]
  refine ⟨?_, rfl⟩
  rcases cs.eq_nil_or_concat' with rfl | ⟨ds, d, rfl⟩
  · rcases rooted with _ | _
    · simpa [lead] using elems_eq_singleton hl.1 hl.2
    · simpa [lead] using elems_eq_singleton hl.1 hl.2
  · have hsplit : lead rooted (ds ++ [d]) ++ l = render rooted (ds ++ [d]) ++ slash :: l := by
      rw [render_concat]
      simp [lead]
    have hlead : elems (render rooted (ds ++ [d])) = ds ++ [d] := by
      have h : elems (lead rooted (ds ++ [d])) = ds ++ [d] := elems_lead hcs
      have htail : lead rooted (ds ++ [d]) = render rooted (ds ++ [d]) ++ slash :: [] := by
        rw [render_concat]
        simp [lead]
      rw [htail, elems_append_slash_cons] at h
      simpa using h
    rw [hsplit, elems_append_slash_cons, hlead, elems_eq_singleton hl.1 hl.2]

/-- Cleaning twice is cleaning once, read on the elements. -/
lemma cleanElems_clean (p : Bytes) : cleanElems (clean p) = cleanElems p := by
  rcases (cleanElems p).eq_nil_or_concat' with hnil | ⟨cs, l, hcs⟩
  · rw [clean, hnil]
    rcases isRooted p with _ | _ <;> decide
  · have helem : ∀ c ∈ cs ++ [l], IsElem c := fun c hc =>
      isElem_of_mem_cleanElems (p := p) (by rwa [hcs])
    have hinit : ∀ c ∈ cs, IsElem c := fun c hc => helem c (by simp [hc])
    have hlast : IsElem l := helem l (by simp)
    obtain ⟨helems, hroot⟩ : elems (render (isRooted p) (cs ++ [l])) = cs ++ [l] ∧
        isRooted (render (isRooted p) (cs ++ [l])) = isRooted p :=
      elems_render_concat hinit hlast
    have hfix := resolve_reverse_resolve (isRooted p) (elems p)
    rw [clean, hcs, cleanElems, helems, hroot, ← hcs, cleanElems, hfix]

lemma isRooted_clean (p : Bytes) : isRooted (clean p) = isRooted p := by
  rcases (cleanElems p).eq_nil_or_concat' with hnil | ⟨cs, l, hcs⟩
  · rw [clean, hnil]
    rcases isRooted p with _ | _ <;> decide
  · have helem : ∀ c ∈ cs ++ [l], IsElem c := fun c hc =>
      isElem_of_mem_cleanElems (p := p) (by rwa [hcs])
    have hinit : ∀ c ∈ cs, IsElem c := fun c hc => helem c (by simp [hc])
    rw [clean, hcs]
    exact (elems_render_concat hinit (helem l (by simp))).2

/-- Apart from `.`, cleaning introduces no element. -/
lemma mem_elems_clean {p e : Bytes} (he : e ∈ elems (clean p)) : e = dot ∨ e ∈ elems p := by
  rcases (cleanElems p).eq_nil_or_concat' with hnil | ⟨cs, l, hcs⟩
  · have hdot : elems (render (isRooted p) []) = [] ∨ elems (render (isRooted p) []) = [dot] := by
      rcases isRooted p with _ | _ <;> decide
    rw [clean, hnil] at he
    rcases hdot with h | h
    · simp [h] at he
    · exact Or.inl (by simpa [h] using he)
  · have helem : ∀ c ∈ cs ++ [l], IsElem c := fun c hc =>
      isElem_of_mem_cleanElems (p := p) (by rwa [hcs])
    have hinit : ∀ c ∈ cs, IsElem c := fun c hc => helem c (by simp [hc])
    rw [clean, hcs, (elems_render_concat hinit (helem l (by simp))).1, ← hcs] at he
    exact Or.inr (mem_resolve (List.mem_reverse.mp he)).1

/-- Without a dot in the path, its elements are the elements that survive cleaning. -/
lemma filter_elems_clean {p : Bytes} (hp : 46 ∉ p) :
    (elems (clean p)).filter (· ≠ dot) = elems p := by
  have hdots : ∀ e : Bytes, 46 ∈ e → e ∉ elems p := fun e he hmem => hp (mem_of_mem_elems hmem he)
  have hkeep : (elems p).filter (· ≠ dot) = elems p := by
    refine List.filter_eq_self.mpr fun e he => decide_eq_true ?_
    rintro rfl
    exact hdots dot (by decide) he
  have hcs : cleanElems p = elems p := by
    rw [cleanElems, resolve, foldl_push_of_dotdot_notMem (hdots dotdot (by decide)), hkeep,
      List.append_nil, List.reverse_reverse]
  rcases (elems p).eq_nil_or_concat' with hnil | ⟨cs, l, hconcat⟩
  · rw [clean, hcs, hnil]
    rcases isRooted p with _ | _ <;> decide
  · have helem : ∀ c ∈ cs ++ [l], IsElem c := fun c hc => isElem_of_mem_elems (by rwa [hconcat])
    have hinit : ∀ c ∈ cs, IsElem c := fun c hc => helem c (by simp [hc])
    rw [clean, hcs, hconcat, (elems_render_concat hinit (helem l (by simp))).1, ← hconcat, hkeep]

/-! ## Joining, and the last element -/

lemma isRooted_intercalate_cons {b : Bytes} (hb : b ≠ []) (rel : List Bytes) :
    isRooted ([slash].intercalate (b :: rel)) = isRooted b := by
  obtain ⟨c, cs, rfl⟩ := List.exists_cons_of_ne_nil hb
  rcases rel with _ | ⟨r, rs⟩
  · simp
  · simp [List.intercalate_cons_cons, isRooted]

lemma join_cons {b : Bytes} (hb : b ≠ []) (rel : List Bytes) :
    join (b :: rel) = clean ([slash].intercalate (b :: rel)) := by
  simp [join, hb]

lemma isRooted_join_cons {b : Bytes} (hb : b ≠ []) (rel : List Bytes) :
    isRooted (join (b :: rel)) = isRooted b := by
  rw [join_cons hb, isRooted_clean, isRooted_intercalate_cons hb]

/-- Joining relative parts without `..` appends their elements to those of the first part. -/
lemma cleanElems_join_cons {b : Bytes} (hb : b ≠ []) {rel : List Bytes}
    (hrel : dotdot ∉ rel.flatMap elems) :
    cleanElems (join (b :: rel)) = cleanElems b ++ (rel.flatMap elems).filter (· ≠ dot) := by
  rw [join_cons hb, cleanElems_clean, cleanElems, isRooted_intercalate_cons hb,
    elems_intercalate, List.flatMap_cons, resolve, List.foldl_append,
    foldl_push_of_dotdot_notMem hrel, List.reverse_append, List.reverse_reverse]
  rfl

/-- The text of a join is that of its elements. -/
lemma join_cons_eq_render {b : Bytes} (hb : b ≠ []) (rel : List Bytes) :
    join (b :: rel) = render (isRooted b) (cleanElems (join (b :: rel))) := by
  rw [join_cons hb, cleanElems_clean, clean, isRooted_intercalate_cons hb]

lemma getLast_ne_slash {e : Bytes} (he : IsElem e) : e.getLast he.1 ≠ slash := fun h =>
  he.2 (h ▸ List.getLast_mem he.1)

/-- The lead of a path is empty or ends in a separator. -/
lemma lead_eq_nil_or_concat_slash (rooted : Bool) (cs : List Bytes) :
    lead rooted cs = [] ∨ ∃ q, lead rooted cs = q ++ [slash] := by
  rcases cs.eq_nil_or_concat' with rfl | ⟨ds, d, rfl⟩
  · rcases rooted with _ | _
    · exact Or.inl rfl
    · exact Or.inr ⟨[], rfl⟩
  · refine Or.inr ⟨render rooted (ds ++ [d]), ?_⟩
    rw [render_concat]
    simp [lead]

/-- Scanning a path from its end up to the last separator splits off a slash-free tail. -/
lemma rscan_lead_append {rooted : Bool} {cs : List Bytes} {l : Bytes} (hl : slash ∉ l) :
    (lead rooted cs ++ l).rdropWhile (· ≠ slash) = lead rooted cs ∧
      (lead rooted cs ++ l).rtakeWhile (· ≠ slash) = l := by
  have hall : ∀ c ∈ l.reverse, decide (c ≠ slash) = true := by
    intro c hc
    rw [List.mem_reverse] at hc
    simp only [ne_eq, decide_not, Bool.not_eq_true', decide_eq_false_iff_not]
    rintro rfl
    exact hl hc
  rw [List.rdropWhile, List.rtakeWhile, List.reverse_append, List.dropWhile_append_of_pos hall,
    List.takeWhile_append_of_pos hall]
  rcases lead_eq_nil_or_concat_slash rooted cs with h | ⟨q, h⟩
  · simp [h]
  · simp [h]

/-- The last element of a rendered path is its base. -/
lemma base_render_concat {rooted : Bool} {cs : List Bytes} {l : Bytes} (hl : IsElem l) :
    base (render rooted (cs ++ [l])) = l := by
  have hne : lead rooted cs ++ l ≠ [] := by simp [hl.1]
  have hdrop : (lead rooted cs ++ l).rdropWhile (· = slash) = lead rooted cs ++ l := by
    rw [List.rdropWhile_eq_self_iff]
    intro h
    rw [List.getLast_append_of_ne_nil h hl.1]
    simpa using getLast_ne_slash hl
  rw [render_concat, base, if_neg hne, hdrop, (rscan_lead_append hl.2).2]
  split
  · exact absurd rfl hl.1
  · rfl

/-- Separators at the end of a path contribute no element. -/
lemma elems_rdropWhile_slash (p : Bytes) : elems (p.rdropWhile (· = slash)) = elems p := by
  have hsplit : p.rdropWhile (· = slash) ++ p.rtakeWhile (· = slash) = p :=
    List.rdropWhile_append_rtakeWhile
  have hall : ∀ c ∈ p.rtakeWhile (· = slash), c = slash := fun c hc => by
    simpa using List.mem_rtakeWhile_imp hc
  rcases hrest : p.rtakeWhile (· = slash) with _ | ⟨c, cs⟩
  · rw [hrest, List.append_nil] at hsplit
    rw [hsplit]
  · have hseps : elems (c :: cs) = [] := elems_eq_nil_iff.mpr (hrest ▸ hall)
    obtain rfl : c = slash := hall c (by simp [hrest])
    rw [elems_slash_cons] at hseps
    conv_rhs => rw [← hsplit, hrest, elems_append_slash_cons, hseps, List.append_nil]

/-- The elements on both sides of the last separator. -/
lemma elems_rscan (p : Bytes) :
    elems p = elems (p.rdropWhile (· ≠ slash)) ++ elems (p.rtakeWhile (· ≠ slash)) := by
  have hsplit : p.rdropWhile (· ≠ slash) ++ p.rtakeWhile (· ≠ slash) = p :=
    List.rdropWhile_append_rtakeWhile
  conv_lhs => rw [← hsplit]
  rcases (p.rdropWhile (· ≠ slash)).eq_nil_or_concat' with hlead | ⟨r, c, hlead⟩
  · rw [hlead, List.nil_append, elems_nil, List.nil_append]
  · have hc : c = slash := by
      have hlast := List.rdropWhile_last_not (· ≠ slash) p (by rw [hlead]; simp)
      have hget : (p.rdropWhile (· ≠ slash)).getLast (by rw [hlead]; simp) = c := by
        simp only [hlead, List.getLast_append_singleton]
      rw [hget] at hlast
      simpa using hlast
    rw [hlead, hc, List.append_assoc, List.singleton_append, elems_append_slash_cons,
      elems_append_slash_cons, elems_nil, List.append_nil]

/-- The base of a path with at least one element is found by scanning from its end. -/
lemma base_eq_rscan {p : Bytes} (hp : elems p ≠ []) :
    base p = (p.rdropWhile (· = slash)).rtakeWhile (· ≠ slash) ∧ base p ≠ [] := by
  have hne : p ≠ [] := by
    rintro rfl
    exact hp elems_nil
  set q := p.rdropWhile (· = slash) with hq
  have hqne : q ≠ [] := by
    intro h
    rw [← elems_rdropWhile_slash, ← hq, h] at hp
    exact hp elems_nil
  have htake : q.rtakeWhile (· ≠ slash) ≠ [] := by
    intro h
    rw [List.rtakeWhile_eq_nil_iff] at h
    exact h hqne (by simpa using List.rdropWhile_last_not (· = slash) p hqne)
  have hbase : base p = q.rtakeWhile (· ≠ slash) := by
    rw [base, if_neg hne, ← hq]
    split
    · next h => exact absurd h htake
    · rfl
  exact ⟨hbase, hbase ▸ htake⟩

/-- A path with at least one element has one of its elements as its base. -/
lemma isElem_base {p : Bytes} (hp : elems p ≠ []) : IsElem (base p) ∧ ∀ c ∈ base p, c ∈ p := by
  obtain ⟨hbase, hne⟩ := base_eq_rscan hp
  refine ⟨⟨hne, fun h => ?_⟩, fun c hc => ?_⟩
  · rw [hbase] at h
    simpa using List.mem_rtakeWhile_imp h
  · rw [hbase] at hc
    exact (List.rdropWhile_prefix _ _).subset ((List.rtakeWhile_suffix _ _).subset hc)

/-- The base of a path with at least one element is its last element. -/
lemma getLast?_elems {p : Bytes} (hp : elems p ≠ []) : (elems p).getLast? = some (base p) := by
  obtain ⟨hne, hslash⟩ := (isElem_base hp).1
  rw [← elems_rdropWhile_slash, elems_rscan, ← (base_eq_rscan hp).1,
    elems_eq_singleton hne hslash, List.getLast?_concat]

/-- The base of a path made of separators only is the separator. -/
lemma base_of_elems_eq_nil {p : Bytes} (hne : p ≠ []) (hp : elems p = []) : base p = [slash] := by
  have hdrop : p.rdropWhile (· = slash) = [] := by
    rw [List.rdropWhile_eq_nil_iff]
    intro c hc
    simpa using elems_eq_nil_iff.mp hp c hc
  simp [base, hne, hdrop]

/-- The directory of a cleaned path: its last element is dropped. -/
lemma cleanElems_dir_clean {p l : Bytes} {cs : List Bytes} (hcs : cleanElems p = cs ++ [l])
    (hl : l ≠ dotdot) :
    cleanElems (dir (clean p)) = cs ∧ isRooted (dir (clean p)) = isRooted p := by
  have helem : ∀ c ∈ cs ++ [l], IsElem c := fun c hc =>
    isElem_of_mem_cleanElems (p := p) (by rwa [hcs])
  have hinit : ∀ c ∈ cs, IsElem c := fun c hc => helem c (by simp [hc])
  have hlast : IsElem l := helem l (by simp)
  have hdir : dir (clean p) = clean (lead (isRooted p) cs) := by
    rw [dir, show clean p = lead (isRooted p) cs ++ l by rw [clean, hcs, render_concat],
      (rscan_lead_append hlast.2).1]
  have hstack : resolve (isRooted p) (elems p) = l :: cs.reverse := by
    have h := congrArg List.reverse hcs
    simpa [cleanElems] using h
  have hresolve : resolve (isRooted p) cs = cs.reverse := by
    have hdot : l ≠ dot := (mem_resolve (by rw [hstack]; simp)).2
    have hfix := resolve_reverse_resolve (isRooted p) (elems p)
    rw [hstack, List.reverse_cons, List.reverse_reverse, resolve_concat] at hfix
    have hpush : push (isRooted p) (resolve (isRooted p) cs) l
        = l :: resolve (isRooted p) cs := by
      simp [push, hdot, hl]
    rw [hpush] at hfix
    exact (List.cons.inj hfix).2
  rw [hdir, cleanElems_clean, isRooted_clean, isRooted_lead hinit]
  refine ⟨?_, rfl⟩
  rw [cleanElems, isRooted_lead hinit, elems_lead hinit, hresolve, List.reverse_reverse]

/-- The base of a cleaned path is its last element. -/
lemma base_clean {p l : Bytes} {cs : List Bytes} (hcs : cleanElems p = cs ++ [l]) :
    base (clean p) = l := by
  have hl : IsElem l := isElem_of_mem_cleanElems (p := p) (by simp [hcs])
  rw [clean, hcs, base_render_concat hl]

/-! ## Containment -/

/-- The path `p` lies in the tree of `d`, or is `d`. -/
def AtOrBelow (d p : Bytes) : Prop :=
  isRooted p = isRooted d ∧ ∃ r, dotdot ∉ r ∧ cleanElems p = cleanElems d ++ r

/-- The path `p` lies in the tree of `d` and is not `d`. -/
def Below (d p : Bytes) : Prop :=
  isRooted p = isRooted d ∧ ∃ r, r ≠ [] ∧ dotdot ∉ r ∧ cleanElems p = cleanElems d ++ r

/-- A path with as many elements as `d` is not below it. -/
lemma not_below_of_cleanElems_eq {d p : Bytes} (h : cleanElems p = cleanElems d) :
    ¬ Below d p := by
  rintro ⟨-, r, hr, -, hp⟩
  rw [h] at hp
  exact hr (List.self_eq_append_right.mp hp)

/-- The directory of a cleaned path below `d` is `d` or below it. -/
lemma atOrBelow_dir_clean {d p : Bytes} (h : Below d (clean p)) : AtOrBelow d (dir (clean p)) := by
  obtain ⟨hroot, r, hr, hdd, hp⟩ := h
  obtain ⟨init, l, rfl⟩ := (r.eq_nil_or_concat').resolve_left hr
  have hl : l ≠ dotdot := fun h => hdd (by simp [h])
  rw [cleanElems_clean, ← List.append_assoc] at hp
  obtain ⟨hdir, hdirRoot⟩ := cleanElems_dir_clean hp hl
  rw [isRooted_clean] at hroot
  exact ⟨hdirRoot.trans hroot, init, fun h => hdd (by simp [h]), hdir⟩

/-- Joining relative parts without `..` that end in a proper element `l` leads below the first
part, to a file named `l`, in a directory that is the first part or below it. -/
lemma join_concat_elem {b l : Bytes} {rel : List Bytes} (hb : b ≠ [])
    (hrel : dotdot ∉ rel.flatMap elems) (hl : IsElem l) (hdot : l ≠ dot) (hdd : l ≠ dotdot) :
    Below b (join (b :: (rel ++ [l]))) ∧ base (join (b :: (rel ++ [l]))) = l ∧
      AtOrBelow b (dir (join (b :: (rel ++ [l])))) := by
  have hflat : (rel ++ [l]).flatMap elems = rel.flatMap elems ++ [l] := by
    simp [List.flatMap_append, elems_eq_singleton hl.1 hl.2]
  have hdd' : dotdot ∉ (rel ++ [l]).flatMap elems := by
    simp [hflat, hrel, hdd.symm]
  have hfilter : ((rel ++ [l]).flatMap elems).filter (· ≠ dot)
      = (rel.flatMap elems).filter (· ≠ dot) ++ [l] := by
    simp [hflat, List.filter_append, hdot]
  have hcs := cleanElems_join_cons hb hdd'
  rw [hfilter] at hcs
  have hbelow : Below b (join (b :: (rel ++ [l]))) := by
    refine ⟨isRooted_join_cons hb _, _, by simp, ?_, hcs⟩
    rw [← hfilter]
    exact fun h => hdd' (List.mem_filter.mp h).1
  rw [join_cons hb] at hbelow hcs ⊢
  rw [cleanElems_clean, ← List.append_assoc] at hcs
  exact ⟨hbelow, base_clean hcs, atOrBelow_dir_clean hbelow⟩

/-- Without a dot in the path, none of its elements is `..`. -/
lemma dotdot_notMem_elems {p : Bytes} (hp : 46 ∉ p) : dotdot ∉ elems p := fun h =>
  hp (mem_of_mem_elems h (by decide))

/-- Without a dot in the path, none of the elements of its directory is `..`. -/
lemma dotdot_notMem_elems_dir {p : Bytes} (hp : 46 ∉ p) : dotdot ∉ elems (dir p) := by
  intro h
  rcases mem_elems_clean h with h | h
  · exact absurd h (by decide)
  · refine dotdot_notMem_elems (fun hmem => hp ?_) h
    exact (List.rdropWhile_prefix _ _).subset hmem

end LexicalPath
