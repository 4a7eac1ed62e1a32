import GoBuildCache.Store.Put

/-!
# Uploads of one key under `write_once`

With the action `deny`, an upload looks whether there is an object already, may compare the two
bodies, may compare their build ids, and renames its file over the path. No lock is held from one of
these steps to the next, and `WriteOnceState.step` interleaves them for any number of uploads of one
key.

An upload that is about to rename has seen the path empty, or has seen a body there that it may
replace. As long as every rename finds what its upload has seen (`Unmoved`), a stored body only
makes way for one that may replace it, and without the comparison of contents it stays for ever
(`stored_body_kept`). Two uploads that both see the path empty break this
(`second_upload_replaces`).
-/

open ByteString Transition

namespace GoBuildCache

/-- An upload between two steps, with the body in its temporary file. -/
inductive PutRequest where
  /-- The temporary file is complete; the stat of the path is next. -/
  | stat (body : Bytes)
  /-- There is an object; `filesEqual` is next. -/
  | compare (body : Bytes)
  /-- The bodies differ; `replacesContentStamp` is next. -/
  | stamps (body : Bytes)
  /-- The rename is next; `seen` is what the path held when it was last looked at. -/
  | rename (body : Bytes) (seen : Option Bytes)
  /-- The call has returned. -/
  | done (outcome : PutOutcome)
  deriving DecidableEq

namespace PutRequest

/-- The next step of an upload, and what the path holds after it. With `fail` the system call
fails. -/
def advance (notification : WriteOnceNotification) (dec : Decoders) (path : Option Bytes)
    (fail : Bool) : PutRequest → Option (Option Bytes × PutRequest)
  | .stat body =>
    match path with
    | none => some (path, .rename body none)
    | some _ =>
      -- a failed stat is taken to mean that there is no object
      if fail then some (path, .rename body none)
      else
        match notification with
        | .always => some (path, .done .duplicate)
        | .contentDiffers => some (path, .compare body)
        | .never => some (path, .done .unchanged)
  | .compare body =>
    match path with
    | none => some (path, .done .ioError)
    | some stored =>
      if fail then some (path, .done .ioError)
      else if body = stored then some (path, .done .unchanged)
      else some (path, .stamps body)
  | .stamps body =>
    match path with
    | none => some (path, .done .conflict)
    | some stored =>
      if !fail && replacesContentStamp dec stored body then
        some (path, .rename body (some stored))
      else some (path, .done .conflict)
  | .rename body _ =>
    if fail then some (path, .done .ioError) else some (some body, .done .stored)
  | .done _ => none

/-- An upload that compares build ids has been asked to, and one that is about to rename over a body
may replace it. -/
def Justified (notification : WriteOnceNotification) (dec : Decoders) : PutRequest → Prop
  | .compare _ | .stamps _ => notification = .contentDiffers
  | .rename body seen =>
    ∀ stored ∈ seen, notification = .contentDiffers ∧ replacesContentStamp dec stored body = true
  | .stat _ | .done _ => True

/-- The path holds what an upload that is about to rename has seen. -/
def Current (path : Option Bytes) : PutRequest → Prop
  | .rename _ seen => path = seen
  | .stat _ | .compare _ | .stamps _ | .done _ => True

instance (path : Option Bytes) : (r : PutRequest) → Decidable (r.Current path)
  | .rename _ seen => inferInstanceAs (Decidable (path = seen))
  | .stat _ | .compare _ | .stamps _ | .done _ => isTrue trivial

variable {notification : WriteOnceNotification} {dec : Decoders} {path path' : Option Bytes}
  {fail : Bool} {r r' : PutRequest}

lemma Justified.advance (hr : r.Justified notification dec)
    (h : r.advance notification dec path fail = some (path', r')) :
    r'.Justified notification dec := by
  cases r with
  | stat body =>
    rcases path with _ | stored
    · obtain ⟨rfl, rfl⟩ := Prod.mk.inj (Option.some.inj h)
      simp [Justified]
    · simp only [PutRequest.advance] at h
      split_ifs at h
      · obtain ⟨rfl, rfl⟩ := Prod.mk.inj (Option.some.inj h)
        simp [Justified]
      · cases notification <;> obtain ⟨rfl, rfl⟩ := Prod.mk.inj (Option.some.inj h)
        all_goals simp [Justified]
  | compare body =>
    rcases path with _ | stored
    · obtain ⟨rfl, rfl⟩ := Prod.mk.inj (Option.some.inj h)
      trivial
    · simp only [PutRequest.advance] at h
      split_ifs at h <;> obtain ⟨rfl, rfl⟩ := Prod.mk.inj (Option.some.inj h)
      · trivial
      · trivial
      · exact hr
  | stamps body =>
    rcases path with _ | stored
    · obtain ⟨rfl, rfl⟩ := Prod.mk.inj (Option.some.inj h)
      trivial
    · simp only [PutRequest.advance] at h
      split_ifs at h with hstamp <;> obtain ⟨rfl, rfl⟩ := Prod.mk.inj (Option.some.inj h)
      · intro b hb
        obtain rfl := Option.some.inj hb
        exact ⟨hr, (Bool.and_eq_true_iff.mp hstamp).2⟩
      · trivial
  | rename body seen =>
    simp only [PutRequest.advance] at h
    split_ifs at h <;> obtain ⟨rfl, rfl⟩ := Prod.mk.inj (Option.some.inj h) <;> trivial
  | done outcome => cases h

/-- A step replaces a body only by one that may replace it, if the path holds what was seen. -/
lemma Justified.path_advance (hr : r.Justified notification dec) (hcurrent : r.Current path)
    (h : r.advance notification dec path fail = some (path', r')) {stored : Bytes}
    (hstored : path = some stored) :
    ∃ body, path' = some body ∧ (body = stored ∨
      notification = .contentDiffers ∧ replacesContentStamp dec stored body = true) := by
  subst hstored
  cases r with
  | stat body =>
    simp only [PutRequest.advance] at h
    split_ifs at h
    · obtain ⟨rfl, -⟩ := Prod.mk.inj (Option.some.inj h)
      exact ⟨stored, rfl, Or.inl rfl⟩
    · cases notification <;> obtain ⟨rfl, -⟩ := Prod.mk.inj (Option.some.inj h)
      all_goals exact ⟨stored, rfl, Or.inl rfl⟩
  | compare body =>
    simp only [PutRequest.advance] at h
    split_ifs at h <;> obtain ⟨rfl, -⟩ := Prod.mk.inj (Option.some.inj h)
    all_goals exact ⟨stored, rfl, Or.inl rfl⟩
  | stamps body =>
    simp only [PutRequest.advance] at h
    split_ifs at h <;> obtain ⟨rfl, -⟩ := Prod.mk.inj (Option.some.inj h)
    all_goals exact ⟨stored, rfl, Or.inl rfl⟩
  | rename body seen =>
    simp only [PutRequest.advance] at h
    split_ifs at h <;> obtain ⟨rfl, -⟩ := Prod.mk.inj (Option.some.inj h)
    · exact ⟨stored, rfl, Or.inl rfl⟩
    · exact ⟨body, rfl, Or.inr (hr stored hcurrent.symm)⟩
  | done outcome => cases h

end PutRequest

/-- What the path of a key holds, and the uploads of that key. -/
structure WriteOnceState where
  /-- The body of the object, if there is one. -/
  path : Option Bytes
  /-- The uploads so far. -/
  uploads : List PutRequest

namespace WriteOnceState

/-- What can happen. -/
inductive Label where
  /-- An upload has written its temporary file. -/
  | put (body : Bytes)
  /-- The `i`-th upload takes its next step. -/
  | advance (i : ℕ) (fail : Bool)

/-- One step. -/
def step (notification : WriteOnceNotification) (dec : Decoders) (s : WriteOnceState) :
    Label → Option WriteOnceState
  | .put body => some { s with uploads := s.uploads ++ [.stat body] }
  | .advance i fail =>
    s.uploads[i]?.bind fun r =>
      (r.advance notification dec s.path fail).map fun next =>
        ⟨next.1, s.uploads.set i next.2⟩

/-- No upload has come, and the path holds an object or none. -/
def start (path : Option Bytes) : WriteOnceState :=
  ⟨path, []⟩

/-- If the step is a rename, the path holds what the upload has seen: nothing, or the body whose
build id it has compared. -/
def Unmoved (s : WriteOnceState) : Label → Prop
  | .put _ => True
  | .advance i _ => ∀ r ∈ s.uploads[i]?, r.Current s.path

instance (s : WriteOnceState) : (l : Label) → Decidable (s.Unmoved l)
  | .put _ => isTrue trivial
  | .advance i _ => inferInstanceAs (Decidable (∀ r ∈ s.uploads[i]?, r.Current s.path))

section Runs

variable {notification : WriteOnceNotification} {dec : Decoders} {s s' t : WriteOnceState}

/-- Every upload is justified in what it is about to do. -/
def Justified (notification : WriteOnceNotification) (dec : Decoders) (s : WriteOnceState) : Prop :=
  ∀ r ∈ s.uploads, r.Justified notification dec

lemma step_advance {i : ℕ} {fail : Bool}
    (h : s.step notification dec (.advance i fail) = some s') :
    ∃ r r', s.uploads[i]? = some r ∧
      r.advance notification dec s.path fail = some (s'.path, r') ∧
      s'.uploads = s.uploads.set i r' := by
  obtain ⟨r, hr, h⟩ := Option.bind_eq_some_iff.mp h
  obtain ⟨next, hnext, rfl⟩ := Option.map_eq_some_iff.mp h
  exact ⟨r, next.2, hr, hnext, rfl⟩

lemma Justified.step (hs : s.Justified notification dec) {l : Label}
    (h : s.step notification dec l = some s') : s'.Justified notification dec := by
  cases l with
  | put body =>
    obtain rfl := Option.some.inj h
    intro r hr
    rcases List.mem_append.mp hr with hr | hr
    · exact hs r hr
    · obtain rfl := List.mem_singleton.mp hr
      trivial
  | advance i fail =>
    obtain ⟨r, r', hr, hadvance, huploads⟩ := step_advance h
    intro q hq
    rw [huploads] at hq
    rcases List.mem_or_eq_of_mem_set hq with hq | rfl
    · exact hs q hq
    · exact (hs r (List.mem_of_getElem? hr)).advance hadvance

/-- A step on a path that has not moved replaces a body only by one that may replace it. -/
lemma Justified.path_step (hs : s.Justified notification dec) {l : Label} (hl : s.Unmoved l)
    (h : s.step notification dec l = some s') {stored : Bytes} (hstored : s.path = some stored) :
    ∃ body, s'.path = some body ∧ (body = stored ∨
      notification = .contentDiffers ∧ replacesContentStamp dec stored body = true) := by
  cases l with
  | put body =>
    obtain rfl := Option.some.inj h
    exact ⟨stored, hstored, Or.inl rfl⟩
  | advance i fail =>
    obtain ⟨r, r', hr, hadvance, -⟩ := step_advance h
    exact (hs r (List.mem_of_getElem? hr)).path_advance (hl r hr) hadvance hstored

/-- As long as every rename finds on the path what its upload has seen there, a stored body is
replaced only by one that `replacesContentStamp` allows in its place; and without the comparison of
contents it stays for ever. -/
theorem stored_body_kept (notification : WriteOnceNotification) (dec : Decoders)
    (path : Option Bytes) (ls : List Label) (s : WriteOnceState)
    (hguard : Guarded (step notification dec) Unmoved (start path) ls)
    (hrun : run (step notification dec) (start path) ls = some s) (stored : Bytes)
    (hstored : s.path = some stored) :
    (∀ l s', s.Unmoved l → s.step notification dec l = some s' →
        ∃ body, s'.path = some body ∧ (body = stored ∨
          notification = .contentDiffers ∧ replacesContentStamp dec stored body = true)) ∧
      (notification ≠ .contentDiffers → ∀ ls' t, Guarded (step notification dec) Unmoved s ls' →
        run (step notification dec) s ls' = some t → t.path = some stored) := by
  have hs : s.Justified notification dec :=
    run_invariant (fun _ _ _ hs _ h => hs.step h)
      (fun r hr => absurd hr List.not_mem_nil) hguard hrun
  refine ⟨fun l s' hl h => hs.path_step hl h hstored, fun hmode ls' t hguard' hrun' => ?_⟩
  refine (run_invariant (I := fun t => t.Justified notification dec ∧ t.path = some stored)
    ?_ ⟨hs, hstored⟩ hguard' hrun').2
  rintro t l t' ⟨ht, hpath⟩ hl h
  obtain ⟨body, hbody, rfl | ⟨hdiffers, -⟩⟩ := ht.path_step hl h hpath
  · exact ⟨ht.step h, hbody⟩
  · exact absurd hdiffers hmode

end Runs

/-- Two uploads see the path empty; the second one to rename replaces the body of the first. -/
theorem second_upload_replaces :
    ∃ s t, run (step .never plainEnv.decoders) (start none)
        [.put [1], .put [2], .advance 0 false, .advance 1 false, .advance 0 false] = some s ∧
      run (step .never plainEnv.decoders) s [.advance 1 false] = some t ∧
      s.path = some [1] ∧ t.path = some [2] ∧
      replacesContentStamp plainEnv.decoders [1] [2] = false := by
  obtain ⟨s, hs, t, ht, h⟩ : ∃ s ∈ run (step .never plainEnv.decoders) (start none)
      [.put [1], .put [2], .advance 0 false, .advance 1 false, .advance 0 false],
      ∃ t ∈ run (step .never plainEnv.decoders) s [.advance 1 false],
        s.path = some [1] ∧ t.path = some [2] ∧
        replacesContentStamp plainEnv.decoders [1] [2] = false := by
    decide +kernel
  exact ⟨s, t, hs, ht, h⟩

/-- The start of an archive with a build id. -/
def stampedBody (buildID : String) : Bytes :=
  ascii "!<arch>\nbuild id \"" ++ ascii buildID ++ ascii "\""

/-- An archive with a content stamp makes way for the same object with an action stamp. -/
theorem stored_body_kept_contentStamp :
    ∃ s s', run (step .contentDiffers plainEnv.decoders) (start none)
        [.put (stampedBody "c/c"), .advance 0 false, .advance 0 false, .put (stampedBody "a/c"),
          .advance 1 false, .advance 1 false, .advance 1 false] = some s ∧
      s.step .contentDiffers plainEnv.decoders (.advance 1 false) = some s' ∧
      s.path = some (stampedBody "c/c") ∧ s'.path = some (stampedBody "a/c") ∧
      replacesContentStamp plainEnv.decoders (stampedBody "c/c") (stampedBody "a/c") = true := by
  obtain ⟨s, hs, s', hs', hmoved, hpath, hpath'⟩ :
      ∃ s ∈ run (step .contentDiffers plainEnv.decoders) (start none)
        [.put (stampedBody "c/c"), .advance 0 false, .advance 0 false, .put (stampedBody "a/c"),
          .advance 1 false, .advance 1 false, .advance 1 false],
      ∃ s' ∈ s.step .contentDiffers plainEnv.decoders (.advance 1 false),
        s.Unmoved (.advance 1 false) ∧ s.path = some (stampedBody "c/c") ∧
          s'.path = some (stampedBody "a/c") := by
    decide +kernel
  obtain ⟨body, hbody, h⟩ := (stored_body_kept .contentDiffers plainEnv.decoders none _ s
    (by decide +kernel) hs _ hpath).1 _ s' hmoved hs'
  obtain rfl := Option.some.inj (hpath'.symm.trans hbody)
  refine ⟨s, s', hs, hs', hpath, hpath', ?_⟩
  rcases h with h | ⟨-, h⟩
  · exact absurd h (by decide)
  · exact h

end WriteOnceState

end GoBuildCache
