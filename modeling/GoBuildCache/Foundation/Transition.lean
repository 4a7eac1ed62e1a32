import Mathlib

/-!
# Runs of a transition system

A transition system is a partial step function: `step s l` is the state after the step labelled
`l`, and `none` if that step cannot be taken in `s`. Labels resolve every choice, so a run is a
list of labels. `run_invariant` is the rule by which properties of single steps become properties
of whole runs; the guard restricts the steps that a run may contain.
-/

namespace Transition

variable {σ ℓ : Type*}

/-- The state after a list of steps, if all of them can be taken. -/
def run (step : σ → ℓ → Option σ) : σ → List ℓ → Option σ
  | s, [] => some s
  | s, l :: ls => (step s l).bind fun s' => run step s' ls

/-- Every step of the run from `s` satisfies the guard in the state in which it is taken. -/
def Guarded (step : σ → ℓ → Option σ) (guard : σ → ℓ → Prop) : σ → List ℓ → Prop
  | _, [] => True
  | s, l :: ls => guard s l ∧ ∀ s', step s l = some s' → Guarded step guard s' ls

variable {step : σ → ℓ → Option σ} {guard : σ → ℓ → Prop} {s t : σ}

instance decidableGuarded [∀ s l, Decidable (guard s l)] (s : σ) :
    (ls : List ℓ) → Decidable (Guarded step guard s ls)
  | [] => isTrue trivial
  | l :: ls =>
    have : ∀ s', Decidable (Guarded step guard s' ls) := fun s' => decidableGuarded s' ls
    inferInstanceAs (Decidable (guard s l ∧ ∀ s' ∈ step s l, Guarded step guard s' ls))

lemma run_cons {l : ℓ} {ls : List ℓ} (h : run step s (l :: ls) = some t) :
    ∃ s', step s l = some s' ∧ run step s' ls = some t := by
  simpa [run, Option.bind_eq_some_iff] using h

/-- A step that changes nothing can be left out of a run. -/
lemma run_skip {l : ℓ} (hl : ∀ s, step s l = some s) (s : σ) (before after : List ℓ) :
    run step s (before ++ l :: after) = run step s (before ++ after) := by
  induction before generalizing s with
  | nil => simp [run, hl]
  | cons m before ih => simp only [List.cons_append, run, ih]

/-- A run whose labels all satisfy a predicate may be guarded by it as well. -/
lemma Guarded.and_forall {p : ℓ → Prop} {ls : List ℓ} (h : Guarded step guard s ls)
    (hp : ∀ l ∈ ls, p l) : Guarded step (fun s l => guard s l ∧ p l) s ls := by
  induction ls generalizing s with
  | nil => trivial
  | cons l ls ih =>
    refine ⟨⟨h.1, hp l (List.mem_cons_self ..)⟩, ?_⟩
    intro s' hs'
    exact ih (h.2 s' hs') fun l' hl' => hp l' (List.mem_cons_of_mem l hl')

/-- An invariant of every guarded step is an invariant of every guarded run. -/
theorem run_invariant {I : σ → Prop}
    (hstep : ∀ s l s', I s → guard s l → step s l = some s' → I s') {ls : List ℓ}
    (hs : I s) (hguard : Guarded step guard s ls) (hrun : run step s ls = some t) : I t := by
  induction ls generalizing s with
  | nil =>
    obtain rfl : s = t := by simpa [run] using hrun
    exact hs
  | cons l ls ih =>
    obtain ⟨s', hs', hrest⟩ := run_cons hrun
    exact ih (hstep s l s' hs hguard.1 hs') (hguard.2 s' hs') hrest

lemma guarded_true (s : σ) (ls : List ℓ) : Guarded step (fun _ _ => True) s ls := by
  induction ls generalizing s with
  | nil => trivial
  | cons l ls ih => exact ⟨trivial, fun s' _ => ih s'⟩

/-- An invariant of every step is an invariant of every run. -/
theorem run_invariant_of_step {I : σ → Prop}
    (hstep : ∀ s l s', I s → step s l = some s' → I s') {ls : List ℓ} (hs : I s)
    (hrun : run step s ls = some t) : I t :=
  run_invariant (fun s l s' hs _ h => hstep s l s' hs h) hs (guarded_true s ls) hrun

/-- Some step of the run from `s` is the event, in the state in which it is taken. -/
def Occurs (step : σ → ℓ → Option σ) (event : σ → ℓ → Prop) : σ → List ℓ → Prop
  | _, [] => False
  | s, l :: ls => event s l ∨ ∃ s', step s l = some s' ∧ Occurs step event s' ls

instance decidableOccurs {event : σ → ℓ → Prop} [∀ s l, Decidable (event s l)] (s : σ) :
    (ls : List ℓ) → Decidable (Occurs step event s ls)
  | [] => isFalse id
  | l :: ls =>
    have : ∀ s', Decidable (Occurs step event s' ls) := fun s' => decidableOccurs s' ls
    inferInstanceAs (Decidable (event s l ∨ ∃ s' ∈ step s l, Occurs step event s' ls))

/-- What the event brings about, and every step keeps, holds at the end of a run in which the event
occurs. -/
theorem run_of_occurs {event : σ → ℓ → Prop} {I : σ → Prop}
    (hevent : ∀ s l s', event s l → step s l = some s' → I s')
    (hstep : ∀ s l s', I s → step s l = some s' → I s') {ls : List ℓ}
    (hoccurs : Occurs step event s ls) (hrun : run step s ls = some t) : I t := by
  induction ls generalizing s with
  | nil => exact hoccurs.elim
  | cons l ls ih =>
    obtain ⟨s', hs', hrest⟩ := run_cons hrun
    rcases hoccurs with hl | ⟨s'', hs'', hls⟩
    · exact run_invariant_of_step hstep (hevent s l s' hl hs') hrest
    · obtain rfl := Option.some.inj (hs'.symm.trans hs'')
      exact ih hls hrest

end Transition
