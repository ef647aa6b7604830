import Mathlib.Data.List.Basic

/-! # Runs of a step function

A run applies a list of events one after another. `Steps` says that every
event of a run meets a condition in the state in which it comes, and the two
induction principles carry an invariant along a run whose steps all do.
-/

namespace Run

variable {S : Type*} {E : Type*} (step : S → E → S)

/-- The state after the events `es`. -/
def run (s : S) (es : List E) : S := es.foldl step s

/-- Every event of the run meets `P` in the state before it. -/
def Steps (P : S → E → Prop) : S → List E → Prop
  | _, [] => True
  | s, e :: es => P s e ∧ Steps P (step s e) es

@[simp] theorem run_nil (s : S) : run step s [] = s := rfl

@[simp] theorem run_cons (s : S) (e : E) (es : List E) :
    run step s (e :: es) = run step (step s e) es := rfl

theorem run_append (s : S) (es fs : List E) :
    run step s (es ++ fs) = run step (run step s es) fs := by
  simp [run]

theorem run_concat (s : S) (es : List E) (e : E) :
    run step s (es ++ [e]) = step (run step s es) e := by
  simp [run]

variable {step}

/-- An invariant that every step meeting `P` keeps holds after a run of such steps. -/
theorem invariant {P : S → E → Prop} {I : S → Prop}
    (hstep : ∀ s e, I s → P s e → I (step s e)) {s : S} {es : List E}
    (hs : I s) (hsteps : Steps step P s es) : I (run step s es) := by
  induction es generalizing s with
  | nil => exact hs
  | cons e es ih => exact ih (hstep s e hs hsteps.1) hsteps.2

/-- An invariant that every step keeps holds after every run. -/
theorem invariant_of_step {I : S → Prop} (hstep : ∀ s e, I s → I (step s e))
    {s : S} (hs : I s) (es : List E) : I (run step s es) := by
  induction es generalizing s with
  | nil => exact hs
  | cons e es ih => exact ih (hstep s e hs)

/-- What every step from a state of the invariant does, every step of a run does. -/
theorem Steps.of_invariant {P Q : S → E → Prop} {I : S → Prop}
    (hstep : ∀ s e, I s → P s e → I (step s e))
    (hstate : ∀ s e, I s → P s e → Q s e) {s : S} {es : List E}
    (hs : I s) (hsteps : Steps step P s es) : Steps step Q s es := by
  induction es generalizing s with
  | nil => trivial
  | cons e es ih =>
      exact ⟨hstate s e hs hsteps.1, ih (hstep s e hs hsteps.1) hsteps.2⟩

/-- What every step from a state of an invariant does, every step of every run does. -/
theorem steps_of_invariant {Q : S → E → Prop} {I : S → Prop}
    (hstep : ∀ s e, I s → I (step s e)) (hstate : ∀ s e, I s → Q s e) {s : S} (hs : I s)
    (es : List E) : Steps step Q s es := by
  induction es generalizing s with
  | nil => trivial
  | cons e es ih => exact ⟨hstate s e hs, ih (hstep s e hs)⟩

/-- What the events of a run meet, each of them meets in the state that the events in front of
it lead to. -/
theorem steps_iff {P : S → E → Prop} {s : S} {es : List E} :
    Steps step P s es ↔ ∀ fs e, fs ++ [e] <+: es → P (run step s fs) e := by
  induction es generalizing s with
  | nil => simp [Steps]
  | cons d es ih =>
      rw [Steps, ih]
      constructor
      · rintro ⟨hd, hes⟩ fs e hfs
        cases fs with
        | nil =>
            rw [List.nil_append, List.cons_prefix_cons] at hfs
            obtain ⟨rfl, -⟩ := hfs
            exact hd
        | cons f fs =>
            rw [List.cons_append, List.cons_prefix_cons] at hfs
            obtain ⟨rfl, hfs⟩ := hfs
            exact hes fs e hfs
      · intro h
        refine ⟨h [] d (List.cons_prefix_cons.mpr ⟨rfl, List.nil_prefix⟩), ?_⟩
        intro fs e hfs
        exact h (d :: fs) e (List.cons_prefix_cons.mpr ⟨rfl, hfs⟩)

theorem steps_append {P : S → E → Prop} {s : S} {es fs : List E} :
    Steps step P s (es ++ fs) ↔ Steps step P s es ∧ Steps step P (run step s es) fs := by
  induction es generalizing s with
  | nil => simp [Steps]
  | cons e es ih => simp only [List.cons_append, Steps, ih, run_cons, and_assoc]

theorem Steps.of_isPrefixOf {P : S → E → Prop} {s : S} {es fs : List E} (h : fs <+: es)
    (hsteps : Steps step P s es) : Steps step P s fs := by
  rw [steps_iff] at hsteps ⊢
  exact fun gs e hgs => hsteps gs e (hgs.trans h)

theorem Steps.mono {P Q : S → E → Prop} (himp : ∀ s e, P s e → Q s e) {s : S} {es : List E}
    (hsteps : Steps step P s es) : Steps step Q s es :=
  of_invariant (I := fun _ => True) (fun _ _ _ _ => trivial) (fun s e _ h => himp s e h) trivial
    hsteps

end Run
