import Mathlib.Data.List.Basic
import Mathlib.Data.List.Infix

/-!
# Runs of an event-driven machine

A machine is a total step function `step : σ → ε → σ`; an event that is not
enabled leaves the state alone.  A run is the left fold of `step` over a
finite list of events.  The induction rules below turn a statement about one
step into a statement about every state a run passes through, with or without
a side condition on the steps taken.
-/

namespace EmbBoard.Runs

variable {σ ε : Type*}

/-- The state reached from `s` after the events `es`, oldest first. -/
def run (step : σ → ε → σ) (s : σ) (es : List ε) : σ :=
  es.foldl step s

@[simp] theorem run_nil (step : σ → ε → σ) (s : σ) : run step s [] = s := rfl

@[simp] theorem run_cons (step : σ → ε → σ) (s : σ) (e : ε) (es : List ε) :
    run step s (e :: es) = run step (step s e) es := rfl

theorem run_append (step : σ → ε → σ) (s : σ) (es fs : List ε) :
    run step s (es ++ fs) = run step (run step s es) fs := by
  simp [run]

/-- The condition `ok` holds of every step the run takes, in the state in
which the step is taken. -/
def Admissible (step : σ → ε → σ) (ok : σ → ε → Prop) : σ → List ε → Prop
  | _, [] => True
  | s, e :: es => ok s e ∧ Admissible step ok (step s e) es

instance Admissible.decidable {step : σ → ε → σ} {ok : σ → ε → Prop}
    [∀ s e, Decidable (ok s e)] :
    ∀ (s : σ) (es : List ε), Decidable (Admissible step ok s es)
  | _, [] => isTrue trivial
  | s, e :: es =>
      have : Decidable (Admissible step ok (step s e) es) :=
        Admissible.decidable (step s e) es
      inferInstanceAs (Decidable (_ ∧ _))

/-- `P` holds of every state the run passes through, both ends included. -/
def Along (step : σ → ε → σ) (P : σ → Prop) (s : σ) (es : List ε) : Prop :=
  ∀ fs, fs <+: es → P (run step s fs)

section Rules

variable {step : σ → ε → σ} {I P : σ → Prop} {ok ok' : σ → ε → Prop}

/-- An invariant of one step is an invariant of every run. -/
theorem invariant_run (hstep : ∀ s e, I s → I (step s e)) {s : σ}
    (hs : I s) (es : List ε) : I (run step s es) := by
  induction es generalizing s with
  | nil => exact hs
  | cons e es ih => exact ih (hstep s e hs)

theorem admissible_append {s : σ} {es fs : List ε} :
    Admissible step ok s (es ++ fs) ↔
      Admissible step ok s es ∧ Admissible step ok (run step s es) fs := by
  induction es generalizing s with
  | nil => simp [Admissible]
  | cons e es ih => simp [Admissible, ih, and_assoc]

/-- A condition met along a run is met along every initial part of it. -/
theorem admissible_of_initial {s : σ} {es fs : List ε}
    (hpre : fs <+: es) (h : Admissible step ok s es) :
    Admissible step ok s fs := by
  obtain ⟨rest, rfl⟩ := hpre
  exact (admissible_append.mp h).1

/-- Two conditions that agree wherever an invariant holds are met along the
same runs. -/
theorem admissible_congr (hstep : ∀ s e, I s → I (step s e))
    (hok : ∀ s e, I s → (ok s e ↔ ok' s e)) {s : σ} (hs : I s)
    (es : List ε) : Admissible step ok s es ↔ Admissible step ok' s es := by
  induction es generalizing s with
  | nil => exact Iff.rfl
  | cons e es ih => exact and_congr (hok s e hs) (ih (hstep s e hs))

theorem admissible_and {s : σ} {es : List ε} :
    Admissible step (fun s e => ok s e ∧ ok' s e) s es ↔
      Admissible step ok s es ∧ Admissible step ok' s es := by
  induction es generalizing s with
  | nil => simp [Admissible]
  | cons e es ih =>
      simp only [Admissible, ih]
      exact and_and_and_comm

/-- An invariant of the admissible steps is an invariant of the admissible
runs. -/
theorem invariant_run_of_admissible
    (hstep : ∀ s e, I s → ok s e → I (step s e)) {s : σ}
    (hs : I s) {es : List ε} (hok : Admissible step ok s es) :
    I (run step s es) := by
  induction es generalizing s with
  | nil => exact hs
  | cons e es ih => exact ih (hstep s e hs hok.1) hok.2

/-- An invariant of the admissible steps holds all along an admissible
run. -/
theorem along_of_admissible
    (hstep : ∀ s e, I s → ok s e → I (step s e)) {s : σ}
    (hs : I s) {es : List ε} (hok : Admissible step ok s es) :
    Along step I s es := by
  intro fs hpre
  exact invariant_run_of_admissible hstep hs (admissible_of_initial hpre hok)

theorem Along.mono (h : ∀ s, I s → P s) {s : σ} {es : List ε}
    (hI : Along step I s es) : Along step P s es := by
  intro fs hpre
  exact h _ (hI fs hpre)

theorem Along.last {s : σ} {es : List ε} (h : Along step P s es) :
    P (run step s es) :=
  h es (List.prefix_refl es)

theorem along_nil {s : σ} : Along step P s [] ↔ P s := by
  constructor
  · intro h
    exact h.last
  · intro hs fs hpre
    rw [List.prefix_nil.mp hpre]
    exact hs

theorem along_cons {s : σ} {e : ε} {es : List ε} :
    Along step P s (e :: es) ↔ P s ∧ Along step P (step s e) es := by
  constructor
  · intro h
    refine ⟨h [] (List.nil_prefix), ?_⟩
    intro fs hpre
    have hcons : e :: fs <+: e :: es := by simpa using hpre
    exact h (e :: fs) hcons
  · rintro ⟨hs, hrest⟩ fs hpre
    cases fs with
    | nil => exact hs
    | cons f fs =>
        obtain ⟨rfl, htail⟩ := List.cons_prefix_cons.mp hpre
        exact hrest fs htail

/-- Where a step keeps a property exactly under a condition, the property
holds all along exactly the runs whose steps meet the condition; an invariant
may be used for the step. -/
theorem along_iff_admissible (hinv : ∀ s e, I s → I (step s e))
    (hstep : ∀ s e, I s → P s → (P (step s e) ↔ ok s e)) {s : σ}
    (hI : I s) (hs : P s) (es : List ε) :
    Along step P s es ↔ Admissible step ok s es := by
  induction es generalizing s with
  | nil => exact along_nil.trans (iff_true_intro hs)
  | cons e es ih =>
      rw [along_cons, and_iff_right hs]
      have hI' := hinv s e hI
      constructor
      · intro hrest
        have hnext : P (step s e) := hrest [] List.nil_prefix
        exact ⟨(hstep s e hI hs).mp hnext, (ih hI' hnext).mp hrest⟩
      · rintro ⟨hok, hrest⟩
        exact (ih hI' ((hstep s e hI hs).mpr hok)).mpr hrest

/-- What holds of a step between two states with a property holds of every step
of a run that keeps the property. -/
theorem admissible_of_along
    (hstep : ∀ s e, P s → P (step s e) → ok s e) {s : σ} {es : List ε}
    (hP : Along step P s es) : Admissible step ok s es := by
  induction es generalizing s with
  | nil => trivial
  | cons e es ih =>
      obtain ⟨hhead, htail⟩ := along_cons.mp hP
      have hnext : P (step s e) := by
        simpa using htail [] (List.nil_prefix)
      exact ⟨hstep s e hhead hnext, ih htail⟩

/-- A property of the visited states may be used as a side condition when
stepping an invariant. -/
theorem invariant_run_of_along
    (hstep : ∀ s e, I s → P s → P (step s e) → I (step s e)) {s : σ}
    (hs : I s) {es : List ε} (hP : Along step P s es) :
    I (run step s es) := by
  induction es generalizing s with
  | nil => exact hs
  | cons e es ih =>
      obtain ⟨hhead, htail⟩ := along_cons.mp hP
      have hnext : P (step s e) := by
        simpa using htail [] (List.nil_prefix)
      exact ih (hstep s e hs hhead hnext) htail

end Rules

end EmbBoard.Runs
