import Mathlib.Data.List.Basic

/-!
# Systems that react to events

A system takes one step for each event that occurs, and an event that cannot occur in a state has no
step.  `System.Reaches` are the runs whose steps meet a condition, with the events of a run, the newest
first.  What holds at the start and after every step holds of every run (`Reaches.invariant`); a run can
be cut at one of its events (`Reaches.cut`), and a list of events can be tried out (`System.run`).
-/

universe u v

/-- A system with states `S` and events `E`. -/
structure System (S : Type u) (E : Type v) where
  step : S → E → Option S

namespace System

variable {S : Type u} {E : Type v}

/-- A run whose steps meet `C`. -/
inductive Reaches (sys : System S E) (C : S → E → Prop) (s₀ : S) : List E → S → Prop
  | refl : Reaches sys C s₀ [] s₀
  | step {es : List E} {e : E} {s s' : S} : Reaches sys C s₀ es s → C s e → sys.step s e = some s' →
      Reaches sys C s₀ (e :: es) s'

/-- Every run. -/
abbrev Any (_ : S) (_ : E) : Prop := True

/-- The run with the events of a list, the first of which occurs first. -/
def run (sys : System S E) : S → List E → Option S
  | s, [] => some s
  | s, e :: es => (sys.step s e).bind fun s' => run sys s' es

/-- Every step of the run with the events of a list passes a test. -/
def runMeets (sys : System S E) (C : S → E → Bool) : S → List E → Bool
  | _, [] => true
  | s, e :: es => C s e && (sys.step s e).elim true fun s' => runMeets sys C s' es

variable {sys : System S E} {C D : S → E → Prop} {s₀ s s' : S} {es es' : List E}

/-- What holds at the start and is preserved by every step. -/
theorem Reaches.invariant {I : List E → S → Prop} (h : sys.Reaches C s₀ es s) (h₀ : I [] s₀)
    (hstep : ∀ es e s s', I es s → C s e → sys.step s e = some s' → I (e :: es) s') : I es s := by
  induction h with
  | refl => exact h₀
  | step _ hC hs ih => exact hstep _ _ _ _ ih hC hs

theorem Reaches.mono (h : sys.Reaches C s₀ es s) (hCD : ∀ s e, C s e → D s e) :
    sys.Reaches D s₀ es s := by
  induction h with
  | refl => exact .refl
  | step _ hC hs ih => exact .step ih (hCD _ _ hC) hs

theorem Reaches.trans (h : sys.Reaches C s₀ es s) (h' : sys.Reaches C s es' s') :
    sys.Reaches C s₀ (es' ++ es) s' := by
  induction h' with
  | refl => exact h
  | step _ hC hs ih => exact .step ih hC hs

/-- The states before and after one of the events of a run. -/
theorem Reaches.cut {newer older : List E} {e : E}
    (h : sys.Reaches C s₀ (newer ++ e :: older) s) :
    ∃ t t', sys.Reaches C s₀ older t ∧ C t e ∧ sys.step t e = some t' ∧ sys.Reaches C t' newer s := by
  induction newer generalizing s with
  | nil =>
    cases h with
    | step h hC hs => exact ⟨_, _, h, hC, hs, .refl⟩
  | cons e' newer ih =>
    cases h with
    | step h hC hs =>
      obtain ⟨t, t', ht, hCt, hstep, h'⟩ := ih h
      exact ⟨t, t', ht, hCt, hstep, .step h' hC hs⟩

theorem reaches_of_run {C : S → E → Bool} (h : sys.run s₀ es = some s)
    (hC : sys.runMeets C s₀ es = true) : sys.Reaches (fun s e => C s e = true) s₀ es.reverse s := by
  induction es generalizing s₀ with
  | nil =>
    obtain rfl := Option.some.inj h
    exact .refl
  | cons e es ih =>
    obtain ⟨s₁, hs₁, h⟩ := Option.bind_eq_some_iff.1 h
    obtain ⟨hCe, hC⟩ := Bool.and_eq_true_iff.1 hC
    rw [hs₁] at hC
    rw [List.reverse_cons]
    have hfirst : sys.Reaches (fun s e => C s e = true) s₀ [e] s₁ := .step .refl hCe hs₁
    exact hfirst.trans (ih h hC)

/-- A list of events leads to a state that passes a test. -/
theorem exists_reaches (sys : System S E) (C : S → E → Bool) (s₀ : S) (es : List E) (P : S → Bool)
    (h : ((sys.run s₀ es).elim false P && sys.runMeets C s₀ es) = true) :
    ∃ s, sys.Reaches (fun s e => C s e = true) s₀ es.reverse s ∧ P s = true := by
  obtain ⟨hP, hC⟩ := Bool.and_eq_true_iff.1 h
  cases hs : sys.run s₀ es with
  | none =>
    rw [hs] at hP
    cases hP
  | some s =>
    rw [hs] at hP
    exact ⟨s, reaches_of_run hs hC, hP⟩

end System
