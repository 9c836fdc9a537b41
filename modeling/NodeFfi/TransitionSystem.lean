import Mathlib.Data.List.Basic
import Mathlib.Logic.Function.Basic

/-! Systems that move by labelled steps: the states their runs reach, properties
kept along a run, and the rule for a condition that is exact at every step. A
step function is partial; `none` says the label is not possible there. -/
namespace TransitionSystem

variable {σ α : Type*}

/-- The states reached from `start` by steps that are allowed where they are taken. -/
inductive Reaches (step : σ → α → Option σ) (allowed : σ → α → Prop) (start : σ) : σ → Prop
  | start : Reaches step allowed start start
  | step {s t : σ} {label : α} (reached : Reaches step allowed start s)
      (permitted : allowed s label) (next : step s label = some t) : Reaches step allowed start t

variable {step : σ → α → Option σ} {allowed : σ → α → Prop} {start : σ}

/-- **Invariant rule.** What holds at the start and is kept by every allowed step
holds wherever a run leads. -/
theorem Reaches.invariant (holds : σ → Prop) (initially : holds start)
    (kept : ∀ s label t, holds s → allowed s label → step s label = some t → holds t)
    {s : σ} (reached : Reaches step allowed start s) : holds s := by
  induction reached with
  | start => exact initially
  | step _ permitted next before => exact kept _ _ _ before permitted next

/-- A run goes on with a run from where it led. -/
theorem Reaches.trans {s t : σ} (first : Reaches step allowed start s) (second : Reaches step allowed s t) :
    Reaches step allowed start t := by
  induction second with
  | start => exact first
  | step _ permitted next reached => exact reached.step permitted next

/-- A run of a system is one of any system that allows more. -/
theorem Reaches.mono {allowed' : σ → α → Prop} (more : ∀ s label, allowed s label → allowed' s label) {s : σ}
    (reached : Reaches step allowed start s) : Reaches step allowed' start s := by
  induction reached with
  | start => exact .start
  | step _ permitted next reached => exact reached.step (more _ _ permitted) next

/-- Run the labels in order. -/
def execute (step : σ → α → Option σ) : σ → List α → Option σ
  | s, [] => some s
  | s, label :: rest => (step s label).bind fun t => execute step t rest

/-- The same system without the steps that are not allowed. -/
def guarded (step : σ → α → Option σ) (allowed : σ → α → Prop)
    [∀ s label, Decidable (allowed s label)] (s : σ) (label : α) : Option σ :=
  if allowed s label then step s label else none

/-- A guarded execution reaches its last state. -/
theorem reaches_of_execute [∀ s label, Decidable (allowed s label)] {s t : σ} {labels : List α}
    (reached : Reaches step allowed start s)
    (executed : execute (guarded step allowed) s labels = some t) :
    Reaches step allowed start t := by
  induction labels generalizing s with
  | nil =>
    obtain rfl : s = t := Option.some.inj executed
    exact reached
  | cons label rest further =>
    obtain ⟨u, next, onward⟩ := Option.bind_eq_some_iff.mp executed
    by_cases permitted : allowed s label
    · rw [guarded, if_pos permitted] at next
      exact further (reached.step permitted next) onward
    · rw [guarded, if_neg permitted] at next
      cases next

/-- A guarded execution that ends where `found` holds exhibits such a state. -/
theorem exists_reaches (step : σ → α → Option σ) (allowed : σ → α → Prop)
    [∀ s label, Decidable (allowed s label)] (start : σ) (labels : List α) (found : σ → Bool)
    (ends : (execute (guarded step allowed) start labels).any found = true) :
    ∃ s, Reaches step allowed start s ∧ found s = true := by
  cases executed : execute (guarded step allowed) start labels with
  | none => simp [executed] at ends
  | some s =>
    rw [executed] at ends
    exact ⟨s, reaches_of_execute .start executed, ends⟩

/-! ## Properties of whole runs -/

/-- `holds` is true of every state the labels lead through, the first included. -/
def Along (step : σ → α → Option σ) (holds : σ → Prop) : σ → List α → Prop
  | s, [] => holds s
  | s, label :: rest => holds s ∧ ∀ t ∈ step s label, Along step holds t rest

/-- Every step the labels lead through meets `condition` where it is taken. -/
def EachStep (step : σ → α → Option σ) (condition : σ → α → Prop) : σ → List α → Prop
  | _, [] => True
  | s, label :: rest =>
    ∀ t ∈ step s label, condition s label ∧ EachStep step condition t rest

instance decidableAlong {holds : σ → Prop}
    [DecidablePred holds] : ∀ s labels, Decidable (Along step holds s labels)
  | s, [] => inferInstanceAs (Decidable (holds s))
  | s, label :: rest =>
    have : ∀ t, Decidable (Along step holds t rest) := fun t => decidableAlong t rest
    inferInstanceAs (Decidable (holds s ∧ ∀ t ∈ step s label, Along step holds t rest))

instance decidableEachStep {condition : σ → α → Prop} [∀ s label, Decidable (condition s label)] :
    ∀ s labels, Decidable (EachStep step condition s labels)
  | _, [] => isTrue trivial
  | s, label :: rest =>
    have : ∀ t, Decidable (EachStep step condition t rest) := fun t => decidableEachStep t rest
    inferInstanceAs (Decidable (∀ t ∈ step s label, condition s label ∧ EachStep step condition t rest))

theorem Along.first {holds : σ → Prop} {s : σ} {labels : List α}
    (along : Along step holds s labels) : holds s := by
  cases labels with
  | nil => exact along
  | cons label rest => exact along.1

/-- **Exact condition rule.** When steps that meet the condition keep the
invariant, and a step that does not meet it breaks the property at once, the
property holds along a run exactly when all its steps meet the condition. -/
theorem along_iff_eachStep {invariant holds : σ → Prop} {condition : σ → α → Prop}
    (sound : ∀ s, invariant s → holds s)
    (kept : ∀ s label t, invariant s → condition s label → step s label = some t → invariant t)
    (broken : ∀ s label t, invariant s → ¬ condition s label → step s label = some t → ¬ holds t)
    {s : σ} (initially : invariant s) (labels : List α) :
    Along step holds s labels ↔ EachStep step condition s labels := by
  induction labels generalizing s with
  | nil =>
    constructor
    · intro _
      trivial
    · intro _
      exact sound s initially
  | cons label rest further =>
    constructor
    · rintro ⟨_, onward⟩ t next
      have meets : condition s label := by
        by_contra violated
        exact broken s label t initially violated next (onward t next).first
      exact ⟨meets, (further (kept s label t initially meets next)).mp (onward t next)⟩
    · intro each
      refine ⟨sound s initially, ?_⟩
      intro t next
      obtain ⟨meets, onward⟩ := each t next
      exact (further (kept s label t initially meets next)).mpr onward

/-- Steps that keep an invariant meet what follows from it and from the condition. -/
theorem EachStep.imp {invariant : σ → Prop} {condition condition' : σ → α → Prop}
    (kept : ∀ s label t, invariant s → condition s label → step s label = some t → invariant t)
    (implies : ∀ s label, invariant s → condition s label → condition' s label)
    {s : σ} (initially : invariant s) {labels : List α} (each : EachStep step condition s labels) :
    EachStep step condition' s labels := by
  induction labels generalizing s with
  | nil => trivial
  | cons label rest further =>
    intro t next
    obtain ⟨meets, onward⟩ := each t next
    exact ⟨implies s label initially meets, further (kept s label t initially meets next) onward⟩

end TransitionSystem
