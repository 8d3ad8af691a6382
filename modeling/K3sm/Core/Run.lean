import Mathlib

/-!
# Runs of a labelled transition system

A system is a step relation between states, labelled by what took the step.  A run is any finite
sequence of steps, so a statement about the last state of every run is a statement about every
state the system can reach.
-/

namespace K3sm.Core

variable {State Label : Type*}

/-- `Run step start labels finish` holds when the labels, taken in order, lead
from `start` to `finish`. -/
inductive Run (step : State → Label → State → Prop) (start : State) :
    List Label → State → Prop
  | refl : Run step start [] start
  | tail {middle finish : State} {labels : List Label} {label : Label} :
      Run step start labels middle → step middle label finish →
      Run step start (labels ++ [label]) finish

/-- The steps of `step` that meet a condition on the label and on the state
they start from. -/
def guardedStep (guard : State → Label → Prop)
    (step : State → Label → State → Prop) : State → Label → State → Prop :=
  fun start label finish => guard start label ∧ step start label finish

variable {labels : List Label} {start finish state : State} {condition : State → Label → Prop}
  {next : State → Label → State} {step : State → Label → State → Prop} {property : State → Prop}

theorem Run.invariant {inv : State → Prop} (hrun : Run step start labels finish)
    (hstart : inv start)
    (hstep : ∀ before label after, inv before → step before label after → inv after) :
    inv finish := by
  induction hrun with
  | refl => exact hstart
  | tail _ htaken ih => exact hstep _ _ _ ih htaken

/-- A step in front of a run. -/
theorem Run.head {middle : State} {label : Label} (htaken : step start label middle)
    (hrun : Run step middle labels finish) : Run step start (label :: labels) finish := by
  induction hrun with
  | refl => exact Run.refl.tail htaken
  | tail _ hlast ih => exact ih.tail hlast

theorem Run.guarded {guard : State → Label → Prop} (hrun : Run step start labels finish)
    (hguard : ∀ label ∈ labels, ∀ state, guard state label) :
    Run (guardedStep guard step) start labels finish := by
  induction hrun with
  | refl => exact Run.refl
  | tail _ htaken ih =>
    refine (ih fun label hlabel => hguard label (List.mem_append_left _ hlabel)).tail ⟨?_, htaken⟩
    exact hguard _ (List.mem_append_right _ (List.mem_singleton_self _)) _

theorem Run.mono {wider : State → Label → State → Prop} (hrun : Run step start labels finish)
    (hwider : ∀ before label after, step before label after → wider before label after) :
    Run wider start labels finish := by
  induction hrun with
  | refl => exact Run.refl
  | tail _ htaken ih => exact ih.tail (hwider _ _ _ htaken)

theorem run_of_foldlM {next : State → Label → Option State}
    (hfold : labels.foldlM next start = some finish) :
    Run (fun before label after => next before label = some after) start labels finish := by
  have hgeneral : ∀ (rest taken : List Label) (state : State),
      Run (fun before label after => next before label = some after) start taken state →
      rest.foldlM next state = some finish →
      Run (fun before label after => next before label = some after) start (taken ++ rest)
        finish := by
    intro rest
    induction rest with
    | nil =>
      intro taken state hrun hrest
      rw [List.append_nil]
      exact Option.some.inj hrest ▸ hrun
    | cons label rest ih =>
      intro taken state hrun hrest
      rw [List.foldlM_cons] at hrest
      obtain ⟨middle, hmiddle, hrest⟩ := Option.bind_eq_some_iff.1 hrest
      have htaken := ih (taken ++ [label]) middle (hrun.tail hmiddle) hrest
      rwa [List.append_assoc, List.singleton_append] at htaken
  exact hgeneral labels [] start Run.refl hfold

theorem guarded_run_of_foldlM {guard : State → Label → Prop}
    [∀ state label, Decidable (guard state label)] {next : State → Label → Option State}
    (hfold : labels.foldlM (fun state label => if guard state label then next state label else none)
      start = some finish) :
    Run (guardedStep guard fun before label after => next before label = some after) start labels
      finish := by
  refine (run_of_foldlM hfold).mono ?_
  intro before label after htaken
  split at htaken
  case isTrue hguard => exact ⟨hguard, htaken⟩
  case isFalse => cases htaken

/-- A property of every state a history passes through, the first and the
last included. -/
def Always (property : State → Prop) (next : State → Label → State) :
    State → List Label → Prop
  | state, [] => property state
  | state, label :: labels =>
    property state ∧ Always property next (next state label) labels

theorem Always.last (halways : Always property next state labels) :
    property (labels.foldl next state) := by
  induction labels generalizing state with
  | nil => exact halways
  | cons label labels ih => exact ih halways.2

/-- A condition that every step of a history meets in the state it starts
from. -/
def EachStep (condition : State → Label → Prop) (next : State → Label → State) :
    State → List Label → Prop
  | _, [] => True
  | state, label :: labels =>
    condition state label ∧ EachStep condition next (next state label) labels

instance EachStep.decidable (condition : State → Label → Prop) (next : State → Label → State)
    [∀ state label, Decidable (condition state label)] :
    (state : State) → (labels : List Label) → Decidable (EachStep condition next state labels)
  | _, [] => .isTrue trivial
  | state, label :: labels =>
    @instDecidableAnd _ _ _ (decidable condition next (next state label) labels)

theorem eachStep_append {others : List Label} :
    EachStep condition next state (labels ++ others) ↔
      EachStep condition next state labels ∧
        EachStep condition next (labels.foldl next state) others := by
  induction labels generalizing state with
  | nil => simp [EachStep]
  | cons label labels ih => simp [EachStep, ih, and_assoc]

/-- What every step keeps under the condition holds throughout a history whose steps all
meet it. -/
theorem always_of_eachStep
    (hstep : ∀ state label, property state → condition state label → property (next state label))
    (hstate : property state) (hsteps : EachStep condition next state labels) :
    Always property next state labels := by
  induction labels generalizing state with
  | nil => exact hstate
  | cons label labels ih => exact ⟨hstate, ih (hstep state label hstate hsteps.1) hsteps.2⟩

theorem always_of_step (hstep : ∀ state label, property state → property (next state label))
    (hstate : property state) (labels : List Label) : Always property next state labels := by
  induction labels generalizing state with
  | nil => exact hstate
  | cons label labels ih => exact ⟨hstate, ih (hstep state label hstate)⟩

theorem Always.mono {wider : State → Prop} (halways : Always property next state labels)
    (hwider : ∀ state, property state → wider state) : Always wider next state labels := by
  induction labels generalizing state with
  | nil => exact hwider state halways
  | cons label labels ih => exact ⟨hwider state halways.1, ih halways.2⟩

/-- A condition that is exact for one step is exact for every history: the
property holds throughout precisely when each step meets the condition. -/
theorem always_iff_eachStep
    (hexact : ∀ state label, property state → (property (next state label) ↔ condition state label))
    (hstate : property state) (labels : List Label) :
    Always property next state labels ↔ EachStep condition next state labels := by
  induction labels generalizing state with
  | nil => simp [Always, EachStep, hstate]
  | cons label labels ih =>
    simp only [Always, EachStep, hstate, true_and]
    constructor
    · intro halways
      have hnext : property (next state label) := by
        cases labels with
        | nil => exact halways
        | cons _ _ => exact halways.1
      exact ⟨(hexact state label hstate).1 hnext, (ih hnext).1 halways⟩
    · rintro ⟨hcondition, hrest⟩
      exact (ih ((hexact state label hstate).2 hcondition)).2 hrest

end K3sm.Core
