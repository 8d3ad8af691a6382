import Mathlib

/-!
# Successful computations that may fail

A chain of `Except` computations succeeds exactly when each of them does, with
the results handed on.  Every model of a function that returns an error uses
this to take a success apart.
-/

namespace K3sm.Core

open List

variable {Error Value Result : Type}

variable {computation : Except Error Value}

theorem bind_eq_ok_iff {continuation : Value → Except Error Result} {result : Result} :
    (computation >>= continuation) = .ok result ↔
      ∃ value, computation = .ok value ∧ continuation value = .ok result := by
  cases computation with
  | error error | ok value => simp [bind, Except.bind]

theorem bind_eq_error_iff {continuation : Value → Except Error Result} {error : Error} :
    (computation >>= continuation) = .error error ↔
      computation = .error error ∨
        ∃ value, computation = .ok value ∧ continuation value = .error error := by
  cases computation with
  | error error | ok value => simp [bind, Except.bind]

theorem pure_eq_ok_iff {value result : Value} :
    (pure value : Except Error Value) = .ok result ↔ value = result := by
  simp [pure, Except.pure]

theorem mapError_eq_ok {Error' : Type} {convert : Error → Error'} {value : Value}
    (hok : computation.mapError convert = .ok value) : computation = .ok value := by
  cases computation with
  | error error => cases hok
  | ok result =>
    cases hok
    rfl

theorem mapError_eq_error {Error' : Type} {convert : Error → Error'} {error : Error'}
    (herror : computation.mapError convert = .error error) :
    ∃ cause, computation = .error cause ∧ convert cause = error := by
  cases computation with
  | error cause => exact ⟨cause, rfl, Except.error.inj herror⟩
  | ok result => cases herror

/-- A loop over a state is also a loop over any view of the state that each
round changes in a way of its own. -/
theorem foldlM_project {State View Label : Type} {step : State → Label → Option State}
    (view : State → View) (stepView : View → Label → Option View) {labels : List Label}
    {start finish : State}
    (hstep : ∀ before label after, step before label = some after →
      stepView (view before) label = some (view after))
    (hfold : labels.foldlM step start = some finish) :
    labels.foldlM stepView (view start) = some (view finish) := by
  induction labels generalizing start with
  | nil =>
    simp only [foldlM_nil, Option.pure_def, Option.some.injEq] at hfold ⊢
    rw [hfold]
  | cons label labels ih =>
    simp only [foldlM_cons, Option.bind_eq_bind, Option.bind_eq_some_iff] at hfold ⊢
    obtain ⟨next, hnext, hrest⟩ := hfold
    exact ⟨view next, hstep _ _ _ hnext, ih hrest⟩

theorem foldlM_error {State : Type} {step : State → Value → Except Error State}
    {values : List Value} {start : State} {error : Error}
    (hfold : values.foldlM step start = .error error) :
    ∃ state, ∃ value ∈ values, step state value = .error error := by
  induction values generalizing start with
  | nil => cases hfold
  | cons value values ih =>
    rw [foldlM_cons, bind_eq_error_iff] at hfold
    rcases hfold with hfails | ⟨next, -, hrest⟩
    · exact ⟨start, value, mem_cons_self, hfails⟩
    · obtain ⟨state, other, hother, hfails⟩ := ih hrest
      exact ⟨state, other, mem_cons_of_mem _ hother, hfails⟩

/-- A property of the values handled so far and of the loop's state that each
successful round keeps holds of all the values at the end. -/
theorem foldlM_invariant {State : Type} {step : State → Value → Except Error State}
    {inv : List Value → State → Prop} {values : List Value} {start finish : State}
    (hstep : ∀ handled value before after, value ∈ values → inv handled before →
      step before value = .ok after → inv (handled ++ [value]) after)
    (hstart : inv [] start) (hfold : values.foldlM step start = .ok finish) :
    inv values finish := by
  have hgeneral : ∀ (rest handled : List Value) (state : State), handled ++ rest = values →
      inv handled state → rest.foldlM step state = .ok finish → inv values finish := by
    intro rest
    induction rest with
    | nil =>
      intro handled state hsplit hstate hrest
      rw [foldlM_nil, pure_eq_ok_iff] at hrest
      rwa [← hsplit, append_nil, ← hrest]
    | cons value rest ih =>
      intro handled state hsplit hstate hrest
      rw [foldlM_cons, bind_eq_ok_iff] at hrest
      obtain ⟨next, hnext, hrest⟩ := hrest
      have hmem : value ∈ values := by
        rw [← hsplit]
        exact mem_append_right _ mem_cons_self
      refine ih (handled ++ [value]) next ?_ (hstep _ _ _ _ hmem hstate hnext) hrest
      rwa [append_assoc, singleton_append]
  exact hgeneral values [] start rfl hstart hfold

end K3sm.Core
