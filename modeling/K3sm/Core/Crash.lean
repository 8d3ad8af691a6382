import Mathlib

/-!
# Computations that may be killed

A computation changes a durable state step by step.  A step is done, fails without
effect, or the process dies just before or just after its effect; a computation that
died has no result, and the state is what the steps so far have made of it.
-/

namespace K3sm.Core

/-- What becomes of one step of a program that can be killed. -/
inductive StepFate
  | done
  | failed
  | killedBefore
  | killedAfter
  deriving DecidableEq

def StepFate.Took (fate : StepFate) : Prop := fate = .done ∨ fate = .killedAfter

instance (fate : StepFate) : Decidable fate.Took := inferInstanceAs (Decidable (_ ∨ _))

theorem not_took_of_failed {fate : StepFate} (hfailed : fate = .failed) : ¬ fate.Took := by
  simp [StepFate.Took, hfailed]

theorem not_took_of_killedBefore {fate : StepFate} (hkilled : fate = .killedBefore) :
    ¬ fate.Took := by
  simp [StepFate.Took, hkilled]

/-- A computation on a durable state, without a result when it was killed. -/
def Crashing (State Result : Type) := State → Option Result × State

namespace Crashing

variable {State Result Other : Type}

instance : Monad (Crashing State) where
  pure := fun result state => (some result, state)
  bind := fun computation next state =>
    match computation state with
    | (some result, after) => next result after
    | (none, after) => (none, after)

/-- A step that changes the state, can fail, and can be the last. -/
def attempt (fate : StepFate) (effect : State → State) : Crashing State Bool := fun state =>
  match fate with
  | .done => (some true, effect state)
  | .failed => (some false, state)
  | .killedBefore => (none, state)
  | .killedAfter => (none, effect state)

def look (view : State → Result) : Crashing State Result := fun state => (some (view state), state)

@[simp] theorem pure_apply (result : Result) (state : State) :
    (pure result : Crashing State Result) state = (some result, state) := rfl

theorem bind_apply (computation : Crashing State Result) (next : Result → Crashing State Other)
    (state : State) :
    (computation >>= next) state =
      match computation state with
      | (some result, after) => next result after
      | (none, after) => (none, after) := rfl

@[simp] theorem look_bind (view : State → Result) (next : Result → Crashing State Other)
    (state : State) : (look view >>= next) state = next (view state) state := rfl

theorem attempt_bind (fate : StepFate) (effect : State → State)
    (next : Bool → Crashing State Other) (state : State) :
    (attempt fate effect >>= next) state =
      match fate with
      | .done => next true (effect state)
      | .failed => next false state
      | .killedBefore => (none, state)
      | .killedAfter => (none, effect state) := by
  cases fate <;> rfl

/-- A step that must be done for the computation to go on; `refuse` is what follows
its failure. -/
def must (fate : StepFate) (effect : State → State) (refuse next : Crashing State Result) :
    Crashing State Result := do
  if ← attempt fate effect then next else refuse

theorem must_rule {property : Option Result × State → Prop} {fate : StepFate}
    {effect : State → State} {refuse next : Crashing State Result} {state : State}
    (hdone : fate = .done → property (next (effect state)))
    (hfailed : fate = .failed → property (refuse state))
    (hbefore : fate = .killedBefore → property (none, state))
    (hafter : fate = .killedAfter → property (none, effect state)) :
    property (must fate effect refuse next state) := by
  unfold must
  rw [attempt_bind]
  cases fate with
  | done => exact hdone rfl
  | failed => exact hfailed rfl
  | killedBefore => exact hbefore rfl
  | killedAfter => exact hafter rfl

def choose (view : State → Bool) (yes no : Crashing State Result) : Crashing State Result :=
  fun state => if view state then yes state else no state

/-- Checks one after the other, up to the first that fails, which is named. -/
def checkAll {Site : Type} (fates : Site → StepFate) : List Site → Crashing State (Option Site)
  | [] => pure none
  | site :: rest => do
    if ← attempt (fates site) id then checkAll fates rest else pure (some site)

theorem checkAll_apply {Site : Type} (fates : Site → StepFate) (sites : List Site) (state : State) :
    (checkAll fates sites state).2 = state ∧
      ((checkAll fates sites state).1 = some none ↔ ∀ site ∈ sites, fates site = .done) := by
  induction sites with
  | nil => simp [checkAll]
  | cons site rest ih =>
    simp only [checkAll, attempt_bind]
    cases hfate : fates site with
    | done => simpa [hfate] using ih
    | failed | killedBefore | killedAfter => simp [hfate]

def checked {Site : Type} (fates : Site → StepFate) (sites : List Site)
    (next : Crashing State (Option Site)) : Crashing State (Option Site) := do
  match ← checkAll fates sites with
  | some site => pure (some site)
  | none => next

/-! ## Pre- and postconditions

A run ends with a result or is killed; the two have a postcondition each. -/

section Ends

variable {post : Result → State → Prop} {crash : State → Prop} {state : State}

def Ends (post : Result → State → Prop) (crash : State → Prop) : Option Result × State → Prop
  | (some result, state) => post result state
  | (none, state) => crash state

theorem ends_must {fate : StepFate} {effect : State → State} {refuse next : Crashing State Result}
    (hbefore : crash state) (hafter : crash (effect state))
    (hrefuse : Ends post crash (refuse state))
    (hnext : Ends post crash (next (effect state))) :
    Ends post crash (must fate effect refuse next state) := by
  apply must_rule
  · exact fun _ => hnext
  · exact fun _ => hrefuse
  · exact fun _ => hbefore
  · exact fun _ => hafter

theorem ends_choose {view : State → Bool} {yes no : Crashing State Result}
    (hyes : view state = true → Ends post crash (yes state))
    (hno : view state = false → Ends post crash (no state)) :
    Ends post crash (choose view yes no state) := by
  unfold choose
  cases hview : view state with
  | true => exact hyes hview
  | false => exact hno hview

theorem ends_checked {Site : Type} {fates : Site → StepFate} {sites : List Site}
    {next : Crashing State (Option Site)} {post : Option Site → State → Prop}
    (hcrash : crash state) (hrefuse : ∀ site, post (some site) state)
    (hnext : Ends post crash (next state)) : Ends post crash (checked fates sites next state) := by
  obtain ⟨hstate, -⟩ := checkAll_apply fates sites state
  unfold checked
  rw [bind_apply]
  cases hrun : checkAll fates sites state with
  | mk result after =>
    rw [hrun] at hstate
    obtain rfl : after = state := hstate
    match result with
    | none => exact hcrash
    | some (some site) => exact hrefuse site
    | some none => exact hnext

theorem ends_state {property : State → Prop} {run : Option Result × State}
    (hends : Ends (fun _ => property) property run) : property run.2 := by
  rcases run with ⟨_ | result, after⟩
  · exact hends
  · exact hends

end Ends

/-! ## Preparations

A preparation ends with the step that refused, or with none when everything it needs was
done.  Until then it keeps `Same`. -/

section Staging

variable {Site : Type} {Same Ready : State → Prop} {Done : Prop}

structure Staging (Same Ready : State → Prop) (Done : Prop)
    (run : Option (Option Site) × State) : Prop where
  same : Same run.2
  outcome : run.1 = some none ∧ Done ∧ Ready run.2 ∨ run.1 ≠ some none ∧ ¬ Done

theorem staging_stop {result : Option (Option Site)} {state : State} (hsame : Same state)
    (hresult : result ≠ some none) (hdone : ¬ Done) : Staging Same Ready Done (result, state) :=
  ⟨hsame, .inr ⟨hresult, hdone⟩⟩

theorem staging_abandon {fate : StepFate} {tidy : State → State} {site : Site} {state : State}
    (hsame : Same state) (htidy : Same (tidy state)) (hdone : ¬ Done) :
    Staging Same Ready Done (must fate tidy (pure (some site)) (pure (some site)) state) := by
  apply must_rule
  · exact fun _ => staging_stop htidy nofun hdone
  · exact fun _ => staging_stop hsame nofun hdone
  · exact fun _ => staging_stop hsame nofun hdone
  · exact fun _ => staging_stop htidy nofun hdone

theorem staging_must {fate : StepFate} {effect : State → State}
    {refuse next : Crashing State (Option Site)} {state : State} (hsame : Same state)
    (heffect : Same (effect state)) (hneeded : Done → fate = .done)
    (hrefuse : ¬ Done → Staging Same Ready Done (refuse state))
    (hnext : fate = .done → Staging Same Ready Done (next (effect state))) :
    Staging Same Ready Done (must fate effect refuse next state) := by
  have hnot : fate ≠ .done → ¬ Done := fun hfate hdone => hfate (hneeded hdone)
  apply must_rule
  · exact hnext
  · exact fun hfate => hrefuse (hnot (hfate ▸ nofun))
  · exact fun hfate => staging_stop hsame nofun (hnot (hfate ▸ nofun))
  · exact fun hfate => staging_stop heffect nofun (hnot (hfate ▸ nofun))

theorem staging_checked {fates : Site → StepFate} {sites : List Site}
    {next : Crashing State (Option Site)} {state : State} (hsame : Same state)
    (hneeded : Done → ∀ site ∈ sites, fates site = .done)
    (hnext : (∀ site ∈ sites, fates site = .done) → Staging Same Ready Done (next state)) :
    Staging Same Ready Done (checked fates sites next state) := by
  obtain ⟨hstate, hchecks⟩ := checkAll_apply fates sites state
  unfold checked
  rw [bind_apply]
  cases hrun : checkAll fates sites state with
  | mk result after =>
    rw [hrun] at hstate hchecks
    obtain rfl : after = state := hstate
    have hnot : result ≠ some none → ¬ Done := fun hresult hdone =>
      hresult (hchecks.2 (hneeded hdone))
    match result with
    | none => exact staging_stop hsame nofun (hnot nofun)
    | some (some site) => exact staging_stop hsame nofun (hnot nofun)
    | some none => exact hnext (hchecks.1 rfl)

end Staging

end Crashing

end K3sm.Core
