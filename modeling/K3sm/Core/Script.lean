import Mathlib

/-!
# Scripts that may stop anywhere

An operation that changes durable state in several atomic steps is a list of actions.  An action
either changes the state or fails and leaves it alone, which ends the script.  A process that
dies, or an error returned between two steps, leaves the state some prefix of the script produced.
-/

namespace K3sm.Core

open Option

variable {State : Type*}

abbrev Script (State : Type*) := List (State → Option State)

def Script.stopAfter : Script State → ℕ → State → State
  | [], _, state => state
  | _ :: _, 0, state => state
  | action :: rest, steps + 1, state =>
    match action state with
    | some next => Script.stopAfter rest steps next
    | none => state

def Script.finish (script : Script State) (state : State) : State :=
  script.stopAfter script.length state

/-- The states that an interrupted script can leave. -/
def Script.stops (script : Script State) (state : State) : Set State :=
  Set.range fun steps => script.stopAfter steps state

theorem Script.finish_mem_stops (script : Script State) (state : State) :
    script.finish state ∈ script.stops state :=
  ⟨script.length, rfl⟩

@[simp]
theorem Script.stopAfter_zero (script : Script State) (state : State) :
    script.stopAfter 0 state = state := by
  cases script <;> rfl

@[simp]
theorem Script.stopAfter_nil (steps : ℕ) (state : State) :
    Script.stopAfter [] steps state = state := by
  cases steps <;> rfl

variable {state left : State}

theorem Script.mem_stops_nil : left ∈ Script.stops [] state ↔ left = state := by
  simp [Script.stops, eq_comm]

/-- A script is found before its first action, or, when that action succeeds,
wherever the rest of the script can be found. -/
theorem Script.mem_stops_cons {action : State → Option State} {rest : Script State} :
    left ∈ Script.stops (action :: rest) state ↔
      left = state ∨ ∃ next, action state = some next ∧ left ∈ Script.stops rest next := by
  constructor
  · rintro ⟨steps, rfl⟩
    cases steps with
    | zero => exact .inl rfl
    | succ steps =>
      cases hnext : action state with
      | none => left; simp [Script.stopAfter, hnext]
      | some next =>
        right
        exact ⟨next, rfl, steps, by simp [Script.stopAfter, hnext]⟩
  · rintro (rfl | ⟨next, hnext, steps, rfl⟩)
    · exact ⟨0, by simp⟩
    · exact ⟨steps + 1, by simp [Script.stopAfter, hnext]⟩

theorem Script.stops_invariant (inv : State → Prop) {script : Script State}
    (hactions : ∀ action ∈ script, ∀ before after, inv before →
      action before = some after → inv after) (hstate : inv state)
    (hleft : left ∈ script.stops state) : inv left := by
  induction script generalizing state with
  | nil => rwa [Script.mem_stops_nil.1 hleft]
  | cons action rest ih =>
    rcases Script.mem_stops_cons.1 hleft with rfl | ⟨next, hnext, hrest⟩
    · exact hstate
    · exact ih (fun other hother => hactions other (List.mem_cons_of_mem _ hother))
        (hactions action List.mem_cons_self state next hstate hnext) hrest

/-- A script whose every action commutes with a change of the state leaves the
changed state wherever it left the state. -/
theorem Script.stopAfter_map {script : Script State} {change : State → State}
    (hactions : ∀ action ∈ script, ∀ before, action (change before) = (action before).map change)
    (steps : ℕ) (state : State) :
    script.stopAfter steps (change state) = change (script.stopAfter steps state) := by
  induction script generalizing steps state with
  | nil => rw [Script.stopAfter_nil, Script.stopAfter_nil]
  | cons action rest ih =>
    cases steps with
    | zero => rfl
    | succ steps =>
      rw [Script.stopAfter, Script.stopAfter, hactions action List.mem_cons_self]
      cases action state with
      | none => rfl
      | some next =>
        exact ih (fun other hother => hactions other (List.mem_cons_of_mem _ hother)) _ _

/-- The state a script leaves when every action succeeds. -/
def Script.run : Script State → State → Option State
  | [], state => some state
  | action :: rest, state => (action state).bind (Script.run rest)

theorem Script.run_append (first second : Script State) (state : State) :
    Script.run (first ++ second) state = (Script.run first state).bind (Script.run second) := by
  induction first generalizing state with
  | nil => rfl
  | cons action rest ih =>
    rw [List.cons_append, Script.run, Script.run, bind_assoc]
    congr 1
    funext next
    exact ih next

theorem Script.run_mem_stops {script : Script State} (hrun : script.run state = some left) :
    left ∈ script.stops state := by
  induction script generalizing state with
  | nil => exact Script.mem_stops_nil.2 (some.inj hrun).symm
  | cons action rest ih =>
    obtain ⟨next, hnext, hrest⟩ := bind_eq_some_iff.1 hrun
    exact Script.mem_stops_cons.2 (.inr ⟨next, hnext, ih hrest⟩)

theorem Script.mem_stops_append {first second : Script State}
    (hleft : left ∈ Script.stops (first ++ second) state) :
    left ∈ first.stops state ∨
      ∃ middle, first.run state = some middle ∧ left ∈ second.stops middle := by
  induction first generalizing state with
  | nil => exact .inr ⟨state, rfl, hleft⟩
  | cons action rest ih =>
    rw [List.cons_append] at hleft
    rcases Script.mem_stops_cons.1 hleft with hstart | ⟨next, hnext, hrest⟩
    · exact .inl (Script.mem_stops_cons.2 (.inl hstart))
    rcases ih hrest with hfirst | ⟨middle, hrun, hsecond⟩
    · exact .inl (Script.mem_stops_cons.2 (.inr ⟨next, hnext, hfirst⟩))
    · exact .inr ⟨middle, by rw [Script.run, hnext]; exact hrun, hsecond⟩

def Script.lift {Part : Type*} (get : State → Part) (set : State → Part → State)
    (script : Script Part) : Script State :=
  script.map fun action state => (action (get state)).map (set state)

section Lift

variable {Part : Type*} {get : State → Part} {set : State → Part → State}

variable {script : Script Part} {state left : State}

theorem Script.mem_stops_lift (hget : ∀ state part, get (set state part) = part)
    (hleft : left ∈ (Script.lift get set script).stops state) :
    get left ∈ script.stops (get state) := by
  induction script generalizing state with
  | nil => rw [Script.mem_stops_nil.1 hleft]; exact ⟨0, by simp⟩
  | cons action rest ih =>
    rcases Script.mem_stops_cons.1 hleft with rfl | ⟨next, hnext, hrest⟩
    · exact ⟨0, by simp⟩
    obtain ⟨part, hpart, rfl⟩ := map_eq_some_iff.1 hnext
    refine Script.mem_stops_cons.2 (.inr ⟨part, hpart, ?_⟩)
    rw [← hget state part]
    exact ih hrest

theorem Script.run_lift (hget : ∀ state part, get (set state part) = part)
    (hrun : (Script.lift get set script).run state = some left) :
    script.run (get state) = some (get left) := by
  induction script generalizing state with
  | nil => rw [some.inj hrun]; rfl
  | cons action rest ih =>
    obtain ⟨next, hnext, hrest⟩ := bind_eq_some_iff.1 hrun
    obtain ⟨part, hpart, rfl⟩ := map_eq_some_iff.1 hnext
    have htail := ih hrest
    rw [hget] at htail
    rw [Script.run, hpart]
    exact htail

theorem Script.stops_lift_frame {Value : Type*} {frame : State → Value}
    (hframe : ∀ state part, frame (set state part) = frame state)
    (hleft : left ∈ (Script.lift get set script).stops state) : frame left = frame state := by
  have hactions : ∀ action ∈ Script.lift get set script, ∀ before after,
      frame before = frame state → action before = some after → frame after = frame state := by
    intro action haction before after hbefore hafter
    obtain ⟨inner, -, rfl⟩ := List.mem_map.1 haction
    obtain ⟨part, -, rfl⟩ := map_eq_some_iff.1 hafter
    rw [hframe, hbefore]
  exact Script.stops_invariant (fun state' => frame state' = frame state) hactions rfl hleft

end Lift

/-- Replacing a file: stage a temporary beside it, rename it in, sync the
directory.  Only the rename changes what a reader sees. -/
def Script.replaceFile (rename : State → State) : Script State :=
  [some, fun state => some (rename state), some]

theorem Script.mem_stops_replaceFile_append {rename : State → State}
    {rest : Script State} {state left : State} :
    left ∈ Script.stops (Script.replaceFile rename ++ rest) state ↔
      left = state ∨ left ∈ Script.stops rest (rename state) := by
  have hstart : rename state ∈ Script.stops rest (rename state) := ⟨0, by simp⟩
  simp only [Script.replaceFile, List.cons_append, List.nil_append,
    Script.mem_stops_cons, some.injEq, exists_eq_left']
  constructor
  · rintro (rfl | rfl | rfl | hrest)
    · exact .inl rfl
    · exact .inl rfl
    · exact .inr hstart
    · exact .inr hrest
  · rintro (rfl | hrest)
    · exact .inl rfl
    · exact .inr (.inr (.inr hrest))

theorem Script.mem_stops_replaceFile {rename : State → State} {state left : State} :
    left ∈ Script.stops (Script.replaceFile rename) state ↔ left = state ∨ left = rename state := by
  have happend :=
    @Script.mem_stops_replaceFile_append State rename [] state left
  rwa [List.append_nil, Script.mem_stops_nil] at happend

theorem Script.stopAfter_replaceFile (rename : State → State) (steps : ℕ) (state : State) :
    (Script.replaceFile rename).stopAfter steps state =
      if steps < 2 then state else rename state := by
  match steps with
  | 0 | 1 => rfl
  | 2 | steps + 3 => simp [Script.replaceFile, Script.stopAfter]

/-- Two files replaced one after the other: a stop leaves the first alone
replaced exactly between the two renames. -/
theorem Script.stopAfter_replaceFile_replaceFile (first second : State → State)
    (steps : ℕ) (state : State) :
    (Script.replaceFile first ++ Script.replaceFile second).stopAfter steps state =
      if steps < 2 then state
      else if steps < 5 then first state else second (first state) := by
  match steps with
  | 0 | 1 => rfl
  | 2 | 3 | 4 | 5 | steps + 6 => simp [Script.replaceFile, Script.stopAfter]

end K3sm.Core
