import K3sm.Provider.LivenessHold
import K3sm.Provider.RestartWindow

/-!
# One worker for a container

A claim is begun only while none is held, and under a generation that no worker had before.  So
the back-off is advanced when a claim is begun and when a call of the worker that holds it fails,
and at no other time.
-/

namespace K3sm.Provider

open K3sm.Core K3sm.Core.Filepath

def Step.worker : Step → Option (Str × ℕ)
  | .fire name gen _ | .kill name gen _ | .spawn name gen | .succeed name gen
  | .failCall name gen _ => some (name, gen)
  | _ => none

def Slot.failsHeld (name : Str) (slot : Slot) : Step → Bool
  | .failCall other gen _ => decide (name = other) && slot.restart.holdsAttempt gen &&
      (slot.workers gen).any fun worker => decide (worker.stage ≠ .waiting)
  | _ => false

/-- How many restart attempts a step begins. -/
def claimsBegun (pod : Pod) (state : State) (name : Str) (step : Step) : ℕ :=
  ((next pod state step).slots name).restart.attemptGen - (state.slots name).restart.attemptGen

/-- The instants of a run at which a claim was begun or a call of its holder failed, once for
each. -/
def advanceTimes (pod : Pod) (name : Str) : State → List Step → List ℕ
  | _, [] => []
  | state, step :: steps =>
    List.replicate (claimsBegun pod state name step +
        ((state.slots name).failsHeld name step).toNat) state.now ++
      advanceTimes pod name (next pod state step) steps

variable {pod : Pod} {state : State} {name : Str} {step : Step} {slot before after : Slot}
  {now gen : ℕ}

def Fresh (slot : Slot) : Prop := ∀ gen, slot.restart.attemptGen < gen → slot.workers gen = none

structure Tends (before after : Slot) : Prop where
  fresh : Fresh before → Fresh after
  busy : before.restart.attempt = true → after.restart.attemptGen = before.restart.attemptGen

theorem Calm.tends (hcalm : Calm true before after) : Tends before after where
  fresh := by
    intro hfresh gen hlater
    rw [hcalm.gen] at hlater
    by_contra hsome
    obtain ⟨worker, hworker⟩ := Option.ne_none_iff_exists'.1 hsome
    obtain ⟨old, hold, -⟩ := hcalm.workers gen worker hworker
    rw [hfresh gen hlater] at hold
    cases hold
  busy := fun _ => hcalm.gen

theorem fresh_startWorker (hfresh : Fresh slot) (trigger : Trigger) (delay : ℕ)
    (deaths : List ℕ) : Fresh (slot.startWorker trigger delay deaths) := by
  intro gen hlater
  have hlater : slot.restart.attemptGen + 1 < gen := hlater
  exact (Function.update_of_ne hlater.ne' _ _).trans (hfresh gen (by omega))

theorem tends_killAndRestart (now : ℕ) (trigger : Trigger) :
    Tends slot (slot.killAndRestart now trigger) := by
  unfold Slot.killAndRestart
  split
  · exact (Calm.refl slot).tends
  · rename_i hfree
    exact ⟨fun hfresh => fresh_startWorker hfresh _ _ _, fun hbusy => absurd hbusy hfree⟩

theorem tends_failCall (now gen : ℕ) (cause : Str) : Tends slot (slot.failCall now gen cause) := by
  unfold Slot.failCall
  split
  · rename_i worker hworker
    split
    · exact (Calm.refl slot).tends
    split
    · exact (calm_finish hworker).tends
    split
    · refine ⟨fun hfresh other hlater => ?_, fun _ => rfl⟩
      have hother : other ≠ gen := by
        rintro rfl
        rw [hfresh other hlater] at hworker
        cases hworker
      exact (Function.update_of_ne hother _ _).trans (hfresh other hlater)
    · exact (calm_finish hworker).tends
  · exact (Calm.refl slot).tends

theorem tends_observe (pod : Pod) (status : PodStatus) (now : ℕ) (name : Str) :
    Tends slot (slot.observe pod status now name) := by
  have hmarked : ∀ slot : Slot, Tends slot
      (if name ∈ observedRunning pod status then slot.observeRunning else slot) ∧
      (if name ∈ observedRunning pod status then slot.observeRunning else slot).restart.attempt =
        slot.restart.attempt := by
    intro slot
    split
    · exact ⟨calm_observeRunning.tends, rfl⟩
    · exact ⟨(Calm.refl slot).tends, rfl⟩
  obtain ⟨htends, hattempt⟩ := hmarked slot
  unfold Slot.observe
  dsimp only
  split
  · exact ⟨fun hfresh => calm_abort.tends.fresh (htends.fresh hfresh), htends.busy⟩
  constructor
  · intro hfresh
    refine List.foldlRecOn _ _ (htends.fresh hfresh) ?_
    intro middle hmiddle exit _
    unfold Slot.schedule
    split
    · exact hmiddle
    · exact fresh_startWorker hmiddle _ _ _
  · intro hbusy
    refine (List.foldlRecOn (motive := fun after : Slot => after.restart.attempt = true ∧
      after.restart.attemptGen = slot.restart.attemptGen) _ _
      ⟨hattempt.trans hbusy, htends.busy hbusy⟩ ?_).2
    intro middle hmiddle exit _
    rw [schedule_of_attempt hmiddle.1]
    exact hmiddle

theorem tends_next (pod : Pod) (now : ℕ) (name : Str) (step : Step) (slot : Slot) :
    Tends slot (slot.next pod now name step) := by
  have htends : ∀ {about : Prop} [Decidable about] {changed : Slot}, Tends slot changed →
      Tends slot (if about then changed else slot) :=
    fun hchanged => iteInduction (fun _ => hchanged) fun _ => (Calm.refl slot).tends
  cases step with
  | pass time => exact (Calm.refl slot).tends
  | observe status => exact tends_observe pod status now name
  | cancel => exact calm_abort.tends
  | liveness other => exact htends (tends_killAndRestart now .liveness)
  | postStart other stopped =>
    refine htends (iteInduction (fun _ => tends_killAndRestart now .postStart) fun _ => ?_)
    cases stopped with
    | none => exact (Calm.refl slot).tends
    | some term => exact (calm_exit term).tends
  | fire other gen noticed => exact htends (calm_fire gen noticed).tends
  | kill other gen term => exact htends (calm_kill gen term).tends
  | spawn other gen => exact htends (calm_spawn gen).tends
  | succeed other gen => exact htends (calm_succeed gen).tends
  | failCall other gen cause => exact htends (tends_failCall now gen cause)
  | start other => exact htends calm_start.tends
  | exit other term => exact htends (calm_exit term).tends
  | pull image reached => exact htends calm_pullStart.tends

def Stale (gen : ℕ) (slot : Slot) : Prop :=
  gen ≤ slot.restart.attemptGen ∧ slot.restart.holdsAttempt gen = false

theorem Stale.next (hstale : Stale gen (state.slots name)) (pod : Pod) (step : Step) :
    Stale gen ((next pod state step).slots name) := by
  have hnot := hstale.2
  rw [Bool.eq_false_iff] at hnot
  obtain ⟨-, hcalm⟩ | ⟨hretries, hretried⟩ | hdecided := next_cases pod state name step
  · exact ⟨hcalm.gen ▸ hstale.1, Bool.eq_false_iff.2 fun hholds => hnot (hcalm.holders gen hholds)⟩
  · refine ⟨hretried.gen ▸ hstale.1, Bool.eq_false_iff.2 fun hholds => ?_⟩
    -- the failed call was of the holder of the same generation
    match step, hretries with
    | .failCall _ held _, ⟨_, _, _, _, _, hheld⟩ =>
      have hsame := (hretried.gen.symm.trans (holdsAttempt_iff.1 hholds).2).symm.trans
        (holdsAttempt_iff.1 hheld).2
      exact hnot (hsame ▸ hheld)
  · have hgen := hdecided.gen
    refine ⟨by have := hstale.1; omega, Bool.eq_false_iff.2 fun hholds => ?_⟩
    have := (holdsAttempt_iff.1 hholds).2
    have := hstale.1
    omega

theorem restart_next_of_stale (hstale : slot.restart.holdsAttempt gen = false)
    (hworker : step.worker = some (name, gen)) :
    (slot.next pod now name step).restart = slot.restart := by
  cases step with
  | fire other found noticed =>
    cases hworker
    rw [Slot.next, if_pos rfl]
    unfold Slot.fire
    split
    · split
      · rfl
      split
      · exact restart_finish hstale
      · rfl
    · rfl
  | kill other found term =>
    cases hworker
    rw [Slot.next, if_pos rfl]
    unfold Slot.kill
    split
    · split <;> rfl
    · rfl
  | spawn other found =>
    cases hworker
    rw [Slot.next, if_pos rfl]
    unfold Slot.spawn
    split
    · split
      · split <;> rfl
      · rfl
    · rfl
  | succeed other found =>
    cases hworker
    rw [Slot.next, if_pos rfl]
    unfold Slot.succeed
    split
    · split
      · simp [Slot.finish, ContainerRestart.endAttempt, ContainerRestart.clearRefusal, hstale]
      · rfl
    · rfl
  | failCall other found cause =>
    cases hworker
    rw [Slot.next, if_pos rfl]
    unfold Slot.failCall
    split
    · split
      · rfl
      split
      · exact restart_finish hstale
      rw [if_neg (by simp [hstale])]
      exact restart_finish hstale
    · rfl
  | pass | observe | liveness | postStart | cancel | start | exit | pull => cases hworker

/-! ## The back-off -/

/-- A claim that is held has a worker that was not cancelled, so the failed calls of the holder
are those that are retried. -/
theorem failsHeld_iff (hstaffed : Staffed slot) :
    slot.failsHeld name step = true ↔ Retries name slot step := by
  cases step with
  | failCall other gen cause =>
    simp only [Slot.failsHeld, Retries, RetriedBy, Bool.and_eq_true, decide_eq_true_eq,
      Option.any_eq_true]
    constructor
    · rintro ⟨⟨hname, hholds⟩, worker, hworker, hstage⟩
      have hlive : worker.cancelled = false := by
        by_contra hcancelled
        rw [Bool.not_eq_false] at hcancelled
        rw [stale_of_cancelled hstaffed hworker hcancelled] at hholds
        cases hholds
      exact ⟨hname, worker, hworker, hstage, hlive, hholds⟩
    · rintro ⟨hname, worker, hworker, hstage, -, hholds⟩
      exact ⟨⟨hname, hholds⟩, worker, hworker, hstage⟩
  | pass | observe | liveness | postStart | cancel | fire | kill | spawn | succeed | start | exit
  | pull => exact iff_of_false Bool.false_ne_true id

theorem Retries.gen_next (hretries : Retries name slot step) :
    (slot.next pod now name step).restart.attemptGen = slot.restart.attemptGen := by
  match step, hretries with
  | .failCall _ held cause, ⟨rfl, hretried⟩ =>
    rw [Slot.next, if_pos rfl]
    obtain ⟨hnot, -⟩ | ⟨-, hafter⟩ := @failCall_cases true now held cause slot
    · exact absurd hretried hnot
    · exact hafter.gen

/-- A step advances the back-off once for each claim it begins, and once more when a call of the
holder fails. -/
theorem backoff_next (hstaffed : Staffed (state.slots name)) (pod : Pod) (step : Step) :
    ((next pod state step).slots name).restart.backoff =
      (List.replicate (claimsBegun pod state name step +
        ((state.slots name).failsHeld name step).toNat) state.now).foldl
        (fun backoff now => backoff.next now) (state.slots name).restart.backoff := by
  have hgen : Retries name (state.slots name) step → claimsBegun pod state name step = 0 := by
    intro hretries
    rw [claimsBegun, next_slots, hretries.gen_next, Nat.sub_self]
  obtain ⟨hnot, hcalm⟩ | ⟨hretries, hretried⟩ | hdecided := next_cases pod state name step
  · rw [← failsHeld_iff hstaffed, Bool.not_eq_true] at hnot
    rw [claimsBegun, hcalm.gen, Nat.sub_self, hnot, hcalm.backoff]
    rfl
  · rw [hgen hretries, (failsHeld_iff hstaffed).2 hretries, hretried.backoff]
    rfl
  have hbegun : claimsBegun pod state name step = 1 := by
    rw [claimsBegun, hdecided.gen, Nat.add_sub_cancel_left]
  have hnot : (state.slots name).failsHeld name step = false := by
    rw [Bool.eq_false_iff]
    intro hfails
    rw [hgen ((failsHeld_iff hstaffed).1 hfails)] at hbegun
    cases hbegun
  rw [hbegun, hnot, hdecided.backoff]
  rfl

theorem backoff_run (hstaffed : Staffed (state.slots name)) (steps : List Step) :
    ((steps.foldl (next pod) state).slots name).restart.backoff =
      (advanceTimes pod name state steps).foldl (fun backoff now => backoff.next now)
        (state.slots name).restart.backoff := by
  induction steps generalizing state with
  | nil => rfl
  | cons step steps ih =>
    have hafter : Staffed ((next pod state step).slots name) := by
      rw [next_slots]
      exact (claimed_next hstaffed pod state.now name step).staffed
    rw [List.foldl_cons, ih hafter, advanceTimes, List.foldl_append, backoff_next hstaffed]

/-- The workers of a container take the claim one at a time, those without it leave the entry
alone, and the back-off is advanced once for each claim and each failed call under it. -/
theorem single_restart_worker (pod : Pod) (counts : Str → ℕ) (processes : Str → ProcessState)
    (steps : List Step) (name : Str) :
    let state := steps.foldl (next pod) (State.tracked counts processes)
    let slot := state.slots name
    (∀ first second, (slot.workers first).isSome = true → (slot.workers second).isSome = true →
      slot.restart.holdsAttempt first = true → slot.restart.holdsAttempt second = true →
      first = second) ∧
    (∀ step, 0 < claimsBegun pod state name step →
      slot.restart.attempt = false ∧ slot.workers (slot.restart.attemptGen + 1) = none ∧
        ((next pod state step).slots name).restart.attemptGen = slot.restart.attemptGen + 1) ∧
    (∀ gen, gen ≤ slot.restart.attemptGen → slot.restart.holdsAttempt gen = false →
      ∀ more : List Step, let later := more.foldl (next pod) state
        (later.slots name).restart.holdsAttempt gen = false ∧
        ∀ step, step.worker = some (name, gen) →
          ((next pod later step).slots name).restart = (later.slots name).restart) ∧
    slot.restart.backoff =
      (advanceTimes pod name (State.tracked counts processes) steps).foldl
        (fun backoff now => backoff.next now) Backoff.fresh := by
  intro state slot
  have hfresh : Fresh slot := by
    refine List.foldlRecOn (motive := fun state : State => Fresh (state.slots name)) _ _
      (fun _ _ => rfl) ?_
    intro middle hmiddle step _
    rw [next_slots]
    exact (tends_next pod middle.now name step _).fresh hmiddle
  refine ⟨?_, ?_, ?_, ?_⟩
  · intro first second _ _ hfirst hsecond
    exact (holdsAttempt_iff.1 hfirst).2.symm.trans (holdsAttempt_iff.1 hsecond).2
  · intro step hbegun
    have hdecides : Decides pod state name step := by
      intro hsame
      rw [claimsBegun, hsame, Nat.sub_self] at hbegun
      cases hbegun
    refine ⟨?_, hfresh _ (Nat.lt_succ_self _), hdecides.decided.gen⟩
    rw [Bool.eq_false_iff]
    intro hbusy
    refine hdecides ?_
    rw [next_slots]
    exact (tends_next pod state.now name step slot).busy hbusy
  · intro gen hgiven hstale more
    have hlater : Stale gen ((more.foldl (next pod) state).slots name) :=
      List.foldlRecOn (motive := fun state : State => Stale gen (state.slots name)) _ _
        ⟨hgiven, hstale⟩ fun middle hmiddle step _ => hmiddle.next pod step
    refine ⟨hlater.2, fun step hworker => ?_⟩
    rw [next_slots]
    exact restart_next_of_stale hlater.2 hworker
  · exact backoff_run (fun hheld => absurd hheld Bool.false_ne_true) steps

end K3sm.Provider
