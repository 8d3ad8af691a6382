import K3sm.Provider.Restarts

/-!
# The window of a restart

From the decision of a restart until the container is seen running, the statuses that are
published show it neither ready nor started, and in CrashLoopBackOff when its worker backs off.
The window is closed by any status that shows the container running: it does not say which
instance that was, so the instance a liveness failure is about to kill closes it as well.
-/

namespace K3sm.Provider

open K3sm.Core K3sm.Core.Filepath Function Option

structure PodRef where
  name : Str
  ns : Str
  uid : Str
  deriving DecidableEq

inductive WaitingReason where
  | crashLoopBackOff
  | errImagePull
  | imagePullBackOff
  | other (reason : Str)
  deriving DecidableEq

/-- A message: one the runtime gave, or what the provider puts into its own. -/
inductive WaitingMessage where
  | reported (text : Str)
  | backOff (delay : ℕ) (container : Str) (pod : PodRef) (refusal : Str)
  | pulling (image : Str)
  deriving DecidableEq

inductive ContainerState where
  | none
  | waiting (reason : WaitingReason) (message : WaitingMessage)
  | running
  | terminated (term : Terminated)
  deriving DecidableEq

/-- `corev1.ContainerStatus`, as far as the overlays read and write it. -/
structure Published where
  name : Str
  image : Str
  ready : Bool
  started : Bool
  state : ContainerState
  lastTermination : Option Terminated
  deriving DecidableEq

/-- `imagePullRetry`, as far as its overlay reads it. -/
structure ImagePullRetry where
  sleeping : Bool
  firstReport : Bool
  deriving DecidableEq

/-- What the overlays start from: the translation of the runtime's status, the schedules of
the image pulls and the containers whose postStart hook holds them. -/
structure Rendering where
  ref : PodRef
  phase : Phase
  containers : List Published
  initContainers : List Published
  pulls : Str → Option ImagePullRetry
  /-- The one schedule of a parked pod, and its image. -/
  park : Option (ImagePullRetry × Str)
  gated : List Str

/-- What `overlayCrashLoop` makes of one status. -/
def crashLoopStatus (ref : PodRef) (restart : ContainerRestart) (status : Published) : Published :=
  if restart.restarting then
    { status with
      lastTermination := restart.lastTerm.or status.lastTermination
      state := if 0 < restart.delay then
          .waiting .crashLoopBackOff (.backOff restart.delay status.name ref restart.refusal)
        else status.state
      ready := false
      started := false }
  else status

def overlayCrashLoop (ref : PodRef) (restarts : Str → ContainerRestart)
    (statuses : List Published) :
    List Published × Bool :=
  (statuses.map fun status => crashLoopStatus ref (restarts status.name) status,
    statuses.any fun status => (restarts status.name).restarting)

def imageRefFor (pod : Pod) (container reported : Str) : Str :=
  if reported ≠ [] then reported
  else match (pod.containers.reverse ++ pod.initContainers.reverse).find? (·.name == container) with
    | some found => found.image
    | none => []

def pullBackOffStatus (pod : Pod) (pulls : Str → Option ImagePullRetry)
    (park : Option (ImagePullRetry × Str)) (status : Published) : Published :=
  match status.state with
  | .waiting .errImagePull _ =>
    let image := imageRefFor pod status.name status.image
    let schedule := match park with
      | some (retry, parked) => some (retry, parked)
      | none => (pulls image).map fun retry => (retry, image)
    match schedule with
    | some (retry, image) =>
      if retry.sleeping && !retry.firstReport then
        { status with state := .waiting .imagePullBackOff (.pulling image) }
      else status
    | none => status
  | _ => status

/-- What `applyPostStartOverlay` makes of one status. -/
def postStartStatus (gated : List Str) (status : Published) : Published :=
  if status.name ∈ gated then { status with ready := false, started := false } else status

structure PublishedPod where
  phase : Phase
  containers : List Published
  initContainers : List Published
  deriving DecidableEq

/-- The overlays of `buildStatus` in their order: the restarts, the pulls and the hooks, the
last of which gates the containers only. -/
def publish (pod : Pod) (rendering : Rendering) (state : State) : PublishedPod :=
  let restarts := fun name => (state.slots name).restart
  let (containers, restarting) := overlayCrashLoop rendering.ref restarts rendering.containers
  let (initContainers, _) := overlayCrashLoop rendering.ref restarts rendering.initContainers
  { phase :=
      if restarting && (rendering.phase == .failed || rendering.phase == .succeeded) then .running
      else rendering.phase
    containers :=
      (containers.map (pullBackOffStatus pod rendering.pulls rendering.park)).map
        (postStartStatus rendering.gated)
    initContainers := initContainers.map (pullBackOffStatus pod rendering.pulls rendering.park) }

def BackingOff (slot : Slot) : Prop :=
  ∃ gen worker, slot.workers gen = some worker ∧ slot.restart.holdsAttempt gen = true ∧
    worker.stage = .waiting ∧ 0 < worker.delay

def Paced (slot : Slot) : Prop :=
  ∀ gen worker, slot.workers gen = some worker → slot.restart.holdsAttempt gen = true →
    worker.delay = slot.restart.delay

structure Calm (closing : Bool) (before after : Slot) : Prop where
  gen : after.restart.attemptGen = before.restart.attemptGen
  backoff : after.restart.backoff = before.restart.backoff
  delay : after.restart.delay = before.restart.delay
  window : closing = false → before.restart.restarting = true → after.restart.restarting = true
  holders : ∀ gen, after.restart.holdsAttempt gen = true → before.restart.holdsAttempt gen = true
  workers : ∀ gen worker, after.workers gen = some worker →
    ∃ old, before.workers gen = some old ∧ old.delay = worker.delay

variable {slot before after : Slot} {now gen : ℕ} {closing : Bool}

theorem Calm.refl (slot : Slot) : Calm closing slot slot where
  gen := rfl
  backoff := rfl
  delay := rfl
  window := fun _ hopen => hopen
  holders := fun _ hholds => hholds
  workers := fun _ worker hworker => ⟨worker, hworker, rfl⟩

theorem Calm.trans {last : Slot} (hfirst : Calm closing before after)
    (hsecond : Calm closing after last) : Calm closing before last where
  gen := hsecond.gen.trans hfirst.gen
  backoff := hsecond.backoff.trans hfirst.backoff
  delay := hsecond.delay.trans hfirst.delay
  window := fun hclosing hopen => hsecond.window hclosing (hfirst.window hclosing hopen)
  holders := fun gen hholds => hfirst.holders gen (hsecond.holders gen hholds)
  workers := fun gen worker hworker => by
    obtain ⟨middle, hmiddle, hdelay⟩ := hsecond.workers gen worker hworker
    obtain ⟨old, hold, hsame⟩ := hfirst.workers gen middle hmiddle
    exact ⟨old, hold, hsame.trans hdelay⟩

theorem Calm.paced (hcalm : Calm closing before after) (hpaced : Paced before) : Paced after := by
  intro gen worker hworker hholds
  obtain ⟨old, hold, hdelay⟩ := hcalm.workers gen worker hworker
  rw [← hdelay, hcalm.delay]
  exact hpaced gen old hold (hcalm.holders gen hholds)

theorem workers_update {worker : Worker} (hworker : slot.workers gen = some worker)
    {changed : Option Worker} (hchanged : ∀ kept ∈ changed, kept.delay = worker.delay) :
    ∀ other found, Function.update slot.workers gen changed other = some found →
      ∃ old, slot.workers other = some old ∧ old.delay = found.delay := by
  intro other found hfound
  by_cases hsame : other = gen
  · subst hsame
    rw [update_self] at hfound
    exact ⟨worker, hworker, (hchanged found hfound).symm⟩
  · rw [update_of_ne hsame] at hfound
    exact ⟨found, hfound, rfl⟩

theorem calm_finish {worker : Worker} (hworker : slot.workers gen = some worker) :
    Calm closing slot (slot.finish gen) := by
  have hrestart : (slot.finish gen).restart = slot.restart.endAttempt gen := rfl
  refine ⟨?_, ?_, ?_, ?_, ?_, workers_update hworker nofun⟩
  all_goals
    rw [hrestart]
    unfold ContainerRestart.endAttempt
  · split <;> rfl
  · split <;> rfl
  · split <;> rfl
  · intro _ hopen
    split <;> exact hopen
  · intro other hholds
    split at hholds
    · cases hholds
    · exact hholds

theorem calm_fire (gen : ℕ) (noticed : Bool) : Calm closing slot (slot.fire gen noticed) := by
  unfold Slot.fire
  split
  · rename_i worker hworker
    split
    · exact Calm.refl slot
    split
    · exact calm_finish hworker
    refine ⟨rfl, rfl, rfl, fun _ hopen => hopen, fun _ hholds => hholds,
      workers_update hworker fun kept hkept => ?_⟩
    obtain rfl := some.inj hkept
    rfl
  · exact Calm.refl slot

theorem calm_kill (gen : ℕ) (term : Terminated) : Calm closing slot (slot.kill gen term) := by
  unfold Slot.kill
  split
  · rename_i worker hworker
    split
    · refine ⟨rfl, rfl, rfl, fun _ hopen => hopen, fun _ hholds => hholds,
        workers_update hworker fun kept hkept => ?_⟩
      obtain rfl := some.inj hkept
      rfl
    · exact Calm.refl slot
  · exact Calm.refl slot

theorem calm_spawn (gen : ℕ) : Calm closing slot (slot.spawn gen) := by
  unfold Slot.spawn
  split
  · rename_i worker hworker
    split
    · split
      · refine ⟨rfl, rfl, rfl, fun _ hopen => hopen, fun _ hholds => hholds,
          workers_update hworker fun kept hkept => ?_⟩
        obtain rfl := some.inj hkept
        rfl
      · exact Calm.refl slot
    · exact Calm.refl slot
  · exact Calm.refl slot

theorem calm_succeed (gen : ℕ) : Calm closing slot (slot.succeed gen) := by
  unfold Slot.succeed
  split
  · rename_i worker hworker
    split
    · rename_i start _
      have hcleared : Calm closing slot
          { slot with
            diedWhileDown := slot.diedWhileDown && !start
            restart := slot.restart.clearRefusal gen
            reexecs := slot.reexecs ++ worker.deaths
            advances := slot.advances ++ worker.settles } := by
        refine ⟨?_, ?_, ?_, ?_, ?_, fun _ found hfound => ⟨found, hfound, rfl⟩⟩
        all_goals
          dsimp only
          unfold ContainerRestart.clearRefusal
        · split <;> rfl
        · split <;> rfl
        · split <;> rfl
        · intro _ hopen
          split <;> exact hopen
        · intro other hholds
          split at hholds <;> exact hholds
      exact hcleared.trans (calm_finish hworker)
    · exact Calm.refl slot
  · exact Calm.refl slot

theorem calm_of_eq (hrestart : after.restart = before.restart)
    (hworkers : after.workers = before.workers) : Calm closing before after := by
  refine ⟨by rw [hrestart], by rw [hrestart], by rw [hrestart],
    fun _ hopen => by rw [hrestart, hopen],
    fun gen hholds => by rw [← hrestart, hholds], fun gen worker hworker => ?_⟩
  rw [hworkers] at hworker
  exact ⟨worker, hworker, rfl⟩

theorem calm_exit (term : Terminated) : Calm closing slot (slot.exit term) := by
  unfold Slot.exit
  split <;> exact calm_of_eq rfl rfl

theorem calm_start : Calm closing slot slot.start := by
  unfold Slot.start
  split <;> exact calm_of_eq rfl rfl

theorem calm_pullStart : Calm closing slot slot.pullStart := by
  cases hprocess : slot.process
  all_goals
    simp only [Slot.pullStart, hprocess]
    exact calm_of_eq rfl rfl

theorem calm_observeRunning : Calm true slot slot.observeRunning :=
  ⟨rfl, rfl, rfl, nofun, fun _ hholds => hholds, fun _ worker hworker => ⟨worker, hworker, rfl⟩⟩

theorem calm_abort : Calm true slot slot.abort := by
  refine ⟨rfl, rfl, rfl, nofun, nofun, ?_⟩
  intro other found hfound
  cases hcancel : slot.restart.cancel with
  | none =>
    simp only [Slot.abort, hcancel] at hfound
    exact ⟨found, hfound, rfl⟩
  | some gen =>
    simp only [Slot.abort, hcancel] at hfound
    by_cases hsame : other = gen
    · subst hsame
      rw [update_self] at hfound
      obtain ⟨old, hold, rfl⟩ := map_eq_some_iff.1 hfound
      exact ⟨old, hold, rfl⟩
    · rw [update_of_ne hsame] at hfound
      exact ⟨found, hfound, rfl⟩

theorem Decided.paced (hdecided : Decided now before after) : Paced after := by
  intro gen found hfound hholds
  obtain ⟨worker, hworker, -, -, hdelay⟩ := hdecided.worker
  rw [(holdsAttempt_iff.1 hholds).2] at hworker
  obtain rfl := some.inj (hworker.symm.trans hfound)
  exact hdelay

def RetriedBy (slot : Slot) (gen : ℕ) : Prop :=
  ∃ worker, slot.workers gen = some worker ∧ worker.stage ≠ .waiting ∧ worker.cancelled = false ∧
    slot.restart.holdsAttempt gen = true

instance (slot : Slot) (gen : ℕ) : Decidable (RetriedBy slot gen) :=
  decidable_of_iff (∃ worker ∈ slot.workers gen, worker.stage ≠ .waiting ∧
    worker.cancelled = false ∧ slot.restart.holdsAttempt gen = true) Iff.rfl

structure Retried (now : ℕ) (before after : Slot) : Prop where
  gen : after.restart.attemptGen = before.restart.attemptGen
  backoff : after.restart.backoff = before.restart.backoff.next now
  window : after.restart.restarting = before.restart.restarting
  paced : Paced after

theorem failCall_cases (now gen : ℕ) (cause : Str) (slot : Slot) :
    (¬ RetriedBy slot gen ∧ Calm closing slot (slot.failCall now gen cause)) ∨
      (RetriedBy slot gen ∧ Retried now slot (slot.failCall now gen cause)) := by
  unfold Slot.failCall
  split
  case h_2 hnone =>
      refine .inl ⟨?_, Calm.refl slot⟩
      rintro ⟨worker, hworker, -⟩
      rw [hnone] at hworker
      cases hworker
  rename_i worker hworker
  have honly : RetriedBy slot gen → worker.stage ≠ .waiting ∧ worker.cancelled = false ∧
      slot.restart.holdsAttempt gen = true := by
    rintro ⟨found, hfound, hretried⟩
    obtain rfl := some.inj (hworker.symm.trans hfound)
    exact hretried
  split
  · rename_i hwaiting
    exact .inl ⟨fun hretried => (honly hretried).1 hwaiting, Calm.refl slot⟩
  rename_i hcalled
  split
  · rename_i hcancelled
    refine .inl ⟨fun hretried => ?_, calm_finish hworker⟩
    rw [(honly hretried).2.1] at hcancelled
    cases hcancelled
  rename_i hlive
  split
  · rename_i hholds
    refine .inr ⟨⟨worker, hworker, hcalled, by simpa using hlive, hholds⟩, rfl, rfl, rfl, ?_⟩
    intro other found hfound hother
    have hsame : other = gen := by
      exact (holdsAttempt_iff.1 hother).2.symm.trans (holdsAttempt_iff.1 hholds).2
    subst hsame
    simp only [update_self, some.injEq] at hfound
    subst hfound
    rfl
  · rename_i hstale
    exact .inl ⟨fun hretried => hstale (honly hretried).2.2, calm_finish hworker⟩

/-! ## The window and the clock over a run -/

/-- The step after which the window may be closed: a status that shows the container running
or the pod over, and a cancellation. -/
def closes (pod : Pod) (name : Str) : Step → Bool
  | .observe status => decide (name ∈ observedRunning pod status) || terminal pod status
  | .cancel => true
  | _ => false

def Retries (name : Str) (slot : Slot) : Step → Prop
  | .failCall other gen _ => name = other ∧ RetriedBy slot gen
  | _ => False

instance (name : Str) (slot : Slot) : DecidablePred (Retries name slot)
  | .failCall other gen _ => inferInstanceAs (Decidable (name = other ∧ RetriedBy slot gen))
  | .pass _ | .observe _ | .liveness _ | .postStart _ _ | .cancel | .fire _ _ _ | .kill _ _ _
  | .spawn _ _ | .succeed _ _ | .start _ | .exit _ _ | .pull _ _ => isFalse id

theorem observe_cases (pod : Pod) (status : PodStatus) (now : ℕ) (name : Str) (slot : Slot) :
    Calm (closes pod name (.observe status)) slot (slot.observe pod status now name) ∨
      Decided now slot (slot.observe pod status now name) := by
  have hmarked : Calm (closes pod name (.observe status)) slot
      (if name ∈ observedRunning pod status then slot.observeRunning else slot) := by
    split
    · rename_i hrunning
      have hcloses : closes pod name (.observe status) = true := by simp [closes, hrunning]
      rw [hcloses]
      exact calm_observeRunning
    · exact Calm.refl slot
  unfold Slot.observe
  dsimp only
  split
  · rename_i hterminal
    have hcloses : closes pod name (.observe status) = true := by simp [closes, hterminal]
    rw [hcloses] at hmarked ⊢
    exact .inl (hmarked.trans calm_abort)
  obtain hsame | hdecided := schedules_cases now
    ((due pod status).filter fun exit => decide (exit.name = name))
    (if name ∈ observedRunning pod status then slot.observeRunning else slot)
  · rw [hsame]
    exact .inl hmarked
  · refine .inr ⟨?_, ?_, hdecided.window, hdecided.attempt, ?_, hdecided.worker⟩
    · rw [hdecided.gen, hmarked.gen]
    · rw [hdecided.backoff, hmarked.backoff]
    · rw [hdecided.count]
      split <;> rfl

theorem slot_next_cases (pod : Pod) (now : ℕ) (name : Str) (step : Step) (slot : Slot) :
    (¬ Retries name slot step ∧ Calm (closes pod name step) slot (slot.next pod now name step)) ∨
      (Retries name slot step ∧ Retried now slot (slot.next pod now name step)) ∨
      Decided now slot (slot.next pod now name step) := by
  have hkill : ∀ trigger, Calm false slot (slot.killAndRestart now trigger) ∨
      Decided now slot (slot.killAndRestart now trigger) := by
    intro trigger
    obtain ⟨-, hsame⟩ | hdecided := killAndRestart_cases now trigger slot
    · rw [hsame]
      exact .inl (Calm.refl slot)
    · exact .inr hdecided
  -- a calm change, made to the containers that the step is about
  have hcalm : ∀ {about : Prop} [Decidable about] {changed : Slot}, Calm false slot changed →
      Calm false slot (if about then changed else slot) :=
    fun hchanged => iteInduction (fun _ => hchanged) fun _ => Calm.refl slot
  cases step with
  | pass time => exact .inl ⟨id, Calm.refl slot⟩
  | observe status =>
    exact (observe_cases pod status now name slot).imp (And.intro id) .inr
  | liveness other =>
    simp only [Slot.next]
    split
    · exact (hkill .liveness).imp (And.intro id) .inr
    · exact .inl ⟨id, Calm.refl slot⟩
  | postStart other stopped =>
    simp only [Slot.next]
    split
    · unfold Slot.failPostStart
      split
      · exact (hkill .postStart).imp (And.intro id) .inr
      cases stopped with
      | none => exact .inl ⟨id, Calm.refl slot⟩
      | some term => exact .inl ⟨id, calm_exit term⟩
    · exact .inl ⟨id, Calm.refl slot⟩
  | cancel => exact .inl ⟨id, calm_abort⟩
  | failCall other gen cause =>
    simp only [Slot.next]
    split
    · rename_i hsame
      subst hsame
      obtain ⟨hnot, hcalm⟩ | ⟨hretried, hafter⟩ := failCall_cases now gen cause slot
      · exact .inl ⟨fun hretries => hnot hretries.2, hcalm⟩
      · exact .inr (.inl ⟨⟨rfl, hretried⟩, hafter⟩)
    · rename_i hother
      exact .inl ⟨fun hretries => hother hretries.1, Calm.refl slot⟩
  | fire other gen noticed => exact .inl ⟨id, hcalm (calm_fire gen noticed)⟩
  | kill other gen term => exact .inl ⟨id, hcalm (calm_kill gen term)⟩
  | spawn other gen => exact .inl ⟨id, hcalm (calm_spawn gen)⟩
  | succeed other gen => exact .inl ⟨id, hcalm (calm_succeed gen)⟩
  | start other => exact .inl ⟨id, hcalm calm_start⟩
  | exit other term => exact .inl ⟨id, hcalm (calm_exit term)⟩
  | pull image reached => exact .inl ⟨id, hcalm calm_pullStart⟩

/-- A step decides a restart of the container: a claim is given out. -/
def Decides (pod : Pod) (state : State) (name : Str) (step : Step) : Prop :=
  ((next pod state step).slots name).restart.attemptGen ≠ (state.slots name).restart.attemptGen

instance (pod : Pod) (state : State) (name : Str) (step : Step) :
    Decidable (Decides pod state name step) :=
  inferInstanceAs (Decidable (_ ≠ _))

/-- A step advances the schedule of the container: by a decision or after a failed call. -/
def Advances (pod : Pod) (state : State) (name : Str) (step : Step) : Prop :=
  Decides pod state name step ∨ Retries name (state.slots name) step

instance (pod : Pod) (state : State) (name : Str) (step : Step) :
    Decidable (Advances pod state name step) :=
  inferInstanceAs (Decidable (_ ∨ _))

/-- When the schedule was last advanced in a run of steps, `since` where none of them does. -/
def lastAdvance (pod : Pod) (name : Str) (since : ℕ) (state : State) : List Step → ℕ
  | [] => since
  | step :: steps =>
    lastAdvance pod name (if Advances pod state name step then state.now else since)
      (next pod state step) steps

variable {pod : Pod} {state : State} {name : Str} {step : Step}

theorem next_cases (pod : Pod) (state : State) (name : Str) (step : Step) :
    (¬ Retries name (state.slots name) step ∧
        Calm (closes pod name step) (state.slots name) ((next pod state step).slots name)) ∨
      (Retries name (state.slots name) step ∧
        Retried state.now (state.slots name) ((next pod state step).slots name)) ∨
      Decided state.now (state.slots name) ((next pod state step).slots name) := by
  rw [next_slots]
  exact slot_next_cases pod state.now name step (state.slots name)

theorem Decides.decided (hdecides : Decides pod state name step) :
    Decided state.now (state.slots name) ((next pod state step).slots name) := by
  obtain ⟨-, hcalm⟩ | ⟨-, hretried⟩ | hdecided := next_cases pod state name step
  · exact absurd hcalm.gen hdecides
  · exact absurd hretried.gen hdecides
  · exact hdecided

def Geared (backoff : Backoff) : Prop := backoff.cur = 0 ∨ crashLoopBaseDelay ≤ backoff.cur

theorem Geared.next {backoff : Backoff} (hgeared : Geared backoff) (now : ℕ) :
    crashLoopBaseDelay ≤ (backoff.next now).cur := by
  unfold Backoff.next
  split
  · exact le_refl _
  rename_i hmoved
  split
  · exact le_refl _
  · have hcur := hgeared.resolve_left hmoved
    exact le_min (by omega) (by decide)

def InStep (slot : Slot) : Prop := Paced slot ∧ Geared slot.restart.backoff

theorem InStep.next (hinStep : InStep (state.slots name)) (pod : Pod) (step : Step) :
    InStep ((next pod state step).slots name) := by
  obtain ⟨-, hcalm⟩ | ⟨-, hretried⟩ | hdecided := next_cases pod state name step
  · refine ⟨hcalm.paced hinStep.1, ?_⟩
    rw [hcalm.backoff]
    exact hinStep.2
  · refine ⟨hretried.paced, .inr ?_⟩
    rw [hretried.backoff]
    exact hinStep.2.next state.now
  · refine ⟨hdecided.paced, .inr ?_⟩
    rw [hdecided.backoff]
    exact hinStep.2.next state.now

theorem inStep_foldl (hinStep : InStep (state.slots name)) (steps : List Step) :
    InStep ((steps.foldl (next pod) state).slots name) := by
  induction steps generalizing state with
  | nil => exact hinStep
  | cons step steps ih => exact ih (hinStep.next pod step)

theorem inStep_tracked (counts : Str → ℕ) (processes : Str → ProcessState) (name : Str) :
    InStep ((State.tracked counts processes).slots name) :=
  ⟨nofun, .inl rfl⟩

theorem window_foldl (hopen : (state.slots name).restart.restarting = true) {during : List Step}
    (hduring : ∀ other ∈ during, closes pod name other = false) :
    ((during.foldl (next pod) state).slots name).restart.restarting = true := by
  induction during generalizing state with
  | nil => exact hopen
  | cons step during ih =>
    refine ih ?_ fun other hother => hduring other (List.mem_cons_of_mem _ hother)
    obtain ⟨-, hcalm⟩ | ⟨-, hretried⟩ | hdecided := next_cases pod state name step
    · exact hcalm.window (hduring step List.mem_cons_self) hopen
    · rw [hretried.window]
      exact hopen
    · exact hdecided.window

/-- The schedule of the container is one that was advanced at `since`. -/
def AdvancedAt (since : ℕ) (slot : Slot) : Prop :=
  ∃ earlier, Geared earlier ∧ slot.restart.backoff = earlier.next since

theorem AdvancedAt.next {since : ℕ} (hadvanced : AdvancedAt since (state.slots name)) (pod : Pod)
    (step : Step) :
    AdvancedAt (if Advances pod state name step then state.now else since)
      ((next pod state step).slots name) := by
  have hgeared : Geared (state.slots name).restart.backoff := by
    obtain ⟨earlier, hearlier, hbackoff⟩ := hadvanced
    rw [hbackoff]
    exact .inr (hearlier.next since)
  obtain ⟨hquiet, hcalm⟩ | ⟨hretries, hretried⟩ | hdecided := next_cases pod state name step
  · have hnot : ¬ Advances pod state name step := by
      rintro (hdecides | hretries)
      · exact hdecides hcalm.gen
      · exact hquiet hretries
    obtain ⟨earlier, hearlier, hbackoff⟩ := hadvanced
    rw [if_neg hnot]
    exact ⟨earlier, hearlier, hcalm.backoff.trans hbackoff⟩
  · rw [if_pos (.inr hretries)]
    exact ⟨_, hgeared, hretried.backoff⟩
  · have hdecides : Decides pod state name step := by
      rw [Decides, hdecided.gen]
      omega
    rw [if_pos (.inl hdecides)]
    exact ⟨_, hgeared, hdecided.backoff⟩

theorem advancedAt_foldl {since : ℕ} (hadvanced : AdvancedAt since (state.slots name))
    (steps : List Step) :
    AdvancedAt (lastAdvance pod name since state steps)
      ((steps.foldl (next pod) state).slots name) := by
  induction steps generalizing state since with
  | nil => exact hadvanced
  | cons step steps ih => exact ih (hadvanced.next pod step)

/-- A schedule that was advanced at an instant starts over once the stable window has passed
since. -/
theorem next_next_base {backoff : Backoff} (hgeared : Geared backoff) (since now : ℕ) :
    ((backoff.next since).next now).cur = crashLoopBaseDelay ↔
      crashLoopStableWindow ≤ now - since := by
  have hcur := hgeared.next since
  have hlast : (backoff.next since).last = since := by
    unfold Backoff.next
    split
    · rfl
    · split <;> rfl
  have hbase : 0 < crashLoopBaseDelay := by decide
  have hmax : crashLoopBaseDelay < crashLoopMaxDelay := by decide
  rw [Backoff.next, hlast, if_neg (by omega)]
  split
  · rename_i hstable
    exact iff_of_true rfl hstable
  · rename_i hunstable
    refine iff_of_false ?_ hunstable
    show min ((backoff.next since).cur * 2) crashLoopMaxDelay ≠ crashLoopBaseDelay
    omega

/-! ## What is published -/

/-- How a published status shows a container inside its window: neither ready nor started,
and in CrashLoopBackOff while its worker backs off. -/
def OutOfService (ref : PodRef) (slot : Slot) (published : Published) : Prop :=
  published.ready = false ∧ published.started = false ∧
    (BackingOff slot → published.state =
      .waiting .crashLoopBackOff
        (.backOff slot.restart.delay published.name ref slot.restart.refusal))

theorem outOfService_crashLoopStatus {ref : PodRef} {slot : Slot} (hpaced : Paced slot)
    (hopen : slot.restart.restarting = true) (status : Published) :
    OutOfService ref slot (crashLoopStatus ref slot.restart status) := by
  unfold crashLoopStatus
  rw [if_pos hopen]
  refine ⟨rfl, rfl, ?_⟩
  rintro ⟨gen, worker, hworker, hholds, -, hdelay⟩
  rw [hpaced gen worker hworker hholds] at hdelay
  exact if_pos hdelay

theorem OutOfService.pullBackOffStatus {ref : PodRef} {slot : Slot} {status : Published}
    (hout : OutOfService ref slot status) (pulls : Str → Option ImagePullRetry)
    (park : Option (ImagePullRetry × Str)) :
    OutOfService ref slot (pullBackOffStatus pod pulls park status) := by
  obtain ⟨hready, hstarted, hwaiting⟩ := hout
  unfold Provider.pullBackOffStatus
  split
  · rename_i message hstate
    have hidle : ¬ BackingOff slot := by
      intro hbacking
      rw [hwaiting hbacking] at hstate
      cases hstate
    dsimp only
    split
    · split
      · exact ⟨hready, hstarted, fun hbacking => absurd hbacking hidle⟩
      · exact ⟨hready, hstarted, hwaiting⟩
    · exact ⟨hready, hstarted, hwaiting⟩
  · exact ⟨hready, hstarted, hwaiting⟩

theorem OutOfService.postStartStatus {ref : PodRef} {slot : Slot} {status : Published}
    (hout : OutOfService ref slot status) (gated : List Str) :
    OutOfService ref slot (postStartStatus gated status) := by
  unfold Provider.postStartStatus
  split
  · exact ⟨rfl, rfl, hout.2.2⟩
  · exact hout

theorem pullBackOffStatus_name (pulls : Str → Option ImagePullRetry)
    (park : Option (ImagePullRetry × Str)) (status : Published) :
    (pullBackOffStatus pod pulls park status).name = status.name := by
  unfold pullBackOffStatus
  split
  · dsimp only
    split
    · split <;> rfl
    · rfl
  · rfl

theorem postStartStatus_name (gated : List Str) (status : Published) :
    (postStartStatus gated status).name = status.name := by
  unfold postStartStatus
  split <;> rfl

theorem crashLoopStatus_name (ref : PodRef) (restart : ContainerRestart) (status : Published) :
    (crashLoopStatus ref restart status).name = status.name := by
  unfold crashLoopStatus
  split <;> rfl

theorem publish_outOfService (hpaced : Paced (state.slots name))
    (hopen : (state.slots name).restart.restarting = true) (rendering : Rendering) :
    ∀ published ∈ (publish pod rendering state).containers ++
        (publish pod rendering state).initContainers,
      published.name = name → OutOfService rendering.ref (state.slots name) published := by
  have hoverlay : ∀ status : Published, status.name = name →
      OutOfService rendering.ref (state.slots name)
        (pullBackOffStatus pod rendering.pulls rendering.park
          (crashLoopStatus rendering.ref (state.slots status.name).restart status)) := by
    intro status hname
    rw [hname]
    exact (outOfService_crashLoopStatus hpaced hopen status).pullBackOffStatus _ _
  intro published hpublished hname
  rcases List.mem_append.1 hpublished with hmain | hinit
  · simp only [publish, overlayCrashLoop, List.map_map, List.mem_map, comp_apply] at hmain
    obtain ⟨status, -, rfl⟩ := hmain
    rw [postStartStatus_name, pullBackOffStatus_name, crashLoopStatus_name] at hname
    exact (hoverlay status hname).postStartStatus _
  · simp only [publish, overlayCrashLoop, List.map_map, List.mem_map, comp_apply] at hinit
    obtain ⟨status, -, rfl⟩ := hinit
    rw [pullBackOffStatus_name, crashLoopStatus_name] at hname
    exact hoverlay status hname

/-- From the decision of a restart, until a status shows the container running or the pod over
or something is cancelled, every published status shows the container out of service; and a later
decision starts the schedule over exactly when the stable window has passed since the schedule
was last advanced, by the decision or by what came after it. -/
theorem restart_window_until_running (pod : Pod) (counts : Str → ℕ)
    (processes : Str → ProcessState) (before during : List Step) (step : Step) (name : Str)
    (hdecides : Decides pod (before.foldl (next pod) (State.tracked counts processes)) name step) :
    let decided := before.foldl (next pod) (State.tracked counts processes)
    let state := during.foldl (next pod) (next pod decided step)
    ((∀ other ∈ during, closes pod name other = false) →
      ∀ rendering, ∀ published ∈ (publish pod rendering state).containers ++
          (publish pod rendering state).initContainers,
        published.name = name → OutOfService rendering.ref (state.slots name) published) ∧
    ∀ later, Decides pod state name later →
      (((next pod state later).slots name).restart.backoff.cur = crashLoopBaseDelay ↔
        crashLoopStableWindow ≤
          state.now - lastAdvance pod name decided.now (next pod decided step) during) := by
  intro decided state
  have hbefore : InStep (decided.slots name) :=
    inStep_foldl (inStep_tracked counts processes name) before
  have hafter : InStep (state.slots name) := inStep_foldl (hbefore.next pod step) during
  constructor
  · intro hduring rendering
    exact publish_outOfService hafter.1 (window_foldl hdecides.decided.window hduring) rendering
  · intro later hlater
    have hadvanced : AdvancedAt decided.now ((next pod decided step).slots name) :=
      ⟨_, hbefore.2, hdecides.decided.backoff⟩
    obtain ⟨earlier, hearlier, hbackoff⟩ := @advancedAt_foldl pod _ _ _ hadvanced during
    rw [hlater.decided.backoff, hbackoff]
    exact next_next_base hearlier _ state.now

/-- A pod with one container, restarted whenever it ends. -/
def loopPod : Pod := ⟨.always, [], [⟨['m'], ['i'], none⟩]⟩

def loopTrack : State := State.tracked (fun _ => 0) (fun _ => .absent)

def failedRun (count : ℕ) (instant : ℤ) : PodStatus :=
  ⟨.failed, [⟨['m'], count, .terminated ⟨1, 0, instant⟩⟩], []⟩

def liveRun (count : ℕ) : PodStatus := ⟨.running, [⟨['m'], count, .running⟩], []⟩

/-- The runtime's status of a container that is up, as it is translated. -/
def liveRendering : Rendering where
  ref := ⟨['p'], ['n'], ['u']⟩
  phase := .running
  containers := [⟨['m'], ['i'], true, true, .running, none⟩]
  initContainers := []
  pulls := fun _ => none
  park := none
  gated := []

def firstExit : List Step := [.start ['m'], .exit ['m'] ⟨1, 0, 5⟩]

/-- Its replacement comes up after the back-off of ten seconds. -/
def firstRestart : List Step :=
  firstExit ++ [.observe (failedRun 0 5), .pass (10 * second), .fire ['m'] 1 false, .spawn ['m'] 1,
    .succeed ['m'] 1]

/-- The call that is to replace the container fails, and the next one brings it up. -/
def failedAttempt : List Step :=
  [.pass (10 * second), .fire ['m'] 1 false, .failCall ['m'] 1 [], .pass (20 * second),
    .fire ['m'] 1 false, .spawn ['m'] 1, .succeed ['m'] 1, .pass (575 * second),
    .exit ['m'] ⟨1, 0, 605⟩]

/-- A container that has failed is out of service, with the status delivered once more; and the
schedule goes on ten minutes after the decision, as a failed attempt followed it. -/
theorem failed_container_out_of_service :
    let decided := firstExit.foldl (next loopPod) loopTrack
    let state := [Step.pass second, .observe (failedRun 0 5)].foldl (next loopPod)
      (next loopPod decided (.observe (failedRun 0 5)))
    BackingOff (state.slots ['m']) ∧
      (∀ published ∈ (publish loopPod liveRendering state).containers ++
          (publish loopPod liveRendering state).initContainers,
        published.name = ['m'] → OutOfService liveRendering.ref (state.slots ['m']) published) ∧
      ((next loopPod (failedAttempt.foldl (next loopPod)
          (next loopPod decided (.observe (failedRun 0 5))))
        (.observe (failedRun 1 605))).slots ['m']).restart.backoff.cur ≠ crashLoopBaseDelay := by
  have hdecides : Decides loopPod (firstExit.foldl (next loopPod) loopTrack) ['m']
      (.observe (failedRun 0 5)) := by decide
  have hall := fun during => restart_window_until_running loopPod (fun _ => 0) (fun _ => .absent)
    firstExit during (.observe (failedRun 0 5)) ['m'] hdecides
  refine ⟨⟨1, _, rfl, rfl, rfl, by decide⟩, ?_, ?_⟩
  · exact (hall [.pass second, .observe (failedRun 0 5)]).1 (by decide) liveRendering
  · intro hbase
    have hlater := (hall failedAttempt).2 (.observe (failedRun 1 605)) (by decide)
    exact absurd (hlater.1 hbase) (by decide)

/-- The run that is about to be replaced is published as ready, and the schedule starts over
for a replacement that was up for less than the stable window. -/
theorem window_closed_by_old_run :
    (let decided := (firstRestart ++ [Step.observe (liveRun 1)]).foldl (next loopPod) loopTrack
      let state := next loopPod (next loopPod decided (.liveness ['m'])) (.observe (liveRun 1))
      Decides loopPod decided ['m'] (.liveness ['m']) ∧ (decided.slots ['m']).count = 1 ∧
        (state.slots ['m']).count = 1 ∧ BackingOff (state.slots ['m']) ∧
        (publish loopPod liveRendering state).containers = liveRendering.containers) ∧
    (let started := firstRestart.foldl (next loopPod) loopTrack
      let state := [Step.pass (590 * second), .exit ['m'] ⟨1, 0, 600⟩].foldl (next loopPod) started
      Decides loopPod state ['m'] (.observe (failedRun 1 600)) ∧
        state.now - started.now < crashLoopStableWindow ∧
        ((next loopPod state (.observe (failedRun 1 600))).slots ['m']).restart.backoff.cur =
          crashLoopBaseDelay) := by
  refine ⟨⟨by decide, by decide, by decide, ⟨2, _, rfl, rfl, rfl, by decide⟩, by decide⟩, ?_⟩
  decide

end K3sm.Provider
