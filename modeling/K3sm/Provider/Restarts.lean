import K3sm.Core.Filepath
import K3sm.Core.Int64
import K3sm.Core.Run

/-!
# The restart engine of a pod

Three triggers reach the engine: an exit that a status shows, a liveness failure, and a failed
postStart hook.  Each starts at most one worker for a container, which waits out the back-off and
calls the runtime until a call succeeds.  A step of the engine changes each container by itself:
`Slot.next` is what it does to one, so that a fact about one container over a whole run is an
induction over its own slot.
-/

namespace K3sm.Provider

open K3sm.Core K3sm.Core.Filepath Function

/-- `corev1.RestartPolicy` as a spec has it. -/
inductive RestartPolicy where
  | unset
  | always
  | onFailure
  | never
  | other (value : Str)
  deriving DecidableEq

structure Container where
  name : Str
  image : Str
  restartPolicy : Option RestartPolicy
  deriving DecidableEq

/-- What the restart engine reads of a pod. -/
structure Pod where
  restartPolicy : RestartPolicy
  initContainers : List Container
  containers : List Container
  deriving DecidableEq

def effectivePodRestartPolicy (pod : Pod) : RestartPolicy :=
  match pod.restartPolicy with
  | .unset => .always
  | policy => policy

def isNativeSidecar (pod : Pod) (name : Str) : Bool :=
  match pod.initContainers.find? (·.name == name) with
  | some container => container.restartPolicy == some .always
  | none => false

/-- How a container ended.  `finishedAt` is in nanoseconds. -/
structure Terminated where
  exitCode : ℤ
  signal : ℤ
  finishedAt : ℤ
  deriving DecidableEq

def shouldRestartOnExit (podPolicy : RestartPolicy) (containerPolicy : Option RestartPolicy) :
    Option Terminated → Bool
  | none => false
  | some terminated =>
    if containerPolicy = some .always then true
    else match podPolicy with
      | .always => true
      | .onFailure => terminated.exitCode ≠ 0 || terminated.signal ≠ 0
      | _ => false

def crashLoopBaseDelay : ℕ := 10 * second
def crashLoopMaxDelay : ℕ := 300 * second
def crashLoopStableWindow : ℕ := 2 * crashLoopMaxDelay

/-- `crashLoopBackoff`: the last delay, zero before the first, and when it was given. -/
structure Backoff where
  cur : ℕ
  last : ℕ
  deriving DecidableEq

def Backoff.fresh : Backoff := ⟨0, 0⟩

def Backoff.next (now : ℕ) (backoff : Backoff) : Backoff :=
  if backoff.cur = 0 then ⟨crashLoopBaseDelay, now⟩
  else if crashLoopStableWindow ≤ now - backoff.last then ⟨crashLoopBaseDelay, now⟩
  else ⟨min (backoff.cur * 2) crashLoopMaxDelay, now⟩

def Backoff.hot (now : ℕ) (backoff : Backoff) : Bool :=
  backoff.cur ≠ 0 && now - backoff.last < crashLoopStableWindow

inductive RunState where
  | unknown
  | waiting
  | running
  | terminated (terminated : Terminated)
  deriving DecidableEq

structure ContainerStatus where
  name : Str
  restartCount : ℕ
  state : RunState
  deriving DecidableEq

inductive Phase where
  | unknown
  | pending
  | running
  | succeeded
  | failed
  deriving DecidableEq

structure PodStatus where
  phase : Phase
  containerStatuses : List ContainerStatus
  initContainerStatuses : List ContainerStatus
  deriving DecidableEq

def terminatedExitCode (code signal : ℤ) : ℤ :=
  if code = 0 ∧ 0 < signal then 128 + signal else code

def toContainerState : RunState → RunState
  | .terminated terminated =>
    .terminated { terminated with
      exitCode := terminatedExitCode terminated.exitCode terminated.signal }
  | state => state

structure TerminationKey where
  restartCount : ℕ
  exitCode : ℤ
  finishedAt : ℤ
  deriving DecidableEq

structure Exit where
  name : Str
  key : TerminationKey
  term : Terminated
  deriving DecidableEq

def terminationKey (restartCount : ℕ) (term : Terminated) : TerminationKey :=
  ⟨restartCount, term.exitCode, term.finishedAt⟩

/-- What `collect` files of a container as due. -/
def collect (podPolicy : RestartPolicy) (containerPolicy : Option RestartPolicy)
    (status : ContainerStatus) : Option Exit :=
  match toContainerState status.state with
  | .terminated term =>
    if shouldRestartOnExit podPolicy containerPolicy (some term) then
      some ⟨status.name, terminationKey status.restartCount term, term⟩
    else none
  | _ => none

def dueMains (pod : Pod) (status : PodStatus) : List Exit :=
  status.containerStatuses.filterMap (collect (effectivePodRestartPolicy pod) none)

def dueSidecars (pod : Pod) (status : PodStatus) : List Exit :=
  (status.initContainerStatuses.filter fun container =>
    isNativeSidecar pod container.name).filterMap
    (collect (effectivePodRestartPolicy pod) (some .always))

def due (pod : Pod) (status : PodStatus) : List Exit :=
  dueMains pod status ++ dueSidecars pod status

def observedRunning (pod : Pod) (status : PodStatus) : List Str :=
  ((status.containerStatuses ++ status.initContainerStatuses.filter fun container =>
      isNativeSidecar pod container.name).filter fun container =>
    decide (toContainerState container.state = .running)).map ContainerStatus.name

def terminal (pod : Pod) (status : PodStatus) : Bool :=
  (status.phase == .succeeded || status.phase == .failed) && (dueMains pod status).isEmpty

/-- `containerRestart`.  `cancel` names the claim whose worker it stops. -/
structure ContainerRestart where
  backoff : Backoff
  seen : Option TerminationKey
  restarting : Bool
  attempt : Bool
  attemptGen : ℕ
  delay : ℕ
  refusal : Str
  lastTerm : Option Terminated
  cancel : Option ℕ
  deriving DecidableEq

def ContainerRestart.fresh : ContainerRestart :=
  ⟨Backoff.fresh, none, false, false, 0, 0, [], none, none⟩

/-- `beginAttempt` on a free slot, with the claim it gives. -/
def ContainerRestart.beginAttempt (restart : ContainerRestart) : ContainerRestart :=
  { restart with
    attempt := true
    restarting := true
    attemptGen := restart.attemptGen + 1
    cancel := some (restart.attemptGen + 1) }

def ContainerRestart.holdsAttempt (restart : ContainerRestart) (gen : ℕ) : Bool :=
  restart.attempt && restart.attemptGen == gen

def ContainerRestart.endAttempt (gen : ℕ) (restart : ContainerRestart) : ContainerRestart :=
  if restart.holdsAttempt gen then { restart with attempt := false, cancel := none } else restart

def ContainerRestart.clearRefusal (gen : ℕ) (restart : ContainerRestart) : ContainerRestart :=
  if restart.holdsAttempt gen then { restart with refusal := [] } else restart

def ContainerRestart.observeRunning (restart : ContainerRestart) : ContainerRestart :=
  { restart with restarting := false, lastTerm := none, refusal := [] }

def ContainerRestart.abort (restart : ContainerRestart) : ContainerRestart :=
  { restart with cancel := none, attempt := false, restarting := false }

/-! ## Workers and processes -/

inductive Trigger where
  | exit (key : TerminationKey) (term : Terminated)
  | liveness
  | postStart
  deriving DecidableEq

/-- What the restart policy judges: an exit, or the provider's decision to kill. -/
inductive Ending where
  | exited (term : Terminated)
  | killed
  deriving DecidableEq

def Trigger.ending : Trigger → Ending
  | .exit _ term => .exited term
  | .liveness | .postStart => .killed

/-- Where a worker is: before a call, in one the runtime has not answered, or in one for
which it has started the container.  `start` tells a StartContainer. -/
inductive Stage where
  | waiting
  | calling (start : Bool)
  | served (start : Bool)
  deriving DecidableEq

/-- `runRestart`, with the runs of the container that its end answers (the one whose exit
started it and those its calls ended or replaced) and those its calls killed. -/
structure Worker where
  trigger : Trigger
  cancelled : Bool
  delay : ℕ
  stage : Stage
  deaths : List ℕ
  kills : List ℕ
  deriving DecidableEq

/-- The process of a container: not started yet, running, over, or found over by a daemon
that attached to the pod. -/
inductive ProcessState where
  | absent
  | running
  | dead (term : Terminated)
  | lost (term : Terminated)
  deriving DecidableEq

/-- A container: the provider's bookkeeping, the runtime's process and its restart count.
`requests` are the re-executions asked for, `reexecs` the runs answered by a success,
`advances` and `retries` those the back-off was advanced for, at first or after a failure. -/
structure Slot where
  restart : ContainerRestart
  diedWhileDown : Bool
  count : ℕ
  process : ProcessState
  workers : ℕ → Option Worker
  requests : List Ending
  reexecs : List ℕ
  advances : List ℕ
  retries : List ℕ

def Slot.finish (gen : ℕ) (slot : Slot) : Slot :=
  { slot with
    restart := slot.restart.endAttempt gen
    workers := update slot.workers gen none }

def Slot.startWorker (trigger : Trigger) (delay : ℕ) (deaths : List ℕ) (slot : Slot) : Slot :=
  { slot with
    restart := slot.restart.beginAttempt
    workers := update slot.workers (slot.restart.attemptGen + 1)
      (some ⟨trigger, false, delay, .waiting, deaths, []⟩) }

def Slot.schedule (now : ℕ) (key : TerminationKey) (term : Terminated) (slot : Slot) : Slot :=
  if slot.restart.attempt = true ∨ slot.restart.seen = some key then slot
  else
    let backoff := slot.restart.backoff.next now
    { slot with
      restart := { slot.restart with
        seen := some key, lastTerm := some term, backoff := backoff, delay := backoff.cur }
      advances := slot.advances ++ [key.restartCount] }.startWorker
        (.exit key term) backoff.cur [key.restartCount]

def Slot.killAndRestart (now : ℕ) (trigger : Trigger) (slot : Slot) : Slot :=
  if slot.restart.attempt then slot
  else
    let backoff := slot.restart.backoff.next now
    let delay := if slot.restart.backoff.hot now then backoff.cur else 0
    { slot with
      restart := { slot.restart with backoff := backoff, delay := delay } }.startWorker
        trigger delay []

def Slot.abort (slot : Slot) : Slot :=
  { slot with
    restart := slot.restart.abort
    workers := match slot.restart.cancel with
      | none => slot.workers
      | some gen => update slot.workers gen
          ((slot.workers gen).map fun worker => { worker with cancelled := true }) }

/-- The end of a worker's wait.  When it has been cancelled it returns, unless the timer and
the cancellation came together and the timer was taken. -/
def Slot.fire (gen : ℕ) (noticed : Bool) (slot : Slot) : Slot :=
  match slot.workers gen with
  | some worker =>
    if worker.stage ≠ .waiting then slot
    else if worker.cancelled = true ∧ (worker.delay = 0 ∨ noticed = true) then slot.finish gen
    else { slot with
      workers := update slot.workers gen
        (some { worker with stage := .calling slot.diedWhileDown })
      requests := slot.requests ++ [worker.trigger.ending] }
  | none => slot

/-- The runtime kills the running process for a worker's RestartContainer. -/
def Slot.kill (gen : ℕ) (term : Terminated) (slot : Slot) : Slot :=
  match slot.workers gen with
  | some worker =>
    if worker.stage = .calling false ∧ slot.process = .running then
      { slot with
        process := .dead term
        workers := update slot.workers gen (some { worker with
          deaths := worker.deaths.insert slot.count
          kills := slot.count :: worker.kills }) }
    else slot
  | none => slot

/-- Whether the runtime starts the container for a call: RestartContainer where a process is
over, StartContainer where an attach found it so. -/
def ProcessState.startable : ProcessState → Bool → Bool
  | .dead _, false => true
  | .lost _, true => true
  | _, _ => false

def Slot.spawn (gen : ℕ) (slot : Slot) : Slot :=
  match slot.workers gen with
  | some worker =>
    match worker.stage with
    | .calling start =>
      if slot.process.startable start then
        { slot with
          process := .running
          count := slot.count + 1
          workers := update slot.workers gen (some { worker with
            stage := .served start
            deaths := worker.deaths.insert slot.count }) }
      else slot
    | _ => slot
  | none => slot

def Trigger.runs : Trigger → List ℕ
  | .exit key _ => [key.restartCount]
  | _ => []

/-- The runs whose back-off advance a success settles: for a kill, those it killed. -/
def Worker.settles (worker : Worker) : List ℕ :=
  match worker.trigger with
  | .exit _ _ => []
  | _ => worker.kills

def Slot.succeed (gen : ℕ) (slot : Slot) : Slot :=
  match slot.workers gen with
  | some worker =>
    match worker.stage with
    | .served start =>
      { slot with
        diedWhileDown := slot.diedWhileDown && !start
        restart := slot.restart.clearRefusal gen
        reexecs := slot.reexecs ++ worker.deaths
        advances := slot.advances ++ worker.settles }.finish gen
    | _ => slot
  | none => slot

/-- A call fails, whether or not the runtime acted on it: `advanceBackoff`, and on. -/
def Slot.failCall (now : ℕ) (gen : ℕ) (cause : Str) (slot : Slot) : Slot :=
  match slot.workers gen with
  | some worker =>
    if worker.stage = .waiting then slot
    else if worker.cancelled then slot.finish gen
    else if slot.restart.holdsAttempt gen then
      let backoff := slot.restart.backoff.next now
      { slot with
        restart := { slot.restart with
          refusal := cause, backoff := backoff, delay := backoff.cur }
        workers := update slot.workers gen
          (some { worker with stage := .waiting, delay := backoff.cur })
        retries := slot.retries ++ worker.trigger.runs }
    else slot.finish gen
  | none => slot

def Slot.exit (term : Terminated) (slot : Slot) : Slot :=
  if slot.process = .running then { slot with process := .dead term } else slot

/-- StartContainer of an image pull retry.  The runtime starts a container that has no
process under this daemon: a first start, or one that died while the daemon was down. -/
def Slot.pullStart (slot : Slot) : Slot :=
  match slot.process with
  | .absent => { slot with process := .running }
  | .lost term =>
    { slot with
      process := .running
      count := slot.count + 1
      requests := slot.requests ++ [.exited term] }
  | _ => slot

def Slot.start (slot : Slot) : Slot :=
  if slot.process = .absent then { slot with process := .running } else slot

/-- A track: the clock, and a slot for each container. -/
structure State where
  now : ℕ
  slots : Str → Slot

/-- A track that has seen nothing yet, of a pod that was created or attached to. -/
def State.tracked (counts : Str → ℕ) (processes : Str → ProcessState) : State :=
  ⟨0, fun name => ⟨ContainerRestart.fresh, match processes name with | .lost _ => true | _ => false,
    counts name, processes name, fun _ => none, [], [], [], []⟩⟩

def State.at (name : Str) (change : Slot → Slot) (state : State) : State :=
  { state with slots := update state.slots name (change (state.slots name)) }

def Slot.observeRunning (slot : Slot) : Slot :=
  { slot with restart := slot.restart.observeRunning }

def State.cancelRestarts (state : State) : State :=
  { state with slots := fun name => (state.slots name).abort }

def State.observeExits (pod : Pod) (status : PodStatus) (state : State) : State :=
  let state := (observedRunning pod status).foldl
    (fun state name => state.at name Slot.observeRunning) state
  if terminal pod status then state.cancelRestarts
  else (due pod status).foldl
    (fun state exit => state.at exit.name (Slot.schedule state.now exit.key exit.term)) state

/-- The policy a failed postStart hook of the container is judged by. -/
def restartsFailed (pod : Pod) (name : Str) : Bool :=
  shouldRestartOnExit (effectivePodRestartPolicy pod)
    (if isNativeSidecar pod name then some .always else none) (some ⟨1, 0, 0⟩)

def State.failPostStart (pod : Pod) (name : Str) (stopped : Option Terminated) (state : State) :
    State :=
  if restartsFailed pod name then state.at name (Slot.killAndRestart state.now .postStart)
  else match stopped with
    | some term => state.at name (Slot.exit term)
    | none => state

def containersWithImage (pod : Pod) (image : Str) : List Str :=
  ((pod.initContainers ++ pod.containers).filter (·.image == image)).map Container.name

/-- Time passes, or the track is told something, or a worker goes on. -/
inductive Step where
  | pass (time : ℕ)
  | observe (status : PodStatus)
  | liveness (name : Str)
  | postStart (name : Str) (stopped : Option Terminated)
  | cancel
  | fire (name : Str) (gen : ℕ) (noticed : Bool)
  | kill (name : Str) (gen : ℕ) (term : Terminated)
  | spawn (name : Str) (gen : ℕ)
  | succeed (name : Str) (gen : ℕ)
  | failCall (name : Str) (gen : ℕ) (cause : Str)
  | start (name : Str)
  | exit (name : Str) (term : Terminated)
  | pull (image : Str) (reached : List Str)

/-- One step.  A pull retry asks for each container of the image in turn, as far as its calls
are answered. -/
def next (pod : Pod) (state : State) : Step → State
  | .pass time => { state with now := state.now + time }
  | .observe status => state.observeExits pod status
  | .liveness name => state.at name (Slot.killAndRestart state.now .liveness)
  | .postStart name stopped => state.failPostStart pod name stopped
  | .cancel => state.cancelRestarts
  | .fire name gen noticed => state.at name (Slot.fire gen noticed)
  | .kill name gen term => state.at name (Slot.kill gen term)
  | .spawn name gen => state.at name (Slot.spawn gen)
  | .succeed name gen => state.at name (Slot.succeed gen)
  | .failCall name gen cause => state.at name (Slot.failCall state.now gen cause)
  | .start name => state.at name Slot.start
  | .exit name term => state.at name (Slot.exit term)
  | .pull image reached =>
    (reached.filter (· ∈ containersWithImage pod image)).foldl
      (fun state name => state.at name Slot.pullStart) state

/-- What an observation does to one container: it is marked running first, then all restarts
are cancelled or each of its exits is scheduled. -/
def Slot.observe (pod : Pod) (status : PodStatus) (now : ℕ) (name : Str) (slot : Slot) : Slot :=
  let slot := if name ∈ observedRunning pod status then slot.observeRunning else slot
  if terminal pod status then slot.abort
  else ((due pod status).filter fun exit => decide (exit.name = name)).foldl
    (fun slot exit => slot.schedule now exit.key exit.term) slot

/-- `failPostStart` on the container itself. -/
def Slot.failPostStart (pod : Pod) (now : ℕ) (name : Str) (stopped : Option Terminated)
    (slot : Slot) : Slot :=
  if restartsFailed pod name then slot.killAndRestart now .postStart
  else match stopped with
    | some term => slot.exit term
    | none => slot

def Slot.next (pod : Pod) (now : ℕ) (name : Str) : Step → Slot → Slot
  | .pass _, slot => slot
  | .observe status, slot => slot.observe pod status now name
  | .liveness other, slot => if name = other then slot.killAndRestart now .liveness else slot
  | .postStart other stopped, slot =>
    if name = other then slot.failPostStart pod now name stopped else slot
  | .cancel, slot => slot.abort
  | .fire other gen noticed, slot => if name = other then slot.fire gen noticed else slot
  | .kill other gen term, slot => if name = other then slot.kill gen term else slot
  | .spawn other gen, slot => if name = other then slot.spawn gen else slot
  | .succeed other gen, slot => if name = other then slot.succeed gen else slot
  | .failCall other gen cause, slot => if name = other then slot.failCall now gen cause else slot
  | .start other, slot => if name = other then slot.start else slot
  | .exit other term, slot => if name = other then slot.exit term else slot
  | .pull image reached, slot =>
    if name ∈ reached.filter (· ∈ containersWithImage pod image) then slot.pullStart else slot

def Step.passes : Step → ℕ
  | .pass time => time
  | _ => 0

theorem State.at_slots (name other : Str) (change : Slot → Slot) (state : State) :
    (state.at name change).slots other =
      if other = name then change (state.slots other) else state.slots other := by
  by_cases hsame : other = name
  · subst hsame
    simp [State.at]
  · simp [State.at, hsame]

theorem foldl_at_slots {change : Slot → Slot} (hidem : ∀ slot, change (change slot) = change slot)
    (names : List Str) (state : State) (name : Str) :
    (names.foldl (fun state other => state.at other change) state).slots name =
      if name ∈ names then change (state.slots name) else state.slots name := by
  induction names generalizing state with
  | nil => simp
  | cons other names ih =>
    rw [List.foldl_cons, ih, State.at_slots]
    by_cases hsame : name = other
    · simp [hsame, hidem]
    · simp [hsame]

theorem foldl_at_now {Item : Type} (nameOf : Item → Str) (change : State → Item → Slot → Slot)
    (items : List Item) (state : State) :
    (items.foldl (fun state item => state.at (nameOf item) (change state item)) state).now =
      state.now := by
  induction items generalizing state with
  | nil => rfl
  | cons item items ih =>
    rw [List.foldl_cons, ih]
    rfl

theorem foldl_schedule_slots (exits : List Exit) (state : State) (name : Str) :
    (exits.foldl (fun state exit =>
        state.at exit.name (Slot.schedule state.now exit.key exit.term)) state).slots name =
      (exits.filter fun exit => decide (exit.name = name)).foldl
        (fun slot exit => slot.schedule state.now exit.key exit.term) (state.slots name) := by
  induction exits generalizing state with
  | nil => rfl
  | cons exit exits ih =>
    rw [List.foldl_cons, ih, State.at_slots]
    by_cases hsame : exit.name = name
    · rw [if_pos hsame.symm, List.filter_cons_of_pos (by simpa using hsame), List.foldl_cons]
      rfl
    · rw [if_neg (Ne.symm hsame), List.filter_cons_of_neg (by simpa using hsame)]
      rfl

theorem pullStart_pullStart (slot : Slot) : slot.pullStart.pullStart = slot.pullStart := by
  cases hprocess : slot.process <;> simp [Slot.pullStart, hprocess]

theorem State.observeExits_slots (pod : Pod) (status : PodStatus) (state : State) (name : Str) :
    (state.observeExits pod status).slots name =
      (state.slots name).observe pod status state.now name := by
  have hmarked : ∀ other, ((observedRunning pod status).foldl
      (fun state name => state.at name Slot.observeRunning) state).slots other =
      if other ∈ observedRunning pod status then (state.slots other).observeRunning
      else state.slots other := by
    intro other
    have hidem : ∀ slot : Slot, slot.observeRunning.observeRunning = slot.observeRunning :=
      fun _ => rfl
    exact foldl_at_slots hidem _ _ _
  have hnow : ((observedRunning pod status).foldl
      (fun state name => state.at name Slot.observeRunning) state).now = state.now :=
    foldl_at_now id (fun _ _ => Slot.observeRunning) _ _
  unfold State.observeExits Slot.observe
  dsimp only
  split
  · simp only [State.cancelRestarts, hmarked]
  · rw [foldl_schedule_slots, hmarked, hnow]

theorem next_slots (pod : Pod) (state : State) (step : Step) (name : Str) :
    (next pod state step).slots name = (state.slots name).next pod state.now name step := by
  cases step with
  | pass time => rfl
  | observe status => exact state.observeExits_slots pod status name
  | postStart other stopped =>
    show (state.failPostStart pod other stopped).slots name = _
    simp only [State.failPostStart, Slot.next, Slot.failPostStart]
    by_cases hsame : name = other
    · subst hsame
      split
      · simp [State.at_slots]
      · cases stopped <;> simp [State.at_slots]
    · split
      · simp [State.at_slots, hsame]
      · cases stopped <;> simp [State.at_slots, hsame]
  | cancel => rfl
  | pull image reached => exact foldl_at_slots pullStart_pullStart _ _ _
  | liveness other | fire other gen noticed | kill other gen term | spawn other gen
  | succeed other gen | failCall other gen cause | start other
  | exit other term => exact State.at_slots _ _ _ _

theorem holdsAttempt_iff {restart : ContainerRestart} {gen : ℕ} :
    restart.holdsAttempt gen = true ↔ restart.attempt = true ∧ restart.attemptGen = gen := by
  rw [ContainerRestart.holdsAttempt, Bool.and_eq_true, beq_iff_eq]

theorem restart_finish {slot : Slot} {gen : ℕ} (hstale : slot.restart.holdsAttempt gen = false) :
    (slot.finish gen).restart = slot.restart := by
  simp [Slot.finish, ContainerRestart.endAttempt, hstale]

/-- A decision to restart: the schedule is advanced, the window opens, and the claim goes to a
worker that waits for the delay. -/
structure Decided (now : ℕ) (before after : Slot) : Prop where
  gen : after.restart.attemptGen = before.restart.attemptGen + 1
  backoff : after.restart.backoff = before.restart.backoff.next now
  window : after.restart.restarting = true
  attempt : after.restart.attempt = true
  count : after.count = before.count
  worker : ∃ worker, after.workers after.restart.attemptGen = some worker ∧
    worker.cancelled = false ∧ worker.stage = .waiting ∧ worker.delay = after.restart.delay

theorem schedule_cases (now : ℕ) (key : TerminationKey) (term : Terminated) (slot : Slot) :
    slot.schedule now key term = slot ∨ Decided now slot (slot.schedule now key term) := by
  unfold Slot.schedule
  split
  · exact .inl rfl
  · exact .inr ⟨rfl, rfl, rfl, rfl, rfl, _, Function.update_self _ _ _, rfl, rfl, rfl⟩

theorem schedule_of_attempt {slot : Slot} (hattempt : slot.restart.attempt = true) (now : ℕ)
    (key : TerminationKey) (term : Terminated) : slot.schedule now key term = slot := by
  rw [Slot.schedule, if_pos (.inl hattempt)]

theorem killAndRestart_cases (now : ℕ) (trigger : Trigger) (slot : Slot) :
    (slot.restart.attempt = true ∧ slot.killAndRestart now trigger = slot) ∨
      Decided now slot (slot.killAndRestart now trigger) := by
  unfold Slot.killAndRestart
  split
  · rename_i hattempt
    exact .inl ⟨hattempt, rfl⟩
  · exact .inr ⟨rfl, rfl, rfl, rfl, rfl, _, Function.update_self _ _ _, rfl, rfl, rfl⟩

theorem schedules_cases (now : ℕ) (exits : List Exit) (slot : Slot) :
    exits.foldl (fun slot exit => slot.schedule now exit.key exit.term) slot = slot ∨
      Decided now slot
        (exits.foldl (fun slot exit => slot.schedule now exit.key exit.term) slot) := by
  have hbusy : ∀ (exits : List Exit) (slot : Slot), slot.restart.attempt = true →
      exits.foldl (fun slot exit => slot.schedule now exit.key exit.term) slot = slot := by
    intro exits
    induction exits with
    | nil => exact fun _ _ => rfl
    | cons exit exits ih =>
      intro slot hattempt
      rw [List.foldl_cons, schedule_of_attempt hattempt]
      exact ih slot hattempt
  induction exits generalizing slot with
  | nil => exact .inl rfl
  | cons exit exits ih =>
    rw [List.foldl_cons]
    obtain hsame | hdecided := schedule_cases now exit.key exit.term slot
    · rw [hsame]
      exact ih slot
    · rw [hbusy exits _ hdecided.attempt]
      exact .inr hdecided

end K3sm.Provider
