import K3sm.Provider.Probes
import K3sm.Provider.Restarts

/-!
# The restart behind a liveness hold

A committed liveness failure holds the liveness of the container in the prober and then asks the
pod's track for a restart.  The hold lifts when another instance is seen, so there has to be a
restart behind it.  The two are kept apart: a repeat create of the pod replaces the track, with
the workers of the old one cancelled, and keeps the prober with its hold.  A track also drops the
question while a worker of it is in flight, also one whose call has already put the instance there
that the question is about.
-/

namespace K3sm.Provider

open K3sm.Core K3sm.Core.Filepath

/-- Where the probe loop is with its question: none is open, the track is still to be looked
up, the current track is in hand, or a track that was replaced since. -/
inductive Question where
  | none
  | due
  | taken
  | outdated (index : ℕ)
  deriving DecidableEq

/-- The question will come to the current track, unless that is replaced. -/
def Question.reaches : Question → Bool
  | .due | .taken => true
  | _ => false

/-- The track in hand is replaced, and goes to the end of the replaced ones. -/
def Question.replaced (stale : List Slot) : Question → Question
  | .taken => .outdated stale.length
  | question => question

/-- A container with its prober and the liveness hold on it. -/
structure Watched where
  now : ℕ
  /-- The container in the current track. -/
  current : Slot
  /-- The container in the tracks that were replaced. -/
  stale : List Slot
  prober : Prober
  /-- The run that is on record in the monitor. -/
  recorded : Option ℕ
  /-- The run the hold is about: the one on record, and before any the one there is. -/
  heldRun : ℕ
  question : Question
  /-- The pod was seen terminal, or is being deleted. -/
  ended : Bool

inductive WatchMove where
  /-- A step of the current track or of the runtime. -/
  | engine (step : Step)
  /-- A step of a track that was replaced, or its cancellation. -/
  | stale (index : ℕ) (step : Step)
  /-- A repeat create installs a new track. -/
  | create
  /-- A step of a probe loop. -/
  | probe (step : ProbeStep)
  /-- `killAndRestart` of the liveness loop looks the track up. -/
  | look
  /-- It takes the lock of that track and decides. -/
  | ask
  /-- `observeInstances`, with a run of the container. -/
  | sight (run : ℕ) (running : Bool) (startedAt : ℕ)

/-- The steps that are taken with a track in hand: of its workers, of an observation or a hook
that looked it up, and its cancellation. -/
def Step.ofTrack : Step → Bool
  | .fire _ _ _ | .kill _ _ _ | .spawn _ _ | .succeed _ _ | .failCall _ _ _ => true
  | .observe _ | .postStart _ _ | .cancel => true
  | _ => false

def Step.ofProbes : Step → Bool
  | .liveness _ => true
  | _ => false

def Step.ends (pod : Pod) : Step → Bool
  | .observe status => terminal pod status
  | .cancel => true
  | _ => false

/-- A track's slot with the runtime's process as another left it. -/
def Slot.withProcess (slot other : Slot) : Slot :=
  { slot with process := other.process, count := other.count }

def Slot.fresh : Slot :=
  ⟨ContainerRestart.fresh, false, 0, .absent, fun _ => none, [], [], [], []⟩

section Moves

variable (pod : Pod) (name : Str) (runID : ℕ → Str)

/-- `tick` up to the question.  The loop that asks begins no check meanwhile. -/
def Watched.probe (watched : Watched) (step : ProbeStep) : Watched :=
  let prober := { watched.prober with current := runID watched.current.count }
  match step with
  | .begin kind now =>
    if kind = .liveness ∧ watched.question ≠ .none then watched
    else { watched with prober := nextProbe prober (.begin kind now) }
  | .finish kind answer => { watched with prober := nextProbe prober (.finish kind answer) }
  | .hold =>
    match watched.prober.loops .liveness with
    | .restarting _ _ =>
      { watched with
        prober := nextProbe prober .hold
        heldRun := watched.recorded.getD watched.current.count
        question := .due }
    | _ => watched
  | _ => watched

def nextWatched (watched : Watched) : WatchMove → Watched
  | .engine step =>
    if step.ofProbes then watched
    else
      { watched with
        now := watched.now + step.passes
        current := watched.current.next pod watched.now name step
        ended := watched.ended || step.ends pod }
  | .stale index step =>
    match watched.stale[index]? with
    | some slot =>
      if !step.ofTrack then watched
      else
        let worked := (slot.withProcess watched.current).next pod watched.now name step
        { watched with
          stale := watched.stale.set index worked
          current := watched.current.withProcess worked }
    | none => watched
  | .create =>
    { watched with
      current := Slot.fresh.withProcess watched.current
      stale := watched.stale ++ [watched.current]
      question := watched.question.replaced watched.stale }
  | .probe step => watched.probe runID step
  | .look => if watched.question = .due then { watched with question := .taken } else watched
  | .ask =>
    match watched.question with
    | .taken =>
      { watched with
        question := .none
        current := watched.current.killAndRestart watched.now .liveness }
    | .outdated index =>
      { watched with
        question := .none
        stale := watched.stale.modify index fun slot =>
          slot.killAndRestart watched.now .liveness }
    | _ => watched
  | .sight run running startedAt =>
    if watched.current.count < run then watched
    else
      { watched with
        prober := nextProbe watched.prober (.observe (runID run) running startedAt)
        recorded := some run }

end Moves

/-- A pod that was created, with its container in its first run or before it. -/
def Watched.start (probes : ProbeKind → Option Probe) (runID : ℕ → Str) (process : ProcessState) :
    Watched where
  now := 0
  current := { Slot.fresh with process }
  stale := []
  prober := Prober.start probes (runID 0)
  recorded := none
  heldRun := 0
  question := .none
  ended := false

/-! ## What is behind a hold -/

/-- The track has a worker for the container, before its call or in it. -/
def Pending (slot : Slot) : Prop :=
  slot.restart.attempt = true ∧
    ∃ worker, slot.workers slot.restart.attemptGen = some worker ∧ worker.cancelled = false

/-- The call of the track's worker has put a new run there. -/
def Served (slot : Slot) : Prop :=
  slot.restart.attempt = true ∧ ∃ worker start,
    slot.workers slot.restart.attemptGen = some worker ∧ worker.stage = .served start

/-- A held container is about to be asked for, has a re-execution in the current track, or
has a later run that lifts the hold when it is seen. -/
def Backed (runID : ℕ → Str) (watched : Watched) : Prop :=
  watched.ended = false → watched.prober.monitor.held = true →
    watched.question.reaches = true ∨ Pending watched.current ∨
      (watched.heldRun < watched.current.count ∧ ∀ running startedAt,
        (watched.prober.monitor.observeInstance (runID watched.current.count) running
          startedAt).held = false)

/-- A move that leaves a hold its restart: no track is replaced under one looked up for its
restart, and no question is dropped for a run that a worker in flight has put there. -/
def KeepsHold (watched : Watched) : WatchMove → Prop
  | .create => watched.ended = false → watched.prober.monitor.held = true →
      watched.question = .due ∨ watched.heldRun < watched.current.count
  | .ask => watched.ended = false → watched.prober.monitor.held = true →
      watched.question = .taken → Served watched.current → watched.heldRun < watched.current.count
  | _ => True

def Staffed (slot : Slot) : Prop :=
  slot.restart.attempt = true →
    ∃ worker, slot.workers slot.restart.attemptGen = some worker ∧ worker.cancelled = false

/-- How a step leaves the claim: staffed, served only by a call that put a new run there, and
given back only by a worker whose call was served, unless the restarts are cancelled. -/
structure Claimed (ending : Bool) (before after : Slot) : Prop where
  staffed : Staffed after
  count : before.count ≤ after.count
  served : Served after → Served before ∨ before.count < after.count
  kept : ending = false → before.restart.attempt = true →
    after.restart.attempt = true ∨ Served before

variable {slot before after : Slot} {gen now : ℕ} {ending : Bool}

theorem Claimed.refl (hstaffed : Staffed slot) : Claimed ending slot slot where
  staffed := hstaffed
  count := le_refl _
  served := .inl
  kept := fun _ hattempt => .inl hattempt

theorem claimed_of_eq (hstaffed : Staffed before)
    (hattempt : after.restart.attempt = before.restart.attempt)
    (hgen : after.restart.attemptGen = before.restart.attemptGen)
    (hworkers : after.workers = before.workers) (hcount : before.count ≤ after.count) :
    Claimed ending before after where
  staffed := by
    rw [Staffed, hattempt, hgen, hworkers]
    exact hstaffed
  count := hcount
  served := by
    rw [Served, hattempt, hgen, hworkers]
    exact .inl
  kept := fun _ hheld => .inl (hattempt.trans hheld)

theorem claimed_update {worker changed : Worker} (hstaffed : Staffed before)
    (hworker : before.workers gen = some worker)
    (hattempt : after.restart.attempt = before.restart.attempt)
    (hgen : after.restart.attemptGen = before.restart.attemptGen)
    (hworkers : after.workers = Function.update before.workers gen (some changed))
    (hcancelled : changed.cancelled = worker.cancelled)
    (hserved : ∀ start, changed.stage = .served start →
      worker.stage = .served start ∨ before.count < after.count)
    (hcount : before.count ≤ after.count) : Claimed ending before after where
  staffed := by
    rw [Staffed, hattempt, hgen, hworkers]
    intro hheld
    obtain ⟨found, hfound, hlive⟩ := hstaffed hheld
    by_cases hsame : before.restart.attemptGen = gen
    · rw [hsame] at hfound ⊢
      obtain rfl := Option.some.inj (hfound.symm.trans hworker)
      exact ⟨changed, Function.update_self _ _ _, hcancelled.trans hlive⟩
    · exact ⟨found, (Function.update_of_ne hsame _ _).trans hfound, hlive⟩
  count := hcount
  served := by
    rw [Served, hattempt, hgen, hworkers]
    rintro ⟨hheld, found, start, hfound, hstage⟩
    by_cases hsame : before.restart.attemptGen = gen
    · rw [hsame, Function.update_self] at hfound
      obtain rfl := Option.some.inj hfound
      refine (hserved start hstage).imp_left fun hbefore => ?_
      exact ⟨hheld, worker, start, hsame ▸ hworker, hbefore⟩
    · rw [Function.update_of_ne hsame] at hfound
      exact .inl ⟨hheld, found, start, hfound, hstage⟩
  kept := fun _ hheld => .inl (hattempt.trans hheld)

theorem claimed_finish_stale (hstaffed : Staffed slot)
    (hstale : slot.restart.holdsAttempt gen = false) : Claimed ending slot (slot.finish gen) := by
  have hrestart := restart_finish hstale
  have hother : slot.restart.attempt = true → slot.restart.attemptGen ≠ gen := by
    intro hheld hsame
    rw [holdsAttempt_iff.2 ⟨hheld, hsame⟩] at hstale
    cases hstale
  have hworkers : slot.restart.attempt = true →
      (slot.finish gen).workers slot.restart.attemptGen = slot.workers slot.restart.attemptGen :=
    fun hheld => Function.update_of_ne (hother hheld) _ _
  refine ⟨?_, le_refl _, ?_, fun _ hheld => .inl (by rw [hrestart, hheld])⟩
  · rw [Staffed, hrestart]
    intro hheld
    rw [hworkers hheld]
    exact hstaffed hheld
  · rw [Served, hrestart]
    rintro ⟨hheld, found⟩
    rw [hworkers hheld] at found
    exact .inl ⟨hheld, found⟩

theorem claimed_finish_served (hcount : before.count = after.count) (hserved : Served before)
    (hattempt : after.restart.attempt = false) : Claimed ending before after where
  staffed := fun hheld => by
    rw [hattempt] at hheld
    cases hheld
  count := hcount.le
  served := fun hafter => by
    rw [Served, hattempt] at hafter
    cases hafter.1
  kept := fun _ _ => .inr hserved

section

variable (hstaffed : Staffed slot)

include hstaffed

theorem stale_of_cancelled {worker : Worker} (hworker : slot.workers gen = some worker)
    (hcancelled : worker.cancelled = true) : slot.restart.holdsAttempt gen = false := by
  by_contra hholds
  rw [Bool.not_eq_false, holdsAttempt_iff] at hholds
  obtain ⟨found, hfound, hlive⟩ := hstaffed hholds.1
  rw [hholds.2, hworker] at hfound
  obtain rfl := Option.some.inj hfound
  rw [hcancelled] at hlive
  cases hlive

theorem claimed_fire (gen : ℕ) (noticed : Bool) : Claimed ending slot (slot.fire gen noticed) := by
  unfold Slot.fire
  split
  · rename_i worker hworker
    split
    · exact Claimed.refl hstaffed
    split
    · rename_i hcancelled
      exact claimed_finish_stale hstaffed (stale_of_cancelled hstaffed hworker hcancelled.1)
    · exact claimed_update hstaffed hworker rfl rfl rfl rfl (nofun) (le_refl _)
  · exact Claimed.refl hstaffed

theorem claimed_kill (gen : ℕ) (term : Terminated) : Claimed ending slot (slot.kill gen term) := by
  unfold Slot.kill
  split
  · rename_i worker hworker
    split
    · exact claimed_update hstaffed hworker rfl rfl rfl rfl
        (fun _ hstage => .inl hstage) (le_refl _)
    · exact Claimed.refl hstaffed
  · exact Claimed.refl hstaffed

theorem claimed_spawn (gen : ℕ) : Claimed ending slot (slot.spawn gen) := by
  unfold Slot.spawn
  split
  · rename_i worker hworker
    split
    · split
      · exact claimed_update hstaffed hworker rfl rfl rfl rfl (fun _ _ => .inr (Nat.lt_succ_self _))
          (Nat.le_succ _)
      · exact Claimed.refl hstaffed
    · exact Claimed.refl hstaffed
  · exact Claimed.refl hstaffed

theorem claimed_succeed (gen : ℕ) : Claimed ending slot (slot.succeed gen) := by
  unfold Slot.succeed
  split
  · rename_i worker hworker
    split
    · rename_i start hstage
      cases hholds : slot.restart.holdsAttempt gen with
      | false =>
        have hcleared : slot.restart.clearRefusal gen = slot.restart := by
          rw [ContainerRestart.clearRefusal, if_neg (ne_true_of_eq_false hholds)]
        rw [hcleared]
        have hfinished := @claimed_finish_stale
          { slot with
            diedWhileDown := slot.diedWhileDown && !start
            reexecs := slot.reexecs ++ worker.deaths
            advances := slot.advances ++ worker.settles } gen ending hstaffed hholds
        exact ⟨hfinished.staffed, hfinished.count, hfinished.served, hfinished.kept⟩
      | true =>
        obtain ⟨hheld, rfl⟩ := holdsAttempt_iff.1 hholds
        refine claimed_finish_served rfl ⟨hheld, worker, start, hworker, hstage⟩ ?_
        simp [Slot.finish, ContainerRestart.clearRefusal, ContainerRestart.endAttempt,
          ContainerRestart.holdsAttempt, hheld]
    · exact Claimed.refl hstaffed
  · exact Claimed.refl hstaffed

theorem claimed_failCall (now gen : ℕ) (cause : Str) :
    Claimed ending slot (slot.failCall now gen cause) := by
  unfold Slot.failCall
  split
  · rename_i worker hworker
    split
    · exact Claimed.refl hstaffed
    split
    · rename_i hcancelled
      exact claimed_finish_stale hstaffed (stale_of_cancelled hstaffed hworker hcancelled)
    split
    · exact claimed_update hstaffed hworker rfl rfl rfl rfl (nofun) (le_refl _)
    · rename_i hstale
      exact claimed_finish_stale hstaffed (eq_false_of_ne_true hstale)
  · exact Claimed.refl hstaffed

theorem claimed_exit (term : Terminated) : Claimed ending slot (slot.exit term) := by
  unfold Slot.exit
  split
  · exact claimed_of_eq hstaffed rfl rfl rfl (le_refl _)
  · exact Claimed.refl hstaffed

theorem claimed_start : Claimed ending slot slot.start := by
  unfold Slot.start
  split
  · exact claimed_of_eq hstaffed rfl rfl rfl (le_refl _)
  · exact Claimed.refl hstaffed

theorem claimed_pullStart : Claimed ending slot slot.pullStart := by
  cases hprocess : slot.process with
  | absent =>
    simp only [Slot.pullStart, hprocess]
    exact claimed_of_eq hstaffed rfl rfl rfl (le_refl _)
  | lost term =>
    simp only [Slot.pullStart, hprocess]
    exact claimed_of_eq hstaffed rfl rfl rfl (Nat.le_succ _)
  | running | dead term =>
    simp only [Slot.pullStart, hprocess]
    exact Claimed.refl hstaffed

end

theorem claimed_abort : Claimed true slot slot.abort where
  staffed := nofun
  count := le_refl _
  served := fun hserved => nomatch hserved.1
  kept := nofun

theorem Decided.not_served (hdecided : Decided now before after) : ¬ Served after := by
  rintro ⟨-, found, start, hfound, hstage⟩
  obtain ⟨worker, hworker, -, hwaiting, -⟩ := hdecided.worker
  obtain rfl := Option.some.inj (hworker.symm.trans hfound)
  rw [hwaiting] at hstage
  cases hstage

theorem Decided.staffed (hdecided : Decided now before after) : Staffed after := by
  intro _
  obtain ⟨worker, hworker, hlive, -⟩ := hdecided.worker
  exact ⟨worker, hworker, hlive⟩

theorem Decided.claimed (hdecided : Decided now before after) : Claimed ending before after where
  staffed := hdecided.staffed
  count := hdecided.count.ge
  served := fun hserved => absurd hserved hdecided.not_served
  kept := fun _ _ => .inl hdecided.attempt

theorem claimed_killAndRestart (hstaffed : Staffed slot) (now : ℕ) (trigger : Trigger) :
    Claimed ending slot (slot.killAndRestart now trigger) := by
  obtain ⟨-, hsame⟩ | hdecided := killAndRestart_cases now trigger slot
  · rw [hsame]
    exact Claimed.refl hstaffed
  · exact hdecided.claimed

theorem claimed_observe (hstaffed : Staffed slot) (pod : Pod) (status : PodStatus) (now : ℕ)
    (name : Str) : Claimed (terminal pod status) slot (slot.observe pod status now name) := by
  have hmarked : Claimed (terminal pod status) slot
      (if name ∈ observedRunning pod status then slot.observeRunning else slot) := by
    split
    · exact claimed_of_eq hstaffed rfl rfl rfl (le_refl _)
    · exact Claimed.refl hstaffed
  have hcount : (if name ∈ observedRunning pod status then slot.observeRunning else slot).count =
      slot.count := by
    split <;> rfl
  unfold Slot.observe
  dsimp only
  split
  · rename_i hterminal
    rw [hterminal]
    refine ⟨?_, hcount.ge, ?_, ?_⟩
    · rintro ⟨⟩
    · rintro ⟨⟨⟩, -⟩
    · rintro ⟨⟩
  · obtain hsame | hdecided := schedules_cases now
      ((due pod status).filter fun exit => decide (exit.name = name))
      (if name ∈ observedRunning pod status then slot.observeRunning else slot)
    · rw [hsame]
      exact hmarked
    · exact ⟨hdecided.staffed, (hdecided.count.trans hcount).ge,
        fun hserved => absurd hserved hdecided.not_served, fun _ _ => .inl hdecided.attempt⟩

theorem claimed_next (hstaffed : Staffed slot) (pod : Pod) (now : ℕ) (name : Str) (step : Step) :
    Claimed (step.ends pod) slot (slot.next pod now name step) := by
  -- a change that leaves it in order, made to the containers that the step is about
  have hclaimed : ∀ {about : Prop} [Decidable about] {changed : Slot}, Claimed false slot changed →
      Claimed false slot (if about then changed else slot) :=
    fun hchanged => iteInduction (fun _ => hchanged) fun _ => Claimed.refl hstaffed
  cases step with
  | pass time => exact Claimed.refl hstaffed
  | observe status => exact claimed_observe hstaffed pod status now name
  | cancel => exact claimed_abort
  | liveness other => exact hclaimed (claimed_killAndRestart hstaffed now .liveness)
  | postStart other stopped =>
    refine hclaimed (iteInduction (fun _ => ?_) fun _ => ?_)
    · exact claimed_killAndRestart hstaffed now .postStart
    cases stopped with
    | none => exact Claimed.refl hstaffed
    | some term => exact claimed_exit hstaffed term
  | fire other gen noticed => exact hclaimed (claimed_fire hstaffed gen noticed)
  | kill other gen term => exact hclaimed (claimed_kill hstaffed gen term)
  | spawn other gen => exact hclaimed (claimed_spawn hstaffed gen)
  | succeed other gen => exact hclaimed (claimed_succeed hstaffed gen)
  | failCall other gen cause => exact hclaimed (claimed_failCall hstaffed now gen cause)
  | start other => exact hclaimed (claimed_start hstaffed)
  | exit other term => exact hclaimed (claimed_exit hstaffed term)
  | pull image reached => exact hclaimed (claimed_pullStart hstaffed)

/-! ## The hold in the monitor -/

structure Recorded (runID : ℕ → Str) (watched : Watched) : Prop where
  record : watched.prober.monitor.instanceID = watched.recorded.elim [] runID
  recent : ∀ run ∈ watched.recorded, run ≤ watched.current.count
  held : watched.prober.monitor.held = true →
    watched.prober.monitor.heldFrom = watched.prober.monitor.instanceID ∧
      watched.heldRun ≤ watched.current.count ∧ ∀ run ∈ watched.recorded, watched.heldRun = run

theorem Recorded.lifts {runID : ℕ → Str} {watched : Watched} (hrecorded : Recorded runID watched)
    (hinjective : Function.Injective runID) (hnonempty : ∀ run, runID run ≠ [])
    (hheld : watched.prober.monitor.held = true)
    (hlater : watched.heldRun < watched.current.count) (running : Bool) (startedAt : ℕ) :
    (watched.prober.monitor.observeInstance (runID watched.current.count) running
      startedAt).held = false := by
  obtain ⟨hfrom, -, hrun⟩ := hrecorded.held hheld
  have hother : runID watched.current.count ≠ watched.prober.monitor.instanceID := by
    rw [hrecorded.record]
    cases hon : watched.recorded with
    | none => exact hnonempty _
    | some run =>
      intro hsame
      have hcount : watched.current.count = run := hinjective hsame
      have hheldRun := hrun run hon
      omega
  rw [ContainerMonitor.observeInstance, if_neg (hnonempty _), if_neg hother]
  simp [hheld, hfrom, hother]

structure SameHold (before after : ContainerMonitor) : Prop where
  record : after.instanceID = before.instanceID
  held : after.held = before.held
  heldFrom : after.heldFrom = before.heldFrom

theorem sameHold_begin (prober : Prober) (kind : ProbeKind) (now : ℕ) :
    SameHold prober.monitor (nextProbe prober (.begin kind now)).monitor := by
  simp only [nextProbe]
  split <;> exact ⟨rfl, rfl, rfl⟩

theorem sameHold_finish (prober : Prober) (kind : ProbeKind) (answer : Option Bool) :
    SameHold prober.monitor (nextProbe prober (.finish kind answer)).monitor := by
  simp only [nextProbe]
  split <;> exact ⟨rfl, rfl, rfl⟩

theorem Recorded.sameHold {runID : ℕ → Str} {watched : Watched}
    (hrecorded : Recorded runID watched) {prober : Prober}
    (hsame : SameHold watched.prober.monitor prober.monitor) :
    Recorded runID { watched with prober } where
  record := hsame.record.trans hrecorded.record
  recent := hrecorded.recent
  held := by
    show prober.monitor.held = true → prober.monitor.heldFrom = prober.monitor.instanceID ∧ _
    rw [hsame.held, hsame.heldFrom, hsame.record]
    exact hrecorded.held

theorem Recorded.later {runID : ℕ → Str} {watched after : Watched}
    (hrecorded : Recorded runID watched) (hprober : after.prober = watched.prober)
    (hon : after.recorded = watched.recorded) (hheldRun : after.heldRun = watched.heldRun)
    (hcount : watched.current.count ≤ after.current.count) : Recorded runID after where
  record := by
    rw [hprober, hon]
    exact hrecorded.record
  recent := by
    rw [hon]
    exact fun run hrun => (hrecorded.recent run hrun).trans hcount
  held := by
    rw [hprober, hon, hheldRun]
    intro hheld
    obtain ⟨hfrom, hbound, hrun⟩ := hrecorded.held hheld
    exact ⟨hfrom, hbound.trans hcount, hrun⟩

theorem Recorded.hold {runID : ℕ → Str} {watched : Watched} (hrecorded : Recorded runID watched)
    {prober : Prober} (hmonitor : prober.monitor = watched.prober.monitor.onRestart)
    (question : Question) :
    Recorded runID
      { watched with
        prober
        heldRun := watched.recorded.getD watched.current.count
        question } where
  record := by
    show prober.monitor.instanceID = _
    rw [hmonitor]
    exact hrecorded.record
  recent := hrecorded.recent
  held := by
    intro _
    show prober.monitor.heldFrom = prober.monitor.instanceID ∧
      watched.recorded.getD watched.current.count ≤ watched.current.count ∧
      ∀ run ∈ watched.recorded, watched.recorded.getD watched.current.count = run
    refine ⟨by rw [hmonitor]; rfl, ?_, ?_⟩
    · cases hon : watched.recorded with
      | none => exact le_refl _
      | some run => exact hrecorded.recent run hon
    · intro run hrun
      rw [Option.mem_def.1 hrun, Option.getD_some]

theorem Recorded.sight {runID : ℕ → Str} {watched : Watched} (hrecorded : Recorded runID watched)
    (hinjective : Function.Injective runID) (hnonempty : ∀ run, runID run ≠ []) {run : ℕ}
    (hrun : run ≤ watched.current.count) (running : Bool) (startedAt : ℕ) :
    Recorded runID
        { watched with
          prober := nextProbe watched.prober (.observe (runID run) running startedAt)
          recorded := some run } ∧
      ((watched.prober.monitor.observeInstance (runID run) running startedAt).held = true →
        watched.prober.monitor.held = true) := by
  by_cases hseen : runID run = watched.prober.monitor.instanceID
  · have hon : watched.recorded = some run := by
      rw [hrecorded.record] at hseen
      cases hon : watched.recorded with
      | none =>
        rw [hon] at hseen
        exact absurd hseen (hnonempty run)
      | some other =>
        rw [hon] at hseen
        rw [hinjective hseen]
    have hmonitor : watched.prober.monitor.observeInstance (runID run) running startedAt =
        { watched.prober.monitor with running, startedAt } := by
      rw [ContainerMonitor.observeInstance, if_neg (hnonempty run), if_pos hseen]
    refine ⟨⟨?_, ?_, ?_⟩, ?_⟩
    · simp only [nextProbe, hmonitor]
      exact hseen.symm
    · rintro other ⟨⟩
      exact hrun
    · simp only [nextProbe, hmonitor]
      intro hheld
      obtain ⟨hfrom, hbound, hsame⟩ := hrecorded.held hheld
      rw [hon] at hsame
      exact ⟨hfrom, hbound, hsame⟩
    · rw [hmonitor]
      exact id
  have hlifted : (watched.prober.monitor.observeInstance (runID run) running startedAt).held =
      false := by
    rw [ContainerMonitor.observeInstance, if_neg (hnonempty run), if_neg hseen]
    cases hheld : watched.prober.monitor.held with
    | false => simp
    | true => simp [(hrecorded.held hheld).1, hseen]
  refine ⟨⟨?_, ?_, ?_⟩, ?_⟩
  · simp only [nextProbe, ContainerMonitor.observeInstance, if_neg (hnonempty run), if_neg hseen]
    rfl
  · rintro other ⟨⟩
    exact hrun
  · simp only [nextProbe, hlifted]
    rintro ⟨⟩
  · rw [hlifted]
    rintro ⟨⟩

/-- What holds of a watched container: its claims have workers, and a hold that was asked for
has a claim or a later run, and a later run if the call of the claim is served. -/
structure Sound (runID : ℕ → Str) (watched : Watched) : Prop where
  staffed : Staffed watched.current
  stale : ∀ slot ∈ watched.stale, Staffed slot
  recorded : Recorded runID watched
  backed : watched.ended = false → watched.prober.monitor.held = true →
    watched.question.reaches = false →
      watched.current.restart.attempt = true ∨ watched.heldRun < watched.current.count
  served : watched.ended = false → watched.prober.monitor.held = true →
    watched.question.reaches = false → Served watched.current →
      watched.heldRun < watched.current.count

variable {runID : ℕ → Str} {watched : Watched}

theorem sound_start (probes : ProbeKind → Option Probe) (runID : ℕ → Str)
    (process : ProcessState) : Sound runID (Watched.start probes runID process) where
  staffed := fun hattempt => Bool.noConfusion hattempt
  stale := fun _ hslot => (List.not_mem_nil hslot).elim
  recorded := ⟨rfl, by rintro run ⟨⟩, fun hheld => Bool.noConfusion hheld⟩
  backed := fun _ hheld => Bool.noConfusion hheld
  served := fun _ hheld => Bool.noConfusion hheld

theorem Sound.holds (hsound : Sound runID watched) (hinjective : Function.Injective runID)
    (hnonempty : ∀ run, runID run ≠ []) : Backed runID watched := by
  intro hended hheld
  cases hreaches : watched.question.reaches with
  | true => exact .inl rfl
  | false =>
    obtain hattempt | hlater := hsound.backed hended hheld hreaches
    · exact .inr (.inl ⟨hattempt, hsound.staffed hattempt⟩)
    · exact .inr (.inr ⟨hlater, hsound.recorded.lifts hinjective hnonempty hheld hlater⟩)

theorem Sound.engine (hsound : Sound runID watched) (pod : Pod) (name : Str) (step : Step) :
    Sound runID (nextWatched pod name runID watched (.engine step)) := by
  simp only [nextWatched]
  split
  · exact hsound
  have hclaimed := claimed_next hsound.staffed pod watched.now name step
  refine ⟨hclaimed.staffed, hsound.stale, hsound.recorded.later rfl rfl rfl hclaimed.count, ?_, ?_⟩
  · intro hended hheld hreaches
    obtain ⟨hended, hends⟩ := Bool.or_eq_false_iff.1 hended
    obtain hattempt | hlater := hsound.backed hended hheld hreaches
    · obtain hkept | hserved := hclaimed.kept hends hattempt
      · exact .inl hkept
      · exact .inr ((hsound.served hended hheld hreaches hserved).trans_le hclaimed.count)
    · exact .inr (hlater.trans_le hclaimed.count)
  · intro hended hheld hreaches hserved
    have hbefore := (Bool.or_eq_false_iff.1 hended).1
    obtain hserved | hnew := hclaimed.served hserved
    · exact (hsound.served hbefore hheld hreaches hserved).trans_le hclaimed.count
    · exact (hsound.recorded.held hheld).2.1.trans_lt hnew

theorem Sound.ofStale (hsound : Sound runID watched) (pod : Pod) (name : Str) (index : ℕ)
    (step : Step) : Sound runID (nextWatched pod name runID watched (.stale index step)) := by
  simp only [nextWatched]
  split
  · rename_i slot hslot
    split
    · exact hsound
    have hstaffed : Staffed (slot.withProcess watched.current) :=
      hsound.stale slot (List.mem_of_getElem? hslot)
    have hclaimed := claimed_next hstaffed pod watched.now name step
    refine ⟨hsound.staffed, ?_, hsound.recorded.later rfl rfl rfl hclaimed.count, ?_, ?_⟩
    · intro other hother
      obtain hold | rfl := List.mem_or_eq_of_mem_set hother
      · exact hsound.stale other hold
      · exact hclaimed.staffed
    · intro hended hheld hreaches
      exact (hsound.backed hended hheld hreaches).imp_right fun hlater =>
        hlater.trans_le hclaimed.count
    · intro hended hheld hreaches hserved
      exact (hsound.served hended hheld hreaches hserved).trans_le hclaimed.count
  · exact hsound

theorem Sound.create (hsound : Sound runID watched) (pod : Pod) (name : Str)
    (hkeeps : KeepsHold watched .create) :
    Sound runID (nextWatched pod name runID watched .create) := by
  refine ⟨nofun, ?_, hsound.recorded.later rfl rfl rfl (le_refl _), ?_, ?_⟩
  · intro slot hslot
    obtain hold | hnew := List.mem_append.1 hslot
    · exact hsound.stale slot hold
    · rw [List.mem_singleton.1 hnew]
      exact hsound.staffed
  · intro hended hheld hreaches
    obtain hdue | hlater := hkeeps hended hheld
    · -- The track is not looked up yet, so the question comes to the new one.
      rw [nextWatched, hdue] at hreaches
      cases hreaches
    · exact .inr hlater
  · exact fun _ _ _ hserved => nomatch hserved.1

theorem Sound.sameHold (hsound : Sound runID watched) {prober : Prober}
    (hsame : SameHold watched.prober.monitor prober.monitor) :
    Sound runID { watched with prober } where
  staffed := hsound.staffed
  stale := hsound.stale
  recorded := hsound.recorded.sameHold hsame
  backed := fun hended hheld => hsound.backed hended (hsame.held.symm.trans hheld)
  served := fun hended hheld => hsound.served hended (hsame.held.symm.trans hheld)

theorem Sound.probe (hsound : Sound runID watched) (step : ProbeStep) :
    Sound runID (watched.probe runID step) := by
  cases step with
  | begin kind now =>
    simp only [Watched.probe]
    split
    · exact hsound
    · exact hsound.sameHold
        (sameHold_begin { watched.prober with current := runID watched.current.count } kind now)
  | finish kind answer =>
    exact hsound.sameHold
      (sameHold_finish { watched.prober with current := runID watched.current.count } kind answer)
  | hold =>
    simp only [Watched.probe]
    split
    · rename_i against begun hloop
      refine ⟨hsound.staffed, hsound.stale, hsound.recorded.hold ?_ .due, nofun, nofun⟩
      simp only [nextProbe, hloop]
    · exact hsound
  | observe id running startedAt | replace id => exact hsound

theorem Sound.look (hsound : Sound runID watched) (pod : Pod) (name : Str) :
    Sound runID (nextWatched pod name runID watched .look) := by
  simp only [nextWatched]
  split
  · exact ⟨hsound.staffed, hsound.stale,
      hsound.recorded.later rfl rfl rfl (le_refl _), nofun, nofun⟩
  · exact hsound

theorem Sound.ask (hsound : Sound runID watched) (pod : Pod) (name : Str)
    (hkeeps : KeepsHold watched .ask) : Sound runID (nextWatched pod name runID watched .ask) := by
  cases hquestion : watched.question with
  | none | due => simpa only [nextWatched, hquestion] using hsound
  | taken =>
    simp only [nextWatched, hquestion]
    obtain ⟨hattempt, hsame⟩ | hdecided :=
      killAndRestart_cases watched.now .liveness watched.current
    · rw [hsame]
      refine ⟨hsound.staffed, hsound.stale, hsound.recorded.later rfl rfl rfl (le_refl _), ?_, ?_⟩
      · exact fun _ _ _ => .inl hattempt
      · exact fun hended hheld _ => hkeeps hended hheld hquestion
    · refine ⟨hdecided.staffed, hsound.stale,
        hsound.recorded.later rfl rfl rfl hdecided.count.ge, ?_, ?_⟩
      · exact fun _ _ _ => .inl hdecided.attempt
      · exact fun _ _ _ hserved => absurd hserved hdecided.not_served
  | outdated index =>
    have hreaches : watched.question.reaches = false := by rw [hquestion]; rfl
    simp only [nextWatched, hquestion]
    refine ⟨hsound.staffed, ?_, hsound.recorded.later rfl rfl rfl (le_refl _), ?_, ?_⟩
    · intro slot hslot
      obtain ⟨place, hplace⟩ := List.mem_iff_getElem?.1 hslot
      rw [List.getElem?_modify] at hplace
      obtain ⟨other, hother, hchanged⟩ := Option.map_eq_some_iff.1 hplace
      have hstaffed := hsound.stale other (List.mem_of_getElem? hother)
      split at hchanged
      · rw [← hchanged]
        exact (@claimed_killAndRestart other false hstaffed _ _).staffed
      · exact hchanged ▸ hstaffed
    · exact fun hended hheld _ => hsound.backed hended hheld hreaches
    · exact fun hended hheld _ => hsound.served hended hheld hreaches

theorem Sound.sight (hsound : Sound runID watched) (hinjective : Function.Injective runID)
    (hnonempty : ∀ run, runID run ≠ []) (pod : Pod) (name : Str) (run : ℕ) (running : Bool)
    (startedAt : ℕ) : Sound runID
    (nextWatched pod name runID watched (.sight run running startedAt)) := by
  simp only [nextWatched]
  split
  · exact hsound
  rename_i hrun
  obtain ⟨hrecorded, hheld⟩ := hsound.recorded.sight hinjective hnonempty (not_lt.1 hrun)
    running startedAt
  exact ⟨hsound.staffed, hsound.stale, hrecorded,
    fun hended hafter => hsound.backed hended (hheld hafter),
    fun hended hafter => hsound.served hended (hheld hafter)⟩

theorem sound_next (hinjective : Function.Injective runID) (hnonempty : ∀ run, runID run ≠ [])
    (pod : Pod) (name : Str) (move : WatchMove) (hsound : Sound runID watched)
    (hkeeps : KeepsHold watched move) : Sound runID (nextWatched pod name runID watched move) := by
  cases move with
  | engine step => exact hsound.engine pod name step
  | stale index step => exact hsound.ofStale pod name index step
  | create => exact hsound.create pod name hkeeps
  | probe step => exact hsound.probe step
  | look => exact hsound.look pod name
  | ask => exact hsound.ask pod name hkeeps
  | sight run running startedAt =>
    exact hsound.sight hinjective hnonempty pod name run running startedAt

/-- A held container has a restart behind it: it is being asked for, a worker of the current
track has it, or a later run is there and lifts the hold when it is seen. -/
theorem held_liveness_restarted (hinjective : Function.Injective runID)
    (hnonempty : ∀ run, runID run ≠ []) (pod : Pod) (name : Str)
    (probes : ProbeKind → Option Probe) (process : ProcessState) (moves : List WatchMove)
    (hkeeps : EachStep KeepsHold (nextWatched pod name runID)
      (Watched.start probes runID process) moves) :
    Always (Backed runID) (nextWatched pod name runID) (Watched.start probes runID process)
      moves := by
  have hsound : Always (Sound runID) (nextWatched pod name runID)
      (Watched.start probes runID process) moves :=
    always_of_eachStep
      (fun _ move hsound hmove => sound_next hinjective hnonempty pod name move hsound hmove)
      (sound_start probes runID process) hkeeps
  exact hsound.mono fun _ hstate => hstate.holds hinjective hnonempty

def instanceName (run : ℕ) : Str := List.replicate (run + 1) 'i'

theorem instanceName_injective : Function.Injective instanceName := by
  intro run other hsame
  have hlength := congrArg List.length hsame
  rw [instanceName, instanceName, List.length_replicate, List.length_replicate] at hlength
  omega

theorem instanceName_ne_nil (run : ℕ) : instanceName run ≠ [] := nofun

def quickProbes : ProbeKind → Option Probe
  | .liveness => some ⟨0, 1, 1⟩
  | _ => none

def probedPod : Pod := ⟨.always, [], [⟨['m'], ['i'], none⟩]⟩

/-- The first run is seen, fails its liveness probe, and its restart is asked for. -/
def failedLiveness : List WatchMove :=
  [.engine (.start ['m']), .sight 0 true 0, .probe (.begin .liveness 0),
    .probe (.finish .liveness (some false)), .probe .hold, .look, .ask]

def restartedLiveness : List WatchMove :=
  failedLiveness ++ [.engine (.fire ['m'] 1 false), .engine (.kill ['m'] 1 ⟨137, 0, 1⟩),
    .engine (.spawn ['m'] 1), .create]

/-- A hold whose replacement is there when the track is replaced. -/
theorem restarted_liveness_backed :
    let start := Watched.start quickProbes instanceName .absent
    let watched := restartedLiveness.foldl (nextWatched probedPod ['m'] instanceName) start
    watched.prober.monitor.held = true ∧ watched.current.count = 1 ∧
      Always (Backed instanceName) (nextWatched probedPod ['m'] instanceName) start
        restartedLiveness := by
  refine ⟨by decide, by decide, held_liveness_restarted instanceName_injective instanceName_ne_nil
    probedPod ['m'] quickProbes .absent restartedLiveness ?_⟩
  refine ⟨trivial, trivial, trivial, trivial, trivial, trivial, ?_, trivial, trivial, trivial, ?_,
    trivial⟩
  · exact fun _ _ _ hserved => Bool.noConfusion hserved.1
  · exact fun _ _ => .inr (by decide)

/-- A repeat create between the question and the call cancels the worker and keeps the hold. -/
theorem hold_outlives_worker :
    ¬ Backed instanceName ((failedLiveness ++ [WatchMove.create]).foldl
      (nextWatched probedPod ['m'] instanceName)
      (Watched.start quickProbes instanceName .absent)) := by
  intro hbacked
  obtain hreaches | hpending | hlater := hbacked (by decide) (by decide)
  · exact absurd hreaches (by decide)
  · exact absurd hpending.1 (by decide)
  · exact absurd hlater.1 (by decide)

end K3sm.Provider
