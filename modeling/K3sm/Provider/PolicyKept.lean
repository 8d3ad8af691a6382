import K3sm.Provider.Restarts

/-!
# The restart policy and re-executions

Two of the three triggers ask the restart policy before they start a worker: an exit where it is
collected, and a failed postStart hook before it chooses between a restart and a stop.  A liveness
failure asks nothing, and neither does an image pull retry.
-/

namespace K3sm.Provider

open K3sm.Core K3sm.Core.Filepath

/-- The restart policy has the container run again after such an ending. -/
def PolicyRestarts (pod : Pod) (name : Str) (ending : Ending) : Prop :=
  isNativeSidecar pod name = true ∨
    match effectivePodRestartPolicy pod, ending with
    | .always, _ => True
    | .onFailure, .killed => True
    | .onFailure, .exited term => term.exitCode ≠ 0 ∨ term.signal ≠ 0
    | _, _ => False

/-- Every re-execution asked for, and every worker that will ask for one, is for an ending
that meets the condition. -/
structure Lawful (allows : Ending → Prop) (slot : Slot) : Prop where
  requests : ∀ ending ∈ slot.requests, allows ending
  workers : ∀ gen worker, slot.workers gen = some worker → allows worker.trigger.ending

section Slot

variable {allows : Ending → Prop} {slot : Slot} (hlawful : Lawful allows slot)
include hlawful

theorem Lawful.update {gen : ℕ} {changed : Option Worker}
    (hchanged : ∀ worker, changed = some worker → allows worker.trigger.ending)
    {restart : ContainerRestart} {diedWhileDown : Bool} {count : ℕ} {process : ProcessState}
    {reexecs advances retries : List ℕ} :
    Lawful allows { slot with
      restart := restart, diedWhileDown := diedWhileDown, count := count, process := process,
      workers := Function.update slot.workers gen changed, reexecs := reexecs,
      advances := advances, retries := retries } := by
  refine ⟨hlawful.requests, ?_⟩
  intro other worker hworker
  by_cases hsame : other = gen
  · subst hsame
    exact hchanged worker (by simpa only [Function.update_self] using hworker)
  · simp only [Function.update_of_ne hsame] at hworker
    exact hlawful.workers other worker hworker

theorem Lawful.finish (gen : ℕ) : Lawful allows (slot.finish gen) := by
  refine hlawful.update ?_
  rintro worker ⟨⟩

theorem Lawful.startWorker {trigger : Trigger}
    (htrigger : allows trigger.ending) (delay : ℕ) (deaths : List ℕ) :
    Lawful allows (slot.startWorker trigger delay deaths) := by
  refine hlawful.update ?_
  rintro worker ⟨⟩
  exact htrigger

theorem Lawful.schedule {term : Terminated}
    (hterm : allows (.exited term)) (now : ℕ) (key : TerminationKey) :
    Lawful allows (slot.schedule now key term) := by
  unfold Slot.schedule
  split
  · exact hlawful
  · refine Lawful.startWorker ?_ hterm _ _
    exact ⟨hlawful.requests, hlawful.workers⟩

theorem Lawful.killAndRestart (trigger : Trigger) (htrigger : allows trigger.ending) (now : ℕ) :
    Lawful allows (slot.killAndRestart now trigger) := by
  unfold Slot.killAndRestart
  split
  · exact hlawful
  · refine Lawful.startWorker ?_ htrigger _ _
    exact ⟨hlawful.requests, hlawful.workers⟩

theorem Lawful.abort : Lawful allows slot.abort := by
  unfold Slot.abort
  cases hcancel : slot.restart.cancel with
  | none => exact ⟨hlawful.requests, hlawful.workers⟩
  | some gen =>
    refine hlawful.update ?_
    intro worker hworker
    obtain ⟨found, hfound, rfl⟩ := Option.map_eq_some_iff.1 hworker
    exact hlawful.workers gen found hfound

theorem Lawful.fire (gen : ℕ) (noticed : Bool) : Lawful allows (slot.fire gen noticed) := by
  unfold Slot.fire
  cases hworker : slot.workers gen with
  | none => exact hlawful
  | some worker =>
    have hallowed := hlawful.workers gen worker hworker
    dsimp only
    split
    · exact hlawful
    split
    · exact hlawful.finish gen
    have hcalled : Lawful allows { slot with
        workers := Function.update slot.workers gen
          (some { worker with stage := .calling slot.diedWhileDown }) } :=
      hlawful.update (by rintro changed ⟨⟩; exact hallowed)
    refine ⟨?_, hcalled.workers⟩
    intro ending hending
    rcases List.mem_append.1 hending with hold | hnew
    · exact hlawful.requests ending hold
    · rwa [List.mem_singleton.1 hnew]

theorem Lawful.kill (gen : ℕ) (term : Terminated) : Lawful allows (slot.kill gen term) := by
  unfold Slot.kill
  cases hworker : slot.workers gen with
  | none => exact hlawful
  | some worker =>
    dsimp only
    split
    · exact hlawful.update (by rintro changed ⟨⟩; exact hlawful.workers gen worker hworker)
    · exact hlawful

theorem Lawful.spawn (gen : ℕ) : Lawful allows (slot.spawn gen) := by
  unfold Slot.spawn
  cases hworker : slot.workers gen with
  | none => exact hlawful
  | some worker =>
    dsimp only
    split
    · split
      · exact hlawful.update (by rintro changed ⟨⟩; exact hlawful.workers gen worker hworker)
      · exact hlawful
    · exact hlawful

theorem Lawful.succeed (gen : ℕ) : Lawful allows (slot.succeed gen) := by
  unfold Slot.succeed
  cases hworker : slot.workers gen with
  | none => exact hlawful
  | some worker =>
    dsimp only
    split
    · refine Lawful.finish ?_ gen
      exact ⟨hlawful.requests, hlawful.workers⟩
    · exact hlawful

theorem Lawful.failCall (now gen : ℕ) (cause : Str) :
    Lawful allows (slot.failCall now gen cause) := by
  unfold Slot.failCall
  cases hworker : slot.workers gen with
  | none => exact hlawful
  | some worker =>
    dsimp only
    split
    · exact hlawful
    split
    · exact hlawful.finish gen
    split
    · exact hlawful.update (by rintro changed ⟨⟩; exact hlawful.workers gen worker hworker)
    · exact hlawful.finish gen

theorem Lawful.exit (term : Terminated) : Lawful allows (slot.exit term) := by
  unfold Slot.exit
  split
  · exact ⟨hlawful.requests, hlawful.workers⟩
  · exact hlawful

theorem Lawful.start : Lawful allows slot.start := by
  unfold Slot.start
  split
  · exact ⟨hlawful.requests, hlawful.workers⟩
  · exact hlawful

theorem Lawful.pullStart (hlost : ∀ term, slot.process = .lost term → allows (.exited term)) :
    Lawful allows slot.pullStart := by
  unfold Slot.pullStart
  cases hprocess : slot.process with
  | lost term =>
    refine ⟨?_, hlawful.workers⟩
    exact List.forall_mem_append.2
      ⟨hlawful.requests, List.forall_mem_singleton.2 (hlost term hprocess)⟩
  | absent => exact ⟨hlawful.requests, hlawful.workers⟩
  | running | dead term => exact hlawful

end Slot

variable {pod : Pod} {state : State}

theorem policyRestarts_of_mem_due {status : PodStatus} {exit : Exit}
    (hexit : exit ∈ due pod status) :
    PolicyRestarts pod exit.name (.exited exit.term) := by
  rcases List.mem_append.1 hexit with hmain | hsidecar
  · obtain ⟨container, _, hcollect⟩ := List.mem_filterMap.1 hmain
    unfold collect at hcollect
    split at hcollect
    · rename_i term _
      split at hcollect
      · rename_i hrestarts
        obtain rfl := Option.some.inj hcollect
        refine .inr ?_
        revert hrestarts
        cases effectivePodRestartPolicy pod <;> simp [shouldRestartOnExit]
      · cases hcollect
    · cases hcollect
  obtain ⟨container, hcontainer, hcollect⟩ := List.mem_filterMap.1 hsidecar
  have hname : exit.name = container.name := by
    unfold collect at hcollect
    split at hcollect
    · split at hcollect
      · rw [← Option.some.inj hcollect]
      · cases hcollect
    · cases hcollect
  refine .inl ?_
  rw [hname]
  exact (List.mem_filter.1 hcontainer).2

theorem policyRestarts_of_restartsFailed {name : Str} (hrestarts : restartsFailed pod name = true) :
    PolicyRestarts pod name .killed := by
  unfold restartsFailed at hrestarts
  cases hsidecar : isNativeSidecar pod name with
  | true => exact .inl hsidecar
  | false =>
    rw [hsidecar] at hrestarts
    refine .inr ?_
    revert hrestarts
    cases effectivePodRestartPolicy pod <;> simp [shouldRestartOnExit]

def PolicyKept (pod : Pod) (state : State) : Prop :=
  ∀ name, Lawful (PolicyRestarts pod name) (state.slots name)

/-- The steps that ask the policy, and those of the others that it would allow. -/
def Permitted (pod : Pod) (state : State) : Step → Prop
  | .liveness name => PolicyRestarts pod name .killed
  | .pull image _ => ∀ name ∈ containersWithImage pod image, ∀ term,
      (state.slots name).process = .lost term → PolicyRestarts pod name (.exited term)
  | _ => True

theorem Lawful.observe {name : Str} {slot : Slot} (hlawful : Lawful (PolicyRestarts pod name) slot)
    (status : PodStatus) (now : ℕ) :
    Lawful (PolicyRestarts pod name) (slot.observe pod status now name) := by
  have hmarked : Lawful (PolicyRestarts pod name)
      (if name ∈ observedRunning pod status then slot.observeRunning else slot) :=
    iteInduction (fun _ => ⟨hlawful.requests, hlawful.workers⟩) fun _ => hlawful
  unfold Slot.observe
  dsimp only
  split
  · exact hmarked.abort
  refine List.foldlRecOn _ _ hmarked ?_
  intro middle hmiddle exit hexit
  obtain ⟨hdue, hname⟩ := List.mem_filter.1 hexit
  have hallowed := policyRestarts_of_mem_due hdue
  rw [of_decide_eq_true hname] at hallowed
  exact hmiddle.schedule hallowed now exit.key

theorem policyKept_next {step : Step} (hkept : PolicyKept pod state)
    (hpermitted : Permitted pod state step) : PolicyKept pod (next pod state step) := by
  intro name
  have hlawful := hkept name
  have habout : ∀ {about : Prop} [Decidable about] {changed : Slot},
      (about → Lawful (PolicyRestarts pod name) changed) →
      Lawful (PolicyRestarts pod name) (if about then changed else state.slots name) :=
    fun hchanged => iteInduction hchanged fun _ => hlawful
  rw [next_slots]
  cases step with
  | pass time => exact hlawful
  | observe status => exact hlawful.observe status state.now
  | liveness other =>
    refine habout fun hsame => hlawful.killAndRestart .liveness ?_ state.now
    rw [hsame]
    exact hpermitted
  | postStart other stopped =>
    refine habout fun _ => iteInduction (fun hrestarts => ?_) fun _ => ?_
    · exact hlawful.killAndRestart .postStart (policyRestarts_of_restartsFailed hrestarts) state.now
    cases stopped with
    | none => exact hlawful
    | some term => exact hlawful.exit term
  | cancel => exact hlawful.abort
  | fire other gen noticed => exact habout fun _ => hlawful.fire gen noticed
  | kill other gen term => exact habout fun _ => hlawful.kill gen term
  | spawn other gen => exact habout fun _ => hlawful.spawn gen
  | succeed other gen => exact habout fun _ => hlawful.succeed gen
  | failCall other gen cause => exact habout fun _ => hlawful.failCall state.now gen cause
  | start other => exact habout fun _ => hlawful.start
  | exit other term => exact habout fun _ => hlawful.exit term
  | pull image reached =>
    refine habout fun hreached => hlawful.pullStart (hpermitted name ?_)
    simpa using (List.mem_filter.1 hreached).2

/-- Where liveness failures come from containers the policy restarts after a kill, and pull
retries start no other container again, every re-execution is one the policy allows. -/
theorem reexecution_follows_policy (pod : Pod) (counts : Str → ℕ) (processes : Str → ProcessState)
    {steps : List Step}
    (hsteps : EachStep (Permitted pod) (next pod) (State.tracked counts processes) steps) :
    Always (fun state => ∀ name, ∀ ending ∈ (state.slots name).requests,
        PolicyRestarts pod name ending) (next pod) (State.tracked counts processes) steps := by
  have hstart : PolicyKept pod (State.tracked counts processes) := fun _ => ⟨nofun, nofun⟩
  have halways : Always (PolicyKept pod) (next pod) (State.tracked counts processes) steps :=
    always_of_eachStep (fun state step hkept hpermitted => policyKept_next hkept hpermitted) hstart
      hsteps
  exact halways.mono fun state hkept name => (hkept name).requests

def demoContainer : Container := ⟨['m'], ['i'], none⟩

def demoPod (policy : RestartPolicy) : Pod := ⟨policy, [], [demoContainer]⟩

def demoTrack : State := State.tracked (fun _ => 0) (fun _ => .absent)

def demoLiveness : List Step :=
  [.start ['m'], .liveness ['m'], .fire ['m'] 1 false, .kill ['m'] 1 ⟨137, 9, 0⟩, .spawn ['m'] 1,
    .succeed ['m'] 1]

theorem demo_reexecution_follows_policy :
    Always (fun state => ∀ name, ∀ ending ∈ (state.slots name).requests,
        PolicyRestarts (demoPod .always) name ending)
      (next (demoPod .always)) demoTrack demoLiveness :=
  reexecution_follows_policy (demoPod .always) (fun _ => 0) (fun _ => .absent)
    ⟨trivial, .inr trivial, trivial, trivial, trivial, trivial, trivial⟩

/-- A liveness failure re-executes the container of a pod that never restarts one. -/
theorem liveness_reexecutes_never :
    ¬ ∀ (pod : Pod) (counts : Str → ℕ) (processes : Str → ProcessState) (steps : List Step),
      Always (fun state => ∀ name, ∀ ending ∈ (state.slots name).requests,
          PolicyRestarts pod name ending) (next pod) (State.tracked counts processes) steps := by
  intro hclaim
  have hlast := (hclaim (demoPod .never) (fun _ => 0) (fun _ => .absent) demoLiveness).last
  have hasked : Ending.killed ∈ ((demoLiveness.foldl (next (demoPod .never))
      (State.tracked (fun _ => 0) (fun _ => .absent))).slots ['m']).requests := by decide
  rcases hlast ['m'] .killed hasked with hsidecar | hpolicy
  · exact absurd hsidecar (by decide)
  · exact hpolicy

end K3sm.Provider
