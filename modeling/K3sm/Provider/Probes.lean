import K3sm.Core.Filepath
import K3sm.Core.Run

/-!
# Probes and container instances

Each probe of a container has a loop that runs a check without the lock and records its result
when it comes back.  A status observation that shows a new instance starts the gauges over, and a
liveness failure that is committed holds liveness until another instance is observed, in a step of
its own.
-/

namespace K3sm.Provider

open K3sm.Core K3sm.Core.Filepath Function

inductive ProbeKind where
  | liveness
  | readiness
  | startup
  deriving DecidableEq

inductive ProbeOutcome where
  | unknown
  | success
  | failure
  deriving DecidableEq

/-- The fields of `corev1.Probe` that a gauge and a delay are made of.  The delay is in
nanoseconds. -/
structure Probe where
  initialDelay : ℕ
  successThreshold : ℤ
  failureThreshold : ℤ
  deriving DecidableEq

def orDefaultInt32 (value default : ℤ) : ℤ := if value ≤ 0 then default else value

def defaultProbeFailureThreshold : ℤ := 3

/-- `probeGauge`, with the instances that were running when the counted checks began. -/
structure ProbeGauge where
  successThreshold : ℤ
  failureThreshold : ℤ
  run : ℕ
  last : ProbeOutcome
  committed : ProbeOutcome
  begun : List Str
  deriving DecidableEq

def ProbeGauge.threshold (gauge : ProbeGauge) : ProbeOutcome → ℤ
  | .success => gauge.successThreshold
  | _ => gauge.failureThreshold

/-- One more result in a row, or the first of another kind. -/
def ProbeGauge.counted (raw : ProbeOutcome) (against : Str) (gauge : ProbeGauge) : ProbeGauge :=
  if raw = gauge.last then { gauge with run := gauge.run + 1, begun := gauge.begun ++ [against] }
  else { gauge with last := raw, run := 1, begun := [against] }

def ProbeGauge.record (raw : ProbeOutcome) (against : Str) (gauge : ProbeGauge) : ProbeGauge :=
  let counted := gauge.counted raw against
  if gauge.threshold raw ≤ counted.run then { counted with committed := raw } else counted

def ProbeGauge.reset (initial : ProbeOutcome) (gauge : ProbeGauge) : ProbeGauge :=
  { gauge with run := 0, last := .unknown, committed := initial, begun := [] }

def ProbeKind.initial : ProbeKind → ProbeOutcome
  | .liveness => .success
  | .readiness => .failure
  | .startup => .unknown

def gaugeFromProbe (kind : ProbeKind) (probe : Probe) : ProbeGauge :=
  { successThreshold := match kind with
      | .readiness => orDefaultInt32 probe.successThreshold 1
      | _ => 1
    failureThreshold := orDefaultInt32 probe.failureThreshold defaultProbeFailureThreshold
    run := 0
    last := .unknown
    committed := kind.initial
    begun := [] }

structure ProbeSpec where
  gauge : ProbeGauge
  initialDelay : ℕ
  deriving DecidableEq

/-- `containerMonitor`.  An empty `instanceID` is none observed yet. -/
structure ContainerMonitor where
  restarts : ℕ
  pending : Bool
  evaluated : Bool
  instanceID : Str
  running : Bool
  startedAt : ℕ
  replacement : Bool
  held : Bool
  heldFrom : Str
  specs : ProbeKind → Option ProbeSpec

def newContainerMonitor (probes : ProbeKind → Option Probe) : ContainerMonitor :=
  { restarts := 0
    pending := false
    evaluated := false
    instanceID := []
    running := false
    startedAt := 0
    replacement := false
    held := false
    heldFrom := []
    specs := fun kind => (probes kind).map fun probe =>
      ⟨gaugeFromProbe kind probe, probe.initialDelay⟩ }

namespace ContainerMonitor

/-- `startedLocked`. -/
def started (monitor : ContainerMonitor) : Bool :=
  match monitor.specs .startup with
  | none => true
  | some spec => spec.gauge.committed == .success

def ready (monitor : ContainerMonitor) : Bool :=
  monitor.started && match monitor.specs .readiness with
    | none => true
    | some spec => spec.gauge.committed == .success

def livenessEligible (monitor : ContainerMonitor) : Bool :=
  !monitor.held && (monitor.instanceID == [] || monitor.running)

/-- Whether a probe of the kind may run, and its result be counted. -/
def shouldProbe (monitor : ContainerMonitor) : ProbeKind → Bool
  | .startup => !monitor.started
  | .liveness => monitor.livenessEligible && monitor.started
  | .readiness => monitor.started

def inInitialDelay (monitor : ContainerMonitor) (kind : ProbeKind) (now : ℕ) : Bool :=
  match monitor.specs kind with
  | none => false
  | some spec =>
    monitor.replacement && decide (0 < spec.initialDelay) &&
      decide (now - monitor.startedAt < spec.initialDelay)

def resetKinds (kinds : List ProbeKind) (monitor : ContainerMonitor) : ContainerMonitor :=
  { monitor with specs := fun kind =>
      if kind ∈ kinds then
        (monitor.specs kind).map fun spec => { spec with gauge := spec.gauge.reset kind.initial }
      else monitor.specs kind }

def observeInstance (id : Str) (running : Bool) (startedAt : ℕ) (monitor : ContainerMonitor) :
    ContainerMonitor :=
  if id = [] then monitor
  else if id = monitor.instanceID then { monitor with running := running, startedAt := startedAt }
  else
    let replacement := decide (monitor.instanceID ≠ [])
    let lifted := monitor.held && decide (id ≠ monitor.heldFrom)
    let reset := monitor.resetKinds
      (if replacement then [.liveness, .startup, .readiness] else [.liveness])
    { reset with
      replacement := replacement
      instanceID := id
      held := monitor.held && !lifted
      heldFrom := if lifted then [] else monitor.heldFrom
      running := running
      startedAt := startedAt }

def noteNotEvaluated (monitor : ContainerMonitor) : ContainerMonitor :=
  { monitor with pending := true }

/-- What `observe` makes of a result: the gauge counts it unless the gate has closed. -/
def count (kind : ProbeKind) (raw : ProbeOutcome) (against : Str) (monitor : ContainerMonitor) :
    ContainerMonitor :=
  let recorded := (monitor.specs kind).map fun spec =>
    { spec with gauge := spec.gauge.record raw against }
  { monitor with
    pending := false
    evaluated := true
    specs := if monitor.shouldProbe kind then update monitor.specs kind recorded
      else monitor.specs }

def committed (monitor : ContainerMonitor) (kind : ProbeKind) : Option ProbeOutcome :=
  (monitor.specs kind).map fun spec => spec.gauge.committed

/-- Whether `observe` asks for a restart. -/
def restartsOn (before after : ContainerMonitor) (kind : ProbeKind) : Bool :=
  kind == .liveness && after.committed .liveness == some .failure &&
    before.committed .liveness != some .failure

def onRestart (monitor : ContainerMonitor) : ContainerMonitor :=
  let reset := monitor.resetKinds [.startup, .readiness, .liveness]
  { reset with
    restarts := monitor.restarts + 1
    held := true
    heldFrom := monitor.instanceID }

end ContainerMonitor

/-- The loop of a probe: between two ticks, in a check of the instance that was running, or
between a liveness failure and its hold, with the instances recorded and checked. -/
inductive Loop where
  | idle
  | checking (against : Str)
  | restarting (against : Str) (begun : List Str)
  deriving DecidableEq

/-- A committed result, the instance it was committed for and those its checks were begun
against. -/
structure Commit where
  kind : ProbeKind
  raw : ProbeOutcome
  against : Str
  begun : List Str
  deriving DecidableEq

/-- A liveness hold: the instance recorded as killed and those the checks were begun against. -/
structure Hold where
  heldFrom : Str
  begun : List Str
  deriving DecidableEq

/-- The monitor, its loops and the runtime's instances of the container: the one the probes
started with and the one that runs. -/
structure Prober where
  monitor : ContainerMonitor
  loops : ProbeKind → Loop
  first : Str
  current : Str
  commits : List Commit
  holds : List Hold

def Prober.start (probes : ProbeKind → Option Probe) (first : Str) : Prober :=
  ⟨newContainerMonitor probes, fun _ => .idle, first, first, [], []⟩

/-- The instance the gauges are of: the one on record, and before any is observed the one the
probes started with. -/
def Prober.subject (prober : Prober) : Str :=
  if prober.monitor.instanceID = [] then prober.first else prober.monitor.instanceID

/-- A probe begins or ends, or the prober is told of the container. -/
inductive ProbeStep where
  | begin (kind : ProbeKind) (now : ℕ)
  | finish (kind : ProbeKind) (answer : Option Bool)
  | hold
  | observe (id : Str) (running : Bool) (startedAt : ℕ)
  | replace (id : Str)
  deriving DecidableEq

def rawOutcome (passed : Bool) : ProbeOutcome := if passed then .success else .failure

def ContainerMonitor.begunOf (monitor : ContainerMonitor) (kind : ProbeKind) : List Str :=
  match monitor.specs kind with
  | none => []
  | some spec => spec.gauge.begun

def Prober.record (kind : ProbeKind) (raw : ProbeOutcome) (against : Str) (prober : Prober) :
    Prober :=
  let after := prober.monitor.count kind raw against
  { prober with
    monitor := after
    commits := if after.committed kind = prober.monitor.committed kind then prober.commits
      else prober.commits ++ [⟨kind, raw, prober.subject, after.begunOf kind⟩]
    loops := update prober.loops kind
      (if ContainerMonitor.restartsOn prober.monitor after kind then
        .restarting prober.subject (after.begunOf kind)
      else .idle) }

/-- One step of `tick`, of a status observation, or of the runtime. -/
def nextProbe (prober : Prober) : ProbeStep → Prober
  | .begin kind now =>
    if prober.loops kind = .idle ∧ (prober.monitor.specs kind).isSome = true ∧
        prober.monitor.shouldProbe kind = true ∧ prober.monitor.inInitialDelay kind now = false then
      { prober with loops := update prober.loops kind (.checking prober.current) }
    else prober
  | .finish kind answer =>
    match prober.loops kind, answer with
    | .checking _, none =>
      { prober with
        monitor := prober.monitor.noteNotEvaluated
        loops := update prober.loops kind .idle }
    | .checking against, some passed => prober.record kind (rawOutcome passed) against
    | _, _ => prober
  | .hold =>
    match prober.loops .liveness with
    | .restarting _ begun =>
      { prober with
        monitor := prober.monitor.onRestart
        holds := prober.holds ++ [⟨prober.monitor.instanceID, begun⟩]
        loops := update prober.loops .liveness .idle }
    | _ => prober
  | .observe id running startedAt =>
    { prober with monitor := prober.monitor.observeInstance id running startedAt }
  | .replace id => { prober with current := id }

def configured (probes : ProbeKind → Option Probe) (kind : ProbeKind) (raw : ProbeOutcome) : ℤ :=
  match probes kind with
  | none => 0
  | some probe => (gaugeFromProbe kind probe).threshold raw

/-- The results it rests on are as many as configured, and their checks were all begun while
the instance was the running one. -/
def RestsOn (probes : ProbeKind → Option Probe) (kind : ProbeKind) (raw : ProbeOutcome)
    (against : Str) (begun : List Str) : Prop :=
  configured probes kind raw ≤ begun.length ∧ ∀ id ∈ begun, id = against

/-- A counted result is of a check of the instance on record, the first instance observed is
the one checked, and no other comes between a liveness failure and its hold. -/
def Attributed (prober : Prober) : ProbeStep → Prop
  | .finish kind (some _) => ∀ against, prober.loops kind = .checking against →
      prober.monitor.shouldProbe kind = true → against = prober.subject
  | .observe id _ _ => prober.monitor.instanceID = [] → id ≠ [] → id ≠ prober.first →
      prober.monitor.begunOf .startup = [] ∧ prober.monitor.begunOf .readiness = []
  | .hold => ∀ against begun, prober.loops .liveness = .restarting against begun →
      prober.monitor.instanceID = against
  | _ => True

structure ProbeGauge.Owned (probes : ProbeKind → Option Probe) (kind : ProbeKind) (against : Str)
    (gauge : ProbeGauge) : Prop where
  run_eq : gauge.run = gauge.begun.length
  begun : ∀ id ∈ gauge.begun, id = against
  thresholds : ∀ raw, gauge.threshold raw = configured probes kind raw

section Gauge

variable {probes : ProbeKind → Option Probe} {kind : ProbeKind} {against : Str} {gauge : ProbeGauge}

theorem ProbeGauge.Owned.reset (howned : gauge.Owned probes kind against) (initial : ProbeOutcome)
    (other : Str) : (gauge.reset initial).Owned probes kind other :=
  ⟨rfl, nofun, howned.thresholds⟩

theorem ProbeGauge.Owned.counted (howned : gauge.Owned probes kind against) (raw : ProbeOutcome) :
    (gauge.counted raw against).Owned probes kind against := by
  unfold ProbeGauge.counted
  split
  · refine ⟨?_, ?_, howned.thresholds⟩
    · rw [List.length_append, ← howned.run_eq]
      rfl
    · intro id hid
      rcases List.mem_append.1 hid with hold | hnew
      · exact howned.begun id hold
      · exact List.mem_singleton.1 hnew
  · exact ⟨rfl, fun id hid => List.mem_singleton.1 hid, howned.thresholds⟩

theorem ProbeGauge.Owned.record (howned : gauge.Owned probes kind against) (raw : ProbeOutcome) :
    (gauge.record raw against).Owned probes kind against := by
  have hcounted := howned.counted raw
  unfold ProbeGauge.record
  dsimp only
  split
  · exact ⟨hcounted.run_eq, hcounted.begun, hcounted.thresholds⟩
  · exact hcounted

theorem ProbeGauge.threshold_le_of_committed (raw : ProbeOutcome)
    (hcommits : (gauge.record raw against).committed ≠ gauge.committed) :
    gauge.threshold raw ≤ (gauge.record raw against).run ∧
      (gauge.record raw against).committed = raw := by
  have hkept : (gauge.counted raw against).committed = gauge.committed := by
    unfold ProbeGauge.counted
    split <;> rfl
  unfold ProbeGauge.record at hcommits ⊢
  dsimp only at hcommits ⊢
  split
  · rename_i hreached
    exact ⟨hreached, rfl⟩
  · rename_i hbelow
    rw [if_neg hbelow] at hcommits
    exact absurd hkept hcommits

theorem ProbeGauge.Owned.restsOn (howned : gauge.Owned probes kind against) {raw : ProbeOutcome}
    (hcommits : (gauge.record raw against).committed ≠ gauge.committed) :
    RestsOn probes kind raw against (gauge.record raw against).begun := by
  have hafter := howned.record raw
  refine ⟨?_, hafter.begun⟩
  have hreached := (ProbeGauge.threshold_le_of_committed raw hcommits).1
  rwa [howned.thresholds, hafter.run_eq] at hreached

end Gauge

structure Owned (probes : ProbeKind → Option Probe) (prober : Prober) : Prop where
  gauges : ∀ kind spec, prober.monitor.specs kind = some spec →
    spec.gauge.Owned probes kind prober.subject
  restarting : ∀ against begun, prober.loops .liveness = .restarting against begun →
    RestsOn probes .liveness .failure against begun
  commits : ∀ commit ∈ prober.commits,
    RestsOn probes commit.kind commit.raw commit.against commit.begun
  holds : ∀ hold ∈ prober.holds, RestsOn probes .liveness .failure hold.heldFrom hold.begun

section Prober

variable {probes : ProbeKind → Option Probe} {prober : Prober}

theorem Owned.loop (howned : Owned probes prober) (kind : ProbeKind) {loop : Loop}
    (hloop : ∀ against begun, loop ≠ .restarting against begun) :
    ∀ against begun, update prober.loops kind loop .liveness =
      .restarting against begun → RestsOn probes .liveness .failure against begun := by
  intro against begun hrestarting
  by_cases hkind : ProbeKind.liveness = kind
  · subst hkind
    rw [update_self] at hrestarting
    exact absurd hrestarting (hloop against begun)
  · rw [update_of_ne hkind] at hrestarting
    exact howned.restarting against begun hrestarting

theorem owned_start (probes : ProbeKind → Option Probe) (first : Str) :
    Owned probes (Prober.start probes first) := by
  refine ⟨?_, nofun, nofun, nofun⟩
  intro kind spec hspec
  obtain ⟨probe, hprobe, rfl⟩ := Option.map_eq_some_iff.1 hspec
  refine ⟨rfl, nofun, ?_⟩
  intro raw
  simp only [configured, hprobe]

variable {monitor : ContainerMonitor} {raw : ProbeOutcome} {after : ProbeSpec}

theorem count_specs {kind other : ProbeKind} {against : Str}
    (hafter : (monitor.count kind raw against).specs other = some after) :
    ∃ spec, monitor.specs other = some spec ∧ (after = spec ∨ other = kind ∧
      monitor.shouldProbe kind = true ∧
        after = { spec with gauge := spec.gauge.record raw against }) := by
  unfold ContainerMonitor.count at hafter
  dsimp only at hafter
  split at hafter
  · rename_i hcounts
    by_cases hsame : other = kind
    · subst hsame
      rw [update_self] at hafter
      obtain ⟨spec, hspec, rfl⟩ := Option.map_eq_some_iff.1 hafter
      exact ⟨spec, hspec, .inr ⟨rfl, hcounts, rfl⟩⟩
    · rw [update_of_ne hsame] at hafter
      exact ⟨after, hafter, .inl rfl⟩
  · exact ⟨after, hafter, .inl rfl⟩

theorem committed_count {kind : ProbeKind} {against : Str}
    (hcommits : (monitor.count kind raw against).committed kind ≠ monitor.committed kind) :
    ∃ spec, monitor.specs kind = some spec ∧ monitor.shouldProbe kind = true ∧
      (spec.gauge.record raw against).committed ≠ spec.gauge.committed ∧
      (monitor.count kind raw against).committed kind =
        some (spec.gauge.record raw against).committed ∧
      (monitor.count kind raw against).begunOf kind = (spec.gauge.record raw against).begun := by
  unfold ContainerMonitor.committed at hcommits ⊢
  cases hafter : (monitor.count kind raw against).specs kind with
  | none =>
    have hnone : monitor.specs kind = none := by
      unfold ContainerMonitor.count at hafter
      dsimp only at hafter
      split at hafter
      · rw [update_self] at hafter
        exact Option.map_eq_none_iff.1 hafter
      · exact hafter
    rw [hafter, hnone] at hcommits
    exact absurd rfl hcommits
  | some after =>
    obtain ⟨spec, hspec, hsame | ⟨_, hcounts, hrecorded⟩⟩ := count_specs hafter
    · rw [hafter, hspec, hsame] at hcommits
      exact absurd rfl hcommits
    · refine ⟨spec, hspec, hcounts, ?_, ?_, ?_⟩
      · intro hequal
        rw [hafter, hspec, hrecorded] at hcommits
        exact hcommits (congrArg some hequal)
      · rw [hrecorded]
        rfl
      · simp only [ContainerMonitor.begunOf, hafter, hrecorded]

theorem Owned.record (howned : Owned probes prober) {kind : ProbeKind} {against : Str}
    (hattributed : prober.monitor.shouldProbe kind = true → against = prober.subject) :
    Owned probes (prober.record kind raw against) := by
  have hrests : (prober.monitor.count kind raw against).committed kind ≠
      prober.monitor.committed kind →
      RestsOn probes kind raw prober.subject
        ((prober.monitor.count kind raw against).begunOf kind) := by
    intro hcommits
    obtain ⟨spec, hspec, hcounts, hchanged, _, hbegun⟩ := committed_count hcommits
    rw [hbegun]
    obtain rfl := hattributed hcounts
    exact (howned.gauges kind spec hspec).restsOn hchanged
  refine ⟨?_, ?_, ?_, howned.holds⟩
  · intro other after hafter
    obtain ⟨spec, hspec, hsame | ⟨hkind, hcounts, hrecorded⟩⟩ := count_specs hafter
    · rw [hsame]
      exact howned.gauges other spec hspec
    · rw [hrecorded, hattributed hcounts]
      exact (howned.gauges other spec hspec).record raw
  · intro committedFor begun hrestarting
    by_cases hliveness : ProbeKind.liveness = kind
    · subst hliveness
      have hloop : (prober.record .liveness raw against).loops .liveness =
          if ContainerMonitor.restartsOn prober.monitor
              (prober.monitor.count .liveness raw against) .liveness then
            .restarting prober.subject
              ((prober.monitor.count .liveness raw against).begunOf .liveness)
          else .idle := by
        simp only [Prober.record, update_self]
      rw [hloop] at hrestarting
      split at hrestarting
      · rename_i hrestarts
        obtain ⟨rfl, rfl⟩ := Loop.restarting.inj hrestarting
        simp only [ContainerMonitor.restartsOn, Bool.and_eq_true, beq_iff_eq, bne_iff_ne, ne_eq]
          at hrestarts
        have hcommits : (prober.monitor.count .liveness raw against).committed .liveness ≠
            prober.monitor.committed .liveness := by
          rw [hrestarts.1.2]
          exact fun hequal => hrestarts.2 hequal.symm
        obtain ⟨spec, _, _, hchanged, hcommitted, _⟩ := committed_count hcommits
        have hraw := (ProbeGauge.threshold_le_of_committed raw hchanged).2
        rw [hcommitted, hraw] at hrestarts
        obtain rfl := Option.some.inj hrestarts.1.2
        exact hrests hcommits
      · cases hrestarting
    · have hold : (prober.record kind raw against).loops .liveness = prober.loops .liveness := by
        simp only [Prober.record, update_of_ne hliveness]
      rw [hold] at hrestarting
      exact howned.restarting committedFor begun hrestarting
  intro commit hcommit
  simp only [Prober.record] at hcommit
  split at hcommit
  · exact howned.commits commit hcommit
  rename_i hcommits
  rcases List.mem_append.1 hcommit with hold | hnew
  · exact howned.commits commit hold
  · rw [List.mem_singleton.1 hnew]
    exact hrests hcommits

theorem resetKinds_specs {kinds : List ProbeKind} {kind : ProbeKind}
    (hafter : (monitor.resetKinds kinds).specs kind = some after) :
    ∃ spec, monitor.specs kind = some spec ∧
      (kind ∈ kinds ∧ after.gauge = spec.gauge.reset kind.initial ∨
        kind ∉ kinds ∧ after = spec) := by
  simp only [ContainerMonitor.resetKinds] at hafter
  split at hafter
  · rename_i hreset
    obtain ⟨spec, hspec, rfl⟩ := Option.map_eq_some_iff.1 hafter
    exact ⟨spec, hspec, .inl ⟨hreset, rfl⟩⟩
  · rename_i hkept
    exact ⟨after, hafter, .inr ⟨hkept, rfl⟩⟩

theorem Owned.resetKinds (howned : Owned probes prober) (kinds : List ProbeKind) {against : Str}
    (hkept : ∀ kind spec, prober.monitor.specs kind = some spec → kind ∉ kinds →
      spec.gauge.Owned probes kind against) {kind : ProbeKind}
    (hafter : (prober.monitor.resetKinds kinds).specs kind = some after) :
    after.gauge.Owned probes kind against := by
  obtain ⟨spec, hspec, ⟨_, hreset⟩ | ⟨hnot, rfl⟩⟩ := resetKinds_specs hafter
  · rw [hreset]
    exact (howned.gauges kind spec hspec).reset kind.initial against
  · exact hkept kind after hspec hnot

theorem Owned.hold (howned : Owned probes prober)
    (hattributed : Attributed prober .hold) : Owned probes (nextProbe prober .hold) := by
  simp only [nextProbe]
  split
  · rename_i against begun hloop
    refine ⟨?_, ?_, howned.commits, ?_⟩
    · intro kind after hafter
      refine howned.resetKinds [.startup, .readiness, .liveness] ?_ hafter
      intro kind spec _ hnot
      cases kind <;> simp at hnot
    · exact howned.loop .liveness nofun
    · intro hold hhold
      rcases List.mem_append.1 hhold with hold' | hnew
      · exact howned.holds hold hold'
      · rw [List.mem_singleton.1 hnew, hattributed against begun hloop]
        exact howned.restarting against begun hloop
  · exact howned

theorem begun_of_begunOf {kind : ProbeKind} {spec : ProbeSpec}
    (hspec : monitor.specs kind = some spec) : monitor.begunOf kind = spec.gauge.begun := by
  simp only [ContainerMonitor.begunOf, hspec]

theorem Owned.observe (howned : Owned probes prober) {id : Str} {running : Bool} {startedAt : ℕ}
    (hattributed : Attributed prober (.observe id running startedAt)) :
    Owned probes (nextProbe prober (.observe id running startedAt)) := by
  by_cases hempty : id = []
  · have hsame : prober.monitor.observeInstance id running startedAt = prober.monitor := by
      simp only [ContainerMonitor.observeInstance, if_pos hempty]
    simp only [nextProbe, hsame]
    exact howned
  by_cases hold : id = prober.monitor.instanceID
  · refine ⟨?_, howned.restarting, howned.commits, howned.holds⟩
    have hsame : prober.monitor.observeInstance id running startedAt =
        { prober.monitor with running := running, startedAt := startedAt } := by
      simp only [ContainerMonitor.observeInstance, if_neg hempty, if_pos hold]
    simp only [nextProbe, Prober.subject, hsame]
    exact howned.gauges
  refine ⟨?_, howned.restarting, howned.commits, howned.holds⟩
  have hsubject : (nextProbe prober (.observe id running startedAt)).subject = id := by
    simp only [nextProbe, Prober.subject, ContainerMonitor.observeInstance, if_neg hempty,
      if_neg hold]
  rw [hsubject]
  intro kind after hafter
  simp only [nextProbe, ContainerMonitor.observeInstance, if_neg hempty, if_neg hold] at hafter
  refine howned.resetKinds _ ?_ hafter
  intro kind spec hspec hnot
  by_cases hfirst : prober.monitor.instanceID = []
  · -- The first instance observed: startup and readiness keep what they have.
    have hgauge := howned.gauges kind spec hspec
    have hsubject : prober.subject = prober.first := by
      simp only [Prober.subject, if_pos hfirst]
    by_cases hsame : id = prober.first
    · rw [hsame, ← hsubject]
      exact hgauge
    obtain ⟨hstartup, hreadiness⟩ := hattributed hfirst hempty hsame
    have hnone : spec.gauge.begun = [] := by
      cases kind with
      | liveness => simp [hfirst] at hnot
      | startup => exact (begun_of_begunOf hspec).symm.trans hstartup
      | readiness => exact (begun_of_begunOf hspec).symm.trans hreadiness
    refine ⟨hgauge.run_eq, ?_, hgauge.thresholds⟩
    rw [hnone]
    exact nofun
  · cases kind <;> simp [hfirst] at hnot

theorem Owned.next (howned : Owned probes prober) {step : ProbeStep}
    (hattributed : Attributed prober step) : Owned probes (nextProbe prober step) := by
  cases step with
  | begin kind now =>
    simp only [nextProbe]
    split
    · exact ⟨howned.gauges, howned.loop kind nofun, howned.commits, howned.holds⟩
    · exact howned
  | finish kind answer =>
    simp only [nextProbe]
    split
    · exact ⟨howned.gauges, howned.loop kind nofun, howned.commits, howned.holds⟩
    · rename_i against passed hloop
      exact howned.record (hattributed against hloop)
    · exact howned
  | hold => exact howned.hold hattributed
  | observe id running startedAt => exact howned.observe hattributed
  | replace id => exact ⟨howned.gauges, howned.restarting, howned.commits, howned.holds⟩

end Prober

/-- In a run whose steps all count the results of the instance on record, every commit rests on
the configured number of results of one instance, and every hold records that instance. -/
theorem verdicts_of_one_instance (probes : ProbeKind → Option Probe) (first : Str)
    {steps : List ProbeStep}
    (hsteps : EachStep Attributed nextProbe (Prober.start probes first) steps) :
    Always (fun prober =>
        (∀ commit ∈ prober.commits,
          RestsOn probes commit.kind commit.raw commit.against commit.begun) ∧
        ∀ hold ∈ prober.holds, RestsOn probes .liveness .failure hold.heldFrom hold.begun)
      nextProbe (Prober.start probes first) steps := by
  have halways : Always (Owned probes) nextProbe (Prober.start probes first) steps :=
    always_of_eachStep (fun prober step howned hattributed => howned.next hattributed)
      (owned_start probes first) hsteps
  exact halways.mono fun prober howned => ⟨howned.commits, howned.holds⟩

def demoProbes : ProbeKind → Option Probe
  | .liveness => some ⟨0, 0, 1⟩
  | .readiness => some ⟨0, 0, 0⟩
  | .startup => none

/-- The container becomes ready, fails its liveness probe and is replaced. -/
def demoProbed : List ProbeStep :=
  [.observe ['a'] true 0, .begin .readiness 0, .finish .readiness (some true), .begin .liveness 1,
    .finish .liveness (some false), .hold, .replace ['b'], .observe ['b'] true 2]

theorem demo_verdicts_of_one_instance :
    Always (fun prober =>
        (∀ commit ∈ prober.commits,
          RestsOn demoProbes commit.kind commit.raw commit.against commit.begun) ∧
        ∀ hold ∈ prober.holds, RestsOn demoProbes .liveness .failure hold.heldFrom hold.begun)
      nextProbe (Prober.start demoProbes ['a']) demoProbed := by
  refine verdicts_of_one_instance demoProbes ['a']
    ⟨?_, trivial, ?_, trivial, ?_, ?_, trivial, ?_, trivial⟩
  · exact fun _ _ hfirst => absurd rfl hfirst
  · exact fun _ hloop _ => (Loop.checking.inj hloop).symm
  · exact fun _ hloop _ => (Loop.checking.inj hloop).symm
  · exact fun _ _ hloop => (Loop.restarting.inj hloop).1
  · intro hnone
    cases hnone

def demoSlow : List ProbeStep :=
  [.observe ['a'] true 0, .begin .liveness 0, .replace ['b'], .observe ['b'] true 1,
    .finish .liveness (some false)]

/-- A check that was begun on the dead instance restarts its replacement. -/
theorem slow_check_restarts_replacement :
    ¬ ∀ (probes : ProbeKind → Option Probe) (first : Str) (steps : List ProbeStep),
      Always (fun prober =>
          (∀ commit ∈ prober.commits,
            RestsOn probes commit.kind commit.raw commit.against commit.begun) ∧
          ∀ hold ∈ prober.holds, RestsOn probes .liveness .failure hold.heldFrom hold.begun)
        nextProbe (Prober.start probes first) steps := by
  intro hclaim
  have hlast := (hclaim demoProbes ['a'] demoSlow).last.1
  have hcommit : (⟨.liveness, .failure, ['b'], [['a']]⟩ : Commit) ∈
      (demoSlow.foldl nextProbe (Prober.start demoProbes ['a'])).commits := by decide
  have hrests := (hlast _ hcommit).2 ['a'] (List.mem_singleton_self _)
  cases hrests

end K3sm.Provider
