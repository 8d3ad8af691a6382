import K3sm.Core.Filepath
import K3sm.Core.Interaction
import K3sm.Eviction.Pressure

/-!
# The node-pressure eviction manager

Each sample attempt of the monitor wakes the manager for one cycle: it looks at the latest
snapshot and evicts at most one pod.  After an eviction it waits for a look at the pressure
without the victim, and goes on only when a later look shows no movement towards release.
-/

namespace K3sm.Eviction

open K3sm.Core
open K3sm.Core.Filepath (Str)

structure PodContainer where
  request : Option ℤ
  restartAlways : Bool
  deriving DecidableEq

structure Pod where
  uid : Str
  priority : Option ℤ
  configSource : Option Str
  configMirror : Option Str
  request : Option ℤ
  containers : List PodContainer
  initContainers : List PodContainer
  overhead : Option ℤ
  deriving DecidableEq

structure EvictionCandidate where
  pod : Pod
  usage : ℤ
  hasStats : Bool

def systemCriticalPriority : ℤ := 2000000000

def apiserverSource : Str := "api".toList

def podPriority (pod : Pod) : ℤ := pod.priority.getD 0

def isCriticalPod (pod : Pod) : Bool :=
  pod.configSource.any (fun source => source ≠ apiserverSource) || pod.configMirror.isSome ||
    pod.priority.any fun priority => decide (systemCriticalPriority ≤ priority)

def containerMemoryRequest (container : PodContainer) : ℤ := container.request.getD 0

/-- The running totals over the init containers: all requests, those of the sidecars, and the
largest need while the init containers run. -/
def initRequests (totals : ℤ × ℤ × ℤ) (container : PodContainer) : ℤ × ℤ × ℤ :=
  let (total, sidecars, initMax) := totals
  let request := containerMemoryRequest container
  if container.restartAlways then
    (total + request, sidecars + request, max initMax (sidecars + request))
  else (total, sidecars, max initMax (request + sidecars))

def podMemoryRequestBytes (pod : Pod) : ℤ :=
  let level := pod.request.getD 0
  let total :=
    if level = 0 then
      let (total, _, initMax) := pod.initContainers.foldl initRequests
        ((pod.containers.map containerMemoryRequest).sum, 0, 0)
      max total initMax
    else level
  if total ≠ 0 then total + pod.overhead.getD 0 else total

def cmpBool (a b : Bool) : Ordering := if a = b then .eq else if !b then .lt else .gt

def cmpExceedMemoryRequests (a b : EvictionCandidate) : Ordering :=
  if !a.hasStats || !b.hasStats then cmpBool (!a.hasStats) (!b.hasStats)
  else
    cmpBool (decide (podMemoryRequestBytes a.pod < a.usage))
      (decide (podMemoryRequestBytes b.pod < b.usage))

def cmpPriority (a b : EvictionCandidate) : Ordering :=
  compare (podPriority a.pod) (podPriority b.pod)

def cmpMemory (a b : EvictionCandidate) : Ordering :=
  if !a.hasStats || !b.hasStats then cmpBool (!a.hasStats) (!b.hasStats)
  else
    compare (b.usage - podMemoryRequestBytes b.pod) (a.usage - podMemoryRequestBytes a.pod)

def rankedBefore (a b : EvictionCandidate) : Bool :=
  ((cmpExceedMemoryRequests a b).then ((cmpPriority a b).then (cmpMemory a b))) == .lt

/-- The stable sort: a candidate stays before those it is not ranked after. -/
def rankMemoryPressure (candidates : List EvictionCandidate) : List EvictionCandidate :=
  candidates.insertionSort fun a b => ¬ rankedBefore b a

def pickVictim (candidates : List EvictionCandidate) : Option EvictionCandidate :=
  (rankMemoryPressure candidates).find? fun candidate => !isCriticalPod candidate.pod

theorem pickVictim_not_critical {candidates : List EvictionCandidate} {victim : EvictionCandidate}
    (hpicked : pickVictim candidates = some victim) : isCriticalPod victim.pod = false := by
  simpa using List.find?_some hpicked

/-- `evicted` keeps the pods the runtime has torn down for the manager, the last one first. -/
structure EvictionWorld where
  monitor : PressureMonitor
  clock : Time
  evicted : List Pod

/-- Time passes, or a sample attempt ends.  A reading is `lag` old when it is stored. -/
inductive EvictionChange
  | advance (duration : ℕ)
  | sampled (reading : HostReading) (budgetHeld : Bool) (lag : ℕ)
  | failed

inductive EvictionRequest
  | latest
  | now
  | sampleAge
  | interval
  | evictionCandidates
  | evictPod (pod : Pod) (signal : PressureSignal)

/-- `attempts` is not part of what `latest` returns; it is kept for the report of the cycle. -/
structure Latest where
  snap : HostStats
  seq : ℕ
  attempts : ℕ

abbrev EvictionAnswer : EvictionRequest → Type
  | .latest => Latest
  | .now => Time
  | .sampleAge => Time
  | .interval => Time
  | .evictionCandidates => List EvictionCandidate
  | .evictPod _ _ => Bool

/-- The candidates the runtime names, and whether it tears the victim down. -/
structure EvictionOutcome where
  candidates : List EvictionCandidate
  evicts : Bool

section Machine

variable {Level : Type} [LinearOrder Level] (levels : Levels Level)

def EvictionWorld.change (world : EvictionWorld) : EvictionChange → EvictionWorld
  | .advance duration => { world with clock := world.clock + duration }
  | .sampled reading budgetHeld lag =>
    { world with
      monitor := world.monitor.sampled levels reading budgetHeld (world.clock - lag) }
  | .failed => { world with monitor := world.monitor.failed }

def evictionHandle : (request : EvictionRequest) → EvictionOutcome → EvictionWorld →
    EvictionAnswer request × EvictionWorld
  | .latest, _, world =>
    (⟨world.monitor.snap, world.monitor.seq, world.monitor.attempts⟩, world)
  | .now, _, world => (world.clock, world)
  | .sampleAge, _, world => (world.monitor.sampleAge world.clock, world)
  | .interval, _, world => (world.monitor.interval, world)
  | .evictionCandidates, outcome, world => (outcome.candidates, world)
  | .evictPod pod _, outcome, world =>
    if outcome.evicts then (true, { world with evicted := pod :: world.evicted })
    else (false, world)

def evictionMachine :
    Machine EvictionRequest EvictionAnswer EvictionWorld EvictionChange EvictionOutcome where
  change change world := world.change levels change
  handle := evictionHandle

end Machine

def evictionCleanupTimeout : Time := 30 * second
def evictionCascadeWindow : Time := 300 * second
def evictionCascadeMaxCount : ℕ := 3
def staleSampleFactor : ℤ := 3

structure EvictionManager (Level : Type) where
  inEpisode : Bool
  halted : Bool
  evictedAt : List Time
  awaiting : Bool
  awaitSeq : ℕ
  awaitSince : Time
  hasBaseline : Bool
  baseSignal : PressureSignal
  baseLevel : Level

/-- One look at the pressure: the number of the sample, the attempts so far, what the sample
shows and when the cycle was. -/
structure Look (Level : Type) where
  seq : ℕ
  attempts : ℕ
  signal : PressureSignal
  level : Level
  now : Time

/-- A successful eviction: the victim, the age of the latest sample and the interval, and the
number of the latest sample and the time after the teardown. -/
structure EvictionRecord where
  victim : Pod
  sampleAge : Time
  interval : Time
  teardownSeq : ℕ
  teardownAt : Time

/-- What one cycle of the manager came to. -/
inductive CycleReport (Level : Type)
  | calm
  | looked (look : Look Level)
  | evicted (look : Look Level) (eviction : EvictionRecord)

section Cycle

variable {Level : Type} [LinearOrder Level] (levels : Levels Level)

namespace EvictionManager

variable (manager : EvictionManager Level)

/-- How many evictions of the episode are inside the window. -/
def recentEvictions (now : Time) : ℕ :=
  manager.evictedAt.countP fun time => now - time < evictionCascadeWindow

def resetEpisode : EvictionManager Level :=
  { manager with
    inEpisode := false, halted := false, evictedAt := [], awaiting := false, hasBaseline := false }

/-- The signal has moved towards release since the last look. -/
def improved (look : Look Level) : Bool :=
  decide (look.signal = manager.baseSignal) && decide (look.level < manager.baseLevel)

def rebase (look : Look Level) : EvictionManager Level :=
  { manager with hasBaseline := true, baseSignal := look.signal, baseLevel := look.level }

/-- What a look does to the episode, and whether the cycle goes on to evict. -/
def takeLook (look : Look Level) : EvictionManager Level × Bool :=
  if manager.halted then (manager, false)
  else if manager.awaiting then
    if look.seq ≤ manager.awaitSeq ∧ look.now - manager.awaitSince < evictionCleanupTimeout then
      (manager, false)
    else ({ manager with awaiting := false }.rebase look, false)
  else if manager.hasBaseline then (manager.rebase look, !manager.improved look)
  else (manager, true)

def await (now : Time) (seq : ℕ) (since : Time) : EvictionManager Level :=
  { manager with
    evictedAt := manager.evictedAt ++ [now]
    awaiting := true
    awaitSeq := seq
    awaitSince := since
    hasBaseline := false }

end EvictionManager

abbrev EvictionProg := Prog EvictionRequest EvictionAnswer

abbrev latest : EvictionProg Latest := Prog.ask EvictionRequest.latest

abbrev now : EvictionProg Time := Prog.ask EvictionRequest.now

abbrev sampleAge : EvictionProg Time := Prog.ask EvictionRequest.sampleAge

abbrev interval : EvictionProg Time := Prog.ask EvictionRequest.interval

abbrev evictionCandidates : EvictionProg (List EvictionCandidate) :=
  Prog.ask EvictionRequest.evictionCandidates

abbrev evictPod (pod : Pod) (signal : PressureSignal) : EvictionProg Bool :=
  Prog.ask (EvictionRequest.evictPod pod signal)

/-- A cycle ends with the episode as it leaves it and its report; there is none before the first
sample. -/
abbrev CycleResult (Level : Type) := EvictionManager Level × Option (CycleReport Level)

def evictVictim (manager : EvictionManager Level) (look : Look Level) (age period : Time) :
    EvictionProg (CycleResult Level) := do
  let candidates ← evictionCandidates
  match pickVictim candidates with
  | none => pure (manager, some (.looked look))
  | some victim =>
    if ← evictPod victim.pod look.signal then
      let after ← latest
      let since ← now
      pure (manager.await look.now after.seq since,
        some (.evicted look ⟨victim.pod, age, period, after.seq, since⟩))
    else pure (manager, some (.looked look))

/-- The checks before an eviction: a stale sample starts none, and the cap halts the episode. -/
def checkAndEvict (manager : EvictionManager Level) (look : Look Level) :
    EvictionProg (CycleResult Level) := do
  let age ← sampleAge
  let period ← interval
  if staleSampleFactor * period < age then pure (manager, some (.looked look))
  else if evictionCascadeMaxCount ≤ manager.recentEvictions look.now then
    pure ({ manager with halted := true }, some (.looked look))
  else evictVictim manager look age period

def cycle (manager : EvictionManager Level) : EvictionProg (CycleResult Level) := do
  let sample ← latest
  if sample.seq = 0 then pure (manager, none)
  else
    let verdict := evaluateMemory levels sample.snap
    if verdict.pressured then
      let started ← now
      let look : Look Level :=
        ⟨sample.seq, sample.attempts, verdict.signal, verdict.level, started⟩
      let (looked, goesOn) := { manager with inEpisode := true }.takeLook look
      if goesOn then checkAndEvict looked look else pure (looked, some (.looked look))
    else pure (manager.resetEpisode, some .calm)

end Cycle

section Loop

variable {Level : Type} [LinearOrder Level] (levels : Levels Level)

/-- The loop waits for an attempt after those it has counted, or runs a cycle. -/
inductive EvictionLoop (Level : Type)
  | waiting (attempts : ℕ)
  | cycling (program : EvictionProg (CycleResult Level))

/-- `journal` has the reports of the cycles, the last one first. -/
structure EvictionNode (Level : Type) where
  world : EvictionWorld
  manager : EvictionManager Level
  loop : EvictionLoop Level
  journal : List (CycleReport Level)

/-- A change of the world, or a step of the manager's loop. -/
inductive EvictionEvent
  | change (change : EvictionChange)
  | wake
  | answer (outcome : EvictionOutcome)
  /-- The loop goes round: it asks for the next attempt. -/
  | next

/-- The manager's loop takes one step, or the world changes. -/
def evictionNext (node : EvictionNode Level) : EvictionEvent → EvictionNode Level
  | .change change => { node with world := node.world.change levels change }
  | .wake =>
    match node.loop with
    | .waiting attempts =>
      if attempts < node.world.monitor.attempts then
        { node with loop := .cycling (cycle levels node.manager) }
      else node
    | .cycling _ => node
  | .answer outcome =>
    match node.loop with
    | .cycling (.call request next) =>
      { node with
        loop := .cycling (next (evictionHandle request outcome node.world).1)
        world := (evictionHandle request outcome node.world).2 }
    | _ => node
  | .next =>
    match node.loop with
    | .cycling (.done (manager, report)) =>
      { node with
        manager := manager
        journal := report.toList ++ node.journal
        loop := .waiting node.world.monitor.attempts }
    | _ => node

def freshManager (level : Level) : EvictionManager Level :=
  { inEpisode := false, halted := false, evictedAt := [], awaiting := false, awaitSeq := 0
    awaitSince := 0, hasBaseline := false, baseSignal := .none, baseLevel := level }

def freshEvictionNode (start : Time) : EvictionNode Level :=
  { world := { monitor := newPressureMonitor, clock := start, evicted := [] }
    manager := freshManager levels.zero
    loop := .waiting 0
    journal := [] }

end Loop

end K3sm.Eviction
