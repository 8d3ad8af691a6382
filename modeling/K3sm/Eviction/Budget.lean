import K3sm.Eviction.Pressure

/-!
# The node budget

Each signal of the host has five rungs, and a rung is held from the sample that passes it until
one is back at its release.  The raw level is that of the worst rung held, or evicting when
memory pressure is on; the published level and the admission stop outlast it by the dwell.
-/

namespace K3sm.Eviction

open K3sm.Core

/-- The rungs of a signal's ladder, mildest first. -/
inductive BudgetRung
  | warn
  | admitStop
  | critical
  | evictSoft
  | evictHard
  deriving DecidableEq

def budgetRungs : List BudgetRung := [.warn, .admitStop, .critical, .evictSoft, .evictHard]

def BudgetRung.rank : BudgetRung → ℕ
  | .warn => 0
  | .admitStop => 1
  | .critical => 2
  | .evictSoft => 3
  | .evictHard => 4

/-- The level a held rung puts its signal at; a hard trip on its own is critical. -/
def rungLevel : BudgetRung → ℕ
  | .warn | .admitStop => 1
  | .evictSoft => 3
  | .critical | .evictHard => 2

/-- What the monitor samples of the host. -/
inductive SignalID
  | memoryAvailable
  | memoryCompressor
  | memorySwap
  | swapfsAvailable
  | nodefsAvailable
  | imagefsAvailable
  | pidAvailable
  deriving DecidableEq

/-- The signals that are worse the lower they are. -/
def falling : SignalID → Bool
  | .memoryCompressor | .memorySwap => false
  | _ => true

structure SignalLadder where
  id : SignalID
  rungs : BudgetRung → Option ℤ
  releases : BudgetRung → Option ℤ
  graceSeconds : Option ℤ

/-- The signals stand in the order of their page codes, no two under one. -/
structure BudgetLadder where
  signals : List SignalLadder
  nodup : (signals.map (·.id)).Nodup
  dwell : Time
  swapGateBytes : ℤ

/-- What one sample leaves for the next; a time that is not set is none. -/
structure BudgetHold where
  held : SignalID → BudgetRung → Bool
  since : SignalID → BudgetRung → Option Time
  lastSeen : ℕ → Option Time
  blocked : Option (Time × SignalID)
  worst : Option SignalID
  anyHeld : Bool

def BudgetHold.none : BudgetHold where
  held _ _ := false
  since _ _ := .none
  lastSeen _ := .none
  blocked := .none
  worst := .none
  anyHeld := false

/-- One sample of the host. -/
structure BudgetReading extends HostReading where
  diskAvailableBytes : ℤ
  diskCapacityBytes : ℤ
  pidMax : ℤ
  pidCount : ℤ

/-- A reading with the history the monitor stamps into it. -/
structure BudgetStats extends HostStats, BudgetReading where
  budget : BudgetHold
  sampledAt : Time
  swapWindow : List (Time × ℤ)

structure BudgetObservation where
  level : ℕ
  admits : Bool
  admitReasonSignal : Option SignalID
  evictDeadline : Option Time

def memorySwapWindow : Time := 60 * second

def swapWindowCap : ℕ := 64

def swapWindowNext (window : List (Time × ℤ)) (now : Time) (used : ℤ) : List (Time × ℤ) :=
  let kept := window.filter fun reading => now - reading.1 ≤ memorySwapWindow
  let kept := kept.drop (kept.length + 1 - swapWindowCap)
  kept ++ [(now, used)]

section Signals

variable (isDescending : SignalID → Bool)

def permille (n limit : ℤ) : Option ℤ :=
  if 0 < limit then some ((int64 (n * 1000)).tdiv limit) else none

/-- The readings of the swap in use that are within the window. -/
def recentSwap (stats : BudgetStats) : List (Time × ℤ) :=
  stats.swapWindow.filter fun reading => stats.sampledAt - reading.1 ≤ memorySwapWindow

def lowSwap (stats : BudgetStats) : ℤ :=
  (recentSwap stats).foldl (fun low reading => min low reading.2) stats.swapUsedBytes

def budgetSignalValue (stats : BudgetStats) : SignalID → Option ℤ
  | .memoryAvailable =>
    if stats.memCapacityBytes ≤ 0 then none else some (max 0 stats.memAvailableBytes)
  | .memoryCompressor =>
    match permille stats.compressorPages stats.compressorPagesLimit,
      permille stats.compressorSegments stats.compressorSegmentsLimit with
    | none, none => none
    | some pages, none => some (max 0 pages)
    -- the value starts at zero
    | none, some segments => some (max 0 (max 0 segments))
    | some pages, some segments => some (max 0 (max pages segments))
  | .memorySwap =>
    if recentSwap stats = [] then none
    else some (max 0 (int64 (stats.swapUsedBytes - lowSwap stats)))
  | .swapfsAvailable =>
    if stats.swapVolumeCapacityBytes ≤ 0 then none else some (max 0 stats.swapVolumeAvailableBytes)
  | .nodefsAvailable | .imagefsAvailable =>
    if stats.diskCapacityBytes ≤ 0 then none else some (max 0 stats.diskAvailableBytes)
  | .pidAvailable =>
    if stats.pidMax ≤ 0 then none else some (max 0 (int64 (stats.pidMax - stats.pidCount)))

def pastRung (desc : Bool) (value threshold : ℤ) : Bool :=
  if desc then decide (value ≤ threshold) else decide (threshold ≤ value)

def calmOfRelease (desc : Bool) (value : ℤ) (release : Option ℤ) (threshold : ℤ) : Bool :=
  match release with
  | none => !pastRung desc value threshold
  | some release => if desc then decide (release ≤ value) else decide (value ≤ release)

/-- The value of a signal whose rungs count: sampled, and not gated off. -/
def countedValue (stats : BudgetStats) (ladder : BudgetLadder) (signal : SignalLadder) : Option ℤ :=
  if signal.id = .memorySwap ∧ stats.swapUsedBytes < ladder.swapGateBytes then none
  else budgetSignalValue stats signal.id

/-- The signal is past the rung's threshold. -/
def passes (stats : BudgetStats) (ladder : BudgetLadder) (signal : SignalLadder)
    (rung : BudgetRung) : Bool :=
  match countedValue stats ladder signal, signal.rungs rung with
  | some value, some threshold => pastRung (isDescending signal.id) value threshold
  | _, _ => false

/-- The signal has calmed enough to let go of a held rung. -/
def releases (stats : BudgetStats) (ladder : BudgetLadder) (signal : SignalLadder)
    (rung : BudgetRung) : Bool :=
  match countedValue stats ladder signal, signal.rungs rung with
  | some value, some threshold =>
    calmOfRelease (isDescending signal.id) value (signal.releases rung) threshold
  | _, _ => true

/-- A rung is held from passing its threshold until it is released. -/
def holds (stats : BudgetStats) (ladder : BudgetLadder) (signal : SignalLadder)
    (rung : BudgetRung) : Bool :=
  passes isDescending stats ladder signal rung ||
    (stats.budget.held signal.id rung && !releases isDescending stats ladder signal rung)

def topRung (stats : BudgetStats) (ladder : BudgetLadder) (signal : SignalLadder) :
    Option BudgetRung :=
  (budgetRungs.filter (holds isDescending stats ladder signal)).getLast?

def memoryPressured (stats : HostStats) : Bool :=
  nextAvailable stats || nextCompressor stats || (nextSwap stats).1

/-- The highest level that memory pressure or a rung asks for. -/
def rawLevel (stats : BudgetStats) (ladder : BudgetLadder) : ℕ :=
  if memoryPressured stats.toHostStats then 3
  else (ladder.signals.map fun signal =>
    ((topRung isDescending stats ladder signal).map rungLevel).getD 0).foldl max 0

def blockedBy (stats : BudgetStats) (ladder : BudgetLadder) : Option SignalID :=
  (ladder.signals.find? fun signal => (topRung isDescending stats ladder signal).any fun top =>
    decide (BudgetRung.admitStop.rank ≤ top.rank)).map (·.id)

def worstSignal (stats : BudgetStats) (ladder : BudgetLadder) : Option (SignalID × ℕ) :=
  ladder.signals.foldl (fun found signal =>
    match topRung isDescending stats ladder signal with
    | none => found
    | some top =>
      if found.all fun worst => decide (worst.2 < top.rank) then some (signal.id, top.rank)
      else found) none

def withinDwell (ladder : BudgetLadder) (now seen : Time) : Bool :=
  decide (now - seen < ladder.dwell)

def nextLastSeen (stats : BudgetStats) (ladder : BudgetLadder) (level : ℕ) : Option Time :=
  if level ≤ rawLevel isDescending stats ladder then some stats.sampledAt
  else (stats.budget.lastSeen level).filter (withinDwell ladder stats.sampledAt)

def nextBlocked (stats : BudgetStats) (ladder : BudgetLadder) : Option (Time × SignalID) :=
  match blockedBy isDescending stats ladder with
  | some id => some (stats.sampledAt, id)
  | none => stats.budget.blocked.filter fun blocked => withinDwell ladder stats.sampledAt blocked.1

def nextSince (stats : BudgetStats) (ladder : BudgetLadder) (signal : SignalLadder)
    (rung : BudgetRung) : Option Time :=
  if !holds isDescending stats ladder signal rung then none
  else if stats.budget.held signal.id rung then stats.budget.since signal.id rung
  else some stats.sampledAt

/-- The published level: the raw one, or a higher one that was seen within the dwell. -/
def publishedLevel (stats : BudgetStats) (ladder : BudgetLadder) : ℕ :=
  [1, 2, 3].foldl (fun level other =>
    if (nextLastSeen isDescending stats ladder other).isSome then max level other else level)
    (rawLevel isDescending stats ladder)

def evictDeadline (stats : BudgetStats) (ladder : BudgetLadder) : Option Time :=
  (ladder.signals.filterMap fun signal => do
    let since ← nextSince isDescending stats ladder signal .evictSoft
    let grace ← signal.graceSeconds
    return since + grace * second).min?

/-- The observation of one sample, and what it holds for the next. -/
def budgetOf (stats : BudgetStats) (ladder : BudgetLadder) : BudgetObservation × BudgetHold :=
  let signalOf := fun id => ladder.signals.find? fun signal => signal.id = id
  let hold : BudgetHold :=
    { held := fun id rung => (signalOf id).any fun signal =>
        holds isDescending stats ladder signal rung
      since := fun id rung => (signalOf id).bind fun signal =>
        nextSince isDescending stats ladder signal rung
      lastSeen := nextLastSeen isDescending stats ladder
      blocked := nextBlocked isDescending stats ladder
      worst := if publishedLevel isDescending stats ladder = 0 then none
        else ((worstSignal isDescending stats ladder).map Prod.fst).or stats.budget.worst
      anyHeld := ladder.signals.any fun signal => budgetRungs.any fun rung =>
        holds isDescending stats ladder signal rung }
  ({ level := publishedLevel isDescending stats ladder
     admits := hold.blocked.isNone
     admitReasonSignal := hold.blocked.map Prod.snd
     evictDeadline := evictDeadline isDescending stats ladder }, hold)

end Signals

section Default

variable (isDescending : SignalID → Bool)

def rungsOf (warn admitStop critical evictSoft evictHard : Option ℤ) : BudgetRung → Option ℤ
  | .warn => warn
  | .admitStop => admitStop
  | .critical => critical
  | .evictSoft => evictSoft
  | .evictHard => evictHard

/-- The rungs whose gap sets a release, nearest first; warn looks the other way. -/
def gapRungs : BudgetRung → List BudgetRung
  | .warn => [.admitStop, .critical, .evictSoft]
  | .admitStop => [.warn]
  | .critical => [.admitStop, .warn]
  | .evictSoft => [.critical, .admitStop, .warn]
  | .evictHard => []

/-- The advisory rungs are released half the gap past them, the hard one as it is told. -/
def halfGapReleases (desc : Bool) (rungs : BudgetRung → Option ℤ) (hard : Option ℤ)
    (rung : BudgetRung) : Option ℤ :=
  if rung = .evictHard then hard
  else do
    let own ← rungs rung
    let calmer ← (gapRungs rung).findSome? rungs
    let gap := int64 (calmer - own)
    let half := (if gap < 0 then int64 (-gap) else gap).tdiv 2
    return if desc then int64 (own + half) else int64 (own - half)

def defaultSignal (id : SignalID) (rungs : BudgetRung → Option ℤ) (hard grace : Option ℤ) :
    SignalLadder :=
  ⟨id, rungs, halfGapReleases (isDescending id) rungs hard, grace⟩

def minPIDLadderMax : ℤ := 100

def defaultSignals (memCapacity pidMax : ℤ) : List SignalLadder :=
  let mi : ℤ := 2 ^ 20
  let gi : ℤ := 2 ^ 30
  let floor := swapfsFloor memCapacity
  let disk := rungsOf (some (20 * gi)) (some (15 * gi)) (some (10 * gi)) none (some (2 * gi))
  [defaultSignal isDescending .memoryAvailable
      (rungsOf (some (max gi ((int64 (memCapacity * 11)).tdiv 100)))
        (some (max (768 * mi) ((int64 (memCapacity * 8)).tdiv 100)))
        (some (max (512 * mi) ((int64 (memCapacity * 5)).tdiv 100)))
        (some (max (256 * mi) ((int64 (memCapacity * 25)).tdiv 1000)))
        (some memAvailableHardEvictionBytes))
      (some memAvailableReleaseBytes) (some 90),
    defaultSignal isDescending .memoryCompressor
      (rungsOf (some 560) (some 600) (some 700) (some 750) (some (compressorTripPercent * 10)))
      (some (compressorReleasePercent * 10)) (some 60),
    defaultSignal isDescending .memorySwap
      (rungsOf (some (512 * mi)) (some gi) (some (2 * gi)) none none) none none,
    defaultSignal isDescending .swapfsAvailable
      (rungsOf (some (int64 (3 * floor))) (some (int64 (2 * floor)))
        (some ((int64 (floor * 3)).tdiv 2)) none (some floor))
      (some ((int64 (floor * 3)).tdiv 2)) none,
    defaultSignal isDescending .nodefsAvailable disk (some (10 * gi)) none,
    defaultSignal isDescending .imagefsAvailable disk (some (10 * gi)) none,
    defaultSignal isDescending .pidAvailable
      (if minPIDLadderMax ≤ pidMax then
        rungsOf (some ((int64 (pidMax * 30)).tdiv 100)) (some ((int64 (pidMax * 25)).tdiv 100))
          (some ((int64 (pidMax * 15)).tdiv 100)) none (some ((int64 (pidMax * 10)).tdiv 100))
      else fun _ => none) none none]

/-- `defaultLadder`, with the five minutes of `budgetLevelDwell`. -/
def defaultLadder (memCapacity pidMax : ℤ) : BudgetLadder where
  signals := defaultSignals isDescending memCapacity pidMax
  nodup := by
    have hids : (defaultSignals isDescending memCapacity pidMax).map (·.id) =
        [.memoryAvailable, .memoryCompressor, .memorySwap, .swapfsAvailable, .nodefsAvailable,
          .imagefsAvailable, .pidAvailable] := rfl
    rw [hids]
    decide
  dwell := 300 * second
  swapGateBytes := max swapTripUsedBytes (memCapacity.tdiv 4)

end Default

/-- What the monitor keeps for the budget, beside the memory arms. -/
structure BudgetMonitor where
  pressure : PressureMonitor
  budget : BudgetHold
  swapWindow : List (Time × ℤ)

def newBudgetMonitor : BudgetMonitor := ⟨newPressureMonitor, .none, []⟩

section Monitor

variable {Level : Type} [LinearOrder Level] (levels : Levels Level) (isDescending : SignalID → Bool)
  (ladder : BudgetLadder)

def BudgetMonitor.stamp (monitor : BudgetMonitor) (reading : BudgetReading) (now : Time) :
    BudgetStats :=
  { monitor.pressure.stamp reading.toHostReading, reading with
    budget := monitor.budget
    sampledAt := now
    swapWindow := monitor.swapWindow }

def BudgetMonitor.sampled (monitor : BudgetMonitor) (reading : BudgetReading) (now : Time) :
    BudgetMonitor :=
  let hold := (budgetOf isDescending (monitor.stamp reading now) ladder).2
  { pressure := monitor.pressure.sampled levels reading.toHostReading hold.anyHeld now
    budget := hold
    swapWindow := swapWindowNext monitor.swapWindow now reading.swapUsedBytes }

end Monitor

end K3sm.Eviction
