import Mathlib
import K3sm.Core.Int64

/-!
# The memory-pressure monitor

The monitor samples the host, stamps each snapshot with the hold of the samples before it, and
keeps the last good one with its number.  A failed attempt keeps the snapshot and still wakes
the eviction manager.
-/

namespace K3sm.Eviction

open K3sm.Core

abbrev Time := ℤ

inductive PressureSignal
  | none
  | memoryAvailable
  | compressor
  | swapfs
  deriving DecidableEq

def memAvailableHardEvictionBytes : ℤ := 100 * 1024 * 1024
def memAvailableReleaseBytes : ℤ := 200 * 1024 * 1024
def compressorTripPercent : ℤ := 80
def compressorReleasePercent : ℤ := 70
def swapTripUsedBytes : ℤ := 2 ^ 30
def swapfsFloorMinBytes : ℤ := 8 * 2 ^ 30
def swapReleaseCalmSamples : ℕ := 2

def swapfsFloor (memCapacity : ℤ) : ℤ := max swapfsFloorMinBytes (memCapacity.tdiv 4)

structure MemoryHold where
  available : Bool
  compressor : Bool
  swap : Bool
  swapCalm : ℕ

def MemoryHold.none : MemoryHold := ⟨false, false, false, 0⟩

structure HostReading where
  memAvailableBytes : ℤ
  memCapacityBytes : ℤ
  compressorPages : ℤ
  compressorPagesLimit : ℤ
  compressorSegments : ℤ
  compressorSegmentsLimit : ℤ
  swapUsedBytes : ℤ
  swapVolumeAvailableBytes : ℤ
  swapVolumeCapacityBytes : ℤ

structure HostStats extends HostReading where
  hold : MemoryHold
  swapPrev : ℤ
  swapPrevOK : Bool

/-- How a pressure level is read off bytes and ratios. -/
structure Levels (Level : Type) where
  ofBytes : ℤ → Level
  ratio : ℤ → ℤ → Level
  zero : Level

structure MemoryVerdict (Level : Type) where
  pressured : Bool
  signal : PressureSignal
  level : Level
  next : MemoryHold

def percentOf (n limit : ℤ) : Option ℤ :=
  if limit ≤ 0 then .none else some ((int64 (n * 100)).tdiv limit)

def memorySwapLeg (stats : HostStats) : Bool :=
  stats.swapPrevOK && decide (swapTripUsedBytes ≤ stats.swapUsedBytes) &&
    decide (stats.swapPrev < stats.swapUsedBytes)

def swapfsLeg (stats : HostStats) : Bool :=
  decide (0 < stats.swapVolumeCapacityBytes) &&
    decide (stats.swapVolumeAvailableBytes < swapfsFloor stats.memCapacityBytes)

def swapArm (stats : HostStats) : Bool := memorySwapLeg stats && swapfsLeg stats

def compressorAbove (test : ℤ → Bool) (stats : HostStats) : Bool :=
  (percentOf stats.compressorPages stats.compressorPagesLimit).any test ||
    (percentOf stats.compressorSegments stats.compressorSegmentsLimit).any test

def nextAvailable (stats : HostStats) : Bool :=
  decide (stats.memAvailableBytes < memAvailableHardEvictionBytes) ||
    (stats.hold.available && decide (stats.memAvailableBytes < memAvailableReleaseBytes))

def nextCompressor (stats : HostStats) : Bool :=
  compressorAbove (fun percent => decide (compressorTripPercent ≤ percent)) stats ||
    (stats.hold.compressor &&
      compressorAbove (fun percent => decide (compressorReleasePercent < percent)) stats)

def nextSwap (stats : HostStats) : Bool × ℕ :=
  if swapArm stats then (true, 0)
  else if stats.hold.swap then
    if stats.hold.swapCalm + 1 < swapReleaseCalmSamples then (true, stats.hold.swapCalm + 1)
    else (false, 0)
  else (false, 0)

section Levels

variable {Level : Type} [LinearOrder Level] (levels : Levels Level)

def ratioOf (n limit : ℤ) : Level := if limit ≤ 0 then levels.zero else levels.ratio n limit

def evaluateMemory (stats : HostStats) : MemoryVerdict Level :=
  let next : MemoryHold :=
    ⟨nextAvailable stats, nextCompressor stats, (nextSwap stats).1, (nextSwap stats).2⟩
  if next.available then
    ⟨true, .memoryAvailable, levels.ofBytes (-stats.memAvailableBytes), next⟩
  else if next.compressor then
    ⟨true, .compressor,
      max (ratioOf levels stats.compressorPages stats.compressorPagesLimit)
        (ratioOf levels stats.compressorSegments stats.compressorSegmentsLimit), next⟩
  else if next.swap then ⟨true, .swapfs, levels.ofBytes stats.swapUsedBytes, next⟩
  else ⟨false, .none, levels.zero, next⟩

end Levels

def memAvailableElevatedBytes : ℤ := memAvailableReleaseBytes
def compressorElevatedPercent : ℤ := compressorTripPercent.tdiv 2
def swapElevatedUsedBytes : ℤ := swapTripUsedBytes.tdiv 2

def pressureElevated (stats : HostStats) : Bool :=
  decide (stats.memAvailableBytes < memAvailableElevatedBytes) ||
    compressorAbove (fun percent => decide (compressorElevatedPercent ≤ percent)) stats ||
    (decide (0 < stats.swapVolumeCapacityBytes) &&
      decide (swapElevatedUsedBytes ≤ stats.swapUsedBytes) &&
      decide (stats.swapVolumeAvailableBytes < 2 * swapfsFloor stats.memCapacityBytes))

def pressureCalmInterval : Time := 10 * second
def pressureFastInterval : Time := second
def pressureCalmSamplesToSlowDown : ℕ := 3

/-- `attempts` counts the samples that failed as well, `seq` those that did not. -/
structure PressureMonitor where
  snap : HostStats
  seq : ℕ
  attempts : ℕ
  lastOK : Time
  hold : MemoryHold
  fast : Bool
  calm : ℕ

def HostReading.none : HostReading := ⟨0, 0, 0, 0, 0, 0, 0, 0, 0⟩

def newPressureMonitor : PressureMonitor :=
  { snap := { HostReading.none with hold := .none, swapPrev := 0, swapPrevOK := false }
    seq := 0, attempts := 0, lastOK := 0, hold := .none, fast := false, calm := 0 }

section Monitor

variable {Level : Type} [LinearOrder Level] (levels : Levels Level) (monitor : PressureMonitor)

def PressureMonitor.interval : Time :=
  if monitor.fast then pressureFastInterval else pressureCalmInterval

/-- The snapshot with the history of the samples before it. -/
def PressureMonitor.stamp (reading : HostReading) : HostStats :=
  { reading with
    hold := monitor.hold
    swapPrev := monitor.snap.swapUsedBytes
    swapPrevOK := decide (0 < monitor.seq) }

/-- A sample that succeeds; `budgetHeld` is whether a rung of the node's budget is held. -/
def PressureMonitor.sampled (reading : HostReading) (budgetHeld : Bool) (now : Time) :
    PressureMonitor :=
  let stats := monitor.stamp reading
  let verdict := evaluateMemory levels stats
  let raised := verdict.pressured || pressureElevated stats || budgetHeld
  let slows := monitor.fast && decide (pressureCalmSamplesToSlowDown ≤ monitor.calm + 1)
  { snap := stats
    seq := monitor.seq + 1
    attempts := monitor.attempts + 1
    lastOK := now
    hold := verdict.next
    fast := raised || monitor.fast && !slows
    calm := if raised || slows then 0 else if monitor.fast then monitor.calm + 1 else monitor.calm }

def PressureMonitor.failed : PressureMonitor := { monitor with attempts := monitor.attempts + 1 }

def PressureMonitor.sampleAge (now : Time) : Time :=
  if monitor.seq = 0 then 0 else now - monitor.lastOK

end Monitor

end K3sm.Eviction
