import K3sm.Core.Interaction

/-!
# Rotation of a container's log

The manager renames the current file to a name with the time of day, has the writer open the path
again, and at the next rotation compresses what it renamed and removes the oldest files over the
limit.  The writer goes on writing all the while, any call may fail, and the process may stop
between any two calls.
-/

namespace K3sm.Podlogs

open K3sm.Core

/-- The files of one log: `log`, `log.T`, `log.T.gz` and `log.T.tmp`. -/
inductive LogFile (Stamp : Type)
  | current
  | rotated (stamp : Stamp)
  | compressed (stamp : Stamp)
  | temporary (stamp : Stamp)
  deriving DecidableEq

/-- The descriptor of the writer follows its file through renames. -/
inductive Writer (Stamp : Type)
  | closed
  | on (file : LogFile Stamp)
  | unlinked
  deriving DecidableEq

section Files

variable {Stamp : Type}

def LogFile.key : LogFile Stamp → WithBot Stamp ×ₗ ℕ
  | .current => toLex (⊥, 0)
  | .rotated stamp => toLex (stamp, 0)
  | .compressed stamp => toLex (stamp, 1)
  | .temporary stamp => toLex (stamp, 2)

theorem LogFile.key_injective : Function.Injective (LogFile.key : LogFile Stamp → _) := by
  intro left right hkey
  cases left <;> cases right <;> simp_all [LogFile.key]

/-- The names sort as texts: by stamp, and for one stamp by suffix. -/
instance [LinearOrder Stamp] : LinearOrder (LogFile Stamp) :=
  LinearOrder.lift' LogFile.key LogFile.key_injective

def LogFile.archived : LogFile Stamp → Option Stamp
  | .rotated stamp => some stamp
  | .compressed stamp => some stamp
  | _ => none

end Files

section World

variable (Stamp : Type)

/-- A compressed file is given by the bytes in its archive.  `written` counts the bytes ever
written, and `evicted` has those the limit removed. -/
structure LogWorld where
  files : AList fun _ : LogFile Stamp => List ℕ
  writer : Writer Stamp
  written : ℕ
  evicted : List ℕ

inductive WriterChange
  | write
  | close
  | opens

inductive Removal
  | unused
  | excess
  | superseded
  | temporary
  deriving DecidableEq

inductive LogRequest
  | stat (file : LogFile Stamp)
  | glob
  | remove (removal : Removal) (file : LogFile Stamp)
  | openRead (file : LogFile Stamp)
  | create (file : LogFile Stamp)
  | copy (source target : LogFile Stamp)
  | close (file : LogFile Stamp)
  | rename (source target : LogFile Stamp)
  | now
  | reopenContainerLog

inductive Stat
  | found (size : ℕ)
  | notExist
  | failed

inductive Removed
  | removed
  | notExist
  | failed

variable {Stamp}

abbrev LogAnswer : LogRequest Stamp → Type
  | .stat _ => Stat
  | .glob => List (LogFile Stamp)
  | .remove _ _ => Removed
  | .now => Stamp
  | _ => Bool

inductive ReopenEffect
  | kept
  | closed
  | reopened

/-- How a call goes: whether it fails, how much a failed copy has copied, what the clock shows,
and what a failed reopen has done. -/
structure LogOutcome (Stamp : Type) where
  fails : Bool
  copied : ℕ
  stamp : Stamp
  effect : ReopenEffect

variable [LinearOrder Stamp] (world : LogWorld Stamp)

def LogWorld.content (file : LogFile Stamp) : List ℕ := (world.files.lookup file).getD []

/-- The bytes of the file are older than those of every other rotated file. -/
def LogWorld.Oldest (file : LogFile Stamp) : Prop :=
  ∀ other ∈ world.files.keys, other.archived.isSome → other ≠ file →
    ∀ byte ∈ world.content file, ∀ later ∈ world.content other, byte < later

instance (file : LogFile Stamp) : Decidable (world.Oldest file) := by
  unfold LogWorld.Oldest
  infer_instance

def LogWorld.reopened : LogWorld Stamp :=
  { world with
    files := if .current ∈ world.files then world.files else world.files.insert .current []
    writer := .on .current }

def LogWorld.change : WriterChange → LogWorld Stamp
  | .write =>
    match world.writer with
    | .closed => world
    | .on file =>
      { world with
        files := world.files.insert file (world.content file ++ [world.written])
        written := world.written + 1 }
    | .unlinked => { world with written := world.written + 1 }
  | .close => { world with writer := .closed }
  | .opens => if world.writer = .closed then world.reopened else world

def LogWorld.remove (removal : Removal) (file : LogFile Stamp) : LogWorld Stamp :=
  { world with
    files := world.files.erase file
    writer := if world.writer = .on file then .unlinked else world.writer
    evicted :=
      if removal = .excess ∧ world.Oldest file then world.evicted ++ world.content file
      else world.evicted }

def LogWorld.rename (source target : LogFile Stamp) : LogWorld Stamp :=
  { world with
    files := (world.files.erase source).insert target (world.content source)
    writer :=
      if world.writer = .on source then .on target
      else if world.writer = .on target then .unlinked
      else world.writer }

def LogWorld.put (file : LogFile Stamp) (bytes : List ℕ) : LogWorld Stamp :=
  { world with files := world.files.insert file bytes }

def logHandle : (request : LogRequest Stamp) → LogOutcome Stamp → LogWorld Stamp →
    LogAnswer request × LogWorld Stamp
  | .stat file, outcome, world =>
    if outcome.fails then (.failed, world)
    else if file ∈ world.files then (.found (world.content file).length, world)
    else (.notExist, world)
  | .glob, _, world =>
    ((world.files.keys.filter fun file => file ≠ .current).insertionSort (· ≤ ·), world)
  | .remove removal file, outcome, world =>
    if outcome.fails then (.failed, world)
    else if file ∈ world.files then (.removed, world.remove removal file)
    else (.notExist, world)
  | .openRead _, outcome, world => (!outcome.fails, world)
  | .create file, outcome, world =>
    if outcome.fails then (false, world) else (true, world.put file [])
  | .copy source target, outcome, world =>
    if outcome.fails then (false, world.put target ((world.content source).take outcome.copied))
    else (true, world.put target (world.content source))
  | .close _, outcome, world => (!outcome.fails, world)
  | .rename source target, outcome, world =>
    if outcome.fails ∨ source ∉ world.files then (false, world)
    else (true, world.rename source target)
  | .now, outcome, world => (outcome.stamp, world)
  | .reopenContainerLog, outcome, world =>
    if outcome.fails then
      match outcome.effect with
      | .kept => (false, world)
      | .closed => (false, { world with writer := .closed })
      | .reopened => (false, world.reopened)
    else (true, world.reopened)

def logMachine : Machine (LogRequest Stamp) LogAnswer (LogWorld Stamp) WriterChange
    (LogOutcome Stamp) where
  change change world := world.change change
  handle := logHandle

end World

structure LogRotatePolicy where
  maxSize : ℕ
  maxFiles : ℕ

section Manager

variable {Stamp : Type} [LinearOrder Stamp]

abbrev LogProg (Stamp : Type) := Prog (LogRequest Stamp) LogAnswer

abbrev stat (file : LogFile Stamp) : LogProg Stamp Stat := Prog.ask (LogRequest.stat file)

abbrev remove (removal : Removal) (file : LogFile Stamp) : LogProg Stamp Removed :=
  Prog.ask (LogRequest.remove removal file)

def removeLogs (removal : Removal) : List (LogFile Stamp) → LogProg Stamp Bool
  | [] => pure true
  | file :: files => do
    match ← remove removal file with
    | .failed => pure false
    | _ => removeLogs removal files

def isInUse (file : LogFile Stamp) (logs : List (LogFile Stamp)) : Bool :=
  match file with
  | .temporary _ => false
  | .compressed _ => true
  | .rotated stamp => !logs.contains (.compressed stamp)
  | .current => true

def filterUnusedLogs (logs : List (LogFile Stamp)) : List (LogFile Stamp) × List (LogFile Stamp) :=
  (logs.filter fun file => isInUse file logs, logs.filter fun file => !isInUse file logs)

def cleanupUnusedLogs (logs : List (LogFile Stamp)) :
    LogProg Stamp (Option (List (LogFile Stamp))) := do
  if ← removeLogs .unused (filterUnusedLogs logs).2 then pure (some (filterUnusedLogs logs).1)
  else pure none

/-- The names in order, those to remove before those to keep. -/
def excessLogs (policy : LogRotatePolicy) (logs : List (LogFile Stamp)) :
    List (LogFile Stamp) × List (LogFile Stamp) :=
  (logs.insertionSort (· ≤ ·)).splitAt (logs.length - (policy.maxFiles - 2))

def removeExcessLogs (policy : LogRotatePolicy) (logs : List (LogFile Stamp)) :
    LogProg Stamp (Option (List (LogFile Stamp))) := do
  if ← removeLogs .excess (excessLogs policy logs).1 then pure (some (excessLogs policy logs).2)
  else pure none

def archiveLog (stamp : Stamp) : LogProg Stamp Bool := do
  if ← Prog.ask (.copy (.rotated stamp) (.temporary stamp)) then
    -- the archive's trailer, then the file
    if ← Prog.ask (.close (.temporary stamp)) then
      if ← Prog.ask (.close (.temporary stamp)) then
        if ← Prog.ask (.rename (.temporary stamp) (.compressed stamp)) then
          match ← remove .superseded (.rotated stamp) with
          | .removed => pure true
          | _ => pure false
        else pure false
      else pure false
    else pure false
  else pure false

def compressLog (stamp : Stamp) : LogProg Stamp Bool := do
  match ← stat (.rotated stamp) with
  | .found _ =>
    if ← Prog.ask (.openRead (.rotated stamp)) then
      if ← Prog.ask (.create (.temporary stamp)) then
        let succeeds ← archiveLog stamp
        -- deferred, however the rest has gone
        let _ ← remove .temporary (.temporary stamp)
        pure succeeds
      else pure false
    else pure false
  | _ => pure false

def compressLogs : List (LogFile Stamp) → LogProg Stamp Bool
  | [] => pure true
  | .rotated stamp :: files => do
    if ← compressLog stamp then compressLogs files else pure false
  | _ :: files => compressLogs files

def rotateLatestLog : LogProg Stamp Bool := do
  let stamp ← Prog.ask .now
  if ← Prog.ask (.rename .current (.rotated stamp)) then
    if ← Prog.ask .reopenContainerLog then pure true
    else
      let _ ← Prog.ask (.rename (.rotated stamp) .current)
      pure false
  else pure false

def rotateLog (policy : LogRotatePolicy) : LogProg Stamp Bool := do
  let logs ← Prog.ask .glob
  match ← cleanupUnusedLogs logs with
  | none => pure false
  | some inuse =>
    match ← removeExcessLogs policy inuse with
    | none => pure false
    | some kept => if ← compressLogs kept then rotateLatestLog else pure false

/-- The size of the current file, after a reopen when it was missing. -/
def statCurrent : LogProg Stamp (Option ℕ) := do
  match ← stat .current with
  | .found size => pure (some size)
  | .failed => pure none
  | .notExist =>
    if ← Prog.ask .reopenContainerLog then
      match ← stat .current with
      | .found size => pure (some size)
      | _ => pure none
    else pure none

def processContainer (policy : LogRotatePolicy) : LogProg Stamp Bool := do
  match ← statCurrent with
  | none => pure true
  | some size => if size < policy.maxSize then pure true else rotateLog policy

end Manager

section Node

variable {Stamp : Type} [LinearOrder Stamp] (policy : LogRotatePolicy)

/-- One container's log and the manager's work on it; the queue hands a container to one worker
at a time. -/
structure LogNode (Stamp : Type) where
  manager : LogProg Stamp Bool
  world : LogWorld Stamp

/-- The manager begins a pass, gets an answer or crashes, or the container writes. -/
inductive LogNodeEvent (Stamp : Type)
  | tick
  | crash
  | writer (change : WriterChange)
  | answer (outcome : LogOutcome Stamp)

def logNodeNext (node : LogNode Stamp) : LogNodeEvent Stamp → LogNode Stamp
  | .tick => if node.manager.ended then { node with manager := processContainer policy } else node
  | .crash => { node with manager := .done false }
  | .writer change => { node with world := node.world.change change }
  | .answer outcome =>
    match node.manager with
    | .done _ => node
    | .call request next =>
      { manager := next (logHandle request outcome node.world).1
        world := (logHandle request outcome node.world).2 }

def freshLogNode (Stamp : Type) : LogNode Stamp :=
  { manager := .done true
    world := { files := ∅, writer := .closed, written := 0, evicted := [] } }

end Node

end K3sm.Podlogs
