import K3sm.Updatectl.Cluster

/-!
# A node's update watcher

A daemon looks at its own Node, and when that asks for a release it does not run it verifies the
signed payload, fetches the archive and hands both to the root helper, writing each phase on the
Node before it goes on.  A write may be applied and its response lost, so every further try reads
the Node first.
-/

namespace K3sm.Update

open K3sm.Core K3sm.Core.Filepath
open K3sm.Updatectl (NodePhase Payload)

/-- A value of the phase annotation: the phase and the message after it. -/
abbrev Note := NodePhase × Str

/-- `unicode.IsControl`. -/
def isControl (char : Char) : Bool := char.toNat < 32 || (127 ≤ char.toNat && char.toNat < 160)

def cleanChar (char : Char) : Option Char :=
  if char = '\n' ∨ char = '\t' then some ' '
  else if isControl char || char.toNat == 0xfffd then none
  else some char

/-- `clipMessage`: at most that many bytes, at a rune boundary. -/
def clipMessage (limit : ℕ) : Str → Str
  | [] => []
  | char :: rest =>
    if char.utf8Size ≤ limit then char :: clipMessage (limit - char.utf8Size) rest else []

def maxMessageBytes : ℕ := 256

def formatPhase (phase : NodePhase) (message : Str) : Note :=
  (phase, clipMessage maxMessageBytes (trimSpace (message.filterMap cleanChar)))

def failRecovery : Str :=
  [';', ' ', 'r', 'e', 'c', 'o', 'v', 'e', 'r', ' ', 'w', 'i', 't', 'h', ' ', '\x60', 'k', '3', 's',
    'm', ' ', 'u', 'p', 'd', 'a', 't', 'e', ' ', 'a', 'b', 'o', 'r', 't', '\x60']

def lastLine (text : Str) : Str := trimSpace (((trimSpace text).splitOn '\n').getLastD [])

def installerMark : Str := [' ', '(', 'i', 'n', 's', 't', 'a', 'l', 'l', 'e', 'r', ':', ' ']

def failVerdict (message tail : Str) : Str :=
  let message := if lastLine tail = [] then message
    else message ++ installerMark ++ lastLine tail ++ [')']
  clipMessage (maxMessageBytes - failRecovery.length) message ++ failRecovery

/-- The update annotations of the daemon's own Node.  An absent one is empty, and an absent
phase is unset. -/
structure Node where
  version : Str
  payload : Str
  signature : Str
  signer : Str
  phase : Note
  deriving DecidableEq

def Node.blank : Node := ⟨[], [], [], [], (.unset, [])⟩

abbrev Key := Str × Str × Str

def handoverKey (node : Node) : Key := (node.version, node.payload, node.signature)

inductive WirePhase where
  | verifying
  | installing
  | restarting
  | done
  | failed
  | other
  deriving DecidableEq

/-- What became of `ApplyUpdate`: the phases it streamed and how it ended, with an error's
message and the installer's log. -/
structure Helped where
  frames : List WirePhase
  outcome : Except (Str × Str) WirePhase

inductive Refusal where
  | otherVersion (signed asked : Str)
  | downgrade (asked : Str)
  | digest (fetched signed : Str)
  deriving DecidableEq

/-- What the daemon is configured with.  `hostPin` and `older` are the checks of the
archive's host and of a downgrade against the running build. -/
structure Config where
  onTarget : Str → Bool
  hostPin : Str → Option Str
  older : Str → Bool
  refusal : Refusal → Str

/-- What a Watcher remembers between two calls of `Sync`. -/
structure Memory where
  tried : List Key
  owedFailed : List (Key × Str)
  resync : Bool
  deriving DecidableEq

def Memory.fresh : Memory := ⟨[], [], false⟩

def Memory.owed (memory : Memory) (key : Key) : Option Str :=
  (memory.owedFailed.find? (·.1 == key)).map Prod.snd

def Memory.forgive (memory : Memory) (key : Key) : Memory :=
  { memory with owedFailed := memory.owedFailed.filter (·.1 != key) }

def Memory.owe (memory : Memory) (key : Key) (verdict : Str) : Memory :=
  { memory with owedFailed := (key, verdict) :: memory.owedFailed }

def Memory.forget (memory : Memory) (key : Key) : Memory :=
  { memory with tried := memory.tried.filter (· != key) }

inductive Request where
  | getNode
  | getAgain
  | patchPhase (note : Note)
  | ready
  | verify (node : Node)
  | attemptDir
  | download (url : Str)
  | applyUpdate
  deriving DecidableEq

inductive Fetched where
  | failed
  | missing
  | found (node : Node)
  deriving DecidableEq

def Answer : Request → Type
  | .getNode | .getAgain => Fetched
  | .patchPhase _ => Bool
  | .ready => Bool
  | .verify _ => Except Str Payload
  | .attemptDir => Option Str
  | .download _ => Except Str Str
  | .applyUpdate => Helped

abbrev Act := Prog Request Answer

def call (request : Request) : Act (Answer request) := Prog.ask request

/-- How a phase write ends: done, out of its budget, or with the request moved. -/
inductive WriteEnd where
  | written
  | lost
  | moved
  deriving DecidableEq

/-- The waits of `writePhase`, in seconds: they double to a cap until they add up to the
budget. -/
def phaseWaits : ℕ → ℕ → ℕ → List ℕ
  | 0, _, _ => []
  | bound + 1, waited, delay =>
    if 300 ≤ waited then []
    else delay :: phaseWaits bound (waited + delay) (min (delay * 2) 15)

def waits : List ℕ := phaseWaits 300 0 1

example : waits.length = 23 ∧ waits.sum = 300 := by decide

def retryPhase (key : Key) (note : Note) : List ℕ → Act WriteEnd
  | [] => return .lost
  | _ :: waits => do
    match ← call .getAgain with
    | .missing => return .moved
    | .failed => retryPhase key note waits
    | .found node =>
      if handoverKey node ≠ key then return .moved
      else if node.phase = note then return .written
      else match ← call (.patchPhase note) with
        | true => return .written
        | false => retryPhase key note waits

def writePhase (key : Key) (note : Note) : Act WriteEnd := do
  match ← call (.patchPhase note) with
  | true => return .written
  | false => retryPhase key note waits

/-- What `Sync` returns: nothing, `errPhaseWriteLost`, or another error. -/
inductive SyncEnd where
  | ok
  | lost
  | error
  deriving DecidableEq

/-- The end of a write as the end of a `Sync`: a moved request drops the attempt. -/
def WriteEnd.sync : WriteEnd → SyncEnd
  | .written | .moved => .ok
  | .lost => .lost

def fail (memory : Memory) (key : Key) (message tail : Str) : Act (SyncEnd × Memory) := do
  match ← writePhase key (formatPhase .failed (failVerdict message tail)) with
  | .lost => return (.lost, memory.owe key (failVerdict message tail))
  | other => return (other.sync, memory)

/-- `phaseMirror.advance`: whether the phase is one that moves the node to Restarting. -/
def advances : WirePhase → Bool
  | .installing | .restarting | .done => true
  | _ => false

/-- The frames of the helper, each step forward written once. -/
def mirrorFrames (key : Key) : Bool → List WirePhase → Act Bool
  | restarting, [] => return restarting
  | restarting, frame :: frames => do
    if advances frame && !restarting then
      let _ ← writePhase key (formatPhase .restarting [])
      mirrorFrames key true frames
    else mirrorFrames key restarting frames

/-- What is written as the root helper goes and when it ends. -/
def afterHelper (memory : Memory) (key : Key) (helped : Helped) : Act (SyncEnd × Memory) := do
  let restarting ← mirrorFrames key false helped.frames
  match helped.outcome with
  | .error (message, tail) => fail memory key message tail
  | .ok phase =>
    if advances phase && !restarting then
      let wrote ← writePhase key (formatPhase .restarting [])
      return (wrote.sync, memory)
    else return (.ok, memory)

def install (memory : Memory) (key : Key) : Act (SyncEnd × Memory) := do
  let helped : Helped ← call .applyUpdate
  afterHelper memory key helped

def fetchAndInstall (config : Config) (memory : Memory) (key : Key) (payload : Payload) :
    Act (SyncEnd × Memory) := do
  match ← writePhase key (formatPhase .downloading []) with
  | .lost => return (.lost, memory)
  | .moved => return (.ok, memory)
  | .written =>
    match ← call (.download payload.url) with
    | .error message => fail memory key message []
    | .ok sum =>
      match ← writePhase key (formatPhase .verifying []) with
      | .lost => return (.lost, memory)
      | .moved => return (.ok, memory)
      | .written =>
        if sum ≠ payload.sha256 then
          fail memory key (config.refusal (.digest sum payload.sha256)) []
        else match ← writePhase key (formatPhase .installing []) with
          | .lost => return (.lost, memory)
          | .moved => return (.ok, memory)
          | .written => install memory key

def attempt (config : Config) (memory : Memory) (key : Key) (node : Node) :
    Act (SyncEnd × Memory) := do
  match ← call (.verify node) with
  | .error message => fail memory key message []
  | .ok payload =>
    if payload.version ≠ node.version then
      fail memory key (config.refusal (.otherVersion payload.version node.version)) []
    else match config.hostPin payload.url with
      | some message => fail memory key message []
      | none =>
        if config.older node.version && !payload.allowDowngrade then
          fail memory key (config.refusal (.downgrade node.version)) []
        else match ← call .attemptDir with
          | some message => fail memory key message []
          | none => fetchAndInstall config memory key payload

/-- An attempt of a handover that this process has not tried.  One whose write is lost is
forgotten, or every later `Sync` would stand aside for it. -/
def tryHandover (config : Config) (memory : Memory) (key : Key) (node : Node) :
    Act (SyncEnd × Memory) := do
  let (ended, memory) ← attempt config { memory with tried := key :: memory.tried } key node
  return (ended, if ended = .lost then memory.forget key else memory)

def resumable : NodePhase → Bool
  | .unset | .downloading | .verifying => true
  | _ => false

/-- The phase decides between an attempt and standing aside. -/
def resume (config : Config) (memory : Memory) (key : Key) (node : Node) : Act (SyncEnd × Memory) :=
  match node.phase.1 with
  | .unset => tryHandover config memory key node
  | .downloading | .verifying =>
    if key ∈ memory.tried then return (.ok, memory)
    else tryHandover config memory key node
  | _ => return (.ok, memory)

def deliver (memory : Memory) (key : Key) (verdict : Str) : Act (SyncEnd × Memory) := do
  match ← writePhase key (formatPhase .failed verdict) with
  | .written => return (.ok, memory.forgive key)
  | other => return (other.sync, memory)

def reportDone (memory : Memory) (key : Key) (node : Node) : Act (SyncEnd × Memory) := do
  if node.phase.1 = .done then return (.ok, memory)
  else match ← call .ready with
    | false => return (.ok, { memory with resync := true })
    | true =>
      let wrote ← writePhase key (formatPhase .done [])
      return (wrote.sync, memory)

def syncNode (config : Config) (memory : Memory) (node : Node) : Act (SyncEnd × Memory) :=
  if node.version = [] then return (.ok, memory)
  else if config.onTarget node.version then reportDone memory (handoverKey node) node
  else match memory.owed (handoverKey node) with
    | some verdict =>
      if node.phase.1 ≠ .unset ∧ node.phase.1 ≠ .failed then
        deliver memory (handoverKey node) verdict
      else resume config (memory.forgive (handoverKey node)) (handoverKey node) node
    | none => resume config memory (handoverKey node) node

/-- One pass of the watcher over the node object. -/
def sync (config : Config) (memory : Memory) : Act (SyncEnd × Memory) := do
  match ← call .getNode with
  | .found node => syncNode config { memory with resync := false } node
  | _ => return (.error, memory)

end K3sm.Update
