import K3sm.Core.Threads

/-!
# The calls of one pod UID

`CreatePod` and its repeats, the retries of a parked create, the worker that waits for the pod's
claims, `UpdatePod`, `DeletePod`, the orphan reaper and the compensating delete all work on one
UID, each in sections under a lock with runtime calls in between.  A turn is one section, or the
end of one runtime call: a create registers its guest when it finishes, and a delete of a guest
that is not registered succeeds without effect.
-/

namespace K3sm.Provider.PodCalls

open K3sm.Core

/-- `podTrack`, as far as these calls read it.  `waiting` is whether the worker that waits
for the claims has yet to return. -/
structure Track where
  deleting : Bool := false
  parked : Bool := false
  rejected : Bool := false
  claims : Bool := false
  waiting : Bool := false
  landedBehindDelete : Bool := false
  deriving DecidableEq

/-- `owedDelete`; a track is known by its number. -/
structure OwedDelete where
  owned : Option ℕ
  refusal : Bool
  deriving DecidableEq

/-- What the provider and the runtime hold of the UID.  `live` is the UID's entry in the
provider's map of tracks, and `torn` remembers that a teardown has succeeded. -/
structure PodState (Uid : Type) where
  guest : Bool
  live : Option ℕ
  tracks : List Track
  held : Bool
  admitting : ℕ
  updating : ℕ
  deleteInRPC : ℕ
  deleteOwed : Option OwedDelete
  fenceReleasing : Bool
  compensating : Option Bool
  compensateAgain : Bool
  tombstones : List Uid
  tornDown : List Uid
  torn : Bool

def uidTombstoneCap : ℕ := 1024

section Sections

variable {Uid : Type}

/-- `uidTombstones.add`, the newest first. -/
def addTombstone [DecidableEq Uid] (uid : Uid) (tombstones : List Uid) : List Uid :=
  if uid ∈ tombstones then tombstones else (uid :: tombstones).take uidTombstoneCap

namespace PodState

def track (state : PodState Uid) (number : ℕ) : Track := state.tracks.getD number {}

def setTrack (state : PodState Uid) (number : ℕ) (change : Track → Track) : PodState Uid :=
  { state with tracks := state.tracks.modify number change }

def install (state : PodState Uid) (track : Track) : PodState Uid :=
  { state with tracks := state.tracks ++ [track], live := some state.tracks.length }

def markDeleting (state : PodState Uid) (number : ℕ) : PodState Uid :=
  state.setTrack number fun track => { track with deleting := true }

/-- `inFlightLocked`. -/
def inFlight (state : PodState Uid) : Bool :=
  decide (state.admitting ≠ 0) || decide (state.updating ≠ 0) ||
    decide (state.compensating = some true)

def publishFenceRelease (state : PodState Uid) : PodState Uid :=
  { state with held := false, fenceReleasing := true }

def refused (state : PodState Uid) : Bool :=
  state.live.any fun number => (state.track number).rejected

def claimFenceRelease (state : PodState Uid) : Option (Option OwedDelete) × PodState Uid :=
  if state.inFlight || state.fenceReleasing then (none, state)
  else
    match state.deleteOwed with
    | some owed =>
      if state.refused && !state.held then
        (none,
          { state with
            deleteOwed := none
            live := if owed.owned = none ∨ owed.owned = state.live then none else state.live })
      else (some (some owed), { state with deleteOwed := none }.publishFenceRelease)
    | none =>
      if state.refused && state.held then (some none, state.publishFenceRelease)
      else (none, state)

def forgetTorndown (state : PodState Uid) (owned : Option ℕ) : PodState Uid :=
  if owned = none ∨ state.live = owned ∨
      (state.live.any fun number => (state.track number).landedBehindDelete) = true then
    { state with live := none }
  else state

def withdrawRefusal (state : PodState Uid) (number : ℕ) : PodState Uid :=
  match state.deleteOwed with
  | some { owned := owned, refusal := true } =>
    { state with
      deleteOwed := none
      live := if state.live = owned then some number else state.live }
  | _ => state

def deleteBegun (state : PodState Uid) (number : ℕ) : Bool :=
  (state.deleteOwed.any fun owed => !owed.refusal) || (state.track number).deleting ||
    decide (state.deleteInRPC ≠ 0) || state.live.any fun live => (state.track live).deleting

def createBehindDelete (state : PodState Uid) (number : ℕ) : Bool × PodState Uid :=
  if state.deleteBegun number then
    (true, state.setTrack number fun track => { track with landedBehindDelete := true })
  else (false, state.withdrawRefusal number)

def untrackRejectedCreate (state : PodState Uid) (number : ℕ) : Bool × PodState Uid :=
  let replaced := state.live.isSome && decide (state.live ≠ some number)
  let owed := state.deleteOwed.isSome
  let left := owed || decide (state.updating ≠ 0) || state.fenceReleasing
  let after : PodState Uid :=
    if replaced || owed then state
    else if left then { state with deleteOwed := some { owned := some number, refusal := true } }
    else if state.live = some number then { state with live := none }
    else state
  if !replaced && !left then (true, after.publishFenceRelease) else (false, after)

/-- `compensateLateCreate`, with whether it starts the delete's loop. -/
def compensateLateCreate (state : PodState Uid) : Bool × PodState Uid :=
  match state.compensating with
  | some _ => (false, { state with compensateAgain := true })
  | none => (true, { state with compensating := some true })

def createIsStale [DecidableEq Uid] (uid : Uid) (state : PodState Uid) : Bool :=
  state.compensating.isSome || decide (uid ∈ state.tornDown)

def heldTrack (state : PodState Uid) (number : ℕ) : Bool :=
  decide (state.live = some number) && (state.track number).claims

def updateWaits (state : PodState Uid) : Bool :=
  !state.refused && (state.fenceReleasing || state.live.isNone && decide (state.admitting ≠ 0))

def updateStopped (state : PodState Uid) : Bool :=
  state.deleteOwed.isSome ||
    state.live.any fun number => (state.track number).rejected || (state.track number).deleting

/-- The terminal check of `checkUpdate`; `stamped` is whether the pod itself is terminal or
carries a deletion stamp. -/
def updateTerminal [DecidableEq Uid] (uid : Uid) (stamped : Bool) (state : PodState Uid) : Bool :=
  state.deleteOwed.isSome ||
    match state.live with
    | some number => (state.track number).rejected || (state.track number).deleting
    | none => stamped || decide (uid ∈ state.tombstones)

end PodState

end Sections

/-- The track that a delete quiesces: the one it found, the one it finds after the wait for
the claim worker, or the one the reaper owns. -/
inductive Quiesce
  | found
  | again
  | reaper
  deriving DecidableEq

/-- A call and where it stands.  A create of a claim worker carries its track; `old` is
whether a create has replaced one. -/
inductive PodCall
  | create (worker : Option ℕ)
  | admission (worker : Option ℕ)
  | admitted (worker : Option ℕ)
  | claims (worker : Option ℕ)
  | hold (worker : Option ℕ)
  | allocate (worker : Option ℕ)
  | creating (worker : Option ℕ) (number : ℕ) (old : Bool)
  | park (worker : Option ℕ) (number : ℕ)
  | rejected (worker : Option ℕ) (number : ℕ) (old : Bool)
  | untrack (worker : Option ℕ) (number : ℕ)
  | landed (worker : Option ℕ) (number : ℕ)
  | late (worker : Option ℕ)
  | createDone (worker : Option ℕ) (failed : Bool)
  | claimWait (number : ℕ)
  | workerBack (number : ℕ) (failed : Bool)
  | workerUntrack (number : ℕ)
  | workerEnd (number : ℕ)
  | retry (number : ℕ)
  | retryBegin (number : ℕ)
  | retrying (number : ℕ)
  | retryLanded (number : ℕ)
  | retryCommit (number : ℕ) (live : Option ℕ)
  | retryLate
  | update
  | updateCheck
  | updating (tracked : Option ℕ)
  | updateDone
  | delete
  | reap (number : ℕ)
  | mark (quiesce : Quiesce) (number : ℕ)
  | markWait (quiesce : Quiesce) (number : ℕ)
  | relive (number : ℕ)
  | judge (number : ℕ)
  | forgetRejected (number : ℕ)
  | teardown (owned : Option ℕ)
  | deleting (owned : Option ℕ)
  | deleteFailed
  | deleted (owned : Option ℕ)
  | forget (owned : Option ℕ)
  | reapHold
  | compensate
  | compensated
  | compensateEnd
  | releasing (owed : Option OwedDelete) (next : PodCall)
  | released (next : PodCall)
  | ended
  deriving DecidableEq

/-- What a call meets: it goes through, ends with an error, or with one though it took effect,
or the pod is refused, for an image that can be tried again or for good. -/
inductive Turnout
  | done
  | failed
  | unclear
  | refused
  | parkable
  deriving DecidableEq

section Act

variable {Uid : Type} [DecidableEq Uid] (uid : Uid)

abbrev Took (Uid : Type) := Taken (PodState Uid) PodCall

def goOn (state : PodState Uid) (call : PodCall) : Took Uid :=
  { shared := state, thread := call, started := [] }

/-- What follows a create: the worker that ran it, if one did. -/
def afterCreate (worker : Option ℕ) (failed : Bool) : PodCall :=
  match worker with
  | none => .ended
  | some number => .workerBack number failed

def orRelease (claimed : Option (Option OwedDelete) × PodState Uid) (next : PodCall) : Took Uid :=
  match claimed.1 with
  | some owed => goOn claimed.2 (.releasing owed next)
  | none => goOn claimed.2 next

def admitOnCreate (worker : Option ℕ) (turnout : Turnout) (state : PodState Uid) : Took Uid :=
  if state.fenceReleasing then
    if turnout = .failed then goOn state (afterCreate worker false)
    else goOn state (.admission worker)
  else if state.createIsStale uid then goOn state (afterCreate worker false)
  else
    match state.live with
    | some number =>
      if (state.track number).rejected then goOn state (afterCreate worker false)
      else goOn { state with admitting := state.admitting + 1 } (.admitted worker)
    | none =>
      if turnout = .refused ∧ state.admitting = 0 then
        orRelease (state.install { rejected := true }).claimFenceRelease (afterCreate worker false)
      else goOn { state with admitting := state.admitting + 1 } (.admitted worker)

/-- `holdForClaims`: a pod without a track gets a held one and its worker. -/
def holdForClaims (state : PodState Uid) (next : PodCall) : Took Uid :=
  match state.live with
  | some _ => goOn state next
  | none =>
    { shared := state.install { claims := true, waiting := true }
      thread := next
      started := [.claimWait state.tracks.length] }

/-- The check and the insert of `CreatePod`, in one section. -/
def insertTrack (worker : Option ℕ) (state : PodState Uid) : Took Uid :=
  if state.deleteOwed.isSome || state.refused then goOn state (.createDone worker false)
  else goOn (state.install {}) (.creating worker state.tracks.length state.live.isSome)

def startCompensation (compensated : Bool × PodState Uid) (next : PodCall) : Took Uid :=
  { shared := compensated.2
    thread := next
    started := if compensated.1 then [.compensate] else [] }

def commitParkedCreate (number : ℕ) (live : Option ℕ) (state : PodState Uid) : Took Uid :=
  if (state.track number).deleting then goOn state .retryLate
  else if live = some number then
    goOn (state.setTrack number fun track => { track with parked := false }) .updateDone
  else if live.isSome then goOn state .updateDone
  else goOn state .retryLate

def compensatingDeleteLanded (state : PodState Uid) : Took Uid :=
  if state.compensateAgain then goOn { state with compensateAgain := false } .compensate
  else
    match { state with compensating := some false }.claimFenceRelease with
    | (some owed, after) => goOn after (.releasing owed .compensateEnd)
    | (none, after) => goOn { after with compensating := none } .ended

/-- The end of a teardown whose runtime call has succeeded. -/
def tornDownNow (owned : Option ℕ) (state : PodState Uid) : Took Uid :=
  let after : PodState Uid :=
    { state with
      deleteInRPC := state.deleteInRPC - 1
      tombstones := addTombstone uid state.tombstones
      tornDown := addTombstone uid state.tornDown
      torn := true }
  if after.inFlight then
    goOn { after with deleteOwed := some { owned := owned, refusal := false } } .ended
  else goOn after (.forget owned)

def forgetRejectedNow (number : ℕ) (state : PodState Uid) : PodState Uid :=
  let after : PodState Uid := { state with tombstones := addTombstone uid state.tombstones }
  if after.updating ≠ 0 then
    { after with deleteOwed := some { owned := some number, refusal := false } }
  else if after.live = some number then { after with live := none }
  else after

/-- `claimUntrackedHoldLocked` and its release. -/
def reapUntrackedHold (state : PodState Uid) : Took Uid :=
  if state.inFlight || state.fenceReleasing || state.live.isSome || !state.held then
    goOn state .ended
  else
    goOn
      { state with
        tombstones := addTombstone uid state.tombstones
        tornDown := addTombstone uid state.tornDown }.publishFenceRelease
      (.releasing none .ended)

def act (turnout : Turnout) (state : PodState Uid) : PodCall → Took Uid
  -- CreatePod
  | .create worker =>
    if state.createIsStale uid then goOn state (afterCreate worker false)
    else goOn state (.admission worker)
  | .admission worker => admitOnCreate uid worker turnout state
  | .admitted worker => goOn { state with held := true } (.claims worker)
  | .claims worker =>
    if turnout = .refused ∧ (state.live.all fun number => (state.track number).claims) = true
    then goOn state (.hold worker)
    else goOn state (.allocate worker)
  | .hold worker => holdForClaims state (.createDone worker false)
  | .allocate worker =>
    if turnout = .failed then goOn state (.createDone worker true)
    else insertTrack worker state
  | .creating worker number old =>
    match turnout with
    | .done => goOn { state with guest := true } (.landed worker number)
    | .parkable => goOn state (.park worker number)
    | .refused => goOn state (.rejected worker number old)
    | .failed | .unclear => goOn state (.createDone worker true)
  | .park worker number =>
    goOn (state.setTrack number fun track => { track with parked := true })
      (.createDone worker false)
  | .rejected worker number old =>
    -- runtimeHoldsPod: a failed read says that the runtime may hold the pod
    if old ∧ (state.guest ∨ turnout = .failed) then goOn state (.createDone worker true)
    else goOn state (.untrack worker number)
  | .untrack worker number =>
    let (claimed, after) := state.untrackRejectedCreate number
    if claimed then goOn after (.releasing none (.createDone worker true))
    else goOn after (.createDone worker true)
  | .landed worker number =>
    let (behind, after) := state.createBehindDelete number
    if behind then goOn after (.late worker) else goOn after (.createDone worker false)
  | .late worker => startCompensation state.compensateLateCreate (.createDone worker false)
  | .createDone worker failed =>
    orRelease { state with admitting := state.admitting - 1 }.claimFenceRelease
      (afterCreate worker failed)
  -- the worker of a pod held for its claims
  | .claimWait number =>
    if turnout = .failed ∨ state.heldTrack number = false then goOn state (.workerEnd number)
    else if turnout = .refused then holdForClaims state (.claimWait number)
    else goOn state (.create (some number))
  | .workerBack number failed =>
    if failed then
      if state.live = some number then goOn state (.workerUntrack number)
      else goOn state (.workerEnd number)
    else if state.heldTrack number then goOn state (.claimWait number)
    else goOn state (.workerEnd number)
  | .workerUntrack number =>
    let (claimed, after) := state.untrackRejectedCreate number
    if claimed then goOn after (.releasing none (.workerEnd number))
    else goOn after (.workerEnd number)
  | .workerEnd number =>
    goOn (state.setTrack number fun track => { track with waiting := false }) .ended
  -- retryParkedCreate
  | .retry number =>
    if (state.track number).parked then goOn state (.retryBegin number) else goOn state .ended
  | .retryBegin number =>
    if state.deleteOwed.isSome || (state.track number).deleting then goOn state .ended
    else goOn { state with updating := state.updating + 1 } (.retrying number)
  | .retrying number =>
    if turnout = .done then goOn { state with guest := true } (.retryLanded number)
    else goOn state .updateDone
  | .retryLanded number =>
    let after := if (state.track number).deleting then state else state.withdrawRefusal number
    goOn after (.retryCommit number after.live)
  | .retryCommit number live => commitParkedCreate number live state
  | .retryLate => startCompensation state.compensateLateCreate .updateDone
  -- UpdatePod
  | .update => goOn { state with updating := state.updating + 1 } .updateCheck
  | .updateCheck =>
    if turnout = .failed then goOn state .updateDone
    else if state.updateWaits then goOn state .updateCheck
    else if state.updateTerminal uid (decide (turnout = .refused)) then goOn state .updateDone
    else goOn { state with held := true } (.updating state.live)
  | .updating tracked =>
    -- an edited image is tried at once, beside a retry that its schedule has out
    { shared := state
      thread := .updateDone
      started :=
        if turnout = .done ∧ state.updateStopped = false then tracked.toList.map .retry
        else [] }
  | .updateDone =>
    orRelease { state with updating := state.updating - 1 }.claimFenceRelease .ended
  -- DeletePod and the reaper
  | .delete =>
    match state.live with
    | none => goOn state (.teardown none)
    | some number => goOn state (.mark .found number)
  | .reap number =>
    if state.live ≠ some number then goOn state .ended
    else if (state.track number).rejected then goOn state (.forgetRejected number)
    else goOn state (.mark .reaper number)
  | .mark quiesce number => goOn (state.markDeleting number) (.markWait quiesce number)
  | .markWait quiesce number =>
    if (state.track number).waiting then goOn state (.markWait quiesce number)
    else
      match quiesce with
      | .found => goOn state (.relive number)
      | .again => goOn state (.judge number)
      | .reaper => goOn state (.teardown (some number))
  | .relive number =>
    match state.live with
    | some live =>
      if live ≠ number then goOn state (.mark .again live) else goOn state (.judge number)
    | none => goOn state (.judge number)
  | .judge number =>
    if (state.track number).rejected then goOn state (.forgetRejected number)
    else goOn state (.teardown none)
  | .forgetRejected number => goOn (forgetRejectedNow uid number state) .ended
  | .teardown owned =>
    goOn { state with deleteInRPC := state.deleteInRPC + 1 } (.deleting owned)
  | .deleting owned =>
    match turnout with
    | .done => goOn { state with guest := false } (.deleted owned)
    | .unclear => goOn { state with guest := false } .deleteFailed
    | .failed | .refused | .parkable => goOn state .deleteFailed
  | .deleteFailed => goOn { state with deleteInRPC := state.deleteInRPC - 1 } .ended
  | .deleted owned => tornDownNow uid owned state
  | .forget owned => goOn (state.forgetTorndown owned) .ended
  | .reapHold => reapUntrackedHold uid state
  -- runCompensatingDelete
  | .compensate =>
    match turnout with
    | .done => goOn { state with guest := false } .compensated
    | .unclear => goOn { state with guest := false } .compensate
    | .failed | .refused | .parkable => goOn state .compensate
  | .compensated => compensatingDeleteLanded state
  | .compensateEnd => goOn { state with compensating := none, compensateAgain := false } .ended
  -- fenceRelease
  | .releasing owed next =>
    match owed with
    | some owed => goOn (state.forgetTorndown owed.owned) (.released next)
    | none => goOn state (.released next)
  | .released next => orRelease { state with fenceReleasing := false }.claimFenceRelease next
  | .ended => goOn state .ended

/-- The calls that start from outside: those of Virtual Kubelet, the pull schedules and the
reaper. -/
def entry : PodCall → Bool
  | .create none | .retry _ | .update | .delete | .reap _ | .reapHold => true
  | _ => false

inductive Elsewhere (Uid : Type)
  | tornDown (other : Uid)
  | forgotten (other : Uid)

def elsewhere (change : Elsewhere Uid) (state : PodState Uid) : PodState Uid :=
  match change with
  | .tornDown other =>
    { state with
      tombstones := addTombstone other state.tombstones
      tornDown := addTombstone other state.tornDown }
  | .forgotten other => { state with tombstones := addTombstone other state.tombstones }

abbrev PodSystem (Uid : Type) := Threads (PodState Uid) PodCall

abbrev PodMove (Uid : Type) := ThreadMove PodCall Turnout (Elsewhere Uid)

def next : PodSystem Uid → PodMove Uid → PodSystem Uid := Threads.next (act uid) elsewhere

end Act

def unknown (Uid : Type) : PodSystem Uid where
  shared :=
    { guest := false
      live := none
      tracks := []
      held := false
      admitting := 0
      updating := 0
      deleteInRPC := 0
      deleteOwed := none
      fenceReleasing := false
      compensating := none
      compensateAgain := false
      tombstones := []
      tornDown := []
      torn := false }
  threads := []

end K3sm.Provider.PodCalls
