import K3sm.Updatectl.Cluster

/-!
# The roll

A pass over the Update walks the planned nodes in order and takes the first that is not through as
far as it goes now: it cordons the node, drains it, hands it the release, and then waits for the
node to report Done, to run the release and to stay Ready.
-/

namespace K3sm.Updatectl

open K3sm.Core K3sm.Core.Filepath

def settlePeriod : Time := 60

def resolveBound : Time := 600

def maxNodes : ℕ := 64

/-- The part of `Config` the roll reads. -/
structure Config where
  serverNode : Str
  drainTimeout : Time
  nodeTimeout : Time
  assetURL : Str → Option Str

def order (serverNode : Str) (nodes : List Node) : List Node :=
  let byName := fun nodes : List Node => nodes.insertionSort fun left right =>
    left.name ≤ right.name
  let others := nodes.filter fun node => node.name != serverNode
  byName (others.filter fun node => !node.server) ++ byName (others.filter Node.server) ++
    ((nodes.filter fun node => node.name == serverNode).getLast?).toList

inductive PlanError where
  | unusableTag
  | noNodes
  | tooManyNodes
  | drainNeedsAnotherNode
  | downgrade (node : Str)
  deriving DecidableEq

def plan (config : Config) (spec : Spec) (nodes : List Node) : Except PlanError (List Entry) :=
  if validTag spec.version = false then .error .unusableTag
  else if nodes.length = 0 then .error .noNodes
  else if maxNodes < nodes.length then .error .tooManyNodes
  else if spec.drain = true ∧ nodes.length = 1 then .error .drainNeedsAnotherNode
  else
    let ordered := order config.serverNode nodes
    match (if spec.allowDowngrade then none else
        ordered.find? fun node => isDowngrade (fromRelease node.kubeletVersion) spec.version) with
    | some node => .error (.downgrade node.name)
    | none => .ok (ordered.map fun node => {
        name := node.name, from' := fromRelease node.kubeletVersion, to' := spec.version
        phase := .pending, startedAt := none, finishedAt := none })

/-- An error of `advance`: a call failed, or the roll has to fail.  `pin` says that the
Failed condition's reason is ReleasePinMismatch. -/
inductive AdvanceError where
  | transient
  | rollFailure (pin : Bool)
  deriving DecidableEq

/-- What `advance` leaves: the entry, what is recorded of the release, and its error. -/
structure Advanced where
  entry : Entry
  resolution : Resolution
  error : Option AdvanceError

section Advance

variable (config : Config) (update : Update) (now : Time)

def setResolved (condition : Option (Bool × Time)) (status : Bool) : Option (Bool × Time) :=
  match condition with
  | some (old, since) => if old = status then some (old, since) else some (status, now)
  | none => some (status, now)

/-- What `ensureResolved` makes of the resolver's answer. -/
def afterResolve (resolution : Resolution) : ResolveAnswer → Resolution × Option AdvanceError
  | .release sha256 pinned =>
    if isSHA256Hex sha256 = false then (resolution, some (.rollFailure false))
    else if update.spec.pinRequired.isSome ∧ pinned = false then
      ({ resolution with condition := setResolved now resolution.condition false },
        some (.rollFailure true))
    else
      ({ resolved := some ⟨update.spec.version, sha256⟩
         condition := setResolved now resolution.condition true }, none)
  | .pinMismatch =>
    ({ resolution with condition := setResolved now resolution.condition false },
      some (.rollFailure true))
  | .errRelease => (resolution, some (.rollFailure false))
  | .transient =>
    ({ resolution with condition := setResolved now resolution.condition false },
      match resolution.condition with
      | some (false, since) =>
        if resolveBound < now - since then some (.rollFailure false) else some .transient
      | _ => some .transient)

def ensureResolved (resolution : Resolution) : Act (Resolution × Option AdvanceError) :=
  if resolution.resolved.any fun resolved =>
      resolved.version == update.spec.version && resolved.digest != [] then
    return (resolution, none)
  else if update.spec.pinRequired.any fun pinned => pinned != update.spec.version then
    return afterResolve update now resolution .pinMismatch
  else do
    let answer ← call (.resolve update.spec.version)
    return afterResolve update now resolution answer

/-- `payload`: rebuilt from the recorded release. -/
def payload (resolution : Resolution) : Option Payload :=
  match resolution.resolved, config.assetURL update.spec.version with
  | some resolved, some url => some {
      version := update.spec.version, url := url, sha256 := resolved.digest
      signature := if update.spec.signature = [] then ['I', 'f', 'S', 'i', 'g', 'n', 'e', 'd']
        else update.spec.signature
      allowDowngrade := update.spec.allowDowngrade }
  | _, _ => none

-- `work` is the pass's copy of `status.nodes` with the entry as it stands.
variable (work : Entry → List Entry)

/-- `handover`: `none` when a step of it failed. -/
def handover (resolution : Resolution) (entry : Entry) (node : Node) : Act (Option Node) :=
  match payload config update resolution with
  | none => return none
  | some payload => do
    match ← call (.sign payload) with
    | none => return none
    | some (sig, signer) =>
      call (.patch node.name (.handover update.uid payload sig signer now) (work entry))

def cordon (entry : Entry) (node : Node) : Act (Option Node) :=
  if node.unschedulable then return some node
  else call (.patch node.name .cordon (work entry))

/-- `release`: the cordon is lifted when it is marked as the controller's. -/
def release (entry : Entry) (node : Node) : Act (Option Node) :=
  call (.patch node.name (.release node.marked) (work entry))

def Entry.finish (entry : Entry) (phase : NodePhase) : Entry :=
  { entry with phase := phase, finishedAt := some now }

def expire (handedAt : Time) (entry : Entry) : Entry :=
  if config.nodeTimeout < now - handedAt then entry.finish now .failed else entry

def settled (resolution : Resolution) (entry : Entry) (node : Node) (handedAt readyAt : Time) :
    Act Advanced := do
  if settlePeriod ≤ now - readyAt then
    match ← release work entry node with
    | none => return ⟨entry, resolution, some .transient⟩
    | some _ =>
      return ⟨{ entry.finish now .done with to' := update.spec.version }, resolution, none⟩
  else return ⟨expire config now handedAt entry, resolution, none⟩

/-- The node is done and Ready: the settle starts, or goes on. -/
def settle (resolution : Resolution) (entry : Entry) (node : Node) (handedAt : Time) :
    Act Advanced := do
  match annotationTime node.annotations.readyAt with
  | some readyAt => settled config update now work resolution entry node handedAt readyAt
  | none =>
    match ← call (.patch node.name (.settle now) (work entry)) with
    | none => return ⟨entry, resolution, some .transient⟩
    | some node => settled config update now work resolution entry node handedAt now

/-- The node is done and not Ready: the settle starts over. -/
def unsettle (resolution : Resolution) (entry : Entry) (node : Node) (handedAt : Time) :
    Act Advanced := do
  if node.annotations.readyAt.isSome then
    match ← call (.patch node.name .unsettle (work entry)) with
    | none => return ⟨entry, resolution, some .transient⟩
    | some _ => return ⟨expire config now handedAt entry, resolution, none⟩
  else return ⟨expire config now handedAt entry, resolution, none⟩

def observe (resolution : Resolution) (entry : Entry) (node : Node) : Act Advanced :=
  let handedAt := (annotationTime node.annotations.handedOverAt).getD (entry.startedAt.getD now)
  match node.reported with
  | .failed => return ⟨entry.finish now .failed, resolution, none⟩
  | .done =>
    if onTarget node.kubeletVersion update.spec.version then
      if node.ready then settle config update now work resolution entry node handedAt
      else unsettle config now work resolution entry node handedAt
    else return ⟨expire config now handedAt entry, resolution, none⟩
  | phase =>
    let entry := if nodeSidePhase phase then { entry with phase := phase } else entry
    return ⟨expire config now handedAt entry, resolution, none⟩

/-- The node has been handed the release, or is handed it again when someone moved the
request. -/
def watch (resolution : Resolution) (entry : Entry) (node : Node) : Act Advanced := do
  if nodeSidePhase entry.phase = false then return ⟨entry, resolution, some .transient⟩
  else if node.annotations.updateVersion = some update.spec.version then
    observe config update now work resolution entry node
  else
    match ← handover config update now work resolution entry node with
    | none => return ⟨entry, resolution, some .transient⟩
    | some node => observe config update now work resolution entry node

def handOverAndWatch (resolution : Resolution) (entry : Entry) (node : Node) : Act Advanced := do
  match ← handover config update now work resolution entry node with
  | none => return ⟨entry, resolution, some .transient⟩
  | some node =>
    watch config update now work resolution { entry with phase := .downloading } node

def drainAndHandOver (resolution : Resolution) (entry : Entry) (node : Node) : Act Advanced := do
  match ← call (.drain node.name) with
  | none => return ⟨entry, resolution, some .transient⟩
  | some (remaining, bare) =>
    if bare ≠ [] then return ⟨entry.finish now .failed, resolution, none⟩
    else if remaining ≠ [] then
      if config.drainTimeout < now - entry.startedAt.getD now then
        return ⟨entry.finish now .failed, resolution, none⟩
      else return ⟨entry, resolution, none⟩
    else handOverAndWatch config update now work resolution entry node

def hold (resolution : Resolution) (entry : Entry) (node : Node) : Act Advanced := do
  if update.spec.cancel then
    match ← release work entry node with
    | none => return ⟨entry, resolution, some .transient⟩
    | some _ => return ⟨entry.finish now .cancelled, resolution, none⟩
  else
    match ← cordon work entry node with
    | none => return ⟨entry, resolution, some .transient⟩
    | some node =>
      if update.spec.drain = false ∨ node.name = config.serverNode then
        handOverAndWatch config update now work resolution entry node
      else
        drainAndHandOver config update now work resolution { entry with phase := .draining } node

def isPending (phase : NodePhase) : Bool := phase == .unset || phase == .pending

def proceed (resolution : Resolution) (entry : Entry) (node : Option Node) : Act Advanced :=
  match node with
  | none => return ⟨entry.finish now .failed, resolution, none⟩
  | some node =>
    let entry := { entry with startedAt := some (entry.startedAt.getD now) }
    if entry.phase = .cordoning ∨ entry.phase = .draining then
      hold config update now work resolution entry node
    else watch config update now work resolution entry node

def advance (resolution : Resolution) (entry : Entry) (node : Option Node) : Act Advanced := do
  if isPending entry.phase then
    match node with
    | none => return ⟨entry.finish now .failed, resolution, none⟩
    | some node =>
      if onTarget node.kubeletVersion update.spec.version then
        return ⟨entry.finish now .skipped, resolution, none⟩
      else
        let (resolution, error) ← ensureResolved update now resolution
        match error with
        | some error => return ⟨entry, resolution, some error⟩
        | none =>
          proceed config update now work resolution { entry with
            from' := fromRelease node.kubeletVersion, startedAt := some now
            phase := .cordoning } (some node)
  else proceed config update now work resolution entry node

end Advance

structure Rolled where
  nodes : List Entry
  resolution : Resolution
  reason : Reason

def cancelFrom (entries : List Entry) : List Entry :=
  entries.map fun entry =>
    if isPending entry.phase then { entry with phase := .cancelled } else entry

section Pass

variable (config : Config) (update : Update) (now : Time)

/-- The loop of `roll`; `front` are the entries it has passed. -/
def rollEntries (nodes : List Node) (resolution : Resolution) (front : List Entry) :
    List Entry → Act Rolled
  | [] => return ⟨front, resolution, .succeeded⟩
  | entry :: rest =>
    if entry.phase = .done ∨ entry.phase = .skipped ∨ entry.phase = .cancelled then
      rollEntries nodes resolution (front ++ [entry]) rest
    else if entry.phase = .failed then return ⟨front ++ entry :: rest, resolution, .failed⟩
    else if isPending entry.phase = true ∧ update.spec.cancel = true then
      return ⟨front ++ cancelFrom (entry :: rest), resolution, .cancelled⟩
    else do
      let node := nodes.find? fun node => node.name == entry.name
      let result ← advance config update now (fun entry => front ++ entry :: rest) resolution
        entry node
      match result.error with
      | some (.rollFailure _) =>
        return ⟨front ++ result.entry :: rest, result.resolution, .failed⟩
      | some .transient =>
        return ⟨front ++ result.entry :: rest, result.resolution, .retrying⟩
      | none =>
        match result.entry.phase with
        | .done | .skipped =>
          rollEntries nodes result.resolution (front ++ [result.entry]) rest
        | .failed => return ⟨front ++ result.entry :: rest, result.resolution, .failed⟩
        | .cancelled =>
          return ⟨front ++ result.entry :: cancelFrom rest, result.resolution, .cancelled⟩
        | _ => return ⟨front ++ result.entry :: rest, result.resolution, .rolling⟩

def Status.ended (rolled : Rolled) : Status where
  nodes := rolled.nodes
  resolution := rolled.resolution
  progressing := some ⟨rolled.reason == .rolling || rolled.reason == .retrying, rolled.reason⟩
  phase := match rolled.reason with
    | .rolling | .retrying =>
      if rolled.nodes.any fun entry => !isPending entry.phase then .rolling else .pending
    | .succeeded => .succeeded
    | .failed => .failed
    | .cancelled => .cancelled

def roll : Act Status := do
  if finished update.status then return update.status
  else
    match ← call (.listNodes now) with
    | none => return Status.ended ⟨update.status.nodes, update.status.resolution, .retrying⟩
    | some nodes =>
      if update.status.nodes = [] then
        match plan config update.spec nodes with
        | .error _ => return Status.ended ⟨[], update.status.resolution, .failed⟩
        | .ok planned =>
          let rolled ← rollEntries config update now nodes update.status.resolution [] planned
          return Status.ended rolled
      else
        let rolled ← rollEntries config update now nodes update.status.resolution []
          update.status.nodes
        return Status.ended rolled

/-- Whether a finished Update accounts for what the node carries. -/
def accountsFor (update : Update) (node : Node) : Bool :=
  match update.status.nodes.find? fun entry => entry.name == node.name with
  | none => false
  | some entry =>
    (entry.phase == .failed && endedAs update.status .failed) ||
    (entry.phase == .done && node.annotations.updateVersion == some update.spec.version)

def orphaned (current : Option Update) (node : Node) : Bool :=
  node.annotations != Annotations.none && !current.any fun update => accountsFor update node

/-- `releaseOrphan` for each node that has some; an error does not stop the others. -/
def releaseEach (current : Option Update) : List Node → Act Unit
  | [] => return ()
  | node :: nodes => do
    if orphaned current node then
      let _ ← call (.patch node.name
        (.orphan node.annotations (node.marked && node.unschedulable)) [])
      releaseEach current nodes
    else releaseEach current nodes

/-- `releaseOrphans`: a live roll is left alone. -/
def releaseOrphans (current : Option Update) : Act Unit := do
  if current.any fun update => !finished update.status then return ()
  else
    match ← call .listOrphans with
    | none => return ()
    | some nodes => releaseEach current nodes

end Pass

/-- `reconcile`: one pass at a time of the clock. -/
def reconcile (config : Config) (now : Time) : Act Unit := do
  match ← call .listUpdates with
  | none => return ()
  | some none => releaseOrphans none
  | some (some update) =>
    let status ← roll config update now
    let written ← call (.writeStatus update status)
    if written then releaseOrphans (some { update with status := status })
    else return ()

/-- A step of a run: someone's change, or a pass with what happens while it runs.  A
pass whose events end before it does was cut off by a restart. -/
inductive Step where
  | change (change : Change)
  | pass (now : Time) (events : List (Event Change Outcome))

def next (config : Config) (world : World) : Step → World
  | .change change => world.change change
  | .pass now events => (play api (reconcile config now) world events).2

def after (config : Config) (world : World) (steps : List Step) : World :=
  steps.foldl (next config) world

end K3sm.Updatectl
