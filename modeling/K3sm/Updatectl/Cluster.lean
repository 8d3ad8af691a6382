import K3sm.Core.Interaction
import K3sm.Updatectl.Version

/-!
# The cluster as the update controller finds it

The controller reads and patches Nodes and keeps the roll in the status of one Update.  Nodes,
operators and clients of the API change the same objects at any time.  A call of the controller
takes effect and is answered, fails, or takes effect without its answer getting back.
-/

namespace K3sm.Updatectl

open K3sm.Core K3sm.Core.Filepath

abbrev Time := ℤ

/-- An annotation that holds a time: what `time.Parse` makes of it. -/
abbrev Stamp := Option Time

inductive NodePhase where
  | unset
  | pending
  | cordoning
  | draining
  | downloading
  | verifying
  | installing
  | restarting
  | done
  | failed
  | skipped
  | cancelled
  | other (text : Str)
  deriving DecidableEq

def nodeSidePhase : NodePhase → Bool
  | .downloading | .verifying | .installing | .restarting => true
  | _ => false

structure Payload where
  version : Str
  url : Str
  sha256 : Str
  signature : Str
  allowDowngrade : Bool
  deriving DecidableEq

/-- The update annotations of a Node.  `updatePhase` is what `parsePhase` makes of its
value, and `cordoned` whether its value is true. -/
structure Annotations where
  updateVersion : Option Str
  updatePayload : Option Payload
  payloadSig : Option Str
  signer : Option Str
  updatePhase : Option (NodePhase × Str)
  cordoned : Option Bool
  handedOverAt : Option Stamp
  readyAt : Option Stamp
  adminTokenRotatedAt : Option Str
  deriving DecidableEq

def Annotations.none : Annotations :=
  { updateVersion := .none, updatePayload := .none, payloadSig := .none, signer := .none
    updatePhase := .none, cordoned := .none, handedOverAt := .none, readyAt := .none
    adminTokenRotatedAt := .none }

/-- `server` is the control-plane label, `ready` whether the Ready condition is True. -/
structure Node where
  name : Str
  server : Bool
  kubeletVersion : Str
  ready : Bool
  unschedulable : Bool
  annotations : Annotations
  deriving DecidableEq

/-- Whether the controller has marked the node's cordon as its own. -/
def Node.marked (node : Node) : Bool := node.annotations.cordoned == some true

def annotationTime (stamp : Option Stamp) : Option Time := stamp.join

def Node.reported (node : Node) : NodePhase :=
  (node.annotations.updatePhase.map Prod.fst).getD .unset

/-- The merge patches of the controller, each with the values it carries.  `update`
says whose handover it is. -/
inductive Patch where
  | cordon
  | release (uncordon : Bool)
  | handover (update : ℕ) (payload : Payload) (sig signer : Str) (now : Time)
  | settle (now : Time)
  | unsettle
  | orphan (read : Annotations) (uncordon : Bool)
  deriving DecidableEq

def Patch.isHandover : Patch → Bool
  | .handover .. => true
  | _ => false

def Patch.uncordons : Patch → Bool
  | .release uncordon => uncordon
  | .orphan _ uncordon => uncordon
  | _ => false

/-- A key of `drop` goes, the others stay. -/
def dropKey {Value : Type} (drop kept : Option Value) : Option Value :=
  if drop.isSome then none else kept

def Annotations.drop (read kept : Annotations) : Annotations where
  updateVersion := dropKey read.updateVersion kept.updateVersion
  updatePayload := dropKey read.updatePayload kept.updatePayload
  payloadSig := dropKey read.payloadSig kept.payloadSig
  signer := dropKey read.signer kept.signer
  updatePhase := dropKey read.updatePhase kept.updatePhase
  cordoned := dropKey read.cordoned kept.cordoned
  handedOverAt := dropKey read.handedOverAt kept.handedOverAt
  readyAt := dropKey read.readyAt kept.readyAt
  adminTokenRotatedAt := dropKey read.adminTokenRotatedAt kept.adminTokenRotatedAt

def Patch.apply (node : Node) : Patch → Node
  | .cordon => { node with
      unschedulable := true
      annotations := { node.annotations with cordoned := some true } }
  | .release uncordon => { node with
      unschedulable := if uncordon then false else node.unschedulable
      annotations := { node.annotations with
        cordoned := none, handedOverAt := none, readyAt := none, payloadSig := none
        signer := none } }
  | .handover _ payload sig signer now => { node with
      annotations := { node.annotations with
        updateVersion := some payload.version, updatePayload := some payload
        payloadSig := some sig, signer := some signer, updatePhase := none
        handedOverAt := some (some now), readyAt := none, adminTokenRotatedAt := none } }
  | .settle now => { node with
      annotations := { node.annotations with readyAt := some (some now) } }
  | .unsettle => { node with annotations := { node.annotations with readyAt := none } }
  | .orphan read uncordon => { node with
      unschedulable := if uncordon then false else node.unschedulable
      annotations := read.drop node.annotations }

@[simp]
theorem Patch.apply_name (node : Node) (patch : Patch) : (patch.apply node).name = node.name := by
  cases patch <;> rfl

/-- `UpdateNodeStatus`. -/
structure Entry where
  name : Str
  from' : Str
  to' : Str
  phase : NodePhase
  startedAt : Option Time
  finishedAt : Option Time
  deriving DecidableEq

inductive Reason where
  | rolling
  | retrying
  | succeeded
  | failed
  | cancelled
  deriving DecidableEq

structure Progressing where
  status : Bool
  reason : Reason
  deriving DecidableEq

inductive UpdatePhase where
  | unset
  | pending
  | rolling
  | succeeded
  | failed
  | cancelled
  deriving DecidableEq

structure Resolved where
  version : Str
  digest : Str
  deriving DecidableEq

/-- What is recorded of the resolved release: `status.resolved`, and the status and
transition time of the Resolved condition. -/
structure Resolution where
  resolved : Option Resolved
  condition : Option (Bool × Time)
  deriving DecidableEq

structure Status where
  nodes : List Entry
  resolution : Resolution
  progressing : Option Progressing
  phase : UpdatePhase
  deriving DecidableEq

def Status.empty : Status :=
  { nodes := [], resolution := ⟨none, none⟩, progressing := none, phase := .unset }

def finished (status : Status) : Bool :=
  match status.progressing with
  | some ⟨false, .succeeded⟩ | some ⟨false, .failed⟩ | some ⟨false, .cancelled⟩ => true
  | _ => false

def endedAs (status : Status) (reason : Reason) : Bool := status.progressing == some ⟨false, reason⟩

structure Spec where
  version : Str
  cancel : Bool
  drain : Bool
  allowDowngrade : Bool
  signature : Str
  pinRequired : Option Str
  deriving DecidableEq

structure Update where
  uid : ℕ
  resourceVersion : ℕ
  spec : Spec
  status : Status
  deriving DecidableEq

inductive Actor where
  | controller
  | operator
  deriving DecidableEq

/-- The nodes as a pass listed them, and when. -/
structure View where
  time : Time
  nodes : List Node
  deriving DecidableEq

/-- A patch that was sent: who had last cordoned the node, and the pass's own copy of
`status.nodes`. -/
structure Sent where
  node : Str
  patch : Patch
  cordonedBy : Option Actor
  working : List Entry
  deriving DecidableEq

/-- A status write, with the Update and the lists it rests on. -/
structure Write where
  read : Update
  status : Status
  views : List View
  deriving DecidableEq

/-- `cordonedBy` is who made a node's most recent change from schedulable to
unschedulable, and `handed` the handover patches that took effect. -/
structure World where
  nodes : List Node
  update : Option Update
  nextUid : ℕ
  cordonedBy : Str → Option Actor
  handed : List (ℕ × Str)
  views : List View
  sent : List Sent
  writes : List Write

def World.find (world : World) (name : Str) : Option Node :=
  world.nodes.find? fun node => node.name == name

/-- A change of the node's object.  A node that becomes unschedulable is cordoned by
whoever makes the change. -/
def World.setNode (world : World) (actor : Actor) (name : Str) (set : Node → Node) : World :=
  match world.find name with
  | none => world
  | some node => { world with
      nodes := world.nodes.map fun other => if other.name == name then set other else other
      cordonedBy := fun other =>
        if other = name ∧ node.unschedulable = false ∧ (set node).unschedulable = true then
          some actor
        else world.cordonedBy other }

theorem find_of_mem {world : World} {node : Node} (hnodes : (world.nodes.map Node.name).Nodup)
    (hnode : node ∈ world.nodes) :
    world.find node.name = some node := by
  have hsome : (world.find node.name).isSome = true := by
    rw [World.find, List.find?_isSome]
    exact ⟨node, hnode, by simp⟩
  obtain ⟨found, hfound⟩ := Option.isSome_iff_exists.1 hsome
  have hname : found.name = node.name := by simpa using List.find?_some hfound
  rw [hfound, List.inj_on_of_nodup_map hnodes (List.mem_of_find?_eq_some hfound) hnode hname]

theorem mem_setNode {world : World} {actor : Actor} {name : Str} {set : Node → Node}
    {node : Node} : node ∈ (world.setNode actor name set).nodes ↔
    ∃ old ∈ world.nodes, node = if old.name = name then set old else old := by
  unfold World.setNode
  split
  · rename_i hnone
    have hother : ∀ old ∈ world.nodes, old.name ≠ name := by
      simpa [World.find] using hnone
    constructor
    · exact fun hnode => ⟨node, hnode, by rw [if_neg (hother node hnode)]⟩
    · rintro ⟨old, hold, rfl⟩
      rwa [if_neg (hother old hold)]
  · rw [List.mem_map]
    constructor
    · rintro ⟨old, hold, rfl⟩
      exact ⟨old, hold, by simp only [beq_iff_eq]⟩
    · rintro ⟨old, hold, rfl⟩
      exact ⟨old, hold, by simp only [beq_iff_eq]⟩

inductive Change where
  | report (name : Str) (ready : Bool) (kubeletVersion : Str) (phase : Option (NodePhase × Str))
      (rotated : Option Str)
  | moveRequest (name : Str) (version : Option Str)
  | operator (name : Str) (unschedulable : Bool)
  | removeNode (name : Str)
  | addNode (name : Str) (server : Bool) (kubeletVersion : Str) (ready : Bool)
  | editSpec (cancel drain allowDowngrade : Bool)
  | deleteUpdate
  | createUpdate (spec : Spec)
  deriving DecidableEq

def World.change (world : World) : Change → World
  | .report name ready kubeletVersion phase rotated =>
    world.setNode .operator name fun node => { node with
      ready := ready, kubeletVersion := kubeletVersion
      annotations := { node.annotations with
        updatePhase := phase, adminTokenRotatedAt := rotated } }
  | .moveRequest name version =>
    world.setNode .operator name fun node => { node with
      annotations := { node.annotations with updateVersion := version } }
  | .operator name unschedulable =>
    world.setNode .operator name fun node => { node with unschedulable := unschedulable }
  | .removeNode name => { world with nodes := world.nodes.filter fun node => node.name != name }
  | .addNode name server kubeletVersion ready =>
    if (world.find name).isSome then world
    else { world with nodes := world.nodes ++ [{
      name := name, server := server, kubeletVersion := kubeletVersion, ready := ready
      unschedulable := false, annotations := Annotations.none }] }
  | .editSpec cancel drain allowDowngrade => { world with
      update := world.update.map fun update => { update with
        resourceVersion := update.resourceVersion + 1
        spec := { update.spec with
          cancel := cancel, drain := drain, allowDowngrade := allowDowngrade } } }
  | .deleteUpdate => { world with update := none }
  | .createUpdate spec =>
    if world.update.isSome then world
    else { world with
      update := some { uid := world.nextUid, resourceVersion := 0, spec := spec
                       status := Status.empty }
      nextUid := world.nextUid + 1 }

/-- What `Resolve` gives: the checksums entry, or why there is none. -/
inductive ResolveAnswer where
  | release (sha256 : Str) (pinned : Bool)
  | pinMismatch
  | errRelease
  | transient
  deriving DecidableEq

inductive Request where
  | listUpdates
  | listNodes (now : Time)
  | listOrphans
  | resolve (version : Str)
  | sign (payload : Payload)
  | drain (node : Str)
  | patch (node : Str) (patch : Patch) (working : List Entry)
  | writeStatus (read : Update) (status : Status)

/-- `none` is a call that failed.  A drain gives the pods that remain and the bare ones,
a signature comes with its signer, and a status write says whether it was made. -/
abbrev Request.Answer : Request → Type
  | .listUpdates => Option (Option Update)
  | .listNodes _ => Option (List Node)
  | .listOrphans => Option (List Node)
  | .resolve _ => ResolveAnswer
  | .sign _ => Option (Str × Str)
  | .drain _ => Option (List Str × List Str)
  | .patch _ _ _ => Option Node
  | .writeStatus _ _ => Bool

/-- How a call goes.  A status that has not changed needs no write.  The last three say
what the release index, the signer and the pods on the node had to answer. -/
inductive Outcome where
  | done
  | lost
  | unanswered
  | unneeded
  | resolved (answer : ResolveAnswer)
  | signed (sig signer : Str)
  | drained (remaining bare : List Str)
  deriving DecidableEq

def World.patched (world : World) (name : Str) (patch : Patch) : World :=
  { world.setNode .controller name patch.apply with
    handed := match patch with
      | .handover update .. =>
        if (world.find name).isSome then (update, name) :: world.handed else world.handed
      | _ => world.handed }

def World.written (world : World) (read : Update) (status : Status) : World :=
  { world with
    update := world.update.map fun update =>
      if update.uid = read.uid ∧ update.resourceVersion = read.resourceVersion then
        { update with resourceVersion := update.resourceVersion + 1, status := status }
      else update }

def World.unchanged (world : World) (read : Update) : Bool :=
  world.update.any fun update =>
    update.uid == read.uid && update.resourceVersion == read.resourceVersion

def World.logSent (world : World) (name : Str) (patch : Patch) (working : List Entry) : World :=
  { world with sent := world.sent ++ [⟨name, patch, world.cordonedBy name, working⟩] }

def World.logWrite (world : World) (read : Update) (status : Status) : World :=
  { world with writes := world.writes ++ [⟨read, status, world.views⟩] }

def World.logView (world : World) (now : Time) : World :=
  { world with views := world.views ++ [⟨now, world.nodes⟩] }

def World.handle : (request : Request) → Outcome → World → request.Answer × World
  | .listUpdates, outcome, world =>
    (if outcome = .done then some world.update else none, world)
  | .listNodes now, outcome, world =>
    (if outcome = .done then some world.nodes else none, world.logView now)
  | .listOrphans, outcome, world => (if outcome = .done then some world.nodes else none, world)
  | .resolve _, outcome, world =>
    (match outcome with
      | .resolved answer => answer
      | _ => .transient, world)
  | .sign _, outcome, world =>
    (match outcome with
      | .signed sig signer => some (sig, signer)
      | _ => none, world)
  | .drain _, outcome, world =>
    (match outcome with
      | .drained remaining bare => some (remaining, bare)
      | _ => none, world)
  | .patch name patch working, outcome, world =>
    let logged := world.logSent name patch working
    match outcome with
    | .done => ((world.find name).map patch.apply, logged.patched name patch)
    | .unanswered => (none, logged.patched name patch)
    | _ => (none, logged)
  | .writeStatus read status, outcome, world =>
    let logged := world.logWrite read status
    match outcome with
    | .done => (world.unchanged read, logged.written read status)
    | .unanswered => (false, logged.written read status)
    | .unneeded => (status == read.status, logged)
    | _ => (false, logged)

def api : Machine Request Request.Answer World Change Outcome where
  change := fun change world => world.change change
  handle := World.handle

abbrev Act := Prog Request Request.Answer

abbrev call (request : Request) : Act request.Answer := Prog.ask request

end K3sm.Updatectl
