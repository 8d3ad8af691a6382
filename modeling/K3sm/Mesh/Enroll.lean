import K3sm.Core.Pool
import K3sm.Core.Versioned

/-!
# Mesh enrollment

A node's pod range is claimed by an object named for the range, created if absent, and is then
written into the node's `MeshPeer`.  The enrollers of several servers do this beside each other,
so every operation is a program of single API server calls; what an enroller's own mutex orders
within one process is left open.
-/

namespace K3sm.Mesh

open K3sm.Core

/-- A `MeshPeer` but for its name: its range, its wireguard key, the control-plane label and
the id of the enroll that wrote it, if it has one. -/
structure MeshRow (Key : Type) where
  range : ℕ
  publicKey : Key
  server : Bool
  enrollId : Option ℕ
  deriving DecidableEq

def firstServerIndex : ℕ := 0

/-- Labelled as a control-plane node's, or at the first server's index. -/
def isServerPeer {Key : Type} (row : MeshRow Key) : Bool :=
  row.server || decide (row.range = firstServerIndex)

/-- Which path writes a `MeshPeer`: a worker's join, a server for itself, or the member
route for a joining server. -/
inductive PeerWrite
  | worker
  | enrollSelf
  | memberRoute
  deriving DecidableEq

/-- One call.  An update is made of the row that was read back, and a claim is deleted as it
was read; the path that makes an update is for the observer. -/
inductive MeshRequest (Name Key : Type)
  | listPeers
  | getPeer (name : Name)
  | createPeer (name : Name) (row : MeshRow Key)
  | updatePeer (name : Name) (row current : MeshRow Key) (version : ℕ) (write : PeerWrite)
  | deletePeer (name : Name) (version : Option ℕ)
  | createClaim (range : ℕ) (holder : Name)
  | getClaim (range : ℕ)
  | deleteClaim (range : ℕ) (holder : Name) (version : ℕ)
  | listClaims

section Calls

variable {Name Key : Type}

@[reducible]
def MeshAnswer : MeshRequest Name Key → Type
  | .listPeers => Option (List (Name × MeshRow Key))
  | .getPeer _ => ReadAnswer (MeshRow Key)
  | .createPeer _ _ | .updatePeer _ _ _ _ _ | .deletePeer _ _ => WriteAnswer
  | .createClaim _ _ | .deleteClaim _ _ _ => WriteAnswer
  | .getClaim _ => ReadAnswer Name
  | .listClaims => Option (List (ℕ × Name × ℕ))

abbrev MeshProg (Name Key Result : Type) := Prog (MeshRequest Name Key) MeshAnswer Result

abbrev askListPeers : MeshProg Name Key (Option (List (Name × MeshRow Key))) :=
  Prog.ask MeshRequest.listPeers

abbrev askGetPeer (name : Name) : MeshProg Name Key (ReadAnswer (MeshRow Key)) :=
  Prog.ask (MeshRequest.getPeer name)

abbrev askCreatePeer (name : Name) (row : MeshRow Key) : MeshProg Name Key WriteAnswer :=
  Prog.ask (MeshRequest.createPeer name row)

abbrev askUpdatePeer (name : Name) (row current : MeshRow Key) (version : ℕ) (write : PeerWrite) :
    MeshProg Name Key WriteAnswer :=
  Prog.ask (MeshRequest.updatePeer name row current version write)

abbrev askDeletePeer (name : Name) (version : Option ℕ) : MeshProg Name Key WriteAnswer :=
  Prog.ask (MeshRequest.deletePeer name version)

abbrev askCreateClaim (range : ℕ) (holder : Name) : MeshProg Name Key WriteAnswer :=
  Prog.ask (MeshRequest.createClaim range holder)

abbrev askGetClaim (range : ℕ) : MeshProg Name Key (ReadAnswer Name) :=
  Prog.ask (MeshRequest.getClaim range)

abbrev askDeleteClaim (range : ℕ) (holder : Name) (version : ℕ) : MeshProg Name Key WriteAnswer :=
  Prog.ask (MeshRequest.deleteClaim range holder version)

abbrev askListClaims : MeshProg Name Key (Option (List (ℕ × Name × ℕ))) :=
  Prog.ask MeshRequest.listClaims

end Calls

structure PeerUpdate (Name Key : Type) where
  name : Name
  write : PeerWrite
  old : MeshRow Key
  new : MeshRow Key

/-- The range claims with their holders, the peers, and the updates so far. -/
structure MeshWorld (Name Key : Type) where
  claims : Versioned ℕ Name
  peers : Versioned Name (MeshRow Key)
  updates : List (PeerUpdate Name Key)

def noMesh (Name Key : Type) : MeshWorld Name Key where
  claims := Versioned.empty
  peers := Versioned.empty
  updates := []

section World

variable {Name Key : Type} [DecidableEq Name]

def fated (fate : CallFate) (written : WriteAnswer × MeshWorld Name Key)
    (world : MeshWorld Name Key) : WriteAnswer × MeshWorld Name Key :=
  match fate with
  | .answered => written
  | .lost => (.failed, world)
  | .unanswered => (.failed, written.2)

def readFated {Value : Type} (fate : CallFate) (answer : ReadAnswer Value) : ReadAnswer Value :=
  match fate with
  | .answered => answer
  | .lost | .unanswered => .failed

def listFated {Value : Type} (fate : CallFate) (answer : List Value) : Option (List Value) :=
  match fate with
  | .answered => some answer
  | .lost | .unanswered => none

def withPeers (world : MeshWorld Name Key)
    (written : WriteAnswer × Versioned Name (MeshRow Key)) : WriteAnswer × MeshWorld Name Key :=
  (written.1, { world with peers := written.2 })

def withClaims (world : MeshWorld Name Key) (written : WriteAnswer × Versioned ℕ Name) :
    WriteAnswer × MeshWorld Name Key :=
  (written.1, { world with claims := written.2 })

def updatePeer (world : MeshWorld Name Key) (name : Name) (row : MeshRow Key) (version : ℕ)
    (write : PeerWrite) : WriteAnswer × MeshWorld Name Key :=
  let written := withPeers world (world.peers.update name version row)
  match written.1, world.peers.get name with
  | .done, some (old, _) =>
    (.done,
      { written.2 with
        updates := { name := name, write := write, old := old, new := row } :: world.updates })
  | answer, _ => (answer, written.2)

def handle : (request : MeshRequest Name Key) → CallFate → MeshWorld Name Key →
    MeshAnswer request × MeshWorld Name Key
  | .listPeers, fate, world =>
    (listFated fate (world.peers.entries.map fun entry => (entry.1, entry.2.1)), world)
  | .getPeer name, fate, world => (readFated fate (world.peers.read name), world)
  | .createPeer name row, fate, world =>
    fated fate (withPeers world (world.peers.create name row)) world
  | .updatePeer name row _ version write, fate, world =>
    fated fate (updatePeer world name row version write) world
  | .deletePeer name version, fate, world =>
    fated fate (withPeers world (world.peers.delete name version)) world
  | .createClaim range holder, fate, world =>
    fated fate (withClaims world (world.claims.create range holder)) world
  | .getClaim range, fate, world => (readFated fate (world.claims.read range), world)
  | .deleteClaim range _ version, fate, world =>
    fated fate (withClaims world (world.claims.delete range (some version))) world
  | .listClaims, fate, world => (listFated fate world.claims.entries, world)

end World

/-- What an enroll asks for; `valid` is whether a row can be built of it, from the address
of the range to the enroll's id. -/
structure MeshEnrollRequest (Key : Type) where
  publicKey : Key
  valid : Bool

structure Allocation where
  fresh : Bool
  enrollId : Option ℕ
  range : Option ℕ
  deriving DecidableEq

def noAllocation : Allocation where
  fresh := false
  enrollId := none
  range := none

/-- How an operation ends: whether without an error, and what it has allocated. -/
structure MeshEnd where
  ok : Bool
  alloc : Allocation
  deriving DecidableEq

def meshError : MeshEnd where
  ok := false
  alloc := noAllocation

section Operations

variable {Name Key : Type} [DecidableEq Name] [DecidableEq Key]

/-- The claim's holder and whether this call made the claim; none for an error.  A claim
that goes away between the losing create and the read is tried again. -/
def claimRange (range : ℕ) (name : Name) : ℕ → MeshProg Name Key (Option (Name × Bool))
  | 0 => pure none
  | tries + 1 => do
    match ← askCreateClaim range name with
    | .done => pure (some (name, true))
    | .taken =>
      match ← askGetClaim range with
      | .found holder _ => pure (some (holder, false))
      | .absent => claimRange range name tries
      | .failed => pure none
    | .absent | .conflict | .failed => pure none

def releaseClaim (range : ℕ) (name : Name) : MeshProg Name Key Bool := do
  match ← askGetClaim range with
  | .absent => pure true
  | .failed => pure false
  | .found holder version =>
    if holder ≠ name then pure true
    else
      match ← askDeleteClaim range holder version with
      | .done | .absent | .conflict => pure true
      | .taken | .failed => pure false

def claimLowest (name : Name) : List ℕ → MeshProg Name Key (Option ℕ)
  | [] => pure none
  | range :: rest => do
    match ← claimRange range name 3 with
    | none => pure none
    | some (holder, _) => if holder = name then pure (some range) else claimLowest name rest

variable (ranges : ℕ)

def claimLowestFreeIndex (name : Name) (existing : List (Name × MeshRow Key)) :
    MeshProg Name Key (Option ℕ) :=
  claimLowest name ((List.range ranges).filter fun range =>
    decide (range ≠ firstServerIndex) && existing.all fun peer => decide (peer.2.range ≠ range))

def refusesOverwrite (write : PeerWrite) (row : MeshRow Key) : Bool :=
  match write with
  | .worker => isServerPeer row
  | .enrollSelf | .memberRoute => !isServerPeer row

/-- `writePeer`: created, or updated in place when the row read back may be replaced.  The
label of the old row is carried over. -/
def writePeer (name : Name) (row : MeshRow Key) (write : PeerWrite) :
    MeshProg Name Key Bool := do
  match ← askCreatePeer name row with
  | .done => pure true
  | .taken =>
    match ← askGetPeer name with
    | .found current version =>
      if refusesOverwrite write current then pure false
      else
        match ← askUpdatePeer name { row with server := row.server || current.server } current
            version write with
        | .done => pure true
        | .taken | .absent | .conflict | .failed => pure false
    | .absent | .failed => pure false
  | .absent | .conflict | .failed => pure false

def ownRow (name : Name) (existing : List (Name × MeshRow Key)) : Option (MeshRow Key) :=
  ((existing.filter fun peer => decide (peer.1 = name)).getLast?).map Prod.snd

def enrollWrite (name : Name) (request : MeshEnrollRequest Key) (id range : ℕ)
    (own : Option (MeshRow Key)) : MeshProg Name Key MeshEnd := do
  let alloc : Allocation := { fresh := own.isNone, enrollId := some id, range := some range }
  if request.valid = false then pure { ok := false, alloc := alloc }
  else
    let row : MeshRow Key :=
      { range := range, publicKey := request.publicKey, server := false, enrollId := some id }
    if ← writePeer name row .worker then
      match ← askListPeers with
      | none => pure { ok := false, alloc := alloc }
      | some _ => pure { ok := true, alloc := alloc }
    else pure { ok := false, alloc := alloc }

/-- `Enroll`, a worker's join: it reuses the range of the node's row, whose claim it
re-asserts if it is a node range, or claims the lowest free one. -/
def enroll (name : Name) (request : MeshEnrollRequest Key) (id : ℕ) :
    MeshProg Name Key MeshEnd := do
  match ← askListPeers with
  | none => pure meshError
  | some existing =>
    match ownRow name existing with
    | some own =>
      if isServerPeer own then pure meshError
      else if ranges ≤ own.range then enrollWrite name request id own.range (some own)
      else
        match ← claimRange own.range name 3 with
        | none => pure meshError
        | some (holder, _) =>
          if holder ≠ name then pure meshError
          else enrollWrite name request id own.range (some own)
    | none =>
      match ← claimLowestFreeIndex ranges name existing with
      | none => pure meshError
      | some range => enrollWrite name request id range none

def giveBack (range : ℕ) (name : Name) (created : Bool) : MeshProg Name Key MeshEnd := do
  if created then
    let _ ← releaseClaim range name
    pure meshError
  else pure meshError

def refusesClaim (write : PeerWrite) (request : MeshEnrollRequest Key) (range : ℕ)
    (own : MeshRow Key) : Bool :=
  !isServerPeer own || decide (own.range ≠ range) ||
    decide (write = .memberRoute ∧ own.publicKey ≠ request.publicKey)

def serverWrite (name : Name) (range : ℕ) (request : MeshEnrollRequest Key) (write : PeerWrite)
    (id : ℕ) (own : Option (MeshRow Key)) (created : Bool) : MeshProg Name Key MeshEnd := do
  if request.valid = false then giveBack range name created
  else
    let row : MeshRow Key :=
      { range := range, publicKey := request.publicKey, server := true, enrollId := some id }
    if ← writePeer name row write then
      pure
        { ok := true, alloc := { fresh := own.isNone, enrollId := some id, range := some range } }
    else giveBack range name created

def claimServerRange (name : Name) (range : ℕ) (request : MeshEnrollRequest Key)
    (write : PeerWrite) (id : ℕ) : MeshProg Name Key MeshEnd := do
  if ranges ≤ range then pure meshError
  else
    match ← askListPeers with
    | none => pure meshError
    | some existing =>
      if existing.any fun peer => decide (peer.1 ≠ name) && decide (peer.2.range = range) then
        pure meshError
      else if (ownRow name existing).any (refusesClaim write request range) then pure meshError
      else
        match ← claimRange range name 3 with
        | none => pure meshError
        | some (holder, created) =>
          if holder ≠ name then pure meshError
          else serverWrite name range request write id (ownRow name existing) created

def enrollSelf (name : Name) (range : ℕ) (request : MeshEnrollRequest Key) (id : ℕ) :
    MeshProg Name Key MeshEnd := do
  let ending ← claimServerRange ranges name range request .enrollSelf id
  if ending.ok then
    match ← askListPeers with
    | none => pure meshError
    | some _ => pure ending
  else pure ending

def reserveServerMesh (name : Name) (range : ℕ) (request : MeshEnrollRequest Key) (id : ℕ) :
    MeshProg Name Key MeshEnd :=
  claimServerRange ranges name range request .memberRoute id

def meshDone (ok : Bool) : MeshEnd where
  ok := ok
  alloc := noAllocation

def releaseAllocatedClaim (name : Name) (alloc : Allocation) : MeshProg Name Key MeshEnd := do
  match alloc.range with
  | none => pure (meshDone true)
  | some range =>
    if ranges ≤ range then pure (meshDone true)
    else
      let released ← releaseClaim range name
      pure (meshDone released)

def releaseAllocation (name : Name) (alloc : Allocation) : MeshProg Name Key MeshEnd := do
  if alloc.enrollId = none then pure meshError
  else
    match ← askGetPeer name with
    | .absent => releaseAllocatedClaim ranges name alloc
    | .failed => pure meshError
    | .found current version =>
      if current.enrollId ≠ alloc.enrollId then pure (meshDone true)
      else
        match ← askDeletePeer name (some version) with
        | .absent | .conflict => pure (meshDone true)
        | .taken | .failed => pure meshError
        | .done =>
          match ← askListPeers with
          | none => pure meshError
          | some peers =>
            if peers.any fun peer => decide (peer.1 = name) then pure meshError
            else releaseAllocatedClaim ranges name alloc

/-- The loop of `releaseClaimsHeldBy`. -/
def deleteClaims (name : Name) : List (ℕ × Name × ℕ) → MeshProg Name Key MeshEnd
  | [] => pure (meshDone true)
  | (range, holder, version) :: rest => do
    if holder ≠ name then deleteClaims name rest
    else
      match ← askDeleteClaim range holder version with
      | .done | .absent | .conflict => deleteClaims name rest
      | .taken | .failed => pure meshError

def releaseClaimsHeldBy (name : Name) : MeshProg Name Key MeshEnd := do
  match ← askListClaims with
  | none => pure meshError
  | some claims => deleteClaims name claims

/-- `Deregister`, up to the Node object. -/
def deregister (name : Name) : MeshProg Name Key MeshEnd := do
  match ← askDeletePeer name none with
  | .done | .absent => releaseClaimsHeldBy name
  | .taken | .conflict | .failed => pure meshError

/-- The ranges of `BackfillClaims` in the order its map gives them. -/
def backfillEach (existing : List (Name × MeshRow Key)) : List ℕ → MeshProg Name Key MeshEnd
  | [] => pure (meshDone true)
  | range :: rest => do
    if ranges ≤ range then backfillEach existing rest
    else
      match existing.filter fun peer => decide (peer.2.range = range) with
      | [peer] =>
        let claimed ← claimRange range peer.1 3
        let ending ← backfillEach existing rest
        pure (meshDone (claimed.isSome && ending.ok))
      | _ => backfillEach existing rest

def backfillClaims (order : List ℕ) : MeshProg Name Key MeshEnd := do
  match ← askListPeers with
  | none => pure meshError
  | some existing => backfillEach ranges existing order

/-- The operations that write claims and peers. -/
inductive MeshJob (Name Key : Type)
  | enroll (name : Name) (request : MeshEnrollRequest Key) (id : ℕ)
  | enrollSelf (name : Name) (range : ℕ) (request : MeshEnrollRequest Key) (id : ℕ)
  | reserveServerMesh (name : Name) (range : ℕ) (request : MeshEnrollRequest Key) (id : ℕ)
  | releaseAllocation (name : Name) (alloc : Allocation)
  | deregister (name : Name)
  | backfillClaims (order : List ℕ)

def MeshJob.body : MeshJob Name Key → MeshProg Name Key MeshEnd
  | .enroll name request id => Mesh.enroll ranges name request id
  | .enrollSelf name range request id => Mesh.enrollSelf ranges name range request id
  | .reserveServerMesh name range request id => Mesh.reserveServerMesh ranges name range request id
  | .releaseAllocation name alloc => Mesh.releaseAllocation ranges name alloc
  | .deregister name => Mesh.deregister name
  | .backfillClaims order => Mesh.backfillClaims ranges order

/-- The enrollers of a cluster beside each other; a crash is a program that gets no more
turns. -/
def next : Pool (MeshRequest Name Key) MeshAnswer (MeshWorld Name Key) MeshEnd →
    Move (MeshJob Name Key) CallFate →
    Pool (MeshRequest Name Key) MeshAnswer (MeshWorld Name Key) MeshEnd :=
  Pool.next handle (fun _ _ => true) (MeshJob.body ranges)

/-- The next calls of the programs at the indices, all of them answered. -/
def turns (indices : List ℕ) : List (Move (MeshJob Name Key) CallFate) :=
  indices.map fun index => .turn index .answered

end Operations

end K3sm.Mesh
