import K3sm.Bootstrap.NodePassword

/-!
# The etcd member route

`handleEtcdMember` with everything it asks for on the way: the limiter and the
token check, the node-password binding, the reservation of the joiner's mesh range
and the calls of the membership API.  Every call may fail, and a call that changes
something may fail after it took effect.
-/

namespace K3sm.Bootstrap

open K3sm.Core K3sm.Core.Filepath

/-- What `url.Parse` makes of a text. -/
structure ParsedUrl where
  scheme : Str
  hasUser : Bool
  opaquePart : Str
  rawQuery : Str
  fragment : Str
  path : Str
  hostname : Str
  port : Str
  deriving DecidableEq

/-- What `netip.ParseAddr` makes of a text; `text` is the address unmapped and
rendered again. -/
structure ParsedAddr where
  zone : Str
  loopback : Bool
  unspecified : Bool
  text : Str
  deriving DecidableEq

/-- The text parsers of Go's net packages. -/
structure NetText where
  urlParse : Str → Option ParsedUrl
  parseAddr : Str → Option ParsedAddr
  splitHostPort : Str → Option (Str × Str)
  atoi : Str → Option ℤ

def joinHostPort (host port : Str) : Str :=
  if ':' ∈ host then '[' :: host ++ [']', ':'] ++ port else host ++ ':' :: port

def itoa (value : ℤ) : Str := value.repr.toList

def canonicalPeerUrl (net : NetText) (raw : Str) : Option Str := do
  let url ← net.urlParse raw
  if url.scheme ≠ "https".toList ∨ url.hasUser ∨ url.opaquePart ≠ [] ∨ url.rawQuery ≠ [] ∨
      url.fragment ≠ [] ∨ (url.path ≠ [] ∧ url.path ≠ ['/']) then none
  else
    let addr ← net.parseAddr url.hostname
    if addr.zone ≠ [] ∨ addr.loopback ∨ addr.unspecified then none
    else
      let port ← net.atoi url.port
      if port < 1 ∨ 65535 < port then none
      else
        let canon := "https://".toList ++ joinHostPort addr.text (itoa port)
        if canon ≠ raw then none else some canon

structure EtcdMember where
  id : ℕ
  name : Str
  peerURLs : List Str
  clientURLs : List Str
  isLearner : Bool
  deriving DecidableEq

def EtcdMember.unstarted (member : EtcdMember) : Bool :=
  member.name == [] && member.clientURLs == []

/-- `%x`. -/
def hex (value : ℕ) : Str := Nat.toDigits 16 value

/-- The name `InitialCluster` lists a member under. -/
def listedName (joinerId : ℕ) (joinerName : Str) (member : EtcdMember) : Str :=
  if member.id = joinerId then joinerName
  else if member.name = [] then "unstarted-".toList ++ hex member.id
  else member.name

def clusterEntries (members : List EtcdMember) (joinerId : ℕ) (joinerName : Str) :
    List (Str × Str) :=
  members.flatMap fun member =>
    member.peerURLs.map fun url => (listedName joinerId joinerName member, url)

def initialCluster (members : List EtcdMember) (joinerId : ℕ) (joinerName : Str) : Str :=
  [','].intercalate ((clusterEntries members joinerId joinerName).map fun entry =>
    entry.1 ++ '=' :: entry.2)

structure MeshClaim where
  meshIP : Str
  publicKey : Str
  endpoint : Str
  deriving DecidableEq

structure EtcdMemberRequest where
  name : Str
  peerURL : Str
  nodePassword : Str
  meshClaim : Option MeshClaim
  deriving DecidableEq

/-- The request as it arrives: the method, the credential and the body, which may
not decode. -/
structure MemberHttpRequest where
  post : Bool
  token : Str
  body : Option EtcdMemberRequest

structure EtcdMemberResponse where
  memberID : ℕ
  initialCluster : Str
  meshClaim : Str
  deriving DecidableEq

def meshClaimReserved : Str := "reserved".toList

inductive MemberRefusal
  | method
  | rateLimit
  | missingToken
  | serverToken
  | undecodable
  | memberName
  | selfName
  | peerUrl
  | claimNoNodePassword
  | claimNoMesh
  | claimEndpoint
  | passwordTooLong
  | nodePassword
  | nodePasswordStore
  | claimInvalid
  | rangeClaimed
  | claimRefused
  | reserveFailed
  | listFailed
  | removeFailed
  | addFailed
  deriving DecidableEq

def MemberRefusal.status : MemberRefusal → ℕ
  | .method => 405
  | .rateLimit => 429
  | .missingToken => 401
  | .serverToken | .nodePassword | .claimRefused => 403
  | .undecodable | .memberName | .peerUrl | .claimNoNodePassword | .claimNoMesh
  | .claimEndpoint | .passwordTooLong | .claimInvalid => 400
  | .selfName | .rangeClaimed => 409
  | .nodePasswordStore | .reserveFailed | .listFailed | .removeFailed | .addFailed => 503

def MemberRefusal.reason : MemberRefusal → Option Str
  | .claimNoNodePassword | .claimNoMesh | .claimEndpoint | .claimInvalid =>
    some "mesh-claim-invalid".toList
  | .rangeClaimed => some "mesh-range-claimed".toList
  | .claimRefused => some "mesh-claim-refused".toList
  | .nodePassword => some "node-password".toList
  | _ => none

def MemberRefusal.membership : MemberRefusal → Bool
  | .removeFailed | .addFailed => true
  | _ => false

inductive ReserveError
  | invalid
  | rangeClaimed
  | refused
  | failed

def ReserveError.refusal : ReserveError → MemberRefusal
  | .invalid => .claimInvalid
  | .rangeClaimed => .rangeClaimed
  | .refused => .claimRefused
  | .failed => .reserveFailed

structure MeshAllocation where
  fresh : Bool
  enrollmentID : Str
  deriving DecidableEq

inductive MemberCall (Hash : Type)
  | preauth
  | authorize (token : Str)
  | getSecret (name : Str)
  | createSecret (name : Str) (hash : Hash)
  | reserveMesh (name : Str) (claim : MeshClaim)
  | releaseMesh (name : Str) (alloc : MeshAllocation)
  | memberList
  | memberRemove (id : ℕ)
  | memberAdd (peerURL : Str)

abbrev MemberCall.Answer {Hash : Type} : MemberCall Hash → Type
  | .preauth => Bool
  | .authorize _ => Bool
  | .getSecret _ => SecretRead Hash
  | .createSecret _ _ => SecretCreate
  | .reserveMesh _ _ => Except ReserveError MeshAllocation
  | .releaseMesh _ _ => Bool
  | .memberList => Option (List EtcdMember)
  | .memberRemove _ => Bool
  | .memberAdd _ => Option (EtcdMember × List EtcdMember)

/-- A server that serves the member routes: `NewServer` refuses one without a
canonical name of its own. -/
structure MemberServer (isDns1123Subdomain : Str → Bool) where
  selfNodeName : Str
  self_canonical : Canonical isDns1123Subdomain selfNodeName
  servesMesh : Bool

abbrev MemberProg (Hash : Type) := Prog (MemberCall Hash) MemberCall.Answer

abbrev MemberResult := Except MemberRefusal

section Handler

variable {isDns1123Subdomain : Str → Bool} (net : NetText) (bcrypt : Bcrypt) (salt : bcrypt.Salt)
  (server : MemberServer isDns1123Subdomain)

abbrev askMember (call : MemberCall bcrypt.Hash) : MemberProg bcrypt.Hash call.Answer :=
  Prog.ask call

def authorizeServerRoute (request : MemberHttpRequest) :
    MemberProg bcrypt.Hash (MemberResult Unit) :=
  if request.post = false then pure (.error .method)
  else do
    let allowed ← askMember bcrypt .preauth
    if allowed = false then pure (.error .rateLimit)
    else if request.token = [] then pure (.error .missingToken)
    else do
      let authorized ← askMember bcrypt (.authorize request.token)
      if authorized = false then pure (.error .serverToken) else pure (.ok ())

def memberName (requested : Str) : MemberResult Str :=
  match canonicalNodeName isDns1123Subdomain requested with
  | .error _ => .error .memberName
  | .ok name =>
    if name ≠ requested then .error .memberName
    else if selfNameClaimed server.selfNodeName name then .error .selfName
    else .ok name

def checkMeshClaimShape (peerURL : Str) (request : EtcdMemberRequest) (claim : MeshClaim) :
    MemberResult Unit :=
  if request.nodePassword = [] then .error .claimNoNodePassword
  else if server.servesMesh = false then .error .claimNoMesh
  else
    match net.urlParse peerURL with
    | none => .error .claimEndpoint
    | some url =>
      match net.splitHostPort claim.endpoint with
      | none => .error .claimEndpoint
      | some (host, _) =>
        match net.parseAddr host with
        | none => .error .claimEndpoint
        | some addr => if addr.text ≠ url.hostname then .error .claimEndpoint else .ok ()

def bindMemberName (name password : Str) : MemberProg bcrypt.Hash (MemberResult Unit) :=
  if password = [] then pure (.ok ())
  else if maxNodePasswordLength < password.length then pure (.error .passwordTooLong)
  else do
    match ← ensure bcrypt salt (fun secret => askMember bcrypt (.getSecret secret))
        (fun secret hash => askMember bcrypt (.createSecret secret hash)) name password with
    | .ok () => pure (.ok ())
    | .error .mismatch => pure (.error .nodePassword)
    | .error .unavailable => pure (.error .nodePasswordStore)

def reserveMemberMesh (name : Str) :
    Option MeshClaim → MemberProg bcrypt.Hash (MemberResult (Option MeshAllocation))
  | none => pure (.ok none)
  | some claim => do
    match ← askMember bcrypt (.reserveMesh name claim) with
    | .ok alloc => pure (.ok (some alloc))
    | .error failure => pure (.error failure.refusal)

/-- `releaseMemberMesh`, on every way out that did not commit. -/
def releaseMemberMesh (name : Str) : Option MeshAllocation → MemberProg bcrypt.Hash Unit
  | some alloc =>
    if alloc.fresh then do
      let _ ← askMember bcrypt (.releaseMesh name alloc)
      pure ()
    else pure ()
  | none => pure ()

/-- Whether a listed member is another server's and stays. -/
def foreign (name peerURL : Str) (member : EtcdMember) : Bool :=
  decide (member.name ≠ name) && !(member.unstarted && decide (peerURL ∈ member.peerURLs))

def reusable (peerURL : Str) (member : EtcdMember) : Bool :=
  member.unstarted && member.isLearner && decide (member.peerURLs = [peerURL])

/-- The loop over the listed members: what it keeps and which learner it reuses. -/
def sortMembers (name peerURL : Str) : List EtcdMember → List EtcdMember → Option EtcdMember →
    MemberProg bcrypt.Hash (MemberResult (List EtcdMember × Option EtcdMember))
  | [], kept, reuse => pure (.ok (kept, reuse))
  | member :: rest, kept, reuse =>
    if foreign name peerURL member then sortMembers name peerURL rest (kept ++ [member]) reuse
    else if reuse.isNone && reusable peerURL member then
      sortMembers name peerURL rest (kept ++ [member]) (some member)
    else do
      let removed ← askMember bcrypt (.memberRemove member.id)
      if removed then sortMembers name peerURL rest kept reuse
      else pure (.error .removeFailed)

/-- The membership step, on the members that were listed. -/
def placeMember (name peerURL acknowledged : Str) (listed : List EtcdMember) :
    MemberProg bcrypt.Hash (MemberResult EtcdMemberResponse) := do
  match ← sortMembers bcrypt name peerURL listed [] none with
  | .error refused => pure (.error refused)
  | .ok (kept, some reuse) =>
    pure (.ok ⟨reuse.id, initialCluster kept reuse.id name, acknowledged⟩)
  | .ok (_, none) =>
    match ← askMember bcrypt (.memberAdd peerURL) with
    | none => pure (.error .addFailed)
    | some (added, after) =>
      pure (.ok ⟨added.id, initialCluster after added.id name, acknowledged⟩)

/-- The membership step with the reservation it gives back when it fails. -/
def changeMembership (name peerURL : Str) (alloc : Option MeshAllocation) :
    MemberProg bcrypt.Hash (MemberResult EtcdMemberResponse) := do
  let acknowledged := if alloc.isSome then meshClaimReserved else []
  match ← askMember bcrypt .memberList with
  | none => do
    releaseMemberMesh bcrypt name alloc
    pure (.error .listFailed)
  | some listed =>
    match ← placeMember bcrypt name peerURL acknowledged listed with
    | .ok response => pure (.ok response)
    | .error refused => do
      releaseMemberMesh bcrypt name alloc
      pure (.error refused)

def joinMember (name peerURL : Str) (claim : Option MeshClaim) :
    MemberProg bcrypt.Hash (MemberResult EtcdMemberResponse) := do
  match ← reserveMemberMesh bcrypt name claim with
  | .error refused => pure (.error refused)
  | .ok alloc => changeMembership bcrypt name peerURL alloc

/-- The checks on a decoded request that need no call: the name, the peer URL and
the shape of a claim. -/
def checkMemberRequest (request : EtcdMemberRequest) : MemberResult (Str × Str) :=
  match memberName server request.name with
  | .error refused => .error refused
  | .ok name =>
    match canonicalPeerUrl net request.peerURL with
    | none => .error .peerUrl
    | some peerURL =>
      match request.meshClaim with
      | none => .ok (name, peerURL)
      | some claim =>
        match checkMeshClaimShape net server peerURL request claim with
        | .error refused => .error refused
        | .ok () => .ok (name, peerURL)

def handleEtcdMember (request : MemberHttpRequest) :
    MemberProg bcrypt.Hash (MemberResult EtcdMemberResponse) := do
  match ← authorizeServerRoute bcrypt request with
  | .error refused => pure (.error refused)
  | .ok () =>
    match request.body with
    | none => pure (.error .undecodable)
    | some body =>
      match checkMemberRequest net server body with
      | .error refused => pure (.error refused)
      | .ok (name, peerURL) =>
        match ← bindMemberName bcrypt salt name body.nodePassword with
        | .error refused => pure (.error refused)
        | .ok () => joinMember bcrypt name peerURL body.meshClaim

end Handler

end K3sm.Bootstrap
