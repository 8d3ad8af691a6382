import K3sm.Core.Int64
import K3sm.Core.Pool
import K3sm.Core.TtlCache
import K3sm.Registry.GatePath

/-!
# How the push gate authorizes a write

A write is forwarded after three questions to the apiserver: whose token it is, whether the
namespace carries its prefix, and whether the identity may push the repository.  A request is a
program whose calls are the clock, the caches, the flights that concurrent reviews of one token
share, and the apiserver, which may answer anything at any time.
-/

namespace K3sm.Registry.Gate

open K3sm.Core K3sm.Core.Filepath K3sm.Core.Url K3sm.Registry.Ref

def tokenPositiveTTL : ℤ := 30 * second

def tokenNegativeTTL : ℤ := 5 * second

def namespaceTTL : ℤ := 5 * second

def accessTTL : ℤ := 10 * second

def cacheMaxEntries : ℕ := 4096

structure PushIdentity where
  username : Str := []
  uid : Str := []
  groups : List Str := []
  extra : List (Str × List Str) := []
  ns : Str := []
  deriving DecidableEq

/-- k3sm-registry, the audience and the builder's namespace. -/
def registryAudience : Str := ['k', '3', 's', 'm', '-', 'r', 'e', 'g', 'i', 's', 't', 'r', 'y']

def builderNamespace : Str := registryAudience

def systemWord : Str := ['s', 'y', 's', 't', 'e', 'm']

def serviceAccountWord : Str :=
  ['s', 'e', 'r', 'v', 'i', 'c', 'e', 'a', 'c', 'c', 'o', 'u', 'n', 't']

def builderUsername : Str :=
  [':'].intercalate
    [systemWord, serviceAccountWord, builderNamespace, ['b', 'u', 'i', 'l', 'd', 'e', 'r']]

def PushIdentity.isBuilder (id : PushIdentity) : Bool :=
  id.username == builderUsername && id.ns == builderNamespace

/-- One part of a service account's user name: an alphanumeric at either end, dashes and
the marks of `more` between. -/
def accountPart (more : Char → Bool) (part : Str) : Bool :=
  part.head?.any isAlphanumeric && part.getLast?.any isAlphanumeric &&
    part.all fun char => isAlphanumeric char || char == '-' || more char

def serviceAccountUser (username : Str) : Option Str :=
  match username.splitOn ':' with
  | [system, account, ns, name] =>
    if system = systemWord ∧ account = serviceAccountWord ∧ accountPart (fun _ => false) ns ∧
      accountPart (· == '.') name then some ns
    else none
  | _ => none

/-- What the gate reads of a token by itself.  The claims are those of the payload
segment, as far as it decodes to the integers asked for. -/
structure TokenCodec where
  sha256 : Str → Str
  /-- The exp claim, 0 without one. -/
  expClaim : Str → Option ℤ
  /-- The iat and exp claims. -/
  lifetimeClaims : Str → Option (Option ℤ × Option ℤ)

def maxTokenBytes : ℕ := 8192

def tokenByte (char : Char) : Bool := char.isAlphanum || char == '-' || char == '_'

def tokenShapeOK (token : Str) : Bool :=
  decide (token ≠ [] ∧ token.length ≤ maxTokenBytes) &&
    (token.splitOn '.').length == 3 &&
    (token.splitOn '.').all fun segment => decide (segment ≠ []) && segment.all tokenByte

def tokenExpiry (codec : TokenCodec) (token : Str) : Option ℤ :=
  match token.splitOn '.' with
  | [_, payload, _] =>
    match codec.expClaim payload with
    | some exp => if 0 < exp then some (exp * second) else none
    | none => none
  | _ => none

inductive TokenRefusal where
  | notValid
  | notForAudience
  | lifetimeUnreadable
  | lifetimeTooLong
  deriving DecidableEq

def maxTokenClaimUnix : ℤ := 253402300799

def maxBuilderTokenSeconds : ℤ := 24 * 60 * 60

def builderLifetimeRefusal (codec : TokenCodec) (token : Str) : Option TokenRefusal :=
  match token.splitOn '.' with
  | [_, payload, _] =>
    if maxTokenBytes < payload.length then some .lifetimeUnreadable
    else match codec.lifetimeClaims payload with
      | some (some iat, some exp) =>
        if iat ≤ 0 ∨ exp ≤ iat ∨ maxTokenClaimUnix < exp then some .lifetimeUnreadable
        else if maxBuilderTokenSeconds < exp - iat then some .lifetimeTooLong
        else none
      | _ => some .lifetimeUnreadable
  | _ => some .lifetimeUnreadable

structure TokenReviewStatus where
  authenticated : Bool
  error : Str
  audiences : List Str
  username : Str
  uid : Str
  groups : List Str
  extra : List (Str × List Str)
  deriving DecidableEq

structure TokenResult where
  id : PushIdentity := {}
  reason : Option TokenRefusal := none
  deriving DecidableEq

/-- An answer without a status is refused like one that does not authenticate. -/
def judgeTokenReview (status : Option TokenReviewStatus) : TokenResult :=
  match status with
  | none => { reason := some .notValid }
  | some status =>
    if !status.authenticated ∨ status.error ≠ [] then { reason := some .notValid }
    else if !status.audiences.contains registryAudience then { reason := some .notForAudience }
    else match serviceAccountUser status.username with
      | none => { id := { username := status.username } }
      | some ns =>
        { id :=
            { username := status.username, uid := status.uid, groups := status.groups
              extra := status.extra, ns } }

def judgeToken (codec : TokenCodec) (token : Str) (status : Option TokenReviewStatus) :
    TokenResult :=
  let result := judgeTokenReview status
  if result.id.isBuilder then { result with reason := builderLifetimeRefusal codec token }
  else result

/-- How long a review is kept: a good one never beyond the token's own expiry. -/
def tokenTill (codec : TokenCodec) (token : Str) (result : TokenResult) (now : ℤ) : ℤ :=
  if result.reason.isSome then now + tokenNegativeTTL
  else match tokenExpiry codec token with
    | some exp => min exp (now + tokenPositiveTTL)
    | none => now + tokenPositiveTTL

/-- What a Get of a namespace finds: none, or the value of its push label. -/
inductive NamespaceAnswer where
  | notFound
  | found (label : Option Str)
  deriving DecidableEq

inductive NamespaceRefusal where
  | notExisting
  | notLabelled
  | otherName
  | notValid
  deriving DecidableEq

structure NamespaceResult where
  pushPrefix : Str := []
  reason : Option NamespaceRefusal := none
  deriving DecidableEq

def pushPrefixValue (value : Str) : Bool :=
  (value.splitOnP fun char => char == '.' || char == '_' || char == '-').all fun run =>
    decide (run ≠ []) && run.all isAlphanumeric

def judgeNamespace (ns : Str) : NamespaceAnswer → NamespaceResult
  | .notFound => { reason := some .notExisting }
  | .found none => { reason := some .notLabelled }
  | .found (some value) =>
    if value ≠ ns then { reason := some .otherName }
    else if !pushPrefixValue value ∨ maxNameLength < value.length then { reason := some .notValid }
    else { pushPrefix := value }

def underPrefix (repo pushPrefix : Str) : Bool :=
  decide (pushPrefix ≠ []) && (pushPrefix ++ ['/']).isPrefixOf repo &&
    decide (pushPrefix.length + 1 < repo.length)

def pushVerb : Str := ['p', 'u', 's', 'h']

def pushAPIGroup : Str :=
  ['r', 'e', 'g', 'i', 's', 't', 'r', 'y', '.', 'k', '3', 's', 'm', '.', 'i', 'o']

def pushResource : Str := ['r', 'e', 'p', 'o', 's', 'i', 't', 'o', 'r', 'i', 'e', 's']

structure AccessReview where
  ns : Str
  verb : Str
  group : Str
  resource : Str
  name : Str
  user : Str
  groups : List Str
  uid : Str
  extra : List (Str × List Str)
  deriving DecidableEq

structure AccessStatus where
  allowed : Bool
  denied : Bool
  deriving DecidableEq

def sarNamespace (id : PushIdentity) : Str := if id.isBuilder then [] else id.ns

def pushReview (id : PushIdentity) (repo : Str) : AccessReview :=
  { ns := sarNamespace id, verb := pushVerb, group := pushAPIGroup, resource := pushResource
    name := repo, user := id.username, groups := id.groups, uid := id.uid, extra := id.extra }

def accessKey (id : PushIdentity) (repo : Str) : Str :=
  ['\x00'].intercalate
    [id.username, id.uid, [','].intercalate (id.groups.insertionSort (· ≤ ·)), id.ns, repo]

def judgeAccess (status : Option AccessStatus) : Bool :=
  status.any fun status => status.allowed && !status.denied

/-- `errRateLimited` and `errUnavailable`. -/
inductive GateError where
  | rateLimited
  | unavailable
  deriving DecidableEq

structure Taken (Result : Type) where
  result : Result
  reading : ℤ
  deriving DecidableEq

abbrev Reviewed := Except GateError (Taken TokenResult)

/-- A review of a token in flight, without a result until it lands. -/
structure Flight where
  key : Str
  landed : Option Reviewed

structure Forwarded where
  token : Str
  route : GateRoute
  id : PushIdentity
  tokenReading : ℤ
  /-- No reading for the builder, whose namespace is not asked for. -/
  namespaceReading : Option ℤ
  accessReadings : List (Str × ℤ)
  deriving DecidableEq

/-- What is logged: the answers of the apiserver, each with the reading on it, and the
writes that are forwarded. -/
inductive Entry where
  | tokenReview (token : Str) (status : Option TokenReviewStatus) (reading : ℤ)
  | namespaceGet (ns : Str) (answer : NamespaceAnswer) (reading : ℤ)
  | accessReview (review : AccessReview) (status : Option AccessStatus) (reading : ℤ)
  | forwarded (write : Forwarded)
  deriving DecidableEq

/-- The gate's caches and flights, and the log of what it was told and let through. -/
structure GateWorld where
  tokens : TtlCache Str TokenResult := []
  namespaces : TtlCache Str NamespaceResult := []
  access : TtlCache Str Bool := []
  flights : List Flight := []
  /-- The last entry first. -/
  log : List Entry := []

/-- How a review is entered: as the one that asks, or beside it. -/
inductive Entered where
  | leads (flight : ℕ)
  | joins (flight : ℕ)

inductive GateCall where
  | now
  | limiterAllow
  | tokensGet (key : Str) (now : ℤ)
  | tokensPut (key : Str) (result : TokenResult) (till now : ℤ)
  | namespacesGet (key : Str) (now : ℤ)
  | namespacesPut (key : Str) (result : NamespaceResult) (till now : ℤ)
  | accessGet (key : Str) (now : ℤ)
  | accessPut (key : Str) (allowed : Bool) (till now : ℤ)
  | enterFlight (key : Str)
  | waitFlight (flight : ℕ)
  | landFlight (flight : ℕ) (landed : Reviewed)
  | reviewToken (token : Str)
  | getNamespace (ns : Str)
  | reviewAccess (review : AccessReview)
  | forward (write : Forwarded)

/-- The apiserver may not answer; when it does, the clock is read on its answer. -/
def GateCall.Answer : GateCall → Type
  | .now => ℤ
  | .limiterAllow => Bool
  | .tokensGet _ _ => Option TokenResult
  | .namespacesGet _ _ => Option NamespaceResult
  | .accessGet _ _ => Option Bool
  | .enterFlight _ => Entered
  | .waitFlight _ => Reviewed
  | .reviewToken _ => Option (Option TokenReviewStatus × ℤ)
  | .getNamespace _ => Option (NamespaceAnswer × ℤ)
  | .reviewAccess _ => Option (Option AccessStatus × ℤ)
  | _ => Unit

/-- What the surroundings decide of a call: the clock, the limiter, and what the apiserver
says, if it does. -/
structure Outcome where
  clock : ℤ := 0
  allow : Bool := true
  token : Option (Option TokenReviewStatus) := none
  ns : Option NamespaceAnswer := none
  access : Option (Option AccessStatus) := none

def GateWorld.flying (world : GateWorld) (key : Str) : Option ℕ :=
  world.flights.findIdx? fun flight => flight.key == key && flight.landed.isNone

def GateWorld.landed (world : GateWorld) (flight : ℕ) : Option Reviewed :=
  world.flights[flight]?.bind (·.landed)

def GateWorld.record (world : GateWorld) (entry : Entry) : GateWorld :=
  { world with log := entry :: world.log }

def answer : (call : GateCall) → Outcome → GateWorld → call.Answer × GateWorld
  | .now, outcome, world => (outcome.clock, world)
  | .limiterAllow, outcome, world => (outcome.allow, world)
  | .tokensGet key now, _, world => (TtlCache.get world.tokens key now, world)
  | .tokensPut key result till now, _, world =>
    ((), { world with tokens := world.tokens.put cacheMaxEntries key result till now })
  | .namespacesGet key now, _, world => (TtlCache.get world.namespaces key now, world)
  | .namespacesPut key result till now, _, world =>
    ((), { world with namespaces := world.namespaces.put cacheMaxEntries key result till now })
  | .accessGet key now, _, world => (TtlCache.get world.access key now, world)
  | .accessPut key allowed till now, _, world =>
    ((), { world with access := world.access.put cacheMaxEntries key allowed till now })
  | .enterFlight key, _, world =>
    match world.flying key with
    | some flight => (.joins flight, world)
    | none =>
      (.leads world.flights.length, { world with flights := world.flights ++ [⟨key, none⟩] })
  | .waitFlight flight, _, world => ((world.landed flight).getD (.error .unavailable), world)
  | .landFlight flight landed, _, world =>
    ((), { world with flights := world.flights.modify flight ({ · with landed := some landed }) })
  | .reviewToken token, outcome, world =>
    match outcome.token with
    | none => (none, world)
    | some status =>
      (some (status, outcome.clock), world.record (.tokenReview token status outcome.clock))
  | .getNamespace ns, outcome, world =>
    match outcome.ns with
    | none => (none, world)
    | some found =>
      (some (found, outcome.clock), world.record (.namespaceGet ns found outcome.clock))
  | .reviewAccess review, outcome, world =>
    match outcome.access with
    | none => (none, world)
    | some status =>
      (some (status, outcome.clock), world.record (.accessReview review status outcome.clock))
  | .forward write, _, world => ((), world.record (.forwarded write))

def ready (world : GateWorld) : GateCall → Bool
  | .waitFlight flight => (world.landed flight).isSome
  | _ => true

/-! ## The questions -/

abbrev Asking := Prog GateCall GateCall.Answer

section Questions

variable (codec : TokenCodec)

def reviewInFlight (token : Str) : Asking Reviewed :=
  .call .now fun (now : ℤ) =>
    .call (.tokensGet (codec.sha256 token) now) fun (cached : Option TokenResult) =>
      match cached with
      | some result => .done (.ok ⟨result, now⟩)
      | none => .call .limiterAllow fun (allowed : Bool) =>
        if !allowed then .done (.error .rateLimited)
        else .call (.reviewToken token) fun (answered : Option (Option TokenReviewStatus × ℤ)) =>
          match answered with
          | none => .done (.error .unavailable)
          | some (status, now) =>
            let result := judgeToken codec token status
            .call (.tokensPut (codec.sha256 token) result (tokenTill codec token result now) now)
              fun _ => .done (.ok ⟨result, now⟩)

def reviewToken (token : Str) : Asking Reviewed :=
  .call .now fun (now : ℤ) =>
    .call (.tokensGet (codec.sha256 token) now) fun (cached : Option TokenResult) =>
      match cached with
      | some result => .done (.ok ⟨result, now⟩)
      | none => .call (.enterFlight (codec.sha256 token)) fun (entered : Entered) =>
        match entered with
        | .joins flight => .call (.waitFlight flight) fun (landed : Reviewed) => .done landed
        | .leads flight => do
          let landed ← reviewInFlight codec token
          .call (.landFlight flight landed) fun _ => .done landed

def namespacePrefix (ns : Str) : Asking (Option (Taken NamespaceResult)) :=
  .call .now fun (now : ℤ) =>
    .call (.namespacesGet ns now) fun (cached : Option NamespaceResult) =>
      match cached with
      | some result => .done (some ⟨result, now⟩)
      | none => .call (.getNamespace ns) fun (answered : Option (NamespaceAnswer × ℤ)) =>
        match answered with
        | none => .done none
        | some (found, now) =>
          let result := judgeNamespace ns found
          .call (.namespacesPut ns result (now + namespaceTTL) now)
            fun _ => .done (some ⟨result, now⟩)

def mayPush (id : PushIdentity) (repo : Str) : Asking (Option (Taken Bool)) :=
  .call .now fun (now : ℤ) =>
    .call (.accessGet (accessKey id repo) now) fun (cached : Option Bool) =>
      match cached with
      | some allowed => .done (some ⟨allowed, now⟩)
      | none => .call (.reviewAccess (pushReview id repo))
          fun (answered : Option (Option AccessStatus × ℤ)) =>
            match answered with
            | none => .done none
            | some (status, now) =>
              let allowed := judgeAccess status
              .call (.accessPut (accessKey id repo) allowed (now + accessTTL) now)
                fun _ => .done (some ⟨allowed, now⟩)

/-- What the client is told: 405, 400, 503, 429, 401 or 403, or what the registry
answers. -/
inductive Decision where
  | passed
  | refused
  | invalid
  | unavailable
  | tooMany
  | unauthenticated
  | denied
  | forwarded
  deriving DecidableEq

structure GateRequest where
  method : Method
  rawPath : Str
  rawQuery : Str
  /-- The path as it was decoded on arrival. -/
  decodedPath : Str
  /-- `basicPassword`. -/
  password : Option Str

def GateRoute.repos (route : GateRoute) : List Str :=
  if route.source = [] then [route.repo] else [route.repo, route.source]

/-- The last loop: may the identity push each repository?  The readings of those that it
may are kept. -/
def pushEach (id : PushIdentity) (finish : List (Str × ℤ) → Asking Decision) :
    List Str → List (Str × ℤ) → Asking Decision
  | [], readings => finish readings
  | repo :: rest, readings => do
    match ← mayPush id repo with
    | none => .done .unavailable
    | some taken =>
      if !taken.result then .done .denied
      else pushEach id finish rest (readings ++ [(repo, taken.reading)])

/-- The access of an identity that passed, and the forward. -/
def authorizeAccess (token : Str) (route : GateRoute) (taken : Taken TokenResult)
    (namespaceReading : Option ℤ) : Asking Decision :=
  pushEach taken.result.id (fun accessReadings =>
    .call (.forward ⟨token, route, taken.result.id, taken.reading, namespaceReading,
      accessReadings⟩) fun _ => .done .forwarded) route.repos []

def authorizeIdentity (token : Str) (route : GateRoute) (taken : Taken TokenResult) :
    Asking Decision :=
  if taken.result.id.ns = [] then .done .denied
  else if taken.result.id.isBuilder then authorizeAccess token route taken none
  else do
    match ← namespacePrefix taken.result.id.ns with
    | none => .done .unavailable
    | some found =>
      if found.result.pushPrefix = [] then .done .denied
      else if !route.repos.all (underPrefix · found.result.pushPrefix) then .done .denied
      else authorizeAccess token route taken (some found.reading)

/-- `authorizeWrite`, of a gate that has its clients and its credential. -/
def authorizeWrite (request : GateRequest) (route : GateRoute) : Asking Decision :=
  match request.password with
  | none => .done .unauthenticated
  | some token =>
    if !tokenShapeOK token then .done .unauthenticated
    else do
      match ← reviewToken codec token with
      | .error .rateLimited => .done .tooMany
      | .error .unavailable => .done .unavailable
      | .ok taken =>
        if taken.result.reason.isSome then .done .unauthenticated
        else authorizeIdentity token route taken

variable (withName : WithName)

def serveGate (request : GateRequest) : Asking Decision :=
  let route := classify withName request.method request.rawPath request.rawQuery
  if route.op = .read then .done .passed
  else if route.op = .refused then .done .refused
  else if route.op = .invalid ∨ request.decodedPath ≠ request.rawPath then .done .invalid
  else authorizeWrite codec request route

end Questions

/-- A gate's history: requests arrive and take their turns. -/
abbrev GatePool := Pool GateCall GateCall.Answer GateWorld Decision

def gateNext (codec : TokenCodec) (withName : WithName) :
    GatePool → Move GateRequest Outcome → GatePool :=
  Pool.next answer ready (serveGate codec withName)

end K3sm.Registry.Gate
