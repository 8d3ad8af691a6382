import K3sm.Core.Run
import K3sm.Svclb.Service

/-!
# The hoster of a node

The hoster binds the Services stamped onto its node, enforces their source ranges at every accept
and reports on its own Node the Services whose every TCP port it holds.
-/

namespace K3sm.Svclb

open K3sm.Core
open K3sm.Core.Filepath (Str)

variable {Addr Range : Type*} [LinearOrder Addr]

/-- The name of a report period: random, of hexadecimal digits. -/
structure Incarnation where
  text : Str
  nonempty : text ≠ []
  plain : ';' ∉ text
  short : byteLength text ≤ maxIncarnationLen

structure Forwarder (Addr Range : Type*) where
  key : Str
  port : ℤ
  dst : Addr × ℕ
  /-- The source ranges enforced at accept. -/
  ranges : List Range
  /-- The addresses it listens on. -/
  lns : List Addr
  /-- Its accept loop has not ended. -/
  accepting : Bool

structure HosterConfig where
  nodeName : Str
  reservedPorts : List ℤ
  privilegedPorts : List ℕ
  /-- Namespace and name of the canonical ingress Service. -/
  ingressService : Str × Str

structure Hoster (Addr Range : Type*) where
  forwarders : List (Forwarder Addr Range)
  lastRanges : Str → Option (List Range)
  incarnation : Incarnation
  reset : Bool
  /-- The last report written; empty before the first. -/
  reported : Str
  ownReady : Option Bool
  addrs : List Addr
  /-- The report entries of the last pass by Service. -/
  entries : List (Str × Str)
  ingressPorts : List ℤ

def Hoster.new (incarnation : Incarnation) (addrs : List Addr) : Hoster Addr Range where
  forwarders := []
  lastRanges _ := none
  incarnation := incarnation
  reset := false
  reported := []
  ownReady := none
  addrs := addrs
  entries := []
  ingressPorts := []

def uint16 (port : ℤ) : ℕ := (port % 65536).toNat

/-- What becomes of a write to the apiserver: its call may return an error although it landed. -/
inductive WriteOutcome
  | ok
  | lost
  | landedWithError
  deriving DecidableEq

section Addresses

variable (netip : Netip Addr Range)

def privilegedPortMax : ℤ := 1023

/-- The addresses a listener on a port binds, before they are sorted; the IPv4 wildcard stands
for all. -/
def bindAddrs (port : ℕ) (keepLoopback : Bool) : List Addr → List Addr ⊕ Addr
  | [] => .inl []
  | addr :: rest =>
    if !netip.isValid addr then bindAddrs port keepLoopback rest
    else
      let addr := netip.unmap addr
      if netip.isUnspecified addr && netip.is4 addr then .inr addr
      else if port ≤ privilegedPortMax && netip.isLoopback addr && !keepLoopback then
        bindAddrs port keepLoopback rest
      else
        match bindAddrs port keepLoopback rest with
        | .inl others => .inl (addr :: others)
        | .inr wildcard => .inr wildcard

def effectiveBindAddrs (addrs : List Addr) (port : ℕ) (keepLoopback : Bool) : List Addr :=
  match bindAddrs netip port keepLoopback addrs with
  | .inl found => (found.insertionSort (· ≤ ·)).dedup
  | .inr wildcard => [wildcard]

def isWildcard (addrs : List Addr) : Bool :=
  addrs.any fun addr => netip.isUnspecified (netip.unmap addr)

def effective (config : HosterConfig) (addrs : List Addr) (port : ℤ) : List Addr :=
  effectiveBindAddrs netip addrs (uint16 port) (config.privilegedPorts.contains (uint16 port))

end Addresses

section Reconcile

variable (netip : Netip Addr Range) (config : HosterConfig)

def isDesired (svc : Service) : Bool :=
  claims svc && (parseHosts svc).any fun hosts => hosts.contains config.nodeName

def tcpPorts (svc : Service) : List ℤ := (svc.ports.filter isTCP).map (·.port)

def destination (svc : Service) (port : ℤ) : Option (Addr × ℕ) :=
  (netip.parseAddr svc.clusterIP).bind fun vip =>
    if port ∈ tcpPorts svc then some (vip, uint16 port) else none

/-- A forwarder that still matches its Service and a port that is free. -/
def keeps (svcs : List Service) (ingressPorts : List ℤ) (forwarder : Forwarder Addr Range) : Bool :=
  (svcs.any fun svc => isDesired config svc && svc.key = forwarder.key &&
    destination netip svc forwarder.port = some forwarder.dst) &&
  !ingressPorts.contains forwarder.port

def ingressServicePorts (svcs : List Service) : List ℤ :=
  if config.ingressService.1 = [] || config.ingressService.2 = [] then []
  else
    match svcs.find? fun svc =>
        svc.ns = config.ingressService.1 && svc.name = config.ingressService.2 with
    | none => []
    | some svc => svc.ports.map (·.port)

/-- Opens a listener on every address of the set, or none of them. -/
def bind (hoster : Hoster Addr Range) (ingressPorts : List ℤ) (key : Str) (port : ℤ)
    (dst : Addr × ℕ) (ranges : List Range) (lands : Bool) : Option (Forwarder Addr Range) :=
  if config.reservedPorts.contains port || ingressPorts.contains port then none
  else if effective netip config hoster.addrs port = [] then none
  else if lands then
    some ⟨key, port, dst, ranges, effective netip config hoster.addrs port, true⟩
  else none

structure Serving (Addr Range : Type*) where
  table : List (Forwarder Addr Range)
  tcp : ℕ
  bound : ℕ

def holdsPort (key : Str) (port : ℤ) (forwarder : Forwarder Addr Range) : Bool :=
  forwarder.key = key && forwarder.port = port

def setRanges (key : Str) (port : ℤ) (ranges : List Range) (forwarder : Forwarder Addr Range) :
    Forwarder Addr Range :=
  if holdsPort key port forwarder then { forwarder with ranges := ranges } else forwarder

def servePort (hoster : Hoster Addr Range) (ingressPorts : List ℤ) (key : Str) (vip : Addr)
    (ranges : List Range) (lands : ℕ → Bool) (serving : Serving Addr Range)
    (entry : ServicePort × ℕ) : Serving Addr Range :=
  let port := entry.1.port
  if !isTCP entry.1 then serving
  else if serving.table.any (holdsPort key port) then
    ⟨serving.table.map (setRanges key port ranges), serving.tcp + 1, serving.bound + 1⟩
  else
    match bind netip config hoster ingressPorts key port (vip, uint16 port) ranges
      (lands entry.2) with
    | none => ⟨serving.table, serving.tcp + 1, serving.bound⟩
    | some forwarder => ⟨forwarder :: serving.table, serving.tcp + 1, serving.bound + 1⟩

structure Progress (Addr Range : Type*) where
  table : List (Forwarder Addr Range)
  lastRanges : Str → Option (List Range)
  entries : List (Str × Str)

/-- The ranges to enforce; none when no listener may open. -/
def rangesFor (progress : Progress Addr Range) (svc : Service) : Option (List Range) :=
  match sourceRanges netip svc with
  | some ranges => some ranges
  | none =>
    if progress.table.any fun forwarder => forwarder.key = svc.key then
      -- a missing entry of the map reads as the empty set
      some ((progress.lastRanges svc.key).getD [])
    else none

/-- The bind of the port at a position of a Service's list succeeds. -/
abbrev Binds := Str → ℕ → Bool

def reconcileService (hoster : Hoster Addr Range) (ingressPorts : List ℤ) (binds : Binds)
    (progress : Progress Addr Range) (svc : Service) : Progress Addr Range :=
  match netip.parseAddr svc.clusterIP with
  | none => progress
  | some vip =>
    match rangesFor netip progress svc with
    | none => progress
    | some ranges =>
      let served := svc.ports.zipIdx.foldl
        (servePort netip config hoster ingressPorts svc.key vip ranges (binds svc.key))
        ⟨progress.table, 0, 0⟩
      { table := served.table
        lastRanges := if (sourceRanges netip svc).isSome then
            Function.update progress.lastRanges svc.key (some ranges)
          else progress.lastRanges
        entries := if 0 < served.tcp && served.bound = served.tcp then
            (svc.key, reportEntry svc) :: progress.entries
          else progress.entries }

end Reconcile

/-! ## The hoster and its Node -/

/-- What the passes were handed, beside what the hoster keeps: the Service last seen under a
name, and the last ranges of a Service that parsed. -/
structure Handed (Range : Type*) where
  uid : Str → Option Str
  parsed : Str → Str → Option (List Range)

/-- The hoster, its Node, and the Services as it was handed them. -/
structure World (Addr Range : Type*) where
  hoster : Hoster Addr Range
  /-- The bound annotation of the Node. -/
  boundValue : Option Str
  handed : Handed Range

/-- One pass: the Node as the hoster sees it, a fresh incarnation should it need one, the
Services, and what becomes of its binds and writes. -/
structure HosterPass where
  ownReady : Option Bool
  fresh : Incarnation
  resetWrite : WriteOutcome
  svcs : List Service
  nodup : (svcs.map (·.key)).Nodup
  /-- The apiserver takes a port of a protocol once in a Service. -/
  distinct : ∀ svc ∈ svcs, (tcpPorts svc).Nodup
  /-- Names are labels and identities are UUIDs. -/
  plain : ∀ svc ∈ svcs, ',' ∉ reportEntry svc
  binds : Binds
  reportWrite : WriteOutcome

inductive PrepareOutcome
  | ok
  | policyRefusal
  | accessDenied
  | other
  deriving DecidableEq

/-- A swap of the address set: what becomes of the binds, and whether it is committed. -/
structure RebindRequest (Addr : Type*) where
  addrs : List Addr
  outcome : Str → ℤ → PrepareOutcome
  keep : Bool
  reportWrite : WriteOutcome

/-- A pass of the hoster, or what happens between two. -/
inductive HosterEvent (Addr : Type*)
  | reset (write : WriteOutcome)
  | pass (pass : HosterPass)
  | acceptFails (key : Str) (port : ℤ)
  | rebind (request : RebindRequest Addr)

def landed (boundValue : Option Str) (value : Str) : WriteOutcome → Option Str
  | .lost => boundValue
  | .ok => some value
  | .landedWithError => some value

section Steps

variable (netip : Netip Addr Range) (config : HosterConfig)

def report (world : World Addr Range) (entries : List Str) (write : WriteOutcome) :
    World Addr Range :=
  let value := (formatBound world.hoster.incarnation.text entries).1
  if value = world.hoster.reported then world
  else
    { world with
      hoster := if write = .ok then { world.hoster with reported := value } else world.hoster
      boundValue := landed world.boundValue value write }

def resetReport (world : World Addr Range) (write : WriteOutcome) : World Addr Range :=
  let value := (formatBound world.hoster.incarnation.text []).1
  { world with
    hoster := if write = .ok then { world.hoster with reset := true, reported := value }
      else world.hoster
    boundValue := landed world.boundValue value write }

def turnsReady (hoster : Hoster Addr Range) (ownReady : Option Bool) : Bool :=
  hoster.ownReady = some false && ownReady = some true

def observeOwnReady (hoster : Hoster Addr Range) (pass : HosterPass) : Hoster Addr Range :=
  match pass.ownReady with
  | none => hoster
  | some ready =>
    if turnsReady hoster pass.ownReady then
      { hoster with incarnation := pass.fresh, reported := [], ownReady := some ready }
    else { hoster with ownReady := some ready }

def handOver (handed : Handed Range) (svcs : List Service) : Handed Range where
  uid key := (svcs.find? fun svc => svc.key = key).map (·.uid)
  parsed key uid :=
    match (svcs.find? fun svc => svc.key = key && svc.uid = uid).bind (sourceRanges netip) with
    | some ranges => some ranges
    | none => handed.parsed key uid

/-- The forwarders that no longer match are stopped, and with the last of a Service its ranges
are forgotten. -/
def teardown (hoster : Hoster Addr Range) (svcs : List Service) : Progress Addr Range :=
  let table := hoster.forwarders.filter (keeps netip config svcs (ingressServicePorts config svcs))
  { table := table
    lastRanges := fun key =>
      if table.any fun forwarder => forwarder.key = key then hoster.lastRanges key else none
    entries := [] }

def reconcileAll (hoster : Hoster Addr Range) (pass : HosterPass) : Progress Addr Range :=
  (pass.svcs.filter (isDesired config)).foldl
    (reconcileService netip config hoster (ingressServicePorts config pass.svcs) pass.binds)
    (teardown netip config hoster pass.svcs)

def hosterReconcile (world : World Addr Range) (pass : HosterPass) : World Addr Range :=
  let progress := reconcileAll netip config world.hoster pass
  report
    { world with
      hoster := { world.hoster with
        forwarders := progress.table
        lastRanges := progress.lastRanges
        entries := progress.entries
        ingressPorts := ingressServicePorts config pass.svcs }
      handed := handOver netip world.handed pass.svcs }
    (progress.entries.map Prod.snd) pass.reportWrite

/-- A pass up to its reconcile: the node is looked at, and the start-of-life report is tried when
it is not known to have landed. -/
def prepareStep (world : World Addr Range) (pass : HosterPass) : World Addr Range :=
  let observed := { world with hoster := observeOwnReady world.hoster pass }
  if observed.hoster.reset then observed else resetReport observed pass.resetWrite

/-- One pass; nothing is bound before the start-of-life report is known to have landed. -/
def hosterStep (world : World Addr Range) (pass : HosterPass) : World Addr Range :=
  let prepared := prepareStep world pass
  if prepared.hoster.reset then hosterReconcile netip config prepared pass else prepared

/-- A port the new set takes off this node instead of failing the swap. -/
def takesOff (request : RebindRequest Addr) (forwarder : Forwarder Addr Range) : Bool :=
  let want := effective netip config request.addrs forwarder.port
  let outcome := request.outcome forwarder.key forwarder.port
  forwarder.port ≤ privilegedPortMax &&
    if want = [] then !isWildcard netip request.addrs
    else if want.all fun addr => forwarder.lns.contains addr then false
    else outcome = .policyRefusal || (!isWildcard netip request.addrs && outcome = .accessDenied)

/-- A port whose new addresses are bound, or were bound before. -/
def prepares (request : RebindRequest Addr) (forwarder : Forwarder Addr Range) : Bool :=
  let want := effective netip config request.addrs forwarder.port
  want ≠ [] && ((want.all fun addr => forwarder.lns.contains addr) ||
    request.outcome forwarder.key forwarder.port = .ok)

def unserved (hoster : Hoster Addr Range) (request : RebindRequest Addr) (key : Str) : Bool :=
  hoster.forwarders.any fun forwarder =>
    forwarder.key = key && takesOff netip config request forwarder

/-- The committed listener: the addresses of the new set it had, and those it was prepared
on. -/
def commit (request : RebindRequest Addr) (forwarder : Forwarder Addr Range) :
    Forwarder Addr Range :=
  let want := effective netip config request.addrs forwarder.port
  { forwarder with
    lns := (forwarder.lns.filter fun addr => want.contains addr) ++
      want.filter fun addr => !forwarder.lns.contains addr }

def commitRebind (world : World Addr Range) (request : RebindRequest Addr) : World Addr Range :=
  let gone := unserved netip config world.hoster request
  let kept := world.hoster.entries.filter fun entry => !gone entry.1
  let withdrawn :=
    if world.hoster.forwarders.any fun forwarder => gone forwarder.key then
      report world (kept.map Prod.snd) request.reportWrite
    else world
  { withdrawn with
    hoster := { withdrawn.hoster with
      forwarders := (world.hoster.forwarders.filter fun forwarder => !gone forwarder.key).map
        (commit netip config request)
      entries := kept
      addrs := request.addrs } }

/-- A swap happens when every forwarder is prepared or taken off, and it is then kept. -/
def handleRebind (world : World Addr Range) (request : RebindRequest Addr) : World Addr Range :=
  let valid := request.addrs ≠ [] && request.addrs.all netip.isValid
  let prepared := world.hoster.forwarders.all fun forwarder =>
    prepares netip config request forwarder || takesOff netip config request forwarder
  if valid && prepared && request.keep then commitRebind netip config world request else world

def acceptFails (world : World Addr Range) (key : Str) (port : ℤ) : World Addr Range :=
  { world with
    hoster := { world.hoster with
      forwarders := world.hoster.forwarders.map fun forwarder =>
        if holdsPort key port forwarder then { forwarder with accepting := false }
          else forwarder } }

def next (world : World Addr Range) : HosterEvent Addr → World Addr Range
  | .reset write => resetReport world write
  | .pass pass => hosterStep netip config world pass
  | .acceptFails key port => acceptFails world key port
  | .rebind request => handleRebind netip config world request

/-- A hoster that starts on a Node with whatever report its predecessor left. -/
def start (incarnation : Incarnation) (addrs : List Addr) (boundValue : Option Str) :
    World Addr Range :=
  ⟨Hoster.new incarnation addrs, boundValue, ⟨fun _ => none, fun _ _ => none⟩⟩

end Steps

end K3sm.Svclb
