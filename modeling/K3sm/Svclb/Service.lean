import K3sm.Core.Url
import K3sm.Netserve.Resolver

/-!
# Services, nodes and what they exchange

The decider on the server and the hoster on every node talk through two annotations: the
stamp, which names the nodes that must bind a Service, and the bound report, in which a node
names the Services it holds.  This module has the objects both read and the two formats.
-/

namespace K3sm.Svclb

open K3sm.Core
open K3sm.Core.Filepath (Str)

/-- The functions of `net/netip` in use. -/
structure Netip (Addr Range : Type*) where
  parseAddr : Str → Option Addr
  parsePrefix : Str → Option Range
  masked : Range → Range
  contains : Range → Addr → Bool
  unmap : Addr → Addr
  is4 : Addr → Bool
  isValid : Addr → Bool
  isLoopback : Addr → Bool
  isUnspecified : Addr → Bool
  string : Addr → Str

def dotted (addr : ℕ) : Str :=
  ['.'].intercalate ([addr / 2 ^ 24, addr / 2 ^ 16 % 256, addr / 2 ^ 8 % 256, addr % 256].map
    fun octet => (Nat.repr octet).toList)

/-- The functions on IPv4 addresses, as numbers, and on ranges of them, as an address and a
length. -/
def ipv4 : Netip ℕ (ℕ × ℕ) where
  parseAddr text := (Netserve.parseIPv4 text).map BitVec.toNat
  parsePrefix text :=
    let (base, bits) := cut '/' text
    match Netserve.parseIPv4 base, bits.bind Netserve.parseOctet with
    | some addr, some length => if length ≤ 32 then some (addr.toNat, length) else none
    | _, _ => none
  masked range := (range.1 / 2 ^ (32 - range.2) * 2 ^ (32 - range.2), range.2)
  contains range addr := addr / 2 ^ (32 - range.2) = range.1 / 2 ^ (32 - range.2)
  unmap := id
  is4 _ := true
  isValid _ := true
  isLoopback addr := addr / 2 ^ 24 = 127
  isUnspecified addr := addr = 0
  string := dotted

inductive ServiceType
  | clusterIP
  | nodePort
  | loadBalancer
  | externalName
  deriving DecidableEq

structure ServicePort where
  protocol : Str
  port : ℤ
  deriving DecidableEq

structure LoadBalancerIngress where
  ip : Str
  hostname : Str
  ipMode : Option Str
  ports : List ℤ
  deriving DecidableEq

structure Service where
  ns : Str
  name : Str
  uid : Str
  type : ServiceType
  loadBalancerClass : Option Str
  labels : Str → Option Str
  annotations : Str → Option Str
  clusterIP : Str
  ports : List ServicePort
  loadBalancerSourceRanges : List Str
  /-- `status.loadBalancer.ingress`. -/
  ingress : List LoadBalancerIngress

structure NodeCondition where
  type : Str
  status : Str

structure Node where
  name : Str
  labels : Str → Option Str
  annotations : Str → Option Str
  conditions : List NodeCondition

def enableLBLabel : Str := "svclb.k3sm.io/enablelb".toList

def lbPoolLabel : Str := "svclb.k3sm.io/lbpool".toList

def lbPoolNodeLabelStem : Str := "lbpool.svclb.k3sm.io/".toList

def ignoreLabel : Str := "svclb.k3sm.io/ignore".toList

def hostsAnnotation : Str := "svclb.k3sm.io/hosts".toList

def boundAnnotation : Str := "svclb.k3sm.io/bound".toList

def sourceRangesAnnotation : Str := "service.beta.kubernetes.io/load-balancer-source-ranges".toList

def yes : Str := "true".toList

def Service.key (svc : Service) : Str := svc.ns ++ '/' :: svc.name

/-- svclb is to serve the Service. -/
def claims (svc : Service) : Bool :=
  svc.type = .loadBalancer && svc.loadBalancerClass.isNone && svc.labels ignoreLabel ≠ some yes

def isTCP (port : ServicePort) : Bool :=
  port.protocol = [] || port.protocol = "TCP".toList

def nodeReady (node : Node) : Bool :=
  match node.conditions.find? fun condition => condition.type = "Ready".toList with
  | none => false
  | some condition => condition.status = "True".toList

def formatHosts (hosts : List Str) : Str := [','].intercalate hosts

/-- The hosts of a Service's stamp; none when it has no stamp. -/
def parseHosts (svc : Service) : Option (List Str) :=
  (svc.annotations hostsAnnotation).map fun value =>
    ((value.splitOn ',').map trimSpace).filter (· ≠ [])

def maxBoundBytes : ℕ := 64 * 1024

def maxIncarnationLen : ℕ := 64

def byteLength (text : Str) : ℕ := (text.map fun char => char.utf8Size).sum

def reportEntry (svc : Service) : Str := svc.key ++ ':' :: svc.uid

/-- A node's report of the Services it has bound. -/
structure BoundReport where
  incarnation : Str
  entries : List Str
  deriving DecidableEq

def appendEntries (value : Str) (separator : Str) : List Str → Str × Bool
  | [] => (value, false)
  | entry :: rest =>
    if maxBoundBytes < byteLength value + separator.length + byteLength entry then (value, true)
    else appendEntries (value ++ separator ++ entry) [','] rest

def formatBound (incarnation : Str) (entries : List Str) : Str × Bool :=
  appendEntries (incarnation ++ [';']) [] (entries.insertionSort (· ≤ ·))

def parseBound (value : Str) : Option BoundReport :=
  if maxBoundBytes < byteLength value then none
  else
    let (incarnation, list) := cut ';' value
    if incarnation = [] || maxIncarnationLen < byteLength incarnation then none
    else list.map fun list => ⟨incarnation, (list.splitOn ',').filter (· ≠ [])⟩

/-- A report read from a node; none when it has none or one that no hoster writes. -/
def readBound (node : Node) : Option BoundReport :=
  (node.annotations boundAnnotation).bind parseBound

/-! ## Source ranges -/

variable {Addr Range : Type*}

def rangeEntries (svc : Service) : List Str :=
  if svc.loadBalancerSourceRanges ≠ [] then svc.loadBalancerSourceRanges
  else
    let value := trimSpace ((svc.annotations sourceRangesAnnotation).getD [])
    if value = [] then [] else value.splitOn ','

/-- The source ranges of a Service, all or nothing; the empty set allows everyone. -/
def sourceRanges (netip : Netip Addr Range) (svc : Service) : Option (List Range) :=
  (rangeEntries svc).mapM fun entry => (netip.parsePrefix (trimSpace entry)).map netip.masked

def allows (netip : Netip Addr Range) (ranges : List Range) (peer : Addr) : Bool :=
  ranges = [] || ranges.any fun range => netip.contains range (netip.unmap peer)

def allowsConn (netip : Netip Addr Range) (ranges : List Range) (peer : Option Addr) : Bool :=
  ranges = [] || peer.any (allows netip ranges)

end K3sm.Svclb
