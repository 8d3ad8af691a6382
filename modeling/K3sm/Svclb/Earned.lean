import K3sm.Svclb.Service

/-!
# Published addresses are earned

The server picks the nodes that must host every claimed Service, stamps them on it, and writes its
status from those that are Ready and report it bound.  A node that has just turned Ready under the
incarnation it had before is not believed until the hold-down is over: its report may be from
before a restart.
-/

namespace K3sm.Svclb

open K3sm.Core
open K3sm.Core.Filepath (Str)

variable {Addr Range : Type*} [LinearOrder Addr]

section Hosts

abbrev Addrs (Addr : Type*) := List (Str × Addr)

def Addrs.get? (addrs : Addrs Addr) (name : Str) : Option Addr :=
  (addrs.find? fun entry => entry.1 = name).map Prod.snd

variable (netip : Netip Addr Range) (nodes : List Node) (svc : Service) (addrs : Addrs Addr)

def allowListMode : Bool := nodes.any fun node => node.labels enableLBLabel = some yes

def inPool (node : Node) (pool : Str) : Bool :=
  (node.labels lbPoolLabel).getD [] = pool || node.labels (lbPoolNodeLabelStem ++ pool) = some yes

def advertisable (addr : Addr) : Bool :=
  netip.isValid addr && !netip.isLoopback addr && !netip.isUnspecified addr

def eligible (node : Node) : Bool :=
  (!allowListMode nodes || node.labels enableLBLabel = some yes) &&
    ((svc.labels lbPoolLabel).all fun pool => inPool node pool) &&
    (Addrs.get? addrs node.name).any (advertisable netip)

def selectHosts : List Str :=
  ((nodes.filter (eligible netip nodes svc addrs)).map (·.name)).insertionSort (· ≤ ·)

/-- The address of a host that is Ready and whose trusted report lists the Service. -/
def hostAddr (reports : Str → Option BoundReport) (host : Str) : Option Addr :=
  match nodes.reverse.find? fun node => node.name = host with
  | none => none
  | some node =>
    if !nodeReady node then none
    else if !(reports host).any fun report => decide (reportEntry svc ∈ report.entries) then none
    else (Addrs.get? addrs host).filter (advertisable netip)

def computeIngress (hosts : List Str) (reports : Str → Option BoundReport) :
    List LoadBalancerIngress :=
  (((hosts.filterMap (hostAddr netip nodes svc addrs reports)).insertionSort (· ≤ ·)).dedup).map
    fun addr => ⟨netip.string addr, [], none, []⟩

end Hosts

def ingressEqual (live want : List LoadBalancerIngress) : Bool :=
  live.length = want.length && (live.zip want).all fun pair =>
    pair.1.ip = pair.2.ip && pair.1.hostname = [] && pair.1.ipMode = none && pair.1.ports = []

structure NodeObs where
  ready : Bool
  /-- The incarnation of the node's report when it was last seen Ready; empty for none. -/
  lastReadyInc : Str
  deriving DecidableEq

structure Distrust where
  inc : Str
  since : ℤ
  deriving DecidableEq

structure NodeTrust where
  obs : Option NodeObs
  distrusted : Option Distrust
  trusted : Option BoundReport

def observeNode (holdDown now : ℤ) (before : NodeTrust) (node : Node) : NodeTrust :=
  let ready := nodeReady node
  let report := readBound node
  let inc := (report.map (·.incarnation)).getD []
  let lastReadyInc := (before.obs.map (·.lastReadyInc)).getD []
  let returned := (before.obs.any fun obs => !obs.ready) && ready
  let distrusted := if returned then some ⟨lastReadyInc, now⟩ else before.distrusted
  let distrusts := distrusted.any fun doubt => doubt.inc = inc && now - doubt.since < holdDown
  { obs := some ⟨ready, if ready then inc else lastReadyInc⟩
    distrusted := if distrusts then distrusted else none
    trusted := if distrusts then none else report }

/-- What the decider is started with. -/
structure DeciderConfig (Addr : Type*) where
  selfNode : Str
  /-- None for the zero address. -/
  selfAddr : Option Addr
  holdDown : ℤ

structure Decider (Addr : Type*) where
  /-- The last good answer of `PeerAddresses`. -/
  peers : Addrs Addr
  nodes : Str → NodeTrust
  disclaimed : Str → Bool

def Decider.new : Decider Addr where
  peers := []
  nodes _ := ⟨none, none, none⟩
  disclaimed _ := false

/-- A Service as a pass meets it: the clock when the hold-down is asked, and whether the
apiserver takes the patch of the stamp and of the status. -/
structure Turn where
  svc : Service
  now : ℤ
  stampLands : Bool
  statusLands : Bool

/-- One pass: what `PeerAddresses` answers, the clock, and the cache. -/
structure Pass (Addr : Type*) where
  now : ℤ
  peers : Option (Addrs Addr)
  nodes : List Node
  nodup : (nodes.map (·.name)).Nodup
  svcs : List Turn

/-- A write of the decider to a Service. -/
inductive Write
  | stamp (svc : Service) (value : Option Str)
  | status (svc : Service) (ingress : List LoadBalancerIngress)

section Reconcile

variable (netip : Netip Addr Range) (config : DeciderConfig Addr) (startedAt : ℤ)

/-- The addresses the servers hold, with the decider's own. -/
def addresses (peers : Addrs Addr) : Addrs Addr :=
  match config.selfAddr with
  | none => peers
  | some self =>
    if config.selfNode ≠ [] ∧ advertisable netip self = true then
      (config.selfNode, self) :: peers.filter fun entry => entry.1 ≠ config.selfNode
    else peers

def observeAll (now : ℤ) (before : Str → NodeTrust) (nodes : List Node) : Str → NodeTrust :=
  nodes.foldl (fun trust node =>
    Function.update trust node.name (observeNode config.holdDown now (trust node.name) node)) before

/-- What a pass believes, and what it remembers: a node that is not listed is forgotten. -/
def trustedReports (now : ℤ) (before : Str → NodeTrust) (nodes : List Node)
    (name : Str) : NodeTrust :=
  if nodes.any fun node => node.name = name then observeAll config now before nodes name
  else ⟨none, none, none⟩

def decide_ (pass : Pass Addr) (addrs : Addrs Addr) (reports : Str → Option BoundReport)
    (turn : Turn) : List Write :=
  let hosts := selectHosts netip pass.nodes turn.svc addrs
  let stamp := formatHosts hosts
  let stamped := decide (turn.svc.annotations hostsAnnotation = some stamp)
  let first := if stamped then [] else [Write.stamp turn.svc (some stamp)]
  if !stamped && !turn.stampLands then first
  else
    let allReport := hosts.all fun host =>
      (reports host).any fun report => decide (reportEntry turn.svc ∈ report.entries)
    let want := computeIngress netip pass.nodes turn.svc addrs hosts reports
    if ingressEqual turn.svc.ingress want then first
    else if turn.now - startedAt < config.holdDown && !allReport then first
    else first ++ [Write.status turn.svc want]

/-- A Service svclb does not claim: the writes, and whether it is disclaimed from now on. -/
def unclaim (addrs : Addrs Addr) (disclaimed : Bool) (turn : Turn) : List Write × Bool :=
  let stamped := (turn.svc.annotations hostsAnnotation).isSome
  let first := if stamped then [Write.stamp turn.svc none] else []
  if turn.svc.type ≠ .loadBalancer then
    if stamped && turn.svc.ingress ≠ [] then (first ++ [Write.status turn.svc []], disclaimed)
    else (first, disclaimed)
  else if turn.svc.loadBalancerClass.isSome && !disclaimed then
    let ours := addrs.map fun entry => netip.string entry.2
    let keep := turn.svc.ingress.filter fun entry => !ours.contains entry.ip
    if keep.length = turn.svc.ingress.length then (first, true)
    else (first ++ [Write.status turn.svc keep], turn.statusLands)
  else (first, disclaimed)

def settle (pass : Pass Addr) (addrs : Addrs Addr) (reports : Str → Option BoundReport)
    (disclaimed : Str → Bool) (turn : Turn) : (Str → Bool) × List Write :=
  if claims turn.svc then
    (disclaimed, decide_ netip config startedAt pass addrs reports turn)
  else
    let result := unclaim netip addrs (disclaimed turn.svc.key) turn
    (Function.update disclaimed turn.svc.key result.2, result.1)

def settleAll (pass : Pass Addr) (addrs : Addrs Addr) (reports : Str → Option BoundReport) :
    (Str → Bool) → List Turn → (Str → Bool) × List Write
  | disclaimed, [] => (disclaimed, [])
  | disclaimed, turn :: rest =>
    let first := settle netip config startedAt pass addrs reports disclaimed turn
    let others := settleAll pass addrs reports first.1 rest
    (others.1, first.2 ++ others.2)

def reconcile (decider : Decider Addr) (pass : Pass Addr) : Decider Addr × List Write :=
  let peers := pass.peers.getD decider.peers
  let addrs := addresses netip config peers
  let trust := trustedReports config pass.now decider.nodes pass.nodes
  let settled := settleAll netip config startedAt pass addrs (fun name => (trust name).trusted)
    decider.disclaimed pass.svcs
  (⟨peers, trust, settled.1⟩, settled.2)

end Reconcile

section Passes

variable (netip : Netip Addr Range) (config : DeciderConfig Addr) (startedAt : ℤ)
  (passes : ℕ → Pass Addr)

def deciderAt : ℕ → Decider Addr
  | 0 => Decider.new
  | count + 1 => (reconcile netip config startedAt (deciderAt count) (passes count)).1

def writesAt (count : ℕ) : List Write :=
  (reconcile netip config startedAt (deciderAt netip config startedAt passes count)
    (passes count)).2

/-- The report of the node that the pass trusts. -/
def trustedAt (count : ℕ) (name : Str) : Option BoundReport :=
  (trustedReports config (passes count).now (deciderAt netip config startedAt passes count).nodes
    (passes count).nodes name).trusted

end Passes

open List Option

variable {Addr Range : Type*} [LinearOrder Addr] {netip : Netip Addr Range}
  {config : DeciderConfig Addr} {startedAt : ℤ} {passes : ℕ → Pass Addr}

def Write.target : Write → Service
  | .stamp svc _ => svc
  | .status svc _ => svc

section Status

variable {nodes : List Node} {svc : Service} {addrs : Addrs Addr}
  {reports : Str → Option BoundReport} {host : Str}

omit [LinearOrder Addr] in
theorem mem_selectHosts :
    host ∈ selectHosts netip nodes svc addrs ↔
      ∃ node ∈ nodes, eligible netip nodes svc addrs node = true ∧ node.name = host := by
  simp [selectHosts, mem_insertionSort, and_assoc]

omit [LinearOrder Addr] in
theorem hostAddr_eq_some {addr : Addr}
    (haddr : hostAddr netip nodes svc addrs reports host = some addr) :
    ∃ node ∈ nodes, node.name = host ∧ nodeReady node = true ∧ Addrs.get? addrs host = some addr ∧
      ∃ report, reports host = some report ∧ reportEntry svc ∈ report.entries := by
  rw [hostAddr] at haddr
  split at haddr
  case h_1 => cases haddr
  rename_i node hfind
  have hname : node.name = host := by simpa using List.find?_some hfind
  have hmem : node ∈ nodes := mem_reverse.1 (mem_of_find?_eq_some hfind)
  split_ifs at haddr with hready hreport
  rw [Bool.not_eq_true', Bool.not_eq_false] at hready hreport
  refine ⟨node, hmem, hname, hready, (filter_eq_some_iff.1 haddr).1, ?_⟩
  cases hsome : reports host with
  | none => simp [hsome] at hreport
  | some report => exact ⟨report, rfl, by simpa [hsome] using hreport⟩

theorem mem_computeIngress {hosts : List Str} {entry : LoadBalancerIngress}
    (hentry : entry ∈ computeIngress netip nodes svc addrs hosts reports) :
    ∃ host ∈ hosts, ∃ addr, hostAddr netip nodes svc addrs reports host = some addr ∧
      entry.ip = netip.string addr := by
  obtain ⟨addr, haddr, rfl⟩ := mem_map.1 hentry
  rw [mem_dedup, mem_insertionSort] at haddr
  obtain ⟨host, hhost, hsome⟩ := mem_filterMap.1 haddr
  exact ⟨host, hhost, addr, hsome, rfl⟩

def Stamped (netip : Netip Addr Range) (nodes : List Node) (addrs : Addrs Addr) (svc : Service)
    (writes : List Write) : Prop :=
  svc.annotations hostsAnnotation = some (formatHosts (selectHosts netip nodes svc addrs)) ∨
    Write.stamp svc (some (formatHosts (selectHosts netip nodes svc addrs))) ∈ writes

theorem status_mem_decide {pass : Pass Addr} {turn : Turn} {ingress : List LoadBalancerIngress}
    (hwrite : Write.status svc ingress ∈ decide_ netip config startedAt pass addrs reports turn) :
    svc = turn.svc ∧
      ingress = computeIngress netip pass.nodes svc addrs (selectHosts netip pass.nodes svc addrs)
        reports ∧
      Stamped netip pass.nodes addrs svc
      (decide_ netip config startedAt pass addrs reports turn) := by
  by_cases hstamped : turn.svc.annotations hostsAnnotation =
      some (formatHosts (selectHosts netip pass.nodes turn.svc addrs))
  · simp only [decide_, hstamped, decide_true, if_true, Bool.not_true, Bool.false_and,
      Bool.false_eq_true, if_false] at hwrite
    split_ifs at hwrite
    · cases hwrite
    · cases hwrite
    simp only [nil_append, mem_singleton, Write.status.injEq] at hwrite
    obtain ⟨rfl, rfl⟩ := hwrite
    exact ⟨rfl, rfl, .inl hstamped⟩
  have hmore : ∀ write ∈ [Write.stamp turn.svc
      (some (formatHosts (selectHosts netip pass.nodes turn.svc addrs)))],
      write ∈ decide_ netip config startedAt pass addrs reports turn := by
    intro write hwrite
    simp only [decide_, hstamped, decide_false, Bool.false_eq_true, if_false]
    split_ifs <;> simp_all
  simp only [decide_, hstamped, decide_false, Bool.false_eq_true, if_false] at hwrite
  split_ifs at hwrite
  · simp at hwrite
  · simp at hwrite
  · simp at hwrite
  simp only [singleton_append, mem_cons, reduceCtorEq, Write.status.injEq,
    not_mem_nil, or_false, false_or] at hwrite
  obtain ⟨rfl, rfl⟩ := hwrite
  exact ⟨rfl, rfl, .inr (hmore _ (mem_singleton_self _))⟩

omit [LinearOrder Addr] in
theorem target_of_mem_unclaim {disclaimed : Bool} {turn : Turn} {write : Write}
    (hwrite : write ∈ (unclaim netip addrs disclaimed turn).1) : write.target = turn.svc := by
  have hstamp : ∀ write ∈ (if (turn.svc.annotations hostsAnnotation).isSome then
      [Write.stamp turn.svc none] else []), write.target = turn.svc := by
    split_ifs <;> simp [Write.target]
  have hboth : ∀ ingress, ∀ write ∈ (if (turn.svc.annotations hostsAnnotation).isSome then
      [Write.stamp turn.svc none] else []) ++ [Write.status turn.svc ingress],
      write.target = turn.svc := by
    intro ingress write hmem
    rcases mem_append.1 hmem with hfirst | hlast
    · exact hstamp write hfirst
    · rw [mem_singleton.1 hlast, Write.target]
  simp only [unclaim] at hwrite
  split at hwrite
  · split at hwrite
    · exact hboth _ write hwrite
    · exact hstamp write hwrite
  · split at hwrite
    · split at hwrite
      · exact hstamp write hwrite
      · exact hboth _ write hwrite
    · exact hstamp write hwrite

/-- What the status of a Service that svclb does not claim may lose: all of it where the Service
is no load balancer any more, and otherwise svclb's own addresses, the others staying in place. -/
structure Released (netip : Netip Addr Range) (addrs : Addrs Addr) (svc : Service)
    (ingress : List LoadBalancerIngress) : Prop where
  sublist : ingress.Sublist svc.ingress
  kept : (svc.type ≠ .loadBalancer ∧ ingress = []) ∨
    ∀ entry, entry ∈ ingress ↔
      entry ∈ svc.ingress ∧ ∀ held ∈ addrs, entry.ip ≠ netip.string held.2

omit [LinearOrder Addr] in
theorem released_of_mem_unclaim {disclaimed : Bool} {turn : Turn}
    {ingress : List LoadBalancerIngress}
    (hwrite : Write.status svc ingress ∈ (unclaim netip addrs disclaimed turn).1) :
    Released netip addrs svc ingress := by
  obtain rfl : svc = turn.svc := target_of_mem_unclaim hwrite
  have hfirst : ∀ status, Write.status turn.svc status ∉
      (if (turn.svc.annotations hostsAnnotation).isSome then [Write.stamp turn.svc none]
        else []) := by
    intro status
    split_ifs <;> simp
  simp only [unclaim] at hwrite
  split at hwrite
  case isTrue htype =>
    split at hwrite
    case isFalse => exact absurd hwrite (hfirst ingress)
    have hempty : ingress = [] := by
      simpa using (mem_append.1 hwrite).resolve_left (hfirst ingress)
    subst hempty
    exact ⟨nil_sublist _, .inl ⟨htype, rfl⟩⟩
  split at hwrite
  case isFalse => exact absurd hwrite (hfirst ingress)
  split at hwrite
  case isTrue => exact absurd hwrite (hfirst ingress)
  have hkeep := (mem_append.1 hwrite).resolve_left (hfirst ingress)
  rw [mem_singleton, Write.status.injEq] at hkeep
  obtain ⟨-, rfl⟩ := hkeep
  refine ⟨filter_sublist, .inr fun entry => ?_⟩
  rw [mem_filter]
  refine and_congr_right fun _ => ?_
  simp only [contains_eq_mem, List.mem_map, Bool.not_eq_true', decide_eq_false_iff_not, not_exists,
    not_and]
  exact forall₂_congr fun held _ => ne_comm

theorem released_of_settleAll {pass : Pass Addr} {disclaimed : Str → Bool} {turns : List Turn}
    {ingress : List LoadBalancerIngress} (hclaims : claims svc = false)
    (hwrite : Write.status svc ingress ∈
      (settleAll netip config startedAt pass addrs reports disclaimed turns).2) :
    Released netip addrs svc ingress := by
  induction turns generalizing disclaimed with
  | nil => cases hwrite
  | cons turn turns ih =>
    simp only [settleAll] at hwrite
    rcases mem_append.1 hwrite with hfirst | hrest
    · by_cases hturn : claims turn.svc = true
      · simp only [settle, if_pos hturn] at hfirst
        obtain ⟨rfl, -⟩ := status_mem_decide hfirst
        rw [hturn] at hclaims
        cases hclaims
      · simp only [settle, if_neg hturn] at hfirst
        exact released_of_mem_unclaim hfirst
    · exact ih hrest

theorem status_mem_settleAll {pass : Pass Addr} {disclaimed : Str → Bool} {turns : List Turn}
    {ingress : List LoadBalancerIngress} (hclaims : claims svc = true)
    (hwrite : Write.status svc ingress ∈
      (settleAll netip config startedAt pass addrs reports disclaimed turns).2) :
    ingress = computeIngress netip pass.nodes svc addrs (selectHosts netip pass.nodes svc addrs)
        reports ∧
      Stamped netip pass.nodes addrs svc
        (settleAll netip config startedAt pass addrs reports disclaimed turns).2 := by
  induction turns generalizing disclaimed with
  | nil => cases hwrite
  | cons turn turns ih =>
    simp only [settleAll] at hwrite ⊢
    rcases mem_append.1 hwrite with hfirst | hrest
    · by_cases hturn : claims turn.svc = true
      · simp only [settle, if_pos hturn] at hfirst ⊢
        obtain ⟨-, hingress, hstamped⟩ := status_mem_decide hfirst
        exact ⟨hingress, hstamped.imp_right (mem_append_left _)⟩
      · simp only [settle, if_neg hturn] at hfirst
        have hsvc : svc = turn.svc := target_of_mem_unclaim hfirst
        exact absurd (hsvc ▸ hclaims) hturn
    · obtain ⟨hingress, hstamped⟩ := ih hrest
      exact ⟨hingress, hstamped.imp_right (mem_append_right _)⟩

end Status

section Trust

variable {now : ℤ} {before : Str → NodeTrust} {nodes : List Node} {node : Node} {name : Str}

omit [LinearOrder Addr] in
theorem observeAll_of_not_mem (hname : ∀ node ∈ nodes, node.name ≠ name) :
    observeAll config now before nodes name = before name := by
  induction nodes generalizing before with
  | nil => rfl
  | cons head tail ih =>
    have hhead : name ≠ head.name := (hname head mem_cons_self).symm
    rw [observeAll, foldl_cons, ← observeAll,
      ih fun node hnode => hname node (mem_cons_of_mem _ hnode), Function.update_of_ne hhead]

omit [LinearOrder Addr] in
theorem observeAll_of_mem (hnodup : (nodes.map (·.name)).Nodup) (hmem : node ∈ nodes) :
    observeAll config now before nodes node.name =
      observeNode config.holdDown now (before node.name) node := by
  induction nodes generalizing before with
  | nil => cases hmem
  | cons head tail ih =>
    rw [map_cons, nodup_cons] at hnodup
    rw [observeAll, foldl_cons, ← observeAll]
    rcases mem_cons.1 hmem with rfl | htail
    · have hrest : ∀ other ∈ tail, other.name ≠ node.name := by
        intro other hother heq
        exact hnodup.1 (heq ▸ mem_map_of_mem hother)
      rw [observeAll_of_not_mem hrest, Function.update_self]
    · have hne : node.name ≠ head.name := by
        intro heq
        exact hnodup.1 (heq ▸ mem_map_of_mem htail)
      rw [ih hnodup.2 htail, Function.update_of_ne hne]

omit [LinearOrder Addr] in
theorem trustedReports_of_mem (hnodup : (nodes.map (·.name)).Nodup) (hmem : node ∈ nodes) :
    trustedReports config now before nodes node.name =
      observeNode config.holdDown now (before node.name) node := by
  have hany : nodes.any (fun other => decide (other.name = node.name)) = true :=
    any_eq_true.2 ⟨node, hmem, by simp⟩
  rw [trustedReports, if_pos hany, observeAll_of_mem hnodup hmem]

omit [LinearOrder Addr] in
theorem trustedReports_trusted {report : BoundReport} (hnodup : (nodes.map (·.name)).Nodup)
    (hmem : node ∈ nodes)
    (htrusted : (trustedReports config now before nodes node.name).trusted = some report) :
    readBound node = some report := by
  rw [trustedReports_of_mem hnodup hmem] at htrusted
  simp only [observeNode] at htrusted
  rw [ite_eq_iff] at htrusted
  rcases htrusted with ⟨-, hnone⟩ | ⟨-, hreport⟩
  · cases hnone
  · exact hreport

end Trust

section Seen

variable (passes : ℕ → Pass Addr)

def Sees (count : ℕ) (name : Str) (ready : Bool) : Prop :=
  ∃ node ∈ (passes count).nodes, node.name = name ∧ nodeReady node = ready

/-- The pass reads a report of the node with this incarnation. -/
def Reads (count : ℕ) (name inc : Str) : Prop :=
  ∃ node ∈ (passes count).nodes, node.name = name ∧
    ∃ report, readBound node = some report ∧ report.incarnation = inc

/-- A node that has left an incarnation never comes back to it. -/
def NeverRepeats (name : Str) : Prop :=
  ∀ early middle late inc other, early < middle → middle < late → Reads passes early name inc →
    Reads passes middle name other → Reads passes late name inc → other = inc

/-- The node was last seen Ready, under `inc`, at the pass `last`, was then seen NotReady, and
is seen Ready again at the pass `first`. -/
structure Returns (name inc : Str) (last first : ℕ) : Prop where
  was : ∃ node ∈ (passes last).nodes, node.name = name ∧ nodeReady node = true ∧
    ∃ report, readBound node = some report ∧ report.incarnation = inc
  gap : last + 1 < first
  away : ∀ count, last < count → count < first → Sees passes count name false
  back : Sees passes first name true

/-- The last good answer of `PeerAddresses`. -/
def lastPeers : ℕ → Addrs Addr
  | 0 => (passes 0).peers.getD []
  | count + 1 => (passes (count + 1)).peers.getD (lastPeers count)

def ServerHeld (config : DeciderConfig Addr) (count : ℕ) (name : Str) (addr : Addr) : Prop :=
  (name = config.selfNode ∧ config.selfAddr = some addr) ∨
    Addrs.get? (lastPeers passes count) name = some addr

end Seen

/-- An address a pass may publish for a Service: it is the server-held address of a node that
this pass finds in the stamped pool, Ready and with a trusted report of the Service. -/
structure Earned (netip : Netip Addr Range) (config : DeciderConfig Addr) (startedAt : ℤ)
    (passes : ℕ → Pass Addr) (count : ℕ) (svc : Service) (node : Node) (addr : Addr)
    (report : BoundReport) : Prop where
  listed : node ∈ (passes count).nodes
  allowed : allowListMode (passes count).nodes = true → node.labels enableLBLabel = some yes
  pooled : ∀ pool, svc.labels lbPoolLabel = some pool → inPool node pool = true
  stamped : ∃ hosts, node.name ∈ hosts ∧
    (svc.annotations hostsAnnotation = some (formatHosts hosts) ∨
      Write.stamp svc (some (formatHosts hosts)) ∈ writesAt netip config startedAt passes count)
  ready : nodeReady node = true
  held : ServerHeld passes config count node.name addr
  advertised : advertisable netip addr = true
  carried : readBound node = some report
  trusted : trustedAt netip config startedAt passes count node.name = some report
  vouched : reportEntry svc ∈ report.entries

section Passes

variable {count : ℕ} {name inc : Str}

theorem peers_deciderAt :
    (passes count).peers.getD (deciderAt netip config startedAt passes count).peers =
      lastPeers passes count := by
  induction count with
  | zero => rfl
  | succ count ih => rw [lastPeers, ← ih, deciderAt, reconcile]

omit [LinearOrder Addr] in
theorem serverHeld_of_addresses {addr : Addr}
    (haddr : Addrs.get? (addresses netip config (lastPeers passes count)) name = some addr) :
    ServerHeld passes config count name addr := by
  rw [addresses] at haddr
  split at haddr
  case h_1 => exact .inr haddr
  rename_i self hself
  split_ifs at haddr with hserves
  · by_cases hname : config.selfNode = name
    · simp only [Addrs.get?, hname, decide_true, List.find?_cons_of_pos, map_some,
        some.injEq] at haddr
      exact .inl ⟨hname.symm, haddr ▸ hself⟩
    refine .inr ?_
    rw [Addrs.get?, List.find?_cons_of_neg (by simpa using hname), List.find?_filter] at haddr
    rw [Addrs.get?, ← haddr]
    congr 2
    funext entry
    by_cases hentry : entry.1 = name
    · simp [hentry, Ne.symm hname]
    · simp [hentry]
  · exact .inr haddr

theorem earned_of_status {svc : Service} {ingress : List LoadBalancerIngress}
    (hclaims : claims svc = true)
    (hwrite : Write.status svc ingress ∈ writesAt netip config startedAt passes count)
    {entry : LoadBalancerIngress} (hentry : entry ∈ ingress) :
    ∃ node addr report, entry.ip = netip.string addr ∧
      Earned netip config startedAt passes count svc node addr report := by
  have hsettled := status_mem_settleAll hclaims hwrite
  obtain ⟨rfl, hstamped⟩ := hsettled
  obtain ⟨host, hhost, addr, haddr, hip⟩ := mem_computeIngress hentry
  obtain ⟨node, hnode, rfl, hready, hheld, report, htrusted, hvouched⟩ := hostAddr_eq_some haddr
  obtain ⟨other, hother, heligible, hsame⟩ := mem_selectHosts.1 hhost
  have hone : other = node := inj_on_of_nodup_map (passes count).nodup hother hnode hsame
  subst hone
  simp only [eligible, Bool.and_eq_true, Bool.or_eq_true, Bool.not_eq_true', decide_eq_true_eq,
    Option.all_eq_true, Option.any_eq_true] at heligible
  obtain ⟨⟨hallowed, hpooled⟩, addr', haddr', hadvertised⟩ := heligible
  have heq : addr' = addr := Option.some.inj (haddr'.symm.trans hheld)
  subst heq
  refine ⟨other, addr', report, hip, hnode, ?_, fun pool hpool => hpooled pool hpool,
    ⟨_, hhost, hstamped⟩, hready, ?_, hadvertised, ?_, htrusted, hvouched⟩
  · intro hmode
    rcases hallowed with hoff | hon
    · rw [hoff] at hmode
      cases hmode
    · exact hon
  · rw [peers_deciderAt] at hheld
    exact serverHeld_of_addresses hheld
  · exact trustedReports_trusted (passes count).nodup hnode htrusted

theorem released_of_status {svc : Service} {ingress : List LoadBalancerIngress}
    (hclaims : claims svc = false)
    (hwrite : Write.status svc ingress ∈ writesAt netip config startedAt passes count) :
    Released netip (addresses netip config (lastPeers passes count)) svc ingress := by
  have hreleased := released_of_settleAll hclaims hwrite
  rwa [peers_deciderAt] at hreleased

theorem nodes_deciderAt_succ {node : Node} (hnode : node ∈ (passes count).nodes) :
    (deciderAt netip config startedAt passes (count + 1)).nodes node.name =
      observeNode config.holdDown (passes count).now
        ((deciderAt netip config startedAt passes count).nodes node.name) node :=
  trustedReports_of_mem (passes count).nodup hnode

def Remembered (trust : NodeTrust) (inc : Str) (ready : Bool) : Prop :=
  trust.obs = some ⟨ready, inc⟩

structure Doubted (trust : NodeTrust) (inc : Str) (base : ℤ) : Prop where
  remembered : ∃ ready, Remembered trust inc ready
  distrusted : ∃ since, base ≤ since ∧ trust.distrusted = some ⟨inc, since⟩
  untrusted : trust.trusted = none

theorem observeNode_away {holdDown now : ℤ} {before : NodeTrust} {node : Node} {ready : Bool}
    (hbefore : Remembered before inc ready) (hnode : nodeReady node = false) :
    Remembered (observeNode holdDown now before node) inc false := by
  simp [Remembered, observeNode, hnode, show before.obs = some ⟨ready, inc⟩ from hbefore]

theorem observeNode_doubted {holdDown now base : ℤ} {before : NodeTrust} {node : Node}
    {ready : Bool}
    {report : BoundReport} (hbefore : Remembered before inc ready)
    (hdoubt : (ready = false ∧ nodeReady node = true) ∨
      ∃ since, base ≤ since ∧ before.distrusted = some ⟨inc, since⟩)
    (hread : readBound node = some report) (hinc : report.incarnation = inc) (hbase : base ≤ now)
    (hnow : now - base < holdDown) : Doubted (observeNode holdDown now before node) inc base := by
  have hobs : before.obs = some ⟨ready, inc⟩ := hbefore
  -- the doubt in force at this look
  obtain ⟨since, hsince, hforce⟩ : ∃ since, base ≤ since ∧
      (if (before.obs.any fun obs => !obs.ready) && nodeReady node then
        some (⟨(before.obs.map (·.lastReadyInc)).getD [], now⟩ : Distrust) else before.distrusted) =
      some ⟨inc, since⟩ := by
    by_cases hback : ((before.obs.any fun obs => !obs.ready) && nodeReady node) = true
    · exact ⟨now, hbase, by rw [if_pos hback, hobs]; rfl⟩
    rw [if_neg hback]
    rcases hdoubt with ⟨hready, hnode⟩ | hold
    · simp [hobs, hready, hnode] at hback
    · exact hold
  have hlate : now - since < holdDown := by omega
  refine ⟨⟨nodeReady node, ?_⟩, ⟨since, hsince, ?_⟩, ?_⟩
  · simp [Remembered, observeNode, hobs, hread, hinc]
  · simp only [observeNode, hforce]
    simp [hread, hinc, hlate]
  · simp only [observeNode, hforce]
    simp [hread, hinc, hlate]

variable (netip config startedAt) in
theorem remembered_before_return {last first : ℕ} (hreturns : Returns passes name inc last first)
    (steps : ℕ) (hsteps : last + 1 + steps ≤ first) :
    ∃ ready, Remembered
    ((deciderAt netip config startedAt passes (last + 1 + steps)).nodes name) inc
      ready ∧ (0 < steps → ready = false) := by
  induction steps with
  | zero =>
    obtain ⟨node, hnode, rfl, hready, report, hread, hinc⟩ := hreturns.was
    refine ⟨true, ?_, fun hpos => absurd hpos (lt_irrefl 0)⟩
    rw [Nat.add_zero, nodes_deciderAt_succ hnode]
    simp [Remembered, observeNode, hready, hread, hinc]
  | succ steps ih =>
    obtain ⟨ready, hremembered, -⟩ := ih (by omega)
    obtain ⟨node, hnode, rfl, hready⟩ := hreturns.away (last + 1 + steps) (by omega) (by omega)
    refine ⟨false, ?_, fun _ => rfl⟩
    rw [← Nat.add_assoc, nodes_deciderAt_succ hnode]
    exact observeNode_away hremembered hready

variable (netip config startedAt) in
theorem doubted_after_return {last first : ℕ} (hreturns : Returns passes name inc last first)
    (hclock : Monotone fun count => (passes count).now) (steps : ℕ)
    (hreads : ∀ count, first ≤ count → count ≤ first + steps → Reads passes count name inc)
    (hhold : (passes (first + steps)).now - (passes first).now < config.holdDown) :
    Doubted ((deciderAt netip config startedAt passes (first + steps + 1)).nodes name) inc
      (passes first).now := by
  induction steps with
  | zero =>
    obtain ⟨ready, hremembered, hdown⟩ := remembered_before_return netip config
      startedAt hreturns (first - (last + 1)) (by have := hreturns.gap; omega)
    have hgap := hreturns.gap
    rw [show last + 1 + (first - (last + 1)) = first by omega] at hremembered
    obtain ⟨node, hnode, hname, hready⟩ := hreturns.back
    obtain ⟨other, hother, rfl, report, hread, hinc⟩ := hreads first le_rfl (by omega)
    have hone : node = other := inj_on_of_nodup_map (passes first).nodup hnode hother hname
    subst hone
    rw [Nat.add_zero] at hhold ⊢
    rw [nodes_deciderAt_succ hnode]
    exact observeNode_doubted hremembered (.inl ⟨hdown (by omega), hready⟩) hread hinc le_rfl hhold
  | succ steps ih =>
    have hearlier : (passes (first + steps)).now ≤ (passes (first + (steps + 1))).now :=
      hclock (by omega)
    have hbase : (passes first).now ≤ (passes (first + (steps + 1))).now := hclock (by omega)
    have hdoubted := ih (fun count hfirst hle => hreads count hfirst (by omega)) (by omega)
    obtain ⟨node, hnode, rfl, report, hread, hinc⟩ := hreads (first + (steps + 1)) (by omega) le_rfl
    obtain ⟨ready, hremembered⟩ := hdoubted.remembered
    rw [nodes_deciderAt_succ hnode]
    exact observeNode_doubted hremembered (.inr hdoubted.distrusted) hread hinc hbase hhold

theorem untrusted_after_return {last first : ℕ} (hreturns : Returns passes name inc last first)
    (hclock : Monotone fun count => (passes count).now) (hrepeats : NeverRepeats passes name)
    (hfirst : first ≤ count)
    (hreadable : ∀ middle, first ≤ middle → middle ≤ count →
      ∃ other, Reads passes middle name other)
    (hhold : (passes count).now - (passes first).now < config.holdDown) {report : BoundReport}
    (htrusted : trustedAt netip config startedAt passes count name = some report) :
    report.incarnation ≠ inc := by
  intro hinc
  obtain ⟨-, node, hnode, rfl, -⟩ := hreadable count hfirst le_rfl
  have hlate : Reads passes count node.name inc :=
    ⟨node, hnode, rfl, report, trustedReports_trusted (passes count).nodup hnode htrusted, hinc⟩
  have hearly : Reads passes last node.name inc := by
    obtain ⟨other, hother, hname, -, hread⟩ := hreturns.was
    exact ⟨other, hother, hname, hread⟩
  have hreads : ∀ middle, first ≤ middle → middle ≤ first + (count - first) →
      Reads passes middle node.name inc := by
    intro middle hge hle
    rcases Nat.lt_or_ge middle count with hlt | hend
    · obtain ⟨other, hother⟩ := hreadable middle hge (by omega)
      have hgap := hreturns.gap
      exact hrepeats last middle count inc other (by omega) hlt hearly hother hlate ▸ hother
    · have heq : middle = count := by omega
      exact heq ▸ hlate
  have hdoubted := doubted_after_return netip config startedAt hreturns hclock
    (count - first) hreads (by rw [Nat.add_sub_cancel' hfirst]; exact hhold)
  have huntrusted := hdoubted.untrusted
  rw [Nat.add_sub_cancel' hfirst] at huntrusted
  have hnone : trustedAt netip config startedAt passes count node.name = none := huntrusted
  rw [hnone] at htrusted
  cases htrusted

/-- Every address in the status of a claimed Service is earned in the pass that writes it; a
Service that svclb does not claim only loses svclb's own addresses, or its whole status.  And a
node that is Ready again is not believed under its old incarnation while the hold-down runs,
as long as every pass since it came back reads a report of it. -/
theorem published_addresses_earned (netip : Netip Addr Range) (config : DeciderConfig Addr)
    (startedAt : ℤ) (passes : ℕ → Pass Addr) :
    (∀ count svc ingress, claims svc = true →
        Write.status svc ingress ∈ writesAt netip config startedAt passes count →
        ∀ entry ∈ ingress, ∃ node addr report, entry.ip = netip.string addr ∧
          Earned netip config startedAt passes count svc node addr report) ∧
      (∀ count svc ingress, claims svc = false →
        Write.status svc ingress ∈ writesAt netip config startedAt passes count →
        Released netip (addresses netip config (lastPeers passes count)) svc ingress) ∧
      ∀ name inc last first count, (Monotone fun count => (passes count).now) →
        NeverRepeats passes name → Returns passes name inc last first → first ≤ count →
        (∀ middle, first ≤ middle → middle ≤ count → ∃ other, Reads passes middle name other) →
        (passes count).now - (passes first).now < config.holdDown →
        ∀ report, trustedAt netip config startedAt passes count name = some report →
          report.incarnation ≠ inc := by
  refine ⟨?_, ?_, ?_⟩
  · intro count svc ingress hclaims hwrite entry hentry
    exact earned_of_status hclaims hwrite hentry
  · intro count svc ingress hclaims hwrite
    exact released_of_status hclaims hwrite
  · intro name inc last first count hclock hrepeats hreturns hfirst hreadable hhold report htrusted
    exact untrusted_after_return hreturns hclock hrepeats hfirst hreadable hhold htrusted

end Passes

/-! ## Passes over one node

The node turns NotReady and Ready again, ten seconds apart, and carries one report all the
time, but for the pass in between that misses the node or its report. -/

def reportText : Str := "0123456789abcdef;shop/web:7f1c".toList

def workerNode (ready report : Bool) : Node where
  name := "mac-b".toList
  labels _ := none
  annotations key := if report && key = boundAnnotation then some reportText else none
  conditions := [⟨"Ready".toList, if ready then "True".toList else "False".toList⟩]

def webService (class_ : Option Str) (ingress : List LoadBalancerIngress) : Service where
  ns := "shop".toList
  name := "web".toList
  uid := "7f1c".toList
  type := .loadBalancer
  loadBalancerClass := class_
  labels _ := none
  annotations _ := none
  clusterIP := "10.43.0.7".toList
  ports := [⟨"TCP".toList, 8080⟩]
  loadBalancerSourceRanges := []
  ingress := ingress

def nodesAt (listed : Bool) : ℕ → List Node
  | 1 => [workerNode false true]
  | 3 => if listed then [workerNode true false] else []
  | _ => [workerNode true true]

def secondsAt : ℕ → ℤ
  | 0 => 0
  | 1 => 5
  | 2 => 10
  | 3 => 15
  | _ => 20

theorem nodesAt_nodup (listed : Bool) (count : ℕ) :
    ((nodesAt listed count).map (·.name)).Nodup := by
  rw [nodesAt.eq_def]
  split
  · simp
  · cases listed <;> simp
  · simp

/-- The passes over the node and one Service; the fourth misses the node, or its report. -/
def workerPasses (listed : Bool) (svc : Service) (count : ℕ) : Pass ℕ where
  now := secondsAt count * 1000000000
  -- the node's address is 100.64.0.2
  peers := some [("mac-b".toList, 1681915906)]
  nodes := nodesAt listed count
  nodup := nodesAt_nodup listed count
  svcs := [⟨svc, secondsAt count * 1000000000, true, true⟩]

def thirtySeconds : DeciderConfig ℕ := ⟨"mac-a".toList, none, 30 * 1000000000⟩

def foreignEntry : LoadBalancerIngress := ⟨"192.0.2.9".toList, [], none, []⟩

def workerEntry : LoadBalancerIngress := ⟨"100.64.0.2".toList, [], none, []⟩

def reportInc : Str := "0123456789abcdef".toList

def sameReport : BoundReport := ⟨reportInc, ["shop/web:7f1c".toList]⟩

theorem readBound_workerNode (ready report : Bool) :
    readBound (workerNode ready report) = if report then some sameReport else none := by
  cases report with
  | true | false => cases ready <;> decide

theorem worker_never_repeats (listed : Bool) (svc : Service) (name : Str) :
    NeverRepeats (workerPasses listed svc) name := by
  have hreads : ∀ count inc, Reads (workerPasses listed svc) count name inc → inc = reportInc := by
    rintro count inc ⟨node, hnode, -, report, hread, rfl⟩
    have hworker : ∃ ready report, node = workerNode ready report := by
      simp only [workerPasses, nodesAt.eq_def] at hnode
      split at hnode
      · exact ⟨false, true, by simpa using hnode⟩
      · cases listed with
        | true => exact ⟨true, false, by simpa using hnode⟩
        | false => cases hnode
      · exact ⟨true, true, by simpa using hnode⟩
    obtain ⟨ready, carries, rfl⟩ := hworker
    rw [readBound_workerNode] at hread
    split_ifs at hread
    rw [some.injEq] at hread
    rw [← hread, sameReport]
  intro early middle late inc other _ _ hearly hmiddle _
  rw [hreads early inc hearly, hreads middle other hmiddle]

theorem worker_returns (listed : Bool) (svc : Service) :
    Returns (workerPasses listed svc) "mac-b".toList reportInc 0 2 where
  was := ⟨workerNode true true, by simp [workerPasses, nodesAt], rfl, by decide, sameReport,
    readBound_workerNode true true, rfl⟩
  gap := by omega
  away := by
    intro count hlast hfirst
    have hcount : count = 1 := by omega
    subst hcount
    exact ⟨workerNode false true, by simp [workerPasses, nodesAt], rfl, by decide⟩
  back := ⟨workerNode true true, by simp [workerPasses, nodesAt], rfl, by decide⟩

theorem worker_clock (listed : Bool) (svc : Service) :
    Monotone fun count => (workerPasses listed svc count).now := by
  refine monotone_nat_of_le_succ fun count => ?_
  have hle : secondsAt count ≤ secondsAt (count + 1) := by
    match count with
    | 0 => decide
    | 1 => decide
    | 2 => decide
    | 3 => decide
    | _ + 4 => exact le_refl _
  simp only [workerPasses]
  omega

def foreignService : Service := webService (some "metallb".toList) [foreignEntry, workerEntry]

theorem writesAt_foreignService :
    writesAt ipv4 thirtySeconds 0 (workerPasses true foreignService) 0 =
      [Write.status foreignService [foreignEntry]] := by
  rfl

theorem worker_published_addresses_earned :
    (∃ node addr report, workerEntry.ip = ipv4.string addr ∧
      Earned ipv4 thirtySeconds 0 (workerPasses true (webService none [])) 0 (webService none [])
        node addr report) ∧
      Released ipv4 (addresses ipv4 thirtySeconds
        (lastPeers (workerPasses true foreignService) 0)) foreignService [foreignEntry] ∧
      ∀ report, trustedAt ipv4 thirtySeconds 0 (workerPasses true (webService none [])) 2
        "mac-b".toList = some report → report.incarnation ≠ reportInc := by
  have hall := published_addresses_earned ipv4 thirtySeconds 0
    (workerPasses true (webService none []))
  refine ⟨hall.1 0 (webService none []) [workerEntry] (by decide) ?_ workerEntry (by simp), ?_, ?_⟩
  · have hwrites : writesAt ipv4 thirtySeconds 0 (workerPasses true (webService none [])) 0 =
        [Write.stamp (webService none []) (some "mac-b".toList),
          Write.status (webService none []) [workerEntry]] := by
      rfl
    rw [hwrites]
    simp
  · have hforeign :=
      published_addresses_earned ipv4 thirtySeconds 0 (workerPasses true foreignService)
    refine hforeign.2.1 0 foreignService [foreignEntry] (by decide) ?_
    rw [writesAt_foreignService]
    exact mem_singleton_self _
  · refine hall.2.2 "mac-b".toList reportInc 0 2 2 (worker_clock _ _) (worker_never_repeats _ _ _)
      (worker_returns _ _) le_rfl ?_ (by decide)
    intro middle hge hle
    have hmiddle : middle = 2 := by omega
    subst hmiddle
    exact ⟨reportInc, workerNode true true, by simp [workerPasses, nodesAt], rfl, sameReport,
      readBound_workerNode true true, rfl⟩

/-- A Service of a foreign class keeps the foreign address when svclb takes its own out, and a
pass that misses the node or its report ends the distrust. -/
theorem unclaimed_status_and_missed_pass :
    (∃ svc ingress, Write.status svc ingress ∈ writesAt ipv4 thirtySeconds 0
        (workerPasses true foreignService) 0 ∧
      ∃ entry ∈ ingress, ¬ ∃ node addr report, entry.ip = ipv4.string addr ∧
        Earned ipv4 thirtySeconds 0 (workerPasses true foreignService) 0 svc node addr report) ∧
      ∀ listed, NeverRepeats (workerPasses listed (webService none [])) "mac-b".toList ∧
        Returns (workerPasses listed (webService none [])) "mac-b".toList reportInc 0 2 ∧
        (workerPasses listed (webService none []) 4).now -
          (workerPasses listed (webService none []) 2).now < thirtySeconds.holdDown ∧
        trustedAt ipv4 thirtySeconds 0 (workerPasses listed (webService none [])) 4 "mac-b".toList =
          some sameReport := by
  constructor
  · refine ⟨foreignService, [foreignEntry], ?_, foreignEntry, by simp, ?_⟩
    · rw [writesAt_foreignService]
      exact mem_singleton_self _
    rintro ⟨node, addr, report, hip, hearned⟩
    rcases hearned.held with ⟨-, hself⟩ | hpeer
    · cases hself
    have haddr : addr = 1681915906 := by
      simp only [lastPeers, workerPasses, getD_some, Addrs.get?, List.find?_cons,
        List.find?_nil] at hpeer
      split at hpeer
      · simpa using hpeer.symm
      · cases hpeer
    rw [haddr] at hip
    exact absurd hip (by decide)
  · intro listed
    refine ⟨worker_never_repeats _ _ _, worker_returns _ _, by cases listed <;> decide, ?_⟩
    cases listed <;> decide

end K3sm.Svclb
