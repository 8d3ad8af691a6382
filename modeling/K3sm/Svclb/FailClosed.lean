import K3sm.Svclb.Listeners

/-!
# Source ranges fail closed

Whatever happens to a Service and to its listeners, an open listener enforces the last ranges
of that Service that parsed.  The exception is a Service that takes the place of another under
the same name while a listener stays open: with ranges that do not parse, it inherits those of
its predecessor.
-/

namespace K3sm.Svclb

open K3sm.Core Option
open K3sm.Core.Filepath (Str)

variable {Addr Range : Type*} [LinearOrder Addr] {netip : Netip Addr Range} {config : HosterConfig}
  {world : World Addr Range} {pass : HosterPass} {svc : Service}

/-- An open listener enforces the last ranges of the Service it is open for that parsed, and it
lets everyone in only when that set is empty. -/
def Enforces (netip : Netip Addr Range) (handed : Handed Range) (forwarder : Forwarder Addr Range) :
    Prop :=
  ∃ uid, handed.uid forwarder.key = some uid ∧
    handed.parsed forwarder.key uid = some forwarder.ranges ∧
    ((∀ peer, allowsConn netip forwarder.ranges peer = true) →
      handed.parsed forwarder.key uid = some [])

/-- Each forwarder enforces the ranges last handed to it. -/
def AllEnforce (netip : Netip Addr Range) (world : World Addr Range) : Prop :=
  ∀ forwarder ∈ world.hoster.forwarders, Enforces netip world.handed forwarder

/-- A Service whose ranges do not parse is handed to a pass that keeps a listener of its name
only when the Service of that name has not changed. -/
def NoInheritance (netip : Netip Addr Range) (config : HosterConfig) (world : World Addr Range) :
    HosterEvent Addr → Prop
  | .pass pass => ∀ svc ∈ pass.svcs, sourceRanges netip svc = none →
      ∀ forwarder ∈ world.hoster.forwarders, forwarder.key = svc.key →
        keeps netip config pass.svcs (ingressServicePorts config pass.svcs) forwarder = true →
        world.handed.uid svc.key = some svc.uid
  | _ => True

def RangesKept (lastRanges : Str → Option (List Range)) (handed : Handed Range)
    (forwarder : Forwarder Addr Range) : Prop :=
  lastRanges forwarder.key = some forwarder.ranges ∧
    ∃ uid, handed.uid forwarder.key = some uid ∧
      handed.parsed forwarder.key uid = some forwarder.ranges

def AllKept (world : World Addr Range) : Prop :=
  ∀ forwarder ∈ world.hoster.forwarders, RangesKept world.hoster.lastRanges world.handed forwarder

omit [LinearOrder Addr] in
theorem RangesKept.enforces {lastRanges : Str → Option (List Range)} {handed : Handed Range}
    {forwarder : Forwarder Addr Range} (hkept : RangesKept lastRanges handed forwarder) :
    Enforces netip handed forwarder := by
  obtain ⟨-, uid, huid, hparsed⟩ := hkept
  refine ⟨uid, huid, hparsed, fun hall => ?_⟩
  have hnobody : allowsConn netip forwarder.ranges none = true := hall none
  rw [hparsed]
  simpa [allowsConn] using hnobody

omit [LinearOrder Addr] in
theorem uid_handOver {handed : Handed Range} (hsvc : svc ∈ pass.svcs) :
    (handOver netip handed pass.svcs).uid svc.key = some svc.uid := by
  have hfind : pass.svcs.find? (fun other => decide (other.key = svc.key)) = some svc := by
    cases hfound : pass.svcs.find? fun other => decide (other.key = svc.key) with
    | none => exact absurd (List.find?_eq_none.1 hfound svc hsvc) (by simp)
    | some other =>
      have hkey : other.key = svc.key := by simpa using List.find?_some hfound
      rw [List.inj_on_of_nodup_map pass.nodup (List.mem_of_find?_eq_some hfound) hsvc hkey]
  simp [handOver, hfind]

omit [LinearOrder Addr] in
theorem parsed_handOver {handed : Handed Range} (hsvc : svc ∈ pass.svcs) :
    (handOver netip handed pass.svcs).parsed svc.key svc.uid =
      (sourceRanges netip svc).or (handed.parsed svc.key svc.uid) := by
  have hfind : pass.svcs.find? (fun other => decide (other.key = svc.key) &&
      decide (other.uid = svc.uid)) = some svc := by
    cases hfound : pass.svcs.find? fun other => decide (other.key = svc.key) &&
        decide (other.uid = svc.uid) with
    | none => exact absurd (List.find?_eq_none.1 hfound svc hsvc) (by simp)
    | some other =>
      have hboth := List.find?_some hfound
      simp only [Bool.and_eq_true, decide_eq_true_eq] at hboth
      rw [List.inj_on_of_nodup_map pass.nodup (List.mem_of_find?_eq_some hfound) hsvc hboth.1]
  simp only [handOver, hfind, bind_some]
  cases sourceRanges netip svc <;> rfl

theorem reconcileAll_kept (hkept : AllKept world)
    (hcondition : NoInheritance netip config world (.pass pass)) :
    ∀ forwarder ∈ (reconcileAll netip config world.hoster pass).table,
      RangesKept (reconcileAll netip config world.hoster pass).lastRanges
        (handOver netip world.handed pass.svcs) forwarder := by
  intro forwarder hmem
  obtain ⟨svc, hsvc, hkey⟩ := exists_of_mem_reconcileAll hmem
  have hhanded : svc ∈ pass.svcs := List.mem_of_mem_filter hsvc
  have hservable : Servable netip (teardown netip config world.hoster pass.svcs)
      (pass.svcs.filter (isDesired config)) := servable_teardown world.hoster pass
  obtain ⟨before, after, hbefore, hserved, hafter⟩ :
      ∃ before after, SameFor svc.key (teardown netip config world.hoster pass.svcs) before ∧
        ServiceServed netip config world.hoster
          (ingressServicePorts config pass.svcs) pass.binds svc
          before after ∧ SameFor svc.key after (reconcileAll netip config world.hoster pass) :=
    serveAll_served hservable hsvc
  rw [RangesKept, hkey, ← hafter.lastRanges, uid_handOver hhanded]
  cases hserved with
  | closed hclosed hsame =>
    exact absurd hkey (hclosed forwarder (hsame ▸ (hafter.table forwarder hkey).2 hmem))
  | served vip ranges hranges htable hlast _ =>
    have hports : KeptFor netip before.table svc := hbefore.keptFor (hservable.kept svc hsvc)
    have henforced : forwarder.ranges = ranges := by
      have hin := (hafter.table forwarder hkey).2 hmem
      rw [htable] at hin
      refine servePorts_ranges netip config world.hoster (ingressServicePorts config pass.svcs)
        svc.key vip ranges (pass.binds svc.key) ?_ forwarder hin hkey
      intro other hother hotherKey
      right
      have hdst := hports other hother hotherKey
      simp only [destination, bind_eq_some_iff, ite_none_right_eq_some] at hdst
      rw [tcpOf_zipIdx]
      exact hdst.choose_spec.2.1
    rw [hlast, henforced]
    cases hparses : sourceRanges netip svc with
    | some parsed =>
      have heq : parsed = ranges := by simpa [rangesFor, hparses] using hranges
      subst heq
      refine ⟨by simp, svc.uid, rfl, ?_⟩
      rw [parsed_handOver hhanded, hparses, some_or]
    | none =>
      -- the listeners that are open go on with the last ranges of their name
      simp only [rangesFor, hparses] at hranges
      split_ifs at hranges with hany
      obtain ⟨other, hother, hotherKey⟩ := List.any_eq_true.1 hany
      rw [decide_eq_true_eq] at hotherKey
      have hdown := (hbefore.table other hotherKey).2 hother
      obtain ⟨hopen, hstays⟩ := mem_teardown.1 hdown
      have hsame : world.handed.uid svc.key = some svc.uid :=
        hcondition svc hhanded hparses other hopen hotherKey hstays
      have hteardown : before.lastRanges svc.key = world.hoster.lastRanges svc.key := by
        rw [← hbefore.lastRanges]
        refine if_pos (List.any_eq_true.2 ⟨other, hdown, ?_⟩)
        simpa using hotherKey
      obtain ⟨hlastRanges, uid, huid, hparsed⟩ := hkept other hopen
      rw [hotherKey] at hlastRanges huid hparsed
      rw [hsame, some.injEq] at huid
      have heq : ranges = other.ranges := by
        rw [hteardown, hlastRanges, getD_some, some.injEq] at hranges
        exact hranges.symm
      refine ⟨?_, svc.uid, rfl, ?_⟩
      · simp only [isSome_none, Bool.false_eq_true, if_false]
        rw [hteardown, hlastRanges, heq]
      · rw [parsed_handOver hhanded, hparses, none_or, huid, hparsed, heq]

theorem hosterReconcile_allKept (hkept : AllKept world)
    (hcondition : NoInheritance netip config world (.pass pass)) :
    AllKept (hosterReconcile netip config world pass) := by
  intro forwarder hmem
  simp only [hosterReconcile, report_forwarders, report_lastRanges, report_handed] at hmem ⊢
  exact reconcileAll_kept hkept hcondition forwarder hmem

theorem hosterStep_allKept (hkept : AllKept world)
    (hcondition : NoInheritance netip config world (.pass pass)) :
    AllKept (hosterStep netip config world pass) := by
  have hobserved : ∀ other : World Addr Range, other.hoster.forwarders = world.hoster.forwarders →
      other.hoster.lastRanges = world.hoster.lastRanges → other.handed = world.handed →
      AllKept other ∧ NoInheritance netip config other (.pass pass) := by
    intro other hforwarders hlast hhanded
    constructor
    · intro forwarder hmem
      rw [hlast, hhanded]
      exact hkept forwarder (hforwarders ▸ hmem)
    · intro svc hsvc hnone forwarder hmem
      rw [hhanded]
      exact hcondition svc hsvc hnone forwarder (hforwarders ▸ hmem)
  obtain ⟨hkept', hcondition'⟩ :=
    hobserved (prepareStep world pass) (prepareStep_forwarders world pass)
    (prepareStep_lastRanges world pass) (prepareStep_handed world pass)
  simp only [hosterStep]
  split_ifs
  · exact hosterReconcile_allKept hkept' hcondition'
  · exact hkept'

theorem commitRebind_allKept (hkept : AllKept world) (request : RebindRequest Addr) :
    AllKept (commitRebind netip config world request) := by
  have hwithdrawn : ∀ write : Bool, ∀ values outcome,
      (if write then report world values outcome else world).hoster.lastRanges =
        world.hoster.lastRanges ∧
      (if write then report world values outcome else world).handed = world.handed := by
    intro write values outcome
    cases write <;> simp
  intro forwarder hmem
  simp only [commitRebind] at hmem ⊢
  obtain ⟨other, hother, rfl⟩ := List.mem_map.1 hmem
  rw [(hwithdrawn _ _ _).1, (hwithdrawn _ _ _).2]
  exact hkept other (List.mem_of_mem_filter hother)

theorem next_allKept {event : HosterEvent Addr} (hkept : AllKept world)
    (hcondition : NoInheritance netip config world event) :
    AllKept (next netip config world event) := by
  cases event with
  | reset write =>
    intro forwarder hmem
    simp only [next, resetReport_forwarders, resetReport_lastRanges, resetReport_handed] at hmem ⊢
    exact hkept forwarder hmem
  | pass pass => exact hosterStep_allKept hkept hcondition
  | acceptFails key port =>
    intro forwarder hmem
    obtain ⟨other, hother, rfl⟩ := List.mem_map.1 hmem
    have hsame := hkept other hother
    split_ifs
    · exact hsame
    · exact hsame
  | rebind request =>
    simp only [next, handleRebind]
    split_ifs
    · exact commitRebind_allKept hkept request
    · exact hkept

def hexIncarnation : Incarnation where
  text := "0123456789abcdef".toList
  nonempty := by decide
  plain := by decide
  short := by decide

def macConfig : HosterConfig := ⟨"mac-b".toList, [], [], ([], [])⟩

def stampedService (uid : Str) (sourceRanges : List Str) : Service where
  ns := "shop".toList
  name := "web".toList
  uid := uid
  type := .loadBalancer
  loadBalancerClass := none
  labels _ := none
  annotations key := if key = hostsAnnotation then some "mac-b".toList else none
  clusterIP := "10.43.0.7".toList
  ports := [⟨"TCP".toList, 8080⟩]
  loadBalancerSourceRanges := sourceRanges
  ingress := []

def passOver (svc : Service) (reportWrite : WriteOutcome) (hports : (tcpPorts svc).Nodup)
    (hplain : ',' ∉ reportEntry svc) : HosterPass where
  ownReady := some true
  fresh := hexIncarnation
  resetWrite := .ok
  svcs := [svc]
  nodup := by simp
  distinct := by simpa using hports
  plain := by simpa using hplain
  binds _ _ := true
  reportWrite := reportWrite

def wildcard : List ℕ := [0]

def badRange : Str := "10.0.0.0/33".toList

def editedRun : List (HosterEvent ℕ) :=
  [.pass (passOver (stampedService ['1'] ["10.0.0.0/8".toList]) .ok (by decide) (by decide)),
    .pass (passOver (stampedService ['1'] [badRange]) .ok (by decide) (by decide))]

theorem stamped_ports : (tcpPorts (stampedService ['1'] [])).Nodup := by decide

theorem stamped_entry : ',' ∉ reportEntry (stampedService ['1'] []) := by decide

def replacedRun : List (HosterEvent ℕ) :=
  [.pass (passOver (stampedService ['1'] []) .ok stamped_ports stamped_entry),
    .pass (passOver (stampedService ['2'] [badRange]) .ok (by decide) (by decide))]

end K3sm.Svclb
