import K3sm.Svclb.Hoster

/-!
# What a pass does to the listeners

Serving a Service touches the forwarders of that Service alone: it gives all of them the ranges
to enforce, adds those it can bind, and counts the ports that have one.
-/

namespace K3sm.Svclb

open K3sm.Core List
open K3sm.Core.Filepath (Str)

variable {Addr Range : Type*}

section Report

variable (world : World Addr Range) (values : List Str) (write : WriteOutcome)

@[simp]
theorem report_forwarders : (report world values write).hoster.forwarders =
    world.hoster.forwarders := by
  simp only [report]
  split_ifs <;> rfl

@[simp]
theorem report_lastRanges : (report world values write).hoster.lastRanges =
    world.hoster.lastRanges := by
  simp only [report]
  split_ifs <;> rfl

@[simp]
theorem report_addrs : (report world values write).hoster.addrs = world.hoster.addrs := by
  simp only [report]
  split_ifs <;> rfl

@[simp]
theorem report_handed : (report world values write).handed = world.handed := by
  simp only [report]
  split_ifs <;> rfl

@[simp]
theorem resetReport_forwarders : (resetReport world write).hoster.forwarders =
    world.hoster.forwarders := by
  simp only [resetReport]
  split_ifs <;> rfl

@[simp]
theorem resetReport_lastRanges : (resetReport world write).hoster.lastRanges =
    world.hoster.lastRanges := by
  simp only [resetReport]
  split_ifs <;> rfl

@[simp]
theorem resetReport_addrs : (resetReport world write).hoster.addrs = world.hoster.addrs := by
  simp only [resetReport]
  split_ifs <;> rfl

@[simp]
theorem resetReport_handed : (resetReport world write).handed = world.handed := rfl

@[simp]
theorem observeOwnReady_forwarders (hoster : Hoster Addr Range) (pass : HosterPass) :
    (observeOwnReady hoster pass).forwarders = hoster.forwarders := by
  rw [observeOwnReady]
  split
  · rfl
  · split_ifs <;> rfl

@[simp]
theorem observeOwnReady_lastRanges (hoster : Hoster Addr Range) (pass : HosterPass) :
    (observeOwnReady hoster pass).lastRanges = hoster.lastRanges := by
  rw [observeOwnReady]
  split
  · rfl
  · split_ifs <;> rfl

@[simp]
theorem observeOwnReady_addrs (hoster : Hoster Addr Range) (pass : HosterPass) :
    (observeOwnReady hoster pass).addrs = hoster.addrs := by
  rw [observeOwnReady]
  split
  · rfl
  · split_ifs <;> rfl

@[simp]
theorem prepareStep_forwarders (world : World Addr Range) (pass : HosterPass) :
    (prepareStep world pass).hoster.forwarders = world.hoster.forwarders := by
  simp only [prepareStep]
  split_ifs <;> simp

@[simp]
theorem prepareStep_lastRanges (world : World Addr Range) (pass : HosterPass) :
    (prepareStep world pass).hoster.lastRanges = world.hoster.lastRanges := by
  simp only [prepareStep]
  split_ifs <;> simp

@[simp]
theorem prepareStep_addrs (world : World Addr Range) (pass : HosterPass) :
    (prepareStep world pass).hoster.addrs = world.hoster.addrs := by
  simp only [prepareStep]
  split_ifs <;> simp

@[simp]
theorem prepareStep_handed (world : World Addr Range) (pass : HosterPass) :
    (prepareStep world pass).handed = world.handed := by
  simp only [prepareStep]
  split_ifs <;> rfl

end Report

variable [LinearOrder Addr] {netip : Netip Addr Range} {config : HosterConfig}
  {hoster : Hoster Addr Range} {ingressPorts : List ℤ}

section Ports

variable {key : Str} {vip : Addr} {ranges : List Range} {lands : ℕ → Bool}
  {serving : Serving Addr Range} {entry : ServicePort × ℕ} {entries : List (ServicePort × ℕ)}

def tcpOf (entries : List (ServicePort × ℕ)) : List ℤ :=
  (entries.filter fun entry => isTCP entry.1).map (·.1.port)

theorem tcpOf_cons_of_tcp (htcp : isTCP entry.1 = true) :
    tcpOf (entry :: entries) = entry.1.port :: tcpOf entries := by
  simp [tcpOf, htcp]

theorem tcpOf_cons_of_not_tcp (htcp : ¬ isTCP entry.1 = true) :
    tcpOf (entry :: entries) = tcpOf entries := by
  simp [tcpOf, htcp]

theorem tcpOf_zipIdx (svc : Service) : tcpOf svc.ports.zipIdx = tcpPorts svc := by
  have hmap : ∀ (ports : List ServicePort) (start : ℕ),
      tcpOf (ports.zipIdx start) = (ports.filter isTCP).map (·.port) := by
    intro ports
    induction ports with
    | nil => intro start; rfl
    | cons port ports ih =>
      intro start
      rw [zipIdx_cons]
      by_cases htcp : isTCP port = true
      · rw [tcpOf_cons_of_tcp htcp, ih]
        simp [htcp]
      · rw [tcpOf_cons_of_not_tcp htcp, ih]
        simp [htcp]
  exact hmap svc.ports 0

omit [LinearOrder Addr] in
theorem setRanges_key (port : ℤ) (forwarder : Forwarder Addr Range) :
    (setRanges key port ranges forwarder).key = forwarder.key := by
  rw [setRanges]
  split <;> rfl

omit [LinearOrder Addr] in
theorem setRanges_port (port : ℤ) (forwarder : Forwarder Addr Range) :
    (setRanges key port ranges forwarder).port = forwarder.port := by
  rw [setRanges]
  split <;> rfl

omit [LinearOrder Addr] in
theorem setRanges_of_key_ne {port : ℤ} {forwarder : Forwarder Addr Range}
    (hkey : forwarder.key ≠ key) : setRanges key port ranges forwarder = forwarder := by
  simp [setRanges, holdsPort, hkey]

theorem bind_eq_some {port : ℤ} {dst : Addr × ℕ} {success : Bool} {forwarder : Forwarder Addr Range}
    (hbind : bind netip config hoster ingressPorts key port dst ranges success = some forwarder) :
    forwarder = ⟨key, port, dst, ranges, effective netip config hoster.addrs port, true⟩ := by
  simp only [bind] at hbind
  split_ifs at hbind
  exact (Option.some.inj hbind).symm

inductive PortServed (netip : Netip Addr Range) (config : HosterConfig) (hoster : Hoster Addr Range)
    (key : Str) (ranges : List Range) (port : ℤ) (before after : Serving Addr Range) : Prop
  | held (hheld : before.table.any (holdsPort key port) = true)
      (htable : after.table = before.table.map (setRanges key port ranges))
      (htcp : after.tcp = before.tcp + 1) (hbound : after.bound = before.bound + 1)
  | failed (hfree : ¬ before.table.any (holdsPort key port) = true)
      (htable : after.table = before.table) (htcp : after.tcp = before.tcp + 1)
      (hbound : after.bound = before.bound)
  | opened (dst : Addr × ℕ) (hfree : ¬ before.table.any (holdsPort key port) = true)
      (htable : after.table =
        ⟨key, port, dst, ranges, effective netip config hoster.addrs port, true⟩ :: before.table)
      (htcp : after.tcp = before.tcp + 1) (hbound : after.bound = before.bound + 1)

variable (netip config hoster ingressPorts key vip ranges lands serving) in
theorem servePort_served (htcp : isTCP entry.1 = true) :
    PortServed netip config hoster key ranges entry.1.port serving
      (servePort netip config hoster ingressPorts key vip ranges lands serving entry) := by
  by_cases hheld : serving.table.any (holdsPort key entry.1.port) = true
  · refine .held hheld ?_ ?_ ?_ <;> simp [servePort, htcp, hheld]
  cases hbind : bind netip config hoster ingressPorts key entry.1.port (vip, uint16 entry.1.port)
      ranges (lands entry.2) with
  | none => refine .failed hheld ?_ ?_ ?_ <;> simp [servePort, htcp, hheld, hbind]
  | some forwarder =>
    refine .opened (vip, uint16 entry.1.port) hheld ?_ ?_ ?_
    · simp [servePort, htcp, hheld, hbind, bind_eq_some hbind]
    · simp [servePort, htcp, hheld, hbind]
    · simp [servePort, htcp, hheld, hbind]

theorem servePort_skip (htcp : ¬ isTCP entry.1 = true) :
    servePort netip config hoster ingressPorts key vip ranges lands serving entry = serving := by
  simp [servePort, htcp]

section Fold

variable (netip config hoster ingressPorts key vip ranges lands)

def servePorts (serving : Serving Addr Range) (entries : List (ServicePort × ℕ)) :
    Serving Addr Range :=
  entries.foldl (servePort netip config hoster ingressPorts key vip ranges lands) serving

theorem servePorts_cons :
    servePorts netip config hoster ingressPorts key vip ranges lands serving (entry :: entries) =
      servePorts netip config hoster ingressPorts key vip ranges lands
        (servePort netip config hoster ingressPorts key vip ranges lands serving entry) entries :=
  rfl

theorem servePorts_invariant {motive : Serving Addr Range → Prop} (hserving : motive serving)
    (hstep : ∀ port ∈ tcpOf entries, ∀ before after, motive before →
      PortServed netip config hoster key ranges port before after → motive after) :
    motive (servePorts netip config hoster ingressPorts key vip ranges lands serving entries) := by
  induction entries generalizing serving with
  | nil => exact hserving
  | cons entry entries ih =>
    rw [servePorts_cons]
    by_cases htcp : isTCP entry.1 = true
    · rw [tcpOf_cons_of_tcp htcp] at hstep
      have hserved := servePort_served netip config hoster ingressPorts key vip ranges lands serving
        htcp
      refine ih (hstep _ mem_cons_self _ _ hserving hserved) fun port hport => ?_
      exact hstep port (mem_cons_of_mem _ hport)
    · rw [tcpOf_cons_of_not_tcp htcp] at hstep
      rw [servePort_skip htcp]
      exact ih hserving hstep

theorem mem_servePorts_of_key_ne {forwarder : Forwarder Addr Range} (hkey : forwarder.key ≠ key) :
    forwarder ∈ (servePorts netip config hoster ingressPorts key vip ranges lands serving
      entries).table ↔ forwarder ∈ serving.table := by
  refine servePorts_invariant netip config hoster ingressPorts key vip ranges lands
    (motive := fun after => forwarder ∈ after.table ↔ forwarder ∈ serving.table) Iff.rfl ?_
  intro port _ before after hbefore hserved
  rw [← hbefore]
  cases hserved with
  | held _ htable =>
    rw [htable, mem_map]
    constructor
    · rintro ⟨other, hother, rfl⟩
      rw [setRanges_key] at hkey
      rwa [setRanges_of_key_ne hkey]
    · exact fun hmem => ⟨forwarder, hmem, setRanges_of_key_ne hkey⟩
  | failed _ htable => rw [htable]
  | opened dst hfree htable =>
    rw [htable, mem_cons]
    refine or_iff_right fun heq => hkey ?_
    rw [heq]

/-- A property that the ranges do not matter for, and that every listener has when it is
opened, stays with all forwarders. -/
theorem servePorts_forall {motive : Forwarder Addr Range → Prop}
    (hserving : ∀ forwarder ∈ serving.table, motive forwarder)
    (hset : ∀ forwarder, motive forwarder → motive { forwarder with ranges := ranges })
    (hopen : ∀ port dst, motive
      ⟨key, port, dst, ranges, effective netip config hoster.addrs port, true⟩) :
    ∀ forwarder ∈ (servePorts netip config hoster ingressPorts key vip ranges lands serving
      entries).table, motive forwarder := by
  refine servePorts_invariant netip config hoster ingressPorts key vip ranges lands
    (motive := fun after => ∀ forwarder ∈ after.table, motive forwarder) hserving ?_
  intro port _ before after hbefore hserved forwarder hmem
  cases hserved with
  | held _ htable =>
    rw [htable] at hmem
    obtain ⟨other, hother, rfl⟩ := mem_map.1 hmem
    rw [setRanges]
    split_ifs
    · exact hset other (hbefore other hother)
    · exact hbefore other hother
  | failed _ htable => exact hbefore forwarder (htable ▸ hmem)
  | opened dst hfree htable =>
    rw [htable] at hmem
    rcases mem_cons.1 hmem with rfl | hold
    · exact hopen port dst
    · exact hbefore forwarder hold

/-- Every forwarder of the Service ends up with the ranges, when each had them or is among the
ports to serve. -/
theorem servePorts_ranges
    (hserving : ∀ forwarder ∈ serving.table, forwarder.key = key →
      forwarder.ranges = ranges ∨ forwarder.port ∈ tcpOf entries) :
    ∀ forwarder ∈ (servePorts netip config hoster ingressPorts key vip ranges lands serving
      entries).table, forwarder.key = key → forwarder.ranges = ranges := by
  induction entries generalizing serving with
  | nil =>
    intro forwarder hmem hkey
    exact (hserving forwarder hmem hkey).resolve_right (by simp [tcpOf])
  | cons entry entries ih =>
    rw [servePorts_cons]
    refine ih fun forwarder hmem hkey => ?_
    by_cases htcp : isTCP entry.1 = true
    swap
    · rw [servePort_skip htcp] at hmem
      rw [tcpOf_cons_of_not_tcp htcp] at hserving
      exact hserving forwarder hmem hkey
    rw [tcpOf_cons_of_tcp htcp] at hserving
    cases servePort_served netip config hoster ingressPorts key vip ranges lands serving htcp with
    | held _ htable =>
      rw [htable] at hmem
      obtain ⟨other, hother, rfl⟩ := mem_map.1 hmem
      rw [setRanges_key] at hkey
      by_cases hport : other.port = entry.1.port
      · left
        simp [setRanges, holdsPort, hkey, hport]
      · have hsame : setRanges key entry.1.port ranges other = other := by
          simp [setRanges, holdsPort, hport]
        rw [hsame]
        exact (hserving other hother hkey).imp_right (mem_of_ne_of_mem hport)
    | failed hfree htable =>
      rw [htable] at hmem
      refine (hserving forwarder hmem hkey).imp_right (mem_of_ne_of_mem fun hport => ?_)
      exact hfree (any_eq_true.2 ⟨forwarder, hmem, by simp [holdsPort, hkey, hport]⟩)
    | opened dst hfree htable =>
      rw [htable] at hmem
      rcases mem_cons.1 hmem with rfl | hold
      · exact .inl rfl
      · refine (hserving forwarder hold hkey).imp_right (mem_of_ne_of_mem fun hport => ?_)
        exact hfree (any_eq_true.2 ⟨forwarder, hold, by simp [holdsPort, hkey, hport]⟩)

variable (serving) in
theorem holds_servePorts_of_not_mem {port : ℤ} (hport : port ∉ tcpOf entries) :
    (servePorts netip config hoster ingressPorts key vip ranges lands serving entries).table.any
      (holdsPort key port) = serving.table.any (holdsPort key port) := by
  refine servePorts_invariant netip config hoster ingressPorts key vip ranges lands
    (motive := fun after => after.table.any (holdsPort key port) =
      serving.table.any (holdsPort key port)) rfl ?_
  intro other hother before after hbefore hserved
  have hne : other ≠ port := fun heq => hport (heq ▸ hother)
  rw [← hbefore]
  cases hserved with
  | held _ htable =>
    rw [htable, any_map]
    congr 1
    funext forwarder
    simp [holdsPort, setRanges_key, setRanges_port]
  | failed _ htable => rw [htable]
  | opened dst _ htable =>
    rw [htable, any_cons]
    simp [holdsPort, hne]

theorem holds_of_portServed {port : ℤ} {before after : Serving Addr Range}
    (hserved : PortServed netip config hoster key ranges port before after) :
    after.tcp = before.tcp + 1 ∧ after.bound ≤ before.bound + 1 ∧ before.bound ≤ after.bound ∧
      (after.bound = before.bound + 1 ↔ after.table.any (holdsPort key port) = true) := by
  cases hserved with
  | held hheld htable htcp hbound =>
    refine ⟨htcp, by omega, by omega, iff_of_true hbound ?_⟩
    rw [htable, any_map]
    rw [← hheld]
    congr 1
    funext forwarder
    simp [holdsPort, setRanges_key, setRanges_port]
  | failed hfree htable htcp hbound =>
    exact ⟨htcp, by omega, by omega, iff_of_false (by omega) (htable ▸ hfree)⟩
  | opened dst _ htable htcp hbound =>
    refine ⟨htcp, by omega, by omega, iff_of_true hbound ?_⟩
    rw [htable, any_cons]
    simp [holdsPort]

variable (serving entries) in
theorem servePorts_bound_iff (hnodup : (tcpOf entries).Nodup) :
    let served := servePorts netip config hoster ingressPorts key vip ranges lands serving entries
    served.tcp = serving.tcp + (tcpOf entries).length ∧
      served.bound + serving.tcp ≤ served.tcp + serving.bound ∧
      (served.bound + serving.tcp = served.tcp + serving.bound ↔
        ∀ port ∈ tcpOf entries, served.table.any (holdsPort key port) = true) := by
  induction entries generalizing serving with
  | nil =>
    simp only [servePorts, tcpOf, foldl_nil, filter_nil, map_nil, length_nil,
      Nat.add_zero, not_mem_nil, false_implies, implies_true, iff_true, true_and]
    omega
  | cons entry entries ih =>
    simp only [servePorts_cons]
    by_cases htcp : isTCP entry.1 = true
    swap
    · rw [servePort_skip htcp, tcpOf_cons_of_not_tcp htcp]
      rw [tcpOf_cons_of_not_tcp htcp] at hnodup
      exact ih serving hnodup
    rw [tcpOf_cons_of_tcp htcp, nodup_cons] at hnodup
    obtain ⟨htcpEq, hupper, hlower, hboundIff⟩ := holds_of_portServed netip config hoster key ranges
      (servePort_served netip config hoster ingressPorts key vip ranges lands serving htcp)
    obtain ⟨hcount, hle, hiff⟩ := ih (servePort netip config hoster ingressPorts key vip ranges
      lands serving entry) hnodup.2
    have hfirst := holds_servePorts_of_not_mem netip config hoster ingressPorts key vip ranges lands
      (servePort netip config hoster ingressPorts key vip ranges lands serving entry) hnodup.1
    rw [tcpOf_cons_of_tcp htcp, length_cons, forall_mem_cons, hfirst, ← hboundIff, ← hiff]
    refine ⟨by omega, by omega, ?_⟩
    constructor
    · intro heq
      constructor <;> omega
    · rintro ⟨hone, hrest⟩
      omega

end Fold

end Ports

section Services

variable {binds : Binds} {progress : Progress Addr Range} {svc : Service} {svcs : List Service}

def KeptFor (netip : Netip Addr Range) (table : List (Forwarder Addr Range))
    (svc : Service) : Prop :=
  ∀ forwarder ∈ table, forwarder.key = svc.key →
    destination netip svc forwarder.port = some forwarder.dst

def AllBound (table : List (Forwarder Addr Range)) (svc : Service) : Prop :=
  tcpPorts svc ≠ [] ∧ ∀ port ∈ tcpPorts svc, table.any (holdsPort svc.key port) = true

def Closed (table : List (Forwarder Addr Range)) (svc : Service) : Prop :=
  ∀ forwarder ∈ table, forwarder.key ≠ svc.key

omit [LinearOrder Addr] in
theorem Closed.not_allBound {table : List (Forwarder Addr Range)} (hclosed : Closed table svc) :
    ¬ AllBound table svc := by
  rintro ⟨hports, hbound⟩
  obtain ⟨port, hport⟩ := exists_mem_of_ne_nil _ hports
  obtain ⟨forwarder, hmem, hholds⟩ := any_eq_true.1 (hbound port hport)
  simp only [holdsPort, Bool.and_eq_true, decide_eq_true_eq] at hholds
  exact hclosed forwarder hmem hholds.1

/-- What serving a Service comes to: no listener may open and there is none, or its ports are
served with the ranges to enforce. -/
inductive ServiceServed (netip : Netip Addr Range) (config : HosterConfig)
    (hoster : Hoster Addr Range)
    (ingressPorts : List ℤ) (binds : Binds) (svc : Service)
    (before after : Progress Addr Range) : Prop
  | closed (hclosed : Closed before.table svc) (hsame : after = before)
  | served (vip : Addr) (ranges : List Range) (hranges : rangesFor netip before svc = some ranges)
      (htable : after.table = (servePorts netip config hoster ingressPorts svc.key vip ranges
        (binds svc.key) ⟨before.table, 0, 0⟩ svc.ports.zipIdx).table)
      (hlast : after.lastRanges = if (sourceRanges netip svc).isSome then
        Function.update before.lastRanges svc.key (some ranges) else before.lastRanges)
      (hentries : ∀ entry, entry ∈ after.entries ↔ entry ∈ before.entries ∨
        entry = (svc.key, reportEntry svc) ∧ AllBound after.table svc)

variable (config hoster ingressPorts binds) in
theorem reconcileService_served (hkept : KeptFor netip progress.table svc)
    (hdistinct : (tcpPorts svc).Nodup) :
    ServiceServed netip config hoster ingressPorts binds svc progress
      (reconcileService netip config hoster ingressPorts binds progress svc) := by
  cases hvip : netip.parseAddr svc.clusterIP with
  | none =>
    refine .closed (fun forwarder hmem hkey => ?_) (by simp [reconcileService, hvip])
    have hnone := hkept forwarder hmem hkey
    simp [destination, hvip] at hnone
  | some vip =>
    cases hranges : rangesFor netip progress svc with
    | none =>
      refine .closed (fun forwarder hmem hkey => ?_) (by simp [reconcileService, hvip, hranges])
      rw [rangesFor] at hranges
      split at hranges
      · cases hranges
      · split_ifs at hranges with hany
        exact hany (any_eq_true.2 ⟨forwarder, hmem, by simp [hkey]⟩)
    | some ranges =>
      have hcount := servePorts_bound_iff netip config hoster ingressPorts svc.key vip ranges
        (binds svc.key) ⟨progress.table, 0, 0⟩ svc.ports.zipIdx (by rwa [tcpOf_zipIdx])
      rw [tcpOf_zipIdx] at hcount
      obtain ⟨htcp, -, hbound⟩ := hcount
      refine .served vip ranges hranges ?_ ?_ ?_
      · simp only [reconcileService, hvip, hranges]
        rfl
      · simp only [reconcileService, hvip, hranges]
      intro entry
      have hall : (0 < (servePorts netip config hoster ingressPorts svc.key vip ranges
          (binds svc.key) ⟨progress.table, 0, 0⟩ svc.ports.zipIdx).tcp ∧
          (servePorts netip config hoster ingressPorts svc.key vip ranges (binds svc.key)
            ⟨progress.table, 0, 0⟩ svc.ports.zipIdx).bound =
          (servePorts netip config hoster ingressPorts svc.key vip ranges (binds svc.key)
            ⟨progress.table, 0, 0⟩ svc.ports.zipIdx).tcp) ↔
          AllBound (servePorts netip config hoster ingressPorts svc.key vip ranges
            (binds svc.key) ⟨progress.table, 0, 0⟩ svc.ports.zipIdx).table svc := by
        rw [AllBound, ← hbound, htcp, ← length_pos_iff]
        simp
      simp only [reconcileService, hvip, hranges]
      rw [← servePorts, ← hall]
      split_ifs with hcase
      · simp only [Bool.and_eq_true, decide_eq_true_eq] at hcase
        rw [mem_cons]
        constructor
        · rintro (hnew | hold)
          · exact .inr ⟨hnew, hcase⟩
          · exact .inl hold
        · rintro (hold | ⟨hnew, -⟩)
          · exact .inr hold
          · exact .inl hnew
      · simp only [Bool.and_eq_true, decide_eq_true_eq] at hcase
        exact ⟨.inl, fun hmem => hmem.resolve_right fun hnew => hcase hnew.2⟩

structure SameFor (key : Str) (left right : Progress Addr Range) : Prop where
  table : ∀ forwarder, forwarder.key = key → (forwarder ∈ left.table ↔ forwarder ∈ right.table)
  lastRanges : left.lastRanges key = right.lastRanges key

omit [LinearOrder Addr] in
theorem SameFor.refl (key : Str) (progress : Progress Addr Range) : SameFor key progress progress :=
  ⟨fun _ _ => Iff.rfl, rfl⟩

variable {left right : Progress Addr Range}

omit [LinearOrder Addr] in
theorem SameFor.trans {key : Str} {middle : Progress Addr Range} (hfirst : SameFor key left middle)
    (hsecond : SameFor key middle right) : SameFor key left right :=
  ⟨fun forwarder hkey => (hfirst.table forwarder hkey).trans (hsecond.table forwarder hkey),
    hfirst.lastRanges.trans hsecond.lastRanges⟩

omit [LinearOrder Addr] in
theorem SameFor.keptFor (hsame : SameFor svc.key left right)
    (hkept : KeptFor netip left.table svc) :
    KeptFor netip right.table svc := by
  intro forwarder hmem hkey
  exact hkept forwarder ((hsame.table forwarder hkey).2 hmem) hkey

omit [LinearOrder Addr] in
theorem SameFor.allBound (hsame : SameFor svc.key left right) (hbound : AllBound left.table svc) :
    AllBound right.table svc := by
  refine ⟨hbound.1, fun port hport => ?_⟩
  obtain ⟨forwarder, hmem, hholds⟩ := any_eq_true.1 (hbound.2 port hport)
  have hkey : forwarder.key = svc.key := by
    simp only [holdsPort, Bool.and_eq_true, decide_eq_true_eq] at hholds
    exact hholds.1
  exact any_eq_true.2 ⟨forwarder, (hsame.table forwarder hkey).1 hmem, hholds⟩

omit [LinearOrder Addr] in
theorem SameFor.symm {key : Str} (hsame : SameFor key left right) : SameFor key right left :=
  ⟨fun forwarder hkey => (hsame.table forwarder hkey).symm, hsame.lastRanges.symm⟩

theorem ServiceServed.sameFor {before after : Progress Addr Range} {key : Str}
    (hserved : ServiceServed netip config hoster ingressPorts binds svc before after)
    (hkey : key ≠ svc.key) : SameFor key before after := by
  cases hserved with
  | closed _ hsame => exact hsame ▸ SameFor.refl key before
  | served vip ranges _ htable hlast _ =>
    refine ⟨fun forwarder hforwarder => ?_, ?_⟩
    · have hne : forwarder.key ≠ svc.key := hforwarder ▸ hkey
      rw [htable, mem_servePorts_of_key_ne netip config hoster ingressPorts svc.key vip ranges
        (binds svc.key) hne]
    · rw [hlast]
      split_ifs
      · rw [Function.update_of_ne hkey]
      · rfl

section All

variable (netip config hoster ingressPorts binds)

def serveAll (progress : Progress Addr Range) (svcs : List Service) : Progress Addr Range :=
  svcs.foldl (reconcileService netip config hoster ingressPorts binds) progress

structure Servable (progress : Progress Addr Range) (svcs : List Service) : Prop where
  nodup : (svcs.map (·.key)).Nodup
  kept : ∀ svc ∈ svcs, KeptFor netip progress.table svc
  distinct : ∀ svc ∈ svcs, (tcpPorts svc).Nodup

variable {netip config hoster ingressPorts binds}

theorem Servable.tail (hservable : Servable netip progress (svc :: svcs)) :
    Servable netip (reconcileService netip config hoster ingressPorts binds progress svc) svcs := by
  have hnodup := hservable.nodup
  rw [map_cons, nodup_cons] at hnodup
  refine ⟨hnodup.2, fun other hother => ?_, fun other hother => ?_⟩
  · have hne : other.key ≠ svc.key := fun heq => hnodup.1 (heq ▸ mem_map_of_mem hother)
    have hserved := reconcileService_served config hoster ingressPorts binds
      (hservable.kept svc mem_cons_self) (hservable.distinct svc mem_cons_self)
    exact (hserved.sameFor hne).keptFor (hservable.kept other (mem_cons_of_mem _ hother))
  · exact hservable.distinct other (mem_cons_of_mem _ hother)

theorem Servable.head (hservable : Servable netip progress (svc :: svcs)) :
    ServiceServed netip config hoster ingressPorts binds svc progress
      (reconcileService netip config hoster ingressPorts binds progress svc) :=
  reconcileService_served config hoster ingressPorts binds (hservable.kept svc mem_cons_self)
    (hservable.distinct svc mem_cons_self)

theorem serveAll_cons :
    serveAll netip config hoster ingressPorts binds progress (svc :: svcs) =
      serveAll netip config hoster ingressPorts binds
        (reconcileService netip config hoster ingressPorts binds progress svc) svcs :=
  rfl

theorem serveAll_sameFor (hservable : Servable netip progress svcs) {key : Str}
    (hkey : ∀ svc ∈ svcs, key ≠ svc.key) :
    SameFor key progress (serveAll netip config hoster ingressPorts binds progress svcs) := by
  induction svcs generalizing progress with
  | nil => exact SameFor.refl key progress
  | cons svc svcs ih =>
    rw [serveAll_cons]
    exact (hservable.head.sameFor (hkey svc mem_cons_self)).trans
      (ih hservable.tail fun other hother => hkey other (mem_cons_of_mem _ hother))

theorem serveAll_served (hservable : Servable netip progress svcs) (hsvc : svc ∈ svcs) :
    ∃ before after, SameFor svc.key progress before ∧
      ServiceServed netip config hoster ingressPorts binds svc before after ∧
      SameFor svc.key after (serveAll netip config hoster ingressPorts binds progress svcs) := by
  induction svcs generalizing progress with
  | nil => cases hsvc
  | cons first rest ih =>
    have hnodup := hservable.nodup
    rw [map_cons, nodup_cons] at hnodup
    rw [serveAll_cons]
    rcases mem_cons.1 hsvc with rfl | hrest
    · refine ⟨progress, _, SameFor.refl _ _, hservable.head, serveAll_sameFor hservable.tail ?_⟩
      intro other hother heq
      exact hnodup.1 (heq ▸ mem_map_of_mem hother)
    · obtain ⟨before, after, hbefore, hserved, hafter⟩ := ih hservable.tail hrest
      have hne : svc.key ≠ first.key := fun heq => hnodup.1 (heq ▸ mem_map_of_mem hrest)
      exact ⟨before, after, (hservable.head.sameFor hne).trans hbefore, hserved, hafter⟩

theorem mem_entries_serveAll (hservable : Servable netip progress svcs) (entry : Str × Str) :
    entry ∈ (serveAll netip config hoster ingressPorts binds progress svcs).entries ↔
      entry ∈ progress.entries ∨ ∃ svc ∈ svcs, entry = (svc.key, reportEntry svc) ∧
        AllBound (serveAll netip config hoster ingressPorts binds progress svcs).table svc := by
  induction svcs generalizing progress with
  | nil => simp [serveAll]
  | cons svc svcs ih =>
    have hnodup := hservable.nodup
    rw [map_cons, nodup_cons] at hnodup
    have hlater : SameFor svc.key
        (reconcileService netip config hoster ingressPorts binds progress svc)
        (serveAll netip config hoster ingressPorts binds
          (reconcileService netip config hoster ingressPorts binds progress svc) svcs) := by
      refine serveAll_sameFor hservable.tail fun other hother heq => ?_
      exact hnodup.1 (heq ▸ mem_map_of_mem hother)
    have hfirst : entry ∈ (reconcileService netip config hoster ingressPorts binds progress
        svc).entries ↔ entry ∈ progress.entries ∨ entry = (svc.key, reportEntry svc) ∧
        AllBound (serveAll netip config hoster ingressPorts binds
          (reconcileService netip config hoster ingressPorts binds progress svc) svcs).table
            svc := by
      cases hservable.head with
      | closed hclosed hsame =>
        rw [hsame] at hlater ⊢
        refine ⟨.inl, fun hmem => hmem.resolve_right fun hnew => ?_⟩
        exact hclosed.not_allBound (hlater.symm.allBound hnew.2)
      | served vip ranges _ _ _ hentries =>
        rw [hentries]
        refine or_congr Iff.rfl (and_congr_right fun _ => ?_)
        exact ⟨hlater.allBound, hlater.symm.allBound⟩
    rw [serveAll_cons, ih hservable.tail, hfirst, exists_mem_cons_iff, or_assoc]

end All

section Pass

variable {pass : HosterPass}

variable {forwarder : Forwarder Addr Range}

theorem mem_teardown :
    forwarder ∈ (teardown netip config hoster svcs).table ↔ forwarder ∈ hoster.forwarders ∧
      keeps netip config svcs (ingressServicePorts config svcs) forwarder = true := by
  simp [teardown, mem_filter]

theorem exists_of_keeps {ports : List ℤ} (hkeeps : keeps netip config svcs ports forwarder = true) :
    ∃ svc ∈ svcs, isDesired config svc = true ∧ svc.key = forwarder.key ∧
      destination netip svc forwarder.port = some forwarder.dst := by
  simp only [keeps, Bool.and_eq_true, any_eq_true, decide_eq_true_eq] at hkeeps
  obtain ⟨⟨svc, hsvc, ⟨hdesired, hkey⟩, hdst⟩, -⟩ := hkeeps
  exact ⟨svc, hsvc, hdesired, hkey, hdst⟩

theorem servable_teardown (hoster : Hoster Addr Range) (pass : HosterPass) :
    Servable netip (teardown netip config hoster pass.svcs)
    (pass.svcs.filter (isDesired config)) where
  nodup := pass.nodup.sublist (List.Sublist.map _ filter_sublist)
  kept := by
    intro svc hsvc forwarder hmem hkey
    obtain ⟨other, hother, -, hsame, hdst⟩ := exists_of_keeps (mem_teardown.1 hmem).2
    have hone : other = svc := inj_on_of_nodup_map pass.nodup hother (mem_of_mem_filter hsvc)
      (hsame.trans hkey)
    exact hone ▸ hdst
  distinct svc hsvc := pass.distinct svc (mem_of_mem_filter hsvc)

theorem exists_of_mem_reconcileAll
    (hmem : forwarder ∈ (reconcileAll netip config hoster pass).table) :
    ∃ svc ∈ pass.svcs.filter (isDesired config), forwarder.key = svc.key := by
  by_contra hnone
  have hkey : ∀ svc ∈ pass.svcs.filter (isDesired config), forwarder.key ≠ svc.key :=
    fun svc hsvc heq => hnone ⟨svc, hsvc, heq⟩
  have hsame : SameFor forwarder.key (teardown netip config hoster pass.svcs)
      (reconcileAll netip config hoster pass) :=
    serveAll_sameFor (servable_teardown hoster pass) hkey
  obtain ⟨svc, hsvc, hdesired, heq, -⟩ :=
    exists_of_keeps (mem_teardown.1 ((hsame.table forwarder rfl).2 hmem)).2
  exact hkey svc (mem_filter.2 ⟨hsvc, hdesired⟩) heq.symm

end Pass

end Services

end K3sm.Svclb
