import K3sm.Svclb.BoundReport
import K3sm.Svclb.FailClosed

/-!
# The bound report tells the truth

After a pass whose report was written, or was left because it had not changed, the annotation
of the Node lists the Services whose every TCP port has a forwarder that accepts on every
address of the set in force.  It takes two things the hoster does not look at: that the
forwarders it keeps still accept, and that the Node carries the report it remembers.
-/

namespace K3sm.Svclb

open K3sm.Core List
open K3sm.Core.Filepath (Str)

variable {Addr Range : Type*} [LinearOrder Addr] {netip : Netip Addr Range} {config : HosterConfig}
  {world : World Addr Range} {pass : HosterPass} {svc : Service}

/-- A forwarder that still accepts, on every address of the set in force. -/
def Accepts (netip : Netip Addr Range) (config : HosterConfig) (addrs : List Addr)
    (forwarder : Forwarder Addr Range) : Prop :=
  forwarder.accepting = true ∧
    ∀ addr ∈ effective netip config addrs forwarder.port, addr ∈ forwarder.lns

/-- Every TCP port of the Service has a forwarder that accepts. -/
def Serves (netip : Netip Addr Range) (config : HosterConfig) (hoster : Hoster Addr Range)
    (svc : Service) : Prop :=
  tcpPorts svc ≠ [] ∧ ∀ port ∈ tcpPorts svc, ∃ forwarder ∈ hoster.forwarders,
    forwarder.key = svc.key ∧ forwarder.port = port ∧ Accepts netip config hoster.addrs forwarder

/-- The annotation lists the entries of these Services, in order and up to its cap. -/
def ListsExactly (boundValue : Option Str) (svcs : List Service) (serves : Service → Prop) : Prop :=
  ∃ value report rest, boundValue = some value ∧ parseBound value = some report ∧
    (report.entries ++ rest).Pairwise (· ≤ ·) ∧
    (∀ entry, entry ∈ report.entries ++ rest ↔ ∃ svc ∈ svcs, serves svc ∧ entry = reportEntry svc) ∧
    ∀ entry, rest.head? = some entry → maxBoundBytes < byteLength value + 1 + byteLength entry

/-- The pass came to its report, and wrote it or left it because it had not changed. -/
def Reported (netip : Netip Addr Range) (config : HosterConfig) (world : World Addr Range)
    (pass : HosterPass) : Prop :=
  let prepared := prepareStep world pass
  prepared.hoster.reset = true ∧ (pass.reportWrite = .ok ∨
    (formatBound prepared.hoster.incarnation.text
      ((reconcileAll netip config prepared.hoster pass).entries.map Prod.snd)).1 =
      prepared.hoster.reported)

/-- What a pass takes on trust: the forwarders it keeps still accept, and a report it remembers,
and does not start anew, is the one the Node carries. -/
def Sound (netip : Netip Addr Range) (config : HosterConfig) (world : World Addr Range) :
    HosterEvent Addr → Prop
  | .pass pass =>
    (∀ forwarder ∈ world.hoster.forwarders,
      keeps netip config pass.svcs (ingressServicePorts config pass.svcs) forwarder = true →
      forwarder.accepting = true) ∧
    (turnsReady world.hoster pass.ownReady = false → world.hoster.reported ≠ [] →
      world.boundValue = some world.hoster.reported)
  | _ => True

def Covered (netip : Netip Addr Range) (config : HosterConfig) (world : World Addr Range) : Prop :=
  ∀ forwarder ∈ world.hoster.forwarders,
    ∀ addr ∈ effective netip config world.hoster.addrs forwarder.port, addr ∈ forwarder.lns

theorem reconcileAll_forall {hoster : Hoster Addr Range} {motive : Forwarder Addr Range → Prop}
    (hkept : ∀ forwarder ∈ hoster.forwarders,
      keeps netip config pass.svcs (ingressServicePorts config pass.svcs) forwarder = true →
      motive forwarder)
    (hset : ∀ forwarder ranges, motive forwarder → motive { forwarder with ranges := ranges })
    (hopen : ∀ key port dst ranges, motive
      ⟨key, port, dst, ranges, effective netip config hoster.addrs port, true⟩) :
    ∀ forwarder ∈ (reconcileAll netip config hoster pass).table, motive forwarder := by
  intro forwarder hmem
  obtain ⟨svc, hsvc, hkey⟩ := exists_of_mem_reconcileAll hmem
  obtain ⟨before, after, hbefore, hserved, hafter⟩ :
      ∃ before after, SameFor svc.key (teardown netip config hoster pass.svcs) before ∧
        ServiceServed netip config hoster (ingressServicePorts config pass.svcs) pass.binds svc
          before after ∧ SameFor svc.key after (reconcileAll netip config hoster pass) :=
    serveAll_served (servable_teardown hoster pass) hsvc
  have hin := (hafter.table forwarder hkey).2 hmem
  have htorn : ∀ other ∈ before.table, other.key = svc.key → motive other := by
    intro other hother hotherKey
    obtain ⟨hopened, hstays⟩ := mem_teardown.1 ((hbefore.table other hotherKey).2 hother)
    exact hkept other hopened hstays
  cases hserved with
  | closed hclosed hsame => exact absurd hkey (hclosed forwarder (hsame ▸ hin))
  | served vip ranges _ htable _ _ =>
    rw [htable] at hin
    refine servePorts_forall netip config hoster (ingressServicePorts config pass.svcs) svc.key vip
      ranges (pass.binds svc.key) (motive := fun forwarder => forwarder.key = svc.key →
        motive forwarder) htorn ?_ ?_ forwarder hin hkey
    · exact fun other hother hotherKey => hset other ranges (hother hotherKey)
    · exact fun port dst _ => hopen svc.key port dst ranges

theorem hosterReconcile_covered (hcovered : Covered netip config world) :
    Covered netip config (hosterReconcile netip config world pass) := by
  intro forwarder hmem
  simp only [hosterReconcile, report_forwarders, report_addrs] at hmem ⊢
  refine reconcileAll_forall (motive := fun forwarder => ∀ addr ∈ effective netip config
    world.hoster.addrs forwarder.port, addr ∈ forwarder.lns) ?_ ?_ ?_ forwarder hmem
  · exact fun other hother _ => hcovered other hother
  · exact fun other _ hother => hother
  · exact fun key port dst ranges addr haddr => haddr

theorem prepareStep_covered (hcovered : Covered netip config world) (pass : HosterPass) :
    Covered netip config (prepareStep world pass) := by
  intro forwarder hmem
  rw [prepareStep_forwarders] at hmem
  rw [prepareStep_addrs]
  exact hcovered forwarder hmem

theorem commitRebind_covered (request : RebindRequest Addr) :
    Covered netip config (commitRebind netip config world request) := by
  intro forwarder hmem addr haddr
  simp only [commitRebind] at hmem haddr
  obtain ⟨other, -, rfl⟩ := mem_map.1 hmem
  simp only [commit] at haddr ⊢
  rw [mem_append, mem_filter, mem_filter]
  by_cases hold : addr ∈ other.lns
  · exact .inl ⟨hold, by simpa using haddr⟩
  · exact .inr ⟨haddr, by simpa using hold⟩

theorem next_covered {event : HosterEvent Addr} (hcovered : Covered netip config world) :
    Covered netip config (next netip config world event) := by
  cases event with
  | reset write =>
    intro forwarder hmem
    simp only [next, resetReport_forwarders, resetReport_addrs] at hmem ⊢
    exact hcovered forwarder hmem
  | pass pass =>
    have hprepared := prepareStep_covered hcovered pass
    simp only [next, hosterStep]
    split_ifs
    · exact hosterReconcile_covered hprepared
    · exact hprepared
  | acceptFails key port =>
    intro forwarder hmem
    obtain ⟨other, hother, rfl⟩ := mem_map.1 hmem
    have hsame := hcovered other hother
    split_ifs
    · exact hsame
    · exact hsame
  | rebind request =>
    simp only [next, handleRebind]
    split_ifs
    · exact commitRebind_covered request
    · exact hcovered

/-! ## After a pass -/

theorem reconcileAll_accepts {hoster : Hoster Addr Range}
    (hkept : ∀ forwarder ∈ hoster.forwarders,
      keeps netip config pass.svcs (ingressServicePorts config pass.svcs) forwarder = true →
      Accepts netip config hoster.addrs forwarder) :
    ∀ forwarder ∈ (reconcileAll netip config hoster pass).table,
      Accepts netip config hoster.addrs forwarder :=
  reconcileAll_forall hkept (fun _ _ hother => hother) fun _ _ _ _ => ⟨rfl, fun _ haddr => haddr⟩

theorem mem_entries_iff {hoster : Hoster Addr Range}
    (haccepts : ∀ forwarder ∈ (reconcileAll netip config hoster pass).table,
      Accepts netip config hoster.addrs forwarder) (entry : Str) :
    entry ∈ (reconcileAll netip config hoster pass).entries.map Prod.snd ↔
      ∃ svc ∈ pass.svcs, Serves netip config { hoster with
        forwarders := (reconcileAll netip config hoster pass).table } svc ∧
          entry = reportEntry svc := by
  have hbound : ∀ svc, AllBound (reconcileAll netip config hoster pass).table svc ↔
      Serves netip config { hoster with
        forwarders := (reconcileAll netip config hoster pass).table } svc := by
    intro svc
    refine and_congr_right fun _ => forall₂_congr fun port _ => ?_
    rw [any_eq_true]
    refine exists_congr fun forwarder => and_congr_right fun hmem => ?_
    simp only [holdsPort, Bool.and_eq_true, decide_eq_true_eq]
    exact ⟨fun hholds => ⟨hholds.1, hholds.2, haccepts forwarder hmem⟩, fun hholds =>
      ⟨hholds.1, hholds.2.1⟩⟩
  have hentries : ∀ pair, pair ∈ (reconcileAll netip config hoster pass).entries ↔
      ∃ svc ∈ pass.svcs.filter (isDesired config), pair = (svc.key, reportEntry svc) ∧
        AllBound (reconcileAll netip config hoster pass).table svc := by
    intro pair
    have hall : pair ∈ (reconcileAll netip config hoster pass).entries ↔
        pair ∈ (teardown netip config hoster pass.svcs).entries ∨
        ∃ svc ∈ pass.svcs.filter (isDesired config), pair = (svc.key, reportEntry svc) ∧
          AllBound (reconcileAll netip config hoster pass).table svc :=
      mem_entries_serveAll (servable_teardown hoster pass) pair
    rw [hall]
    simp [teardown]
  rw [mem_map]
  constructor
  · rintro ⟨pair, hpair, rfl⟩
    obtain ⟨svc, hsvc, rfl, hall⟩ := (hentries pair).1 hpair
    exact ⟨svc, mem_of_mem_filter hsvc, (hbound svc).1 hall, rfl⟩
  rintro ⟨svc, hsvc, hserves, rfl⟩
  -- a Service with a forwarder is a desired one
  obtain ⟨port, hport⟩ := exists_mem_of_ne_nil _ hserves.1
  obtain ⟨forwarder, hmem, hkey, -, -⟩ := hserves.2 port hport
  obtain ⟨other, hother, hotherKey⟩ := exists_of_mem_reconcileAll hmem
  have hone : other = svc := inj_on_of_nodup_map pass.nodup (mem_of_mem_filter hother) hsvc
    (hotherKey.symm.trans hkey)
  exact ⟨(svc.key, reportEntry svc),
    (hentries _).2 ⟨svc, hone ▸ hother, rfl, (hbound svc).2 hserves⟩,
    rfl⟩

theorem listsExactly_formatBound {svcs : List Service} {serves : Service → Prop}
    {entries : List Str}
    (incarnation : Incarnation)
    (hentries : ∀ entry, entry ∈ entries ↔ ∃ svc ∈ svcs, serves svc ∧ entry = reportEntry svc)
    (hplain : ∀ svc ∈ svcs, ',' ∉ reportEntry svc) :
    ListsExactly (some (formatBound incarnation.text entries).1) svcs serves := by
  have hread : ∀ entry ∈ entries, ',' ∉ entry ∧ entry ≠ [] := by
    intro entry hentry
    obtain ⟨svc, hsvc, -, rfl⟩ := (hentries entry).1 hentry
    exact ⟨hplain svc hsvc, by simp [reportEntry]⟩
  obtain ⟨listed, rest, hsplit, hformat, hparse, -, hrest⟩ :=
    parseBound_formatBound incarnation entries hread
  refine ⟨_, _, rest, rfl, hparse, ?_, fun entry => ?_, fun entry hentry => ?_⟩
  · rw [← hsplit]
    exact pairwise_insertionSort (· ≤ ·) entries
  · rw [← hsplit, mem_insertionSort, hentries]
  · have hlong := hrest entry hentry
    rw [byteLength_boundText, map_append, sum_append] at hlong
    rw [hformat, byteLength_boundText]
    simp only [map_cons, map_nil, sum_singleton] at hlong
    omega

theorem formatBound_ne_nil (incarnation : Incarnation) (entries : List Str) :
    (formatBound incarnation.text entries).1 ≠ [] := by
  have hgrows : ∀ (rest : List Str) (value separator : Str), value ≠ [] →
      (appendEntries value separator rest).1 ≠ [] := by
    intro rest
    induction rest with
    | nil => exact fun value _ hvalue => hvalue
    | cons entry rest ih =>
      intro value separator hvalue
      rw [appendEntries]
      split_ifs
      · exact hvalue
      · exact ih _ _ (by simp [hvalue])
  exact hgrows _ _ _ (by simp)

theorem prepareStep_remembers (hsound : Sound netip config world (.pass pass))
    (hreset : (prepareStep world pass).hoster.reset = true)
    (hremembers : (prepareStep world pass).hoster.reported ≠ []) :
    (prepareStep world pass).boundValue = some (prepareStep world pass).hoster.reported := by
  have hobserved : (observeOwnReady world.hoster pass).reported ≠ [] →
      world.boundValue = some (observeOwnReady world.hoster pass).reported := by
    intro hne
    simp only [observeOwnReady] at hne ⊢
    cases hready : pass.ownReady with
    | none =>
      simp only [hready] at hne ⊢
      exact hsound.2 (by simp [turnsReady, hready]) hne
    | some ready =>
      simp only [hready] at hne ⊢
      by_cases hturns : turnsReady world.hoster (some ready) = true
      · simp [hturns] at hne
      · rw [if_neg hturns] at hne ⊢
        exact hsound.2 (by rw [hready]; simpa using hturns) hne
  simp only [prepareStep] at hreset hremembers ⊢
  split_ifs at hreset hremembers ⊢ with hdone
  · exact hobserved hremembers
  simp only [resetReport] at hreset hremembers ⊢
  split_ifs at hreset hremembers ⊢ with hwrite
  · rw [hwrite, landed]
  · exact absurd hreset hdone

theorem hosterStep_truthful (hcovered : Covered netip config world)
    (hsound : Sound netip config world (.pass pass))
    (hreported : Reported netip config world pass) :
    ListsExactly (hosterStep netip config world pass).boundValue pass.svcs
      (Serves netip config (hosterStep netip config world pass).hoster) := by
  obtain ⟨hreset, hwritten⟩ := hreported
  have hprepared := prepareStep_covered hcovered pass
  have haccepts : ∀ forwarder ∈
      (reconcileAll netip config (prepareStep world pass).hoster pass).table,
      Accepts netip config (prepareStep world pass).hoster.addrs forwarder := by
    refine reconcileAll_accepts fun forwarder hmem hkeeps => ?_
    rw [prepareStep_forwarders] at hmem
    exact ⟨hsound.1 forwarder hmem hkeeps,
      hprepared forwarder ((prepareStep_forwarders world pass).symm ▸ hmem)⟩
  have hserves : Serves netip config (hosterStep netip config world pass).hoster =
      Serves netip config { (prepareStep world pass).hoster with
        forwarders := (reconcileAll netip config (prepareStep world pass).hoster pass).table } := by
    funext svc
    simp [Serves, hosterStep, hreset, hosterReconcile]
  have hboundValue : (hosterStep netip config world pass).boundValue =
      some (formatBound (prepareStep world pass).hoster.incarnation.text
        ((reconcileAll netip config (prepareStep world pass).hoster pass).entries.map
          Prod.snd)).1 := by
    simp only [hosterStep, hreset, if_true, hosterReconcile, report]
    split_ifs with hsame hok
    · rw [prepareStep_remembers hsound hreset (hsame ▸ formatBound_ne_nil _ _), hsame]
    · rw [hok, landed]
    · exact absurd (hwritten.resolve_right hsame) hok
  rw [hserves, hboundValue]
  exact listsExactly_formatBound (prepareStep world pass).hoster.incarnation
    (mem_entries_iff haccepts) pass.plain

/-- After every pass whose report was written or left as unchanged, the Node lists exactly the
Services it serves, as long as every pass finds its forwarders and its report as it left them. -/
theorem bound_report_tells_truth (netip : Netip Addr Range) (config : HosterConfig)
    (incarnation : Incarnation) (addrs : List Addr) (boundValue : Option Str)
    (events : List (HosterEvent Addr)) (pass : HosterPass)
    (hsteps : EachStep (Sound netip config) (next netip config) (start incarnation addrs boundValue)
      (events ++ [.pass pass]))
    (hreported : Reported netip config
      (events.foldl (next netip config) (start incarnation addrs boundValue)) pass) :
    ListsExactly
      ((events ++ [HosterEvent.pass pass]).foldl (next netip config)
        (start incarnation addrs boundValue)).boundValue pass.svcs
      (Serves netip config ((events ++ [HosterEvent.pass pass]).foldl (next netip config)
        (start incarnation addrs boundValue)).hoster) := by
  have hstart : Covered netip config (start incarnation addrs boundValue) := by
    intro forwarder hmem
    cases hmem
  have hstep : ∀ (world : World Addr Range) (event : HosterEvent Addr), Covered netip config world →
      Covered netip config (next netip config world event) :=
    fun _ _ hcovered => next_covered hcovered
  have halways : Always (Covered netip config) (next netip config)
      (start incarnation addrs boundValue) events :=
    always_of_step hstep hstart events
  rw [foldl_append]
  exact hosterStep_truthful halways.last (eachStep_append.1 hsteps).2.1 hreported

/-! ## Two reports that do not tell it

The Service `shop/web` is bound and reported.  Then its listener fails; or a report without it
lands although its write returned an error, and the Service comes back. -/

def webPass : HosterPass := passOver (stampedService ['1'] []) .ok stamped_ports stamped_entry

def emptyPass (reportWrite : WriteOutcome) : HosterPass where
  ownReady := some true
  fresh := hexIncarnation
  resetWrite := .ok
  svcs := []
  nodup := by simp
  distinct := by simp
  plain := by simp
  binds _ _ := true
  reportWrite := reportWrite

def worldAfter (events : List (HosterEvent ℕ)) : World ℕ (ℕ × ℕ) :=
  events.foldl (next ipv4 macConfig) (start hexIncarnation wildcard none)

def failedListener : List (HosterEvent ℕ) :=
  [.pass webPass, .acceptFails "shop/web".toList 8080]

def lostAnswer : List (HosterEvent ℕ) :=
  [.pass webPass, .pass (emptyPass .landedWithError)]

/-- A second pass over the Service keeps its forwarder, and its report, which it need not
write again. -/
theorem web_report_tells_truth :
    ListsExactly (worldAfter [.pass webPass, .pass webPass]).boundValue webPass.svcs
      (Serves ipv4 macConfig (worldAfter [.pass webPass, .pass webPass]).hoster) := by
  refine bound_report_tells_truth ipv4 macConfig hexIncarnation wildcard none
    [.pass webPass] webPass
    ⟨⟨fun forwarder hmem => ?_, fun _ hne => ?_⟩, ⟨?_, fun _ _ => ?_⟩, trivial⟩
      ⟨by decide, .inl rfl⟩
  · cases hmem
  · exact absurd rfl hne
  · decide
  · decide

theorem reports_without_truth :
    (Reported ipv4 macConfig (worldAfter failedListener) webPass ∧
      ¬ ListsExactly (worldAfter (failedListener ++ [.pass webPass])).boundValue webPass.svcs
        (Serves ipv4 macConfig (worldAfter (failedListener ++ [.pass webPass])).hoster)) ∧
    Reported ipv4 macConfig (worldAfter lostAnswer) webPass ∧
      ¬ ListsExactly (worldAfter (lostAnswer ++ [.pass webPass])).boundValue webPass.svcs
        (Serves ipv4 macConfig (worldAfter (lostAnswer ++ [.pass webPass])).hoster) := by
  refine ⟨⟨⟨by decide, .inl rfl⟩, ?_⟩, ⟨by decide, .inl rfl⟩, ?_⟩
  · -- the Service is still listed, and nothing accepts
    rintro ⟨value, report, rest, hvalue, hparse, -, hlists, -⟩
    have hnow : (worldAfter (failedListener ++ [.pass webPass])).boundValue =
        some "0123456789abcdef;shop/web:1".toList := by decide
    have hread : parseBound "0123456789abcdef;shop/web:1".toList =
        some ⟨"0123456789abcdef".toList, ["shop/web:1".toList]⟩ := by decide
    have hdead : ∀ forwarder ∈ (worldAfter (failedListener ++ [.pass webPass])).hoster.forwarders,
        forwarder.accepting = false := by decide
    rw [hnow, Option.some.injEq] at hvalue
    rw [← hvalue, hread, Option.some.injEq] at hparse
    obtain ⟨svc, -, hserves, -⟩ := (hlists "shop/web:1".toList).1 (by simp [← hparse])
    obtain ⟨port, hport⟩ := exists_mem_of_ne_nil _ hserves.1
    obtain ⟨forwarder, hmem, -, -, haccepts, -⟩ := hserves.2 port hport
    rw [hdead forwarder hmem] at haccepts
    cases haccepts
  -- the Service is served, and the report on the Node is the one without it
  rintro ⟨value, report, rest, hvalue, hparse, -, hlists, hcap⟩
  have hnow : (worldAfter (lostAnswer ++ [.pass webPass])).boundValue =
      some "0123456789abcdef;".toList := by decide
  have hread : parseBound "0123456789abcdef;".toList =
      some ⟨"0123456789abcdef".toList, []⟩ := by decide
  have hopen : ∃ forwarder ∈ (worldAfter (lostAnswer ++ [.pass webPass])).hoster.forwarders,
      forwarder.key = "shop/web".toList ∧ forwarder.port = 8080 ∧ forwarder.accepting = true ∧
      ∀ addr ∈ effective ipv4 macConfig
        (worldAfter (lostAnswer ++ [.pass webPass])).hoster.addrs forwarder.port,
        addr ∈ forwarder.lns := by decide
  rw [hnow, Option.some.injEq] at hvalue
  rw [← hvalue, hread, Option.some.injEq] at hparse
  have hserves : Serves ipv4 macConfig (worldAfter (lostAnswer ++ [.pass webPass])).hoster
      (stampedService ['1'] []) := by
    refine ⟨by decide, fun port hport => ?_⟩
    have hone : port = 8080 := by simpa [tcpPorts, stampedService, isTCP] using hport
    obtain ⟨forwarder, hmem, hkey, hat, haccepting, haddrs⟩ := hopen
    exact ⟨forwarder, hmem, hkey, hat.trans hone.symm, haccepting, haddrs⟩
  have hlisted := (hlists (reportEntry (stampedService ['1'] []))).2
    ⟨_, mem_singleton_self _, hserves, rfl⟩
  rw [← hparse, nil_append] at hlisted
  cases rest with
  | nil => cases hlisted
  | cons entry others =>
    obtain ⟨svc, hsvc, -, hentry⟩ := (hlists entry).1 (by simp)
    rw [mem_singleton.1 hsvc] at hentry
    have hroom := hcap entry rfl
    rw [hentry, ← hvalue] at hroom
    exact absurd hroom (by decide)

end K3sm.Svclb
