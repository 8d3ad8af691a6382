import K3sm.Helmchart.Controller

/-!
# Helm runs of one chart do not overlap

While a delete Job may run, its chart is held by the finalizer and is being deleted, so no
reconcile that begins now creates an install Job; and the delete Job was created after the
install Job was seen gone.  Both rest on the calls of one reconcile standing together.
-/

namespace K3sm.Helmchart

open K3sm.Core List Option

namespace HelmCluster

variable {cluster next : HelmCluster} {chart : HelmChart} {stage : HelmStage}

def NoDelete (cluster : HelmCluster) : Prop :=
  ∀ job, cluster.jobs .delete = some job → job.state ≠ .running

def Holding (cluster : HelmCluster) (uid : ℕ) : Prop :=
  ∃ chart, cluster.chart = some chart ∧ chart.uid = uid ∧ chart.deleting = true ∧
    chart.finalizer = true

/-- The invariant of the controller's runs. -/
structure Sound (cluster : HelmCluster) : Prop where
  held : ∀ job, cluster.jobs .delete = some job → job.state = .running →
    cluster.Holding job.chartUid
  ended : ∀ job, cluster.jobs .delete = some job → job.state ≠ .running →
    job.chartUid ∈ cluster.uninstalled
  alone : ∀ job, cluster.jobs .install = some job → job.state = .running → cluster.NoDelete
  removals : ∀ removal ∈ cluster.removals, removal.uninstalled = true ∧ removal.installLeft = false

def Knows (cluster : HelmCluster) : HelmStage → Prop
  | .addFinalizer _ | .prepare _ | .getInstall _ _ | .replaceInstall _ _ _ | .getInstallAgain _ _
  | .createInstall _ _ => cluster.NoDelete
  | .finalizeGetInstall chart | .finalizeDeleteInstall chart _ | .finalizeGetInstallAgain chart =>
    cluster.Holding chart.uid
  | .provisionIdentity chart | .getDelete chart | .replaceDelete chart _ | .getDeleteAgain chart
  | .createDelete chart => cluster.Holding chart.uid ∧ cluster.jobs .install = none
  | .deleteIdentity chart | .removeFinalizer chart =>
    cluster.Holding chart.uid ∧ cluster.jobs .install = none ∧
      chart.uid ∈ cluster.uninstalled ∧ cluster.NoDelete
  | _ => True

/-- What a change leaves of what a reconcile knows: it starts no Job, forgets no uninstalled
chart, and takes no held chart away. -/
structure Quiet (before after : HelmCluster) : Prop where
  install : ∀ job, after.jobs .install = some job → ∃ old, before.jobs .install = some old ∧
    (job.state = .running → old.state = .running)
  delete : ∀ job, after.jobs .delete = some job → ∃ old, before.jobs .delete = some old ∧
    old.chartUid = job.chartUid ∧ (job.state = .running → old.state = .running) ∧
    (job.state ≠ .running → old.state = .running → job.chartUid ∈ after.uninstalled)
  uninstalled : before.uninstalled ⊆ after.uninstalled
  holding : ∀ uid, before.Holding uid → after.Holding uid
  removals : after.removals = before.removals

theorem NoDelete.quiet (hnone : cluster.NoDelete) (hquiet : Quiet cluster next) :
    next.NoDelete := by
  intro job hjob hrunning
  obtain ⟨old, hold, -, hbefore, -⟩ := hquiet.delete job hjob
  exact hnone old hold (hbefore hrunning)

theorem Quiet.install_none (hquiet : Quiet cluster next) (hnone : cluster.jobs .install = none) :
    next.jobs .install = none := by
  cases hjob : next.jobs .install with
  | none => rfl
  | some job =>
    obtain ⟨old, hold, -⟩ := hquiet.install job hjob
    rw [hnone] at hold
    cases hold

theorem Sound.quiet (hsound : cluster.Sound) (hquiet : Quiet cluster next) : next.Sound := by
  constructor
  case held =>
    intro job hjob hrunning
    obtain ⟨old, hold, huid, hbefore, -⟩ := hquiet.delete job hjob
    exact huid ▸ hquiet.holding _ (hsound.held old hold (hbefore hrunning))
  case ended =>
    intro job hjob hover
    obtain ⟨old, hold, huid, -, hends⟩ := hquiet.delete job hjob
    by_cases hrunning : old.state = .running
    · exact hends hover hrunning
    · exact huid ▸ hquiet.uninstalled (hsound.ended old hold hrunning)
  case alone =>
    intro job hjob hrunning
    obtain ⟨old, hold, hbefore⟩ := hquiet.install job hjob
    exact (hsound.alone old hold (hbefore hrunning)).quiet hquiet
  case removals =>
    rw [hquiet.removals]
    exact hsound.removals

theorem Knows.quiet (hknows : cluster.Knows stage) (hquiet : Quiet cluster next) :
    next.Knows stage := by
  cases stage with
  | getChart | writeStatus | reinstall => trivial
  | addFinalizer | prepare | getInstall | replaceInstall | getInstallAgain | createInstall =>
    exact NoDelete.quiet hknows hquiet
  | finalizeGetInstall | finalizeDeleteInstall | finalizeGetInstallAgain =>
    exact hquiet.holding _ hknows
  | provisionIdentity | getDelete | replaceDelete | getDeleteAgain | createDelete =>
    exact ⟨hquiet.holding _ hknows.1, hquiet.install_none hknows.2⟩
  | deleteIdentity | removeFinalizer =>
    obtain ⟨hholding, hinstall, huninstalled, hdelete⟩ := hknows
    exact ⟨hquiet.holding _ hholding, hquiet.install_none hinstall,
      hquiet.uninstalled huninstalled, hdelete.quiet hquiet⟩

theorem quiet_refl (cluster : HelmCluster) : Quiet cluster cluster where
  install job hjob := ⟨job, hjob, id⟩
  delete job hjob := ⟨job, hjob, rfl, id, fun hover hrunning => absurd hrunning hover⟩
  uninstalled := Finset.Subset.refl _
  holding _ hholding := hholding
  removals := rfl

theorem quiet_chart {held : Option HelmChart} {fresh : ℕ}
    (hholding : ∀ uid, cluster.Holding uid →
      HelmCluster.Holding { cluster with chart := held, fresh := fresh } uid) :
    Quiet cluster { cluster with chart := held, fresh := fresh } where
  install job hjob := ⟨job, hjob, id⟩
  delete job hjob := ⟨job, hjob, rfl, id, fun hover hrunning => absurd hrunning hover⟩
  uninstalled := Finset.Subset.refl _
  holding := hholding
  removals := rfl

theorem setJob_jobs_self (cluster : HelmCluster) (name : JobName) (job : Option HelmJob) :
    (cluster.setJob name job).jobs name = job := by
  simp [setJob]

theorem setJob_jobs_of_ne (cluster : HelmCluster) {name any : JobName} (job : Option HelmJob)
    (hany : any ≠ name) : (cluster.setJob name job).jobs any = cluster.jobs any := by
  simp [setJob, hany]

theorem quiet_setJob {name : JobName} {job : Option HelmJob}
    (hjob : ∀ new, job = some new → ∃ old, cluster.jobs name = some old ∧
      old.chartUid = new.chartUid ∧ old.state = new.state) :
    Quiet cluster (cluster.setJob name job) := by
  have hfound : ∀ any new, (cluster.setJob name job).jobs any = some new →
      ∃ old, cluster.jobs any = some old ∧ old.chartUid = new.chartUid ∧ old.state = new.state := by
    intro any new hnew
    by_cases hany : any = name
    · subst hany
      rw [setJob_jobs_self] at hnew
      exact hjob new hnew
    · rw [setJob_jobs_of_ne cluster job hany] at hnew
      exact ⟨new, hnew, rfl, rfl⟩
  constructor
  case install =>
    intro new hnew
    obtain ⟨old, hold, -, hstate⟩ := hfound _ new hnew
    exact ⟨old, hold, fun hrunning => hstate.trans hrunning⟩
  case delete =>
    intro new hnew
    obtain ⟨old, hold, huid, hstate⟩ := hfound _ new hnew
    refine ⟨old, hold, huid, fun hrunning => hstate.trans hrunning, ?_⟩
    exact fun hover hrunning => absurd (hstate.symm.trans hrunning) hover
  case uninstalled => exact Finset.Subset.refl _
  case holding => exact fun _ hholding => hholding
  case removals => rfl

theorem quiet_deleteJob {name : JobName} {uid : ℕ}
    (hdeleted : cluster.deleteJob name uid = some next) :
    Quiet cluster next := by
  simp only [deleteJob] at hdeleted
  split at hdeleted
  · cases hdeleted
    exact quiet_refl cluster
  rename_i old hold
  split at hdeleted
  · cases hdeleted
    apply quiet_setJob
    intro new hnew
    cases hnew
    exact ⟨old, hold, rfl, rfl⟩
  · cases hdeleted

theorem quiet_jobDeleted (cluster : HelmCluster) (name : JobName) :
    Quiet cluster (cluster.jobDeleted name) := by
  unfold jobDeleted
  split
  · rename_i old hold
    apply quiet_setJob
    intro new hnew
    cases hnew
    exact ⟨old, hold, rfl, rfl⟩
  · exact quiet_refl cluster

theorem quiet_jobGoes (cluster : HelmCluster) (name : JobName) :
    Quiet cluster (cluster.setJob name none) :=
  quiet_setJob fun _ hnew => absurd hnew (some_ne_none _).symm

theorem quiet_jobEnds (cluster : HelmCluster) (name : JobName) (failed : Bool) :
    Quiet cluster (cluster.jobEnds name failed) := by
  unfold jobEnds
  split
  · rename_i old hold
    split
    · rename_i hrunning
      have hover : (if failed then JobState.failed else JobState.complete) ≠ .running := by
        cases failed <;> decide
      cases name with
      | install =>
        constructor
        case install =>
          intro job hjob
          exact ⟨old, hold, fun _ => hrunning⟩
        case delete =>
          intro job hjob
          rw [setJob_jobs_of_ne cluster _ (by decide)] at hjob
          exact ⟨job, hjob, rfl, id, fun hends hruns => absurd hruns hends⟩
        case uninstalled => exact Finset.Subset.refl _
        case holding => exact fun _ hholding => hholding
        case removals => rfl
      | delete =>
        constructor
        case install =>
          intro job hjob
          rw [setJob_jobs_of_ne cluster _ (by decide)] at hjob
          exact ⟨job, hjob, id⟩
        case delete =>
          intro job hjob
          rw [setJob_jobs_self] at hjob
          cases hjob
          exact ⟨old, hold, rfl, fun hruns => absurd hruns hover,
            fun _ _ => Finset.mem_insert_self _ _⟩
        case uninstalled => exact Finset.subset_insert _ _
        case holding => exact fun _ hholding => hholding
        case removals => rfl
    · exact quiet_refl cluster
  · exact quiet_refl cluster

theorem quiet_changesChart {change : HelmChart → HelmChart}
    (hchange : ∀ chart, (change chart).uid = chart.uid ∧
      (chart.deleting = true → (change chart).deleting = true) ∧
      (chart.finalizer = true → (change chart).finalizer = true)) :
    Quiet cluster (cluster.changesChart change) := by
  unfold changesChart
  split
  · rename_i chart hchart
    apply quiet_chart
    rintro uid ⟨held, hheld, huid, hdeleting, hfinalizer⟩
    rw [hchart] at hheld
    cases hheld
    obtain ⟨hsame, hstill, hkept⟩ := hchange chart
    exact ⟨_, rfl, hsame.trans huid, hstill hdeleting, hkept hfinalizer⟩
  · exact quiet_refl cluster

theorem quiet_updateChart {read updated : HelmChart} {change : HelmChart → HelmChart}
    (hchange : ∀ chart, (change chart).uid = chart.uid ∧
      (chart.deleting = true → (change chart).deleting = true) ∧
      (chart.finalizer = true → (change chart).finalizer = true))
    (hupdated : cluster.updateChart read change = some (next, updated)) : Quiet cluster next := by
  have hnext : next = cluster.changesChart change := by
    simp only [updateChart] at hupdated
    split at hupdated
    · rename_i chart hchart
      split at hupdated
      · cases hupdated
        simp only [changesChart, hchart]
      · cases hupdated
    · cases hupdated
  rw [hnext]
  exact quiet_changesChart hchange

theorem quiet_createsChart (cluster : HelmCluster) (finalizer : Bool) :
    Quiet cluster (cluster.createsChart finalizer) := by
  unfold createsChart
  split
  · rename_i hnone
    apply quiet_chart
    rintro uid ⟨held, hheld, -⟩
    rw [hnone] at hheld
    cases hheld
  · exact quiet_refl cluster

theorem quiet_chartGoes (cluster : HelmCluster) : Quiet cluster cluster.chartGoes := by
  unfold chartGoes
  split
  · rename_i chart hchart
    split
    · rename_i hgoes
      apply quiet_chart
      rintro uid ⟨held, hheld, -, -, hfinalizer⟩
      rw [hchart] at hheld
      cases hheld
      rw [hgoes.2] at hfinalizer
      cases hfinalizer
    · exact quiet_refl cluster
  · exact quiet_refl cluster

def Goes (result : HelmCluster × Option HelmStage) : Prop :=
  result.1.Sound ∧ ∀ stage ∈ result.2, result.1.Knows stage

section

variable (hsound : cluster.Sound)

include hsound

theorem Sound.goes_none : Goes (cluster, none) :=
  ⟨hsound, fun _ hstage => absurd hstage (not_mem_none _)⟩

theorem Sound.goes_some (hknows : cluster.Knows stage) : Goes (cluster, some stage) :=
  ⟨hsound, fun _ hstage => mem_some.1 hstage ▸ hknows⟩

theorem Sound.goes_getChart : Goes (cluster, cluster.chart.bind onChart) := by
  cases hchart : cluster.chart with
  | none => exact hsound.goes_none
  | some chart =>
    show Goes (cluster, onChart chart)
    have hnone : chart.deleting = false → cluster.NoDelete := by
      intro halive job hjob hrunning
      obtain ⟨held, hheld, -, hdeleting, -⟩ := hsound.held job hjob hrunning
      rw [hchart] at hheld
      cases hheld
      rw [halive] at hdeleting
      cases hdeleting
    unfold onChart
    split
    · rename_i hdeleting
      split
      · rename_i hfinalizer
        exact hsound.goes_some ⟨chart, hchart, rfl, hdeleting, hfinalizer⟩
      · exact hsound.goes_none
    · rename_i halive
      have halone := hnone (Bool.eq_false_iff.2 halive)
      split
      · exact hsound.goes_some halone
      · exact hsound.goes_some halone

theorem Sound.goes_onInstall (hnone : cluster.NoDelete) (chart : HelmChart) (hash : ℕ)
    (job : Option HelmJob) : Goes (cluster, onInstall chart hash job) := by
  cases job with
  | none => exact hsound.goes_some hnone
  | some job =>
    simp only [onInstall]
    split
    · exact hsound.goes_none
    split
    · exact hsound.goes_some trivial
    · exact hsound.goes_some hnone

theorem Sound.goes_onDelete (hholding : cluster.Holding chart.uid)
    (hinstall : cluster.jobs .install = none) :
    Goes (cluster, onDelete chart (cluster.jobs .delete)) := by
  cases hjob : cluster.jobs .delete with
  | none => exact hsound.goes_some ⟨hholding, hinstall⟩
  | some job =>
    simp only [onDelete]
    split
    · split
      · exact hsound.goes_some ⟨hholding, hinstall⟩
      · exact hsound.goes_some ⟨hholding, hinstall⟩
    rename_i howned
    split
    · exact hsound.goes_none
    split
    · exact hsound.goes_none
    rename_i hover
    have huninstalled := hsound.ended job hjob hover
    rw [not_not.1 howned] at huninstalled
    refine hsound.goes_some ⟨hholding, hinstall, huninstalled, ?_⟩
    intro any hany hrunning
    rw [hjob] at hany
    cases hany
    exact hover hrunning

theorem Sound.goes_deleteJob (hknows : cluster.Knows stage) (name : JobName) (uid : ℕ) :
    Goes (match cluster.deleteJob name uid with
      | some next => (next, some stage)
      | none => (cluster, none)) := by
  split
  · rename_i next hdeleted
    have hquiet := quiet_deleteJob hdeleted
    exact (hsound.quiet hquiet).goes_some (hknows.quiet hquiet)
  · exact hsound.goes_none

theorem Sound.createInstall (hnone : cluster.NoDelete) (chartUid hash : ℕ) :
    (cluster.createJob .install chartUid hash).Sound := by
  have hdelete : ∀ job, (cluster.createJob .install chartUid hash).jobs .delete = some job →
      cluster.jobs .delete = some job := by
    intro job hjob
    rwa [createJob, setJob_jobs_of_ne cluster _ (by decide)] at hjob
  constructor
  case held => exact fun job hjob => hsound.held job (hdelete job hjob)
  case ended => exact fun job hjob => hsound.ended job (hdelete job hjob)
  case alone => exact fun _ _ _ any hany => hnone any (hdelete any hany)
  case removals => exact hsound.removals

theorem Sound.createDelete (hholding : cluster.Holding chart.uid)
    (hinstall : cluster.jobs .install = none) : (cluster.createJob .delete chart.uid 0).Sound := by
  constructor
  case held =>
    intro job hjob _
    rw [createJob, setJob_jobs_self] at hjob
    cases hjob
    exact hholding
  case ended =>
    intro job hjob hover
    rw [createJob, setJob_jobs_self] at hjob
    cases hjob
    exact absurd rfl hover
  case alone =>
    intro job hjob
    rw [createJob, setJob_jobs_of_ne cluster _ (by decide), hinstall] at hjob
    cases hjob
  case removals => exact hsound.removals

end

theorem Sound.removeFinalizer (hsound : cluster.Sound) (hinstall : cluster.jobs .install = none)
    (huninstalled : chart.uid ∈ cluster.uninstalled) (hnone : cluster.NoDelete) :
    (cluster.removeFinalizer chart).Sound := by
  unfold HelmCluster.removeFinalizer
  split
  · rename_i next updated hupdated
    have hnext : next.jobs = cluster.jobs ∧ next.uninstalled = cluster.uninstalled ∧
        next.removals = cluster.removals := by
      simp only [updateChart] at hupdated
      split at hupdated
      · split at hupdated
        · cases hupdated
          exact ⟨rfl, rfl, rfl⟩
        · cases hupdated
      · cases hupdated
    obtain ⟨hjobs, hended, hremovals⟩ := hnext
    constructor
    case held =>
      intro job hjob hrunning
      exact absurd hrunning (hnone job (hjobs ▸ hjob))
    case ended =>
      intro job hjob hover
      exact hended ▸ hsound.ended job (hjobs ▸ hjob) hover
    case alone =>
      intro _ _ _ any hany
      exact hnone any (hjobs ▸ hany)
    case removals =>
      intro removal hremoval
      rcases mem_append.1 hremoval with hbefore | hthis
      · exact hsound.removals removal (hremovals ▸ hbefore)
      · rw [mem_singleton.1 hthis, hinstall]
        exact ⟨decide_eq_true huninstalled, rfl⟩
  · exact hsound

theorem eq_none_of_not_isSome {name : JobName} (hnone : ¬(cluster.jobs name).isSome) :
    cluster.jobs name = none :=
  not_isSome_iff_eq_none.1 hnone

theorem Sound.goes_call (hsound : cluster.Sound) (hknows : cluster.Knows stage)
    (answer : HelmAnswer) : Goes (cluster.call answer stage) := by
  unfold call
  split
  · exact hsound.goes_none
  cases stage with
  | getChart => exact hsound.goes_getChart
  | addFinalizer chart =>
    dsimp only
    split
    · rename_i next updated hupdated
      have hquiet : Quiet cluster next := by
        apply quiet_updateChart _ hupdated
        exact fun _ => ⟨rfl, id, fun _ => rfl⟩
      exact (hsound.quiet hquiet).goes_some (NoDelete.quiet hknows hquiet)
    · exact hsound.goes_none
  | prepare chart => exact hsound.goes_some hknows
  | getInstall chart hash => exact hsound.goes_onInstall hknows chart hash _
  | replaceInstall chart hash uid =>
    have hagain : cluster.Knows (.getInstallAgain chart hash) := hknows
    exact hsound.goes_deleteJob hagain .install uid
  | getInstallAgain chart hash =>
    dsimp only
    split
    · exact hsound.goes_none
    · exact hsound.goes_some hknows
  | createInstall chart hash =>
    dsimp only
    split
    · exact hsound.goes_none
    · exact (hsound.createInstall hknows chart.uid hash).goes_some trivial
  | writeStatus chart job =>
    have hafter : ∀ {cluster : HelmCluster}, cluster.Sound →
        Goes (cluster, if job.state = .failed ∧ answer.reinstall then some (.reinstall job.uid)
          else none) := by
      intro cluster hsound
      split
      · exact hsound.goes_some trivial
      · exact hsound.goes_none
    dsimp only
    split
    · exact hafter hsound
    split
    · rename_i next updated hupdated
      exact hafter (hsound.quiet (quiet_updateChart (fun _ => ⟨rfl, id, id⟩) hupdated))
    · exact hsound.goes_none
  | reinstall uid =>
    dsimp only
    cases hdeleted : cluster.deleteJob .install uid with
    | none => exact hsound.goes_none
    | some next => exact (hsound.quiet (quiet_deleteJob hdeleted)).goes_none
  | finalizeGetInstall chart =>
    dsimp only
    split
    · rename_i hinstall
      exact hsound.goes_some ⟨hknows, hinstall⟩
    · split
      · exact hsound.goes_some hknows
      · exact hsound.goes_some hknows
  | finalizeDeleteInstall chart uid =>
    have hagain : cluster.Knows (.finalizeGetInstallAgain chart) := hknows
    exact hsound.goes_deleteJob hagain .install uid
  | finalizeGetInstallAgain chart =>
    dsimp only
    split
    · exact hsound.goes_none
    · rename_i hnone
      exact hsound.goes_some ⟨hknows, eq_none_of_not_isSome hnone⟩
  | provisionIdentity chart => exact hsound.goes_some hknows
  | getDelete chart => exact hsound.goes_onDelete hknows.1 hknows.2
  | replaceDelete chart uid =>
    have hagain : cluster.Knows (.getDeleteAgain chart) := hknows
    exact hsound.goes_deleteJob hagain .delete uid
  | getDeleteAgain chart =>
    dsimp only
    split
    · exact hsound.goes_none
    · exact hsound.goes_some hknows
  | createDelete chart =>
    dsimp only
    split
    · exact hsound.goes_none
    · exact (hsound.createDelete hknows.1 hknows.2).goes_none
  | deleteIdentity chart => exact hsound.goes_some hknows
  | removeFinalizer chart =>
    obtain ⟨-, hinstall, huninstalled, hnone⟩ := hknows
    exact (hsound.removeFinalizer hinstall huninstalled hnone).goes_none

theorem Sound.exclusive (hsound : cluster.Sound) : cluster.Exclusive where
  not_both := by
    rintro ⟨⟨install, hinstall, hruns⟩, delete, hdelete, hboth⟩
    exact hsound.alone install hinstall hruns delete hdelete hboth
  removals := hsound.removals

end HelmCluster

namespace HelmSystem

structure Orderly (system : HelmSystem) : Prop where
  sound : system.cluster.Sound
  one : system.flights.length ≤ 1
  knows : ∀ flight ∈ system.flights, system.cluster.Knows flight.2

variable {system : HelmSystem}

theorem Orderly.quiet (horderly : system.Orderly) {next : HelmCluster}
    (hquiet : HelmCluster.Quiet system.cluster next) :
    HelmSystem.Orderly { system with cluster := next } where
  sound := horderly.sound.quiet hquiet
  one := horderly.one
  knows flight hflight := (horderly.knows flight hflight).quiet hquiet

theorem Orderly.turn (horderly : system.Orderly) (index : ℕ) (answer : HelmAnswer) :
    (system.next (.turn index answer)).Orderly := by
  dsimp only [next]
  split
  · rename_i server stage hflight
    have hmem := mem_of_getElem? hflight
    obtain ⟨hsound, hrest⟩ := horderly.sound.goes_call (horderly.knows _ hmem) answer
    -- the flight of the call is the only one, so no other knowledge has to be kept
    have halone : system.flights = [(server, stage)] := by
      have hindex := (List.getElem?_eq_some_iff.1 hflight).1
      obtain ⟨only, honly⟩ := length_eq_one_iff.1
        (le_antisymm horderly.one (Nat.one_le_iff_ne_zero.2 (by omega)))
      rw [honly, mem_singleton] at hmem
      rw [honly, hmem]
    have hzero : index = 0 := by
      have hindex := (List.getElem?_eq_some_iff.1 hflight).1
      have := horderly.one
      omega
    subst hzero
    split
    · rename_i after hafter
      rw [halone]
      constructor
      case sound => exact hsound
      case one => exact le_refl 1
      intro flight hmem
      rw [set_cons_zero, mem_singleton] at hmem
      rw [hmem]
      exact hrest after hafter
    · rw [halone]
      exact ⟨hsound, Nat.zero_le 1, fun _ hmem => absurd hmem not_mem_nil⟩
  · exact horderly

theorem Orderly.next (horderly : system.Orderly) (event : HelmEvent)
    (hdrained : system.Drained event) : (system.next event).Orderly := by
  cases event with
  | acquires server =>
    dsimp only [HelmSystem.next]
    split
    · exact ⟨horderly.sound, horderly.one, horderly.knows⟩
    · exact horderly
  | releases => exact ⟨horderly.sound, horderly.one, horderly.knows⟩
  | reconciles server =>
    have hnone : system.flights = [] := hdrained
    dsimp only [HelmSystem.next]
    split
    · rw [hnone]
      constructor
      case sound => exact horderly.sound
      case one => exact le_refl 1
      intro flight hmem
      rw [nil_append, mem_singleton] at hmem
      rw [hmem]
      trivial
    · exact horderly
  | turn index answer => exact horderly.turn index answer
  | createsChart finalizer => exact horderly.quiet (HelmCluster.quiet_createsChart _ finalizer)
  | editsChart => exact horderly.quiet (HelmCluster.quiet_changesChart fun _ => ⟨rfl, id, id⟩)
  | deletesChart =>
    exact horderly.quiet (HelmCluster.quiet_changesChart fun _ => ⟨rfl, fun _ => rfl, id⟩)
  | chartGoes => exact horderly.quiet (HelmCluster.quiet_chartGoes _)
  | jobEnds name failed => exact horderly.quiet (HelmCluster.quiet_jobEnds _ name failed)
  | jobDeleted name => exact horderly.quiet (HelmCluster.quiet_jobDeleted _ name)
  | jobGoes name => exact horderly.quiet (HelmCluster.quiet_jobGoes _ name)

theorem orderly_start : start.Orderly where
  sound := {
    held := fun _ hjob => absurd hjob (some_ne_none _).symm
    ended := fun _ hjob => absurd hjob (some_ne_none _).symm
    alone := fun _ hjob => absurd hjob (some_ne_none _).symm
    removals := fun _ hremoval => absurd hremoval not_mem_nil }
  one := Nat.zero_le 1
  knows _ hmem := absurd hmem not_mem_nil

/-- In every run whose reconciles begin with none in flight, no two Jobs of the chart may run
helm at once and no finalizer goes before its chart is uninstalled. -/
theorem helm_runs_never_overlap (events : List HelmEvent)
    (hdrained : EachStep Drained next start events) :
    Always (fun system => system.cluster.Exclusive) next start events := by
  have horderly := always_of_eachStep (fun _ event horderly => horderly.next event) orderly_start
    hdrained
  exact horderly.mono fun _ horderly => horderly.sound.exclusive

def fine : HelmAnswer := ⟨false, 7, true, false⟩

/-- A server's reconcile, from its start through a number of calls. -/
def reconciling (server calls : ℕ) : List HelmEvent :=
  .reconciles server :: List.replicate calls (.turn 0 fine)

/-- One server installs the chart, uninstalls it and lets it go. -/
def wholeLife : List HelmEvent :=
  List.flatten
    [[.acquires 1, .createsChart false], reconciling 1 6, [.jobEnds .install false, .deletesChart],
      reconciling 1 4, [.jobGoes .install], reconciling 1 5, [.jobEnds .delete false],
      reconciling 1 6, [.chartGoes]]

theorem wholeLife_drained : EachStep Drained next start wholeLife := by
  decide +kernel

theorem wholeLife_keeps_apart :
    EachStep Drained next start wholeLife ∧
      Always (fun system => system.cluster.Exclusive) next start wholeLife ∧
      (wholeLife.foldl next start).cluster.removals = [⟨true, false⟩] :=
  ⟨wholeLife_drained, helm_runs_never_overlap _ wholeLife_drained, by decide +kernel⟩

/-- The first server stands before the creation of its install Job when it loses the Lease,
and the second one uninstalls the chart meanwhile. -/
def undrained : List HelmEvent :=
  List.flatten
    [[.acquires 1, .createsChart true], reconciling 1 3, [.releases, .acquires 2, .deletesChart,
      .reconciles 2], List.replicate 5 (.turn 1 fine), [.turn 0 fine]]

/-- Both Jobs may run helm once the late call has created the install Job. -/
theorem undrained_runs_both :
    ¬∀ events, Always (fun system => system.cluster.Exclusive) next start events := by
  intro halways
  have hboth : (undrained.foldl next start).cluster.jobs .install =
        some ⟨3, 0, 7, false, .running⟩ ∧
      (undrained.foldl next start).cluster.jobs .delete = some ⟨2, 0, 0, false, .running⟩ := by
    decide +kernel
  have hexclusive := (halways undrained).last
  exact hexclusive.not_both ⟨⟨_, hboth.1, rfl⟩, _, hboth.2, rfl⟩

end HelmSystem

end K3sm.Helmchart
