import K3sm.Core.Run

/-!
# The helm controller

Servers take turns at leading and reconcile one chart: they install it with a Job, replace the Job
when the chart changes, and uninstall it with another Job before they let the chart go.  A
reconcile is a sequence of calls to the apiserver, each a step of its own.
-/

namespace K3sm.Helmchart

open K3sm.Core

/-- What `StateOf` reads from the conditions. -/
inductive JobState
  | running
  | complete
  | failed
  deriving DecidableEq

/-- A Job of the chart.  `chartUid` is the owner of an install Job and the annotation of a
delete Job. -/
structure HelmJob where
  uid : ℕ
  chartUid : ℕ
  hash : ℕ
  deleting : Bool
  state : JobState
  deriving DecidableEq

/-- The HelmChart, with its resource version and whether it has the controller's finalizer. -/
structure HelmChart where
  uid : ℕ
  version : ℕ
  deleting : Bool
  finalizer : Bool
  deriving DecidableEq

inductive JobName
  | install
  | delete
  deriving DecidableEq

/-- A removal of the finalizer, with whether a delete Job of the chart had ended and whether
an install Job was left. -/
structure FinalizerRemoval where
  uninstalled : Bool
  installLeft : Bool
  deriving DecidableEq

/-- What the apiserver holds of the chart.  `fresh` numbers uids and versions, `uninstalled`
has the charts with a delete Job that completed or failed. -/
structure HelmCluster where
  chart : Option HelmChart
  jobs : JobName → Option HelmJob
  fresh : ℕ
  uninstalled : Finset ℕ
  removals : List FinalizerRemoval

/-- The next call of a reconcile, with the chart as it was read. -/
inductive HelmStage
  | getChart
  | addFinalizer (chart : HelmChart)
  | prepare (chart : HelmChart)
  | getInstall (chart : HelmChart) (hash : ℕ)
  | replaceInstall (chart : HelmChart) (hash uid : ℕ)
  | getInstallAgain (chart : HelmChart) (hash : ℕ)
  | createInstall (chart : HelmChart) (hash : ℕ)
  | writeStatus (chart : HelmChart) (job : HelmJob)
  | reinstall (uid : ℕ)
  | finalizeGetInstall (chart : HelmChart)
  | finalizeDeleteInstall (chart : HelmChart) (uid : ℕ)
  | finalizeGetInstallAgain (chart : HelmChart)
  | provisionIdentity (chart : HelmChart)
  | getDelete (chart : HelmChart)
  | replaceDelete (chart : HelmChart) (uid : ℕ)
  | getDeleteAgain (chart : HelmChart)
  | createDelete (chart : HelmChart)
  | deleteIdentity (chart : HelmChart)
  | removeFinalizer (chart : HelmChart)
  deriving DecidableEq

/-- What is decided outside: whether the call fails, the hash of the chart and its config,
whether the status is written already, and the failure policy. -/
structure HelmAnswer where
  failed : Bool
  hash : ℕ
  sameStatus : Bool
  reinstall : Bool
  deriving DecidableEq

namespace HelmCluster

def setJob (cluster : HelmCluster) (name : JobName) (job : Option HelmJob) : HelmCluster :=
  { cluster with jobs := Function.update cluster.jobs name job }

def createJob (cluster : HelmCluster) (name : JobName) (chartUid hash : ℕ) : HelmCluster :=
  { cluster.setJob name (some ⟨cluster.fresh, chartUid, hash, false, .running⟩) with
    fresh := cluster.fresh + 1 }

/-- `deleteJob`: foreground, with the UID as precondition.  None on a conflict. -/
def deleteJob (cluster : HelmCluster) (name : JobName) (uid : ℕ) : Option HelmCluster :=
  match cluster.jobs name with
  | none => some cluster
  | some job =>
    if job.uid = uid then some (cluster.setJob name (some { job with deleting := true })) else none

def updateChart (cluster : HelmCluster) (read : HelmChart) (change : HelmChart → HelmChart) :
    Option (HelmCluster × HelmChart) :=
  match cluster.chart with
  | some chart =>
    if chart.version = read.version then
      let next := { change chart with version := cluster.fresh }
      some ({ cluster with chart := some next, fresh := cluster.fresh + 1 }, next)
    else none
  | none => none

/-- `Reconcile` on the chart it read. -/
def onChart (chart : HelmChart) : Option HelmStage :=
  if chart.deleting then
    if chart.finalizer then some (.finalizeGetInstall chart) else none
  else if chart.finalizer then some (.prepare chart)
  else some (.addFinalizer chart)

/-- `ensureInstallJob` on the Job it found. -/
def onInstall (chart : HelmChart) (hash : ℕ) : Option HelmJob → Option HelmStage
  | none => some (.createInstall chart hash)
  | some job =>
    if job.deleting then none
    else if job.chartUid = chart.uid ∧ job.hash = hash then some (.writeStatus chart job)
    else some (.replaceInstall chart hash job.uid)

/-- `finalize` on the delete Job it found. -/
def onDelete (chart : HelmChart) : Option HelmJob → Option HelmStage
  | none => some (.createDelete chart)
  | some job =>
    if job.chartUid ≠ chart.uid then
      if job.deleting then some (.getDeleteAgain chart) else some (.replaceDelete chart job.uid)
    else if job.deleting then none
    else if job.state = .running then none
    else some (.deleteIdentity chart)

/-- The removal of the finalizer is recorded with what held at that moment. -/
def removeFinalizer (cluster : HelmCluster) (read : HelmChart) : HelmCluster :=
  match cluster.updateChart read fun chart => { chart with finalizer := false } with
  | some (next, _) =>
    { next with
      removals := next.removals ++
        [⟨decide (read.uid ∈ cluster.uninstalled), (cluster.jobs .install).isSome⟩] }
  | none => cluster

/-- One call of a reconcile, which ends when there is no next one. -/
def call (answer : HelmAnswer) (cluster : HelmCluster) (stage : HelmStage) :
    HelmCluster × Option HelmStage :=
  if answer.failed then (cluster, none)
  else
    match stage with
    | .getChart => (cluster, cluster.chart.bind onChart)
    | .addFinalizer chart =>
      match cluster.updateChart chart fun chart => { chart with finalizer := true } with
      | some (next, updated) => (next, some (.prepare updated))
      | none => (cluster, none)
    | .prepare chart => (cluster, some (.getInstall chart answer.hash))
    | .getInstall chart hash => (cluster, onInstall chart hash (cluster.jobs .install))
    | .replaceInstall chart hash uid =>
      match cluster.deleteJob .install uid with
      | some next => (next, some (.getInstallAgain chart hash))
      | none => (cluster, none)
    | .getInstallAgain chart hash =>
      (cluster, if (cluster.jobs .install).isSome then none else some (.createInstall chart hash))
    | .createInstall chart hash =>
      if (cluster.jobs .install).isSome then (cluster, none)
      else
        (cluster.createJob .install chart.uid hash,
          some (.writeStatus chart ⟨cluster.fresh, chart.uid, hash, false, .running⟩))
    | .writeStatus chart job =>
      let after :=
        if job.state = .failed ∧ answer.reinstall then some (.reinstall job.uid) else none
      if answer.sameStatus then (cluster, after)
      else
        match cluster.updateChart chart id with
        | some (next, _) => (next, after)
        | none => (cluster, none)
    | .reinstall uid => ((cluster.deleteJob .install uid).getD cluster, none)
    | .finalizeGetInstall chart =>
      (cluster,
        match cluster.jobs .install with
        | none => some (.provisionIdentity chart)
        | some job =>
          if job.deleting then some (.finalizeGetInstallAgain chart)
          else some (.finalizeDeleteInstall chart job.uid))
    | .finalizeDeleteInstall chart uid =>
      match cluster.deleteJob .install uid with
      | some next => (next, some (.finalizeGetInstallAgain chart))
      | none => (cluster, none)
    | .finalizeGetInstallAgain chart =>
      (cluster, if (cluster.jobs .install).isSome then none else some (.provisionIdentity chart))
    | .provisionIdentity chart => (cluster, some (.getDelete chart))
    | .getDelete chart => (cluster, onDelete chart (cluster.jobs .delete))
    | .replaceDelete chart uid =>
      match cluster.deleteJob .delete uid with
      | some next => (next, some (.getDeleteAgain chart))
      | none => (cluster, none)
    | .getDeleteAgain chart =>
      (cluster, if (cluster.jobs .delete).isSome then none else some (.createDelete chart))
    | .createDelete chart =>
      if (cluster.jobs .delete).isSome then (cluster, none)
      else (cluster.createJob .delete chart.uid 0, none)
    | .deleteIdentity chart => (cluster, some (.removeFinalizer chart))
    | .removeFinalizer chart => (cluster.removeFinalizer chart, none)

end HelmCluster

/-- The cluster, the holder of the Lease and the reconciles in flight, by server. -/
structure HelmSystem where
  cluster : HelmCluster
  holder : Option ℕ
  flights : List (ℕ × HelmStage)

/-- The steps of the servers, of the users and of the Job controller. -/
inductive HelmEvent
  | acquires (server : ℕ)
  | releases
  | reconciles (server : ℕ)
  | turn (index : ℕ) (answer : HelmAnswer)
  | createsChart (finalizer : Bool)
  | editsChart
  | deletesChart
  | chartGoes
  | jobEnds (name : JobName) (failed : Bool)
  | jobDeleted (name : JobName)
  | jobGoes (name : JobName)
  deriving DecidableEq

namespace HelmCluster

def createsChart (cluster : HelmCluster) (finalizer : Bool) : HelmCluster :=
  match cluster.chart with
  | none =>
    { cluster with
      chart := some ⟨cluster.fresh, cluster.fresh, false, finalizer⟩
      fresh := cluster.fresh + 1 }
  | some _ => cluster

def changesChart (cluster : HelmCluster) (change : HelmChart → HelmChart) : HelmCluster :=
  match cluster.chart with
  | some chart =>
    { cluster with
      chart := some { change chart with version := cluster.fresh }
      fresh := cluster.fresh + 1 }
  | none => cluster

/-- A deleted chart is removed once it has no finalizer of the controller. -/
def chartGoes (cluster : HelmCluster) : HelmCluster :=
  match cluster.chart with
  | some chart =>
    if chart.deleting ∧ chart.finalizer = false then { cluster with chart := none } else cluster
  | none => cluster

def jobEnds (cluster : HelmCluster) (name : JobName) (failed : Bool) : HelmCluster :=
  match cluster.jobs name with
  | some job =>
    if job.state = .running then
      { cluster.setJob name (some { job with state := if failed then .failed else .complete }) with
        uninstalled :=
          if name = .delete then insert job.chartUid cluster.uninstalled
          else cluster.uninstalled }
    else cluster
  | none => cluster

def jobDeleted (cluster : HelmCluster) (name : JobName) : HelmCluster :=
  match cluster.jobs name with
  | some job => cluster.setJob name (some { job with deleting := true })
  | none => cluster

end HelmCluster

namespace HelmSystem

/-- A server is at most in one reconcile, and campaigns again only when the last one of its
term has ended. -/
def isIdle (system : HelmSystem) (server : ℕ) : Bool :=
  system.flights.all fun flight => decide (flight.1 ≠ server)

def next (system : HelmSystem) : HelmEvent → HelmSystem
  | .acquires server =>
    if system.holder = none ∧ system.isIdle server then { system with holder := some server }
    else system
  | .releases => { system with holder := none }
  | .reconciles server =>
    if system.holder = some server ∧ system.isIdle server then
      { system with flights := system.flights ++ [(server, .getChart)] }
    else system
  | .turn index answer =>
    match system.flights[index]? with
    | some (server, stage) =>
      let (cluster, rest) := system.cluster.call answer stage
      match rest with
      | some stage => { system with
          cluster := cluster, flights := system.flights.set index (server, stage) }
      | none => { system with cluster := cluster, flights := system.flights.eraseIdx index }
    | none => system
  | .createsChart finalizer => { system with cluster := system.cluster.createsChart finalizer }
  | .editsChart => { system with cluster := system.cluster.changesChart id }
  | .deletesChart =>
    { system with
      cluster := system.cluster.changesChart fun chart => { chart with deleting := true } }
  | .chartGoes => { system with cluster := system.cluster.chartGoes }
  | .jobEnds name failed => { system with cluster := system.cluster.jobEnds name failed }
  | .jobDeleted name => { system with cluster := system.cluster.jobDeleted name }
  | .jobGoes name => { system with cluster := system.cluster.setJob name none }

def start : HelmSystem where
  cluster := ⟨none, fun _ => none, 0, ∅, []⟩
  holder := none
  flights := []

end HelmSystem

def HelmCluster.MayRun (cluster : HelmCluster) (name : JobName) : Prop :=
  ∃ job ∈ cluster.jobs name, job.state = .running

/-- No two Jobs may run helm at once, and every removal of the finalizer came after the
chart's delete Job had ended, with no install Job left. -/
structure HelmCluster.Exclusive (cluster : HelmCluster) : Prop where
  not_both : ¬(cluster.MayRun .install ∧ cluster.MayRun .delete)
  removals : ∀ removal ∈ cluster.removals, removal.uninstalled = true ∧ removal.installLeft = false

/-- A server begins a reconcile only when none is in flight: the work of the term before has
drained. -/
def HelmSystem.Drained (system : HelmSystem) : HelmEvent → Prop
  | .reconciles _ => system.flights = []
  | _ => True

instance (system : HelmSystem) : (event : HelmEvent) → Decidable (system.Drained event)
  | .reconciles _ => inferInstanceAs (Decidable (system.flights = []))
  | .acquires _ | .releases | .turn _ _ | .createsChart _ | .editsChart | .deletesChart
  | .chartGoes | .jobEnds _ _ | .jobDeleted _ | .jobGoes _ => .isTrue trivial

end K3sm.Helmchart
