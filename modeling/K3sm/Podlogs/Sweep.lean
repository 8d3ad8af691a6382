import K3sm.Core.Filepath
import K3sm.Core.Run

/-!
# The sweep of the pod log tree

A sweep reads which pods the node knows, lists the directories of the log tree, and removes
those of unknown pods one by one.  In between pods are created, retained and deleted, so what
it knows may be out of date when it removes a directory.
-/

namespace K3sm.Podlogs

open K3sm.Core List
open K3sm.Core.Filepath (Str)

structure PodId where
  ns : Str
  name : Str
  uid : Str
  /-- A UID has no delimiter of the directory's name. -/
  plain : '_' ∉ uid

def buildPodLogsDirectory (pod : PodId) : Str := ['_'].intercalate [pod.ns, pod.name, pod.uid]

def parsePodUIDFromLogsDirectory (name : Str) : Str := (name.splitOn '_').getLast?.getD []

/-- An entry of the log tree. -/
structure DirEntry where
  name : Str
  isDir : Bool

/-- A sweep between its steps: which pods it knows, and the entries it has not come to. -/
inductive SweepState
  | idle
  | known (uids : List Str)
  | removing (uids : List Str) (entries : List DirEntry)

structure NodeLogs where
  track : List PodId
  retained : List PodId
  podsSynced : Bool
  tree : List DirEntry
  sweep : SweepState
  /-- The pods whose tree the sweep removed while they were tracked or retained. -/
  harmed : List PodId

/-- A step of the provider, or of a sweep. -/
inductive LogsEvent
  | sync
  | makeEntry (entry : DirEntry)
  | track (pod : PodId)
  | untrack (uid : Str)
  | retain (pod : PodId)
  | forget (uid : Str)
  /-- `RemovePodLogs`, after the runtime has confirmed the delete. -/
  | removePodLogs (pod : PodId)
  | knownPodUIDs
  /-- The listing, when it does not fail. -/
  | readDir (succeeds : Bool)
  /-- The next entry of the listing; a removal may fail on the way. -/
  | removeNext (succeeds : Bool)

section Steps

variable (logs : NodeLogs)

def NodeLogs.owed : List PodId := logs.track ++ logs.retained

def removeTree (tree : List DirEntry) (name : Str) : List DirEntry :=
  tree.filter fun entry => entry.name ≠ name

def removeNext (succeeds : Bool) : NodeLogs :=
  match logs.sweep with
  | .removing uids (entry :: entries) =>
    let swept := { logs with sweep := .removing uids entries }
    if !entry.isDir || uids.contains (parsePodUIDFromLogsDirectory entry.name) then swept
    else
      { swept with
        tree := if succeeds then removeTree logs.tree entry.name else logs.tree
        harmed := logs.harmed ++
          logs.owed.filter fun pod => buildPodLogsDirectory pod = entry.name }
  | .removing _ [] => { logs with sweep := .idle }
  | _ => logs

def logsNext : LogsEvent → NodeLogs
  | .sync => { logs with podsSynced := true }
  | .makeEntry entry => { logs with tree := logs.tree ++ [entry] }
  | .track pod => { logs with track := logs.track ++ [pod] }
  | .untrack uid => { logs with track := logs.track.filter fun pod => pod.uid ≠ uid }
  | .retain pod => { logs with retained := logs.retained ++ [pod] }
  | .forget uid => { logs with retained := logs.retained.filter fun pod => pod.uid ≠ uid }
  | .removePodLogs pod => { logs with tree := removeTree logs.tree (buildPodLogsDirectory pod) }
  | .knownPodUIDs =>
    match logs.sweep with
    | .idle =>
      if logs.podsSynced then { logs with sweep := .known (logs.owed.map (·.uid)) } else logs
    | _ => logs
  | .readDir succeeds =>
    match logs.sweep with
    | .known uids =>
      { logs with sweep := if succeeds then .removing uids logs.tree else .idle }
    | _ => logs
  | .removeNext succeeds => removeNext logs succeeds

end Steps

def freshLogs (tree : List DirEntry) : NodeLogs := ⟨[], [], false, tree, .idle, []⟩

/-- A sweep in progress may remove the tree of a pod: it does not know the pod, and has not
listed the tree yet or has not come to the pod's directory. -/
def SweepState.Threatens (sweep : SweepState) (pod : PodId) : Prop :=
  match sweep with
  | .idle => False
  | .known uids => pod.uid ∉ uids
  | .removing uids entries =>
    pod.uid ∉ uids ∧ ∃ entry ∈ entries, entry.name = buildPodLogsDirectory pod

/-- A pod is tracked or retained only when no sweep in progress can remove its tree. -/
def Unthreatened (logs : NodeLogs) : LogsEvent → Prop
  | .track pod => ¬ logs.sweep.Threatens pod
  | .retain pod => ¬ logs.sweep.Threatens pod
  | _ => True

structure SweepSafe (logs : NodeLogs) : Prop where
  owed : ∀ pod ∈ logs.owed, ¬ logs.sweep.Threatens pod
  unharmed : logs.harmed = []

theorem parse_buildPodLogsDirectory (pod : PodId) :
    parsePodUIDFromLogsDirectory (buildPodLogsDirectory pod) = pod.uid := by
  have hsplit : buildPodLogsDirectory pod = (pod.ns ++ '_' :: pod.name) ++ '_' :: pod.uid := by
    simp [buildPodLogsDirectory, intercalate_cons_cons]
  rw [parsePodUIDFromLogsDirectory, hsplit, splitOn_append_cons_self,
    splitOn_eq_singleton pod.plain]
  simp

theorem SweepState.Threatens.of_cons {uids : List Str} {entry : DirEntry} {entries : List DirEntry}
    {pod : PodId} (hthreat : (SweepState.removing uids entries).Threatens pod) :
    (SweepState.removing uids (entry :: entries)).Threatens pod := by
  obtain ⟨hunknown, other, hother, hname⟩ := hthreat
  exact ⟨hunknown, other, mem_cons_of_mem _ hother, hname⟩

theorem removeNext_safe {logs : NodeLogs} (hsafe : SweepSafe logs) (succeeds : Bool) :
    SweepSafe (removeNext logs succeeds) := by
  rw [removeNext]
  split
  case h_2 uids hsweep => exact ⟨fun pod _ hthreat => hthreat, hsafe.unharmed⟩
  case h_3 => exact hsafe
  rename_i uids entry entries hsweep
  have howed : ∀ pod ∈ logs.owed, ¬ (SweepState.removing uids entries).Threatens pod := by
    intro pod hpod hthreat
    refine hsafe.owed pod hpod ?_
    rw [hsweep]
    exact hthreat.of_cons
  simp only
  split_ifs with hspared hremoved
  · exact ⟨howed, hsafe.unharmed⟩
  all_goals
    refine ⟨howed, ?_⟩
    simp only [hsafe.unharmed, nil_append, filter_eq_nil_iff, decide_eq_true_eq]
    intro pod hpod hname
    refine hsafe.owed pod hpod ?_
    rw [hsweep]
    refine ⟨fun hknown => hspared ?_, entry, mem_cons_self, hname.symm⟩
    rw [← hname, parse_buildPodLogsDirectory]
    simp [hknown]

theorem logsNext_safe {logs : NodeLogs} {event : LogsEvent} (hsafe : SweepSafe logs)
    (hcondition : Unthreatened logs event) : SweepSafe (logsNext logs event) := by
  cases event with
  | sync | makeEntry entry => exact ⟨hsafe.owed, hsafe.unharmed⟩
  | track pod =>
    refine ⟨fun other hother => ?_, hsafe.unharmed⟩
    simp only [logsNext, NodeLogs.owed, mem_append, mem_singleton] at hother
    rcases hother with (hold | rfl) | hretained
    · exact hsafe.owed other (mem_append_left _ hold)
    · exact hcondition
    · exact hsafe.owed other (mem_append_right _ hretained)
  | untrack uid =>
    refine ⟨fun other hother => ?_, hsafe.unharmed⟩
    simp only [logsNext, NodeLogs.owed, mem_append, mem_filter] at hother
    rcases hother with ⟨hold, -⟩ | hretained
    · exact hsafe.owed other (mem_append_left _ hold)
    · exact hsafe.owed other (mem_append_right _ hretained)
  | retain pod =>
    refine ⟨fun other hother => ?_, hsafe.unharmed⟩
    simp only [logsNext, NodeLogs.owed, mem_append, mem_singleton] at hother
    rcases hother with htracked | hold | rfl
    · exact hsafe.owed other (mem_append_left _ htracked)
    · exact hsafe.owed other (mem_append_right _ hold)
    · exact hcondition
  | forget uid =>
    refine ⟨fun other hother => ?_, hsafe.unharmed⟩
    simp only [logsNext, NodeLogs.owed, mem_append, mem_filter] at hother
    rcases hother with htracked | ⟨hold, -⟩
    · exact hsafe.owed other (mem_append_left _ htracked)
    · exact hsafe.owed other (mem_append_right _ hold)
  | removePodLogs pod => exact ⟨hsafe.owed, hsafe.unharmed⟩
  | knownPodUIDs =>
    simp only [logsNext]
    split
    · split_ifs
      · refine ⟨fun pod hpod hthreat => hthreat ?_, hsafe.unharmed⟩
        exact mem_map_of_mem hpod
      · exact hsafe
    · exact hsafe
  | readDir succeeds =>
    simp only [logsNext]
    split
    case h_2 => exact hsafe
    rename_i uids hsweep
    refine ⟨fun pod hpod hthreat => ?_, hsafe.unharmed⟩
    cases succeeds with
    | true =>
      refine hsafe.owed pod hpod ?_
      rw [hsweep]
      exact hthreat.1
    | false => exact hthreat
  | removeNext succeeds => exact removeNext_safe hsafe succeeds

/-- In every interleaving the sweeps spare the trees of the pods that are tracked or retained, as
long as no pod becomes so under a sweep that read the known pods without it. -/
theorem sweep_spares_owed_pods (tree : List DirEntry) (events : List LogsEvent)
    (hsteps : EachStep Unthreatened logsNext (freshLogs tree) events) :
    Always (fun logs => logs.harmed = []) logsNext (freshLogs tree) events := by
  have hfresh : SweepSafe (freshLogs tree) := by
    constructor
    · intro pod hpod
      simp [freshLogs, NodeLogs.owed] at hpod
    · rfl
  exact (always_of_eachStep (fun _ _ hsafe hcondition => logsNext_safe hsafe hcondition) hfresh
    hsteps).mono fun _ hsafe => hsafe.unharmed

/-! ## A pod created during a sweep -/

def newPod : PodId := ⟨"default".toList, "web".toList, "7f1c".toList, by decide⟩

def newPodDir : DirEntry := ⟨buildPodLogsDirectory newPod, true⟩

/-- The pod is tracked and gets its directory before the sweep starts. -/
def createdBefore : List LogsEvent :=
  [.sync, .track newPod, .makeEntry newPodDir, .knownPodUIDs, .readDir true, .removeNext true]

def createdDuring : List LogsEvent :=
  [.sync, .knownPodUIDs, .track newPod, .makeEntry newPodDir, .readDir true, .removeNext true]

theorem created_before_spared :
    Always (fun logs => logs.harmed = []) logsNext (freshLogs []) createdBefore :=
  sweep_spares_owed_pods [] createdBefore
    ⟨trivial, fun hthreat => hthreat, trivial, trivial, trivial, trivial, trivial⟩

theorem created_during_removed :
    (createdDuring.foldl logsNext (freshLogs [])).track.map (·.uid) = ["7f1c".toList] ∧
      (createdDuring.foldl logsNext (freshLogs [])).tree.length = 0 ∧
      (createdDuring.foldl logsNext (freshLogs [])).harmed ≠ [] := by
  refine ⟨by decide, by decide, ?_⟩
  intro hnone
  have hlength : (createdDuring.foldl logsNext (freshLogs [])).harmed.length = 1 := by decide
  rw [hnone] at hlength
  cases hlength

end K3sm.Podlogs
