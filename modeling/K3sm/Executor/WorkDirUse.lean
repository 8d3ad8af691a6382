import K3sm.Core.Run

/-!
# Users of a work dir's datastore

A server spawns its datastore child under the work-dir lock and gives the lock back only when the
child is reaped; a killed server drops the lock and leaves the child.  An etcd restore holds the
lock and looks for a running member; a kine restore only looks at the ports.
-/

namespace K3sm.Executor

open K3sm.Core

inductive DatastoreKind
  | kine
  | etcd
  deriving DecidableEq

inductive LockHolder
  | server (id : Nat)
  | restore (id : Nat)
  deriving DecidableEq

structure DatastoreChild where
  pid : Nat
  server : Nat
  kind : DatastoreKind
  port : Nat
  bound : Bool
  deriving DecidableEq

/-- A rename of a datastore file or directory, with what was true at that moment. -/
structure RenameSeen where
  serverLocked : Bool
  childAlive : Bool
  deriving DecidableEq

/-- The lock, the children that are alive, the pid in etcd's status record, the restores
whose checks are behind them, and the renames so far. -/
structure WorkDirUse where
  lock : Option LockHolder
  children : List DatastoreChild
  recorded : Option Nat
  swapping : List (Nat × DatastoreKind)
  renames : List RenameSeen
  deriving DecidableEq

/-- A step of a server, of a child of one, or of a restore. -/
inductive WorkDirStep
  | lockServer (server : Nat)
  | spawn (server pid : Nat) (kind : DatastoreKind) (port : Nat)
  | recordPid (pid : Nat)
  | bind (pid : Nat)
  | close (pid : Nat)
  | exit (pid : Nat)
  | unlockServer (server : Nat)
  | serverDies (server : Nat)
  | lockRestore (restore : Nat)
  | probe (restore : Nat) (kind : DatastoreKind) (ports : List Nat) (refused : Bool)
  | rename (restore : Nat)
  | endRestore (restore : Nat)
  deriving DecidableEq

namespace WorkDirUse

def portHeld (use : WorkDirUse) (ports : List Nat) : Bool :=
  use.children.any fun child => child.bound && ports.contains child.port

/-- `processIsEtcd` of the pid in the status record. -/
def memberAlive (use : WorkDirUse) : Bool :=
  use.children.any fun child =>
    decide (use.recorded = some child.pid) && decide (child.kind = .etcd)

/-- What the restore of a kind sees of a running control plane: `ControlPlanePortProbe`, or
`refuseRunningEtcd`. -/
def seesRunning (use : WorkDirUse) (kind : DatastoreKind) (ports : List Nat) : Bool :=
  match kind with
  | .kine => use.portHeld ports
  | .etcd => use.memberAlive || use.portHeld ports

def serverLocked (use : WorkDirUse) : Bool :=
  match use.lock with
  | some (.server _) => true
  | _ => false

def setBound (use : WorkDirUse) (pid : Nat) (bound : Bool) : WorkDirUse :=
  { use with
    children := use.children.map fun child =>
      if child.pid = pid then { child with bound := bound } else child }

/-- One step; a process whose check refuses, or that is not where the step is taken, changes
nothing. -/
def next (use : WorkDirUse) : WorkDirStep → WorkDirUse
  -- `lockWorkDir` does not wait
  | .lockServer server =>
    if use.lock = none then { use with lock := some (.server server) } else use
  -- a child is spawned under the lock, and only past `preflightDatastorePort`
  | .spawn server pid kind port =>
    if use.lock = some (.server server) ∧ use.portHeld [port] = false then
      { use with
        children :=
          { pid := pid, server := server, kind := kind, port := port, bound := false } ::
            use.children }
    else use
  | .recordPid pid => { use with recorded := some pid }
  | .bind pid => use.setBound pid true
  | .close pid => use.setBound pid false
  | .exit pid => { use with children := use.children.filter fun child => child.pid ≠ pid }
  -- `Stop` waits for every child it spawned, also behind its budget
  | .unlockServer server =>
    if use.lock = some (.server server) ∧ ∀ child ∈ use.children, child.server ≠ server then
      { use with lock := none }
    else use
  | .serverDies server =>
    if use.lock = some (.server server) then { use with lock := none } else use
  | .lockRestore restore =>
    if use.lock = none then { use with lock := some (.restore restore) } else use
  -- `refused` stands for launchd's answer, the apiserver's port and the checks of files
  | .probe restore kind ports refused =>
    if refused = false ∧ use.seesRunning kind ports = false ∧
        (kind = .etcd → use.lock = some (.restore restore)) then
      { use with swapping := (restore, kind) :: use.swapping }
    else use
  | .rename restore =>
    if use.swapping.any fun run => decide (run.1 = restore) then
      { use with
        renames :=
          { serverLocked := use.serverLocked, childAlive := !use.children.isEmpty } :: use.renames }
    else use
  -- the end of a restore, also by a kill
  | .endRestore restore =>
    { use with
      lock := if use.lock = some (.restore restore) then none else use.lock
      swapping := use.swapping.filter fun run => run.1 ≠ restore }

def idle : WorkDirUse where
  lock := none
  children := []
  recorded := none
  swapping := []
  renames := []

/-- No rename of a restore meets a server's lock or a living child. -/
def OneUser (use : WorkDirUse) : Prop :=
  ∀ rename ∈ use.renames, rename.serverLocked = false ∧ rename.childAlive = false

/-- The steps that keep restores apart: no server takes the lock while a kine restore is
behind its probe; a kine restore under a server or a child finds a port held, and an etcd
restore under a child that or the child's pid in the status record. -/
def Apart (use : WorkDirUse) : WorkDirStep → Prop
  | .lockServer _ => use.lock = none → ∀ run ∈ use.swapping, run.2 ≠ .kine
  | .probe _ .kine ports refused =>
    refused = false → use.serverLocked = true ∨ use.children ≠ [] → use.portHeld ports = true
  | .probe _ .etcd ports refused =>
    refused = false → use.children ≠ [] → (use.memberAlive || use.portHeld ports) = true
  | _ => True

structure Alone (use : WorkDirUse) : Prop where
  oneUser : use.OneUser
  children : use.swapping ≠ [] → use.children = []
  unlocked : use.swapping ≠ [] → use.serverLocked = false
  etcd : ∀ run ∈ use.swapping, run.2 = .etcd → use.lock = some (.restore run.1)

variable {use : WorkDirUse}

variable {server restore : Nat}

theorem serverLocked_of_lock (hlock : use.lock = some (.server server)) :
    use.serverLocked = true := by
  simp [serverLocked, hlock]

theorem Alone.swapping_nil (halone : use.Alone) (hlock : use.lock = some (.server server)) :
    use.swapping = [] := by
  by_contra hswapping
  have hunlocked := halone.unlocked hswapping
  rw [serverLocked_of_lock hlock] at hunlocked
  exact absurd hunlocked nofun

theorem alone_of_nil (honeUser : use.OneUser) (hswapping : use.swapping = []) : use.Alone :=
  ⟨honeUser, fun hne => absurd hswapping hne, fun hne => absurd hswapping hne,
    fun _ hrun => by simp [hswapping] at hrun⟩

section

variable (halone : use.Alone)

include halone

theorem alone_lockServer (hlock : use.lock = none) (hapart : ∀ run ∈ use.swapping, run.2 ≠ .kine) :
    Alone { use with lock := some (.server server) } := by
  refine alone_of_nil halone.oneUser (List.eq_nil_iff_forall_not_mem.2 ?_)
  intro run hrun
  cases hkind : run.2 with
  | kine => exact hapart run hrun hkind
  | etcd =>
    have hheld := halone.etcd run hrun hkind
    rw [hlock] at hheld
    exact absurd hheld nofun

theorem alone_unlock (hlock : use.lock = some (.server server)) : Alone { use with lock := none } :=
  alone_of_nil halone.oneUser (halone.swapping_nil hlock)

theorem alone_children {children : List DatastoreChild}
    (hchildren : use.children = [] → children = []) : Alone { use with children := children } :=
  ⟨halone.oneUser, fun hne => hchildren (halone.children hne), halone.unlocked, halone.etcd⟩

theorem alone_lockRestore (hlock : use.lock = none) :
    Alone { use with lock := some (.restore restore) } := by
  refine ⟨halone.oneUser, halone.children, fun _ => rfl, ?_⟩
  intro run hrun hkind
  have hheld := halone.etcd run hrun hkind
  rw [hlock] at hheld
  exact absurd hheld nofun

theorem alone_probe {kind : DatastoreKind} {ports : List Nat} {refused : Bool}
    (hapart : use.Apart (.probe restore kind ports refused)) (hrefused : refused = false)
    (hseen : use.seesRunning kind ports = false)
    (hheld : kind = .etcd → use.lock = some (.restore restore)) :
    Alone { use with swapping := (restore, kind) :: use.swapping } := by
  have hempty : use.children = [] ∧ use.serverLocked = false := by
    cases kind with
    | kine =>
      have hfree : use.portHeld ports = false := hseen
      have hnobody : ¬ (use.serverLocked = true ∨ use.children ≠ []) := fun hsome => by
        rw [hapart hrefused hsome] at hfree
        exact absurd hfree nofun
      rw [not_or, not_not] at hnobody
      exact ⟨hnobody.2, Bool.eq_false_of_not_eq_true hnobody.1⟩
    | etcd =>
      refine ⟨?_, by simp [serverLocked, hheld rfl]⟩
      by_contra hchildren
      have hshown := hapart hrefused hchildren
      have hfree : (use.memberAlive || use.portHeld ports) = false := hseen
      rw [hfree] at hshown
      exact absurd hshown nofun
  refine ⟨halone.oneUser, fun _ => hempty.1, fun _ => hempty.2, ?_⟩
  intro run hrun hkind
  rcases List.mem_cons.1 hrun with rfl | hold
  · exact hheld hkind
  · exact halone.etcd run hold hkind

theorem alone_rename (hswapping : (use.swapping.any fun run => decide (run.1 = restore)) = true) :
    Alone { use with
      renames :=
        { serverLocked := use.serverLocked, childAlive := !use.children.isEmpty } ::
          use.renames } := by
  have hne : use.swapping ≠ [] := fun hnil => by simp [hnil] at hswapping
  refine ⟨?_, halone.children, halone.unlocked, halone.etcd⟩
  intro rename hrename
  rcases List.mem_cons.1 hrename with rfl | hold
  · exact ⟨halone.unlocked hne, by simp [halone.children hne]⟩
  · exact halone.oneUser rename hold

theorem alone_endRestore (restore : Nat) :
    Alone { use with
      lock := if use.lock = some (.restore restore) then none else use.lock
      swapping := use.swapping.filter fun run => run.1 ≠ restore } := by
  have hsome : (use.swapping.filter fun run => run.1 ≠ restore) ≠ [] → use.swapping ≠ [] :=
    fun hne hnil => hne (by simp [hnil])
  refine ⟨halone.oneUser, fun hne => halone.children (hsome hne), ?_, ?_⟩
  · intro hne
    have hunlocked := halone.unlocked (hsome hne)
    unfold serverLocked at hunlocked ⊢
    dsimp only
    split_ifs with hheld
    · rfl
    · exact hunlocked
  · intro run hrun hkind
    obtain ⟨hold, hother⟩ := List.mem_filter.1 hrun
    have hheld := halone.etcd run hold hkind
    have hne : use.lock ≠ some (.restore restore) := fun hsame => by
      rw [hheld] at hsame
      simp_all
    simpa [hne] using hheld

end

theorem alone_next (step : WorkDirStep) (halone : use.Alone) (hapart : use.Apart step) :
    (use.next step).Alone := by
  cases step with
  | lockServer server =>
    simp only [next]
    split_ifs with hlock
    · exact alone_lockServer halone hlock (hapart hlock)
    · exact halone
  | spawn server pid kind port =>
    simp only [next]
    split_ifs with hspawn
    · exact alone_of_nil halone.oneUser (halone.swapping_nil hspawn.1)
    · exact halone
  | recordPid pid => exact ⟨halone.oneUser, halone.children, halone.unlocked, halone.etcd⟩
  | bind pid | close pid | exit pid => exact alone_children halone fun hnil => by simp [hnil]
  | unlockServer server =>
    simp only [next]
    split_ifs with hlock
    · exact alone_unlock halone hlock.1
    · exact halone
  | serverDies server =>
    simp only [next]
    split_ifs with hlock
    · exact alone_unlock halone hlock
    · exact halone
  | lockRestore restore =>
    simp only [next]
    split_ifs with hlock
    · exact alone_lockRestore halone hlock
    · exact halone
  | probe restore kind ports refused =>
    simp only [next]
    split_ifs with hpassed
    · exact alone_probe halone hapart hpassed.1 hpassed.2.1 hpassed.2.2
    · exact halone
  | rename restore =>
    simp only [next]
    split_ifs with hswapping
    · exact alone_rename halone hswapping
    · exact halone
  | endRestore restore => exact alone_endRestore halone restore

/-- In every interleaving whose steps keep restores apart, no restore renames anything of
the datastore while a server holds the lock or a child is alive. -/
theorem one_user_of_apart (steps : List WorkDirStep) (hapart : EachStep Apart next idle steps) :
    Always OneUser next idle steps := by
  have hidle : idle.Alone := alone_of_nil nofun rfl
  have halways := always_of_eachStep
    (fun _ step halone hstep => alone_next step halone hstep) hidle hapart
  exact halways.mono fun _ halone => halone.oneUser

instance (use : WorkDirUse) (step : WorkDirStep) : Decidable (use.Apart step) :=
  match step with
  | .lockServer _ => inferInstanceAs (Decidable (_ = none → ∀ run ∈ use.swapping, _))
  | .probe _ .kine _ _ => inferInstanceAs (Decidable (_ = _ → _ ∨ _ → _))
  | .probe _ .etcd _ _ => inferInstanceAs (Decidable (_ = _ → _ → _))
  | .spawn _ _ _ _ | .recordPid _ | .bind _ | .close _ | .exit _ | .unlockServer _
  | .serverDies _ | .lockRestore _ | .rename _ | .endRestore _ => .isTrue trivial

/-- A server that is stopped, between a restore that is refused and one that is not. -/
def stoppedServer : List WorkDirStep :=
  [.lockServer 1, .spawn 1 7 .kine 2379, .bind 7, .probe 2 .kine [2379] false, .exit 7,
    .unlockServer 1, .probe 3 .kine [2379] false, .rename 3, .endRestore 3]

theorem one_user_at_stopped_server :
    EachStep Apart next idle stoppedServer ∧ Always OneUser next idle stoppedServer :=
  ⟨by decide, one_user_of_apart stoppedServer (by decide)⟩

instance (use : WorkDirUse) : Decidable use.OneUser :=
  inferInstanceAs (Decidable (∀ rename ∈ use.renames, _))

/-- A server starts between a kine restore's probe and its rename; a member with no recorded
pid has not bound its port when an etcd restore looks. -/
theorem restores_beside_users :
    ¬ OneUser ([.probe 2 .kine [2379] false, .lockServer 1, .spawn 1 7 .kine 2379,
      .rename 2].foldl next idle) ∧
    ¬ OneUser ([.lockServer 1, .spawn 1 7 .etcd 2379, .serverDies 1, .lockRestore 2,
      .probe 2 .etcd [2379] false, .rename 2].foldl next idle) := by
  decide

end WorkDirUse

end K3sm.Executor
