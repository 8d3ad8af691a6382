import K3sm.Registry.Review

/-!
# Sweeping named repositories on `Sweep`'s terms

`Sweep` and `SweepRepositories` are two loops over the same `sweepRepo`.  Each decides on its own
which repository is only reported on, which errors are brakes and what it does to the marker.
-/

namespace K3sm.Registry.Gc.NamedSweep

open K3sm.Core K3sm.Registry.Gc.Review List Function

variable {Bytes : Type}

inductive Kind where
  | manifest
  | blob
  | upload
  | temp
  | repository
  deriving DecidableEq

inductive Reason where
  | manifest
  | blob
  | idle
  | committed
  | temp
  | empty
  deriving DecidableEq

structure Object where
  repository : String
  kind : Kind
  name : Text
  reason : Reason
  deriving DecidableEq

def sortedRows (plan : Plan) : List Digest :=
  plan.rows.dedup.insertionSort fun left right =>
    digestRank left ≤ digestRank right

def rowObjects (name : String) (plan : Plan) : List Object :=
  (sortedRows plan).map fun digest => ⟨name, .manifest, digest, .manifest⟩

def blobObject (name : String) (digest : Digest) : Object := ⟨name, .blob, digest, .blob⟩

def tempObject (name : String) (temp : Temp) : Object := ⟨name, .temp, .plain temp.path, .temp⟩

def uploadObject (name id : String) (committed : Bool) : Object :=
  ⟨name, .upload, .plain id, if committed then .committed else .idle⟩

def repositoryObject (name : String) : Object := ⟨name, .repository, .plain name, .empty⟩

def objects (name : String) (plan : Plan) : List Object :=
  rowObjects name plan ++ plan.blobs.map (blobObject name) ++
    plan.sessions.map (fun id => uploadObject name id (id ∈ plan.committed)) ++
    plan.temps.map (tempObject name) ++
    if plan.emptyRepo then [repositoryObject name] else []

abbrev Reaping (Bytes : Type) := Repo Bytes × List Object

/-- A delete that reports what it reaped once it went through. -/
def reporting (reaped : Repo Bytes → Repo Bytes → List Object)
    (delete : Repo Bytes → Option (Repo Bytes)) : Reaping Bytes → Option (Reaping Bytes) :=
  fun reaping => (delete reaping.1).map fun after =>
    (after, reaping.2 ++ reaped reaping.1 after)

/-- The verdict of `ReapSession`: nothing for a session that stays. -/
def sessionReaped (name id : String) (before after : Repo Bytes) : List Object :=
  if after.sessions.any (·.id == id) then []
  else (before.sessions.filter (·.id == id)).map fun session =>
    uploadObject name id (1 < session.links)

def layoutReaped (name : String) (_ after : Repo Bytes) : List Object :=
  if after.files.index.isNone then [repositoryObject name] else []

/-- `apply` with its report.  The rows are reported once their write is through,
the layout once it is gone. -/
def reap (env : Env Bytes) (name : String) (now : Time) (busy : String → Bool) (plan : Plan)
    (repo : Repo Bytes) : Script (Reaping Bytes) :=
  let silent := reporting fun _ _ => []
  (applyRows env now plan repo).map silent ++
    [reporting (fun _ _ => if plan.rows = [] then [] else rowObjects name plan) some] ++
    plan.blobs.map (fun digest => reporting (fun _ _ => [blobObject name digest])
      (removeBlob digest)) ++
    plan.sessions.map (fun id => reporting (sessionReaped name id)
      (reapSession busy (now - env.grace) id)) ++
    plan.temps.map (fun temp => reporting (fun _ _ => [tempObject name temp])
      (removeTemp temp.path)) ++
    if plan.emptyRepo && (plan.remaining repo.rows).isEmpty then
      (removeLayout (now - env.grace)).map silent ++ [reporting (layoutReaped name) some]
    else []

/-- Where an I/O error can end a sweep of a repository, its deletes and its
manifest reads apart. -/
inductive Fault where
  | rowCheck
  | listing
  | lock
  deriving DecidableEq

/-- What the sweep of one repository meets: the clock, the I/O errors, the
sessions somebody holds, and how many deletes go through. -/
structure Conditions where
  now : Time
  fault : Option Fault
  unreadable : Digest → Option OpenError
  busy : String → Bool
  stop : ℕ

inductive RepoError where
  | sweep (cause : SweepError)
  | fault (fault : Fault)
  | deletes
  deriving DecidableEq

/-- What `sweepRepo` returns, and the directory it leaves. -/
structure Visited (Bytes : Type) where
  left : Repo Bytes
  objs : List Object
  error : Option RepoError

def Conditions.outcome (met : Conditions) (repo : Repo Bytes) (digest : Digest) :
    ReadOutcome Bytes :=
  match met.unreadable digest with
  | some cause => .failed cause
  | none => repo.read digest

/-- The end of `sweepLocked`: the deletes, as far as they went through. -/
def reapLocked (env : Env Bytes) (name : String) (met : Conditions) (plan : Plan)
    (repo : Repo Bytes) : Visited Bytes :=
  let script := reap env name met.now met.busy plan repo
  let reaping := script.stopAfter met.stop (repo, [])
  let finished := decide (script.length ≤ met.stop) && (script.run (repo, [])).isSome
  ⟨reaping.1, reaping.2, if finished then none else some .deletes⟩

def sweepRepo (env : Env Bytes) (name : String) (met : Conditions) (reportOnly : Bool) :
    ℕ → Repo Bytes → Visited Bytes
  | 0, repo => ⟨repo, [], some (.sweep .changed)⟩
  | plans + 1, repo =>
    if met.fault = some .rowCheck then ⟨repo, [], some (.fault .rowCheck)⟩
    else match repo.checkRows env with
      | .error cause => ⟨repo, [], some (.sweep cause)⟩
      | .ok repo =>
        if met.fault = some .listing then ⟨repo, [], some (.fault .listing)⟩
        else match mark env repo.rows (repo.contents env.codec) (met.now - env.grace)
            (met.outcome repo) with
          | .error cause => ⟨repo, [], some (.sweep (.plan cause))⟩
          | .ok marked =>
            if planEmpty marked.plan then ⟨repo, [], none⟩
            else if reportOnly then
              match brake env met.now marked.plan repo.rows (repo.contents env.codec)
                  marked.reads with
              | .error cause => ⟨repo, objects name marked.plan, some (.sweep cause)⟩
              | .ok plan => ⟨repo, objects name plan, none⟩
            else if met.fault = some .lock then ⟨repo, [], some (.fault .lock)⟩
            else match sweepLocked env met.now marked repo with
              | .error .stale => sweepRepo env name met reportOnly plans repo
              | .error cause => ⟨repo, [], some (.sweep cause)⟩
              | .ok (checked, plan) => reapLocked env name met plan checked

/-- What a sweep says it has done. -/
structure Report where
  reportOnly : Bool
  objects : List Object
  stopped : List String
  failed : List String
  reviewing : List String
  wouldReap : List Object
  deriving DecidableEq

def Report.start : Report :=
  { reportOnly := false, objects := [], stopped := [], failed := [], reviewing := []
    wouldReap := [] }

def Report.deleted (report : Report) : List Object :=
  if report.reportOnly then [] else report.objects

inductive EntryError where
  | tooSoon
  | storeID
  | marker
  | repositories
  deriving DecidableEq

/-- A store and the collector over it, as one call finds them.  `none` is an id, a
marker or a listing that cannot be read. -/
structure Setting (Bytes : Type) where
  env : Env Bytes
  started : Time
  now : Time
  id : Option String
  marker : Option (Option MarkerRecord)
  listed : Bool
  dirs : List String
  dirs_nodup : dirs.Nodup
  repos : String → Repo Bytes
  meets : String → Conditions

/-- `Repositories`: the directories with an index.json, sorted. -/
def Setting.repositories (setting : Setting Bytes) : List String :=
  (setting.dirs.filter fun name => (setting.repos name).files.index.isSome).insertionSort (· ≤ ·)

/-- The checks both entry points start with, and the names the marker holds. -/
def Setting.opening (setting : Setting Bytes) : Except EntryError (List String) :=
  if setting.now < setting.started + setting.env.grace then .error .tooSoon
  else match setting.id with
    | none => .error .storeID
    | some id =>
      match setting.marker with
      | none => .error .marker
      | some marker =>
        if setting.listed then .ok (readReviewed marker id) else .error .repositories

/-- The `sweepRepo` call of either loop on the directory it finds. -/
def Setting.visit (setting : Setting Bytes) (reviewed : List String) (name : String)
    (repo : Repo Bytes) : Visited Bytes :=
  sweepRepo (named setting.env name) name (setting.meets name) (name ∉ reviewed) maxPlans repo

/-- What both loops put into their report; they differ in the errors they take for
brakes. -/
def Report.visited (stops : RepoError → Bool) (report : Report) (name : String) (review : Bool)
    (visited : Visited Bytes) : Report where
  reportOnly := report.reportOnly
  objects := if review then report.objects else report.objects ++ visited.objs
  stopped := if visited.error.any stops then report.stopped ++ [name] else report.stopped
  failed := if visited.error.any (!stops ·) then report.failed ++ [name] else report.failed
  reviewing := if review then report.reviewing ++ [name] else report.reviewing
  wouldReap := if review then report.wouldReap ++ visited.objs else report.wouldReap

def Report.close (report : Report) (reportOnly : Bool) : Report :=
  { report with
    reportOnly := reportOnly
    objects := if reportOnly then report.wouldReap else report.objects }

def sweepStops : RepoError → Bool
  | .sweep (.massDelete _ _) => true
  | .sweep (.rowsLost _ _) => true
  | _ => false

def namedStops : RepoError → Bool
  | .sweep (.massDelete _ _) => true
  | _ => false

/-- `Sweep`'s variables. -/
structure Sweeping (Bytes : Type) where
  repos : String → Repo Bytes
  report : Report
  next : List String

/-- The body of `Sweep`'s loop. -/
def Sweeping.step (setting : Setting Bytes) (reviewed : List String)
    (sweeping : Sweeping Bytes) (name : String) : Sweeping Bytes :=
  let visited := setting.visit reviewed name (sweeping.repos name)
  { repos := update sweeping.repos name visited.left
    report := sweeping.report.visited sweepStops name (name ∉ reviewed) visited
    next := if name ∈ reviewed ∨ visited.error.isNone then sweeping.next ++ [name]
      else sweeping.next }

/-- `ReapHalfRemovedLayouts`: the directories with no index.json and nothing in
them. -/
def reapHalfRemovedLayouts (repos : String → Repo Bytes) : String → Repo Bytes :=
  fun name =>
    let repo := repos name
    if repo.files.index.isNone ∧ repo.blobs.isEmpty ∧ repo.temps.isEmpty ∧
        repo.sessions.isEmpty ∧ repo.unknown = 0 then
      { repo with files := (RowRecord.reapHalfRemoved repo.files).finish repo.files }
    else repo

/-- What a call leaves and returns: the directories, the report, and the names to
write to the marker when they changed. -/
structure Ended (Bytes : Type) where
  repos : String → Repo Bytes
  report : Report
  marker : Option (List String)

def sweep (setting : Setting Bytes) : Except EntryError (Ended Bytes) := do
  let reviewed ← setting.opening
  let start : Sweeping Bytes :=
    { repos := if reviewed = [] then setting.repos else reapHalfRemovedLayouts setting.repos
      report := Report.start
      next := [] }
  let swept := setting.repositories.foldl (Sweeping.step setting reviewed) start
  let reportOnly := swept.report.reviewing.length = setting.repositories.length
  return {
    repos := swept.repos
    report := swept.report.close reportOnly
    marker := if swept.next ⊆ reviewed ∧ reviewed ⊆ swept.next then none else some swept.next }

/-- `SweepRepositories`' variables.  `swept` are the names it has visited. -/
structure Naming (Bytes : Type) where
  repos : String → Repo Bytes
  report : Report
  swept : List String
  removed : List String
  blobBytes : ℕ

/-- The sizes of the reaped blobs, from a listing made before the sweep. -/
def reapedBytes (codec : Codec Bytes) (before : Repo Bytes) (objs : List Object) : ℕ :=
  ((objs.filter (·.kind = .blob)).map fun object =>
    ((before.find object.name).map fun blob => codec.len blob.body).getD 0).sum

/-- The body of `SweepRepositories`' loop. -/
def Naming.step (setting : Setting Bytes) (reviewed : List String) (naming : Naming Bytes)
    (name : String) : Naming Bytes :=
  if name ∈ naming.swept ∨ name ∉ setting.repositories then naming
  else
    let before := naming.repos name
    let visited := setting.visit reviewed name before
    { repos := update naming.repos name visited.left
      report := naming.report.visited namedStops name (name ∉ reviewed) visited
      swept := naming.swept ++ [name]
      removed := if name ∈ reviewed ∧ visited.objs.any (·.kind = .repository) then
          naming.removed ++ [name]
        else naming.removed
      blobBytes := if name ∈ reviewed then
          naming.blobBytes + reapedBytes setting.env.codec before visited.objs
        else naming.blobBytes }

def sweepRepositories (setting : Setting Bytes) (names : List String) :
    Except EntryError (Ended Bytes × ℕ) := do
  let reviewed ← setting.opening
  let start : Naming Bytes :=
    { repos := setting.repos, report := Report.start, swept := [], removed := []
      blobBytes := 0 }
  let naming := names.foldl (Naming.step setting reviewed) start
  let reportOnly := naming.swept ≠ [] ∧ naming.report.reviewing.length = naming.swept.length
  return (
    { repos := naming.repos
      report := naming.report.close reportOnly
      marker := if naming.removed = [] then none
        else some (reviewed.filter (· ∉ naming.removed)) },
    naming.blobBytes)

section LostRows

variable {env : Env Bytes} {name : String} {met : Conditions} {repo left : Repo Bytes}

def RepoError.rowsLost : RepoError → Bool
  | .sweep (.rowsLost _ _) => true
  | _ => false

theorem sweepStops_eq (error : RepoError) :
    sweepStops error = (namedStops error || error.rowsLost) := by
  cases error with
  | sweep cause => cases cause <;> rfl
  | _ => rfl

theorem namedStops_of_rowsLost {error : RepoError} (hlost : error.rowsLost = true) :
    namedStops error = false := by
  cases error with
  | sweep cause => cases cause <;> first | rfl | cases hlost
  | _ => cases hlost

theorem checkRows_rowsLost_iff : (∃ held recorded,
    repo.checkRows env = .error (.rowsLost held recorded)) ↔
      RowRecord.ReportsLoss env.records repo.files := by
  unfold Repo.checkRows RowRecord.ReportsLoss
  cases hcheck : RowRecord.checkRows env.records repo.files <;> simp

theorem not_reportsLoss_of_checkRows (hok : repo.checkRows env = .ok left) :
    ¬ RowRecord.ReportsLoss env.records left.files := by
  unfold Repo.checkRows at hok
  split at hok
  · cases hok
  · cases hok
  rename_i script hpassed
  cases hok
  have hwithin : RowRecord.RecordWithin env.records repo.files := by
    intro count hcount
    unfold RowRecord.checkRows at hpassed
    split at hpassed
    · cases hpassed
    rename_i rows hindex
    simp only [hcount] at hpassed
    split_ifs at hpassed
    · rename_i hfewer
      rw [RowRecord.Files.held, hindex, Option.getD_some]
      exact not_lt.1 hfewer
  rintro ⟨held, recorded, hlost⟩
  exact RowRecord.checkRows_ne_rowsLost (RowRecord.checkRows_stops_within hpassed hwithin
    (script.finish_mem_stops repo.files)) held recorded hlost

theorem sweepError_ne_rowsLost (cause : PlanError) (held recorded : ℤ) :
    sweepError cause ≠ .rowsLost held recorded := by
  cases cause <;> nofun

theorem brake_ne_rowsLost (now : Time) (plan : Plan) (rows : List Row) (contents : Contents)
    (reads : Reads) (held recorded : ℤ) :
    brake env now plan rows contents reads ≠ .error (.rowsLost held recorded) := by
  unfold brake
  dsimp only
  split_ifs
  · nofun
  · split <;> nofun

theorem lockedPlan_ne_rowsLost (hheld : ¬ RowRecord.ReportsLoss env.records repo.files)
    (now : Time) (marked : Marked) (held recorded : ℤ) :
    lockedPlan env now marked repo ≠ .error (.rowsLost held recorded) := by
  intro hlost
  unfold lockedPlan at hlost
  split at hlost
  · cases hlost
  split at hlost
  · cases hlost
  rw [bind_eq_error_iff] at hlost
  rcases hlost with hcheck | ⟨checked, -, hlost⟩
  · exact hheld (checkRows_rowsLost_iff.1 ⟨held, recorded, hcheck⟩)
  rw [bind_eq_error_iff] at hlost
  rcases hlost with hplan | ⟨second, -, hpure⟩
  · obtain ⟨cause, -, hcause⟩ := mapError_eq_error hplan
    exact sweepError_ne_rowsLost cause held recorded hcause
  · cases hpure

theorem sweepLocked_ne_rowsLost (hheld : ¬ RowRecord.ReportsLoss env.records repo.files)
    (now : Time) (marked : Marked) (held recorded : ℤ) :
    sweepLocked env now marked repo ≠ .error (.rowsLost held recorded) := by
  intro hlost
  rw [sweepLocked, bind_eq_error_iff] at hlost
  rcases hlost with hplan | ⟨planned, -, hlost⟩
  · exact lockedPlan_ne_rowsLost hheld now marked held recorded hplan
  rw [bind_eq_error_iff] at hlost
  rcases hlost with hbrake | ⟨final, -, hpure⟩
  · exact brake_ne_rowsLost _ _ _ _ _ held recorded hbrake
  · cases hpure

theorem rowsLost_reapLocked (plan : Plan) :
    (reapLocked env name met plan repo).error.any RepoError.rowsLost = false := by
  unfold reapLocked
  dsimp only
  split <;> rfl

theorem rowsLost_sweep_eq_false {cause : SweepError}
    (hcause : ∀ held recorded, cause ≠ .rowsLost held recorded) :
    (RepoError.sweep cause).rowsLost = false := by
  cases cause with
  | rowsLost held recorded => exact absurd rfl (hcause held recorded)
  | _ => rfl

theorem sweepRepo_rowsLost_of_held (reportOnly : Bool) (plans : ℕ) :
    ∀ repo : Repo Bytes, ¬ RowRecord.ReportsLoss env.records repo.files →
      (sweepRepo env name met reportOnly plans repo).error.any RepoError.rowsLost = false := by
  induction plans with
  | zero =>
    intro repo _
    rfl
  | succ plans ih =>
    intro repo hheld
    unfold sweepRepo
    split
    · rfl
    split
    · rename_i cause hcheck
      refine rowsLost_sweep_eq_false fun held recorded hcause => ?_
      exact hheld (checkRows_rowsLost_iff.1 ⟨held, recorded, hcause ▸ hcheck⟩)
    rename_i checked hcheck
    have hchecked := not_reportsLoss_of_checkRows hcheck
    split
    · rfl
    split
    · rfl
    split
    · rfl
    split
    · split
      · rename_i cause hbrake
        refine rowsLost_sweep_eq_false fun held recorded hcause => ?_
        exact brake_ne_rowsLost _ _ _ _ _ held recorded (hcause ▸ hbrake)
      · rfl
    split
    · rfl
    split
    · exact ih checked hchecked
    · rename_i cause hlocked
      refine rowsLost_sweep_eq_false fun held recorded hcause => ?_
      exact sweepLocked_ne_rowsLost hchecked _ _ held recorded (hcause ▸ hlocked)
    · exact rowsLost_reapLocked _

/-- A sweep ends on lost rows exactly when its first row check can be made and
finds fewer rows than were recorded. -/
theorem sweepRepo_rowsLost_iff (reportOnly : Bool) (plans : ℕ) :
    (sweepRepo env name met reportOnly (plans + 1) repo).error.any RepoError.rowsLost = true ↔
      met.fault ≠ some .rowCheck ∧ RowRecord.ReportsLoss env.records repo.files := by
  constructor
  · intro hlost
    constructor
    · intro hfault
      simp [sweepRepo, hfault, RepoError.rowsLost] at hlost
    · by_contra hheld
      rw [sweepRepo_rowsLost_of_held reportOnly (plans + 1) repo hheld] at hlost
      cases hlost
  · rintro ⟨hfault, hreports⟩
    obtain ⟨held, recorded, hcheck⟩ := checkRows_rowsLost_iff.2 hreports
    simp [sweepRepo, hfault, hcheck, RepoError.rowsLost]

end LostRows

theorem objects_repository (name : String) (plan : Plan) :
    ∀ object ∈ objects name plan, object.repository = name := by
  intro object hobject
  simp only [objects, rowObjects, mem_append, mem_map] at hobject
  rcases hobject with (((⟨_, _, rfl⟩ | ⟨_, _, rfl⟩) | ⟨_, _, rfl⟩) | ⟨_, _, rfl⟩) | hempty
  · rfl
  · rfl
  · rfl
  · rfl
  split at hempty
  · rw [mem_singleton.1 hempty]
    rfl
  · cases hempty

def OfRepository (name : String) (reaping : Reaping Bytes) : Prop :=
  ∀ object ∈ reaping.2, object.repository = name

theorem reporting_ofRepository {name : String} {reaped : Repo Bytes → Repo Bytes → List Object}
    {delete : Repo Bytes → Option (Repo Bytes)}
    (hreaped : ∀ before after, ∀ object ∈ reaped before after, object.repository = name)
    {before after : Reaping Bytes} (hbefore : OfRepository name before)
    (hstep : reporting reaped delete before = some after) : OfRepository name after := by
  simp only [reporting, Option.map_eq_some_iff] at hstep
  obtain ⟨repo, -, rfl⟩ := hstep
  exact forall_mem_append.2 ⟨hbefore, hreaped _ _⟩

theorem reap_ofRepository {env : Env Bytes} {name : String} {now : Time} {busy : String → Bool}
    {plan : Plan} {repo : Repo Bytes} :
    ∀ action ∈ reap env name now busy plan repo, ∀ before after, OfRepository name before →
      action before = some after → OfRepository name after := by
  intro action haction before after hbefore hstep
  have hdone : ∀ {reaped : Repo Bytes → Repo Bytes → List Object}
      {delete : Repo Bytes → Option (Repo Bytes)},
      (∀ before after, ∀ object ∈ reaped before after, object.repository = name) →
      reporting reaped delete = action → OfRepository name after := by
    intro reaped delete hreaped haction
    exact reporting_ofRepository hreaped hbefore (haction ▸ hstep)
  simp only [reap, mem_append, mem_map, mem_singleton] at haction
  rcases haction with ((((⟨_, _, rfl⟩ | rfl) | ⟨_, _, rfl⟩) | ⟨_, _, rfl⟩) | ⟨_, _, rfl⟩) | htail
  · exact hdone (by simp) rfl
  · refine hdone ?_ rfl
    intro _ _ object hobject
    split at hobject
    · cases hobject
    · obtain ⟨_, _, rfl⟩ := mem_map.1 hobject
      rfl
  · exact hdone (by simp [blobObject]) rfl
  · refine hdone ?_ rfl
    intro _ _ object hobject
    unfold sessionReaped at hobject
    split at hobject
    · cases hobject
    · obtain ⟨_, _, rfl⟩ := mem_map.1 hobject
      rfl
  · exact hdone (by simp [tempObject]) rfl
  split at htail
  · rcases mem_append.1 htail with hsilent | hlast
    · obtain ⟨_, _, rfl⟩ := mem_map.1 hsilent
      exact hdone (by simp) rfl
    · refine hdone ?_ (mem_singleton.1 hlast).symm
      intro _ _ object hobject
      unfold layoutReaped at hobject
      split at hobject
      · rw [mem_singleton.1 hobject]
        rfl
      · cases hobject
  · cases htail

theorem sweepRepo_repository {env : Env Bytes} {name : String} {met : Conditions}
    (reportOnly : Bool) (plans : ℕ) : ∀ repo : Repo Bytes,
      ∀ object ∈ (sweepRepo env name met reportOnly plans repo).objs, object.repository = name := by
  induction plans with
  | zero =>
    intro repo object hobject
    cases hobject
  | succ plans ih =>
    intro repo object hobject
    unfold sweepRepo at hobject
    repeat' split at hobject
    all_goals first
      | cases hobject
      | exact objects_repository _ _ object hobject
      | exact ih _ object hobject
      | exact Script.stops_invariant (OfRepository name) reap_ofRepository
          (by simp [OfRepository]) ⟨met.stop, rfl⟩ object hobject

section Tally

variable {setting : Setting Bytes} {reviewed : List String} {stops : RepoError → Bool}
  {start repos : String → Repo Bytes} {done : List String} {report : Report}

def Setting.outcome (setting : Setting Bytes) (reviewed : List String)
    (start : String → Repo Bytes) (name : String) : Visited Bytes :=
  setting.visit reviewed name (start name)

structure Tallied (setting : Setting Bytes) (reviewed : List String)
    (stops : RepoError → Bool) (start : String → Repo Bytes) (done : List String)
    (repos : String → Repo Bytes) (report : Report) : Prop where
  left : ∀ name ∈ done, repos name = (setting.outcome reviewed start name).left
  untouched : ∀ name, name ∉ done → repos name = start name
  objects : report.objects = done.flatMap fun name =>
    if name ∈ reviewed then (setting.outcome reviewed start name).objs else []
  wouldReap : report.wouldReap = done.flatMap fun name =>
    if name ∈ reviewed then [] else (setting.outcome reviewed start name).objs
  stopped : ∀ name, name ∈ report.stopped ↔
    name ∈ done ∧ (setting.outcome reviewed start name).error.any stops = true
  failed : ∀ name, name ∈ report.failed ↔
    name ∈ done ∧ (setting.outcome reviewed start name).error.any (!stops ·) = true
  reviewing : report.reviewing = done.filter (· ∉ reviewed)

theorem Tallied.nil : Tallied setting reviewed stops start [] start Report.start where
  left := nofun
  untouched := fun _ _ => rfl
  objects := rfl
  wouldReap := rfl
  stopped := by simp [Report.start]
  failed := by simp [Report.start]
  reviewing := rfl

theorem mem_snoc_iff {names : List String} {done : List String} {name other : String}
    {property : String → Prop} (hnames : ∀ other, other ∈ names ↔ other ∈ done ∧ property other)
    (hproperty : property name) :
    other ∈ names ++ [name] ↔ other ∈ done ++ [name] ∧ property other := by
  rw [mem_append, mem_append, mem_singleton, hnames]
  constructor
  · rintro (⟨hdone, hother⟩ | rfl)
    · exact ⟨.inl hdone, hother⟩
    · exact ⟨.inr rfl, hproperty⟩
  · rintro ⟨hdone | rfl, hother⟩
    · exact .inl ⟨hdone, hother⟩
    · exact .inr rfl

theorem mem_same_iff {names : List String} {done : List String} {name other : String}
    {property : String → Prop} (hnames : ∀ other, other ∈ names ↔ other ∈ done ∧ property other)
    (hproperty : ¬ property name) : other ∈ names ↔ other ∈ done ++ [name] ∧ property other := by
  rw [mem_append, mem_singleton, hnames]
  constructor
  · rintro ⟨hdone, hother⟩
    exact ⟨.inl hdone, hother⟩
  · rintro ⟨hdone | rfl, hother⟩
    · exact ⟨hdone, hother⟩
    · exact absurd hother hproperty

theorem Tallied.visit {name : String}
    (htallied : Tallied setting reviewed stops start done repos report) (hfresh : name ∉ done) :
    Tallied setting reviewed stops start (done ++ [name])
      (update repos name (setting.visit reviewed name (repos name)).left)
      (report.visited stops name (name ∉ reviewed) (setting.visit reviewed name (repos name))) := by
  have hvisit : setting.visit reviewed name (repos name) = setting.outcome reviewed start name := by
    rw [Setting.outcome, htallied.untouched name hfresh]
  rw [hvisit]
  constructor
  case left =>
    intro other hother
    by_cases hsame : other = name
    · rw [hsame, update_self]
    · rw [update_of_ne hsame]
      exact htallied.left other (by simpa [hsame] using hother)
  case untouched =>
    intro other hother
    have hne : other ≠ name := by
      rintro rfl
      exact hother (by simp)
    rw [update_of_ne hne]
    exact htallied.untouched other fun hdone => hother (mem_append_left _ hdone)
  case objects =>
    rw [flatMap_append, ← htallied.objects]
    by_cases hreviewed : name ∈ reviewed <;> simp [Report.visited, hreviewed]
  case wouldReap =>
    rw [flatMap_append, ← htallied.wouldReap]
    by_cases hreviewed : name ∈ reviewed <;> simp [Report.visited, hreviewed]
  case stopped =>
    intro other
    simp only [Report.visited]
    split_ifs with hstops
    · exact mem_snoc_iff htallied.stopped hstops
    · exact mem_same_iff htallied.stopped hstops
  case failed =>
    intro other
    simp only [Report.visited]
    split_ifs with hfails
    · exact mem_snoc_iff htallied.failed hfails
    · exact mem_same_iff htallied.failed hfails
  case reviewing =>
    rw [filter_append, ← htallied.reviewing]
    by_cases hreviewed : name ∈ reviewed <;> simp [Report.visited, hreviewed]

theorem filter_flatMap_repository {contribution : String → List Object}
    (howned : ∀ name, ∀ object ∈ contribution name, object.repository = name)
    {names : List String} (hnodup : names.Nodup) {name : String} (hname : name ∈ names) :
    (names.flatMap contribution).filter (·.repository = name) = contribution name := by
  have hown : (contribution name).filter (·.repository = name) = contribution name := by
    apply filter_eq_self.2
    intro object hobject
    exact decide_eq_true (howned name object hobject)
  have hother : ∀ other, other ≠ name → (contribution other).filter (·.repository = name) = [] := by
    intro other hne
    apply filter_eq_nil_iff.2
    intro object hobject
    rw [howned other object hobject]
    simpa using hne
  induction names with
  | nil => cases hname
  | cons first rest ih =>
    rw [flatMap_cons, filter_append]
    rw [nodup_cons] at hnodup
    by_cases hsame : first = name
    · subst hsame
      have hrest : (rest.flatMap contribution).filter (·.repository = first) = [] := by
        apply filter_eq_nil_iff.2
        intro object hobject
        obtain ⟨other, hmem, hfrom⟩ := mem_flatMap.1 hobject
        have hne : other ≠ first := fun heq => hnodup.1 (heq ▸ hmem)
        exact filter_eq_nil_iff.1 (hother other hne) object hfrom
      rw [hown, hrest, append_nil]
    · have hmem : name ∈ rest := by
        rcases mem_cons.1 hname with heq | hrest
        · exact absurd heq.symm hsame
        · exact hrest
      rw [hother first hsame, ih hnodup.2 hmem, nil_append]

theorem Tallied.objects_eq_nil (htallied : Tallied setting reviewed stops start done repos report)
    (hall : report.reviewing.length = done.length) : report.objects = [] := by
  rw [htallied.reviewing, length_filter_eq_length_iff] at hall
  rw [htallied.objects, flatMap_eq_nil_iff]
  intro name hname
  rw [if_neg (by simpa using hall name hname)]

theorem Tallied.deleted_close (htallied : Tallied setting reviewed stops start done repos report)
    {reportOnly : Bool} (hall : reportOnly = true → report.reviewing.length = done.length) :
    (report.close reportOnly).deleted = report.objects := by
  cases reportOnly with
  | true =>
    rw [htallied.objects_eq_nil (hall rfl)]
    rfl
  | false => rfl

theorem Tallied.sweepLoop (todo : List String) (sweeping : Sweeping Bytes)
    (htallied : Tallied setting reviewed sweepStops start done sweeping.repos sweeping.report)
    (hnodup : (done ++ todo).Nodup) :
    Tallied setting reviewed sweepStops start (done ++ todo)
      (todo.foldl (Sweeping.step setting reviewed) sweeping).repos
      (todo.foldl (Sweeping.step setting reviewed) sweeping).report := by
  induction todo generalizing done sweeping with
  | nil => simpa using htallied
  | cons name todo ih =>
    have hfresh : name ∉ done := by
      intro hdone
      exact disjoint_of_nodup_append hnodup hdone mem_cons_self
    have hsplit : done ++ name :: todo = (done ++ [name]) ++ todo := by simp
    rw [hsplit] at hnodup ⊢
    exact ih _ (htallied.visit hfresh) hnodup

/-- What `SweepRepositories`' loop keeps: it has visited each of `swept` once, and
they are repositories of the store. -/
structure NamingInv (setting : Setting Bytes) (reviewed : List String)
    (start : String → Repo Bytes) (naming : Naming Bytes) : Prop where
  tallied : Tallied setting reviewed namedStops start naming.swept naming.repos naming.report
  nodup : naming.swept.Nodup
  held : ∀ name ∈ naming.swept, name ∈ setting.repositories

theorem NamingInv.step {naming : Naming Bytes} (hinv : NamingInv setting reviewed start naming)
    (name : String) : NamingInv setting reviewed start (naming.step setting reviewed name) ∧
      ∀ other, other ∈ (naming.step setting reviewed name).swept ↔
        other ∈ naming.swept ∨ (other = name ∧ name ∈ setting.repositories) := by
  by_cases hskip : name ∈ naming.swept ∨ name ∉ setting.repositories
  · rw [Naming.step, if_pos hskip]
    refine ⟨hinv, fun other => ⟨.inl, ?_⟩⟩
    rintro (hswept | ⟨rfl, hheld⟩)
    · exact hswept
    · exact hskip.resolve_right (not_not.2 hheld)
  rw [Naming.step, if_neg hskip]
  rw [not_or, not_not] at hskip
  obtain ⟨hfresh, hheld⟩ := hskip
  constructor
  · constructor
    case tallied => exact hinv.tallied.visit hfresh
    case nodup => exact nodup_append_comm.1 (by simpa using ⟨hfresh, hinv.nodup⟩)
    case held =>
      exact forall_mem_append.2 ⟨hinv.held, forall_mem_singleton.2 hheld⟩
  · intro other
    simp [hheld]

theorem NamingInv.loop (names : List String) {naming : Naming Bytes}
    (hinv : NamingInv setting reviewed start naming) :
    NamingInv setting reviewed start (names.foldl (Naming.step setting reviewed) naming) ∧
      ∀ other, other ∈ (names.foldl (Naming.step setting reviewed) naming).swept ↔
        other ∈ naming.swept ∨ (other ∈ names ∧ other ∈ setting.repositories) := by
  induction names generalizing naming with
  | nil => exact ⟨hinv, by simp⟩
  | cons name names ih =>
    obtain ⟨hnext, hmem⟩ := hinv.step name
    obtain ⟨hlast, hmem'⟩ := ih hnext
    refine ⟨hlast, fun other => ?_⟩
    rw [foldl_cons, hmem', hmem, mem_cons]
    constructor
    · rintro ((hswept | ⟨rfl, hheld⟩) | ⟨hrest, hheld⟩)
      · exact .inl hswept
      · exact .inr ⟨.inl rfl, hheld⟩
      · exact .inr ⟨.inr hrest, hheld⟩
    · rintro (hswept | ⟨rfl | hrest, hheld⟩)
      · exact .inl (.inl hswept)
      · exact .inl (.inr ⟨rfl, hheld⟩)
      · exact .inr ⟨hrest, hheld⟩

end Tally

/-- The two calls did the same to the repository and say the same of it. -/
structure SameFor (name : String) (whole named : Ended Bytes) : Prop where
  left : whole.repos name = named.repos name
  deleted : whole.report.deleted.filter (·.repository = name) =
    named.report.deleted.filter (·.repository = name)
  wouldReap : whole.report.wouldReap.filter (·.repository = name) =
    named.report.wouldReap.filter (·.repository = name)
  stopped : name ∈ whole.report.stopped ↔ name ∈ named.report.stopped
  failed : name ∈ whole.report.failed ↔ name ∈ named.report.failed

/-- `SweepRepositories` over the names does to each of them that the store holds
what `Sweep` does, or refuses for the same reason. -/
def OnSweepsTerms (setting : Setting Bytes) (names : List String) : Prop :=
  match sweep setting, sweepRepositories setting names with
  | .error cause, .error cause' => cause = cause'
  | .ok whole, .ok (named, _) =>
    ∀ name ∈ names, name ∈ setting.repositories → SameFor name whole named
  | _, _ => False

/-- The repository's row check can be made, and index.json holds fewer rows than
were recorded. -/
def LosesRows (setting : Setting Bytes) (name : String) : Prop :=
  (setting.meets name).fault ≠ some .rowCheck ∧
    RowRecord.ReportsLoss (named setting.env name).records (setting.repos name).files

theorem mem_repositories {setting : Setting Bytes} {name : String} :
    name ∈ setting.repositories ↔
      name ∈ setting.dirs ∧ (setting.repos name).files.index.isSome = true := by
  rw [Setting.repositories, mem_insertionSort, mem_filter]

theorem repositories_nodup (setting : Setting Bytes) : setting.repositories.Nodup :=
  (perm_insertionSort _ _).nodup_iff.2 (setting.dirs_nodup.filter _)

theorem reapHalfRemovedLayouts_of_index {repos : String → Repo Bytes} {name : String}
    (hindex : (repos name).files.index.isSome = true) :
    reapHalfRemovedLayouts repos name = repos name := by
  rw [reapHalfRemovedLayouts]
  apply if_neg
  rintro ⟨hnone, -⟩
  rw [Option.isNone_iff_eq_none.1 hnone] at hindex
  cases hindex

theorem same_iff_stopped {setting : Setting Bytes} {reviewed done done' : List String}
    {start start' repos repos' : String → Repo Bytes} {report report' : Report}
    {reportOnly reportOnly' : Bool} {marker marker' : Option (List String)} {name : String}
    (hwhole : Tallied setting reviewed sweepStops start done repos report)
    (hnamed : Tallied setting reviewed namedStops start' done' repos' report')
    (hall : reportOnly = true → report.reviewing.length = done.length)
    (hall' : reportOnly' = true → report'.reviewing.length = done'.length)
    (hnodup : done.Nodup) (hnodup' : done'.Nodup) (hdone : name ∈ done) (hdone' : name ∈ done')
    (hstart : start name = start' name) :
    SameFor name ⟨repos, report.close reportOnly, marker⟩
        ⟨repos', report'.close reportOnly', marker'⟩ ↔
      (setting.outcome reviewed start name).error.any RepoError.rowsLost = false := by
  have hsame : setting.outcome reviewed start name = setting.outcome reviewed start' name := by
    rw [Setting.outcome, Setting.outcome, hstart]
  have howned : ∀ (start : String → Repo Bytes) (other : String),
      ∀ object ∈ (setting.outcome reviewed start other).objs, object.repository = other :=
    fun start other => sweepRepo_repository _ _ (start other)
  constructor
  · intro hfor
    have hstopped := hfor.stopped
    simp only [Report.close, hwhole.stopped, hnamed.stopped, hdone, hdone', true_and,
      ← hsame] at hstopped
    cases herror : (setting.outcome reviewed start name).error with
    | none => rfl
    | some error =>
      rw [herror] at hstopped
      simp only [Option.any_some, sweepStops_eq, Bool.or_eq_true] at hstopped
      cases hlost : error.rowsLost with
      | false => simpa using hlost
      | true =>
        have hnot := namedStops_of_rowsLost hlost
        rw [hnot] at hstopped
        exact absurd (hstopped.1 (.inr hlost)) (by simp)
  intro hheld
  have hrules : ∀ error, (setting.outcome reviewed start name).error = some error →
      sweepStops error = namedStops error := by
    intro error herror
    rw [herror, Option.any_some] at hheld
    rw [sweepStops_eq, hheld, Bool.or_false]
  constructor
  case left =>
    change repos name = repos' name
    rw [hwhole.left name hdone, hnamed.left name hdone', hsame]
  case deleted =>
    change ((report.close reportOnly).deleted).filter _ =
      ((report'.close reportOnly').deleted).filter _
    rw [hwhole.deleted_close hall, hnamed.deleted_close hall', hwhole.objects, hnamed.objects,
      filter_flatMap_repository _ hnodup hdone, filter_flatMap_repository _ hnodup' hdone', hsame]
    all_goals
      intro other object hobject
      split at hobject
      · exact howned _ other object hobject
      · cases hobject
  case wouldReap =>
    change report.wouldReap.filter _ = report'.wouldReap.filter _
    rw [hwhole.wouldReap, hnamed.wouldReap,
      filter_flatMap_repository _ hnodup hdone, filter_flatMap_repository _ hnodup' hdone', hsame]
    all_goals
      intro other object hobject
      split at hobject
      · cases hobject
      · exact howned _ other object hobject
  case stopped =>
    change name ∈ report.stopped ↔ name ∈ report'.stopped
    rw [hwhole.stopped, hnamed.stopped, ← hsame]
    cases herror : (setting.outcome reviewed start name).error with
    | none => simp
    | some error => simp [hdone, hdone', hrules error herror]
  case failed =>
    change name ∈ report.failed ↔ name ∈ report'.failed
    rw [hwhole.failed, hnamed.failed, ← hsame]
    cases herror : (setting.outcome reviewed start name).error with
    | none => simp
    | some error => simp [hdone, hdone', hrules error herror]

/-- `SweepRepositories` runs on `Sweep`'s terms exactly when the call is refused
or none of the named repositories the store holds has lost rows. -/
theorem onSweepsTerms_iff (setting : Setting Bytes) (names : List String) :
    OnSweepsTerms setting names ↔ ∀ reviewed, setting.opening = .ok reviewed →
      ∀ name ∈ names, name ∈ setting.repositories → ¬ LosesRows setting name := by
  cases hopening : setting.opening with
  | error cause => simp [OnSweepsTerms, sweep, sweepRepositories, hopening, bind, Except.bind]
  | ok reviewed =>
    let start := if reviewed = [] then setting.repos else reapHalfRemovedLayouts setting.repos
    have hstart : ∀ name ∈ setting.repositories, start name = setting.repos name := by
      intro name hname
      simp only [start]
      split
      · rfl
      · exact reapHalfRemovedLayouts_of_index (mem_repositories.1 hname).2
    have hnodup := repositories_nodup setting
    have hwhole : Tallied setting reviewed sweepStops start setting.repositories
        (setting.repositories.foldl (Sweeping.step setting reviewed)
          ⟨start, Report.start, []⟩).repos
        (setting.repositories.foldl (Sweeping.step setting reviewed)
          ⟨start, Report.start, []⟩).report := by
      have hempty : Tallied setting reviewed sweepStops start [] start Report.start := Tallied.nil
      exact Tallied.sweepLoop _ ⟨start, Report.start, []⟩ hempty hnodup
    have hopened : NamingInv setting reviewed setting.repos
        ⟨setting.repos, Report.start, [], [], 0⟩ :=
      ⟨Tallied.nil, nodup_nil, nofun⟩
    obtain ⟨hnaming, hswept⟩ := hopened.loop names
    have hvisited : ∀ name ∈ names, name ∈ setting.repositories →
        ((setting.outcome reviewed start name).error.any RepoError.rowsLost = false ↔
          ¬ LosesRows setting name) := by
      intro name hname hheld
      rw [← Bool.not_eq_true, not_iff_not, LosesRows, Setting.outcome, hstart name hheld]
      exact sweepRepo_rowsLost_iff (name ∉ reviewed) 2
    simp only [OnSweepsTerms, sweep, sweepRepositories, hopening, bind, Except.bind, pure,
      Except.pure, Except.ok.injEq, forall_eq']
    refine forall_congr' fun name => forall_congr' fun hname => forall_congr' fun hheld => ?_
    rw [← hvisited name hname hheld]
    exact same_iff_stopped hwhole hnaming.tallied of_decide_eq_true
      (fun hall => (of_decide_eq_true hall).2) hnodup hnaming.nodup hheld
      ((hswept name).2 (.inr ⟨hname, hheld⟩)) (hstart name hheld)

/-- A repository whose index.json was replaced by an empty one after the store
recorded a row. -/
def lostSetting : Setting ℕ where
  env := demoSweepEnv
  started := 0
  now := 100
  id := some "store"
  marker := some (some ⟨"store", ["app"]⟩)
  listed := true
  dirs := ["app"]
  dirs_nodup := by decide
  repos := fun _ =>
    { emptyRepo with
      files := { id := "store", index := some [], record := some (.count ⟨"store", "app", 1⟩) } }
  meets := fun _ =>
    { now := 100, fault := none, unreadable := fun _ => none, busy := fun _ => false, stop := 10 }

/-- `Sweep` lists the repository in Stopped, `SweepRepositories` in Failed. -/
theorem lost_not_on_sweeps_terms : ¬ OnSweepsTerms lostSetting ["app"] := by
  intro hterms
  have hwhole : (sweep lostSetting).map (·.report.stopped) = .ok ["app"] := rfl
  have hnamed : (sweepRepositories lostSetting ["app"]).map (·.1.report.stopped) = .ok [] := rfl
  unfold OnSweepsTerms at hterms
  split at hterms
  · rename_i cause _ hsweep _
    simp [hsweep, Except.map] at hwhole
  · rename_i whole named bytes hsweep hrepositories
    have hsame := hterms "app" (by simp) (mem_repositories.2 ⟨by simp [lostSetting], rfl⟩)
    simp only [hsweep, Except.map, Except.ok.injEq] at hwhole
    simp only [hrepositories, Except.map, Except.ok.injEq] at hnamed
    have hstopped := hsame.stopped
    rw [hwhole, hnamed] at hstopped
    simp at hstopped
  · exact hterms

end K3sm.Registry.Gc.NamedSweep
