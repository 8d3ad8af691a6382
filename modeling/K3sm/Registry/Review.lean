import K3sm.Registry.SweepRace

/-!
# Review before deletion

The collector deletes in a repository only when the marker in the state directory names it, and a
repository gets into the marker by a sweep that only reports on it.

A layout is an incarnation of its repository from the moment index.json is written until it is
removed.  The marker holds names, not incarnations.
-/

namespace K3sm.Registry.Gc.Review

open K3sm.Core Option

variable {Bytes : Type}

/-- `markerRecord`: the id of the store the marker was written for, and the
repositories reviewed so far. -/
structure MarkerRecord where
  store : String
  reviewed : List String
  deriving DecidableEq

/-- `readReviewed`: a missing marker, one written for another store, or a root
without an id names no repository. -/
def readReviewed (marker : Option MarkerRecord) (id : String) : List String :=
  match marker with
  | none => []
  | some record => if id = "" ∨ record.store ≠ id then [] else record.reviewed

/-- What a push does to a repository directory.  A row write may stop part way. -/
inductive Push (Bytes : Type) where
  | startUpload (session : Session)
  | commit (digest : Digest) (body : Bytes)
  | mount (digest : Digest) (body : Bytes)
  | touch (digest : Digest)
  | write (request : RowRecord.Write) (stop : ℕ)

def Push.apply (env : Env Bytes) (now : Time) (repo : Repo Bytes) : Push Bytes → Repo Bytes
  | .startUpload session =>
    let repo := repo.init env now
    { repo with sessions := repo.sessions ++ [session] }
  | .commit digest body =>
    if env.codec.hashesTo body digest then repo.linkBlob env now digest body else repo
  | .mount digest body => repo.linkBlob env now digest body
  | .touch digest => repo.touch now digest
  | .write request stop => repo.updateIndex env now request stop

def maxPlans : ℕ := 3

/-- Where `sweepRepo` is: before its row check, after it, or with a mark in hand. -/
inductive Stage where
  | planning
  | checked
  | marked (marked : Marked)

/-- A `sweepRepo` call and how many plans it has left. -/
structure Visit where
  name : String
  review : Bool
  plans : ℕ
  stage : Stage

inductive Entry where
  | sweep
  | sweepRepositories
  deriving DecidableEq

/-- A call in progress: the names the marker held when it began, the repositories
still to visit, and what will be written to the marker and taken out of it. -/
structure Sweeping where
  number : ℕ
  entry : Entry
  reviewed : List String
  todo : List String
  next : List String
  removed : List String
  opening : Bool
  visit : Option Visit

/-- One repository's sweep, told by its name, its incarnation and the number of the
call that made it. -/
structure Event where
  name : String
  incarnation : ℕ
  sweep : ℕ
  deriving DecidableEq

/-- The store, the collector and the history: which incarnations a sweep planned
without a brake and only reported on, and in which one it deleted. -/
structure World (Bytes : Type) where
  repos : String → Repo Bytes
  dirs : List String
  incarnation : String → ℕ
  clock : Time
  started : Time
  id : String
  marker : Option MarkerRecord
  sweeping : Option Sweeping
  sweeps : ℕ
  reported : List Event
  deleted : List Event

def World.present (world : World Bytes) (name : String) : Bool :=
  (world.repos name).files.index.isSome

def World.repositories (world : World Bytes) : List String :=
  (world.dirs.filter world.present).insertionSort (· ≤ ·)

/-- The collector's settings with the row records bound to one repository. -/
def named (env : Env Bytes) (name : String) : Env Bytes :=
  { env with records := { env.records with name := name } }

def World.setRepo (world : World Bytes) (name : String) (repo : Repo Bytes) : World Bytes :=
  { world with repos := Function.update world.repos name repo }

/-- Time passes, a push writes, or a collector goes on. -/
inductive Op (Bytes : Type) where
  | tick (later : Time)
  | push (name : String) (request : Push Bytes)
  | restart
  | sweep
  | sweepRepositories (names : List String)
  | reapHalfRemoved (name : String)
  | visit
  | checkRows
  | mark (contents : Contents) (outcome : Digest → ReadOutcome Bytes)
  | sweepLocked (busy : String → Bool) (stop : ℕ)
  | fail
  | cancel
  | finish (fresh : String) (stop : ℕ)

/-- A push, which starts an incarnation when it makes the layout. -/
def World.push (env : Env Bytes) (world : World Bytes) (name : String)
    (request : Push Bytes) : World Bytes :=
  let after := request.apply (named env name) world.clock (world.repos name)
  { world.setRepo name after with
    dirs := world.dirs.insert name
    incarnation :=
      if world.present name = false ∧ after.files.index.isSome then
        Function.update world.incarnation name (world.incarnation name + 1)
      else world.incarnation }

/-- The start of either entry point, over the repositories it will visit.  One call
runs at a time, and none within a grace of the collector's start. -/
def World.begin (env : Env Bytes) (world : World Bytes) (entry : Entry)
    (todo : List String) : Option (World Bytes) :=
  match world.sweeping with
  | some _ => none
  | none =>
    if world.clock < world.started + env.grace then some world
    else some { world with
      sweeps := world.sweeps + 1
      sweeping := some {
        number := world.sweeps + 1
        entry := entry
        reviewed := readReviewed world.marker world.id
        todo := todo
        next := []
        removed := []
        opening := true
        visit := none } }

/-- `reapHalfRemoved`: what is left of a layout without index.json, when nothing but
empty directories is. -/
def World.reapHalfRemoved (world : World Bytes) (name : String) : World Bytes :=
  let repo := world.repos name
  if repo.blobs.isEmpty ∧ repo.temps.isEmpty ∧ repo.sessions.isEmpty ∧ repo.unknown = 0 then
    world.setRepo name
      { repo with files := (RowRecord.reapHalfRemoved repo.files).finish repo.files }
  else world

/-- What both entry points do with what `sweepRepo` returned: `failed` when that was
an error, `reaped` when the layout went. -/
def Sweeping.settle (sweeping : Sweeping) (visit : Visit) (failed reaped : Bool) : Sweeping :=
  match sweeping.entry with
  | .sweep =>
    { sweeping with
      visit := none
      next := if !visit.review || !failed then sweeping.next.insert visit.name
        else sweeping.next }
  | .sweepRepositories =>
    { sweeping with
      visit := none
      removed := if reaped then sweeping.removed.insert visit.name else sweeping.removed }

def World.settle (world : World Bytes) (sweeping : Sweeping) (visit : Visit)
    (failed reaped : Bool) : World Bytes :=
  { world with
    sweeping := some (sweeping.settle visit failed reaped)
    reported := if visit.review ∧ failed = false then
        ⟨visit.name, world.incarnation visit.name, sweeping.number⟩ :: world.reported
      else world.reported }

def World.atStage (world : World Bytes) (sweeping : Sweeping) (visit : Visit) (stage : Stage) :
    World Bytes :=
  { world with sweeping := some { sweeping with visit := some { visit with stage := stage } } }

def planEmpty (plan : Plan) : Bool :=
  plan.rows.isEmpty && plan.blobs.isEmpty && plan.sessions.isEmpty && plan.temps.isEmpty &&
    !plan.emptyRepo

/-- The mark in `sweepRepo`, from what the unlocked listing and reads found while
pushes went on.  A review ends with its brake. -/
def World.mark (env : Env Bytes) (world : World Bytes) (sweeping : Sweeping) (visit : Visit)
    (contents : Contents) (outcome : Digest → ReadOutcome Bytes) : World Bytes :=
  match (world.repos visit.name).files.index with
  | none => world.settle sweeping visit true false
  | some rows =>
    match Gc.mark env rows contents (world.clock - env.grace) outcome with
    | .error _ => world.settle sweeping visit true false
    | .ok marked =>
      if planEmpty marked.plan then world.settle sweeping visit false false
      else if visit.review then
        match brake env world.clock marked.plan rows contents marked.reads with
        | .error _ => world.settle sweeping visit true false
        | .ok _ => world.settle sweeping visit false false
      else world.atStage sweeping visit (.marked marked)

def removes (before after : Repo Bytes) : Bool :=
  before.files.index ≠ after.files.index ||
    before.blobs.map BlobFile.digest ≠ after.blobs.map BlobFile.digest ||
    before.sessions ≠ after.sessions || before.temps ≠ after.temps

/-- The locked pass of `sweepRepo`, its deletes stopped after `stop` of them.  A
stale mark is planned again while plans are left. -/
def World.sweepLocked (env : Env Bytes) (world : World Bytes) (sweeping : Sweeping)
    (visit : Visit) (marked : Marked) (busy : String → Bool) (stop : ℕ) : World Bytes :=
  match Gc.sweepLocked env world.clock marked (world.repos visit.name) with
  | .error .stale =>
    if 1 < visit.plans then
      world.atStage sweeping { visit with plans := visit.plans - 1 } .planning
    else world.settle sweeping visit true false
  | .error _ => world.settle sweeping visit true false
  | .ok (checked, plan) =>
    let script := Gc.apply env world.clock busy plan checked
    let left := script.stopAfter stop checked
    let finished := decide (script.length ≤ stop) && (script.run checked).isSome
    let event : Event := ⟨visit.name, world.incarnation visit.name, sweeping.number⟩
    { (world.setRepo visit.name left).settle sweeping visit (!finished)
        (finished && left.files.index.isNone) with
      deleted := if removes checked left then event :: world.deleted else world.deleted }

def writeReviewed (fresh : String) (reviewed : List String) : Script (World Bytes) :=
  [fun world =>
      if world.id ≠ "" then some world
      else some { world with
        id := fresh
        repos := fun name =>
          let repo := world.repos name
          { repo with files := { repo.files with id := fresh } } },
    fun world => some { world with marker := some ⟨world.id, reviewed⟩ }]

def Sweeping.verdict (sweeping : Sweeping) : Option (List String) :=
  match sweeping.entry with
  | .sweep =>
    if sweeping.next ⊆ sweeping.reviewed ∧ sweeping.reviewed ⊆ sweeping.next then none
    else some sweeping.next
  | .sweepRepositories =>
    if sweeping.removed = [] then none
    else some (sweeping.reviewed.filter (· ∉ sweeping.removed))

/-- The end of a call.  The marker's writes may stop part way, or fail after the
rename. -/
def World.finish (world : World Bytes) (sweeping : Sweeping) (fresh : String) (stop : ℕ) :
    World Bytes :=
  let ended := { world with sweeping := none }
  match sweeping.verdict with
  | none => ended
  | some reviewed => (writeReviewed fresh reviewed).stopAfter stop ended

def World.checkRows (env : Env Bytes) (world : World Bytes) (sweeping : Sweeping)
    (visit : Visit) : World Bytes :=
  match (world.repos visit.name).checkRows env with
  | .error _ => world.settle sweeping visit true false
  | .ok repo => (world.setRepo visit.name repo).atStage sweeping visit .checked

/-- The start of the next `sweepRepo` call. -/
def World.nextVisit (world : World Bytes) (sweeping : Sweeping) : Option (World Bytes) :=
  match sweeping.visit, sweeping.todo with
  | none, name :: todo =>
    some { world with
      sweeping := some { sweeping with
        todo := todo
        opening := false
        visit := some ⟨name, name ∉ sweeping.reviewed, maxPlans, .planning⟩ } }
  | _, _ => none

def World.advance (env : Env Bytes) (world : World Bytes) (sweeping : Sweeping) :
    Op Bytes → Option (World Bytes)
  | .reapHalfRemoved name =>
    if sweeping.opening ∧ sweeping.entry = .sweep ∧ sweeping.reviewed ≠ [] then
      some (world.reapHalfRemoved name)
    else none
  | .visit => world.nextVisit sweeping
  | .checkRows =>
    sweeping.visit.bind fun visit =>
      match visit.stage with
      | .planning => some (world.checkRows (named env visit.name) sweeping visit)
      | _ => none
  | .mark contents outcome =>
    sweeping.visit.bind fun visit =>
      match visit.stage with
      | .checked => some (world.mark (named env visit.name) sweeping visit contents outcome)
      | _ => none
  | .sweepLocked busy stop =>
    sweeping.visit.bind fun visit =>
      match visit.stage with
      | .marked marked =>
        some (world.sweepLocked (named env visit.name) sweeping visit marked busy stop)
      | _ => none
  -- an I/O error, or a cancelled wait for the repository's lock or for a read
  | .fail => sweeping.visit.map fun visit => world.settle sweeping visit true false
  | .cancel =>
    if sweeping.visit.isNone then some { world with sweeping := none } else none
  | .finish fresh stop =>
    if sweeping.visit.isNone ∧ sweeping.todo = [] ∧ fresh ≠ "" then
      some (world.finish sweeping fresh stop)
    else none
  | _ => none

/-- One step; `none` when it cannot be taken now. -/
def step (env : Env Bytes) (world : World Bytes) : Op Bytes → Option (World Bytes)
  | .tick later => if world.clock ≤ later then some { world with clock := later } else none
  | .push name request => some (world.push env name request)
  | .restart => some { world with started := world.clock, sweeping := none }
  | .sweep => world.begin env .sweep world.repositories
  | .sweepRepositories names =>
    world.begin env .sweepRepositories (names.filter (· ∈ world.repositories)).eraseDups
  | op => world.sweeping.bind fun sweeping => world.advance env sweeping op

/-- A store nobody has swept: no marker, no call running. -/
def startWorld (repos : String → Repo Bytes) (dirs : List String) (id : String) (clock : Time) :
    World Bytes where
  repos := repos
  dirs := dirs
  incarnation := fun _ => 0
  clock := clock
  started := clock
  id := id
  marker := none
  sweeping := none
  sweeps := 0
  reported := []
  deleted := []

/-! ## The property and its condition -/

/-- Whatever was deleted, an earlier sweep had planned the same incarnation without a
brake and only reported on it. -/
def ReviewedFirst (world : World Bytes) : Prop :=
  ∀ event ∈ world.deleted, ∃ report ∈ world.reported,
    report.name = event.name ∧ report.incarnation = event.incarnation ∧ report.sweep < event.sweep

/-- A push that makes a layout makes it under a name the marker does not hold. -/
def layoutUnmarked (env : Env Bytes) (world : World Bytes) : Op Bytes → Prop
  | .push name request =>
    world.present name = false →
    (request.apply (named env name) world.clock (world.repos name)).files.index.isSome →
    name ∉ readReviewed world.marker world.id
  | _ => True

instance (env : Env Bytes) (world : World Bytes) (op : Op Bytes) :
    Decidable (layoutUnmarked env world op) :=
  match op with
  | .push _ _ => inferInstanceAs (Decidable (_ → _ → _))
  | .tick _ | .restart | .sweep | .sweepRepositories _ | .reapHalfRemoved _ | .visit | .checkRows
  | .mark _ _ | .sweepLocked _ _ | .fail | .cancel | .finish _ _ => isTrue trivial

section Index

variable {env : Env Bytes} {now : Time} {repo left : Repo Bytes}

theorem init_index_isSome (hindex : repo.files.index.isSome) :
    (repo.init env now).files.index.isSome := by
  obtain ⟨rows, hrows⟩ := isSome_iff_exists.1 hindex
  have hnothing : RowRecord.initLocked env.records repo.files = [] := by
    simp [RowRecord.initLocked, hrows]
  simpa [Repo.init, hnothing, Script.finish] using hindex

theorem linkBlob_index (digest : Digest) (body : Bytes) :
    (repo.linkBlob env now digest body).files = (repo.init env now).files := by
  unfold Repo.linkBlob
  dsimp only
  split
  · split <;> rfl
  · rfl

theorem updateIndex_index_isSome {request : RowRecord.Write} {stop : ℕ}
    (hindex : repo.files.index.isSome) :
    (repo.updateIndex env now request stop).files.index.isSome := by
  have hfiles : (repo.updateIndex env now request stop).files ∈
      (RowRecord.updateIndex env.records repo.files request).stops repo.files :=
    Script.mem_stops_lift (files_setFiles now) ⟨stop, rfl⟩
  rcases RowRecord.updateIndex_stops_cases hfiles with hsame | ⟨rows, changed, -, -, hnew⟩
  · rw [hsame]
    exact hindex
  · rw [hnew]
    rfl

theorem push_index_isSome (request : Push Bytes) (hindex : repo.files.index.isSome) :
    (request.apply env now repo).files.index.isSome := by
  cases request with
  | startUpload session =>
    change (repo.init env now).files.index.isSome
    exact init_index_isSome hindex
  | commit digest body =>
    simp only [Push.apply]
    split
    · rw [linkBlob_index]
      exact init_index_isSome hindex
    · exact hindex
  | mount digest body =>
    simp only [Push.apply, linkBlob_index]
    exact init_index_isSome hindex
  | touch digest => exact hindex
  | write request stop => exact updateIndex_index_isSome hindex

theorem checkRows_index (hcheck : repo.checkRows env = .ok left) :
    left.files.index = repo.files.index := by
  unfold Repo.checkRows RowRecord.checkRows at hcheck
  cases hindex : repo.files.index with
  | none => simp [hindex] at hcheck
  | some rows =>
    simp only [hindex] at hcheck
    split at hcheck
    · cases hcheck
    · cases hcheck
    rename_i script hscript
    cases hcheck
    split at hscript
    · cases hscript
      exact hindex
    · split_ifs at hscript
      · cases hscript
        exact hindex

theorem sweepLocked_index {marked : Marked} {plan : Plan}
    (hlocked : Gc.sweepLocked env now marked repo = .ok (left, plan)) :
    repo.files.index.isSome := by
  cases hindex : repo.files.index with
  | some rows => rfl
  | none =>
    simp [Gc.sweepLocked, lockedPlan, hindex] at hlocked
    cases hlocked

end Index

section Invariant

variable {env : Env Bytes} {world after : World Bytes} {sweeping : Sweeping} {visit : Visit}

def ReportedBefore (world : World Bytes) (name : String) (bound : ℕ) : Prop :=
  ∃ report ∈ world.reported, report.name = name ∧
    report.incarnation = world.incarnation name ∧ report.sweep < bound

def World.due (world : World Bytes) : ℕ :=
  match world.sweeping with
  | none => world.sweeps + 1
  | some sweeping => sweeping.number

/-- A visit that is not a review is of a repository the marker names, and only such a
visit gets as far as the lock. -/
def Visit.Allowed (visit : Visit) (reviewed : List String) : Prop :=
  (visit.review = false → visit.name ∈ reviewed) ∧
    ∀ marked, visit.stage = .marked marked → visit.review = false

/-- What the call in progress knows.  A name it will add to the marker is there, and
nothing deletes in it before the marker is written. -/
structure SweepingInv (world : World Bytes) (sweeping : Sweeping) : Prop where
  number : sweeping.number = world.sweeps
  reviewed : sweeping.reviewed = readReviewed world.marker world.id
  next : ∀ name ∈ sweeping.next, name ∈ sweeping.reviewed ∨
    world.present name ∧ ReportedBefore world name (sweeping.number + 1)
  visit : ∀ visit, sweeping.visit = some visit → visit.Allowed sweeping.reviewed

/-- The invariant of the review before a first sweep. -/
structure ReviewInv (world : World Bytes) : Prop where
  bound : ∀ record, world.marker = some record → record.store = world.id ∧ world.id ≠ ""
  marked : ∀ name ∈ readReviewed world.marker world.id, world.present name →
    ReportedBefore world name world.due
  running : ∀ sweeping, world.sweeping = some sweeping → SweepingInv world sweeping
  first : ReviewedFirst world

variable {failed reaped : Bool} {reviewed : List String} {request : Push Bytes}
  {name other : String}

theorem ReportedBefore.mono {lower upper : ℕ} (hreported : ReportedBefore world name lower)
    (hle : lower ≤ upper) : ReportedBefore world name upper := by
  obtain ⟨report, hmem, hname, hincarnation, hlt⟩ := hreported
  exact ⟨report, hmem, hname, hincarnation, lt_of_lt_of_le hlt hle⟩

theorem ReportedBefore.step {name : String} {bound : ℕ}
    (hreported : ReportedBefore world name bound) (hsubset : world.reported ⊆ after.reported)
    (hincarnation : after.incarnation name = world.incarnation name) :
    ReportedBefore after name bound := by
  obtain ⟨report, hmem, hname, hsame, hlt⟩ := hreported
  exact ⟨report, hsubset hmem, hname, hsame.trans hincarnation.symm, hlt⟩

theorem ReviewedFirst.mono (hfirst : ReviewedFirst world)
    (hreported : world.reported ⊆ after.reported) (hdeleted : after.deleted = world.deleted) :
    ReviewedFirst after := by
  intro event hevent
  rw [hdeleted] at hevent
  obtain ⟨report, hmem, hreport⟩ := hfirst event hevent
  exact ⟨report, hreported hmem, hreport⟩

theorem due_of_sweeping (hsweeping : world.sweeping = some sweeping) :
    world.due = sweeping.number := by
  simp [World.due, hsweeping]

structure Frame (world after : World Bytes) : Prop where
  marker : after.marker = world.marker
  id : after.id = world.id
  incarnation : after.incarnation = world.incarnation
  sweeps : after.sweeps = world.sweeps
  reported : world.reported ⊆ after.reported

/-- The rule for the steps of a running call: the layouts that go are of reviewed
repositories, and the call's own record stays true. -/
theorem ReviewInv.advance {next : Sweeping} (hinv : ReviewInv world)
    (hsweeping : world.sweeping = some sweeping) (hframe : Frame world after)
    (hnext : after.sweeping = some next) (hnumber : next.number = sweeping.number)
    (hreviewed : next.reviewed = sweeping.reviewed)
    (hpresent : ∀ name, after.present name → world.present name)
    (hkept : ∀ name ∉ sweeping.reviewed, world.present name → after.present name)
    (hadded : ∀ name ∈ next.next, name ∈ sweeping.next ∨ name ∈ sweeping.reviewed ∨
      after.present name ∧ ReportedBefore after name (sweeping.number + 1))
    (hvisit : ∀ visit, next.visit = some visit → visit.Allowed sweeping.reviewed)
    (hfirst : ReviewedFirst after) : ReviewInv after := by
  have hrunning := hinv.running sweeping hsweeping
  refine ⟨?_, ?_, ?_, hfirst⟩
  · rw [hframe.marker, hframe.id]
    exact hinv.bound
  · intro name hname hthere
    rw [hframe.marker, hframe.id] at hname
    rw [due_of_sweeping hnext, hnumber, ← due_of_sweeping hsweeping]
    exact (hinv.marked name hname (hpresent name hthere)).step hframe.reported
      (congrFun hframe.incarnation name)
  intro other hother
  rw [hnext] at hother
  cases hother
  refine ⟨?_, ?_, ?_, ?_⟩
  · rw [hnumber, hframe.sweeps]
    exact hrunning.number
  · rw [hreviewed, hframe.marker, hframe.id]
    exact hrunning.reviewed
  · intro name hname
    rw [hreviewed, hnumber]
    rcases hadded name hname with hold | hnew
    · rcases hrunning.next name hold with hmarked | ⟨hthere, hreported⟩
      · exact .inl hmarked
      by_cases hmarked : name ∈ sweeping.reviewed
      · exact .inl hmarked
      · exact .inr ⟨hkept name hmarked hthere,
          hreported.step hframe.reported (congrFun hframe.incarnation name)⟩
    · exact hnew
  · rw [hreviewed]
    exact hvisit

@[simp]
theorem setRepo_self (world : World Bytes) (name : String) :
    world.setRepo name (world.repos name) = world := by
  simp [World.setRepo]

theorem present_setRepo (world : World Bytes) (name other : String) (repo : Repo Bytes) :
    (world.setRepo name repo).present other =
      if other = name then repo.files.index.isSome else world.present other := by
  by_cases hsame : other = name
  · subst hsame
    simp [World.present, World.setRepo]
  · simp [World.present, World.setRepo, hsame]

theorem mem_settle_next (hname : name ∈ (sweeping.settle visit failed reaped).next) :
    name ∈ sweeping.next ∨ name = visit.name ∧ (visit.review = false ∨ failed = false) := by
  unfold Sweeping.settle at hname
  split at hname
  · dsimp only at hname
    split at hname
    case isFalse => exact .inl hname
    rename_i hadds
    rcases List.mem_insert_iff.1 hname with hsame | hold
    · exact .inr ⟨hsame, by simpa using hadds⟩
    · exact .inl hold
  · exact .inl hname

@[simp]
theorem settle_number (sweeping : Sweeping) (visit : Visit) (failed reaped : Bool) :
    (sweeping.settle visit failed reaped).number = sweeping.number := by
  unfold Sweeping.settle
  split <;> rfl

@[simp]
theorem settle_reviewed (sweeping : Sweeping) (visit : Visit) (failed reaped : Bool) :
    (sweeping.settle visit failed reaped).reviewed = sweeping.reviewed := by
  unfold Sweeping.settle
  split <;> rfl

@[simp]
theorem settle_visit (sweeping : Sweeping) (visit : Visit) (failed reaped : Bool) :
    (sweeping.settle visit failed reaped).visit = none := by
  unfold Sweeping.settle
  split <;> rfl

def World.leave (world : World Bytes) (sweeping : Sweeping) (visit : Visit)
    (failed reaped : Bool) (repo : Repo Bytes) (deleted : List Event) : World Bytes :=
  { (world.setRepo visit.name repo).settle sweeping visit failed reaped with deleted := deleted }

theorem settle_eq_leave (failed reaped : Bool) :
    world.settle sweeping visit failed reaped =
      world.leave sweeping visit failed reaped (world.repos visit.name) world.deleted := by
  simp [World.leave, World.settle]

theorem reported_leave {repo : Repo Bytes} {deleted : List Event} :
    world.reported ⊆ (world.leave sweeping visit failed reaped repo deleted).reported := by
  simp only [World.leave, World.settle, World.setRepo]
  split
  · exact List.subset_cons_self _ _
  · exact List.Subset.refl _

theorem ReviewInv.leave {repo : Repo Bytes} {deleted : List Event} (hinv : ReviewInv world)
    (hsweeping : world.sweeping = some sweeping) (hvisit : sweeping.visit = some visit)
    (hback : repo.files.index.isSome → world.present visit.name)
    (hkept : visit.name ∉ sweeping.reviewed → world.present visit.name → repo.files.index.isSome)
    (hreview : visit.review = true → failed = false → repo.files.index.isSome)
    (hfirst : ReviewedFirst (world.leave sweeping visit failed reaped repo deleted)) :
    ReviewInv (world.leave sweeping visit failed reaped repo deleted) := by
  have hallowed := (hinv.running sweeping hsweeping).visit visit hvisit
  have hpresent : ∀ name, (world.leave sweeping visit failed reaped repo deleted).present name =
      if name = visit.name then repo.files.index.isSome else world.present name :=
    fun name => present_setRepo world visit.name name repo
  refine hinv.advance hsweeping ⟨rfl, rfl, rfl, rfl, reported_leave⟩ rfl (by simp) (by simp)
    ?_ ?_ ?_ (by simp) hfirst
  · intro name hthere
    rw [hpresent] at hthere
    split at hthere
    case isTrue hsame => exact hsame ▸ hback hthere
    case isFalse => exact hthere
  · intro name hname hthere
    rw [hpresent]
    split
    case isFalse => exact hthere
    rename_i hsame
    subst hsame
    exact hkept hname hthere
  intro name hname
  rcases mem_settle_next hname with hold | ⟨rfl, hwhy⟩
  · exact .inl hold
  right
  cases hreviewing : visit.review with
  | false => exact .inl (hallowed.1 hreviewing)
  | true =>
    have hfailed : failed = false := by simpa [hreviewing] using hwhy
    right
    refine ⟨?_, ?_⟩
    · rw [hpresent, if_pos rfl]
      exact hreview hreviewing hfailed
    · refine ⟨⟨visit.name, world.incarnation visit.name, sweeping.number⟩, ?_, rfl, rfl,
        Nat.lt_succ_self _⟩
      simp [World.leave, World.settle, World.setRepo, hreviewing, hfailed]

theorem ReviewInv.settle (hinv : ReviewInv world) (hsweeping : world.sweeping = some sweeping)
    (hvisit : sweeping.visit = some visit) (hreview : failed = false → world.present visit.name) :
    ReviewInv (world.settle sweeping visit failed reaped) := by
  rw [settle_eq_leave]
  refine hinv.leave hsweeping hvisit (fun hthere => hthere) (fun _ hthere => hthere)
    (fun _ hfailed => hreview hfailed) ?_
  exact hinv.first.mono reported_leave rfl

theorem ReviewInv.atStage {repo : Repo Bytes} (hinv : ReviewInv world) (plans : ℕ) (stage : Stage)
    (hsweeping : world.sweeping = some sweeping) (hvisit : sweeping.visit = some visit)
    (hindex : repo.files.index = (world.repos visit.name).files.index)
    (hstage : ∀ marked, stage = .marked marked → visit.review = false) :
    ReviewInv ((world.setRepo visit.name repo).atStage sweeping { visit with plans := plans }
      stage) := by
  have hallowed := (hinv.running sweeping hsweeping).visit visit hvisit
  have hpresent : ∀ name, (world.setRepo visit.name repo).present name = world.present name := by
    intro name
    rw [present_setRepo]
    split
    case isTrue hsame => rw [hsame, hindex, World.present]
    case isFalse => rfl
  refine hinv.advance hsweeping ⟨rfl, rfl, rfl, rfl, List.Subset.refl _⟩ rfl rfl rfl
    (fun name hthere => hpresent name ▸ hthere)
    (fun name _ hthere => (hpresent name).symm ▸ hthere) (fun name hname => .inl hname) ?_
    (hinv.first.mono (List.Subset.refl _) rfl)
  rintro next ⟨rfl⟩
  exact ⟨hallowed.1, hstage⟩

theorem ReviewInv.checkRows (hinv : ReviewInv world) (hsweeping : world.sweeping = some sweeping)
    (hvisit : sweeping.visit = some visit) : ReviewInv (world.checkRows env sweeping visit) := by
  unfold World.checkRows
  split
  case h_1 => exact hinv.settle hsweeping hvisit (by simp)
  case h_2 repo hcheck =>
    exact hinv.atStage visit.plans .checked hsweeping hvisit (checkRows_index hcheck) (by simp)

theorem ReviewInv.mark {contents : Contents} {outcome : Digest → ReadOutcome Bytes}
    (hinv : ReviewInv world) (hsweeping : world.sweeping = some sweeping)
    (hvisit : sweeping.visit = some visit) :
    ReviewInv (world.mark env sweeping visit contents outcome) := by
  unfold World.mark
  split
  case h_1 => exact hinv.settle hsweeping hvisit (by simp)
  rename_i rows hrows
  have hthere : world.present visit.name := by simp [World.present, hrows]
  split
  case h_1 => exact hinv.settle hsweeping hvisit (by simp)
  rename_i marked hmarked
  split
  case isTrue => exact hinv.settle hsweeping hvisit fun _ => hthere
  split
  case isTrue =>
    split
    case h_1 => exact hinv.settle hsweeping hvisit (by simp)
    case h_2 => exact hinv.settle hsweeping hvisit fun _ => hthere
  case isFalse hreview =>
    have hstage := hinv.atStage visit.plans (.marked marked) hsweeping hvisit rfl
      fun _ _ => by simpa using hreview
    rwa [setRepo_self] at hstage

/-- The deletes fall in an incarnation the marker names, so in one that was reported
on before this call began. -/
theorem ReviewInv.sweepLocked {marked : Marked} {busy : String → Bool} {stop : ℕ}
    (hinv : ReviewInv world) (hsweeping : world.sweeping = some sweeping)
    (hvisit : sweeping.visit = some visit) (hstage : visit.stage = .marked marked) :
    ReviewInv (world.sweepLocked env sweeping visit marked busy stop) := by
  have hrunning := hinv.running sweeping hsweeping
  have hallowed := hrunning.visit visit hvisit
  have hreview := hallowed.2 marked hstage
  have hmarked := hallowed.1 hreview
  unfold World.sweepLocked
  split
  case h_1 =>
    split
    case isFalse => exact hinv.settle hsweeping hvisit (by simp)
    have hagain := hinv.atStage (visit.plans - 1) .planning hsweeping hvisit rfl (by simp)
    rwa [setRepo_self] at hagain
  case h_2 => exact hinv.settle hsweeping hvisit (by simp)
  rename_i checked plan hlocked
  have hthere : world.present visit.name := sweepLocked_index hlocked
  have hreported : ReportedBefore world visit.name sweeping.number := by
    rw [← due_of_sweeping hsweeping]
    exact hinv.marked visit.name (hrunning.reviewed ▸ hmarked) hthere
  apply hinv.leave hsweeping hvisit (fun _ => hthere) (fun hname => absurd hmarked hname)
  · intro htrue
    rw [hreview] at htrue
    cases htrue
  intro event hevent
  have hcases : event = ⟨visit.name, world.incarnation visit.name, sweeping.number⟩ ∨
      event ∈ world.deleted := by
    dsimp only [World.leave] at hevent
    split at hevent
    · exact List.mem_cons.1 hevent
    · exact .inr hevent
  rcases hcases with rfl | hold
  · obtain ⟨report, hmem, hreport⟩ := hreported
    exact ⟨report, reported_leave hmem, hreport⟩
  · obtain ⟨report, hmem, hreport⟩ := hinv.first event hold
    exact ⟨report, reported_leave hmem, hreport⟩

theorem ReviewInv.nextVisit (hinv : ReviewInv world) (hsweeping : world.sweeping = some sweeping)
    (hnext : world.nextVisit sweeping = some after) : ReviewInv after := by
  unfold World.nextVisit at hnext
  split at hnext
  case h_2 => cases hnext
  rename_i name todo hvisit htodo
  cases hnext
  refine hinv.advance hsweeping ⟨rfl, rfl, rfl, rfl, List.Subset.refl _⟩ rfl rfl rfl
    (fun _ hthere => hthere) (fun _ _ hthere => hthere) (fun _ hname => .inl hname) ?_
    hinv.first
  rintro visit ⟨rfl⟩
  exact ⟨by simp, by simp⟩

theorem reapHalfRemoved_index (files : RowRecord.Files) :
    ((RowRecord.reapHalfRemoved files).finish files).index = files.index := by
  unfold RowRecord.reapHalfRemoved
  split
  · rfl
  · rfl

theorem ReviewInv.reapHalfRemoved (hinv : ReviewInv world)
    (hsweeping : world.sweeping = some sweeping) (name : String) :
    ReviewInv (world.reapHalfRemoved name) := by
  unfold World.reapHalfRemoved
  dsimp only
  split
  case isFalse => exact hinv
  have hpresent : ∀ other, (world.setRepo name
      { world.repos name with
        files := (RowRecord.reapHalfRemoved (world.repos name).files).finish
          (world.repos name).files }).present other = world.present other := by
    intro other
    rw [present_setRepo]
    split
    case isTrue hsame => rw [hsame, World.present, reapHalfRemoved_index]
    case isFalse => rfl
  exact hinv.advance hsweeping ⟨rfl, rfl, rfl, rfl, List.Subset.refl _⟩ hsweeping rfl rfl
    (fun other hthere => hpresent other ▸ hthere)
    (fun other _ hthere => (hpresent other).symm ▸ hthere) (fun _ hname => .inl hname)
    (hinv.running sweeping hsweeping).visit (hinv.first.mono (List.Subset.refl _) rfl)

theorem ReviewInv.abandon (hinv : ReviewInv world) (started : Time) :
    ReviewInv { world with started := started, sweeping := none } := by
  refine ⟨hinv.bound, ?_, by simp, hinv.first⟩
  intro name hname hthere
  refine (hinv.marked name hname hthere).mono ?_
  cases hsweeping : world.sweeping with
  | none => simp [World.due, hsweeping]
  | some sweeping =>
    rw [due_of_sweeping hsweeping, (hinv.running sweeping hsweeping).number]
    exact Nat.le_succ _

theorem ReviewInv.setMarker (hinv : ReviewInv world) (hidle : world.sweeping = none)
    (hid : world.id ≠ "") (hreviewed : ∀ name ∈ reviewed, world.present name →
      ReportedBefore world name (world.sweeps + 1)) :
    ReviewInv { world with marker := some ⟨world.id, reviewed⟩ } := by
  refine ⟨?_, ?_, ?_, hinv.first⟩
  · rintro record ⟨rfl⟩
    exact ⟨rfl, hid⟩
  · intro name hname hthere
    have hdue : World.due { world with marker := some ⟨world.id, reviewed⟩ } =
        world.sweeps + 1 := by
      simp [World.due, hidle]
    rw [hdue]
    apply hreviewed name _ hthere
    simpa [readReviewed, hid] using hname
  · intro sweeping hsweeping
    rw [hidle] at hsweeping
    cases hsweeping

theorem ReviewInv.mint (hinv : ReviewInv world) (fresh : String) (hid : world.id = "")
    (hidle : world.sweeping = none) :
    ReviewInv { world with
      id := fresh
      repos := fun name =>
        let repo := world.repos name
        { repo with files := { repo.files with id := fresh } } } := by
  have hnone : world.marker = none := by
    cases hmarker : world.marker with
    | none => rfl
    | some record => exact absurd hid (hinv.bound record hmarker).2
  refine ⟨?_, ?_, ?_, hinv.first⟩
  · intro record hrecord
    rw [hnone] at hrecord
    cases hrecord
  · intro name hname
    simp [readReviewed, hnone] at hname
  · intro sweeping hsweeping
    rw [hidle] at hsweeping
    cases hsweeping

theorem ReviewInv.writeReviewed {fresh : String} (hinv : ReviewInv world)
    (hidle : world.sweeping = none) (hfresh : fresh ≠ "")
    (hreviewed : ∀ name ∈ reviewed, world.present name →
      ReportedBefore world name (world.sweeps + 1))
    (hleft : after ∈ (writeReviewed fresh reviewed).stops world) : ReviewInv after := by
  rcases Script.mem_stops_cons.1 hleft with rfl | ⟨ensured, hensured, hrest⟩
  · exact hinv
  by_cases hid : world.id = ""
  · rw [if_neg (by simpa using hid)] at hensured
    cases hensured
    have hminted := hinv.mint fresh hid hidle
    rcases Script.mem_stops_cons.1 hrest with rfl | ⟨last, ⟨rfl⟩, hlast⟩
    · exact hminted
    · rw [Script.mem_stops_nil.1 hlast]
      exact hminted.setMarker hidle hfresh hreviewed
  · rw [if_pos hid] at hensured
    cases hensured
    rcases Script.mem_stops_cons.1 hrest with rfl | ⟨last, ⟨rfl⟩, hlast⟩
    · exact hinv
    · rw [Script.mem_stops_nil.1 hlast]
      exact hinv.setMarker hidle hid hreviewed

theorem mem_verdict {sweeping : Sweeping} (hverdict : sweeping.verdict = some reviewed)
    (hname : name ∈ reviewed) : name ∈ sweeping.next ∨ name ∈ sweeping.reviewed := by
  unfold Sweeping.verdict at hverdict
  split at hverdict
  · split_ifs at hverdict
    · cases hverdict
      exact .inl hname
  · split_ifs at hverdict
    · cases hverdict
      exact .inr (List.mem_of_mem_filter hname)

theorem ReviewInv.finish {fresh : String} {stop : ℕ} (hinv : ReviewInv world)
    (hsweeping : world.sweeping = some sweeping) (hfresh : fresh ≠ "") :
    ReviewInv (world.finish sweeping fresh stop) := by
  have hrunning := hinv.running sweeping hsweeping
  have hended := hinv.abandon world.started
  unfold World.finish
  cases hverdict : sweeping.verdict with
  | none => exact hended
  | some reviewed =>
    have hreviewed : ∀ name ∈ reviewed, world.present name →
        ReportedBefore world name (world.sweeps + 1) := by
      intro name hname hthere
      have hmarked : name ∈ sweeping.reviewed → ReportedBefore world name (world.sweeps + 1) := by
        intro hmem
        have hreported := hinv.marked name (hrunning.reviewed ▸ hmem) hthere
        rw [due_of_sweeping hsweeping, hrunning.number] at hreported
        exact hreported.mono (Nat.le_succ _)
      rcases mem_verdict hverdict hname with hnext | hmem
      · rcases hrunning.next name hnext with hmem | ⟨-, hreported⟩
        · exact hmarked hmem
        · rwa [hrunning.number] at hreported
      · exact hmarked hmem
    exact hended.writeReviewed rfl hfresh hreviewed ⟨stop, rfl⟩

theorem ReviewInv.begin {entry : Entry} {todo : List String} (hinv : ReviewInv world)
    (hbegin : world.begin env entry todo = some after) : ReviewInv after := by
  unfold World.begin at hbegin
  split at hbegin
  · cases hbegin
  rename_i hidle
  split at hbegin
  · cases hbegin
    exact hinv
  cases hbegin
  have hdue : world.due = world.sweeps + 1 := by simp [World.due, hidle]
  refine ⟨hinv.bound, ?_, ?_, hinv.first⟩
  · intro name hname hthere
    have hreported := hinv.marked name hname hthere
    rwa [hdue] at hreported
  · rintro sweeping ⟨rfl⟩
    exact ⟨rfl, rfl, by simp, by simp⟩

theorem incarnation_push (hthere : world.present other) :
    (world.push env name request).incarnation other = world.incarnation other := by
  simp only [World.push]
  split
  case isFalse => rfl
  rename_i hmakes
  have hother : other ≠ name := by
    rintro rfl
    rw [hmakes.1] at hthere
    cases hthere
  exact Function.update_of_ne hother _ _

theorem present_push (hthere : world.present other) :
    (world.push env name request).present other := by
  have hpresent := present_setRepo world name other
    (request.apply (named env name) world.clock (world.repos name))
  change (world.setRepo name _).present other
  rw [hpresent]
  split
  case isFalse => exact hthere
  rename_i hsame
  subst hsame
  exact push_index_isSome request hthere

theorem present_of_present_push (hmarked : other ∈ readReviewed world.marker world.id)
    (hunmarked : layoutUnmarked env world (.push name request))
    (hthere : (world.push env name request).present other) : world.present other := by
  change (world.setRepo name _).present other at hthere
  rw [present_setRepo] at hthere
  split at hthere
  case isFalse => exact hthere
  rename_i hsame
  subst hsame
  cases habsent : world.present other with
  | true => rfl
  | false => exact absurd hmarked (hunmarked habsent hthere)

theorem ReviewInv.push (hinv : ReviewInv world)
    (hunmarked : layoutUnmarked env world (.push name request)) :
    ReviewInv (world.push env name request) := by
  refine ⟨hinv.bound, ?_, ?_, hinv.first⟩
  · intro other hother hthere
    have hmarked : other ∈ readReviewed world.marker world.id := hother
    have hbefore := present_of_present_push hmarked hunmarked hthere
    exact (hinv.marked other hmarked hbefore).step (List.Subset.refl _) (incarnation_push hbefore)
  intro sweeping hsweeping
  have hrunning := hinv.running sweeping hsweeping
  refine ⟨hrunning.number, hrunning.reviewed, ?_, hrunning.visit⟩
  intro other hother
  rcases hrunning.next other hother with hmarked | ⟨hthere, hreported⟩
  · exact .inl hmarked
  · exact .inr ⟨present_push hthere,
      hreported.step (List.Subset.refl _) (incarnation_push hthere)⟩

theorem ReviewInv.step {op : Op Bytes} (hinv : ReviewInv world)
    (hunmarked : layoutUnmarked env world op) (hstep : step env world op = some after) :
    ReviewInv after := by
  have hadvance : (world.sweeping.bind fun sweeping => world.advance env sweeping op) =
      some after → ReviewInv after := by
    intro hbind
    obtain ⟨sweeping, hsweeping, hnext⟩ := bind_eq_some_iff.1 hbind
    cases op with
    | reapHalfRemoved name =>
      simp only [World.advance] at hnext
      split at hnext <;> cases hnext
      exact hinv.reapHalfRemoved hsweeping name
    | visit => exact hinv.nextVisit hsweeping hnext
    | checkRows =>
      obtain ⟨visit, hvisit, hnext⟩ := bind_eq_some_iff.1 hnext
      split at hnext <;> cases hnext
      exact hinv.checkRows hsweeping hvisit
    | mark contents outcome =>
      obtain ⟨visit, hvisit, hnext⟩ := bind_eq_some_iff.1 hnext
      split at hnext <;> cases hnext
      exact hinv.mark hsweeping hvisit
    | sweepLocked busy stop =>
      obtain ⟨visit, hvisit, hnext⟩ := bind_eq_some_iff.1 hnext
      split at hnext <;> cases hnext
      exact hinv.sweepLocked hsweeping hvisit ‹_›
    | fail =>
      obtain ⟨visit, hvisit, hnext⟩ := map_eq_some_iff.1 hnext
      cases hnext
      exact hinv.settle hsweeping hvisit (by simp)
    | cancel =>
      simp only [World.advance] at hnext
      split at hnext <;> cases hnext
      exact hinv.abandon world.started
    | finish fresh stop =>
      simp only [World.advance] at hnext
      split at hnext <;> cases hnext
      exact hinv.finish hsweeping (by tauto)
    | _ => cases hnext
  cases op with
  | tick later =>
    simp only [Review.step] at hstep
    split at hstep <;> cases hstep
    exact ⟨hinv.bound, hinv.marked, fun sweeping hsweeping =>
      let hrunning := hinv.running sweeping hsweeping
      ⟨hrunning.number, hrunning.reviewed, hrunning.next, hrunning.visit⟩, hinv.first⟩
  | push name request =>
    cases hstep
    exact hinv.push hunmarked
  | restart =>
    cases hstep
    exact hinv.abandon world.clock
  | sweep | sweepRepositories names => exact hinv.begin hstep
  | _ => exact hadvance hstep

end Invariant

theorem start_inv (repos : String → Repo Bytes) (dirs : List String) (id : String) (clock : Time) :
    ReviewInv (startWorld repos dirs id clock) where
  bound := by simp [startWorld]
  marked := by simp [startWorld, readReviewed]
  running := by simp [startWorld]
  first := by simp [ReviewedFirst, startWorld]

/-- Where pushes make a layout only under a name the marker does not hold, whatever is
deleted was planned before, in the same incarnation, by a sweep that only reported. -/
theorem reviewed_first_of_run {env : Env Bytes} (repos : String → Repo Bytes)
    (dirs : List String) (id : String) (clock : Time) {ops : List (Op Bytes)} {world : World Bytes}
    (hrun : Run (guardedStep (layoutUnmarked env) fun before op after =>
      step env before op = some after) (startWorld repos dirs id clock) ops world) :
    ReviewedFirst world := by
  have hinv : ReviewInv world :=
    hrun.invariant (start_inv repos dirs id clock)
      fun before op after hbefore hstep => hbefore.step hstep.1 hstep.2
  exact hinv.first

/-! ## A name that comes back -/

/-- A listing of the repository while its one blob is there. -/
def strayContents (modTime : Time) : Contents where
  blobs := [⟨.sha256 3, 1, modTime⟩]
  temps := []
  sessions := []
  unknown := 0
  indexModTime := modTime
  blobs_nodup := by simp
  blobs_parse := by simp [parseDigest]

/-- One `Sweep` over the one repository, with deletes when the marker names it. -/
def reportOps (modTime : Time) : List (Op ℕ) :=
  [.sweep, .visit, .checkRows, .mark (strayContents modTime) fun _ => .missing, .finish "id" 2]

def reapOps (modTime : Time) : List (Op ℕ) :=
  [.sweep, .visit, .checkRows, .mark (strayContents modTime) fun _ => .missing,
    .sweepLocked (fun _ => false) 10, .finish "id" 2]

def demoStart : World ℕ := startWorld (fun _ => emptyRepo) [] "" 0

/-- An upload nobody finishes is reported on and then reaped, its layout with it. -/
def reviewedOps : List (Op ℕ) :=
  .push "app" (.commit (.sha256 3) 3) :: .tick 100 :: reportOps 0 ++ reapOps 0

/-- The same name is pushed to again before the next sweep. -/
def comebackOps : List (Op ℕ) :=
  reviewedOps ++ .push "app" (.commit (.sha256 3) 3) :: .tick 200 :: reapOps 100

theorem demo_reviewed_first : ∃ world : World ℕ,
    world.reported = [⟨"app", 1, 1⟩] ∧ world.deleted = [⟨"app", 1, 2⟩] ∧ ReviewedFirst world := by
  have hends : (reviewedOps.foldlM (fun world op =>
      if layoutUnmarked demoSweepEnv world op then step demoSweepEnv world op else none)
      demoStart).map (fun world => (world.reported, world.deleted)) =
        some ([⟨"app", 1, 1⟩], [⟨"app", 1, 2⟩]) := by
    rfl
  obtain ⟨world, hfold, hhistory⟩ := map_eq_some_iff.1 hends
  simp only [Prod.mk.injEq] at hhistory
  exact ⟨world, hhistory.1, hhistory.2,
    reviewed_first_of_run (fun _ => emptyRepo) [] "" 0 (guarded_run_of_foldlM hfold)⟩

/-- The second incarnation of the name is swept though nobody has reported on it. -/
theorem comeback_reaped_unreviewed : ∃ world,
    Run (fun before op after => step demoSweepEnv before op = some after) demoStart comebackOps
      world ∧ world.present "app" = false ∧ ¬ ReviewedFirst world := by
  have hends : (comebackOps.foldlM (step demoSweepEnv) demoStart).map
      (fun world => (world.present "app", world.reported, world.deleted)) =
        some (false, [⟨"app", 1, 1⟩], [⟨"app", 2, 3⟩, ⟨"app", 1, 2⟩]) := by
    rfl
  obtain ⟨world, hfold, hhistory⟩ := map_eq_some_iff.1 hends
  simp only [Prod.mk.injEq] at hhistory
  refine ⟨world, run_of_foldlM hfold, hhistory.1, ?_⟩
  intro hfirst
  obtain ⟨report, hreport, -, hincarnation, -⟩ := hfirst ⟨"app", 2, 3⟩ (by simp [hhistory])
  rw [hhistory.2.1, List.mem_singleton] at hreport
  rw [hreport] at hincarnation
  cases hincarnation

end K3sm.Registry.Gc.Review
