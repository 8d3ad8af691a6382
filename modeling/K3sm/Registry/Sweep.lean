import K3sm.Registry.Plan
import K3sm.Registry.RowRecord

/-!
# One repository's sweep

A sweep marks a repository without its lock: it lists the directory, reads the manifest bodies its
plan follows and remembers what it found.  The locked pass lists the directory again, plans from
the remembered bodies, and hands what both plans would reap, as far as the half brake lets it, to
`apply`.
-/

namespace K3sm.Registry.Gc

open K3sm.Core Option

variable {Bytes : Type}

structure BlobFile (Bytes : Type) where
  digest : Digest
  body : Bytes
  modTime : Time

/-- A repository's files, with the times the collector reads. -/
structure Repo (Bytes : Type) where
  files : RowRecord.Files
  indexModTime : Time
  blobs : List (BlobFile Bytes)
  temps : List Temp
  sessions : List Session
  unknown : ℕ
  blobs_nodup : (blobs.map BlobFile.digest).Nodup
  blobs_parse : ∀ blob ∈ blobs, parseDigest blob.digest = some blob.digest

/-- What a collector is set up with: the codec, the retention classes, the
grace, the abandon horizon, and the model's bound on a plan's loops. -/
structure Env (Bytes : Type) where
  codec : Codec Bytes
  records : RowRecord.Env
  retention : Text → ℤ
  grace : ℤ
  abandon : ℤ
  steps : ℕ

def Repo.rows (repo : Repo Bytes) : List Row := repo.files.index.getD []

def Repo.find (repo : Repo Bytes) (digest : Digest) : Option (BlobFile Bytes) :=
  repo.blobs.find? (·.digest == digest)

/-- Whether a blob file of that name is in the directory. -/
def Repo.holds (repo : Repo Bytes) (digest : Digest) : Prop :=
  ∃ blob ∈ repo.blobs, blob.digest = digest

def Repo.contents (codec : Codec Bytes) (repo : Repo Bytes) : Contents where
  blobs := repo.blobs.map fun blob => ⟨blob.digest, codec.len blob.body, blob.modTime⟩
  temps := repo.temps
  sessions := repo.sessions
  unknown := repo.unknown
  indexModTime := repo.indexModTime
  blobs_nodup := by
    rw [List.map_map]
    exact repo.blobs_nodup
  blobs_parse := by
    intro blob hblob
    obtain ⟨file, hfile, rfl⟩ := List.mem_map.1 hblob
    exact repo.blobs_parse file hfile

/-- Why a blob that is there could not be opened or read. -/
inductive OpenError where
  | notRegular
  | symlink
  | io
  deriving DecidableEq

def OpenError.readError : OpenError → ReadError
  | .notRegular => .notRegular
  | .symlink => .symlink
  | .io => .io

inductive ReadOutcome (Bytes : Type) where
  | missing
  | failed (cause : OpenError)
  | body (bytes : Bytes)

def Repo.read (repo : Repo Bytes) (digest : Digest) : ReadOutcome Bytes :=
  if (parseDigest digest).isNone then .failed .io
  else match repo.find digest with
    | none => .missing
    | some blob => .body blob.body

/-- `manifestRead`: what the mark found for one digest. -/
structure ManifestRead where
  present : Bool
  size : ℕ
  result : Except ReadError Refs
  named : List Digest

def ManifestRead.sized (entry : ManifestRead) : Bool :=
  match entry.result with
  | .ok _ => true
  | .error (.unparsed _ _) => true
  | .error (.unverified _) => true
  | .error _ => false

def manifestRead (codec : Codec Bytes) (digest : Digest) :
    ReadOutcome Bytes → ManifestRead
  | .missing => ⟨false, 0, .error .blobUnknown, []⟩
  | .failed cause => ⟨true, 0, .error cause.readError, []⟩
  | .body bytes =>
    if maxManifestSize < codec.len bytes ∨ codec.hashesTo bytes digest = false then
      ⟨true, codec.len bytes, .error (.unverified (codec.len bytes)), []⟩
    else
      let named := scanDigests codec bytes
      match parseBody codec bytes with
      | .ok refs => ⟨true, codec.len bytes, .ok refs, named⟩
      | .error cause => ⟨true, codec.len bytes, .error (.unparsed cause named), named⟩

abbrev Reads := List (Digest × ManifestRead)

def Reads.entry (reads : Reads) (digest : Digest) : Option ManifestRead :=
  (reads.find? (·.1 == digest)).map Prod.snd

/-- The locked pass's `refsOf`: the mark's answer while the listing agrees with
it, stale otherwise. -/
def Reads.locked (reads : Reads) (contents : Contents) (digest : Digest) : Except ReadError Refs :=
  match reads.entry digest with
  | none => .error .stale
  | some entry =>
    match contents.blobs.find? (·.digest == digest) with
    | none => if entry.present then .error .stale else entry.result
    | some blob =>
      if entry.present = false ∨ (entry.sized ∧ blob.size ≠ entry.size) then
        .error .stale
      else entry.result

/-- `marked`: the plan, the snapshot it was made from, and the reads. -/
structure Marked where
  plan : Plan
  rows : List Row
  contents : Contents
  reads : Reads

def markInput (env : Env Bytes) (rows : List Row) (contents : Contents) (cutoff : Time)
    (outcome : Digest → ReadOutcome Bytes) : PlanInput where
  rows := rows
  contents := contents
  cutoff := cutoff
  retention := env.retention
  artifactType := Refs.artifactTypeOf env.codec
  refsOf := fun digest => (manifestRead env.codec digest (outcome digest)).result

/-- Reads the manifests and plans by what they name. -/
def mark (env : Env Bytes) (rows : List Row) (contents : Contents) (cutoff : Time)
    (outcome : Digest → ReadOutcome Bytes) : Except PlanError Marked := do
  let input := markInput env rows contents cutoff outcome
  let walked ← walkPlan input env.steps
  return {
    plan := walked.plan input
    rows := rows
    contents := contents
    reads := walked.walk.read.map fun digest =>
      (digest, manifestRead env.codec digest (outcome digest)) }

/-- `plan.intersect`: what both plans would reap. -/
def Plan.intersect (first second : Plan) : Plan where
  rows := first.rows.filter (· ∈ second.rows)
  blobs := first.blobs.filter (· ∈ second.blobs)
  sessions := first.sessions.filter (· ∈ second.sessions)
  committed := first.committed.filter (· ∈ second.committed)
  temps := second.temps.filter fun temp => temp.path ∈ first.temps.map Temp.path
  emptyRepo := first.emptyRepo && second.emptyRepo

def ManifestRead.unverified (entry : ManifestRead) : Bool :=
  match entry.result with
  | .error (.unverified _) => true
  | _ => false

/-- The digests the rows describe: the rows, the bodies that were read and all
that their JSON holds. -/
def described (rows : List Row) (reads : Reads) : List Digest :=
  rows.map (·.digest) ++ (reads.filter (·.2.present)).flatMap fun read => read.1 :: read.2.named

def describedWhole (reads : Reads) : Bool :=
  reads.all fun read => !(read.2.present && read.2.unverified)

def removesEveryRow (plan : Plan) (rows : List Row) : Bool :=
  rows.all fun row => !row.tagged && row.digest ∈ plan.rows

/-- How many blobs the plan reaps, and of how many, as the half brake counts
them. -/
def counted (plan : Plan) (rows : List Row) (contents : Contents) (reads : Reads) : ℕ × ℕ :=
  if removesEveryRow plan rows ∨ describedWhole reads = false then
    (plan.blobs.length, contents.blobs.length)
  else
    let inside := contents.blobs.filter (·.digest ∈ described rows reads)
    ((inside.filter (·.digest ∈ plan.blobs)).length, inside.length)

/-- Whether the plan leaves no row and every blob it reaps predates
index.json. -/
def emptying (plan : Plan) (rows : List Row) (contents : Contents) : Bool :=
  removesEveryRow plan rows &&
    contents.blobs.all fun blob =>
      !(blob.digest ∈ plan.blobs && !(blob.modTime < contents.indexModTime : Bool))

def leaveNewerOut (plan : Plan) (rows : List Row) (contents : Contents) : Option Plan :=
  if removesEveryRow plan rows then
    let newer := (contents.blobs.filter fun blob =>
      !(blob.modTime < contents.indexModTime : Bool)).map Blob.digest
    let left := { plan with
      blobs := plan.blobs.filter (· ∉ newer), emptyRepo := false }
    if left.rows ≠ [] ∨ left.blobs ≠ [] then some left else none
  else none

def abandoned (rows : List Row) (contents : Contents) (horizon : Time) : Bool :=
  rows.isEmpty && !(horizon < contents.indexModTime : Bool) &&
    contents.blobs.all (fun blob => !(horizon < blob.modTime : Bool)) &&
    contents.sessions.all fun session => !(horizon < session.modTime : Bool)

inductive SweepError where
  | repositoryUnknown
  | stale
  | rowsLost (held recorded : ℤ)
  | massDelete (reap of : ℕ)
  | changed
  | plan (cause : PlanError)
  deriving DecidableEq

/-- A plan over half of the blobs is let through for a reason only. -/
def brake (env : Env Bytes) (now : Time) (plan : Plan) (rows : List Row)
    (contents : Contents) (reads : Reads) : Except SweepError Plan :=
  let (reap, total) := counted plan rows contents reads
  if 2 * reap ≤ total ∨ emptying plan rows contents ∨
      abandoned rows contents (now - env.abandon) then .ok plan
  else match leaveNewerOut plan rows contents with
    | some left => .ok left
    | none => .error (.massDelete reap total)

/-! ## The locked pass -/

/-- `CheckRows` under the lock: the directory with the record it may write. -/
def Repo.checkRows (env : Env Bytes) (repo : Repo Bytes) : Except SweepError (Repo Bytes) :=
  match RowRecord.checkRows env.records repo.files with
  | .unreadable => .error .repositoryUnknown
  | .rowsLost held recorded => .error (.rowsLost held recorded)
  | .passed script => .ok { repo with files := script.finish repo.files }

def lockedInput (env : Env Bytes) (rows : List Row) (contents : Contents) (cutoff : Time)
    (reads : Reads) : PlanInput where
  rows := rows
  contents := contents
  cutoff := cutoff
  retention := env.retention
  artifactType := Refs.artifactTypeOf env.codec
  refsOf := reads.locked contents

def sweepError : PlanError → SweepError
  | .stale => .stale
  | cause => .plan cause

/-- The locked pass up to the brake: the directory with its record checked, and
what both plans would reap. -/
def lockedPlan (env : Env Bytes) (now : Time) (marked : Marked) (repo : Repo Bytes) :
    Except SweepError (Repo Bytes × Plan) :=
  match repo.files.index with
  | none => .error .repositoryUnknown
  | some rows =>
    if rows ≠ marked.rows then .error .stale
    else do
      let checked ← repo.checkRows env
      let second ← (makePlan
        (lockedInput env rows (checked.contents env.codec) (now - env.grace) marked.reads)
        env.steps).mapError sweepError
      return (checked, marked.plan.intersect second)

/-- `sweepLocked` up to `apply`: the directory it starts from and the plan it is
handed. -/
def sweepLocked (env : Env Bytes) (now : Time) (marked : Marked) (repo : Repo Bytes) :
    Except SweepError (Repo Bytes × Plan) := do
  let (checked, whole) ← lockedPlan env now marked repo
  let final ← brake env now whole checked.rows (checked.contents env.codec) marked.reads
  return (checked, final)

def Repo.withoutBlobs (repo : Repo Bytes) (gone : Digest → Bool) : Repo Bytes :=
  { repo with
    blobs := repo.blobs.filter fun blob => !gone blob.digest
    blobs_nodup := repo.blobs_nodup.sublist (List.filter_sublist.map _)
    blobs_parse := fun blob hblob => repo.blobs_parse blob (List.mem_of_mem_filter hblob) }

def removeBlob (digest : Digest) (repo : Repo Bytes) : Option (Repo Bytes) :=
  if (repo.find digest).isSome then some (repo.withoutBlobs (· == digest)) else none

/-- `ReapSession`: a session somebody holds the lock of is left alone. -/
def reapSession (busy : String → Bool) (cutoff : Time) (id : String) (repo : Repo Bytes) :
    Option (Repo Bytes) :=
  some { repo with
    sessions := repo.sessions.filter fun session =>
      !(session.id == id && !busy id && (1 < session.links || (session.modTime ≤ cutoff : Bool))) }

def removeTemp (path : String) (repo : Repo Bytes) : Option (Repo Bytes) :=
  some { repo with temps := repo.temps.filter (·.path ≠ path) }

/-- Whether `RemoveLayout` finds the repository empty and idle. -/
def Repo.layoutEmpty (cutoff : Time) (repo : Repo Bytes) : Bool :=
  repo.files.index == some [] && repo.indexModTime ≤ cutoff && repo.blobs.isEmpty &&
    repo.temps.isEmpty && repo.sessions.isEmpty && repo.unknown == 0

/-- `RemoveLayout`: index.json goes first and the record after it. -/
def removeLayout (cutoff : Time) : Script (Repo Bytes) :=
  [fun repo =>
      if repo.layoutEmpty cutoff then
        some { repo with files := { repo.files with index := none } }
      else some repo,
    fun repo =>
      if repo.files.index = none then
        some { repo with files := { repo.files with record := none } }
      else some repo]

/-- The repository with new files; a write of other rows moves index.json's
mtime. -/
def Repo.setFiles (now : Time) (repo : Repo Bytes) (files : RowRecord.Files) : Repo Bytes :=
  { repo with
    files := files
    indexModTime := if files.index = repo.files.index then repo.indexModTime else now }

def Plan.reapsRow (plan : Plan) (row : Row) : Bool := !row.tagged && row.digest ∈ plan.rows

def Plan.remaining (plan : Plan) (rows : List Row) : List Row :=
  rows.filter fun row => !plan.reapsRow row

def applyRows (env : Env Bytes) (now : Time) (plan : Plan) (repo : Repo Bytes) :
    Script (Repo Bytes) :=
  let left := plan.remaining repo.rows
  if plan.rows = [] then []
  else if RowRecord.maxIndexLen < env.records.indexLen left then [fun _ => none]
  else Script.lift Repo.files (Repo.setFiles now) (RowRecord.setRows env.records repo.files left)

/-- The blob removals of `apply`.  Contents list blobs by digest, so the plan's
order is that of its sorted keys. -/
def applyBlobs (plan : Plan) : Script (Repo Bytes) := plan.blobs.map removeBlob

/-- What `apply` removes after the rows and blobs: sessions, temp links, and the
layout of a repository that is left empty. -/
def applyTail (busy : String → Bool) (cutoff : Time) (plan : Plan) (layout : Bool) :
    Script (Repo Bytes) :=
  plan.sessions.map (reapSession busy cutoff) ++
    plan.temps.map (fun temp => removeTemp temp.path) ++
    (if layout then removeLayout cutoff else [])

/-- The removals of a plan, in the order they are made. -/
def apply (env : Env Bytes) (now : Time) (busy : String → Bool) (plan : Plan)
    (repo : Repo Bytes) : Script (Repo Bytes) :=
  applyRows env now plan repo ++
    (applyBlobs plan ++
      applyTail busy (now - env.grace) plan (plan.emptyRepo && (plan.remaining repo.rows).isEmpty))

section Stops

variable {env : Env Bytes} {now : Time} {busy : String → Bool} {plan : Plan}
  {repo left : Repo Bytes}

/-- Where a stopped `apply` can be: before its row write, with everything still
there, or after it, with some of the plan's blobs gone. -/
def Progress (plan : Plan) (repo left : Repo Bytes) : Prop :=
  (left.rows = repo.rows ∧ left.blobs = repo.blobs) ∨
    (left.rows = plan.remaining repo.rows ∧
      ∃ gone ⊆ plan.blobs, left.blobs = repo.blobs.filter (·.digest ∉ gone))

theorem Plan.remaining_of_no_rows (hrows : plan.rows = []) (rows : List Row) :
    plan.remaining rows = rows := by
  simp [Plan.remaining, Plan.reapsRow, hrows]

@[simp]
theorem files_setFiles (now : Time) (repo : Repo Bytes) (files : RowRecord.Files) :
    (repo.setFiles now files).files = files := rfl

@[simp]
theorem blobs_setFiles (now : Time) (repo : Repo Bytes) (files : RowRecord.Files) :
    (repo.setFiles now files).blobs = repo.blobs := rfl

theorem setRows_stops_index {records : RowRecord.Env} {files after : RowRecord.Files}
    {rows : List Row} (hafter : after ∈ (RowRecord.setRows records files rows).stops files) :
    after.index = files.index ∨ after.index = some rows := by
  unfold RowRecord.setRows at hafter
  split at hafter
  · exact .inl (by rw [Script.mem_stops_nil.1 hafter])
  · exact RowRecord.writeIndex_stops_index hafter

theorem applyRows_stops (hleft : left ∈ (applyRows env now plan repo).stops repo) :
    (left.rows = repo.rows ∨ left.rows = plan.remaining repo.rows) ∧ left.blobs = repo.blobs := by
  unfold applyRows at hleft
  simp only at hleft
  split at hleft
  · rw [Script.mem_stops_nil.1 hleft]
    exact ⟨.inl rfl, rfl⟩
  split at hleft
  · rcases Script.mem_stops_cons.1 hleft with rfl | ⟨next, hnext, -⟩
    · exact ⟨.inl rfl, rfl⟩
    · cases hnext
  · have hblobs : left.blobs = repo.blobs :=
      Script.stops_lift_frame (fun repo files => blobs_setFiles now repo files) hleft
    have hfiles := Script.mem_stops_lift (files_setFiles now) hleft
    refine ⟨?_, hblobs⟩
    rcases setRows_stops_index hfiles with hsame | hnew
    · exact .inl (by simp [Repo.rows, hsame])
    · exact .inr (by simp [Repo.rows, hnew])

theorem applyRows_run (hindex : repo.files.index.isSome)
    (hrun : (applyRows env now plan repo).run repo = some left) :
    left.rows = plan.remaining repo.rows ∧ left.blobs = repo.blobs := by
  have hstops := applyRows_stops (Script.run_mem_stops hrun)
  refine ⟨?_, hstops.2⟩
  unfold applyRows at hrun
  simp only at hrun
  split at hrun
  case isTrue hrows =>
    rw [Plan.remaining_of_no_rows hrows, ← some.inj hrun]
  split at hrun
  case isTrue => cases hrun
  rename_i hsize
  have hfiles := Script.run_lift (files_setFiles now) hrun
  obtain ⟨rows, hrows⟩ := isSome_iff_exists.1 hindex
  simp only [RowRecord.setRows, hrows] at hfiles
  have hnew := RowRecord.writeIndex_run_index (not_lt.1 hsize) hfiles
  simp [Repo.rows, hnew]

def SameContent (repo left : Repo Bytes) : Prop :=
  left.rows = repo.rows ∧ left.blobs = repo.blobs

theorem removeLayout_sameContent {cutoff : Time} {action : Repo Bytes → Option (Repo Bytes)}
    {next : Repo Bytes} (haction : action ∈ removeLayout cutoff)
    (hleft : SameContent repo left) (hnext : action left = some next) : SameContent repo next := by
  simp only [removeLayout, List.mem_cons, List.not_mem_nil, or_false] at haction
  rcases haction with rfl | rfl
  · dsimp only at hnext
    split at hnext
    case isTrue hempty =>
      cases hnext
      have hnone : left.files.index = some [] := by
        simp only [Repo.layoutEmpty, Bool.and_eq_true, beq_iff_eq] at hempty
        exact hempty.1.1.1.1.1
      refine ⟨?_, hleft.2⟩
      rw [← hleft.1]
      simp [Repo.rows, hnone]
    case isFalse =>
      cases hnext
      exact hleft
  · dsimp only at hnext
    split at hnext <;> cases hnext <;> exact hleft

theorem applyTail_stops {cutoff : Time} {layout : Bool}
    (hleft : left ∈ (applyTail busy cutoff plan layout).stops repo) : SameContent repo left := by
  refine Script.stops_invariant (SameContent repo) ?_ ⟨rfl, rfl⟩ hleft
  intro action haction before after hbefore hafter
  simp only [applyTail, List.mem_append] at haction
  rcases haction with (hsession | htemp) | hlayout
  · obtain ⟨id, -, rfl⟩ := List.mem_map.1 hsession
    cases hafter
    exact hbefore
  · obtain ⟨temp, -, rfl⟩ := List.mem_map.1 htemp
    cases hafter
    exact hbefore
  · split at hlayout
    · exact removeLayout_sameContent hlayout hbefore hafter
    · cases hlayout

theorem removeBlob_eq {digest : Digest} {next : Repo Bytes}
    (hremove : removeBlob digest repo = some next) : next = repo.withoutBlobs (· == digest) := by
  unfold removeBlob at hremove
  split at hremove
  case isTrue => exact (some.inj hremove).symm
  case isFalse => cases hremove

theorem filter_withoutBlobs (repo : Repo Bytes) (digest : Digest) (gone : List Digest) :
    (repo.withoutBlobs (· == digest)).blobs.filter (·.digest ∉ gone) =
      repo.blobs.filter (·.digest ∉ digest :: gone) := by
  simp only [Repo.withoutBlobs, List.filter_filter]
  apply List.filter_congr
  intro blob _
  by_cases hsame : blob.digest = digest <;> simp [hsame]

theorem removeBlobs_stops {digests : List Digest}
    (hleft : left ∈ Script.stops (digests.map removeBlob) repo) :
    left.rows = repo.rows ∧ ∃ gone ⊆ digests, left.blobs = repo.blobs.filter (·.digest ∉ gone) := by
  induction digests generalizing repo with
  | nil =>
    rw [Script.mem_stops_nil.1 hleft]
    exact ⟨rfl, [], by simp, by simp⟩
  | cons digest digests ih =>
    rcases Script.mem_stops_cons.1 hleft with rfl | ⟨next, hnext, hrest⟩
    · exact ⟨rfl, [], by simp, by simp⟩
    obtain ⟨hrows, gone, hgone, hblobs⟩ := ih hrest
    rw [removeBlob_eq hnext] at hrows hblobs
    rw [filter_withoutBlobs] at hblobs
    exact ⟨hrows, digest :: gone, List.cons_subset_cons digest hgone, hblobs⟩

theorem removeBlobs_run {digests : List Digest}
    (hrun : Script.run (digests.map removeBlob) repo = some left) :
    left.rows = repo.rows ∧ left.blobs = repo.blobs.filter (·.digest ∉ digests) := by
  induction digests generalizing repo with
  | nil =>
    cases hrun
    exact ⟨rfl, by simp⟩
  | cons digest digests ih =>
    obtain ⟨next, hnext, hrest⟩ := bind_eq_some_iff.1 hrun
    obtain ⟨hrows, hblobs⟩ := ih hrest
    rw [removeBlob_eq hnext] at hrows hblobs
    rw [filter_withoutBlobs] at hblobs
    exact ⟨hrows, hblobs⟩

theorem apply_stops (hindex : repo.files.index.isSome)
    (hleft : left ∈ (apply env now busy plan repo).stops repo) : Progress plan repo left := by
  rcases Script.mem_stops_append hleft with hrows | ⟨middle, hmiddle, hrest⟩
  · obtain ⟨hrows | hrows, hblobs⟩ := applyRows_stops hrows
    · exact .inl ⟨hrows, hblobs⟩
    · exact .inr ⟨hrows, [], by simp, by simp [hblobs]⟩
  obtain ⟨hrows, hblobs⟩ := applyRows_run hindex hmiddle
  right
  rcases Script.mem_stops_append hrest with hremoving | ⟨removed, hremoved, htail⟩
  · obtain ⟨hsame, gone, hgone, hleft⟩ := removeBlobs_stops hremoving
    exact ⟨hsame.trans hrows, gone, hgone, by rw [hleft, hblobs]⟩
  · obtain ⟨hsame, hleft⟩ := removeBlobs_run hremoved
    obtain ⟨hsame', hleft'⟩ := applyTail_stops htail
    exact ⟨hsame'.trans (hsame.trans hrows), plan.blobs, List.Subset.refl _,
      by rw [hleft', hleft, hblobs]⟩

theorem apply_run (hindex : repo.files.index.isSome)
    (hrun : (apply env now busy plan repo).run repo = some left) :
    left.rows = plan.remaining repo.rows ∧
      left.blobs = repo.blobs.filter (·.digest ∉ plan.blobs) := by
  rw [apply, Script.run_append] at hrun
  obtain ⟨middle, hmiddle, hrest⟩ := bind_eq_some_iff.1 hrun
  rw [Script.run_append] at hrest
  obtain ⟨removed, hremoved, htail⟩ := bind_eq_some_iff.1 hrest
  obtain ⟨hrows, hblobs⟩ := applyRows_run hindex hmiddle
  obtain ⟨hsame, hleft⟩ := removeBlobs_run hremoved
  obtain ⟨hsame', hleft'⟩ := applyTail_stops (Script.run_mem_stops htail)
  exact ⟨hsame'.trans (hsame.trans hrows), by rw [hleft', hleft, hblobs]⟩

end Stops

end K3sm.Registry.Gc
