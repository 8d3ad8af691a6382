import K3sm.Registry.Manifest

/-!
# The collector's plan for one repository

`makePlan` decides, from one repository's rows, its contents and a cutoff, what a sweep would
reap.  It seeds a queue with the rows that are kept outright, walks it through the manifests they
name, and lets referrers join while their subjects turn out to be live.
-/

namespace K3sm.Registry.Gc

open K3sm.Core

abbrev Time := ℤ

structure Blob where
  digest : Digest
  size : ℕ
  modTime : Time
  deriving DecidableEq

structure Temp where
  path : String
  modTime : Time
  deriving DecidableEq

structure Session where
  id : String
  modTime : Time
  links : ℕ
  deriving DecidableEq

/-- What a repository directory holds.  A blob is listed under a digest that
parses, and no two under the same. -/
structure Contents where
  blobs : List Blob
  temps : List Temp
  sessions : List Session
  unknown : ℕ
  indexModTime : Time
  blobs_nodup : (blobs.map Blob.digest).Nodup
  blobs_parse : ∀ blob ∈ blobs, parseDigest blob.digest = some blob.digest

def maxManifestSize : ℕ := 4 * 2 ^ 20

inductive ReadError where
  | blobUnknown
  | unparsed (cause : BodyError) (named : List Digest)
  | unverified (size : ℕ)
  | stale
  | notRegular
  | symlink
  | io
  deriving DecidableEq

/-- What an error names: a manifest the walk reached, or an untagged row. -/
inductive Followed where
  | manifest (digest : Digest)
  | untagged (digest : Digest)
  deriving DecidableEq

/-- Why there is no plan.  `outOfSteps` is the model's own bound. -/
inductive PlanError where
  | stale
  | unreadable (what : Followed) (cause : ReadError)
  | readManifest (what : Followed) (cause : ReadError)
  | outOfSteps
  deriving DecidableEq

def planError (what : Followed) : ReadError → PlanError
  | .stale => .stale
  | .io => .readManifest what .io
  | cause => .unreadable what cause

/-- What a plan is made from.  `retention` is zero for a type with no class. -/
structure PlanInput where
  rows : List Row
  contents : Contents
  cutoff : Time
  retention : Text → ℤ
  artifactType : Refs → Text
  refsOf : Digest → Except ReadError Refs

def PlanInput.mtime (input : PlanInput) (digest : Digest) : Option Time :=
  (input.contents.blobs.find? (·.digest == digest)).map Blob.modTime

def PlanInput.size (input : PlanInput) (digest : Digest) : ℕ :=
  ((input.contents.blobs.find? (·.digest == digest)).map Blob.size).getD 0

def PlanInput.old (input : PlanInput) (time : Time) : Bool := time ≤ input.cutoff

def PlanInput.hasRow (input : PlanInput) (digest : Digest) : Bool :=
  input.rows.any (·.digest == digest)

/-- A blob with no row that is too large to be a manifest: kept, not read. -/
def PlanInput.overCap (input : PlanInput) (digest : Digest) : Bool :=
  !input.hasRow digest && maxManifestSize < input.size digest

/-- A queued digest: whether a missing body fails the plan, and whether it was
found by the scan rather than named by a readable body. -/
structure Item where
  digest : Digest
  required : Bool
  scanned : Bool
  deriving DecidableEq

/-- The walk's variables, and the digests it has asked `refsOf` for. -/
structure Walk where
  queue : List Item
  queued : List Item
  kept : List Digest
  referenced : List Digest
  read : List Digest
  deriving DecidableEq

def Walk.start : Walk :=
  { queue := [], queued := [], kept := [], referenced := [], read := [] }

def Walk.enqueue (walk : Walk) (item : Item) : Walk :=
  if item ∈ walk.queued then walk
  else { walk with queued := item :: walk.queued, queue := walk.queue ++ [item] }

def Walk.keep (walk : Walk) (digest : Digest) : Walk :=
  { walk with kept := digest :: walk.kept }

def Walk.refer (walk : Walk) (digests : List Digest) : Walk :=
  { walk with referenced := digests ++ walk.referenced }

def Walk.noteRead (walk : Walk) (digest : Digest) : Walk :=
  { walk with read := digest :: walk.read }

/-- What a readable body leads to: its config and layers are referenced, its
children referenced and queued. -/
def Walk.follow (walk : Walk) (refs : Refs) : Walk :=
  refs.children.foldl
    (fun walk child => (walk.refer [child]).enqueue ⟨child, false, false⟩)
    (walk.refer refs.blobs)

/-- One digest the scan found: referenced, and queued when a blob of that name
is stored and not kept yet. -/
def Walk.scanOne (input : PlanInput) (walk : Walk) (digest : Digest) : Walk :=
  let walk := walk.refer [digest]
  if (input.mtime digest).isSome ∧ digest ∉ walk.kept then
    walk.enqueue ⟨digest, false, true⟩
  else walk

/-- The body of the walk's loop, for an item already taken off the queue. -/
def visit (input : PlanInput) (walk : Walk) (item : Item) : Except PlanError Walk :=
  if item.digest ∈ walk.kept then .ok walk
  else
    let walk := walk.refer [item.digest]
    if input.overCap item.digest then .ok (walk.keep item.digest)
    else
      let walk := walk.noteRead item.digest
      match input.refsOf item.digest with
      | .ok refs => .ok ((walk.keep item.digest).follow refs)
      | .error (.unverified size) =>
        -- left unvisited, so that a readable body naming it still fails
        if item.scanned ∧ input.hasRow item.digest = false then .ok walk
        else .error (planError (.manifest item.digest) (.unverified size))
      | .error .blobUnknown =>
        if item.required then .error (planError (.manifest item.digest) .blobUnknown)
        else .ok (walk.keep item.digest)
      | .error (.unparsed cause named) =>
        if item.required ∨ input.hasRow item.digest then
          .error (planError (.manifest item.digest) (.unparsed cause named))
        else .ok (named.foldl (Walk.scanOne input) (walk.keep item.digest))
      | .error cause => .error (planError (.manifest item.digest) cause)

def walkQueue (input : PlanInput) : ℕ → Walk → Except PlanError Walk
  | steps, walk =>
    match walk.queue with
    | [] => .ok walk
    | item :: rest =>
      match steps with
      | 0 => .error .outOfSteps
      | steps + 1 => do
        let next ← visit input { walk with queue := rest } item
        walkQueue input steps next

/-- A referrer held back until its subject is known to be live. -/
structure Referrer where
  digest : Digest
  subject : Digest
  deriving DecidableEq

inductive RowFate where
  | enqueue (required : Bool)
  | candidate
  | referrer (subject : Digest)
  deriving DecidableEq

/-- Whether a retention class still holds an untagged manifest written at
`time`. -/
def PlanInput.retained (input : PlanInput) (refs : Refs) (time : Time) : Bool :=
  let extra := input.retention (input.artifactType refs)
  0 < extra && input.cutoff - extra < time

def rowFate (input : PlanInput) (row : Row) : Except PlanError RowFate :=
  if row.tagged then .ok (.enqueue true)
  else match input.mtime row.digest with
    | none => .ok (.enqueue false)
    | some time =>
      if input.old time = false then .ok (.enqueue false)
      else match input.refsOf row.digest with
        | .error cause => .error (planError (.untagged row.digest) cause)
        | .ok refs =>
          if input.retained refs time then .ok (.enqueue true)
          else match refs.subject with
            | none => .ok .candidate
            | some subject =>
              match parseDigest subject.digest with
              | none => .ok (.enqueue true)
              | some parsed => .ok (.referrer parsed)

/-- Whether the row loop asks `refsOf` for the row. -/
def rowRead (input : PlanInput) (row : Row) : Bool :=
  !row.tagged && ((input.mtime row.digest).map input.old).getD false

structure Gathered where
  walk : Walk
  candidates : List Digest
  referrers : List Referrer
  deriving DecidableEq

/-- The walk once the row's body has been asked for, if it was. -/
def Walk.noteRow (input : PlanInput) (walk : Walk) (row : Row) : Walk :=
  if rowRead input row then walk.noteRead row.digest else walk

def Gathered.place (input : PlanInput) (gathered : Gathered) (row : Row) :
    RowFate → Gathered
  | .enqueue required =>
    { gathered with
      walk := (gathered.walk.noteRow input row).enqueue ⟨row.digest, required, false⟩ }
  | .candidate =>
    { gathered with
      walk := gathered.walk.noteRow input row
      candidates := row.digest :: gathered.candidates }
  | .referrer subject =>
    { gathered with
      walk := gathered.walk.noteRow input row
      referrers := gathered.referrers ++ [⟨row.digest, subject⟩] }

def gatherRow (input : PlanInput) (gathered : Gathered) (row : Row) :
    Except PlanError Gathered := do
  let fate ← rowFate input row
  return gathered.place input row fate

def gather (input : PlanInput) : Except PlanError Gathered :=
  input.rows.foldlM (gatherRow input) ⟨Walk.start, [], []⟩

def live (input : PlanInput) (walk : Walk) (subject : Digest) : Bool :=
  subject ∈ walk.kept || subject ∈ walk.referenced ||
    ((input.mtime subject).map fun time => !input.old time).getD false

def settle (input : PlanInput) (steps : ℕ) :
    ℕ → Walk → List Referrer → Except PlanError (Walk × List Referrer)
  | 0, _, _ => .error .outOfSteps
  | rounds + 1, walk, referrers => do
    let walked ← walkQueue input steps walk
    let rest := referrers.filter fun referrer => !live input walked referrer.subject
    if rest.length = referrers.length then return (walked, referrers)
    else
      let joining := referrers.filter fun referrer => live input walked referrer.subject
      settle input steps rounds
        (joining.foldl (fun walk referrer =>
          walk.enqueue ⟨referrer.digest, true, false⟩) walked) rest

/-- The walk a plan rests on: what it keeps and references, and the untagged
rows that may go. -/
structure Walked where
  walk : Walk
  candidates : List Digest
  deriving DecidableEq

def walkPlan (input : PlanInput) (steps : ℕ) : Except PlanError Walked := do
  let gathered ← gather input
  let (walk, orphans) ← settle input steps steps gathered.walk gathered.referrers
  return ⟨walk, gathered.candidates ++ orphans.map Referrer.digest⟩

/-- What a sweep is to remove. -/
structure Plan where
  rows : List Digest
  blobs : List Digest
  sessions : List String
  committed : List String
  temps : List Temp
  emptyRepo : Bool
  deriving DecidableEq

def Walked.reapsRow (walked : Walked) (row : Row) : Bool :=
  !row.tagged && row.digest ∈ walked.candidates && row.digest ∉ walked.walk.kept

def Walked.reapsBlob (input : PlanInput) (walked : Walked) (blob : Blob) : Bool :=
  blob.digest ∉ walked.walk.referenced && input.old blob.modTime

def Walked.plan (input : PlanInput) (walked : Walked) : Plan :=
  let rows := input.rows.filter walked.reapsRow
  let blobs := input.contents.blobs.filter (walked.reapsBlob input)
  let sessions := input.contents.sessions.filter fun session =>
    1 < session.links || input.old session.modTime
  { rows := rows.map (·.digest)
    blobs := blobs.map Blob.digest
    sessions := sessions.map Session.id
    committed := (input.contents.sessions.filter (1 < ·.links)).map Session.id
    temps := input.contents.temps
    emptyRepo := rows.length = input.rows.length &&
      blobs.length = input.contents.blobs.length &&
      sessions.length = input.contents.sessions.length &&
      input.contents.unknown = 0 && input.old input.contents.indexModTime }

/-- The rows, blobs and sessions that the walk did not keep. -/
def makePlan (input : PlanInput) (steps : ℕ) : Except PlanError Plan :=
  (walkPlan input steps).map (Walked.plan input)

end K3sm.Registry.Gc
