import K3sm.Registry.Referrers

/-!
# The cached view of a repository's referrers

A view keeps what every manifest row contributes to a referrers answer.  A request answers from
the view while index.json has the version the view was built at, and otherwise builds it again:
entries of rows that are still there are kept, and the others are read, up to a number of
manifests and of bytes and until the request's context is done.

The store changes while a request runs.  A history says what is found at every instant, and a
request says at which instants it looked.
-/

namespace K3sm.Registry.ReferrerView

open K3sm.Core K3sm.Registry.Listing K3sm.Registry.Gc

structure IndexVersion where
  ino : ℕ
  size : ℤ
  modTime : ℤ
  deriving DecidableEq

structure BlobIdent where
  ino : ℕ
  size : ℤ
  modTime : ℤ
  deriving DecidableEq

def BlobIdent.zero : BlobIdent := ⟨0, 0, 0⟩

inductive BlobFile (Bytes : Type) where
  | absent
  | symlink
  | notRegular
  | regular (ident : BlobIdent) (body : Bytes)

structure Repository (Bytes : Type) where
  version : IndexVersion
  rows : List Row
  files : Digest → BlobFile Bytes

/-- What is there at an instant, and which accesses fail for a reason that passes. -/
structure Instant (Bytes : Type) where
  repository : Option (Repository Bytes)
  indexFails : Bool
  statFails : Digest → Bool
  readFails : Digest → Bool

inductive IndexError where
  | repositoryUnknown
  | failed
  deriving DecidableEq

variable {Bytes : Type}

namespace Instant

/-- `exists`, and the file behind it. -/
def index (instant : Instant Bytes) : Except IndexError (Repository Bytes) :=
  if instant.indexFails then .error .failed
  else match instant.repository with
    | none => .error .repositoryUnknown
    | some repository => .ok repository

def indexVersionOf (instant : Instant Bytes) : Except IndexError IndexVersion :=
  instant.index.map Repository.version

def indexAt (instant : Instant Bytes) : Except IndexError (List Row × IndexVersion) :=
  instant.index.map fun repository => (repository.rows, repository.version)

def file (instant : Instant Bytes) (digest : Digest) : BlobFile Bytes :=
  match instant.repository with
  | none => .absent
  | some repository => repository.files digest

def blobIdentOf (instant : Instant Bytes) (digest : Digest) : BlobIdent :=
  if instant.statFails digest = true ∨ (parseDigest digest).isNone then .zero
  else match instant.file digest with
    | .regular ident _ => ident
    | _ => .zero

/-- What opening and reading a blob gives while nothing fails in passing. -/
def settled (instant : Instant Bytes) (digest : Digest) : ReadOutcome Bytes :=
  match instant.file digest with
  | .absent => .missing
  | .symlink => .failed .symlink
  | .notRegular => .failed .notRegular
  | .regular _ body => .body body

def openBlob (instant : Instant Bytes) (digest : Digest) : ReadOutcome Bytes :=
  if instant.readFails digest then .failed .io else instant.settled digest

/-- The rows of index.json, of which a repository that is not there has none. -/
def rows (instant : Instant Bytes) : List Row :=
  match instant.repository with
  | none => []
  | some repository => repository.rows

end Instant

structure Limits where
  scanRows : ℕ
  scanBytes : ℕ
  scanRows_pos : 0 < scanRows
  scanBytes_pos : 0 < scanBytes

/-- `referrersScanRows` and `referrersScanBytes`. -/
def Limits.server : Limits := ⟨4096, 64 * 2 ^ 20, by decide, by decide⟩

/-- A request with the instants of its accesses: to the version, to index.json, and for each row
to the entry's file, its identity and the body.  `checked` are those of `repaired`. -/
structure Request where
  digest : Digest
  /-- The context is done before the view is free. -/
  gaveUp : Bool
  /-- A build slot is free. -/
  slot : Bool
  /-- Whether the context is done. -/
  cancelled : ℕ → Bool
  instant : ℕ → ℕ
  checked : Digest → ℕ
  finish : ℕ
  ordered : Monotone instant
  bounded : ∀ tick, instant tick ≤ finish
  checks : ∀ digest, instant 0 ≤ checked digest ∧ checked digest ≤ finish

structure CachedEntry extends RefEntry where
  fileState : Bool
  seen : BlobIdent

structure View where
  version : IndexVersion
  ready : Bool
  entries : List CachedEntry
  bySubject : Digest → List RefEntry

def View.empty : View := ⟨⟨0, 0, 0⟩, false, [], fun _ => []⟩

inductive Answer where
  | listed (entries : List RefEntry)
  /-- `errReferrersBusy`. -/
  | busy
  /-- The error of the request's context. -/
  | cancelled
  | failed

/-- What a request leaves: the view, its answer, and the manifests it read. -/
structure Outcome where
  view : View
  answer : Answer
  reads : List Digest

/-- The server, how it decodes and encodes, and what it finds at every instant. -/
structure World (Bytes : Type) where
  codec : Codec Bytes
  encodedSize : ReferrerDescriptor → Option ℕ
  limits : Limits
  history : ℕ → Instant Bytes

section Build

variable (world : World Bytes)

/-- The repository's blobs as they are opened at an instant. -/
def storeAt (time : ℕ) : ReferrerStore Bytes :=
  ⟨world.codec, world.encodedSize, (world.history time).openBlob⟩

/-- An entry whose manifest could not be read, and might be after a change of its file. -/
def CachedEntry.negative (entry : CachedEntry) : Bool := entry.unreadable && entry.fileState

def repaired (request : Request) (view : View) : Bool :=
  view.entries.any fun entry => entry.negative &&
    (world.history (request.checked entry.desc.digest)).blobIdentOf entry.desc.digest != entry.seen

def View.usable (view : View) (reread : Bool) (ident : BlobIdent) (row : Row) :
    Option CachedEntry :=
  match view.entries.find? fun entry => entry.desc.digest == row.digest with
  | none => none
  | some entry =>
    if entry.desc.mediaType = row.mediaType ∧ entry.desc.size = row.size ∧
        ¬ (entry.negative = true ∧ (reread = true ∨ ident ≠ entry.seen)) then some entry
    else none

/-- The variables of the loop of `buildReferrers`. -/
structure Build where
  entries : List CachedEntry
  readRows : ℕ
  readBytes : ℕ
  whole : Bool
  reads : List Digest

def Build.start : Build := ⟨[], 0, 0, true, []⟩

def unreadableEntry (row : Row) (cause : ManifestReadError) (seen : BlobIdent) : CachedEntry :=
  { subject := none, desc := rowDescriptor row, size := 64, unreadable := true
    fileState := decide (cause ≠ .manifestSize), seen }

def readRow (request : Request) (row : Row) (tick : ℕ) (build : Build) : Build :=
  let started := { build with
    readRows := build.readRows + 1, reads := build.reads ++ [row.digest] }
  let seen := (world.history (request.instant (tick + 1))).blobIdentOf row.digest
  let store := storeAt world (request.instant (tick + 2))
  match readManifestBlob store row with
  | .ok body =>
    { started with
      readBytes := build.readBytes + world.codec.len body
      entries :=
        build.entries ++ [{ entryOf store row body with fileState := false, seen := .zero }] }
  | .error cause =>
    if permanentReadError cause = false then { started with whole := false }
    else { started with entries := build.entries ++ [unreadableEntry row cause seen] }

/-- The body of the loop of `buildReferrers`. -/
def visitRow (request : Request) (view : View) (reread : Bool) (row : Row) (tick : ℕ)
    (build : Build) : Build :=
  if manifestTypes row.mediaType = false then build
  else if build.entries.any fun entry => entry.desc.digest == row.digest then build
  else match view.usable reread
    ((world.history (request.instant tick)).blobIdentOf row.digest) row with
    | some entry => { build with entries := build.entries ++ [entry] }
    | none =>
      if world.limits.scanRows ≤ build.readRows ∨ world.limits.scanBytes ≤ build.readBytes ∨
          request.cancelled tick = true then { build with whole := false }
      else readRow world request row tick build

def walkRows (request : Request) (view : View) (reread : Bool) : List Row → ℕ → Build → Build
  | [], _, build => build
  | row :: rows, tick, build =>
    walkRows request view reread rows (tick + 3) (visitRow world request view reread row tick build)

def listOf (entries : List CachedEntry) (digest : Digest) : List RefEntry :=
  ((entries.map CachedEntry.toRefEntry).filter fun entry =>
    entry.subject == some digest && !entry.unreadable).insertionSort
      fun left right => digestRank left.desc.digest ≤ digestRank right.desc.digest

def rowTick : ℕ := 2

def buildReferrers (request : Request) (view : View) : Except IndexError Outcome := do
  let (rows, version) ← (world.history (request.instant 1)).indexAt
  let build := walkRows world request view
    (decide (view.version ≠ version)) rows rowTick Build.start
  if build.whole then
    let bySubject := listOf build.entries
    return ⟨⟨version, true, build.entries, bySubject⟩, .listed (bySubject request.digest),
      build.reads⟩
  else
    let answer := if request.cancelled (rowTick + 3 * rows.length) then .cancelled else .busy
    return ⟨⟨version, false, build.entries, fun _ => []⟩, answer, build.reads⟩

/-- A request for a repository that is not there, or whose index.json cannot be read. -/
def answerError (view : View) : IndexError → Outcome
  | .repositoryUnknown => ⟨view, .listed [], []⟩
  | .failed => ⟨view, .failed, []⟩

/-- `referrersOf`, with the view it was given.  What it drops from the cache is up to the
requests after it. -/
def referrersOf (request : Request) (view : View) : Outcome :=
  if request.gaveUp then ⟨view, .cancelled, []⟩
  else match (world.history (request.instant 0)).indexVersionOf with
    | .error cause => answerError view cause
    | .ok version =>
      if view.ready = true ∧ view.version = version ∧ repaired world request view = false then
        ⟨view, .listed (view.bySubject request.digest), []⟩
      else if request.slot = false then ⟨view, .busy, []⟩
      else match buildReferrers world request view with
        | .error cause => answerError view cause
        | .ok outcome => outcome

/-! ## Histories of requests -/

/-- A view, and the finish of its last request. -/
structure Served where
  view : View
  since : ℕ

/-- A view is made for a request that finds none in the cache.  A request has any of the views,
also a dropped one, and the requests of one view come one after another. -/
inductive ViewEvent where
  | make
  | ask (index : ℕ) (request : Request)

def nextViews (views : List Served) : ViewEvent → List Served
  | .make => views ++ [⟨View.empty, 0⟩]
  | .ask index request =>
    match views[index]? with
    | none => views
    | some served =>
      if request.instant 0 < served.since then views
      else views.set index ⟨(referrersOf world request served.view).view, request.finish⟩

end Build

end K3sm.Registry.ReferrerView
