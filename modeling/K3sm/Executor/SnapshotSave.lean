import K3sm.Core.Filepath
import K3sm.Core.HardLinks
import K3sm.Executor.WorkDirUse

/-!
# Saving a snapshot

A save builds its snapshot under a staging name derived from the destination, verifies what is
there, and renames it.  Any number of saves run at once and every step here is one operation on
the volume: a name is looked up, a file is written through its descriptor, some bytes are read.
-/

namespace K3sm.Executor

open K3sm.Core
open K3sm.Core.Filepath (Str)

abbrev Bytes := List UInt8

/-- What is not decided here: the passes of the verification of either datastore, each a
reading of the whole file, and the member the zip reader finds. -/
structure SnapshotFormats where
  checks : DatastoreKind → List (Bytes → Bool)
  inflate : Bytes → Option Bytes

structure SaveRequest where
  kind : DatastoreKind
  out : Str
  compress : Bool
  deriving DecidableEq

def partialSnapshotSuffix : Str := ".tmp".toList

def compressedSnapshotExt : Str := ".zip".toList

def plainStagingPath (dst : Str) : Str :=
  if compressedSnapshotExt <:+ dst then
    dst.take (dst.length - compressedSnapshotExt.length) ++ partialSnapshotSuffix
  else dst ++ ".plain".toList ++ partialSnapshotSuffix

namespace SaveRequest

def tmp (request : SaveRequest) : Str :=
  if request.compress then plainStagingPath request.out
  else request.out ++ partialSnapshotSuffix

/-- Where `compressSnapshotFile` builds the archive. -/
def archive (request : SaveRequest) : Str :=
  request.out ++ partialSnapshotSuffix

end SaveRequest

/-- What a save does next.  `own` and `archive` are the files the save made under its two
staging names, `seen` is what the passes of the verification read. -/
inductive SaveStage
  | clear
  | create
  | fill (own : ℕ)
  | journal (own : ℕ)
  | journaling (own : ℕ)
  | check (own : ℕ) (seen : List Bytes)
  | reading (own file : ℕ) (seen : List Bytes) (read : Bytes)
  | restrict (own : ℕ) (seen : List Bytes)
  | install (own : ℕ) (seen : List Bytes)
  | pack (own : ℕ) (seen : List Bytes)
  | stat (plain : ℕ) (seen : List Bytes)
  | clearArchive (plain size : ℕ) (seen : List Bytes)
  | createArchive (plain size : ℕ) (seen : List Bytes)
  | packing (plain size archive : ℕ) (seen : List Bytes) (read written : Bytes)
  | reopen (archive size : ℕ) (seen : List Bytes) (packed : Bytes)
  | inflating (archive file size : ℕ) (seen : List Bytes) (packed read : Bytes)
  | installArchive (archive : ℕ) (seen : List Bytes) (packed : Bytes)
  | discardArchive
  | discard
  | ended
  deriving DecidableEq

/-- How an operation ends: it succeeds, it fails, it writes some bytes or it reads at most
so many. -/
inductive SaveMove
  | ok
  | fail
  | write (bytes : Bytes)
  | read (count : ℕ)
  deriving DecidableEq

/-- A file that a save gave its final name, with what the save's verification read. -/
structure FinalSnapshot where
  file : ℕ
  request : SaveRequest
  seen : List Bytes
  deriving DecidableEq

/-- The disk, the next free inode, which save made which file, and the final names given. -/
structure SnapshotVolume where
  disk : Disk Str UInt8
  fresh : ℕ
  creator : ℕ → ℕ
  finals : List FinalSnapshot

structure Saves where
  volume : SnapshotVolume
  saves : List (SaveRequest × SaveStage)

/-- A save begins, takes a step or is killed, or a name is removed by something else (the
sweep of partial snapshots, retention, an operator). -/
inductive SaveEvent
  | begins (request : SaveRequest)
  | turn (index : ℕ) (move : SaveMove)
  | killed (index : ℕ)
  | removed (name : Str)
  deriving DecidableEq

namespace SnapshotVolume

def unlink (volume : SnapshotVolume) (name : Str) : SnapshotVolume :=
  { volume with disk := volume.disk.unlink name }

def create (volume : SnapshotVolume) (index : ℕ) (name : Str) : SnapshotVolume :=
  { volume with
    disk := volume.disk.create name volume.fresh
    fresh := volume.fresh + 1
    creator := Function.update volume.creator volume.fresh index }

def rewrite (volume : SnapshotVolume) (file : ℕ) (bytes : Bytes) : SnapshotVolume :=
  { volume with disk := (volume.disk.truncate file 0).write file bytes }

def append (volume : SnapshotVolume) (file : ℕ) (bytes : Bytes) : SnapshotVolume :=
  { volume with disk := volume.disk.write file bytes }

/-- `os.Rename` of the staging name, which `file` has, to the destination. -/
def rename (volume : SnapshotVolume) (source : Str) (file : ℕ) (request : SaveRequest)
    (seen : List Bytes) : SnapshotVolume :=
  { volume with
    disk := volume.disk.rename source request.out
    finals := volume.finals ++ [⟨file, request, seen⟩] }

def content (volume : SnapshotVolume) (file : ℕ) : Bytes :=
  volume.disk.content file

def readOn (volume : SnapshotVolume) (file : ℕ) (read : Bytes) (count : ℕ) : Bytes :=
  read ++ ((volume.content file).drop read.length).take count

def atEnd (volume : SnapshotVolume) (file : ℕ) (read : Bytes) : Bool :=
  decide ((volume.content file).length ≤ read.length)

end SnapshotVolume

section Step

variable (formats : SnapshotFormats) (index : ℕ) (request : SaveRequest)

/-- The next pass of the verification, or what follows the last. -/
def afterCheck (own : ℕ) (seen : List Bytes) : SaveStage :=
  if seen.length < (formats.checks request.kind).length then .check own seen
  else .restrict own seen

/-- `VACUUM INTO` takes a free name or an empty file; etcd's save opens with `O_EXCL`. -/
def createStaging (volume : SnapshotVolume) : SnapshotVolume × SaveStage :=
  match volume.disk.inode request.tmp, request.kind with
  | none, _ => (volume.create index request.tmp, .fill volume.fresh)
  | some file, .kine => (volume, if volume.content file = [] then .fill file else .discard)
  | some _, .etcd => (volume, .ended)

/-- `VACUUM INTO` at work, or `io.Copy` of the member's stream. -/
def fillStaging (volume : SnapshotVolume) (own : ℕ) : SaveMove → SnapshotVolume × SaveStage
  | .write bytes =>
    match request.kind with
    | .kine => (volume.rewrite own bytes, .fill own)
    | .etcd => (volume.append own bytes, .fill own)
  | .ok =>
    match request.kind with
    | .kine => (volume, .journal own)
    | .etcd => (volume, afterCheck formats request own [])
  | .fail => (volume, .discard)
  | .read _ => (volume, .fill own)

/-- `setWALMode` opens the staging name, and SQLite makes the file if it is gone. -/
def openJournal (volume : SnapshotVolume) : SnapshotVolume × SaveStage :=
  match volume.disk.inode request.tmp with
  | some file => (volume, .journaling file)
  | none => (volume.create index request.tmp, .journaling volume.fresh)

def judge (own : ℕ) (seen : List Bytes) (read : Bytes) : SaveStage :=
  match (formats.checks request.kind)[seen.length]? with
  | some check => if check read then afterCheck formats request own (seen ++ [read]) else .discard
  | none => .discard

def readBack (archive size : ℕ) (seen : List Bytes) (packed read : Bytes) : SaveStage :=
  match formats.inflate read with
  | some member =>
    if member.length = size then .installArchive archive seen packed else .discardArchive
  | none => .discardArchive

/-- The statements of `compressSnapshotFile` between its `Open` of the plain snapshot and its
`Rename`, which end in a removal of the archive once there is one. -/
def packStep (volume : SnapshotVolume) : SaveStage → SaveMove → SnapshotVolume × SaveStage
  | .stat plain seen, .ok => (volume, .clearArchive plain (volume.content plain).length seen)
  | .stat _ _, .fail => (volume, .discard)
  | .clearArchive plain size seen, .ok =>
    (volume.unlink request.archive, .createArchive plain size seen)
  | .clearArchive _ _ _, .fail => (volume, .discard)
  | .createArchive plain size seen, .ok =>
    match volume.disk.inode request.archive with
    | none => (volume.create index request.archive, .packing plain size volume.fresh seen [] [])
    | some _ => (volume, .discard)
  | .createArchive _ _ _, .fail => (volume, .discard)
  | .packing plain size archive seen read written, .read count =>
    (volume, .packing plain size archive seen (volume.readOn plain read count) written)
  | .packing plain size archive seen read written, .write bytes =>
    (volume.append archive bytes, .packing plain size archive seen read (written ++ bytes))
  | .packing plain size archive seen read written, .ok =>
    -- the writer closes the archive once all of the plain snapshot is in it
    if volume.atEnd plain read ∧ formats.inflate written = some read then
      (volume, .reopen archive size seen read)
    else (volume, .packing plain size archive seen read written)
  | .packing _ _ _ _ _ _, .fail => (volume, .discardArchive)
  | .reopen archive size seen packed, .ok =>
    match volume.disk.inode request.archive with
    | some file => (volume, .inflating archive file size seen packed [])
    | none => (volume, .discardArchive)
  | .reopen _ _ _ _, .fail => (volume, .discardArchive)
  | .inflating archive file size seen packed read, .read count =>
    (volume, .inflating archive file size seen packed (volume.readOn file read count))
  | .inflating archive file size seen packed read, .ok =>
    if volume.atEnd file read then (volume, readBack formats archive size seen packed read)
    else (volume, .inflating archive file size seen packed read)
  | .inflating _ _ _ _ _ _, .fail => (volume, .discardArchive)
  | .installArchive _ seen _, .ok =>
    match volume.disk.inode request.archive with
    | some file => (volume.rename request.archive file request seen, .discard)
    | none => (volume, .discardArchive)
  | .installArchive _ _ _, .fail => (volume, .discardArchive)
  | stage, _ => (volume, stage)

def saveStep (volume : SnapshotVolume) : SaveStage → SaveMove → SnapshotVolume × SaveStage
  | .clear, .ok => (volume.unlink request.tmp, .create)
  | .clear, .fail => (volume, .ended)
  | .create, .ok => createStaging index request volume
  | .create, .fail =>
    match request.kind with
    | .kine => (volume, .discard)
    | .etcd => (volume, .ended)
  | .fill own, move => fillStaging formats request volume own move
  | .journal _, .ok => openJournal index request volume
  | .journal _, .fail => (volume, .discard)
  | .journaling own, .write bytes => (volume.rewrite own bytes, .journaling own)
  | .journaling own, .ok => (volume, afterCheck formats request own [])
  | .journaling _, .fail => (volume, .discard)
  | .check own seen, .ok =>
    match volume.disk.inode request.tmp with
    | some file => (volume, .reading own file seen [])
    | none => (volume, .discard)
  | .check _ _, .fail => (volume, .discard)
  | .reading own file seen read, .read count =>
    (volume, .reading own file seen (volume.readOn file read count))
  | .reading own file seen read, .ok =>
    if volume.atEnd file read then (volume, judge formats request own seen read)
    else (volume, .reading own file seen read)
  | .reading _ _ _ _, .fail => (volume, .discard)
  | .restrict own seen, .ok =>
    match volume.disk.inode request.tmp, request.compress with
    | none, _ => (volume, .discard)
    | some _, true => (volume, .pack own seen)
    | some _, false => (volume, .install own seen)
  | .restrict _ _, .fail => (volume, .discard)
  | .install _ seen, .ok =>
    match volume.disk.inode request.tmp with
    | some file => (volume.rename request.tmp file request seen, .ended)
    | none => (volume, .discard)
  | .install _ _, .fail => (volume, .discard)
  | .pack _ seen, .ok =>
    match volume.disk.inode request.tmp with
    | some file => (volume, .stat file seen)
    | none => (volume, .discard)
  | .pack _ _, .fail => (volume, .discard)
  | .discardArchive, _ => (volume.unlink request.archive, .discard)
  | .discard, _ => (volume.unlink request.tmp, .ended)
  | stage, move => packStep formats index request volume stage move

end Step

namespace Saves

variable (formats : SnapshotFormats)

def next (saves : Saves) : SaveEvent → Saves
  | .begins request => { saves with saves := saves.saves ++ [(request, .clear)] }
  | .turn index move =>
    match saves.saves[index]? with
    | some (request, stage) =>
      let (volume, stage) := saveStep formats index request saves.volume stage move
      ⟨volume, saves.saves.set index (request, stage)⟩
    | none => saves
  | .killed index =>
    match saves.saves[index]? with
    | some (request, _) => { saves with saves := saves.saves.set index (request, .ended) }
    | none => saves
  | .removed name => { saves with volume := saves.volume.unlink name }

/-- A volume whose files are none of a save's making, with no save begun. -/
def start (disk : Disk Str UInt8) (fresh : ℕ) : Saves where
  volume := ⟨disk, fresh, fun _ => 0, []⟩
  saves := []

end Saves

/-- The file holds what every pass of the verification read and accepted, or an archive of
it. -/
def FinalSnapshot.Holds (formats : SnapshotFormats) (volume : SnapshotVolume)
    (final : FinalSnapshot) : Prop :=
  ∃ image : Bytes,
    (∀ read ∈ final.seen, read = image) ∧
    (∀ check ∈ formats.checks final.request.kind, check image = true) ∧
    if final.request.compress then formats.inflate (volume.content final.file) = some image
    else volume.content final.file = image

/-- Every file that was given a final name holds what was verified. -/
def Saves.AllVerified (formats : SnapshotFormats) (saves : Saves) : Prop :=
  ∀ final ∈ saves.volume.finals, final.Holds formats saves.volume

def SnapshotVolume.Finds (volume : SnapshotVolume) (name : Str) (own : ℕ) : Prop :=
  ∀ file ∈ volume.disk.inode name, file = own

/-- What a save needs of its staging names when it looks one up again. -/
def FindsOwn (volume : SnapshotVolume) (request : SaveRequest) : SaveStage → Prop
  | .create => request.kind = .kine →
      ∀ file ∈ volume.disk.inode request.tmp, volume.content file ≠ []
  | .journal own | .check own _ | .install own _ | .pack own _ => volume.Finds request.tmp own
  | .installArchive archive _ _ => volume.Finds request.archive archive
  | _ => True

/-- Whenever a save opens or renames its staging name, it finds the file it made there
itself, or none; and `VACUUM INTO` does not find the empty file of another save. -/
def Saves.EachFindsOwn (saves : Saves) : SaveEvent → Prop
  | .turn index .ok => ∀ save ∈ saves.saves[index]?, FindsOwn saves.volume save.1 save.2
  | _ => True

instance (volume : SnapshotVolume) (name : Str) (own : ℕ) : Decidable (volume.Finds name own) :=
  inferInstanceAs (Decidable (∀ file ∈ volume.disk.inode name, file = own))

instance (volume : SnapshotVolume) (request : SaveRequest) :
    (stage : SaveStage) → Decidable (FindsOwn volume request stage)
  | .create => inferInstanceAs (Decidable (_ → ∀ file ∈ volume.disk.inode request.tmp, _))
  | .journal own | .check own _ | .install own _ | .pack own _ =>
    inferInstanceAs (Decidable (volume.Finds request.tmp own))
  | .installArchive archive _ _ =>
    inferInstanceAs (Decidable (volume.Finds request.archive archive))
  | .clear | .fill _ | .journaling _ | .reading _ _ _ _ | .restrict _ _ | .stat _ _
  | .clearArchive _ _ _ | .createArchive _ _ _ | .packing _ _ _ _ _ _ | .reopen _ _ _ _
  | .inflating _ _ _ _ _ _ | .discardArchive | .discard | .ended => .isTrue trivial

instance (saves : Saves) : (event : SaveEvent) → Decidable (saves.EachFindsOwn event)
  | .turn index .ok => inferInstanceAs (Decidable (∀ save ∈ saves.saves[index]?, _))
  | .turn _ .fail | .turn _ (.write _) | .turn _ (.read _) | .begins _ | .killed _ | .removed _ =>
    .isTrue trivial

end K3sm.Executor
