import K3sm.Core.HardLinks
import K3sm.Registry.Rows

/-!
# Upload sessions

A session is a file under the repository's uploads/ whose length is its offset.  A commit links
that file into blobs/, so the session and the published blob are one inode.  Requests, the
collector and other processes work on it at once: each opens the path, takes the file's flock, and
checks again what it opened.

The model is the system calls, one step each, of any number of threads in any number of processes.
-/

namespace K3sm.Registry.Upload

open K3sm.Core Function

variable {Byte : Type}

structure Session where
  repo : String
  id : String
  deriving DecidableEq

inductive Path where
  | upload (session : Session)
  | blob (repo : String) (digest : Digest)
  | temp (repo id : String)
  deriving DecidableEq

def Path.random : Path → Bool
  | .upload _ => true
  | .blob _ _ => false
  | .temp _ _ => true

def Path.isUpload : Path → Bool
  | .upload _ => true
  | _ => false

inductive Algorithm where
  | sha256
  | sha512
  deriving DecidableEq

def algorithm : Digest → Option Algorithm
  | .sha256 _ => some .sha256
  | .sha512 _ => some .sha512
  | .plain _ => none

structure Hashing (Byte : Type) where
  sha256 : List Byte → ℕ
  sha512 : List Byte → ℕ

def Hashing.verified (hashing : Hashing Byte) (bytes : List Byte) : Digest → Bool
  | .sha256 encoded => hashing.sha256 bytes == encoded
  | .sha512 encoded => hashing.sha512 bytes == encoded
  | .plain _ => false

/-- `hashState`: `h` stands for the hash by the bytes it was fed. -/
structure HashState (Byte : Type) where
  h : Option (List Byte)
  n : ℕ
  teed : ℕ

namespace HashState

def newHashState : HashState Byte := ⟨some [], 0, 0⟩

/-- What `lose` leaves, and the zero value an unseen key gets. -/
def lost : HashState Byte := ⟨none, 0, 0⟩

def writer (state : HashState Byte) : HashState Byte := { state with teed := 0 }

/-- `hashWriter.Write`, or `io.Discard` once the state is lost. -/
def write (state : HashState Byte) (bytes : List Byte) : HashState Byte :=
  match state.h with
  | none => state
  | some fed => { state with h := some (fed ++ bytes), teed := state.teed + bytes.length }

def settle (state : HashState Byte) (newLen : ℕ) (ok : Bool) : HashState Byte :=
  match state.h with
  | none => state
  | some _ =>
    if ok = false ∧ state.teed = 0 then state
    else if ok = true ∧ (newLen : ℤ) - state.teed = state.n then
      { state with n := newLen, teed := 0 }
    else lost

def sum (hashing : Hashing Byte) (state : HashState Byte) : Option Algorithm → Option (Digest × ℕ)
  | some .sha256 => state.h.map fun fed => (.sha256 (hashing.sha256 fed), state.n)
  | _ => none

/-- The server's `commit`: the length its hash covers, when that hash is the digest. -/
def covers (hashing : Hashing Byte) (state : HashState Byte) (digest : Digest) : Option ℕ :=
  match state.sum hashing (algorithm digest) with
  | some (sum, size) => if sum = digest then some size else none
  | none => none

end HashState

/-- A `session` of the table.  `holder` is the thread that has its mutex. -/
structure Entry (Byte : Type) where
  proc : ℕ
  session : Session
  hash : HashState Byte
  holder : Option ℕ

/-- The store operation a thread is in.  `hashed` is the length a streamed hash covered. -/
inductive Call where
  | append (offset limit : ℤ)
  | commit (digest : Digest) (hashed : Option ℕ)
  | cancel
  | reap
  deriving DecidableEq

/-- Where an operation stands once it has the session's flock. -/
inductive Phase (Byte : Type) where
  | locked
  | statted (links : ℕ)
  | checked
  | copying (base : ℕ) (read : List Byte) (written : ℕ)
  | cutting (base written : ℕ)
  | hashing (read : List Byte)
  | verified
  | linking
  | comparing
  | replacing
  | staged (temp : String)
  | moving (temp : String)
  | removing
  | closing (newLen : ℕ) (ok : Bool)

inductive Stage (Byte : Type) where
  | idle
  | admitted
  | queued
  | opening
  | waiting (file : ℕ)
  | holding (file : ℕ) (phase : Phase Byte)
  | returned (newLen : ℕ) (ok : Bool)

/-- A request, or a goroutine of the collector, at work on one session. -/
structure Thread (Byte : Type) where
  proc : ℕ
  session : Session
  entry : Option ℕ
  call : Call
  stage : Stage Byte

def Thread.path (thread : Thread Byte) : Path := .upload thread.session

def Thread.blobPath (thread : Thread Byte) (digest : Digest) : Path :=
  .blob thread.session.repo digest

def Thread.tempPath (thread : Thread Byte) (temp : String) : Path :=
  .temp thread.session.repo temp

/-- What the processes share.  `minted` remembers the inode each random name was made for:
`newID` and `tempName` draw 122 random bits and never give a name twice. -/
structure Volume (Byte : Type) where
  disk : Disk Path Byte
  nextInode : ℕ
  minted : Path → Option ℕ
  flock : ℕ → Option ℕ

inductive Effect (Byte : Type) where
  | quiet
  | lock (tid file : ℕ)
  | unlock (file : ℕ)
  | create (path : Path)
  | write (file : ℕ) (bytes : List Byte)
  | truncate (file length : ℕ)
  | link (source target : Path)
  | linkTemp (source target : Path)
  | rename (source target : Path)
  | replace (source target : Path)
  | unlink (path : Path)

def Volume.apply (volume : Volume Byte) : Effect Byte → Volume Byte
  | .quiet => volume
  | .lock tid file => { volume with flock := update volume.flock file (some tid) }
  | .unlock file => { volume with flock := update volume.flock file none }
  | .create path =>
    { volume with
      disk := volume.disk.create path volume.nextInode
      nextInode := volume.nextInode + 1
      minted := update volume.minted path (some volume.nextInode) }
  | .write file bytes => { volume with disk := volume.disk.write file bytes }
  | .truncate file length => { volume with disk := volume.disk.truncate file length }
  | .link source target => { volume with disk := volume.disk.link source target }
  | .linkTemp source target =>
    { volume with
      disk := volume.disk.link source target
      minted := update volume.minted target (volume.disk.inode source) }
  | .rename source target => { volume with disk := volume.disk.rename source target }
  | .replace source target =>
    { volume with disk := volume.disk.point target (volume.disk.inode source) }
  | .unlink path => { volume with disk := volume.disk.unlink path }

/-! ## The steps of an operation -/

inductive Action (Byte : Type) where
  | openFile
  | flock
  | stat
  | lstat (idle : Bool)
  | size
  | receive (bytes : List Byte)
  | write (count : ℕ)
  | finish
  | probe (byte : Byte)
  | cut
  | decide
  | hash (count : ℕ)
  | verify
  | recheck
  | link
  | compare
  | linkTemp (temp : String)
  | checkTemp
  | rename
  | remove
  | fail
  | close

/-- What one step does: its system call, the bytes the tee saw, and where it leads. -/
structure Move (Byte : Type) where
  effect : Effect Byte
  feed : List Byte
  stage : Stage Byte

def Move.quiet (stage : Stage Byte) : Move Byte := ⟨.quiet, [], stage⟩

/-- `checkSession`, given that the path names the file: the single link rule binds appends
only.  The reaper takes a session with more links, or an idle one. -/
def Call.pass (call : Call) (links : ℕ) (idle : Bool) : Option (Phase Byte) :=
  match call with
  | .append _ _ => if links = 1 then some .checked else none
  | .commit _ _ => some .checked
  | .cancel => some .removing
  | .reap => if 1 < links ∨ idle = true then some .removing else none

/-- Whether a chunk may still bring `count` bytes past `base`: `io.LimitReader` with
`max(limit-size, 0)` bytes, or no limit when it is negative. -/
def fits (limit : ℤ) (base count : ℕ) : Bool := limit < 0 || (count : ℤ) ≤ max (limit - base) 0

/-- Whether the limit is reached exactly, which is when a byte is probed for. -/
def full (limit : ℤ) (base count : ℕ) : Bool := 0 ≤ limit && (count : ℤ) = max (limit - base) 0

/-- `commitUpload` does not read the file again when the hash covered all of it and nothing
else has linked it. -/
def trusts (hashed : Option ℕ) (size links : ℕ) : Bool := hashed = some size && links = 1

/-- An error return: the file is closed on the way out, and an append reports how far the
session got. -/
def Phase.failed : Phase Byte → Option (Phase Byte)
  | .copying base _ written => some (.closing (base + written) false)
  | .cutting base written => some (.closing (base + written) false)
  | .closing _ _ => none
  | _ => some (.closing 0 false)

/-- The stage a thread is in once its call has returned; an append's outcome is still to
be settled. -/
def Call.returns : Call → ℕ → Bool → Stage Byte
  | .append _ _, newLen, ok => .returned newLen ok
  | _, _, _ => .idle

def Thread.holding (thread : Thread Byte) (volume : Volume Byte) (hashing : Hashing Byte)
    (file : ℕ) : Phase Byte → Action Byte → Option (Move Byte)
  | .locked, .stat => some (.quiet (.holding file (.statted (volume.disk.nlink file))))
  | .statted links, .lstat idle =>
    if volume.disk.inode thread.path = some file then
      (thread.call.pass links idle).map fun phase => .quiet (.holding file phase)
    else none
  | .checked, .size =>
    match thread.call with
    | .append offset _ =>
      let size := (volume.disk.content file).length
      if 0 ≤ offset ∧ offset ≠ size then some (.quiet (.holding file (.closing size false)))
      else some (.quiet (.holding file (.copying size [] 0)))
    | _ => none
  | .copying base read written, .receive bytes =>
    match thread.call with
    | .append _ limit =>
      if written = read.length ∧ fits limit base (read.length + bytes.length) = true then
        some ⟨.quiet, bytes, .holding file (.copying base (read ++ bytes) written)⟩
      else none
    | _ => none
  | .copying base read written, .write count =>
    let bytes := (read.drop written).take count
    some ⟨.write file bytes, [], .holding file (.copying base read (written + bytes.length))⟩
  | .copying base read written, .finish =>
    if written = read.length then some (.quiet (.holding file (.closing (base + written) true)))
    else none
  | .copying base read written, .probe byte =>
    match thread.call with
    | .append _ limit =>
      if written = read.length ∧ full limit base written = true then
        some ⟨.quiet, [byte], .holding file (.cutting base written)⟩
      else none
    | _ => none
  | .cutting base _, .cut => some ⟨.truncate file base, [], .holding file (.closing base false)⟩
  | .checked, .decide =>
    match thread.call with
    | .commit _ hashed =>
      if trusts hashed (volume.disk.content file).length (volume.disk.nlink file) = true then
        some (.quiet (.holding file .verified))
      else some (.quiet (.holding file (.hashing [])))
    | _ => none
  | .hashing read, .hash count =>
    some (.quiet (.holding file
      (.hashing (read ++ ((volume.disk.content file).drop read.length).take count))))
  | .hashing read, .verify =>
    match thread.call with
    | .commit digest _ =>
      if (volume.disk.content file).length ≤ read.length then
        if hashing.verified read digest = true then some (.quiet (.holding file .verified))
        else some (.quiet (.holding file (.closing 0 false)))
      else none
    | _ => none
  | .verified, .recheck =>
    if volume.disk.inode thread.path = some file then some (.quiet (.holding file .linking))
    else none
  | .linking, .link =>
    match thread.call, volume.disk.inode thread.path with
    | .commit digest _, some _ =>
      some ⟨.link thread.path (thread.blobPath digest), [], .holding file .comparing⟩
    | _, _ => none
  | .comparing, .compare =>
    match thread.call with
    | .commit digest _ =>
      (volume.disk.inode (thread.blobPath digest)).map fun found =>
        if found = file ∨ hashing.verified (volume.disk.content found) digest = true then
          .quiet (.holding file .removing)
        else .quiet (.holding file .replacing)
    | _ => none
  | .replacing, .linkTemp temp =>
    if volume.minted (thread.tempPath temp) = none ∧
        (volume.disk.inode thread.path).isSome = true then
      some ⟨.linkTemp thread.path (thread.tempPath temp), [], .holding file (.staged temp)⟩
    else none
  | .staged temp, .checkTemp =>
    if volume.disk.inode (thread.tempPath temp) = some file then
      some (.quiet (.holding file (.moving temp)))
    else none
  | .moving temp, .rename =>
    match thread.call, volume.disk.inode (thread.tempPath temp) with
    | .commit digest _, some _ =>
      some ⟨.rename (thread.tempPath temp) (thread.blobPath digest), [], .holding file .removing⟩
    | _, _ => none
  | .removing, .remove => some ⟨.unlink thread.path, [], .holding file (.closing 0 true)⟩
  | .closing newLen ok, .close => some ⟨.unlock file, [], thread.call.returns newLen ok⟩
  | phase, .fail => phase.failed.map fun phase => .quiet (.holding file phase)
  | _, _ => none

def Thread.move (thread : Thread Byte) (tid : ℕ) (volume : Volume Byte) (hashing : Hashing Byte)
    (action : Action Byte) : Option (Move Byte) :=
  match thread.stage, action with
  | .opening, .openFile => (volume.disk.inode thread.path).map fun file => .quiet (.waiting file)
  | .opening, .fail => some (.quiet (thread.call.returns 0 false))
  | .waiting file, .flock =>
    if volume.flock file = none then some ⟨.lock tid file, [], .holding file .locked⟩ else none
  | .waiting _, .fail => some (.quiet (thread.call.returns 0 false))
  | .holding file phase, action => thread.holding volume hashing file phase action
  | _, _ => none

/-- The volume, the threads that serve uploads on it, and their entries. -/
structure World (Byte : Type) where
  volume : Volume Byte
  threads : ℕ → Option (Thread Byte)
  entries : ℕ → Option (Entry Byte)
  nextEntry : ℕ
  table : ℕ → Session → Option ℕ

inductive Request where
  | append (offset limit : ℤ)
  | commit (digest : Digest)
  | cancel
  | reap
  deriving DecidableEq

/-- A step of a thread, of the process or of the volume. -/
inductive Op (Byte : Type) where
  | spawn (tid proc : ℕ) (session : Session)
  | newUpload (tid : ℕ) (tracked : Bool)
  | bind (tid : ℕ)
  | acquire (tid : ℕ)
  | lockEntry (tid : ℕ)
  | release (tid : ℕ)
  | forget (proc : ℕ) (session : Session)
  | call (tid : ℕ) (request : Request)
  | act (tid : ℕ) (action : Action Byte)
  | settle (tid : ℕ)
  | mount (source repo : String) (digest : Digest)
  | mountReplace (source repo : String) (digest : Digest)
  | removeBlob (repo : String) (digest : Digest)
  | removeTemp (repo id : String)
  | stop (proc : ℕ)

namespace World

variable (world : World Byte)

def setThread (tid : ℕ) (thread : Thread Byte) : World Byte :=
  { world with threads := update world.threads tid (some thread) }

def onHash (entry : Option ℕ) (change : HashState Byte → HashState Byte) : World Byte :=
  match entry with
  | none => world
  | some key =>
    { world with
      entries := update world.entries key
        ((world.entries key).map fun entry => { entry with hash := change entry.hash }) }

@[simp]
theorem onHash_volume (entry : Option ℕ) (change : HashState Byte → HashState Byte) :
    (world.onHash entry change).volume = world.volume := by
  cases entry <;> rfl

@[simp]
theorem onHash_threads (entry : Option ℕ) (change : HashState Byte → HashState Byte) :
    (world.onHash entry change).threads = world.threads := by
  cases entry <;> rfl

@[simp]
theorem onHash_table (entry : Option ℕ) (change : HashState Byte → HashState Byte) :
    (world.onHash entry change).table = world.table := by
  cases entry <;> rfl

@[simp]
theorem onHash_nextEntry (entry : Option ℕ) (change : HashState Byte → HashState Byte) :
    (world.onHash entry change).nextEntry = world.nextEntry := by
  cases entry <;> rfl

theorem onHash_entries_self (key : ℕ) (change : HashState Byte → HashState Byte) :
    (world.onHash (some key) change).entries key =
      (world.entries key).map fun entry => { entry with hash := change entry.hash } := by
  simp [onHash]

theorem onHash_entries_of_ne {entry : Option ℕ} {key : ℕ} (hne : entry ≠ some key)
    (change : HashState Byte → HashState Byte) :
    (world.onHash entry change).entries key = world.entries key := by
  cases entry with
  | none => rfl
  | some other =>
    have hother : key ≠ other := by
      rintro rfl
      exact hne rfl
    simp [onHash, hother]

/-- `acquire`'s entry for a key the server has not seen, or `admit`'s for a new session. -/
def addEntry (entry : Entry Byte) : World Byte :=
  { world with
    entries := update world.entries world.nextEntry (some entry)
    nextEntry := world.nextEntry + 1 }

def setTable (proc : ℕ) (session : Session) (entry : Option ℕ) : World Byte :=
  { world with
    table := update world.table proc (update (world.table proc) session entry) }

def newUpload (tid : ℕ) (thread : Thread Byte) (tracked : Bool) : Option (World Byte) :=
  match thread.stage, thread.entry, world.volume.minted thread.path with
  | .idle, none, none =>
    let made := { world with volume := world.volume.apply (.create thread.path) }
    if tracked = true then
      some ((made.addEntry ⟨thread.proc, thread.session, .newHashState, some tid⟩).setThread tid
        { thread with entry := some world.nextEntry, stage := .admitted })
    else some made
  | _, _, _ => none

def bind (tid : ℕ) (thread : Thread Byte) : Option (World Byte) :=
  match thread.stage, thread.entry with
  | .admitted, some key =>
    some ((world.setTable thread.proc thread.session (some key)).setThread tid
      { thread with stage := .idle })
  | _, _ => none

/-- `acquire` up to the wait for the entry's mutex. -/
def acquire (tid : ℕ) (thread : Thread Byte) : Option (World Byte) :=
  match thread.stage, thread.entry with
  | .idle, none =>
    match world.table thread.proc thread.session with
    | some key =>
      some (world.setThread tid { thread with entry := some key, stage := .queued })
    | none =>
      some (((world.addEntry ⟨thread.proc, thread.session, .lost, none⟩).setTable thread.proc
        thread.session (some world.nextEntry)).setThread tid
          { thread with entry := some world.nextEntry, stage := .queued })
  | _, _ => none

def setHolder (key : ℕ) (entry : Entry Byte) (holder : Option ℕ) : World Byte :=
  { world with
    entries := update world.entries key (some { entry with holder := holder }) }

def lockEntry (tid : ℕ) (thread : Thread Byte) : Option (World Byte) :=
  match thread.stage, thread.entry with
  | .queued, some key =>
    match world.entries key with
    | some entry =>
      match entry.holder with
      | none =>
        some ((world.setHolder key entry (some tid)).setThread tid { thread with stage := .idle })
      | some _ => none
    | none => none
  | _, _ => none

def release (tid : ℕ) (thread : Thread Byte) : Option (World Byte) :=
  match thread.stage, thread.entry with
  | .idle, some key =>
    match world.entries key with
    | some entry =>
      some ((world.setHolder key entry none).setThread tid { thread with entry := none })
    | none => none
  | _, _ => none

/-- The length the thread's entry vouches for, when it has one. -/
def hashedFor (hashing : Hashing Byte) (thread : Thread Byte) (digest : Digest) : Option ℕ :=
  match thread.entry with
  | none => none
  | some key =>
    match world.entries key with
    | none => none
    | some entry => entry.hash.covers hashing digest

/-- A handler's call: an append asks the entry for its `writer`, a commit for its `sum`. -/
def startCall (hashing : Hashing Byte) (tid : ℕ) (thread : Thread Byte) (request : Request) :
    Option (World Byte) :=
  match thread.stage, request with
  | .idle, .append offset limit =>
    some ((world.onHash thread.entry HashState.writer).setThread tid
      { thread with call := .append offset limit, stage := .opening })
  | .idle, .commit digest =>
    if (parseDigest digest).isSome = true then
      some (world.setThread tid
        { thread with
          call := .commit digest (world.hashedFor hashing thread digest), stage := .opening })
    else none
  | .idle, .cancel => some (world.setThread tid { thread with call := .cancel, stage := .opening })
  | .idle, .reap => some (world.setThread tid { thread with call := .reap, stage := .opening })
  | _, _ => none

/-- One step of the thread: its system call, its tee, and its next stage. -/
def perform (tid : ℕ) (thread : Thread Byte) (move : Move Byte) : World Byte :=
  (({ world with volume := world.volume.apply move.effect }).onHash thread.entry
    fun state => state.write move.feed).setThread tid { thread with stage := move.stage }

@[simp]
theorem perform_volume (tid : ℕ) (thread : Thread Byte) (move : Move Byte) :
    (world.perform tid thread move).volume = world.volume.apply move.effect := by
  simp [perform, setThread]

def settle (tid : ℕ) (thread : Thread Byte) : Option (World Byte) :=
  match thread.stage with
  | .returned newLen ok =>
    some ((world.onHash thread.entry fun state => state.settle newLen ok).setThread tid
      { thread with stage := .idle })
  | _ => none

def runsIn (proc tid : ℕ) : Bool :=
  match world.threads tid with
  | some thread => thread.proc = proc
  | none => false

/-- A process ends: its memory goes, and its descriptors close, flocks included. -/
def stop (proc : ℕ) : World Byte where
  volume :=
    { world.volume with
      flock := fun file => (world.volume.flock file).filter fun tid => !world.runsIn proc tid }
  threads := fun tid => (world.threads tid).filter fun thread => thread.proc ≠ proc
  entries := fun key => (world.entries key).filter fun entry => entry.proc ≠ proc
  nextEntry := world.nextEntry
  table := update world.table proc fun _ => none

def onVolume (effect : Effect Byte) : World Byte :=
  { world with volume := world.volume.apply effect }

/-- `linkBlob` for a mount puts the source's inode in place of a blob that is not the digest. -/
def mountReplace (hashing : Hashing Byte) (source repo : String) (digest : Digest) :
    Option (World Byte) :=
  match world.volume.disk.inode (.blob source digest),
    world.volume.disk.inode (.blob repo digest) with
  | some file, some found =>
    if found ≠ file ∧ hashing.verified (world.volume.disk.content found) digest = false ∧
        hashing.verified (world.volume.disk.content file) digest = true then
      some (world.onVolume (.replace (.blob source digest) (.blob repo digest)))
    else none
  | _, _ => none

def next (hashing : Hashing Byte) : Op Byte → Option (World Byte)
  | .spawn tid proc session =>
    match world.threads tid with
    | none => some (world.setThread tid ⟨proc, session, none, .cancel, .idle⟩)
    | some _ => none
  | .newUpload tid tracked =>
    (world.threads tid).bind fun thread => world.newUpload tid thread tracked
  | .bind tid => (world.threads tid).bind fun thread => world.bind tid thread
  | .acquire tid => (world.threads tid).bind fun thread => world.acquire tid thread
  | .lockEntry tid => (world.threads tid).bind fun thread => world.lockEntry tid thread
  | .release tid => (world.threads tid).bind fun thread => world.release tid thread
  | .forget proc session => some (world.setTable proc session none)
  | .call tid request =>
    (world.threads tid).bind fun thread => world.startCall hashing tid thread request
  | .act tid action =>
    (world.threads tid).bind fun thread =>
      (thread.move tid world.volume hashing action).map (world.perform tid thread)
  | .settle tid => (world.threads tid).bind fun thread => world.settle tid thread
  | .mount source repo digest =>
    some (world.onVolume (.link (.blob source digest) (.blob repo digest)))
  | .mountReplace source repo digest => world.mountReplace hashing source repo digest
  | .removeBlob repo digest => some (world.onVolume (.unlink (.blob repo digest)))
  | .removeTemp repo id => some (world.onVolume (.unlink (.temp repo id)))
  | .stop proc => some (world.stop proc)

end World

end K3sm.Registry.Upload
