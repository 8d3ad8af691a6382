import K3sm.Core.Tally
import K3sm.Registry.RowWrites

/-!
# The per-type quota

A manifest PUT of a limited artifact type is admitted against a count the server keeps in memory:
which manifests are counted, and how many bytes the distinct layers they name take.  The count is
not the store.  It is read from the store without a lock, one repository after another, kept up to
date by the PUTs themselves, and thrown away by every removal.
-/

namespace K3sm.Registry.QuotaCount

open K3sm.Core

variable {Bytes : Type}

/-- The server's limits, and the blobs of the store: `blob` is what a digest names and
`held` whether a repository holds it.  No blob comes or goes here. -/
structure Env (Bytes : Type) where
  codec : Codec Bytes
  indexLen : List Row → ℕ
  limits : Text → Option ℤ
  limits_named : limits (.plain "") = none
  blob : Digest → Bytes
  blob_eq : ∀ {body digest}, codec.hashesTo body digest = true → blob digest = body
  held : String → Digest → Bool

def Env.records (env : Env Bytes) (repo : String) : RowRecord.Env where
  name := repo
  indexLen := env.indexLen

/-- What `StatBlob` answers for a blob that is there. -/
def Env.size (env : Env Bytes) (digest : Digest) : ℤ := env.codec.len (env.blob digest)

def Env.limited (env : Env Bytes) (artifactType : Text) : Bool := (env.limits artifactType).isSome

/-- `quotaKey`. -/
structure Key where
  repo : String
  digest : Digest
  deriving DecidableEq

structure Entry where
  artifactType : Text
  layers : List Digest
  deriving DecidableEq

/-- The entry of a manifest: each layer once, and only those the repository holds. -/
def Env.entry (env : Env Bytes) (repo : String) (artifactType : Text) (layers : List Digest) :
    Entry where
  artifactType := artifactType
  layers := (layers.filter (env.held repo)).dedup

/-- `quotaShape`: what a digest's body says. -/
structure Shape where
  artifactType : Text
  layers : List Digest
  deriving DecidableEq

/-- `quotaShapeOf`: a body that is no image manifest has no type, and only a limited
type keeps its layers. -/
def quotaShapeOf (env : Env Bytes) (digest : Digest) : Shape :=
  match (env.codec.json (env.blob digest)).bind (decodeInto decodeManifestMember) with
  | none => ⟨.plain "", []⟩
  | some manifest =>
    let artifactType :=
      env.codec.artifactType manifest.artifactType manifest.config.mediaType
    ⟨artifactType,
      if env.limited artifactType then (sliceElements manifest.layers).map Descriptor.digest
      else []⟩

def Env.keyEntry (env : Env Bytes) (key : Key) : Entry :=
  env.entry key.repo (quotaShapeOf env key.digest).artifactType (quotaShapeOf env key.digest).layers

def readRows (env : Env Bytes) (repo : String) (rows : List Row) : List Key :=
  (((rows.filter fun row => !isIndexType row.mediaType).map (·.digest)).dedup.filter
    fun digest => env.limited (quotaShapeOf env digest).artifactType).map (Key.mk repo)

/-- `quotaCharge`: one counted manifest and who holds it. -/
structure Charge where
  key : Key
  entry : Entry
  stored : Bool
  holds : ℕ
  doneSeq : ℕ
  deriving DecidableEq

/-- A rebuild between its start and its install: the generation and sequence it began with,
the repositories still to read, if listed, and the manifests it has read. -/
structure Rebuild where
  gen : ℕ
  seq : ℕ
  todo : Option (List String)
  read : List Key

/-- The layers charged to each artifact type. -/
structure Quota where
  built : Bool
  building : Option Rebuild
  gen : ℕ
  seq : ℕ
  charges : List Charge
  count : Text → Tally Digest

def Quota.new : Quota where
  built := false
  building := none
  gen := 0
  seq := 0
  charges := []
  count := fun _ => Tally.empty

def Quota.usage (quota : Quota) (artifactType : Text) : ℤ := (quota.count artifactType).total

def Quota.counts (quota : Quota) (key : Key) : Bool := quota.charges.any (·.key = key)

def Quota.charge (env : Env Bytes) (quota : Quota) (entry : Entry) : Quota :=
  { quota with
    count := Function.update quota.count entry.artifactType
      ((quota.count entry.artifactType).addAll env.size entry.layers) }

def Quota.uncharge (quota : Quota) (entry : Entry) : Quota :=
  { quota with
    count := Function.update quota.count entry.artifactType
      ((quota.count entry.artifactType).removeAll entry.layers) }

/-- `hold`: `none` refuses the PUT. -/
def Quota.hold (env : Env Bytes) (quota : Quota) (key : Key) (entry : Entry) (limit : ℤ) :
    Option Quota :=
  if quota.counts key then
    some { quota with
      charges := quota.charges.map fun charge =>
        if charge.key = key then { charge with holds := charge.holds + 1 } else charge }
  else if limit < quota.usage entry.artifactType +
      (quota.count entry.artifactType).grows env.size entry.layers then none
  else some (Quota.charge env { quota with
    charges := ⟨key, entry, false, 1, 0⟩ :: quota.charges } entry)

def Charge.unhold (charge : Charge) (wrote : Bool) (seq : ℕ) : Charge :=
  if wrote then { charge with holds := charge.holds - 1, stored := true, doneSeq := seq }
  else { charge with holds := charge.holds - 1 }

/-- `drop`'s test: nothing holds the charge. -/
def Charge.idle (charge : Charge) : Bool := !charge.stored && charge.holds == 0

/-- `unhold`, and the `drop` at its end. -/
def Quota.unhold (quota : Quota) (key : Key) (wrote : Bool) : Quota :=
  match quota.charges.find? (·.key = key) with
  | none => quota
  | some charge =>
    let seq := if wrote then quota.seq + 1 else quota.seq
    let left := charge.unhold wrote seq
    if left.idle then
      Quota.uncharge { quota with
        seq := seq
        charges := quota.charges.filter (·.key ≠ key) } charge.entry
    else
      { quota with
        seq := seq
        charges := quota.charges.map fun charge => if charge.key = key then left else charge }

def Quota.invalidate (quota : Quota) : Quota :=
  { quota with built := false, gen := quota.gen + 1 }

/-- Whether a PUT wrote the charge after `seq`. -/
def Charge.wroteSince (charge : Charge) (seq : ℕ) : Bool := charge.stored && seq < charge.doneSeq

def Charge.kept (charge : Charge) (seq : ℕ) : Bool := charge.holds != 0 || charge.wroteSince seq

def readCharge (env : Env Bytes) (old : List Charge) (seq : ℕ) (key : Key) : Charge :=
  match old.find? (·.key = key) with
  | some charge =>
    if charge.kept seq then ⟨key, env.keyEntry key, true, charge.holds, charge.doneSeq⟩
    else ⟨key, env.keyEntry key, true, 0, 0⟩
  | none => ⟨key, env.keyEntry key, true, 0, 0⟩

def installed (env : Env Bytes) (old : List Charge) (read : List Key) (seq : ℕ) : List Charge :=
  read.map (readCharge env old seq) ++
    ((old.filter fun charge => charge.kept seq && charge.key ∉ read).map fun charge =>
      { charge with stored := charge.wroteSince seq })

/-- `install`: the count starts again from the new charges. -/
def Quota.install (env : Env Bytes) (quota : Quota) (read : List Key) (seq : ℕ) : Quota :=
  let charges := installed env quota.charges read seq
  charges.foldl (fun quota charge => quota.charge env charge.entry)
    { quota with built := true, charges := charges, count := fun _ => Tally.empty }

/-! ## The store and the requests -/

/-- Every repository's index.json and record, and the names a listing goes through. -/
structure Store where
  files : String → RowRecord.Files
  dirs : List String
  listed : ∀ repo, (files repo).index.isSome → repo ∈ dirs

def Store.rows (store : Store) (repo : String) : List Row := (store.files repo).index.getD []

def Store.repositories (store : Store) : List String :=
  store.dirs.filter fun repo => (store.files repo).index.isSome

def Store.set (store : Store) (repo : String) (files : RowRecord.Files) : Store where
  files := Function.update store.files repo files
  dirs := store.dirs.insert repo
  listed := by
    intro other hother
    by_cases hsame : other = repo
    · exact hsame ▸ List.mem_insert_self
    · rw [Function.update_of_ne hsame] at hother
      exact List.mem_insert_of_mem (store.listed other hother)

/-- A manifest PUT the server has parsed.  A PUT by tag names its body by sha256. -/
structure Put (env : Env Bytes) where
  repo : String
  tag : Option String
  digest : Digest
  mediaType : Text
  checked : CheckedManifest
  hashes : env.codec.hashesTo (env.blob digest) digest = true
  accepted : checkManifest env.codec mediaType (env.blob digest) = .ok checked
  canonical : tag.isSome → digest = .sha256 (env.codec.sha256 (env.blob digest))

def Put.key {env : Env Bytes} (put : Put env) : Key := ⟨put.repo, put.digest⟩

def Put.limited {env : Env Bytes} (put : Put env) : Bool := env.limited put.checked.artifactType

def Put.descriptor {env : Env Bytes} (put : Put env) (digest : Digest) : Descriptor :=
  ⟨put.mediaType, digest, env.codec.len (env.blob put.digest)⟩

def Put.write {env : Env Bytes} (put : Put env) : RowRecord.Write :=
  match put.tag with
  | some tag => .putTagged (put.descriptor put.digest) tag
  | none => .putUntagged (put.descriptor put.digest)

/-- The sha256 digest of the body, under which the `?tag=` values of a PUT by digest
are written. -/
def Put.canonicalDigest {env : Env Bytes} (put : Put env) : Digest :=
  .sha256 (env.codec.sha256 (env.blob put.digest))

/-- A PUT the quota has admitted: whether its row is written, and whether the handler
still goes on to write tags. -/
structure Thread (env : Env Bytes) where
  put : Put env
  wrote : Bool
  active : Bool

inductive Removal where
  | byTag (tag : String) (keep : Row → Option Bool)
  | byDigest (digest : Digest)

def Removal.write : Removal → RowRecord.Write
  | .byTag tag keep => .deleteTag tag keep
  | .byDigest digest => .deleteDigest digest

/-- `deletes` counts the DELETEs between their row removal and their invalidate. -/
structure World (env : Env Bytes) where
  store : Store
  quota : Quota
  puts : List (Thread env)
  deletes : ℕ

/-- Whether a row write that took `stop` steps can return without an error.  `idle` is what
the caller makes of a write that changes nothing. -/
def answers (records : RowRecord.Env) (files : RowRecord.Files) (write : RowRecord.Write)
    (idle : Bool) (stop : ℕ) : Bool :=
  match files.index with
  | none => false
  | some rows =>
    match write.change rows with
    | none => idle
    | some changed =>
      records.indexLen changed ≤ RowRecord.maxIndexLen &&
        (RowRecord.updateIndex records files write).length ≤ stop

def writeRows (records : RowRecord.Env) (files : RowRecord.Files) (write : RowRecord.Write)
    (stop : ℕ) : RowRecord.Files :=
  (RowRecord.updateIndex records files write).stopAfter stop files

/-- The files a PUT's row write starts from: its body was stored first, and with it
the layout. -/
def Store.opened (env : Env Bytes) (store : Store) (repo : String) : RowRecord.Files :=
  (RowRecord.initLocked (env.records repo) (store.files repo)).finish (store.files repo)

/-- A step of a PUT, of a delete or of a rebuild of the quota. -/
inductive Op (env : Env Bytes) where
  | admitQuota (put : Put env)
  | write (index : ℕ) (stop : ℕ) (ok : Bool)
  | writeTag (index : ℕ) (tag : String) (stop : ℕ) (ok : Bool)
  | finish (index : ℕ)
  | delete (repo : String) (removal : Removal) (stop : ℕ) (ok : Bool)
  | invalidate
  | beginRebuild
  | listRepositories
  | readRepository
  | endRebuild
  | failRebuild

def World.admitQuota {env : Env Bytes} (world : World env) (put : Put env) : Option (World env) :=
  match env.limits put.checked.artifactType with
  | none => some { world with puts := ⟨put, false, true⟩ :: world.puts }
  | some limit =>
    if world.quota.built then
      (world.quota.hold env put.key
        (env.entry put.repo put.checked.artifactType put.checked.layers) limit).map
        fun quota => { world with quota := quota, puts := ⟨put, false, true⟩ :: world.puts }
    else none

/-- A row write of the PUT at `index`, which goes on only when it returned no error. -/
def World.writeRow {env : Env Bytes} (world : World env) (index : ℕ) (thread : Thread env)
    (write : RowRecord.Write) (stop : ℕ) (ok : Bool) : Option (World env) :=
  let repo := thread.put.repo
  let files := world.store.opened env repo
  if ok = false ∨ answers (env.records repo) files write true stop then
    some { world with
      store := world.store.set repo (writeRows (env.records repo) files write stop)
      puts := ⟨thread.put, thread.wrote || ok, ok⟩ :: world.puts.eraseIdx index }
  else none

def step {env : Env Bytes} (world : World env) : Op env → Option (World env)
  | .admitQuota put => world.admitQuota put
  | .write index stop ok =>
    world.puts[index]?.bind fun thread =>
      if thread.active ∧ thread.wrote = false then
        world.writeRow index thread thread.put.write stop ok
      else none
  | .writeTag index tag stop ok =>
    world.puts[index]?.bind fun thread =>
      if thread.active ∧ thread.wrote ∧ thread.put.tag = none then
        world.writeRow index thread
          (.putTagged (thread.put.descriptor thread.put.canonicalDigest) tag) stop ok
      else none
  | .finish index =>
    world.puts[index]?.map fun thread =>
      { world with
        quota := if thread.put.limited then
            world.quota.unhold thread.put.key thread.wrote
          else world.quota
        puts := world.puts.eraseIdx index }
  | .delete repo removal stop ok =>
    let files := world.store.files repo
    if ok = false ∨ answers (env.records repo) files removal.write false stop then
      some { world with
        store := world.store.set repo (writeRows (env.records repo) files removal.write stop)
        deletes := if ok then world.deletes + 1 else world.deletes }
    else none
  | .invalidate =>
    if 0 < world.deletes then
      some { world with quota := world.quota.invalidate, deletes := world.deletes - 1 }
    else none
  | .beginRebuild =>
    if world.quota.built ∨ world.quota.building.isSome then none
    else some { world with
      quota := { world.quota with
        building := some ⟨world.quota.gen, world.quota.seq, none, []⟩ } }
  | .listRepositories =>
    world.quota.building.bind fun rebuild =>
      match rebuild.todo with
      | some _ => none
      | none => some { world with
          quota := { world.quota with
            building := some { rebuild with todo := some world.store.repositories } } }
  | .readRepository =>
    world.quota.building.bind fun rebuild =>
      match rebuild.todo with
      | some (repo :: todo) =>
        let read := readRows env repo (world.store.rows repo)
        some { world with
          quota := { world.quota with
            building := some { rebuild with
              todo := some todo
              read := read ++ rebuild.read.filter (· ∉ read) } } }
      | _ => none
  | .endRebuild =>
    world.quota.building.bind fun rebuild =>
      match rebuild.todo with
      | some [] =>
        let quota := { world.quota with building := none }
        -- a removal came while the store was read
        if world.quota.gen ≠ rebuild.gen then some { world with quota := quota }
        else some { world with quota := quota.install env rebuild.read rebuild.seq }
      | _ => none
  | .failRebuild =>
    world.quota.building.map fun _ =>
      { world with quota := { world.quota with building := none } }

def startWorld (env : Env Bytes) (store : Store) : World env where
  store := store
  quota := Quota.new
  puts := []
  deletes := 0

end K3sm.Registry.QuotaCount
