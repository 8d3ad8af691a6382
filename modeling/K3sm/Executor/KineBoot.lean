import K3sm.Core.Crash

/-!
# Booting over a kine datastore

A boot of one kine pin: the snapshot `snapshotBeforeKineUpgrade` takes, the staging of the
pin's own binary, the start of kine and the stamp.  Each step may fail or be killed.  Kine
writes from the moment it opens the database, and the stamp comes only once it serves.
-/

namespace K3sm.Executor

open K3sm.Core K3sm.Core.Crashing Function

/-- A database file with the write-ahead log beside it: what the pages say, and what they
say with a log that is not empty replayed over them. -/
structure KineDb (Content : Type) where
  pages : Content
  wal : Option Content
  deriving DecidableEq

def KineDb.whole {Content : Type} (db : KineDb Content) : Content := db.wal.getD db.pages

/-- A `TRUNCATE` checkpoint that reached every frame. -/
def KineDb.drain {Content : Type} (db : KineDb Content) : KineDb Content :=
  { pages := db.whole, wal := none }

/-- What a boot finds on disk: the database, its pin stamp, the backups and the preserved
binaries by the pin they were taken for, and the staged kine binary. -/
structure KineDisk (Pin Content Binary : Type) where
  db : Option (KineDb Content)
  stamp : Option Pin
  backups : Pin → Option Content
  binaries : Pin → Option Binary
  staged : Option Binary

/-- A boot under way: the disk, the disk as kine found it when it was started, and whether
kine has opened the database. -/
structure Booting (Pin Content Binary : Type) where
  disk : KineDisk Pin Content Binary
  found : Option (KineDisk Pin Content Binary)
  opened : Bool

inductive BootSite
  | lock
  | clusterInit
  | workDirs
  | reapTemps
  | sweepDebris
  | space
  | checkpoint
  | walDrained
  | copy
  | integrity
  | installBackup
  | installBinary
  | seedBin
  | controlPlane
  | stageKine
  | otherSteps
  | prepareWal
  | startKine
  | kineOpens
  | kineServes
  | markSupervised
  | recordPin
  deriving DecidableEq

/-- One boot: its pin, how its steps and the checkpoint end, the binary the payload seeds,
the one kine is run from, and the database as kine makes it. -/
structure Boot (Pin Content Binary : Type) where
  pin : Pin
  fates : BootSite → StepFate
  drains : Bool
  seeded : Option Binary
  binary : Binary
  opened : KineDb Content

section Steps

variable {Pin Content Binary : Type} [DecidableEq Pin]

def onDisk (change : KineDisk Pin Content Binary → KineDisk Pin Content Binary)
    (booting : Booting Pin Content Binary) : Booting Pin Content Binary :=
  { booting with disk := change booting.disk }

def checkpoint (drains : Bool) (disk : KineDisk Pin Content Binary) : KineDisk Pin Content Binary :=
  if drains then { disk with db := disk.db.map KineDb.drain } else disk

/-- The verified copy takes its final name.  It holds the pages of the file that was
copied. -/
def installBackup (pin : Pin) (disk : KineDisk Pin Content Binary) : KineDisk Pin Content Binary :=
  { disk with backups := update disk.backups pin (disk.db.map KineDb.pages) }

def installBinary (pin : Pin) (disk : KineDisk Pin Content Binary) : KineDisk Pin Content Binary :=
  { disk with binaries := update disk.binaries pin disk.staged }

def stageBinary (binary : Option Binary) (disk : KineDisk Pin Content Binary) :
    KineDisk Pin Content Binary :=
  { disk with staged := binary.or disk.staged }

def openDb (opened : KineDb Content) (disk : KineDisk Pin Content Binary) :
    KineDisk Pin Content Binary :=
  { disk with db := some opened }

def recordKinePin (pin : Pin) (disk : KineDisk Pin Content Binary) : KineDisk Pin Content Binary :=
  { disk with stamp := some pin }

/-- No snapshot: a fresh node, a database the pin has opened, or a backup that exists.  What the
source cannot stat or read counts as absent, and is no fate here. -/
def skipsSnapshot (pin : Pin) (disk : KineDisk Pin Content Binary) : Bool :=
  disk.db.isNone || decide (disk.stamp = some pin) || (disk.backups pin).isSome

/-- No binary to preserve, or one that is preserved already. -/
def skipsBinary (pin : Pin) (disk : KineDisk Pin Content Binary) : Bool :=
  disk.staged.isNone || (disk.binaries pin).isSome

def walLeft (disk : KineDisk Pin Content Binary) : Bool :=
  (disk.db.bind KineDb.wal).isSome

variable (boot : Boot Pin Content Binary)

/-- A step of the boot that must be done; a failure ends the boot with its name. -/
def bootStep (site : BootSite) (effect : Booting Pin Content Binary → Booting Pin Content Binary)
    (next : Crashing (Booting Pin Content Binary) (Option BootSite)) :
    Crashing (Booting Pin Content Binary) (Option BootSite) :=
  must (boot.fates site) effect (pure (some site)) next

def preserveKineBinary (next : Crashing (Booting Pin Content Binary) (Option BootSite)) :
    Crashing (Booting Pin Content Binary) (Option BootSite) :=
  choose (fun booting => skipsBinary boot.pin booting.disk) next <|
  bootStep boot .installBinary (onDisk (installBinary boot.pin)) next

def requireWALDrained (next : Crashing (Booting Pin Content Binary) (Option BootSite)) :
    Crashing (Booting Pin Content Binary) (Option BootSite) :=
  choose (fun booting => walLeft booting.disk) (pure (some .walDrained)) <|
  bootStep boot .walDrained id next

def snapshotBeforeKineUpgrade (next : Crashing (Booting Pin Content Binary) (Option BootSite)) :
    Crashing (Booting Pin Content Binary) (Option BootSite) :=
  choose (fun booting => skipsSnapshot boot.pin booting.disk) next <|
  bootStep boot .space id <|
  bootStep boot .checkpoint (onDisk (checkpoint boot.drains)) <|
  requireWALDrained boot <|
  bootStep boot .copy id <|
  bootStep boot .integrity id <|
  bootStep boot .installBackup (onDisk (installBackup boot.pin)) <|
  preserveKineBinary boot next

def bringUpKine : Crashing (Booting Pin Content Binary) (Option BootSite) :=
  bootStep boot .prepareWal id <|
  bootStep boot .startKine (fun booting => { booting with found := some booting.disk }) <|
  bootStep boot .kineOpens
    (fun booting => { booting with disk := openDb boot.opened booting.disk, opened := true }) <|
  bootStep boot .kineServes id <|
  bootStep boot .markSupervised id <|
  bootStep boot .recordPin (onDisk (recordKinePin boot.pin)) <|
  pure none

/-- `Start` in the kine posture, with `provision`'s steps in its order. -/
def startServer : Crashing (Booting Pin Content Binary) (Option BootSite) :=
  checked boot.fates [.lock, .clusterInit, .workDirs, .reapTemps, .sweepDebris] <|
  snapshotBeforeKineUpgrade boot <|
  bootStep boot .seedBin (onDisk (stageBinary boot.seeded)) <|
  bootStep boot .controlPlane id <|
  bootStep boot .stageKine (onDisk (stageBinary (some boot.binary))) <|
  bootStep boot .otherSteps id <|
  bringUpKine boot

end Steps

section Spec

variable {Pin Content Binary : Type} [DecidableEq Pin] (boot : Boot Pin Content Binary)

/-- What is on disk as far as the committed content goes. -/
def KineDisk.content (disk : KineDisk Pin Content Binary) : Option Content :=
  disk.db.map KineDb.whole

/-- The backups and binaries of a boot under way: none is new, or the boot needed a
snapshot and they are those of the database and binary it found. -/
structure Copied (before disk : KineDisk Pin Content Binary) : Prop where
  backups : disk.backups = before.backups ∨
    skipsSnapshot boot.pin before = false ∧
      disk.backups = update before.backups boot.pin before.content
  binaries : disk.binaries = before.binaries ∨
    disk.backups boot.pin = before.content ∧ skipsSnapshot boot.pin before = false ∧
      skipsBinary boot.pin before = false ∧
      disk.binaries = update before.binaries boot.pin before.staged

def Covered (before disk : KineDisk Pin Content Binary) : Prop :=
  skipsSnapshot boot.pin before = true ∨
    disk.backups boot.pin = before.content ∧
      (skipsBinary boot.pin before = true ∨ disk.binaries boot.pin = before.staged)

structure BootSpec (before : KineDisk Pin Content Binary) (booting : Booting Pin Content Binary) :
    Prop where
  copied : Copied boot before booting.disk
  unopened : booting.opened = false → booting.disk.content = before.content
  opened : booting.opened = true → booting.disk.db = some boot.opened
  found : ∀ disk, booting.found = some disk → disk.content = before.content ∧
    disk.backups = booting.disk.backups ∧ disk.binaries = booting.disk.binaries ∧
    Covered boot before disk
  started : booting.opened = true → booting.found.isSome

structure Provisioning (before : KineDisk Pin Content Binary)
    (booting : Booting Pin Content Binary) : Prop where
  copied : Copied boot before booting.disk
  content : booting.disk.content = before.content
  found : booting.found = none
  opened : booting.opened = false

variable {boot} {before : KineDisk Pin Content Binary} {booting : Booting Pin Content Binary}

theorem Provisioning.spec (hprovisioning : Provisioning boot before booting) :
    BootSpec boot before booting where
  copied := hprovisioning.copied
  unopened _ := hprovisioning.content
  opened hopened := by simp [hprovisioning.opened] at hopened
  found disk hfound := by simp [hprovisioning.found] at hfound
  started hopened := by simp [hprovisioning.opened] at hopened

abbrev KeepsSpec (boot : Boot Pin Content Binary) (before : KineDisk Pin Content Binary)
    (run : Option (Option BootSite) × Booting Pin Content Binary) : Prop :=
  Ends (fun _ => BootSpec boot before) (BootSpec boot before) run

variable {next : Crashing (Booting Pin Content Binary) (Option BootSite)}

theorem bootStep_keeps {site : BootSite}
    {effect : Booting Pin Content Binary → Booting Pin Content Binary}
    (hbefore : BootSpec boot before booting) (hafter : BootSpec boot before (effect booting))
    (hnext : KeepsSpec boot before (next (effect booting))) :
    KeepsSpec boot before (bootStep boot site effect next booting) :=
  ends_must hbefore hafter hbefore hnext

theorem bringUpKine_keeps (hprovisioning : Provisioning boot before booting)
    (hcovered : Covered boot before booting.disk) :
    KeepsSpec boot before (bringUpKine boot booting) := by
  have hstarted : BootSpec boot before { booting with found := some booting.disk } := by
    refine ⟨hprovisioning.copied, fun _ => hprovisioning.content, ?_, ?_, fun _ => rfl⟩
    · intro hopened
      simp [hprovisioning.opened] at hopened
    · intro disk hdisk
      obtain rfl : booting.disk = disk := Option.some.inj hdisk
      exact ⟨hprovisioning.content, rfl, rfl, hcovered⟩
  have hopened : ∀ stamp, BootSpec boot before
      { disk := { booting.disk with db := some boot.opened, stamp := stamp },
        found := some booting.disk, opened := true } := by
    intro stamp
    refine ⟨⟨hprovisioning.copied.backups, hprovisioning.copied.binaries⟩, nofun, fun _ => rfl,
      hstarted.found, fun _ => rfl⟩
  refine bootStep_keeps hprovisioning.spec hprovisioning.spec ?_
  refine bootStep_keeps hprovisioning.spec hstarted ?_
  refine bootStep_keeps hstarted (hopened _) ?_
  refine bootStep_keeps (hopened _) (hopened _) ?_
  refine bootStep_keeps (hopened _) (hopened _) ?_
  exact bootStep_keeps (hopened _) (hopened _) (hopened _)

theorem Provisioning.staged (hprovisioning : Provisioning boot before booting)
    (binary : Option Binary) : Provisioning boot before (onDisk (stageBinary binary) booting) :=
  ⟨⟨hprovisioning.copied.backups, hprovisioning.copied.binaries⟩, hprovisioning.content,
    hprovisioning.found, hprovisioning.opened⟩

theorem afterSnapshot_keeps (hprovisioning : Provisioning boot before booting)
    (hcovered : Covered boot before booting.disk) :
    KeepsSpec boot before
      ((bootStep boot .seedBin (onDisk (stageBinary boot.seeded)) <|
        bootStep boot .controlPlane id <|
        bootStep boot .stageKine (onDisk (stageBinary (some boot.binary))) <|
        bootStep boot .otherSteps id <| bringUpKine boot) booting) := by
  have hseeded := hprovisioning.staged boot.seeded
  have hstaged := hseeded.staged (some boot.binary)
  refine bootStep_keeps hprovisioning.spec hseeded.spec ?_
  refine bootStep_keeps hseeded.spec hseeded.spec ?_
  refine bootStep_keeps hseeded.spec hstaged.spec ?_
  refine bootStep_keeps hstaged.spec hstaged.spec ?_
  exact bringUpKine_keeps hstaged hcovered

omit [DecidableEq Pin] in
theorem content_checkpoint (drains : Bool) (disk : KineDisk Pin Content Binary) :
    (checkpoint drains disk).content = disk.content := by
  unfold checkpoint KineDisk.content
  cases drains with
  | false => rfl
  | true => cases disk.db <;> rfl

omit [DecidableEq Pin] in
theorem checkpoint_rest (drains : Bool) (disk : KineDisk Pin Content Binary) :
    (checkpoint drains disk).backups = disk.backups ∧
      (checkpoint drains disk).binaries = disk.binaries ∧
      (checkpoint drains disk).staged = disk.staged := by
  unfold checkpoint
  split <;> exact ⟨rfl, rfl, rfl⟩

omit [DecidableEq Pin] in
theorem pages_of_drained {disk : KineDisk Pin Content Binary} (hdrained : walLeft disk = false) :
    disk.db.map KineDb.pages = disk.content := by
  unfold KineDisk.content
  cases hdb : disk.db with
  | none => rfl
  | some db =>
    have hwal : db.wal = none := by simpa [walLeft, hdb] using hdrained
    simp [KineDb.whole, hwal]

def backedUp (boot : Boot Pin Content Binary) (before : KineDisk Pin Content Binary) :
    KineDisk Pin Content Binary :=
  installBackup boot.pin (checkpoint boot.drains before)

theorem backups_backedUp (hdrained : walLeft (checkpoint boot.drains before) = false) :
    (backedUp boot before).backups = update before.backups boot.pin before.content := by
  simp only [backedUp, installBackup]
  rw [pages_of_drained hdrained, content_checkpoint, (checkpoint_rest boot.drains before).1]

theorem backedUp_provisioning (hskips : skipsSnapshot boot.pin before = false)
    (hdrained : walLeft (checkpoint boot.drains before) = false) :
    Provisioning boot before { disk := backedUp boot before, found := none, opened := false } :=
  ⟨⟨.inr ⟨hskips, backups_backedUp hdrained⟩, .inl (checkpoint_rest boot.drains before).2.1⟩,
    content_checkpoint _ _, rfl, rfl⟩

theorem preserve_keeps (hskips : skipsSnapshot boot.pin before = false)
    (hdrained : walLeft (checkpoint boot.drains before) = false)
    (hnext : ∀ booting, Provisioning boot before booting → Covered boot before booting.disk →
      KeepsSpec boot before (next booting)) :
    KeepsSpec boot before
      (preserveKineBinary boot next
        { disk := backedUp boot before, found := none, opened := false }) := by
  obtain ⟨_, hbinaries, hstaged⟩ := checkpoint_rest boot.drains before
  have hbackups := backups_backedUp hdrained
  have hcopy : (backedUp boot before).backups boot.pin = before.content := by
    rw [hbackups, update_self]
  have hbackedUp := backedUp_provisioning hskips hdrained
  have hsame : skipsBinary boot.pin (backedUp boot before) = skipsBinary boot.pin before := by
    simp [skipsBinary, backedUp, installBackup, hbinaries, hstaged]
  apply ends_choose
  · intro hbinary
    exact hnext _ hbackedUp (.inr ⟨hcopy, .inl (hsame.symm.trans hbinary)⟩)
  intro hbinary
  have hinstalled : (installBinary boot.pin (backedUp boot before)).binaries =
      update before.binaries boot.pin before.staged := by
    simp [installBinary, backedUp, installBackup, hbinaries, hstaged]
  have hpreserved : Provisioning boot before
      { disk := installBinary boot.pin (backedUp boot before), found := none,
        opened := false } :=
    ⟨⟨.inr ⟨hskips, hbackups⟩,
      .inr ⟨hcopy, hskips, hsame.symm.trans hbinary, hinstalled⟩⟩, content_checkpoint _ _, rfl,
      rfl⟩
  refine bootStep_keeps hbackedUp.spec hpreserved.spec (hnext _ hpreserved ?_)
  exact .inr ⟨hcopy, .inr (by rw [onDisk, hinstalled, update_self])⟩

theorem snapshot_keeps
    (hnext : ∀ booting, Provisioning boot before booting → Covered boot before booting.disk →
      KeepsSpec boot before (next booting)) :
    KeepsSpec boot before
      (snapshotBeforeKineUpgrade boot next { disk := before, found := none, opened := false }) := by
  obtain ⟨hbackups, hbinaries, _⟩ := checkpoint_rest boot.drains before
  have hbegin : Provisioning boot before { disk := before, found := none, opened := false } :=
    ⟨⟨.inl rfl, .inl rfl⟩, rfl, rfl, rfl⟩
  have hcheckpoint : Provisioning boot before
      { disk := checkpoint boot.drains before, found := none, opened := false } :=
    ⟨⟨.inl hbackups, .inl hbinaries⟩, content_checkpoint _ _, rfl, rfl⟩
  apply ends_choose
  · exact fun hskips => hnext _ hbegin (.inl hskips)
  intro hskips
  refine bootStep_keeps hbegin.spec hbegin.spec ?_
  refine bootStep_keeps hbegin.spec hcheckpoint.spec ?_
  apply ends_choose
  · exact fun _ => hcheckpoint.spec
  intro hdrained
  have hbackedUp := backedUp_provisioning hskips hdrained
  refine bootStep_keeps hcheckpoint.spec hcheckpoint.spec ?_
  refine bootStep_keeps hcheckpoint.spec hcheckpoint.spec ?_
  refine bootStep_keeps hcheckpoint.spec hcheckpoint.spec ?_
  refine bootStep_keeps hcheckpoint.spec hbackedUp.spec ?_
  exact preserve_keeps hskips hdrained hnext

theorem startServer_spec (boot : Boot Pin Content Binary) (before : KineDisk Pin Content Binary) :
    BootSpec boot before
      (startServer boot { disk := before, found := none, opened := false }).2 := by
  have hbegin : Provisioning boot before { disk := before, found := none, opened := false } :=
    ⟨⟨.inl rfl, .inl rfl⟩, rfl, rfl, rfl⟩
  have hkeeps : KeepsSpec boot before
      (startServer boot { disk := before, found := none, opened := false }) := by
    apply ends_checked hbegin.spec
    · exact fun _ => hbegin.spec
    · exact snapshot_keeps fun booting => afterSnapshot_keeps
  exact ends_state hkeeps

end Spec

end K3sm.Executor
