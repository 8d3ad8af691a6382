import K3sm.Core.Run
import K3sm.Executor.KineBoot

/-!
# Kine pin changes over whole histories

Beside the disk the state holds what an observer remembers: the pin that was the last to write the
database and what it left, the binary that was staged when a pin was first booted over that, and
every start of kine so far.
-/

namespace K3sm.Executor

open K3sm.Core K3sm.Core.Crashing Function

structure KineStarted (Pin Content Binary : Type) where
  pin : Pin
  found : KineDisk Pin Content Binary
  lastPin : Option Pin
  left : Option Content
  staged : Option Binary

/-- The disk, the pin of a kine that runs, and the observer's memory.  `taken` has the pins
whose boot has made its backup since the database was last written. -/
structure KineHistory (Pin Content Binary : Type) where
  disk : KineDisk Pin Content Binary
  running : Option Pin
  lastPin : Option Pin
  left : Option Content
  first : Pin → Option (Option Binary)
  taken : Pin → Bool
  starts : List (KineStarted Pin Content Binary)

/-- How a snapshot restore may end: the datastore untouched, moved aside, replaced by the
snapshot, or put back without its write-ahead log. -/
inductive RestoredAs (Content : Type)
  | untouched
  | aside (stampMoved : Bool)
  | installed (snapshot : Content)
  | putBack

/-- What happens to a kine work dir. -/
inductive KineEvent (Pin Content Binary : Type)
  | boot (boot : Boot Pin Content Binary)
  | write (db : KineDb Content)
  | stop
  | restore (ending : RestoredAs Content)

section Steps

variable {Pin Content Binary : Type} [DecidableEq Pin]

/-- Any disk may be the first one; `lastPin` is none when nobody knows who wrote it. -/
def KineHistory.begin (disk : KineDisk Pin Content Binary) (lastPin : Option Pin) :
    KineHistory Pin Content Binary where
  disk := disk
  running := none
  lastPin := lastPin
  left := disk.content
  first := fun _ => none
  taken := fun _ => false
  starts := []

/-- The database has a new content, so that whatever was copied of it is of the past. -/
def KineHistory.written (history : KineHistory Pin Content Binary) (lastPin : Option Pin)
    (disk : KineDisk Pin Content Binary) : KineHistory Pin Content Binary :=
  { history with
    disk := disk
    lastPin := lastPin
    left := disk.content
    first := fun _ => none
    taken := fun _ => false }

/-- The staged binary is remembered at a pin's first boot over the database. -/
def firstStaged (history : KineHistory Pin Content Binary) (pin : Pin) :
    Pin → Option (Option Binary) :=
  if history.disk.db.isSome ∧ history.first pin = none then
    Function.update history.first pin (some history.disk.staged)
  else history.first

/-- Whether a boot that did not come to open the database has completed its backup. -/
def takenAfter (history : KineHistory Pin Content Binary) (pin : Pin)
    (disk : KineDisk Pin Content Binary) : Pin → Bool :=
  if history.disk.backups pin = none ∧ (disk.backups pin).isSome then
    Function.update history.taken pin (history.disk.staged.isNone || (disk.binaries pin).isSome)
  else history.taken

def bootEnd (history : KineHistory Pin Content Binary) (boot : Boot Pin Content Binary) :
    Booting Pin Content Binary :=
  (startServer boot { disk := history.disk, found := none, opened := false }).2

def startsOf (history : KineHistory Pin Content Binary) (boot : Boot Pin Content Binary) :
    List (KineStarted Pin Content Binary) :=
  (bootEnd history boot).found.toList.map fun found =>
    { pin := boot.pin
      found := found
      lastPin := history.lastPin
      left := history.left
      staged := (firstStaged history boot.pin boot.pin).join }

def afterBoot (history : KineHistory Pin Content Binary) (boot : Boot Pin Content Binary) :
    KineHistory Pin Content Binary :=
  let ending := bootEnd history boot
  let running :=
    if ending.found.isSome then some boot.pin
    else if boot.fates .lock = .done then none else history.running
  let starts := startsOf history boot ++ history.starts
  if ending.opened then
    { history.written (some boot.pin) ending.disk with running := running, starts := starts }
  else
    { history with
      disk := ending.disk
      running := running
      first := firstStaged history boot.pin
      taken := takenAfter history boot.pin ending.disk
      starts := starts }

def afterRestore (history : KineHistory Pin Content Binary) :
    RestoredAs Content → KineHistory Pin Content Binary
  | .untouched => history
  | .aside stampMoved =>
    history.written history.lastPin
      { history.disk with
        db := none
        stamp := if stampMoved then none else history.disk.stamp }
  | .installed snapshot =>
    history.written none
      { history.disk with db := some { pages := snapshot, wal := none }, stamp := none }
  | .putBack =>
    { history with
      disk :=
        { history.disk with
          db := history.disk.db.map fun db => { pages := db.pages, wal := none }
          stamp := none } }

/-- A write of a kine that runs and a restore with none running; others change nothing. -/
def KineHistory.next (history : KineHistory Pin Content Binary) :
    KineEvent Pin Content Binary → KineHistory Pin Content Binary
  | .boot boot => afterBoot history boot
  | .write db =>
    match history.running with
    | none => history
    | some pin => history.written (some pin) { history.disk with db := some db }
  | .stop => { history with running := none }
  | .restore ending => if history.running.isSome then history else afterRestore history ending

end Steps

section Backed

variable {Pin Content Binary : Type}

/-- A start over a database another pin was the last to write finds a copy of it, with the
binary that was staged when the starting pin first came to it. -/
def KineStarted.Backed (start : KineStarted Pin Content Binary) : Prop :=
  start.found.db.isSome → start.lastPin ≠ some start.pin →
    ∃ target, start.found.backups target = start.left ∧ start.left.isSome ∧
      (start.staged = none ∨ start.found.binaries target = start.staged)

variable [DecidableEq Pin]

/-- What a boot over another pin's database needs: a stamp of another pin, and a backup that
is still to be made or was completed since the last write.  A restore that puts the database
back has no log to lose. -/
def SkipsRightly (history : KineHistory Pin Content Binary) :
    KineEvent Pin Content Binary → Prop
  | .boot boot =>
    history.disk.db.isSome → history.lastPin ≠ some boot.pin →
      history.disk.stamp ≠ some boot.pin ∧
        (history.disk.backups boot.pin = none ∧ history.disk.binaries boot.pin = none ∧
            (history.first boot.pin = none ∨ history.first boot.pin = some history.disk.staged) ∨
          history.taken boot.pin = true)
  | .restore .putBack => walLeft history.disk = false
  | _ => True

structure Remembers (history : KineHistory Pin Content Binary) : Prop where
  content : history.disk.content = history.left
  taken : ∀ pin, history.lastPin ≠ some pin → history.taken pin = true →
    history.disk.backups pin = history.left ∧
      ∃ staged, history.first pin = some staged ∧
        (staged = none ∨ history.disk.binaries pin = staged)
  starts : ∀ start ∈ history.starts, start.Backed

variable {history : KineHistory Pin Content Binary} {boot : Boot Pin Content Binary}

omit [DecidableEq Pin] in
theorem remembers_written (hremembers : Remembers history) (lastPin : Option Pin)
    (disk : KineDisk Pin Content Binary) : Remembers (history.written lastPin disk) :=
  ⟨rfl, nofun, hremembers.starts⟩

omit [DecidableEq Pin] in
theorem isSome_content (disk : KineDisk Pin Content Binary) :
    disk.content.isSome = disk.db.isSome := Option.isSome_map

theorem firstStaged_of_none {pin : Pin} (hdb : history.disk.db.isSome)
    (hfirst : history.first pin = none) :
    firstStaged history pin pin = some history.disk.staged := by
  simp [firstStaged, hdb, hfirst]

theorem firstStaged_of_some {pin : Pin} {staged : Option Binary}
    (hfirst : history.first pin = some staged) : firstStaged history pin = history.first := by
  simp [firstStaged, hfirst]

/-- The snapshot is skipped exactly when there is no database, the stamp names the pin, or
there is a backup. -/
theorem skipsSnapshot_eq_false {pin : Pin} {disk : KineDisk Pin Content Binary} :
    skipsSnapshot pin disk = false ↔
      disk.db.isSome ∧ disk.stamp ≠ some pin ∧ disk.backups pin = none := by
  cases hdb : disk.db <;> simp [skipsSnapshot, hdb]

theorem Copied.same {before disk : KineDisk Pin Content Binary} (hcopied : Copied boot before disk)
    (hskips : skipsSnapshot boot.pin before = true) :
    disk.backups = before.backups ∧ disk.binaries = before.binaries := by
  refine ⟨?_, ?_⟩
  · exact hcopied.backups.resolve_right fun hnew => by simp [hskips] at hnew
  · exact hcopied.binaries.resolve_right fun hnew => by simp [hskips] at hnew

theorem Copied.other {before disk : KineDisk Pin Content Binary} (hcopied : Copied boot before disk)
    {pin : Pin} (hother : pin ≠ boot.pin) :
    disk.backups pin = before.backups pin ∧ disk.binaries pin = before.binaries pin := by
  refine ⟨?_, ?_⟩
  · rcases hcopied.backups with hsame | ⟨_, hnew⟩
    · rw [hsame]
    · rw [hnew, update_of_ne hother]
  · rcases hcopied.binaries with hsame | ⟨_, _, _, hnew⟩
    · rw [hsame]
    · rw [hnew, update_of_ne hother]

section

variable (hremembers : Remembers history) (hright : SkipsRightly history (.boot boot))

include hremembers hright

theorem backed_of_boot : ∀ start ∈ startsOf history boot, start.Backed := by
  have hspec : BootSpec boot history.disk (bootEnd history boot) := startServer_spec _ _
  intro start hstart
  simp only [startsOf, List.mem_map, Option.mem_toList] at hstart
  obtain ⟨found, hfound, rfl⟩ := hstart
  obtain ⟨hcontent, hbackups, hbinaries, hcovered⟩ := hspec.found found hfound
  intro hdb hlast
  have hexists : history.disk.db.isSome := by
    rw [← isSome_content, ← hcontent, isSome_content]
    exact hdb
  have hleft : history.left.isSome := by
    rw [← hremembers.content, isSome_content]
    exact hexists
  obtain ⟨hstamp, hcase⟩ := hright hexists hlast
  refine ⟨boot.pin, ?_⟩
  dsimp only
  rcases hcase with ⟨hnoBackup, hnoBinary, hfirst⟩ | htaken
  · -- this boot makes the snapshot
    have hskips : skipsSnapshot boot.pin history.disk = false :=
      skipsSnapshot_eq_false.2 ⟨hexists, hstamp, hnoBackup⟩
    have hstaged : firstStaged history boot.pin boot.pin = some history.disk.staged := by
      rcases hfirst with hnone | hsame
      · exact firstStaged_of_none hexists hnone
      · rw [firstStaged_of_some hsame, hsame]
    obtain ⟨hcopy, hbinary⟩ := hcovered.resolve_left (by simp [hskips])
    refine ⟨hcopy.trans hremembers.content, hleft, ?_⟩
    rw [hstaged, Option.join_some]
    exact hbinary.imp_left fun hskipped => by simpa [skipsBinary, hnoBinary] using hskipped
  -- an earlier boot of the pin has made it, and this one skips
  obtain ⟨hcopy, staged, hfirst, hbinary⟩ := hremembers.taken boot.pin hlast htaken
  have hskips : skipsSnapshot boot.pin history.disk = true := by
    by_contra hfalse
    obtain ⟨_, _, hnone⟩ := skipsSnapshot_eq_false.1 (Bool.eq_false_of_not_eq_true hfalse)
    rw [hcopy] at hnone
    simp [hnone] at hleft
  obtain ⟨hsameBackups, hsameBinaries⟩ := hspec.copied.same hskips
  rw [hbackups, hbinaries, hsameBackups, hsameBinaries, firstStaged_of_some hfirst, hfirst]
  exact ⟨hcopy, hleft, hbinary⟩

theorem taken_of_new (hlast : history.lastPin ≠ some boot.pin)
    (hnone : history.disk.backups boot.pin = none)
    (hsome : ((bootEnd history boot).disk.backups boot.pin).isSome)
    (htaken : (history.disk.staged.isNone ||
      ((bootEnd history boot).disk.binaries boot.pin).isSome) = true) :
    (bootEnd history boot).disk.backups boot.pin = history.left ∧
      ∃ staged, firstStaged history boot.pin boot.pin = some staged ∧
        (staged = none ∨ (bootEnd history boot).disk.binaries boot.pin = staged) := by
  have hspec : BootSpec boot history.disk (bootEnd history boot) := startServer_spec _ _
  obtain ⟨hskips, hnew⟩ := hspec.copied.backups.resolve_left fun hsame => by
    rw [hsame, hnone] at hsome
    simp at hsome
  obtain ⟨hexists, hstamp, -⟩ := skipsSnapshot_eq_false.1 hskips
  have hleft : history.left.isSome := by
    rw [← hremembers.content, isSome_content]
    exact hexists
  have hfresh := (hright hexists hlast).2.resolve_right fun htaken => by
    rw [← (hremembers.taken boot.pin hlast htaken).1, hnone] at hleft
    simp at hleft
  have hstaged : firstStaged history boot.pin boot.pin = some history.disk.staged := by
    rcases hfresh.2.2 with hfirst | hsame
    · exact firstStaged_of_none hexists hfirst
    · rw [firstStaged_of_some hsame, hsame]
  refine ⟨by rw [hnew, update_self, hremembers.content], history.disk.staged, hstaged, ?_⟩
  rw [Bool.or_eq_true] at htaken
  rcases htaken with hnothing | hpreserved
  · exact .inl (Option.isNone_iff_eq_none.1 hnothing)
  obtain ⟨_, _, _, hbinaries⟩ := hspec.copied.binaries.resolve_left fun hsame => by
    rw [hsame, hfresh.2.1] at hpreserved
    simp at hpreserved
  exact .inr (by rw [hbinaries, update_self])

theorem taken_of_boot {pin : Pin} (hlast : history.lastPin ≠ some pin)
    (htaken : takenAfter history boot.pin (bootEnd history boot).disk pin = true) :
    (bootEnd history boot).disk.backups pin = history.left ∧
      ∃ staged, firstStaged history boot.pin pin = some staged ∧
        (staged = none ∨ (bootEnd history boot).disk.binaries pin = staged) := by
  have hspec : BootSpec boot history.disk (bootEnd history boot) := startServer_spec _ _
  by_cases hself : pin = boot.pin
  · subst hself
    unfold takenAfter at htaken
    split at htaken
    case isTrue hnew =>
      rw [update_self] at htaken
      exact taken_of_new hremembers hright hlast hnew.1 hnew.2 htaken
    rename_i hold
    obtain ⟨hcopy, staged, hfirst, hbinary⟩ := hremembers.taken boot.pin hlast htaken
    have hskips : skipsSnapshot boot.pin history.disk = true := by
      by_contra hfalse
      obtain ⟨hexists, _, hnone⟩ := skipsSnapshot_eq_false.1 (Bool.eq_false_of_not_eq_true hfalse)
      rw [← isSome_content, hremembers.content, ← hcopy, hnone] at hexists
      simp at hexists
    obtain ⟨hbackups, hbinaries⟩ := hspec.copied.same hskips
    rw [hbackups, hbinaries, firstStaged_of_some hfirst]
    exact ⟨hcopy, staged, hfirst, hbinary⟩
  have hsame : takenAfter history boot.pin (bootEnd history boot).disk pin = history.taken pin := by
    unfold takenAfter
    split
    · rw [update_of_ne hself]
    · rfl
  have hfirst : firstStaged history boot.pin pin = history.first pin := by
    unfold firstStaged
    split
    · rw [update_of_ne hself]
    · rfl
  obtain ⟨hbackups, hbinaries⟩ := hspec.copied.other hself
  rw [hbackups, hbinaries, hfirst]
  exact hremembers.taken pin hlast (hsame ▸ htaken)

theorem remembers_afterBoot : Remembers (afterBoot history boot) := by
  have hspec : BootSpec boot history.disk (bootEnd history boot) := startServer_spec _ _
  have hstarts : ∀ start ∈ startsOf history boot ++ history.starts, start.Backed := by
    exact List.forall_mem_append.2 ⟨backed_of_boot hremembers hright, hremembers.starts⟩
  unfold afterBoot
  dsimp only
  split
  case isTrue => exact ⟨rfl, fun _ _ htaken => absurd htaken Bool.false_ne_true, hstarts⟩
  rename_i hopened
  have hunopened := hspec.unopened (Bool.eq_false_of_not_eq_true hopened)
  refine ⟨hunopened.trans hremembers.content, ?_, hstarts⟩
  exact fun pin hlast htaken => taken_of_boot hremembers hright hlast htaken

end

omit [DecidableEq Pin] in
theorem remembers_afterRestore (hremembers : Remembers history) {ending : RestoredAs Content}
    (hright : SkipsRightly history (.restore ending)) :
    Remembers (afterRestore history ending) := by
  cases ending with
  | untouched => exact hremembers
  | aside stampMoved | installed snapshot => exact remembers_written hremembers _ _
  | putBack =>
    refine ⟨Eq.trans ?_ hremembers.content, hremembers.taken, hremembers.starts⟩
    rw [← pages_of_drained hright]
    simp only [afterRestore, KineDisk.content, Option.map_map]
    rfl

theorem remembers_next (event : KineEvent Pin Content Binary) (hremembers : Remembers history)
    (hright : SkipsRightly history event) : Remembers (history.next event) := by
  cases event with
  | boot boot => exact remembers_afterBoot hremembers hright
  | write db =>
    simp only [KineHistory.next]
    split
    · exact hremembers
    · exact remembers_written hremembers _ _
  | stop => exact ⟨hremembers.content, hremembers.taken, hremembers.starts⟩
  | restore ending =>
    simp only [KineHistory.next]
    split
    · exact hremembers
    · exact remembers_afterRestore hremembers hright

/-- In every history whose boots skip their snapshot rightly, kine starts over another pin's
database only with that and the staged binary backed up. -/
theorem kine_pin_changes_backed (disk : KineDisk Pin Content Binary) (lastPin : Option Pin)
    (events : List (KineEvent Pin Content Binary))
    (hright : EachStep SkipsRightly KineHistory.next (.begin disk lastPin) events) :
    Always (fun history => ∀ start ∈ history.starts, start.Backed) KineHistory.next
      (.begin disk lastPin) events := by
  have hbegin : Remembers (KineHistory.begin disk lastPin) := ⟨rfl, nofun, nofun⟩
  have halways := always_of_eachStep
    (fun _ event hremembers hstep => remembers_next event hremembers hstep) hbegin hright
  exact halways.mono fun _ hremembers => hremembers.starts

instance [Fintype Pin] [DecidableEq Content] [DecidableEq Binary]
    (start : KineStarted Pin Content Binary) : Decidable start.Backed :=
  inferInstanceAs (Decidable (_ → _ → ∃ _, _ ∧ _ ∧ (_ ∨ _)))

instance [DecidableEq Content] [DecidableEq Binary] (history : KineHistory Pin Content Binary)
    (event : KineEvent Pin Content Binary) : Decidable (SkipsRightly history event) :=
  match event with
  | .boot _ => inferInstanceAs (Decidable (_ → _ → _ ∧ (_ ∧ _ ∧ (_ ∨ _) ∨ _)))
  | .restore .putBack => inferInstanceAs (Decidable (_ = _))
  | .restore .untouched => .isTrue trivial
  | .restore (.aside _) => .isTrue trivial
  | .restore (.installed _) => .isTrue trivial
  | .write _ => .isTrue trivial
  | .stop => .isTrue trivial

end Backed

/-- A boot that is killed just before one of its steps, or not at all; kine leaves
`content`, partly in its log. -/
def bootUntil (killed : Option BootSite) (pin : Bool) (content : Nat) : KineEvent Bool Nat Nat :=
  .boot
    { pin := pin
      fates := fun site => if killed = some site then .killedBefore else .done
      drains := true
      seeded := none
      binary := pin.toNat
      opened := { pages := 0, wal := some content } }

def plainBoot (pin : Bool) (content : Nat) : KineEvent Bool Nat Nat := bootUntil none pin content

def freshDisk : KineDisk Bool Nat Nat where
  db := none
  stamp := none
  backups := fun _ => none
  binaries := fun _ => none
  staged := none

theorem kine_pin_changes_backed_at_upgrade :
    EachStep SkipsRightly KineHistory.next (.begin freshDisk none)
        [plainBoot false 1, plainBoot true 2] ∧
      Always (fun history => ∀ start ∈ history.starts, start.Backed) KineHistory.next
        (.begin freshDisk none) [plainBoot false 1, plainBoot true 2] :=
  ⟨by decide +kernel, kine_pin_changes_backed _ _ _ (by decide +kernel)⟩

/-- Content that is not backed up: an upgrade repeated after a downgrade, a boot killed before
its stamp, and one killed between the backup and the binary. -/
theorem kine_pin_changes_unbacked :
    (¬ ∀ start ∈
      ([plainBoot false 1, plainBoot true 2, plainBoot false 3, plainBoot true 4].foldl
        KineHistory.next (.begin freshDisk none)).starts, start.Backed) ∧
    (¬ ∀ start ∈
      ([plainBoot false 1, bootUntil (some .recordPin) true 2, plainBoot false 3].foldl
        KineHistory.next (.begin freshDisk none)).starts, start.Backed) ∧
    (¬ ∀ start ∈
      ([plainBoot false 1, bootUntil (some .installBinary) true 2, plainBoot true 2].foldl
        KineHistory.next (.begin freshDisk none)).starts, start.Backed) := by
  decide +kernel

end K3sm.Executor
