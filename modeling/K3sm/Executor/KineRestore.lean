import K3sm.Core.Crash

/-!
# Restoring a kine datastore

`RestoreSnapshot` stages a verified copy of the snapshot beside the datastore, moves the datastore
aside file by file and the copy into place.  The next start finds the datastore from before the
restore or the snapshot, unless the restore stops after `state.db` is aside and before the copy is
in place, or puts `state.db` back without its `-wal`.
-/

namespace K3sm.Executor

open K3sm.Core K3sm.Core.Crashing

/-- A file of the datastore directory: one that was there before the restore, or the
copy the restore makes, which is whole only when the copying has ended. -/
inductive PlacedFile (Bytes : Type)
  | old (bytes : Bytes)
  | staged (whole : Bool)
  deriving DecidableEq

/-- The files `RestoreSnapshot` moves: the database with its sidecars and pin stamp
under their own and under their preserved names, and the staged copy. -/
structure KineFiles (File : Type) where
  db : Option File
  wal : Option File
  shm : Option File
  stamp : Option File
  bak : Option File
  bakWal : Option File
  bakShm : Option File
  bakStamp : Option File
  tmp : Option File
  deriving DecidableEq

def KineFiles.map {File Other : Type} (convert : File → Other) (files : KineFiles File) :
    KineFiles Other where
  db := files.db.map convert
  wal := files.wal.map convert
  shm := files.shm.map convert
  stamp := files.stamp.map convert
  bak := files.bak.map convert
  bakWal := files.bakWal.map convert
  bakShm := files.bakShm.map convert
  bakStamp := files.bakStamp.map convert
  tmp := files.tmp.map convert

/-- The places where a restore can fail or be killed. -/
inductive RestoreSite
  | localDatastore
  | runningProbe
  | statSnapshot
  | makeDir
  | sweepDebris
  | openSnapshot
  | statPlain
  | etcdSnapshot
  | verify
  | space
  | clearTmp
  | beginCopy
  | copy
  | verifyCopy
  | inheritOwner
  | removeTmp
  | moveDb
  | moveWal
  | moveShm
  | moveStamp
  | install
  | putBack
  deriving DecidableEq

/-- How a restore returns: with the datastore replaced, or with the error of a step;
`putBack` says whether the datastore that was moved aside could be put back. -/
inductive RestoreEnd
  | restored
  | failed (site : RestoreSite)
  | notInstalled (putBack : Bool)
  deriving DecidableEq

/-- The checks ahead of anything that touches the staged copy. -/
def restoreChecks : List RestoreSite :=
  [.localDatastore, .runningProbe, .statSnapshot, .makeDir, .sweepDebris, .openSnapshot,
    .statPlain, .etcdSnapshot, .verify, .space]

section Restore

variable {Bytes : Type} (fates : RestoreSite → StepFate)

abbrev KineDir (Bytes : Type) := KineFiles (PlacedFile Bytes)

def clearTmp (files : KineDir Bytes) : KineDir Bytes := { files with tmp := none }

def writeTmp (whole : Bool) (files : KineDir Bytes) : KineDir Bytes :=
  { files with tmp := some (.staged whole) }

def abandon {Result : Type} (result : Result) : Crashing (KineDir Bytes) Result :=
  must (fates .removeTmp) clearTmp (pure result) (pure result)

/-- Everything before the datastore is touched: the checks, the copy, its verification
and its ownership.  The result names the step that refused. -/
def stage : Crashing (KineDir Bytes) (Option RestoreSite) :=
  checked fates restoreChecks <|
  must (fates .clearTmp) clearTmp (pure (some .clearTmp)) <|
  must (fates .beginCopy) (writeTmp false) (abandon fates (some .beginCopy)) <|
  must (fates .copy) (writeTmp true) (abandon fates (some .copy)) <|
  must (fates .verifyCopy) id (abandon fates (some .verifyCopy)) <|
  must (fates .inheritOwner) id (abandon fates (some .inheritOwner)) <|
  pure none

def moveAside (site : RestoreSite) (present : KineDir Bytes → Bool)
    (rename : KineDir Bytes → KineDir Bytes) (next : Crashing (KineDir Bytes) RestoreEnd) :
    Crashing (KineDir Bytes) RestoreEnd := fun files =>
  if present files then must (fates site) rename (pure (.failed site)) next files else next files

def moveWal (files : KineDir Bytes) : KineDir Bytes :=
  { files with wal := none, bakWal := files.wal }

def moveShm (files : KineDir Bytes) : KineDir Bytes :=
  { files with shm := none, bakShm := files.shm }

def moveStamp (files : KineDir Bytes) : KineDir Bytes :=
  { files with stamp := none, bakStamp := files.stamp }

def moveDb (files : KineDir Bytes) : KineDir Bytes :=
  { files with db := none, bak := files.db }

def install (files : KineDir Bytes) : KineDir Bytes :=
  { files with db := files.tmp, tmp := none }

def putBack (files : KineDir Bytes) : KineDir Bytes :=
  { files with db := files.bak, bak := none }

/-- The last rename.  Only when it fails is the database put back, and it alone. -/
def installCopy (previous : Bool) : Crashing (KineDir Bytes) RestoreEnd :=
  must (fates .install) install
    (if previous then
      must (fates .putBack) putBack (pure (.notInstalled false)) (pure (.notInstalled true))
    else pure (.notInstalled true))
    (pure .restored)

/-- The sidecars and the pin stamp aside, then the staged copy into place. -/
def swapIn (previous : Bool) : Crashing (KineDir Bytes) RestoreEnd :=
  moveAside fates .moveWal (fun files => files.wal.isSome) moveWal <|
  moveAside fates .moveShm (fun files => files.shm.isSome) moveShm <|
  moveAside fates .moveStamp (fun files => files.stamp.isSome) moveStamp <|
  installCopy fates previous

/-- The looks at files are no fates: the source takes any error of `stat` for an absent file. -/
def restoreSnapshot : Crashing (KineDir Bytes) RestoreEnd := do
  match ← stage fates with
  | some site => pure (.failed site)
  | none =>
    if ← look fun files : KineDir Bytes => files.db.isSome then
      must (fates .moveDb) moveDb (abandon fates (.failed .moveDb)) (swapIn fates true)
    else swapIn fates false

end Restore

/-- What kine is started on: `provision` refuses none of these, and kine creates a
database where there is none. -/
inductive KineStart (Bytes : Type)
  | fresh
  | opens (db : PlacedFile Bytes) (wal shm stamp : Option (PlacedFile Bytes))
  deriving DecidableEq

/-- What the next start of kine finds. -/
def nextStart {Bytes : Type} (files : KineDir Bytes) : KineStart Bytes :=
  match files.db with
  | none => .fresh
  | some db => .opens db files.wal files.shm files.stamp

section Parts

variable {Bytes : Type} (fates : RestoreSite → StepFate)

/-- The steps of `stage` that must be done for the datastore to be touched at all. -/
def stagingSites : List RestoreSite :=
  restoreChecks ++ [.clearTmp, .beginCopy, .copy, .verifyCopy, .inheritOwner]

def Staged : Prop := ∀ site ∈ stagingSites, fates site = .done

instance : Decidable (Staged fates) := List.decidableBAll _ _

def SameButTmp (files after : KineDir Bytes) : Prop :=
  after = { files with tmp := after.tmp }

variable {fates}

abbrev StageSpec (fates : RestoreSite → StepFate) (files : KineDir Bytes) :
    Option (Option RestoreSite) × KineDir Bytes → Prop :=
  Staging (SameButTmp files) (fun after => after.tmp = some (.staged true)) (Staged fates)

variable {previous : Bool} {files after : KineDir Bytes} {result : Option RestoreEnd}

theorem stage_must {site : RestoreSite} {refused : RestoreSite}
    {effect : KineDir Bytes → KineDir Bytes} {next : Crashing (KineDir Bytes) (Option RestoreSite)}
    (hsame : SameButTmp files after) (heffect : SameButTmp files (effect after))
    (hsite : site ∈ stagingSites)
    (hnext : fates site = .done → StageSpec fates files (next (effect after))) :
    StageSpec fates files (must (fates site) effect (abandon fates (some refused)) next after) := by
  have htidy : SameButTmp files (clearTmp after) := by
    unfold SameButTmp at hsame ⊢
    rw [hsame]
    rfl
  exact staging_must hsame heffect (fun hstaged => hstaged site hsite)
    (fun hnot => staging_abandon hsame htidy hnot) hnext

/-- Staging touches the staged copy only, and comes through exactly when each of its
steps is done. -/
theorem stage_apply (files : KineDir Bytes) : StageSpec fates files (stage fates files) := by
  refine staging_checked rfl ?_ fun hchecks => ?_
  · exact fun hstaged site hsite => hstaged site (List.mem_append_left _ hsite)
  refine staging_must (by exact rfl) (by exact rfl) (fun hstaged => hstaged .clearTmp (by decide))
    (fun hnot => staging_stop (by exact rfl) nofun hnot) fun hclear => ?_
  refine stage_must (by exact rfl) (by exact rfl) (by decide) fun hbegin => ?_
  refine stage_must (by exact rfl) (by exact rfl) (by decide) fun hcopy => ?_
  refine stage_must (by exact rfl) (by exact rfl) (by decide) fun hverify => ?_
  refine stage_must (by exact rfl) (by exact rfl) (by decide) fun howner => ?_
  refine ⟨rfl, .inl ⟨rfl, ?_, rfl⟩⟩
  intro site hsite
  rcases List.mem_append.1 hsite with hcheck | hlast
  · exact hchecks site hcheck
  · simp only [List.mem_cons, List.not_mem_nil, or_false] at hlast
    rcases hlast with rfl | rfl | rfl | rfl | rfl <;> assumption

/-- Every file beside the database is moved aside without failure or kill. -/
def SidesMoved (fates : RestoreSite → StepFate) (wal shm stamp : Bool) : Prop :=
  (wal = true → fates .moveWal = .done) ∧ (shm = true → fates .moveShm = .done) ∧
    (stamp = true → fates .moveStamp = .done)

instance (wal shm stamp : Bool) : Decidable (SidesMoved fates wal shm stamp) :=
  inferInstanceAs (Decidable (_ ∧ _ ∧ _))

theorem moveAside_rule {property : Option RestoreEnd × KineDir Bytes → Prop} {site : RestoreSite}
    {present : KineDir Bytes → Bool} {rename : KineDir Bytes → KineDir Bytes}
    {next : Crashing (KineDir Bytes) RestoreEnd}
    (hskip : present files = false → property (next files))
    (hdone : present files = true → fates site = .done → property (next (rename files)))
    (hstop : present files = true → fates site ≠ .done → ∀ result,
      property (result, files) ∧ property (result, rename files)) :
    property (moveAside fates site present rename next files) := by
  unfold moveAside
  split
  case isFalse hpresent => exact hskip (Bool.eq_false_of_not_eq_true hpresent)
  rename_i hpresent
  apply must_rule
  · exact hdone hpresent
  · exact fun hfate => (hstop hpresent (hfate ▸ nofun) _).1
  · exact fun hfate => (hstop hpresent (hfate ▸ nofun) _).1
  · exact fun hfate => (hstop hpresent (hfate ▸ nofun) _).2

structure Aside (files after : KineDir Bytes) : Prop where
  db : after.db = files.db
  bak : after.bak = files.bak
  tmp : after.tmp = files.tmp
  wal : after.wal = files.wal ∨ after.bakWal = files.wal
  shm : after.shm = files.shm ∨ after.bakShm = files.shm
  stamp : after.stamp = files.stamp ∨ after.bakStamp = files.stamp

/-- What the swap leaves: the whole copy with nothing beside it, the database that was
put back without its `-wal`, or the database's own name as it was. -/
structure SwapSpec (fates : RestoreSite → StepFate) (previous : Bool) (files : KineDir Bytes)
    (run : Option RestoreEnd × KineDir Bytes) : Prop where
  installed : SidesMoved fates files.wal.isSome files.shm.isSome files.stamp.isSome →
    (fates .install).Took →
    run.2.db = files.tmp ∧ run.2.wal = none ∧ run.2.shm = none ∧ run.2.stamp = none
  undone : SidesMoved fates files.wal.isSome files.shm.isSome files.stamp.isSome →
    fates .install = .failed → previous = true → (fates .putBack).Took →
    run.2.db = files.bak ∧ run.2.wal = none
  untouched : ¬ (SidesMoved fates files.wal.isSome files.shm.isSome files.stamp.isSome ∧
      ((fates .install).Took ∨
        fates .install = .failed ∧ previous = true ∧ (fates .putBack).Took)) →
    run.2.db = files.db
  bak : run.2.db = files.bak ∨ run.2.bak = files.bak
  wal : run.2.wal = files.wal ∨ run.2.bakWal = files.wal
  shm : run.2.shm = files.shm ∨ run.2.bakShm = files.shm
  stamp : run.2.stamp = files.stamp ∨ run.2.bakStamp = files.stamp

section

variable (haside : Aside files after)

include haside

theorem swapSpec_of_stop
    (hstop : ¬ (SidesMoved fates files.wal.isSome files.shm.isSome files.stamp.isSome ∧
      ((fates .install).Took ∨
        fates .install = .failed ∧ previous = true ∧ (fates .putBack).Took))) :
    SwapSpec fates previous files (result, after) where
  installed hmoved htook := absurd ⟨hmoved, .inl htook⟩ hstop
  undone hmoved hfailed hprevious htook :=
    absurd ⟨hmoved, .inr ⟨hfailed, hprevious, htook⟩⟩ hstop
  untouched _ := haside.db
  bak := .inr haside.bak
  wal := haside.wal
  shm := haside.shm
  stamp := haside.stamp

theorem swapSpec_installed
    (hmoved : SidesMoved fates files.wal.isSome files.shm.isSome files.stamp.isSome)
    (hwal : after.wal = none) (hshm : after.shm = none) (hstamp : after.stamp = none)
    (htook : (fates .install).Took) : SwapSpec fates previous files (result, install after) where
  installed _ _ := ⟨haside.tmp, hwal, hshm, hstamp⟩
  undone _ hfailed := absurd htook (not_took_of_failed hfailed)
  untouched hstop := absurd ⟨hmoved, .inl htook⟩ hstop
  bak := .inr haside.bak
  wal := haside.wal
  shm := haside.shm
  stamp := haside.stamp

theorem swapSpec_putBack
    (hmoved : SidesMoved fates files.wal.isSome files.shm.isSome files.stamp.isSome)
    (hwal : after.wal = none) (hfailed : fates .install = .failed) (hprevious : previous = true)
    (htook : (fates .putBack).Took) : SwapSpec fates previous files (result, putBack after) where
  installed _ hinstall := absurd hinstall (not_took_of_failed hfailed)
  undone _ _ _ _ := ⟨haside.bak, hwal⟩
  untouched hstop := absurd ⟨hmoved, .inr ⟨hfailed, hprevious, htook⟩⟩ hstop
  bak := .inl haside.bak
  wal := haside.wal
  shm := haside.shm
  stamp := haside.stamp

theorem installCopy_apply
    (hmoved : SidesMoved fates files.wal.isSome files.shm.isSome files.stamp.isSome)
    (hwal : after.wal = none) (hshm : after.shm = none) (hstamp : after.stamp = none) :
    SwapSpec fates previous files (installCopy fates previous after) := by
  have hinstalled : ∀ result, (fates .install).Took →
      SwapSpec fates previous files (result, install after) :=
    fun _ htook => swapSpec_installed haside hmoved hwal hshm hstamp htook
  apply must_rule
  · exact fun hfate => hinstalled _ (.inl hfate)
  · intro hfailed
    have hnot : ¬ (fates .install).Took := not_took_of_failed hfailed
    cases previous with
    | false => exact swapSpec_of_stop haside (by simp [hnot])
    | true =>
      apply must_rule
      · exact fun hfate => swapSpec_putBack haside hmoved hwal hfailed rfl (.inl hfate)
      · exact fun hfate => swapSpec_of_stop haside (by simp [hnot, not_took_of_failed hfate])
      · exact fun hfate =>
          swapSpec_of_stop haside (by simp [hnot, not_took_of_killedBefore hfate])
      · exact fun hfate => swapSpec_putBack haside hmoved hwal hfailed rfl (.inr hfate)
  · exact fun hfate =>
      swapSpec_of_stop haside (by simp [hfate, StepFate.Took])
  · exact fun hfate => hinstalled _ (.inr hfate)

theorem stampAside_apply (hsame : after.stamp = files.stamp)
    (hwalDone : files.wal.isSome = true → fates .moveWal = .done)
    (hshmDone : files.shm.isSome = true → fates .moveShm = .done) (hwal : after.wal = none)
    (hshm : after.shm = none) :
    SwapSpec fates previous files
      (moveAside fates .moveStamp (fun files => files.stamp.isSome) moveStamp
        (installCopy fates previous) after) := by
  have hmovedAside : Aside files (moveStamp after) :=
    ⟨haside.db, haside.bak, haside.tmp, haside.wal, haside.shm, .inr hsame⟩
  apply moveAside_rule
  · intro hnone
    have hstamp : after.stamp = none := by simpa using hnone
    exact installCopy_apply haside ⟨hwalDone, hshmDone, by simp [← hsame, hstamp]⟩ hwal hshm hstamp
  · intro _ hdone
    exact installCopy_apply hmovedAside ⟨hwalDone, hshmDone, fun _ => hdone⟩ hwal hshm rfl
  · intro hpresent hstop result
    have hnot : ¬ SidesMoved fates files.wal.isSome files.shm.isSome files.stamp.isSome :=
      fun hmoved => hstop (hmoved.2.2 (hsame ▸ hpresent))
    exact ⟨swapSpec_of_stop haside (fun hall => hnot hall.1),
      swapSpec_of_stop hmovedAside (fun hall => hnot hall.1)⟩

theorem shmAside_apply (hsame : after.shm = files.shm) (hsameStamp : after.stamp = files.stamp)
    (hwalDone : files.wal.isSome = true → fates .moveWal = .done) (hwal : after.wal = none) :
    SwapSpec fates previous files
      (moveAside fates .moveShm (fun files => files.shm.isSome) moveShm
        (moveAside fates .moveStamp (fun files => files.stamp.isSome) moveStamp
          (installCopy fates previous)) after) := by
  have hmovedAside : Aside files (moveShm after) :=
    ⟨haside.db, haside.bak, haside.tmp, haside.wal, .inr hsame, haside.stamp⟩
  apply moveAside_rule
  · intro hnone
    have hshm : after.shm = none := by simpa using hnone
    exact stampAside_apply haside hsameStamp hwalDone (by simp [← hsame, hshm]) hwal hshm
  · intro _ hdone
    exact stampAside_apply hmovedAside hsameStamp hwalDone (fun _ => hdone) hwal rfl
  · intro hpresent hstop result
    have hnot : ¬ SidesMoved fates files.wal.isSome files.shm.isSome files.stamp.isSome :=
      fun hmoved => hstop (hmoved.2.1 (hsame ▸ hpresent))
    exact ⟨swapSpec_of_stop haside (fun hall => hnot hall.1),
      swapSpec_of_stop hmovedAside (fun hall => hnot hall.1)⟩

end

theorem swapIn_apply (previous : Bool) (files : KineDir Bytes) :
    SwapSpec fates previous files (swapIn fates previous files) := by
  have haside : Aside files files := ⟨rfl, rfl, rfl, .inl rfl, .inl rfl, .inl rfl⟩
  have hmovedAside : Aside files (moveWal files) :=
    ⟨rfl, rfl, rfl, .inr rfl, .inl rfl, .inl rfl⟩
  apply moveAside_rule
  · intro hnone
    have hwal : files.wal = none := by simpa using hnone
    exact shmAside_apply haside rfl rfl (by simp [hwal]) hwal
  · intro _ hdone
    exact shmAside_apply hmovedAside rfl rfl (fun _ => hdone) rfl
  · intro hpresent hstop result
    have hnot : ¬ SidesMoved fates files.wal.isSome files.shm.isSome files.stamp.isSome :=
      fun hmoved => hstop (hmoved.1 hpresent)
    exact ⟨swapSpec_of_stop haside (fun hall => hnot hall.1),
      swapSpec_of_stop hmovedAside (fun hall => hnot hall.1)⟩

end Parts

section Outcome

variable {Bytes : Type}

def Kept (was : Option Bytes) (own preserved : Option (PlacedFile Bytes)) : Prop :=
  was = none ∨ own = was.map .old ∨ preserved = was.map .old

/-- No file of the data dir is lost: it is in place or set aside. -/
structure Preserved (start : KineFiles Bytes) (finish : KineDir Bytes) : Prop where
  db : Kept start.db finish.db finish.bak
  wal : Kept start.wal finish.wal finish.bakWal
  shm : Kept start.shm finish.shm finish.bakShm
  stamp : Kept start.stamp finish.stamp finish.bakStamp

/-- The datastore a start finds is the complete old one, or the snapshot with nothing
old beside it; a new one is created only where there was none. -/
def Survives (committed : Bytes → Bool) (start : KineFiles Bytes) : KineStart Bytes → Prop
  | .fresh => start.db = none
  | .opens (.old db) wal _ _ =>
    start.db = some db ∧
      (wal = start.wal.map .old ∨ wal = none ∧ start.wal.all (fun bytes => !committed bytes))
  | .opens (.staged whole) wal shm stamp =>
    whole = true ∧ wal = none ∧ shm = none ∧ stamp = none

/-- The restores that lose nothing: no database is renamed, or every rename up to the copy's
takes effect, or the database is put back and no committed `-wal` was moved away. -/
def Undisturbed (committed : Bytes → Bool) (fates : RestoreSite → StepFate)
    (start : KineFiles Bytes) : Prop :=
  start.db = none ∨ ¬ Staged fates ∨ ¬ (fates .moveDb).Took ∨
    fates .moveDb = .done ∧ SidesMoved fates start.wal.isSome start.shm.isSome start.stamp.isSome ∧
      ((fates .install).Took ∨
        fates .install = .failed ∧ (fates .putBack).Took ∧
          start.wal.all (fun bytes => !committed bytes))

instance (committed : Bytes → Bool) (fates : RestoreSite → StepFate)
    (start : KineFiles Bytes) : Decidable (Undisturbed committed fates start) :=
  inferInstanceAs (Decidable (_ ∨ _ ∨ _ ∨ _ ∧ _ ∧ (_ ∨ _ ∧ _ ∧ _)))

def Verdict (committed : Bytes → Bool) (fates : RestoreSite → StepFate) (start : KineFiles Bytes)
    (run : Option RestoreEnd × KineDir Bytes) : Prop :=
  Preserved start run.2 ∧
    (Survives committed start (nextStart run.2) ↔ Undisturbed committed fates start)

variable {committed : Bytes → Bool} {fates : RestoreSite → StepFate} {start : KineFiles Bytes}
  {result : Option RestoreEnd}

theorem verdict_of_same (result : Option RestoreEnd) {finish : KineDir Bytes}
    (hsame : SameButTmp (start.map .old) finish)
    (hundisturbed : Undisturbed committed fates start) :
    Verdict committed fates start (result, finish) := by
  have hdb : finish.db = start.db.map .old := by rw [hsame]; rfl
  have hwal : finish.wal = start.wal.map .old := by rw [hsame]; rfl
  have hshm : finish.shm = start.shm.map .old := by rw [hsame]; rfl
  have hstamp : finish.stamp = start.stamp.map .old := by rw [hsame]; rfl
  refine ⟨?_, iff_of_true ?_ hundisturbed⟩
  · exact ⟨.inr (.inl hdb), .inr (.inl hwal), .inr (.inl hshm), .inr (.inl hstamp)⟩
  cases hstart : start.db with
  | none => simp [nextStart, hdb, hstart, Survives]
  | some db => simp [nextStart, hdb, hstart, Survives, hwal]

theorem verdict_of_gone {finish : KineDir Bytes} (hpreserved : Preserved start finish)
    (hdb : finish.db = none) (hstart : start.db ≠ none)
    (hdisturbed : ¬ Undisturbed committed fates start) :
    Verdict committed fates start (result, finish) := by
  refine ⟨hpreserved, iff_of_false ?_ hdisturbed⟩
  simpa [nextStart, hdb, Survives] using hstart

def stagedFiles (start : KineFiles Bytes) : KineDir Bytes :=
  { start.map .old with tmp := some (.staged true) }

theorem sidesMoved_iff (fates : RestoreSite → StepFate) (start : KineFiles Bytes) :
    SidesMoved fates (stagedFiles start).wal.isSome (stagedFiles start).shm.isSome
        (stagedFiles start).stamp.isSome ↔
      SidesMoved fates start.wal.isSome start.shm.isSome start.stamp.isSome := by
  simp only [stagedFiles, KineFiles.map, Option.isSome_map]

theorem verdict_of_swap {run : Option RestoreEnd × KineDir Bytes} (hstaged : Staged fates)
    (hmoveDb : fates .moveDb = .done) (hstart : start.db ≠ none)
    (hswap : SwapSpec fates true (moveDb (stagedFiles start)) run) :
    Verdict committed fates start run := by
  have hsides := sidesMoved_iff fates start
  refine ⟨⟨.inr hswap.bak, .inr hswap.wal, .inr hswap.shm, .inr hswap.stamp⟩, ?_⟩
  have hiff : Undisturbed committed fates start ↔
      SidesMoved fates start.wal.isSome start.shm.isSome start.stamp.isSome ∧
        ((fates .install).Took ∨
          fates .install = .failed ∧ (fates .putBack).Took ∧
            start.wal.all (fun bytes => !committed bytes)) := by
    have htook : StepFate.done.Took := .inl rfl
    simp [Undisturbed, hstart, hstaged, htook, hmoveDb]
  rw [hiff]
  by_cases hinstalled : SidesMoved fates start.wal.isSome start.shm.isSome start.stamp.isSome ∧
      (fates .install).Took
  · obtain ⟨hdb, hwal, hshm, hstamp⟩ := hswap.installed (hsides.2 hinstalled.1) hinstalled.2
    refine iff_of_true ?_ ⟨hinstalled.1, .inl hinstalled.2⟩
    simp [nextStart, hdb, hwal, hshm, hstamp, Survives, stagedFiles, moveDb]
  by_cases hundone : SidesMoved fates start.wal.isSome start.shm.isSome start.stamp.isSome ∧
      fates .install = .failed ∧ (fates .putBack).Took
  · obtain ⟨hmoved, hfailed, htook⟩ := hundone
    obtain ⟨hdb, hwal⟩ := hswap.undone (hsides.2 hmoved) hfailed rfl htook
    obtain ⟨db, hdbStart⟩ := Option.ne_none_iff_exists'.1 hstart
    -- the old database is open again, and the verdict rests on its `-wal` alone
    have hsurvives : Survives committed start (nextStart run.2) ↔
        start.wal.all (fun bytes => !committed bytes) = true := by
      have hopened : run.2.db = some (.old db) := by
        rw [hdb]
        simp [stagedFiles, moveDb, KineFiles.map, hdbStart]
      cases hwalStart : start.wal <;>
        simp [nextStart, hopened, hwal, Survives, hdbStart, hwalStart]
    rw [hsurvives]
    simp [hmoved, hfailed, htook, not_took_of_failed rfl]
  have hgone : run.2.db = none := by
    refine hswap.untouched ?_
    rintro ⟨hmoved, htook | ⟨hfailed, _, htook⟩⟩
    · exact hinstalled ⟨hsides.1 hmoved, htook⟩
    · exact hundone ⟨hsides.1 hmoved, hfailed, htook⟩
  refine iff_of_false (by simpa [nextStart, hgone, Survives] using hstart) ?_
  rintro ⟨hmoved, htook | ⟨hfailed, htook, _⟩⟩
  · exact hinstalled ⟨hmoved, htook⟩
  · exact hundone ⟨hmoved, hfailed, htook⟩

theorem verdict_of_first {run : Option RestoreEnd × KineDir Bytes} (hstart : start.db = none)
    (hswap : SwapSpec fates false (stagedFiles start) run) : Verdict committed fates start run := by
  refine ⟨⟨.inl hstart, .inr hswap.wal, .inr hswap.shm, .inr hswap.stamp⟩,
    iff_of_true ?_ (.inl hstart)⟩
  by_cases hinstalled : SidesMoved fates (stagedFiles start).wal.isSome
      (stagedFiles start).shm.isSome (stagedFiles start).stamp.isSome ∧ (fates .install).Took
  · obtain ⟨hdb, hwal, hshm, hstamp⟩ := hswap.installed hinstalled.1 hinstalled.2
    simp [nextStart, hdb, hwal, hshm, hstamp, Survives, stagedFiles]
  have hgone : run.2.db = none := by
    have hnone : (stagedFiles start).db = none := by simp [stagedFiles, KineFiles.map, hstart]
    rw [← hnone]
    refine hswap.untouched ?_
    rintro ⟨hmoved, htook | ⟨_, hfalse, _⟩⟩
    · exact hinstalled ⟨hmoved, htook⟩
    · exact absurd hfalse Bool.false_ne_true
  simpa [nextStart, hgone, Survives] using hstart

theorem verdict_of_staged (hstaged : Staged fates) :
    Verdict committed fates start
      ((if start.db.isSome then
        must (fates .moveDb) moveDb (abandon fates (.failed .moveDb)) (swapIn fates true)
      else swapIn fates false) (stagedFiles start)) := by
  cases hstart : start.db with
  | none => exact verdict_of_first hstart (swapIn_apply false _)
  | some db =>
    have hsome : start.db ≠ none := by simp [hstart]
    have hleft : ∀ (result : Option RestoreEnd) (finish : KineDir Bytes),
        SameButTmp (start.map .old) finish → ¬ (fates .moveDb).Took →
        Verdict committed fates start (result, finish) :=
      fun result _ hsame hnot => verdict_of_same result hsame (.inr (.inr (.inl hnot)))
    apply must_rule
    · exact fun hdone => verdict_of_swap hstaged hdone hsome (swapIn_apply true _)
    · intro hfailed
      have hnot : ¬ (fates .moveDb).Took := not_took_of_failed hfailed
      apply must_rule
      · exact fun _ => hleft _ _ rfl hnot
      · exact fun _ => hleft _ _ rfl hnot
      · exact fun _ => hleft _ _ rfl hnot
      · exact fun _ => hleft _ _ rfl hnot
    · exact fun hkilled => hleft _ _ rfl (not_took_of_killedBefore hkilled)
    · intro hkilled
      refine verdict_of_gone ?_ rfl hsome ?_
      · exact ⟨.inr (.inr rfl), .inr (.inl rfl), .inr (.inl rfl), .inr (.inl rfl)⟩
      · simp [Undisturbed, hstart, hstaged, hkilled, StepFate.Took]

/-- No kine restore deletes a byte of the old datastore; the next start finds that whole
or exactly the snapshot if and only if the restore is undisturbed. -/
theorem kine_restore_survives_iff (committed : Bytes → Bool) (fates : RestoreSite → StepFate)
    (start : KineFiles Bytes) :
    Preserved start (restoreSnapshot fates (start.map .old)).2 ∧
      (Survives committed start (nextStart (restoreSnapshot fates (start.map .old)).2) ↔
        Undisturbed committed fates start) := by
  have hstage : StageSpec fates (start.map PlacedFile.old) _ := stage_apply _
  obtain ⟨hsame, hend⟩ := hstage
  unfold restoreSnapshot
  rw [bind_apply]
  cases hrun : stage fates (start.map PlacedFile.old) with
  | mk result after =>
    rw [hrun] at hsame hend
    rcases hend with ⟨hresult, hstaged, htmp⟩ | ⟨hresult, hunstaged⟩
    · obtain rfl : result = some none := hresult
      obtain rfl : after = stagedFiles start := by
        rw [stagedFiles, ← htmp]
        exact hsame
      have hpresent : (stagedFiles start).db.isSome = start.db.isSome := Option.isSome_map
      simp only [look_bind, hpresent]
      exact verdict_of_staged hstaged
    · have hundisturbed : Undisturbed committed fates start := .inr (.inl hunstaged)
      match result with
      | none => exact verdict_of_same none hsame hundisturbed
      | some (some site) => exact verdict_of_same none hsame hundisturbed
      | some none => exact absurd rfl hresult

end Outcome

/-! ## Two restores that lose the datastore -/

def allBut (site : RestoreSite) (fate : StepFate) (other : RestoreSite) : StepFate :=
  if other = site then fate else .done

/-- A datastore with a `-wal`, a `-shm` and a pin stamp. -/
def servedFiles : KineFiles Nat where
  db := some 1
  wal := some 2
  shm := some 3
  stamp := some 4
  bak := none
  bakWal := none
  bakShm := none
  bakStamp := none
  tmp := none

/-- Killed once the database is aside, a restore leaves the next start an empty
datastore; a failed rename of the copy leaves it the database without its `-wal`. -/
theorem kine_restore_can_lose :
    (nextStart (restoreSnapshot (allBut .moveDb .killedAfter) (servedFiles.map .old)).2 = .fresh ∧
      ¬ Survives (fun _ => true) servedFiles
        (nextStart (restoreSnapshot (allBut .moveDb .killedAfter) (servedFiles.map .old)).2)) ∧
    (nextStart (restoreSnapshot (allBut .install .failed) (servedFiles.map .old)).2 =
        .opens (.old 1) none none none ∧
      ¬ Survives (fun _ => true) servedFiles
        (nextStart (restoreSnapshot (allBut .install .failed) (servedFiles.map .old)).2)) := by
  have hkilled : nextStart
    (restoreSnapshot (allBut .moveDb .killedAfter) (servedFiles.map .old)).2 =
      .fresh := by decide
  have hfailed : nextStart (restoreSnapshot (allBut .install .failed) (servedFiles.map .old)).2 =
      .opens (.old 1) none none none := by decide
  refine ⟨⟨hkilled, ?_⟩, hfailed, ?_⟩
  · rw [hkilled]
    simp [Survives, servedFiles]
  · rw [hfailed]
    simp [Survives, servedFiles]

end K3sm.Executor
