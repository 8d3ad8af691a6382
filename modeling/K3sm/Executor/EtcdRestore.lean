import K3sm.Core.Crash
import K3sm.Core.Glob

/-!
# Restoring an etcd data dir

`restoreEtcdSnapshot` rebuilds the snapshot into a directory beside the data dir and swaps the
two, with the status record moved aside in between.  A rename that fails undoes the ones before
it, last first; a kill leaves them as they are, and then `RefuseInterruptedEtcdRestore` has to
keep an etcd from starting.  It looks for what is left with a pattern that begins with the work
dir's own path, so it finds it when that path, read as a pattern, names the work dir.
-/

namespace K3sm.Executor

open K3sm.Core K3sm.Core.Crashing K3sm.Core.Filepath K3sm.Core.Glob

/-- An entry of the work dir: one from before the restore, or the directory the restore
rebuilds, which is whole once etcdutl has ended. -/
inductive EtcdItem (Data : Type)
  | was (data : Data)
  | rebuilt (whole : Bool)
  deriving DecidableEq

/-- The work dir as a restore with one stamp sees it: the entries it names, and the names
of all others, which earlier restores may have left. -/
structure EtcdWorkDir (Item : Type) where
  live : Option Item
  status : Option Item
  tmp : Option Item
  bak : Option Item
  statusBak : Option Item
  others : List Str
  deriving DecidableEq

def EtcdWorkDir.map {Item Other : Type} (convert : Item → Other) (dir : EtcdWorkDir Item) :
    EtcdWorkDir Other where
  live := dir.live.map convert
  status := dir.status.map convert
  tmp := dir.tmp.map convert
  bak := dir.bak.map convert
  statusBak := dir.statusBak.map convert
  others := dir.others

abbrev EtcdDir (Data : Type) := EtcdWorkDir (EtcdItem Data)

def etcdDataDirName : Str := "etcd".toList

def etcdStatusName : Str := "etcd-status.json".toList

def restoreHead : Str := "etcd.restore-".toList

def bakEnd : Str := ".bak".toList

def tmpEnd : Str := ".tmp".toList

structure RestoreStamp where
  text : Str
  oneName : '/' ∉ text

def bakName (stamp : RestoreStamp) : Str := restoreHead ++ (stamp.text ++ bakEnd)

def tmpName (stamp : RestoreStamp) : Str := restoreHead ++ (stamp.text ++ tmpEnd)

def statusBakName (stamp : RestoreStamp) : Str :=
  etcdStatusName ++ (".restore-".toList ++ (stamp.text ++ bakEnd))

/-- The patterns `RefuseInterruptedEtcdRestore` looks for. -/
def bakPattern : Str := restoreHead ++ '*' :: bakEnd

def tmpPattern : Str := restoreHead ++ '*' :: tmpEnd

def EtcdWorkDir.names {Item : Type} (stamp : RestoreStamp) (dir : EtcdWorkDir Item) : List Str :=
  (dir.live.toList.map fun _ => etcdDataDirName) ++
    (dir.status.toList.map fun _ => etcdStatusName) ++
    (dir.tmp.toList.map fun _ => tmpName stamp) ++ (dir.bak.toList.map fun _ => bakName stamp) ++
    (dir.statusBak.toList.map fun _ => statusBakName stamp) ++ dir.others

inductive EtcdSite
  | options
  | stateDb
  | lock
  | sweepDebris
  | statSnapshot
  | openSnapshot
  | sniff
  | kind
  | running
  | verify
  | pki
  | space
  | etcdutl
  | makeTmp
  | run
  | memberDb
  | restrict
  | chown
  | removeTmp
  | moveLive
  | moveStatus
  | install
  | undoStatus
  | undoLive
  deriving DecidableEq

/-- How a restore returns: done, with the error of a step that moved nothing, or with the
error of the swap and whether what had moved was put back. -/
inductive EtcdRestoreEnd
  | restored
  | failed (site : EtcdSite)
  | swapFailed (putBack : Bool)
  deriving DecidableEq

/-- What refuses before anything is written into the work dir. -/
def etcdRestoreChecks : List EtcdSite :=
  [.options, .stateDb, .lock, .sweepDebris, .statSnapshot, .openSnapshot, .sniff, .kind, .running,
    .verify, .pki, .space, .etcdutl]

section Restore

variable {Data : Type} (vacant : Data → Bool) (fates : EtcdSite → StepFate)

def clearRebuild (dir : EtcdDir Data) : EtcdDir Data := { dir with tmp := none }

def writeRebuild (whole : Bool) (dir : EtcdDir Data) : EtcdDir Data :=
  { dir with tmp := some (.rebuilt whole) }

def moveLive (dir : EtcdDir Data) : EtcdDir Data := { dir with live := none, bak := dir.live }

def moveStatus (dir : EtcdDir Data) : EtcdDir Data :=
  { dir with status := none, statusBak := dir.status }

def installRebuild (dir : EtcdDir Data) : EtcdDir Data :=
  { dir with live := dir.tmp, tmp := none }

def undoStatus (dir : EtcdDir Data) : EtcdDir Data :=
  { dir with status := dir.statusBak, statusBak := none }

def undoLive (dir : EtcdDir Data) : EtcdDir Data := { dir with live := dir.bak, bak := none }

/-- A step the file system refuses has no effect, whatever else happens to it. -/
def refusedFate (refused : Bool) (fate : StepFate) : StepFate :=
  match refused, fate with
  | false, fate => fate
  | true, .done => .failed
  | true, .killedAfter => .killedBefore
  | true, fate => fate

/-- `os.Mkdir` refuses a name that is taken. -/
def makeTmpFate (dir : EtcdDir Data) : StepFate := refusedFate dir.tmp.isSome (fates .makeTmp)

/-- A directory is not renamed onto an entry other than an empty directory. -/
def moveLiveFate (dir : EtcdDir Data) : StepFate :=
  refusedFate
    (match dir.bak with
    | none => false
    | some (.was data) => !vacant data
    | some (.rebuilt _) => true)
    (fates .moveLive)

def abandonRebuild {Result : Type} (result : Result) : Crashing (EtcdDir Data) Result :=
  must (fates .removeTmp) clearRebuild (pure result) (pure result)

/-- The rebuild and what `rebuildEtcdDataDir` makes sure of.  The result names the step
that refused. -/
def rebuildEtcdDataDir : Crashing (EtcdDir Data) (Option EtcdSite) := fun dir =>
  must (makeTmpFate fates dir) (writeRebuild false) (pure (some .makeTmp))
    (must (fates .run) (writeRebuild true) (abandonRebuild fates (some .run)) <|
    must (fates .memberDb) id (abandonRebuild fates (some .memberDb)) <|
    must (fates .restrict) id (abandonRebuild fates (some .restrict)) <|
    must (fates .chown) id (abandonRebuild fates (some .chown)) <|
    pure none) dir

def rebuild : Crashing (EtcdDir Data) (Option EtcdSite) :=
  checked fates etcdRestoreChecks (rebuildEtcdDataDir fates)

/-- The undo steps, last first; `putBack` says whether each one so far was done. -/
def rollback (putBack : Bool) :
    List (EtcdSite × (EtcdDir Data → EtcdDir Data)) → Crashing (EtcdDir Data) EtcdRestoreEnd
  | [] => abandonRebuild fates (.swapFailed putBack)
  | (site, back) :: rest =>
    must (fates site) back (rollback false rest) (rollback putBack rest)

def installStep (undo : List (EtcdSite × (EtcdDir Data → EtcdDir Data))) :
    Crashing (EtcdDir Data) EtcdRestoreEnd :=
  must (fates .install) installRebuild (rollback fates true undo) (pure .restored)

def statusStep (undo : List (EtcdSite × (EtcdDir Data → EtcdDir Data))) :
    Crashing (EtcdDir Data) EtcdRestoreEnd := do
  if ← look fun dir : EtcdDir Data => dir.status.isSome then
    must (fates .moveStatus) moveStatus (rollback fates true undo)
      (installStep fates ((.undoStatus, undoStatus) :: undo))
  else installStep fates undo

def swapEtcdDataDir : Crashing (EtcdDir Data) EtcdRestoreEnd := fun dir =>
  if dir.live.isSome then
    must (moveLiveFate vacant fates dir) moveLive (abandonRebuild fates (.failed .moveLive))
      (statusStep fates [(.undoLive, undoLive)]) dir
  else statusStep fates [] dir

/-- The new data dir is built aside and then swapped in. -/
def restoreEtcdSnapshot : Crashing (EtcdDir Data) EtcdRestoreEnd := do
  match ← rebuild fates with
  | some site => pure (.failed site)
  | none => swapEtcdDataDir vacant fates

end Restore

/-- How an etcd start or a cluster reset goes, as far as interrupted restores matter. -/
inductive StartEnd
  | refusedBefore
  | interrupted
  | badPattern
  | goesOn
  deriving DecidableEq

/-- The other directories of the file system, and the path of the work dir in it. -/
structure Surroundings where
  workDir : DirPath
  elsewhere : DirPath → List Str

section Starts

variable {Item : Type} (around : Surroundings) (stamp : RestoreStamp)

def listing (dir : EtcdWorkDir Item) (path : DirPath) : List Str :=
  if path = around.workDir then dir.names stamp else around.elsewhere path

def refuseInterruptedEtcdRestore (dir : EtcdWorkDir Item) : StartEnd :=
  if dir.live.isSome then .goesOn
  else
    match glob (listing around stamp dir) around.workDir bakPattern with
    | none => .badPattern
    | some baks =>
      match glob (listing around stamp dir) around.workDir tmpPattern with
      | none => .badPattern
      | some tmps => if baks.isEmpty && tmps.isEmpty then .goesOn else .interrupted

/-- An etcd start or a cluster reset: it may be refused for another reason first (the lock,
its options, a single-node datastore); up to the check it moves nothing. -/
def startEtcd (refusedBefore : Bool) (dir : EtcdWorkDir Item) : StartEnd :=
  if refusedBefore then .refusedBefore else refuseInterruptedEtcdRestore around stamp dir

/-- Starts and resets one after the other, up to the first that goes on. -/
def laterStarts (dir : EtcdWorkDir Item) : List Bool → List StartEnd
  | [] => []
  | refusedBefore :: rest =>
    match startEtcd around stamp refusedBefore dir with
    | .goesOn => [.goesOn]
    | refusal => refusal :: laterStarts dir rest

end Starts

section Rebuild

variable {Data : Type} {fates : EtcdSite → StepFate}

def rebuildSites : List EtcdSite := etcdRestoreChecks ++ [.run, .memberDb, .restrict, .chown]

def Rebuilt (fates : EtcdSite → StepFate) (dir : EtcdDir Data) : Prop :=
  (∀ site ∈ rebuildSites, fates site = .done) ∧ makeTmpFate fates dir = .done

instance (dir : EtcdDir Data) : Decidable (Rebuilt fates dir) :=
  inferInstanceAs (Decidable ((∀ site ∈ rebuildSites, fates site = .done) ∧ _))

def SameButRebuild (dir after : EtcdDir Data) : Prop :=
  after = { dir with tmp := after.tmp } ∧ (dir.tmp.isSome → after.tmp = dir.tmp)

abbrev RebuildSpec (fates : EtcdSite → StepFate) (dir : EtcdDir Data) :
    Option (Option EtcdSite) × EtcdDir Data → Prop :=
  Staging (SameButRebuild dir) (fun after => after.tmp = some (.rebuilt true)) (Rebuilt fates dir)

theorem sameButRebuild_of_free {dir : EtcdDir Data} (hfree : dir.tmp = none)
    (rebuild : Option (EtcdItem Data)) : SameButRebuild dir { dir with tmp := rebuild } :=
  ⟨rfl, by simp [hfree]⟩

theorem tmp_free_of_makeTmp {dir : EtcdDir Data} (htook : (makeTmpFate fates dir).Took) :
    dir.tmp = none := by
  unfold makeTmpFate at htook
  cases htmp : dir.tmp with
  | none => rfl
  | some item =>
    rw [htmp] at htook
    cases hfate : fates .makeTmp <;> simp [hfate, refusedFate, StepFate.Took] at htook

theorem rebuild_must {site refused : EtcdSite} {dir after : EtcdDir Data}
    {effect : EtcdDir Data → EtcdDir Data} {next : Crashing (EtcdDir Data) (Option EtcdSite)}
    (hfree : dir.tmp = none)
    (hsame : SameButRebuild dir after) (heffect : SameButRebuild dir (effect after))
    (hsite : site ∈ rebuildSites)
    (hnext : fates site = .done → RebuildSpec fates dir (next (effect after))) :
    RebuildSpec fates dir
      (must (fates site) effect (abandonRebuild fates (some refused)) next after) := by
  have htidy : SameButRebuild dir (clearRebuild after) := by
    rw [hsame.1]
    exact sameButRebuild_of_free hfree none
  exact staging_must hsame heffect (fun hrebuilt => hrebuilt.1 site hsite)
    (fun hnot => staging_abandon hsame htidy hnot) hnext

theorem rebuild_apply (dir : EtcdDir Data) : RebuildSpec fates dir (rebuild fates dir) := by
  have hsame : SameButRebuild dir dir := ⟨rfl, fun _ => rfl⟩
  refine staging_checked hsame ?_ fun hchecks => ?_
  · exact fun hrebuilt site hsite => hrebuilt.1 site (List.mem_append_left _ hsite)
  -- the first step is the one that needs the name to be free
  apply must_rule
  case hfailed =>
    exact fun hfate => staging_stop hsame nofun fun hrebuilt => by simp [hrebuilt.2] at hfate
  case hbefore =>
    exact fun hfate => staging_stop hsame nofun fun hrebuilt => by simp [hrebuilt.2] at hfate
  case hafter =>
    intro hfate
    have hfree : dir.tmp = none := tmp_free_of_makeTmp (.inr hfate)
    exact staging_stop (sameButRebuild_of_free hfree _) nofun fun hrebuilt => by
      simp [hrebuilt.2] at hfate
  intro hmake
  have hfree : dir.tmp = none := tmp_free_of_makeTmp (.inl hmake)
  have hkept : ∀ rebuild, SameButRebuild dir { dir with tmp := rebuild } :=
    sameButRebuild_of_free hfree
  refine rebuild_must hfree (hkept _) (hkept _) (by decide) fun hrun => ?_
  refine rebuild_must hfree (hkept _) (hkept _) (by decide) fun hmember => ?_
  refine rebuild_must hfree (hkept _) (hkept _) (by decide) fun hrestrict => ?_
  refine rebuild_must hfree (hkept _) (hkept _) (by decide) fun hchown => ?_
  refine ⟨hkept _, .inl ⟨rfl, ⟨?_, hmake⟩, rfl⟩⟩
  intro site hsite
  rcases List.mem_append.1 hsite with hcheck | hlast
  · exact hchecks site hcheck
  · simp only [List.mem_cons, List.not_mem_nil, or_false] at hlast
    rcases hlast with rfl | rfl | rfl | rfl <;> assumption

end Rebuild

section Swap

variable {Data : Type} {fates : EtcdSite → StepFate}

/-- The undo reaches the data dir and takes effect on it. -/
def PutsBack (fates : EtcdSite → StepFate) (movedStatus : Bool) : Prop :=
  (movedStatus = true → fates .undoStatus = .done ∨ fates .undoStatus = .failed) ∧
    (fates .undoLive).Took

/-- The last rename takes effect, or fails and is undone. -/
def InstallLands (fates : EtcdSite → StepFate) (movedStatus : Bool) : Prop :=
  (fates .install).Took ∨ fates .install = .failed ∧ PutsBack fates movedStatus

/-- From the moment the data dir is aside, its name is filled again. -/
def SwapLands (fates : EtcdSite → StepFate) (status : Bool) : Prop :=
  if status then
    fates .moveStatus = .done ∧ InstallLands fates true ∨
      fates .moveStatus = .failed ∧ PutsBack fates false
  else InstallLands fates false

/-- What holds of the data dir and the status record when a swap ends: `moved` says
whether there was a data dir to move, `lands` whether its name is filled again. -/
structure SwapEnd (moved : Bool) (lands : Prop) (start : EtcdDir Data)
    (run : Option EtcdRestoreEnd × EtcdDir Data) : Prop where
  landed : moved = false ∨ lands → run.2.live = start.live ∨ run.2.live = some (.rebuilt true)
  gone : moved = true → ¬ lands → run.2.live = none
  kept : run.2.live = start.live ∨ moved = false ∨ run.2.bak = start.live
  bak : moved = false → run.2.bak = start.bak
  undone : ∀ result, run.1 = some result → result ≠ .restored → result ≠ .swapFailed false →
    run.2.live = start.live ∧ run.2.status = start.status
  others : run.2.others = start.others

def undoOf (moved : Bool) : List (EtcdSite × (EtcdDir Data → EtcdDir Data)) :=
  if moved then [(.undoLive, undoLive)] else []

structure Between (moved : Bool) (start dir : EtcdDir Data) : Prop where
  live : dir.live = none
  bak : if moved then dir.bak = start.live else start.live = none ∧ dir.bak = start.bak
  tmp : dir.tmp = some (.rebuilt true)
  others : dir.others = start.others

variable {moved : Bool} {start dir : EtcdDir Data}

theorem Between.kept (hbetween : Between moved start dir) :
    moved = false ∨ dir.bak = start.live := by
  have hbak := hbetween.bak
  cases moved with
  | false => exact .inl rfl
  | true => exact .inr hbak

theorem Between.bak_of_not_moved (hbetween : Between moved start dir) (hmoved : moved = false) :
    dir.bak = start.bak := by
  have hbak := hbetween.bak
  rw [hmoved] at hbak
  exact hbak.2

variable {result : Option EtcdRestoreEnd} {lands : Prop}

theorem swapEnd_between {rebuild : Option (EtcdItem Data)} (hbetween : Between moved start dir)
    (hlands : ¬ lands) (hresult : result = none ∨ result = some (.swapFailed false)) :
    SwapEnd moved lands start (result, { dir with tmp := rebuild }) where
  landed hor := by
    rcases hor with hmoved | hland
    · have hbak := hbetween.bak
      rw [hmoved] at hbak
      exact .inl (hbetween.live.trans hbak.1.symm)
    · exact absurd hland hlands
  gone _ _ := hbetween.live
  kept := .inr hbetween.kept
  bak := hbetween.bak_of_not_moved
  undone other hother hrestored hfailed := by
    rcases hresult with rfl | rfl
    · exact absurd hother nofun
    · exact absurd (Option.some.inj hother).symm hfailed
  others := hbetween.others

theorem swapEnd_back {after : EtcdDir Data} (hlive : after.live = start.live)
    (hothers : after.others = start.others) (hlands : moved = true → lands)
    (hbak : moved = false → after.bak = start.bak)
    (hstatus : result = none ∨ result = some (.swapFailed false) ∨ after.status = start.status) :
    SwapEnd moved lands start (result, after) where
  landed _ := .inl hlive
  gone hmoved hnot := absurd (hlands hmoved) hnot
  kept := .inl hlive
  bak := hbak
  undone other hother hrestored hfailed := by
    rcases hstatus with rfl | rfl | hsame
    · exact absurd hother nofun
    · exact absurd (Option.some.inj hother).symm hfailed
    · exact ⟨hlive, hsame⟩
  others := hothers

theorem SwapEnd.congr {other : Prop} {run : Option EtcdRestoreEnd × EtcdDir Data}
    (hswap : SwapEnd moved lands start run) (hiff : lands ↔ other) :
    SwapEnd moved other start run := by
  rwa [← propext hiff]

theorem abandonRebuild_rule {property : Option EtcdRestoreEnd × EtcdDir Data → Prop}
    {result : EtcdRestoreEnd}
    (hleft : ∀ rebuild, property (some result, { dir with tmp := rebuild }) ∧
      property (none, { dir with tmp := rebuild })) :
    property (abandonRebuild fates result dir) := by
  apply must_rule
  · exact fun _ => (hleft none).1
  · exact fun _ => (hleft dir.tmp).1
  · exact fun _ => (hleft dir.tmp).2
  · exact fun _ => (hleft none).2

section

variable (hbetween : Between moved start dir)

include hbetween

theorem rollback_live {putBack : Bool} (hstatus : putBack = true → dir.status = start.status) :
    SwapEnd moved (fates .undoLive).Took start (rollback fates putBack (undoOf moved) dir) := by
  have hputBack : putBack = false ∨ dir.status = start.status := by
    cases putBack with
    | false => exact .inl rfl
    | true => exact .inr (hstatus rfl)
  have hbak := hbetween.bak
  cases moved with
  | false =>
    apply abandonRebuild_rule
    intro rebuild
    have hlive : dir.live = start.live := hbetween.live.trans hbak.1.symm
    refine ⟨swapEnd_back hlive hbetween.others nofun (fun _ => hbak.2) ?_,
      swapEnd_back hlive hbetween.others nofun (fun _ => hbak.2) (.inl rfl)⟩
    exact .inr (hputBack.imp (fun hfalse => by rw [hfalse]) id)
  | true =>
    apply must_rule
    · intro hdone
      apply abandonRebuild_rule
      intro rebuild
      refine ⟨swapEnd_back hbak hbetween.others (fun _ => .inl hdone) nofun ?_,
        swapEnd_back hbak hbetween.others (fun _ => .inl hdone) nofun (.inl rfl)⟩
      exact .inr (hputBack.imp (fun hfalse => by rw [hfalse]) id)
    · intro hfailed
      apply abandonRebuild_rule
      intro rebuild
      exact ⟨swapEnd_between hbetween (not_took_of_failed hfailed) (.inr rfl),
        swapEnd_between hbetween (not_took_of_failed hfailed) (.inl rfl)⟩
    · exact fun hkilled =>
        swapEnd_between hbetween (not_took_of_killedBefore hkilled) (.inl rfl)
    · exact fun hkilled =>
        swapEnd_back hbak hbetween.others (fun _ => .inr hkilled) nofun (.inl rfl)

theorem rollback_status (hstatus : dir.statusBak = start.status) :
    SwapEnd moved (PutsBack fates true) start
      (rollback fates true ((.undoStatus, undoStatus) :: undoOf moved) dir) := by
  have hundone : Between moved start (undoStatus dir) :=
    ⟨hbetween.live, hbetween.bak, hbetween.tmp, hbetween.others⟩
  apply must_rule
  · intro hdone
    exact (rollback_live hundone fun _ => hstatus).congr (by simp [PutsBack, hdone])
  · intro hfailed
    have hfalse : SwapEnd moved (fates .undoLive).Took start
        (rollback fates false (undoOf moved) dir) := rollback_live hbetween nofun
    exact hfalse.congr (by simp [PutsBack, hfailed])
  · exact fun hkilled => swapEnd_between hbetween (by simp [PutsBack, hkilled]) (.inl rfl)
  · exact fun hkilled => swapEnd_between hundone (by simp [PutsBack, hkilled]) (.inl rfl)

theorem swapEnd_installed (hlands : lands) (hresult : result = none ∨ result = some .restored) :
    SwapEnd moved lands start (result, installRebuild dir) where
  landed _ := .inr hbetween.tmp
  gone _ hnot := absurd hlands hnot
  kept := .inr hbetween.kept
  bak := hbetween.bak_of_not_moved
  undone other hother hrestored hfailed := by
    rcases hresult with rfl | rfl
    · exact absurd hother nofun
    · exact absurd (Option.some.inj hother).symm hrestored
  others := hbetween.others

theorem installStep_apply {movedStatus : Bool}
    {undo : List (EtcdSite × (EtcdDir Data → EtcdDir Data))}
    (hrollback : SwapEnd moved (PutsBack fates movedStatus) start (rollback fates true undo dir)) :
    SwapEnd moved (InstallLands fates movedStatus) start (installStep fates undo dir) := by
  apply must_rule
  · exact fun hdone => swapEnd_installed hbetween (.inl (.inl hdone)) (.inr rfl)
  · intro hfailed
    exact hrollback.congr (by simp [InstallLands, hfailed, StepFate.Took])
  · intro hkilled
    exact swapEnd_between hbetween (by simp [InstallLands, hkilled, StepFate.Took]) (.inl rfl)
  · exact fun hkilled => swapEnd_installed hbetween (.inl (.inr hkilled)) (.inl rfl)

theorem statusStep_apply (hstatus : dir.status = start.status) :
    SwapEnd moved (SwapLands fates dir.status.isSome) start
    (statusStep fates (undoOf moved) dir) := by
  have hmovedStatus : Between moved start (moveStatus dir) :=
    ⟨hbetween.live, hbetween.bak, hbetween.tmp, hbetween.others⟩
  have hrollback : SwapEnd moved (PutsBack fates false) start
      (rollback fates true (undoOf moved) dir) :=
    (rollback_live hbetween fun _ => hstatus).congr (by simp [PutsBack])
  unfold statusStep
  rw [look_bind]
  cases hpresent : dir.status.isSome with
  | false => exact installStep_apply hbetween hrollback
  | true =>
    apply must_rule
    · intro hdone
      exact (installStep_apply hmovedStatus (rollback_status hmovedStatus hstatus)).congr
        (by simp [SwapLands, hdone])
    · exact fun hfailed => hrollback.congr (by simp [SwapLands, hfailed])
    · exact fun hkilled => swapEnd_between hbetween (by simp [SwapLands, hkilled]) (.inl rfl)
    · exact fun hkilled =>
        swapEnd_between hmovedStatus (by simp [SwapLands, hkilled]) (.inl rfl)

end

end Swap

section Whole

variable {Data : Type} (vacant : Data → Bool) (fates : EtcdSite → StepFate)

/-- The data dir's name is not left empty by a restore that found one: the restore stops
before the data dir is moved, or fills its name again. -/
def Lands (start : EtcdDir Data) : Prop :=
  ¬ Rebuilt fates start ∨ ¬ (moveLiveFate vacant fates start).Took ∨
    moveLiveFate vacant fates start = .done ∧ SwapLands fates start.status.isSome

variable {vacant fates} {start dir : EtcdDir Data}

theorem swapEtcdDataDir_apply (hrebuilt : Rebuilt fates start) (hsame : SameButRebuild start dir)
    (htmp : dir.tmp = some (.rebuilt true)) :
    SwapEnd start.live.isSome (Lands vacant fates start) start
      (swapEtcdDataDir vacant fates dir) := by
  have hdir := hsame.1
  have hlive : dir.live = start.live := by rw [hdir]
  have hbak : dir.bak = start.bak := by rw [hdir]
  have hothers : dir.others = start.others := by rw [hdir]
  have hstatus : dir.status = start.status := by rw [hdir]
  have hfate : moveLiveFate vacant fates dir = moveLiveFate vacant fates start := by
    rw [hdir]
    rfl
  have hlands : Lands vacant fates start ↔ ¬ (moveLiveFate vacant fates start).Took ∨
      moveLiveFate vacant fates start = .done ∧ SwapLands fates dir.status.isSome := by
    simp [Lands, hrebuilt, hstatus]
  unfold swapEtcdDataDir
  rw [hlive, hfate]
  cases hpresent : start.live.isSome with
  | false =>
    have hnone : start.live = none := by simpa using hpresent
    have hbetween : Between false start dir := ⟨hlive.trans hnone, ⟨hnone, hbak⟩, htmp, hothers⟩
    have hstep : SwapEnd false (SwapLands fates _) start _ := statusStep_apply hbetween hstatus
    exact ⟨fun _ => hstep.landed (.inl rfl), (fun hfalse => by cases hfalse), hstep.kept,
      hstep.bak, hstep.undone, hstep.others⟩
  | true =>
    have hbetween : Between true start (moveLive dir) := ⟨rfl, hlive, htmp, hothers⟩
    apply must_rule
    · intro hdone
      exact (statusStep_apply hbetween hstatus).congr
        (by rw [hlands]; simp [hdone, StepFate.Took, moveLive])
    · intro hfailed
      have hland : Lands vacant fates start := hlands.2 (.inl (not_took_of_failed hfailed))
      apply abandonRebuild_rule
      intro rebuild
      exact ⟨swapEnd_back hlive hothers (fun _ => hland) (fun hfalse => by cases hfalse)
        (.inr (.inr hstatus)),
        swapEnd_back hlive hothers (fun _ => hland) (fun hfalse => by cases hfalse) (.inl rfl)⟩
    · intro hkilled
      have hland : Lands vacant fates start :=
        hlands.2 (.inl (not_took_of_killedBefore hkilled))
      exact swapEnd_back hlive hothers (fun _ => hland) (fun _ => hbak) (.inl rfl)
    · intro hkilled
      refine swapEnd_between hbetween ?_ (.inl rfl)
      rw [hlands]
      simp [hkilled, StepFate.Took]

theorem restoreEtcdSnapshot_apply (start : EtcdDir Data) :
    SwapEnd start.live.isSome (Lands vacant fates start) start
      (restoreEtcdSnapshot vacant fates start) := by
  obtain ⟨hsame, hend⟩ : RebuildSpec fates start _ := rebuild_apply start
  unfold restoreEtcdSnapshot
  rw [bind_apply]
  cases hrun : rebuild fates start with
  | mk result after =>
    rw [hrun] at hsame hend
    rcases hend with ⟨hresult, hrebuilt, htmp⟩ | ⟨hresult, hrebuilt⟩
    · obtain rfl : result = some none := hresult
      exact swapEtcdDataDir_apply hrebuilt hsame htmp
    have hafter : after = { start with tmp := after.tmp } := hsame.1
    have hlive : after.live = start.live := by rw [hafter]
    have hbak : after.bak = start.bak := by rw [hafter]
    have hothers : after.others = start.others := by rw [hafter]
    have hstatus : after.status = start.status := by rw [hafter]
    have hland : Lands vacant fates start := .inl hrebuilt
    match result with
    | none => exact swapEnd_back hlive hothers (fun _ => hland) (fun _ => hbak) (.inl rfl)
    | some (some site) =>
      exact swapEnd_back hlive hothers (fun _ => hland) (fun _ => hbak) (.inr (.inr hstatus))
    | some none => exact absurd rfl hresult

theorem restoreEtcdSnapshot_tmp (start : EtcdDir Data) (htaken : start.tmp.isSome) :
    (restoreEtcdSnapshot vacant fates start).2.tmp = start.tmp := by
  obtain ⟨hsame, hend⟩ : RebuildSpec fates start _ := rebuild_apply start
  have hnot : ¬ Rebuilt fates start := fun hrebuilt => by
    simp [tmp_free_of_makeTmp (.inl hrebuilt.2)] at htaken
  have hresult := (hend.resolve_left fun hall => hnot hall.2.1).1
  unfold restoreEtcdSnapshot
  rw [bind_apply]
  cases hrun : rebuild fates start with
  | mk result after =>
    rw [hrun] at hsame hresult
    match result with
    | none => exact hsame.2 htaken
    | some (some site) => exact hsame.2 htaken
    | some none => exact absurd rfl hresult

end Whole

open List

section Refusal

variable {Item : Type} {around : Surroundings} {stamp : RestoreStamp} {dir : EtcdWorkDir Item}

/-- A name the start takes for the trace of an interrupted restore. -/
def isSibling (name : Str) : Bool := matchName bakPattern name || matchName tmpPattern name

theorem isSibling_bakName (stamp : RestoreStamp) : isSibling (bakName stamp) = true := by
  have hmatch : matchName bakPattern (bakName stamp) = true :=
    matchName_star (by decide) (by decide) stamp.oneName
  simp [isSibling, hmatch]

theorem isSibling_status (rest : Str) : isSibling ("etcd-".toList ++ rest) = false := by
  rfl

def namedDirs (around : Surroundings) : List DirPath := globDirs around.elsewhere around.workDir

theorem globDirs_listing :
    globDirs (listing around stamp dir) around.workDir = namedDirs around := by
  apply globDirs_congr
  intro path hshorter
  have hne : path ≠ around.workDir := fun heq => by simp [heq] at hshorter
  simp [listing, hne]

/-- An absent data dir is taken for an interrupted restore exactly when the work dir's path
is a pattern and a directory it names lists a sibling. -/
theorem refuse_interrupted_iff (hlive : dir.live = none) :
    refuseInterruptedEtcdRestore around stamp dir = .interrupted ↔
      around.workDir.all wellFormed ∧
        ∃ found ∈ namedDirs around, ∃ name ∈ listing around stamp dir found, isSibling name := by
  have hbakForm : wellFormed bakPattern = true := by decide
  have htmpForm : wellFormed tmpPattern = true := by decide
  unfold refuseInterruptedEtcdRestore glob
  rw [hlive, globDirs_listing]
  by_cases hform : around.workDir.all wellFormed = true
  · simp only [Option.isSome_none, Bool.false_eq_true, if_false, all_cons, hbakForm, htmpForm,
      hform, Bool.and_self, if_true, true_and]
    split
    case isTrue hempty =>
      simp only [Bool.and_eq_true, List.isEmpty_iff, flatMap_eq_nil_iff, map_eq_nil_iff,
        filter_eq_nil_iff] at hempty
      refine iff_of_false nofun ?_
      rintro ⟨found, hfound, name, hname, hsibling⟩
      simp only [isSibling, Bool.or_eq_true] at hsibling
      exact hsibling.elim (hempty.1 found hfound name hname) (hempty.2 found hfound name hname)
    rename_i hfull
    refine iff_of_true rfl ?_
    by_contra hnone
    apply hfull
    simp only [Bool.and_eq_true, List.isEmpty_iff, flatMap_eq_nil_iff, map_eq_nil_iff,
      filter_eq_nil_iff]
    constructor
    · intro found hfound name hname hmatch
      exact hnone ⟨found, hfound, name, hname, by simp [isSibling, hmatch]⟩
    · intro found hfound name hname hmatch
      exact hnone ⟨found, hfound, name, hname, by simp [isSibling, hmatch]⟩
  · simp [hform]

theorem refuse_ne_refusedBefore :
    refuseInterruptedEtcdRestore around stamp dir ≠ .refusedBefore := by
  unfold refuseInterruptedEtcdRestore
  split_ifs with hlive
  · exact nofun
  cases glob (listing around stamp dir) around.workDir bakPattern with
  | none => exact nofun
  | some baks =>
    cases glob (listing around stamp dir) around.workDir tmpPattern with
    | none => exact nofun
    | some tmps =>
      dsimp only
      split_ifs <;> exact nofun

/-- No etcd start and no cluster reset gets past the check, however often it is tried. -/
def EveryStartRefused (around : Surroundings) (stamp : RestoreStamp) (dir : EtcdWorkDir Item) :
    Prop :=
  ∀ attempts, ∀ outcome ∈ laterStarts around stamp dir attempts,
    outcome = .refusedBefore ∨ outcome = .interrupted

theorem everyStartRefused_iff :
    EveryStartRefused around stamp dir ↔
      refuseInterruptedEtcdRestore around stamp dir = .interrupted := by
  constructor
  · intro hrefused
    have hfirst := hrefused [false]
    simp only [laterStarts, startEtcd, Bool.false_eq_true, if_false] at hfirst
    cases hcheck : refuseInterruptedEtcdRestore around stamp dir with
    | refusedBefore => exact absurd hcheck refuse_ne_refusedBefore
    | interrupted => rfl
    | badPattern | goesOn => simp [hcheck] at hfirst
  · intro hcheck attempts
    induction attempts with
    | nil => simp [laterStarts]
    | cons refusedBefore rest ih =>
      cases refusedBefore with
      | false => simpa [laterStarts, startEtcd, hcheck] using ih
      | true => simpa [laterStarts, startEtcd] using ih

end Refusal

section AllOrNothing

variable {Data : Type} (around : Surroundings) (stamp : RestoreStamp)

/-- The data dir afterwards: the rebuilt one, or as it was (an absence that was refused
still is), or absent with every start refused. -/
def AllOrNothing (start finish : EtcdDir Data) : Prop :=
  finish.live = some (.rebuilt true) ∨
    finish.live = start.live ∧
      (start.live = none → EveryStartRefused around stamp start →
        EveryStartRefused around stamp finish) ∨
    finish.live = none ∧ EveryStartRefused around stamp finish

/-- The work dir's path is a pattern, and it names the work dir itself or a directory that
lists a sibling. -/
def Seen : Prop :=
  around.workDir.all wellFormed ∧
    ∃ found ∈ namedDirs around,
      found = around.workDir ∨ ∃ name ∈ around.elsewhere found, isSibling name

variable {around stamp} {start finish : EtcdDir Data}

theorem everyStartRefused_iff_seen (hlive : finish.live = none) (hbak : finish.bak.isSome) :
    EveryStartRefused around stamp finish ↔ Seen around := by
  have hlisted : bakName stamp ∈ finish.names stamp := by
    obtain ⟨item, hitem⟩ := Option.isSome_iff_exists.1 hbak
    simp [EtcdWorkDir.names, hitem]
  rw [everyStartRefused_iff, refuse_interrupted_iff hlive]
  refine and_congr_right fun _ => exists_congr fun found => and_congr_right fun _ => ?_
  by_cases hself : found = around.workDir
  · refine iff_of_true ?_ (.inl hself)
    exact ⟨bakName stamp, by simpa [listing, hself] using hlisted, isSibling_bakName stamp⟩
  · simp [listing, hself]

theorem everyStartRefused_kept (hstart : start.live = none) (hfinish : finish.live = none)
    (hbak : finish.bak = start.bak) (htmp : start.tmp.isSome → finish.tmp = start.tmp)
    (hothers : finish.others = start.others) (hrefused : EveryStartRefused around stamp start) :
    EveryStartRefused around stamp finish := by
  rw [everyStartRefused_iff, refuse_interrupted_iff hstart] at hrefused
  rw [everyStartRefused_iff, refuse_interrupted_iff hfinish]
  obtain ⟨hform, found, hfound, name, hname, hsibling⟩ := hrefused
  refine ⟨hform, found, hfound, name, ?_, hsibling⟩
  by_cases hself : found = around.workDir
  · simp only [listing, hself, if_true, EtcdWorkDir.names, mem_append, mem_map,
      Option.mem_toList, hstart] at hname
    simp only [listing, hself, if_true, EtcdWorkDir.names, mem_append, mem_map,
      Option.mem_toList, hbak, hothers]
    rcases hname with ((((⟨_, hnone, _⟩ | ⟨_, _, rfl⟩) | ⟨item, hitem, rfl⟩) | hkept) |
      ⟨_, _, rfl⟩) | hkept
    · exact absurd hnone nofun
    · exact absurd hsibling (by decide)
    · have hsame : finish.tmp = start.tmp := htmp (by simp [hitem])
      exact .inl (.inl (.inl (.inr ⟨item, by rw [hsame]; exact hitem, rfl⟩)))
    · exact .inl (.inl (.inr hkept))
    · rw [statusBakName] at hsibling
      exact absurd hsibling (Bool.eq_false_iff.1 (isSibling_status _))
    · exact .inr hkept
  · simpa only [listing, hself, if_false] using hname

variable (around stamp) (vacant : Data → Bool) (fates : EtcdSite → StepFate)

/-- When an etcd restore is all or nothing at the next start.  The old data dir is never lost,
and an error with a successful undo leaves it and the status record as they were. -/
theorem etcd_restore_all_or_nothing_iff (before : EtcdWorkDir Data) :
    (AllOrNothing around stamp (before.map .was)
        (restoreEtcdSnapshot vacant fates (before.map .was)).2 ↔
      before.live = none ∨ Lands vacant fates (before.map .was) ∨ Seen around) ∧
    (∀ data, before.live = some data →
      (restoreEtcdSnapshot vacant fates (before.map .was)).2.live = some (.was data) ∨
        (restoreEtcdSnapshot vacant fates (before.map .was)).2.bak = some (.was data)) ∧
    (∀ result, (restoreEtcdSnapshot vacant fates (before.map .was)).1 = some result →
      result ≠ .restored → result ≠ .swapFailed false →
      (restoreEtcdSnapshot vacant fates (before.map .was)).2.live = before.live.map .was ∧
        (restoreEtcdSnapshot vacant fates (before.map .was)).2.status =
          before.status.map .was) := by
  have hend : SwapEnd _ (Lands vacant fates (before.map .was)) (before.map EtcdItem.was) _ :=
    restoreEtcdSnapshot_apply _
  have htmp : _ → (restoreEtcdSnapshot vacant fates (before.map EtcdItem.was)).2.tmp = _ :=
    restoreEtcdSnapshot_tmp _
  have hold : (before.map EtcdItem.was).live = before.live.map .was := rfl
  generalize restoreEtcdSnapshot vacant fates (before.map EtcdItem.was) = run at hend htmp ⊢
  refine ⟨?_, ?_, hend.undone⟩
  · cases hlive : before.live with
    | none =>
      have hstart : (before.map EtcdItem.was).live = none := by rw [hold, hlive]; rfl
      refine iff_of_true ?_ (.inl rfl)
      rcases hend.landed (.inl (by simp [hstart])) with hsame | hrebuilt
      · refine .inr (.inl ⟨hsame, fun _ => ?_⟩)
        exact everyStartRefused_kept hstart (hsame.trans hstart)
          (hend.bak (by simp [hstart])) htmp hend.others
      · exact .inl hrebuilt
    | some data =>
      have hstart : (before.map EtcdItem.was).live = some (.was data) := by
        rw [hold, hlive]
        rfl
      simp only [reduceCtorEq, false_or]
      by_cases hlands : Lands vacant fates (before.map EtcdItem.was)
      · refine iff_of_true ?_ (.inl hlands)
        rcases hend.landed (.inr hlands) with hsame | hrebuilt
        · exact .inr (.inl ⟨hsame, fun hnone => by simp [hstart] at hnone⟩)
        · exact .inl hrebuilt
      have hgone : run.2.live = none := hend.gone (by simp [hstart]) hlands
      have hbak : run.2.bak.isSome := by
        rcases hend.kept with hsame | hmoved | hbak
        · simp [hgone, hstart] at hsame
        · simp [hstart] at hmoved
        · simp [hbak, hstart]
      rw [AllOrNothing, everyStartRefused_iff_seen hgone hbak]
      simp [hgone, hstart, hlands]
  intro data hdata
  have hstart : (before.map EtcdItem.was).live = some (.was data) := by
    rw [hold, hdata]
    rfl
  rcases hend.kept with hsame | hmoved | hbak
  · exact .inl (hsame.trans hstart)
  · simp [hstart] at hmoved
  · exact .inr (hbak.trans hstart)

end AllOrNothing

/-! ## A restore no start notices -/

/-- A work dir below a directory with a bracket in its name. -/
def bracketed : Surroundings where
  workDir := ["server".toList, "k3sm[1]".toList, "data".toList]
  elsewhere path :=
    if path = [] then ["data".toList]
    else if path = ["data".toList] then ["k3sm[1]".toList]
    else if path = ["k3sm[1]".toList, "data".toList] then ["server".toList]
    else []

def firstStamp : RestoreStamp where
  text := "20260101T000000Z".toList
  oneName := by decide

def memberDir : EtcdWorkDir Nat where
  live := some 1
  status := none
  tmp := none
  bak := none
  statusBak := none
  others := []

def killedAfterMove (site : EtcdSite) : StepFate := if site = .moveLive then .killedAfter else .done

/-- Killed between its renames there, a restore is followed by a start that goes on with
no data dir. -/
theorem etcd_restore_goes_unnoticed :
    laterStarts bracketed firstStamp
        (restoreEtcdSnapshot (fun _ => false) killedAfterMove (memberDir.map .was)).2 [false] =
      [.goesOn] ∧
    ¬ AllOrNothing bracketed firstStamp (memberDir.map .was)
        (restoreEtcdSnapshot (fun _ => false) killedAfterMove (memberDir.map .was)).2 := by
  have hfinish : (restoreEtcdSnapshot (fun _ => false) killedAfterMove (memberDir.map .was)).2 =
      { live := none, status := none, tmp := some (.rebuilt true), bak := some (.was 1),
        statusBak := none, others := [] } := by decide
  have hstart : laterStarts bracketed firstStamp
      (restoreEtcdSnapshot (fun _ => false) killedAfterMove (memberDir.map .was)).2 [false] =
        [.goesOn] := by decide +kernel
  refine ⟨hstart, ?_⟩
  have hnot : ¬ EveryStartRefused bracketed firstStamp
      (restoreEtcdSnapshot (fun _ => false) killedAfterMove (memberDir.map .was)).2 := by
    intro hrefused
    have hfirst := hrefused [false] .goesOn (by rw [hstart]; exact mem_singleton_self _)
    exact absurd hfirst (by decide)
  rintro (hrebuilt | ⟨hsame, _⟩ | ⟨_, hrefused⟩)
  · rw [hfinish] at hrebuilt
    exact absurd hrebuilt (by decide)
  · rw [hfinish] at hsame
    exact absurd hsame (by decide)
  · exact hnot hrefused

end K3sm.Executor
