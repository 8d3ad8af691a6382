import K3sm.Core.Run
import K3sm.Podlogs.Holdings

/-!
# Rotation loses only the oldest

As long as the clock shows a time later than every stamp on disk when a rotation reads it, and
no current file has been made anew when a rotation is undone, every byte written stays
accounted for: through failures of any call, crashes between any two, and writes at any time.
-/

namespace K3sm.Podlogs

open K3sm.Core List

section Calls

variable {Stamp : Type} [LinearOrder Stamp] {world : LogWorld Stamp}

/-- The condition on a call: the time read is later than every stamp on disk, and a rotated
file is renamed back over no current file with bytes in it or open for writing. -/
def RotationMeets (world : LogWorld Stamp) : LogRequest Stamp → LogOutcome Stamp → Prop
  | .now, outcome => ∀ file ∈ world.files.keys, ∀ stamp ∈ file.archived, stamp < outcome.stamp
  | .rename (.rotated _) .current, outcome =>
    outcome.fails = false → world.content .current = [] ∧ world.writer ≠ .on .current
  | _, _ => True

variable (world) in
theorem handle_remove (removal : Removal) (file : LogFile Stamp) (outcome : LogOutcome Stamp) :
    logHandle (.remove removal file) outcome world = (.failed, world) ∨
      file ∈ world.files ∧
        logHandle (.remove removal file) outcome world = (.removed, world.remove removal file) ∨
      file ∉ world.files ∧ logHandle (.remove removal file) outcome world = (.notExist, world) := by
  by_cases hfails : outcome.fails <;> by_cases hpresent : file ∈ world.files <;>
    simp [logHandle, hfails, hpresent]

variable (world) in
theorem handle_create (file : LogFile Stamp) (outcome : LogOutcome Stamp) :
    logHandle (.create file) outcome world = (false, world) ∨
      logHandle (.create file) outcome world = (true, world.put file []) := by
  by_cases hfails : outcome.fails <;> simp [logHandle, hfails]

variable (world) in
theorem handle_copy (source target : LogFile Stamp) (outcome : LogOutcome Stamp) :
    (∃ bytes, logHandle (.copy source target) outcome world = (false, world.put target bytes)) ∨
      logHandle (.copy source target) outcome world =
        (true, world.put target (world.content source)) := by
  by_cases hfails : outcome.fails <;> simp [logHandle, hfails]

variable (world) in
theorem handle_rename (source target : LogFile Stamp) (outcome : LogOutcome Stamp) :
    logHandle (.rename source target) outcome world = (false, world) ∨
      outcome.fails = false ∧ source ∈ world.files ∧
        logHandle (.rename source target) outcome world = (true, world.rename source target) := by
  by_cases hfails : outcome.fails <;> by_cases hpresent : source ∈ world.files <;>
    simp [logHandle, hfails, hpresent]

variable (world) in
theorem handle_stat (file : LogFile Stamp) (outcome : LogOutcome Stamp) :
    logHandle (.stat file) outcome world = (.failed, world) ∨
      file ∈ world.files ∧
        logHandle (.stat file) outcome world = (.found (world.content file).length, world) ∨
      logHandle (.stat file) outcome world = (.notExist, world) := by
  by_cases hfails : outcome.fails <;> by_cases hpresent : file ∈ world.files <;>
    simp [logHandle, hfails, hpresent]

theorem handle_reopen (hkept : LogKept world) (outcome : LogOutcome Stamp) :
    LogKept (logHandle .reopenContainerLog outcome world).2 ∧
      SameArchives world (logHandle .reopenContainerLog outcome world).2 := by
  rw [logHandle]
  split_ifs
  · cases outcome.effect with
    | kept => exact ⟨hkept, fun _ _ => rfl⟩
    | closed => exact ⟨hkept.closed, fun _ _ => rfl⟩
    | reopened => exact ⟨hkept.reopened, sameArchives_reopened⟩
  · exact ⟨hkept.reopened, sameArchives_reopened⟩

end Calls

section Programs

variable {Stamp : Type} [LinearOrder Stamp] {world : LogWorld Stamp} {Result : Type}

abbrev LogSafe (post : Result → LogWorld Stamp → Prop) (program : LogProg Stamp Result)
    (world : LogWorld Stamp) : Prop :=
  program.Safe logMachine (fun _ _ => True) RotationMeets LogKept post world

theorem stable_kept : Stable logMachine (fun _ _ => True) (fun _ => True)
    (LogKept : LogWorld Stamp → Prop) :=
  fun _ change _ _ hkept => hkept.change change

theorem stable_off (snapshot : LogWorld Stamp) :
    Stable logMachine (fun _ _ => True) LogKept
      (fun later => later.Off ∧ SameArchives snapshot later) := by
  intro later change hkept _ hoff
  obtain ⟨hafter, hsame⟩ := off_change hkept hoff.1 change
  exact ⟨hafter, hoff.2.trans hsame⟩

theorem stable_names (snapshot : LogWorld Stamp) :
    Stable logMachine (fun _ _ => True) LogKept (SameNames snapshot) := by
  intro later change hkept _ hnames file hfile
  exact (sameNames_change hkept change file hfile).trans (hnames file hfile)

variable {logs kept files : List (LogFile Stamp)} {file : LogFile Stamp}
  {request : LogRequest Stamp} {property : LogWorld Stamp → Prop} {stamp : Stamp}

theorem quiet_call {post : Result → LogWorld Stamp → Prop}
    {next : LogAnswer request → LogProg Stamp Result} (hkept : LogKept world) (hoff : world.Off)
    (hcall : ∀ later, LogKept later → later.Off → SameArchives world later →
      ∀ outcome, RotationMeets later request outcome →
        LogKept (logHandle request outcome later).2 ∧
          LogSafe post (next (logHandle request outcome later).1)
            (logHandle request outcome later).2) : LogSafe post (.call request next) world :=
  Prog.safe_call stable_kept (stable_off world) hkept ⟨hoff, fun _ _ => rfl⟩
    fun later hlater hproperty => hcall later hlater hproperty.1 hproperty.2

theorem names_call {post : Result → LogWorld Stamp → Prop}
    {next : LogAnswer request → LogProg Stamp Result} (hkept : LogKept world)
    (hcall : ∀ later, LogKept later → SameNames world later →
      ∀ outcome, RotationMeets later request outcome →
        LogKept (logHandle request outcome later).2 ∧
          LogSafe post (next (logHandle request outcome later).1)
            (logHandle request outcome later).2) : LogSafe post (.call request next) world :=
  Prog.safe_call stable_kept (stable_names world) hkept (fun _ _ => Iff.rfl) hcall

def ArchiveOnly (property : LogWorld Stamp → Prop) : Prop :=
  ∀ before after, SameArchives before after → property before → property after

def Ending (property : LogWorld Stamp → Prop) (succeeds : Bool) (world : LogWorld Stamp) : Prop :=
  succeeds = true → world.Off ∧ property world

theorem safe_true (harchives : ArchiveOnly property) (hkept : LogKept world) (hoff : world.Off)
    (hproperty : property world) : LogSafe (Ending property) (.done true) world := by
  intro later hothers _ _
  have hlater := ((stable_off world).others stable_kept hothers hkept ⟨hoff, fun _ _ => rfl⟩).2
  exact ⟨hlater.1, harchives world later hlater.2 hproperty⟩

theorem safe_false : LogSafe (Ending property) (.done false) world := by
  intro later _ _ hsucceeds
  cases hsucceeds

def Within (logs : List (LogFile Stamp)) (world : LogWorld Stamp) : Prop :=
  ∀ file ∈ world.files, file.archived.isSome → file ∈ logs

omit [LinearOrder Stamp] in
theorem ne_current (hfile : file.archived.isSome) : file ≠ .current := by
  rintro rfl
  simp [LogFile.archived] at hfile

theorem archiveOnly_within (logs : List (LogFile Stamp)) : ArchiveOnly (Within logs) :=
  fun _ _ hsame hwithin file hfile harchived =>
    hwithin file ((mem_congr (hsame file (ne_current harchived))).1 hfile) harchived

omit [LinearOrder Stamp] in
theorem within_tail (hwithin : Within (file :: logs) world) (habsent : file ∉ world.files) :
    Within logs world := by
  intro other hother harchived
  rcases mem_cons.1 (hwithin other hother harchived) with rfl | hmem
  · exact absurd hother habsent
  · exact hmem

theorem within_remove {removal : Removal} (hwithin : Within (file :: logs) world) :
    Within logs (world.remove removal file) := by
  have hafter : Within (file :: logs) (world.remove removal file) := by
    intro other hother
    refine hwithin other ?_
    rw [← AList.lookup_isSome, lookup_remove] at hother
    split_ifs at hother
    · simp at hother
    · exact AList.lookup_isSome.1 hother
  refine within_tail hafter ?_
  rw [← AList.lookup_isSome, lookup_remove]
  simp

def Debris (logs : List (LogFile Stamp)) (world : LogWorld Stamp) : Prop :=
  ∀ file ∈ logs, (∃ stamp, file = .temporary stamp) ∨
    ∃ stamp, file = .rotated stamp ∧ .compressed stamp ∈ world.files

theorem archiveOnly_debris (logs : List (LogFile Stamp)) : ArchiveOnly (Debris logs) := by
  intro before after hsame hdebris file hfile
  refine (hdebris file hfile).imp_right ?_
  rintro ⟨stamp, rfl, harchive⟩
  exact ⟨stamp, rfl, (mem_congr (hsame _ (by simp))).2 harchive⟩

theorem off_remove (hkept : LogKept world) (hoff : world.Off) (removal : Removal)
    (hfile : file ≠ .current) : (world.remove removal file).Off := by
  intro stamp
  rw [writer_remove hkept hoff removal hfile]
  exact hoff stamp

theorem removeLogs_safe {removal : Removal} (good : List (LogFile Stamp) → LogWorld Stamp → Prop)
    (harchives : ∀ files, ArchiveOnly (good files))
    (htail : ∀ file files world, good (file :: files) world → good files world)
    (hremove : ∀ file files world, LogKept world → world.Off → file ∈ world.files →
      Within (file :: (files ++ kept)) world → good (file :: files) world →
      file ≠ .current ∧ LogKept (world.remove removal file) ∧
        good files (world.remove removal file)) (hkept : LogKept world) (hoff : world.Off)
    (hwithin : Within (files ++ kept) world) (hgood : good files world) :
    LogSafe (Ending (Within kept)) (removeLogs removal files) world := by
  induction files generalizing world with
  | nil => exact safe_true (archiveOnly_within kept) hkept hoff hwithin
  | cons file files ih =>
    simp only [removeLogs, remove, Prog.ask_bind]
    refine quiet_call hkept hoff fun later hlater hlaterOff hsame outcome _ => ?_
    have hwithinLater := archiveOnly_within _ _ _ hsame hwithin
    have hgoodLater := harchives _ _ _ hsame hgood
    rcases handle_remove later removal file outcome with
      hfailed | ⟨hpresent, hremoved⟩ | ⟨habsent, hmissing⟩
    · rw [hfailed]
      exact ⟨hlater, safe_false⟩
    · rw [hremoved]
      obtain ⟨hfile, hafter, hgoodAfter⟩ :=
        hremove file files later hlater hlaterOff hpresent hwithinLater hgoodLater
      exact ⟨hafter, ih hafter (off_remove hlater hlaterOff removal hfile)
        (within_remove hwithinLater) hgoodAfter⟩
    · rw [hmissing]
      exact ⟨hlater, ih hlater hlaterOff (within_tail hwithinLater habsent)
        (htail _ _ _ hgoodLater)⟩

structure Listed (logs : List (LogFile Stamp)) (world : LogWorld Stamp) : Prop where
  mem : ∀ file, file ∈ logs ↔ file ∈ world.files ∧ file ≠ .current
  nodup : logs.Nodup

theorem listed_glob (world : LogWorld Stamp) (outcome : LogOutcome Stamp) :
    Listed (logHandle .glob outcome world).1 world := by
  constructor
  · intro file
    simp only [logHandle, mem_insertionSort, mem_filter, decide_eq_true_eq]
    rw [AList.mem_keys]
  · have hfiltered := world.files.keys_nodup.filter fun file => decide (file ≠ .current)
    exact (perm_insertionSort (· ≤ ·) _).nodup_iff.2 hfiltered

theorem safe_listing {program : LogProg Stamp Bool} (hkept : LogKept world)
    (harchives : ArchiveOnly property) (hsafe : LogSafe (Ending property) program world) :
    LogSafe (fun result later => ∀ listed, result = some listed →
        listed = logs ∧ later.Off ∧ property later)
      (program >>= fun succeeds => if succeeds then pure (some logs) else pure none) world := by
  refine Prog.Safe.bind hkept hsafe fun succeeds later hlater hending => ?_
  cases succeeds with
  | false =>
    intro last _ _ listed hlisted
    cases hlisted
  | true =>
    intro last hothers _ listed hlisted
    obtain ⟨hoff, hproperty⟩ := hending rfl
    have hlast := ((stable_off later).others stable_kept hothers hlater ⟨hoff, fun _ _ => rfl⟩).2
    exact ⟨(Option.some.inj hlisted).symm, hlast.1, harchives later last hlast.2 hproperty⟩

theorem debris_remove (hkept : LogKept world) (hoff : world.Off)
    (hgood : Debris (file :: files) world) :
    file ≠ .current ∧ LogKept (world.remove .unused file) ∧
      Debris files (world.remove .unused file) := by
  have hrest : (∀ stamp, file ≠ .compressed stamp) → Debris files (world.remove .unused file) := by
    intro hfile other hother
    refine (hgood other (mem_cons_of_mem _ hother)).imp_right ?_
    rintro ⟨stamp, rfl, harchive⟩
    refine ⟨stamp, rfl, ?_⟩
    rwa [← AList.lookup_isSome, lookup_remove, if_neg (hfile stamp).symm, AList.lookup_isSome]
  rcases hgood file mem_cons_self with ⟨stamp, rfl⟩ | ⟨stamp, rfl, harchive⟩
  · exact ⟨by simp, hkept.remove_temporary hoff (by simp) stamp, hrest (by simp)⟩
  · exact ⟨by simp, hkept.remove_superseded hoff (by simp) harchive, hrest (by simp)⟩

theorem cleanupUnusedLogs_safe (hkept : LogKept world) (hoff : world.Off)
    (hlisted : Listed logs world) :
    LogSafe (fun result later => ∀ inuse, result = some inuse →
        inuse = (filterUnusedLogs logs).1 ∧ later.Off ∧ Within (filterUnusedLogs logs).1 later)
      (cleanupUnusedLogs logs) world := by
  have hdebris : Debris (filterUnusedLogs logs).2 world := by
    intro file hfile
    simp only [filterUnusedLogs, mem_filter, Bool.not_eq_true', hlisted.mem] at hfile
    obtain ⟨⟨hpresent, hcurrent⟩, hunused⟩ := hfile
    cases file with
    | current => exact absurd rfl hcurrent
    | temporary stamp => exact .inl ⟨stamp, rfl⟩
    | compressed stamp => simp [isInUse] at hunused
    | rotated stamp =>
      refine .inr ⟨stamp, rfl, ?_⟩
      simp only [isInUse, Bool.not_eq_false', contains_iff_mem, hlisted.mem] at hunused
      exact hunused.1
  have hwithin : Within ((filterUnusedLogs logs).2 ++ (filterUnusedLogs logs).1) world := by
    intro file hfile harchived
    have hlog : file ∈ logs := (hlisted.mem file).2 ⟨hfile, ne_current harchived⟩
    simp only [filterUnusedLogs, mem_append, mem_filter, hlog, true_and]
    cases isInUse file logs <;> simp
  refine safe_listing hkept (archiveOnly_within _) ?_
  refine removeLogs_safe Debris archiveOnly_debris ?_ ?_ hkept hoff hwithin hdebris
  · exact fun file files later hgood other hother => hgood other (mem_cons_of_mem _ hother)
  · exact fun file files later hlater hlaterOff _ _ hgood =>
      debris_remove hlater hlaterOff hgood

structure InUse (logs : List (LogFile Stamp)) : Prop where
  archived : ∀ file ∈ logs, file.archived.isSome
  single : ∀ stamp, .rotated stamp ∈ logs → .compressed stamp ∉ logs
  nodup : logs.Nodup

theorem inUse_filterUnusedLogs (hlisted : Listed logs world) : InUse (filterUnusedLogs logs).1 := by
  constructor
  · intro file hfile
    simp only [filterUnusedLogs, mem_filter, hlisted.mem] at hfile
    cases file with
    | current => exact absurd rfl hfile.1.2
    | temporary stamp => simp [isInUse] at hfile
    | rotated stamp | compressed stamp => rfl
  · intro stamp hrotated hcompressed
    simp only [filterUnusedLogs, mem_filter, isInUse] at hrotated hcompressed
    simp [hcompressed.1] at hrotated
  · exact hlisted.nodup.filter _

structure ExcessFirst (kept files : List (LogFile Stamp)) : Prop where
  sorted : (files ++ kept).Pairwise (· ≤ ·)
  inUse : InUse (files ++ kept)

theorem excess_remove (hkept : LogKept world) (hoff : world.Off) (hpresent : file ∈ world.files)
    (hwithin : Within (file :: (files ++ kept)) world) (hfirst : ExcessFirst kept (file :: files)) :
    file ≠ .current ∧ LogKept (world.remove .excess file) := by
  have harchived := hfirst.inUse.archived file mem_cons_self
  obtain ⟨stamp, hstamp⟩ := Option.isSome_iff_exists.1 harchived
  have hsingle : world.Single := by
    intro other hrotated hcompressed
    exact hfirst.inUse.single other (hwithin _ hrotated rfl) (hwithin _ hcompressed rfl)
  refine ⟨ne_current harchived, hkept.evict hoff hsingle hpresent hstamp ?_⟩
  intro other hother late hlate
  rcases mem_cons.1 (hwithin other hother (by simp [hlate])) with rfl | hmem
  · exact (Option.some.inj (hstamp.symm.trans hlate)).le
  · exact LogFile.stamp_le ((pairwise_cons.1 hfirst.sorted).1 other hmem) hstamp hlate

theorem ExcessFirst.tail (hfirst : ExcessFirst kept (file :: files)) : ExcessFirst kept files where
  sorted := (pairwise_cons.1 hfirst.sorted).2
  inUse := by
    refine ⟨fun other hother => ?_, fun stamp hrotated hcompressed => ?_, ?_⟩
    · exact hfirst.inUse.archived other (mem_cons_of_mem _ hother)
    · exact hfirst.inUse.single stamp (mem_cons_of_mem _ hrotated) (mem_cons_of_mem _ hcompressed)
    · exact (nodup_cons.1 hfirst.inUse.nodup).2

theorem excessFirst_excessLogs (policy : LogRotatePolicy) (hinUse : InUse logs) :
    ExcessFirst (excessLogs policy logs).2 (excessLogs policy logs).1 := by
  have hsplit : (excessLogs policy logs).1 ++ (excessLogs policy logs).2 =
      logs.insertionSort (· ≤ ·) := by
    rw [excessLogs, splitAt_eq, take_append_drop]
  have hmem : ∀ file, file ∈ logs.insertionSort (· ≤ ·) ↔ file ∈ logs :=
    fun file => mem_insertionSort (· ≤ ·)
  constructor
  · rw [hsplit]
    exact pairwise_insertionSort (· ≤ ·) logs
  · rw [hsplit]
    refine ⟨fun file hfile => hinUse.archived file ((hmem file).1 hfile), ?_, ?_⟩
    · intro stamp hrotated hcompressed
      exact hinUse.single stamp ((hmem _).1 hrotated) ((hmem _).1 hcompressed)
    · exact (perm_insertionSort (· ≤ ·) logs).nodup_iff.2 hinUse.nodup

theorem removeExcessLogs_safe (policy : LogRotatePolicy) (hkept : LogKept world) (hoff : world.Off)
    (hinUse : InUse logs) (hwithin : Within logs world) :
    LogSafe (fun result later => ∀ kept, result = some kept →
        kept = (excessLogs policy logs).2 ∧ later.Off ∧ Within (excessLogs policy logs).2 later)
      (removeExcessLogs policy logs) world := by
  have hfirst := excessFirst_excessLogs policy hinUse
  have hall : Within ((excessLogs policy logs).1 ++ (excessLogs policy logs).2) world := by
    intro file hfile harchived
    rw [excessLogs, splitAt_eq, take_append_drop, mem_insertionSort]
    exact hwithin file hfile harchived
  refine safe_listing hkept (archiveOnly_within _) ?_
  refine removeLogs_safe (fun files _ => ExcessFirst (excessLogs policy logs).2 files)
    (fun _ _ _ _ hgood => hgood) (fun _ _ _ hgood => hgood.tail) ?_ hkept hoff hall hfirst
  intro file files later hlater hlaterOff hpresent hwithinLater hgood
  obtain ⟨hfile, hafter⟩ := excess_remove hlater hlaterOff hpresent hwithinLater hgood
  exact ⟨hfile, hafter, hgood.tail⟩

/-! ## Files that are compressed -/

def Waiting (logs : List (LogFile Stamp)) (world : LogWorld Stamp) : Prop :=
  ∀ stamp, .rotated stamp ∈ logs → .compressed stamp ∉ world.files

def Copied (stamp : Stamp) (world : LogWorld Stamp) : Prop :=
  world.content (.temporary stamp) = world.content (.rotated stamp)

theorem archiveOnly_waiting (logs : List (LogFile Stamp)) : ArchiveOnly (Waiting logs) :=
  fun _ _ hsame hwaiting stamp hstamp =>
    (mem_congr (hsame _ (by simp))).not.2 (hwaiting stamp hstamp)

theorem archiveOnly_copied (stamp : Stamp) : ArchiveOnly (Copied stamp) := by
  intro before after hsame hcopied
  rw [Copied, content_congr (hsame _ (by simp)), content_congr (hsame _ (by simp))]
  exact hcopied

theorem waiting_of_lookup {before after : LogWorld Stamp} (hwaiting : Waiting logs before)
    (hsame : ∀ stamp, .rotated stamp ∈ logs →
      after.files.lookup (.compressed stamp) = before.files.lookup (.compressed stamp)) :
    Waiting logs after :=
  fun stamp hstamp => (mem_congr (hsame stamp hstamp)).not.2 (hwaiting stamp hstamp)

def Archived (logs : List (LogFile Stamp)) (succeeds : Bool) (world : LogWorld Stamp) : Prop :=
  world.Off ∧ (succeeds = true → Waiting logs world)

theorem safe_archived {succeeds : Bool} (hkept : LogKept world) (hoff : world.Off)
    (hwaiting : succeeds = true → Waiting logs world) :
    LogSafe (Archived logs) (.done succeeds) world := by
  intro later hothers _
  have hlater := ((stable_off world).others stable_kept hothers hkept ⟨hoff, fun _ _ => rfl⟩).2
  exact ⟨hlater.1, fun hsucceeds =>
    archiveOnly_waiting logs world later hlater.2 (hwaiting hsucceeds)⟩

theorem safe_unarchived (hkept : LogKept world) (hoff : world.Off) :
    LogSafe (Archived logs) (.done false) world :=
  safe_archived hkept hoff fun hfalse => by cases hfalse

theorem safe_check {post : Bool → LogWorld Stamp → Prop}
    {next : LogAnswer request → LogProg Stamp Bool} (harchives : ArchiveOnly property)
    (hkept : LogKept world) (hoff : world.Off) (hproperty : property world)
    (hsame : ∀ outcome later, (logHandle request outcome later).2 = later)
    (hnext : ∀ later answer, LogKept later → later.Off → property later →
      LogSafe post (next answer) later) : LogSafe post (.call request next) world := by
  refine quiet_call hkept hoff fun later hlater hlaterOff hquiet outcome _ => ?_
  rw [hsame]
  exact ⟨hlater, hnext later _ hlater hlaterOff (harchives _ _ hquiet hproperty)⟩

theorem removeSuperseded_safe (hkept : LogKept world) (hoff : world.Off)
    (hwaiting : Waiting logs world) (harchive : .compressed stamp ∈ world.files) :
    LogSafe (Archived logs) (remove .superseded (.rotated stamp) >>= fun answer =>
      match answer with
      | .removed => pure true
      | _ => pure false) world := by
  simp only [remove, Prog.ask_bind]
  refine quiet_call hkept hoff fun later hlater hlaterOff hsame outcome _ => ?_
  have hwaitingLater := archiveOnly_waiting logs _ _ hsame hwaiting
  rcases handle_remove later .superseded (.rotated stamp) outcome with
    hfailed | ⟨-, hremoved⟩ | ⟨-, hmissing⟩
  · rw [hfailed]
    exact ⟨hlater, safe_unarchived hlater hlaterOff⟩
  · rw [hremoved]
    have harchiveLater := (mem_congr (hsame _ (by simp))).2 harchive
    have hafter : LogKept (later.remove .superseded (.rotated stamp)) :=
      hlater.remove_superseded hlaterOff (by simp) harchiveLater
    refine ⟨hafter, safe_archived hafter (off_remove hlater hlaterOff _ (by simp)) fun _ => ?_⟩
    exact waiting_of_lookup hwaitingLater fun other _ => by simp [lookup_remove]
  · rw [hmissing]
    exact ⟨hlater, safe_unarchived hlater hlaterOff⟩

structure Ready (stamp : Stamp) (logs : List (LogFile Stamp)) (world : LogWorld Stamp) : Prop where
  copied : Copied stamp world
  waiting : Waiting (.rotated stamp :: logs) world

theorem archiveOnly_ready (stamp : Stamp) (logs : List (LogFile Stamp)) :
    ArchiveOnly (Ready stamp logs) :=
  fun before after hsame hready =>
    ⟨archiveOnly_copied stamp before after hsame hready.copied,
      archiveOnly_waiting _ before after hsame hready.waiting⟩

section

variable (hkept : LogKept world) (hoff : world.Off)

include hkept hoff

theorem renameArchive_safe (hready : Ready stamp logs world) (hnew : .rotated stamp ∉ logs) :
    LogSafe (Archived logs) (.call (.rename (.temporary stamp) (.compressed stamp)) fun renamed =>
      if renamed = true then
        remove .superseded (.rotated stamp) >>= fun answer =>
          match answer with
          | .removed => pure true
          | _ => pure false
      else pure false) world := by
  refine quiet_call hkept hoff fun later hlater hlaterOff hsame outcome _ => ?_
  have hreadyLater := archiveOnly_ready stamp logs _ _ hsame hready
  rcases handle_rename later (.temporary stamp) (.compressed stamp) outcome with
    hfailed | ⟨-, -, hrenamed⟩
  · rw [hfailed]
    exact ⟨hlater, safe_unarchived hlater hlaterOff⟩
  rw [hrenamed]
  have hafter := hlater.rename_archive hlaterOff
    (hreadyLater.waiting stamp mem_cons_self) hreadyLater.copied
  have hafterOff : (later.rename (.temporary stamp) (.compressed stamp)).Off := by
    intro other
    rw [writer_rename hlater hlaterOff (by simp) (by simp)]
    exact hlaterOff other
  refine ⟨hafter, removeSuperseded_safe hafter hafterOff ?_ ?_⟩
  · intro other hother
    have hne : other ≠ stamp := by
      rintro rfl
      exact hnew hother
    have habsent := hreadyLater.waiting other (mem_cons_of_mem _ hother)
    rw [← AList.lookup_isSome, lookup_rename, if_neg (by simpa using hne), if_neg (by simp),
      AList.lookup_isSome]
    exact habsent
  · rw [← AList.lookup_isSome, lookup_rename, if_pos rfl]
    rfl

theorem archiveLog_safe (hwaiting : Waiting (.rotated stamp :: logs) world)
    (hnew : .rotated stamp ∉ logs) : LogSafe (Archived logs) (archiveLog stamp) world := by
  simp only [archiveLog, Prog.ask_bind]
  refine quiet_call hkept hoff fun copied hcopied hcopiedOff hsame outcome _ => ?_
  have hwaitingCopied := archiveOnly_waiting _ _ _ hsame hwaiting
  rcases handle_copy copied (.rotated stamp) (.temporary stamp) outcome with ⟨bytes, hshort⟩ | hfull
  · rw [hshort]
    have hput := hcopied.put_temporary hcopiedOff stamp bytes
    exact ⟨hput, safe_unarchived hput hcopiedOff⟩
  rw [hfull]
  have hput := hcopied.put_temporary hcopiedOff stamp (copied.content (.rotated stamp))
  refine ⟨hput, ?_⟩
  have hready : Ready stamp logs (copied.put (.temporary stamp)
      (copied.content (.rotated stamp))) := by
    constructor
    · simp [Copied, LogWorld.content, lookup_put]
    · exact waiting_of_lookup hwaitingCopied fun other _ => by simp [lookup_put]
  -- the trailer and the file are closed before the archive is renamed
  refine safe_check (archiveOnly_ready stamp logs) hput hcopiedOff hready (fun _ _ => rfl) ?_
  intro trailer closed htrailer htrailerOff hready
  cases closed with
  | false => exact safe_unarchived htrailer htrailerOff
  | true =>
    refine safe_check (archiveOnly_ready stamp logs) htrailer htrailerOff hready
      (fun _ _ => rfl) ?_
    intro file closed hfile hfileOff hready
    cases closed with
    | false => exact safe_unarchived hfile hfileOff
    | true => exact renameArchive_safe hfile hfileOff hready hnew

theorem dropTemporary_safe {succeeds : Bool} (hwaiting : succeeds = true → Waiting logs world) :
    LogSafe (Archived logs)
      (remove .temporary (.temporary stamp) >>= fun _ => pure succeeds) world := by
  simp only [remove, Prog.ask_bind]
  refine quiet_call hkept hoff fun later hlater hlaterOff hsame outcome _ => ?_
  have hwaitingLater := fun hsucceeds =>
    archiveOnly_waiting logs _ _ hsame (hwaiting hsucceeds)
  rcases handle_remove later .temporary (.temporary stamp) outcome with
    hfailed | ⟨-, hremoved⟩ | ⟨-, hmissing⟩
  · rw [hfailed]
    exact ⟨hlater, safe_archived hlater hlaterOff hwaitingLater⟩
  · rw [hremoved]
    have hafter : LogKept (later.remove .temporary (.temporary stamp)) :=
      hlater.remove_temporary hlaterOff (by simp) stamp
    refine ⟨hafter, safe_archived hafter (off_remove hlater hlaterOff _ (by simp)) ?_⟩
    intro hsucceeds
    exact waiting_of_lookup (hwaitingLater hsucceeds) fun other _ => by simp [lookup_remove]
  · rw [hmissing]
    exact ⟨hlater, safe_archived hlater hlaterOff hwaitingLater⟩

theorem compressLog_safe (hwaiting : Waiting (.rotated stamp :: logs) world)
    (hnew : .rotated stamp ∉ logs) : LogSafe (Archived logs) (compressLog stamp) world := by
  simp only [compressLog, stat, Prog.ask_bind]
  refine quiet_call hkept hoff fun later hlater hlaterOff hsame outcome _ => ?_
  have hwaitingLater := archiveOnly_waiting _ _ _ hsame hwaiting
  rcases handle_stat later (.rotated stamp) outcome with hfailed | ⟨-, hfound⟩ | hmissing
  · rw [hfailed]
    exact ⟨hlater, safe_unarchived hlater hlaterOff⟩
  · rw [hfound]
    refine ⟨hlater, ?_⟩
    refine safe_check (archiveOnly_waiting (.rotated stamp :: logs)) hlater hlaterOff hwaitingLater
      (fun _ _ => rfl) ?_
    intro opened answer hopened hopenedOff hwaitingOpened
    cases answer with
    | false => exact safe_unarchived hopened hopenedOff
    | true =>
      refine quiet_call hopened hopenedOff fun created hcreated hcreatedOff hsame outcome _ => ?_
      have hwaitingCreated := archiveOnly_waiting _ _ _ hsame hwaitingOpened
      rcases handle_create created (.temporary stamp) outcome with hfailed | hput
      · rw [hfailed]
        exact ⟨hcreated, safe_unarchived hcreated hcreatedOff⟩
      · rw [hput]
        have hempty := hcreated.put_temporary hcreatedOff stamp []
        refine ⟨hempty, Prog.Safe.bind hempty (archiveLog_safe hempty hcreatedOff ?_ hnew) ?_⟩
        · exact waiting_of_lookup hwaitingCreated fun other _ => by simp [lookup_put]
        · exact fun succeeds last hlast harchived =>
            dropTemporary_safe hlast harchived.1 harchived.2
  · rw [hmissing]
    exact ⟨hlater, safe_unarchived hlater hlaterOff⟩

theorem compressLogs_safe (hwaiting : Waiting logs world) (hnodup : logs.Nodup) :
    LogSafe (fun succeeds later => succeeds = true → later.Off) (compressLogs logs) world := by
  induction logs generalizing world with
  | nil =>
    exact (safe_true (fun _ _ _ _ => trivial) hkept hoff trivial).mono
      fun succeeds later _ hending hsucceeds => (hending hsucceeds).1
  | cons file logs ih =>
    obtain ⟨hnew, hdistinct⟩ := nodup_cons.1 hnodup
    have hrest : Waiting logs world :=
      fun stamp hstamp => hwaiting stamp (mem_cons_of_mem _ hstamp)
    cases file with
    | current | compressed stamp | temporary stamp => exact ih hkept hoff hrest hdistinct
    | rotated stamp =>
      refine Prog.Safe.bind hkept (compressLog_safe hkept hoff hwaiting hnew) ?_
      intro succeeds later hlater harchived
      cases succeeds with
      | true => exact ih hlater harchived.1 (harchived.2 rfl) hdistinct
      | false =>
        intro last _ _ hfalse
        cases hfalse

end

theorem safe_any {result : Result} : LogSafe (fun _ _ => True) (.done result) world :=
  fun _ _ _ => trivial

theorem renameBack_safe (hkept : LogKept world) (hcompressed : .compressed stamp ∉ world.files)
    (hlast : world.Last stamp) :
    LogSafe (fun _ _ => True)
      (.call (.rename (.rotated stamp) .current) fun _ => .done false) world := by
  refine names_call hkept fun later hlater hnames outcome hmeets => ?_
  rcases handle_rename later (.rotated stamp) .current outcome with
    hfailed | ⟨hfails, hpresent, hrenamed⟩
  · rw [hfailed]
    exact ⟨hlater, safe_any⟩
  · rw [hrenamed]
    refine ⟨?_, safe_any⟩
    obtain ⟨hempty, hwriter⟩ := hmeets hfails
    refine hlater.restore hpresent ((hnames _ (by simp)).not.2 hcompressed) ?_ hempty hwriter
    intro file hfile other hother
    exact hlast file ((hnames file (ne_current (by simp [hother]))).1 hfile) other hother

theorem renameLatest_safe (hkept : LogKept world) (hoff : world.Off)
    (hstamps : ∀ file ∈ world.files, ∀ other, file.archived = some other → other < stamp) :
    LogSafe (fun _ _ => True)
      (.call (.rename .current (.rotated stamp)) fun renamed =>
        if renamed = true then
          .call .reopenContainerLog fun opened =>
            if opened = true then pure true
            else .call (.rename (.rotated stamp) .current) fun _ => .done false
        else pure false) world := by
  refine quiet_call hkept hoff fun later hlater hlaterOff hsame outcome _ => ?_
  have hlaterStamps : ∀ file ∈ later.files, ∀ other, file.archived = some other →
      other < stamp := by
    intro file hfile other hother
    exact hstamps file
      ((mem_congr (hsame file (ne_current (by simp [hother])))).1 hfile) other hother
  rcases handle_rename later .current (.rotated stamp) outcome with hfailed | ⟨-, -, hrenamed⟩
  · rw [hfailed]
    exact ⟨hlater, safe_any⟩
  rw [hrenamed]
  have hrotated := hlater.rotate hlaterOff hlaterStamps
  refine ⟨hrotated, ?_⟩
  refine names_call hrotated fun asked hasked hnames reopening _ => ?_
  obtain ⟨hreopened, harchives⟩ := handle_reopen hasked reopening
  refine ⟨hreopened, ?_⟩
  have hafter : SameNames (later.rename .current (.rotated stamp))
      (logHandle .reopenContainerLog reopening asked).2 :=
    fun file hfile => (mem_congr (harchives file hfile)).trans (hnames file hfile)
  have hback : LogSafe (fun _ _ => True)
      (.call (.rename (.rotated stamp) .current) fun _ => .done false)
      (logHandle .reopenContainerLog reopening asked).2 := by
    refine renameBack_safe hreopened ?_ ?_
    · exact (hafter _ (by simp)).not.2 (compressed_notMem_rotate hlaterStamps)
    intro file hfile other hother
    have hbefore := (hafter file (ne_current (by simp [hother]))).1 hfile
    exact last_rotate hlaterStamps file hbefore other hother
  have hnext : ∀ opened : Bool, LogSafe (fun _ _ => True)
      (if opened = true then pure true
        else .call (.rename (.rotated stamp) .current) fun _ => .done false)
      (logHandle .reopenContainerLog reopening asked).2 := by
    intro opened
    cases opened with
    | true => exact safe_any
    | false => exact hback
  exact hnext _

theorem rotateLatestLog_safe (hkept : LogKept world) (hoff : world.Off) :
    LogSafe (fun _ _ => True) rotateLatestLog world := by
  simp only [rotateLatestLog, Prog.ask_bind]
  refine quiet_call hkept hoff fun clock hclock hclockOff _ outcome hmeets => ?_
  refine ⟨hclock, renameLatest_safe hclock hclockOff ?_⟩
  exact fun file hfile other hother => hmeets file (AList.mem_keys.1 hfile) other hother

theorem rotateLog_safe (policy : LogRotatePolicy) (hkept : LogKept world) (hoff : world.Off) :
    LogSafe (fun _ _ => True) (rotateLog policy) world := by
  simp only [rotateLog, Prog.ask_bind]
  refine quiet_call hkept hoff fun listed hlisted hlistedOff _ outcome _ => ?_
  have hglob := listed_glob listed outcome
  have hinUse := inUse_filterUnusedLogs hglob
  refine ⟨hlisted, Prog.Safe.bind hlisted (cleanupUnusedLogs_safe hlisted hlistedOff hglob) ?_⟩
  intro cleaned later hlater hinuse
  cases cleaned with
  | none => exact safe_any
  | some inuse =>
    obtain ⟨rfl, hlaterOff, hwithin⟩ := hinuse inuse rfl
    refine Prog.Safe.bind hlater (removeExcessLogs_safe policy hlater hlaterOff hinUse hwithin) ?_
    intro removed last hlast hremoved
    cases removed with
    | none => exact safe_any
    | some kept =>
      obtain ⟨rfl, hlastOff, hwithinKept⟩ := hremoved kept rfl
      have hfirst := excessFirst_excessLogs policy hinUse
      refine Prog.Safe.bind hlast (compressLogs_safe hlast hlastOff ?_ ?_) ?_
      · intro stamp hrotated hcompressed
        exact hfirst.inUse.single stamp (mem_append_right _ hrotated)
          (mem_append_right _ (hwithinKept _ hcompressed rfl))
      · exact (nodup_append.1 hfirst.inUse.nodup).2.1
      · intro succeeds final hfinal hcompressed
        cases succeeds with
        | true => exact rotateLatestLog_safe hfinal (hcompressed rfl)
        | false => exact safe_any

theorem LogKept.off_of_current (hkept : LogKept world) (hcurrent : .current ∈ world.files) :
    world.Off := by
  intro stamp hwriter
  have hplaced := hkept.placed
  simp only [LogWorld.WriterPlaced, hwriter] at hplaced
  exact hplaced.1 hcurrent

def Looked (size : Option ℕ) (world : LogWorld Stamp) : Prop := size.isSome → world.Off

theorem safe_unseen : LogSafe Looked (.done none) world := by
  intro later _ _ hsome
  cases hsome

theorem safe_seen {size : ℕ} (hkept : LogKept world) (hcurrent : .current ∈ world.files) :
    LogSafe Looked (.done (some size)) world := by
  intro later hothers _ _
  exact ((stable_off world).others stable_kept hothers hkept
    ⟨hkept.off_of_current hcurrent, fun _ _ => rfl⟩).2.1

theorem statCurrent_safe (hkept : LogKept world) : LogSafe Looked statCurrent world := by
  simp only [statCurrent, stat, Prog.ask_bind]
  refine names_call hkept fun later hlater _ outcome _ => ?_
  rcases handle_stat later .current outcome with hfailed | ⟨hcurrent, hfound⟩ | hmissing
  · rw [hfailed]
    exact ⟨hlater, safe_unseen⟩
  · rw [hfound]
    exact ⟨hlater, safe_seen hlater hcurrent⟩
  rw [hmissing]
  refine ⟨hlater, names_call hlater fun asked hasked _ reopening _ => ?_⟩
  have hreopened := (handle_reopen hasked reopening).1
  refine ⟨hreopened, ?_⟩
  split_ifs
  · refine names_call hreopened fun again hagain _ second _ => ?_
    rcases handle_stat again .current second with hfailed | ⟨hcurrent, hfound⟩ | hmissing
    · rw [hfailed]
      exact ⟨hagain, safe_unseen⟩
    · rw [hfound]
      exact ⟨hagain, safe_seen hagain hcurrent⟩
    · rw [hmissing]
      exact ⟨hagain, safe_unseen⟩
  · exact safe_unseen

theorem processContainer_safe (policy : LogRotatePolicy) (hkept : LogKept world) :
    LogSafe (fun _ _ => True) (processContainer policy) world := by
  refine Prog.Safe.bind hkept (statCurrent_safe hkept) fun size later hlater hlooked => ?_
  cases size with
  | none => exact safe_any
  | some size =>
    simp only
    split_ifs
    · exact safe_any
    · exact rotateLog_safe policy hlater (hlooked rfl)

end Programs

section Node

variable {Stamp : Type} [LinearOrder Stamp]

/-- The condition on what happens next: that of the call, if one is answered. -/
def NodeMeets (node : LogNode Stamp) : LogNodeEvent Stamp → Prop
  | .answer outcome =>
    match node.manager with
    | .done _ => True
    | .call request _ => RotationMeets node.world request outcome
  | _ => True

structure NodeKept (node : LogNode Stamp) : Prop where
  kept : LogKept node.world
  safe : LogSafe (fun _ _ => True) node.manager node.world

theorem logNodeNext_kept (policy : LogRotatePolicy) {node : LogNode Stamp}
    {event : LogNodeEvent Stamp} (hnode : NodeKept node) (hmeets : NodeMeets node event) :
    NodeKept (logNodeNext policy node event) := by
  cases event with
  | tick =>
    rw [logNodeNext]
    split_ifs
    · exact ⟨hnode.kept, processContainer_safe policy hnode.kept⟩
    · exact hnode
  | crash => exact ⟨hnode.kept, safe_any⟩
  | writer change =>
    refine ⟨hnode.kept.change change, hnode.safe.later ?_⟩
    exact Relation.ReflTransGen.single ⟨change, trivial, rfl⟩
  | answer outcome =>
    obtain ⟨manager, world⟩ := node
    cases manager with
    | done result => exact hnode
    | call request next =>
      obtain ⟨hkept, hsafe⟩ :=
        hnode.safe world Relation.ReflTransGen.refl hnode.kept outcome hmeets
      exact ⟨hkept, hsafe⟩

theorem freshLogNode_kept : NodeKept (freshLogNode Stamp) := by
  have hholds : ∀ place, (freshLogNode Stamp).world.holds place = [] := by
    intro place
    cases place <;> simp [freshLogNode, LogWorld.holds, LogWorld.live, LogWorld.content]
  have hlive : ∀ stamp, (freshLogNode Stamp).world.live stamp = [] :=
    fun stamp => hholds (.rotated stamp)
  refine ⟨⟨⟨fun byte hbyte => absurd hbyte (Nat.not_lt_zero byte), fun place byte hbyte => ?_⟩,
    fun early late _ byte hbyte => ?_, fun stamp byte hbyte => ?_, trivial⟩, safe_any⟩
  · rw [hholds] at hbyte
    cases hbyte
  · rw [hlive] at hbyte
    cases hbyte
  · rw [hlive] at hbyte
    cases hbyte

/-- At every moment every byte is in the current file, in exactly one rotated file, or was
removed by the limit with the oldest, as long as each rotation reads a time later than every
stamp and no rotated file is renamed back over a current file made anew. -/
theorem rotation_loses_only_oldest (policy : LogRotatePolicy) (events : List (LogNodeEvent Stamp))
    (hmeets : EachStep NodeMeets (logNodeNext policy) (freshLogNode Stamp) events) :
    Always (fun node => node.world.Lossless) (logNodeNext policy) (freshLogNode Stamp) events := by
  have hstep : ∀ (node : LogNode Stamp) event, NodeKept node → NodeMeets node event →
      NodeKept (logNodeNext policy node event) :=
    fun node event hnode hevent => logNodeNext_kept policy hnode hevent
  have hkept := always_of_eachStep hstep freshLogNode_kept hmeets
  exact hkept.mono fun node hnode => hnode.kept.lossless

theorem not_lossless {world : LogWorld Stamp} {byte : ℕ} (hwritten : byte < world.written)
    (hfiles : ∀ file ∈ world.files.keys, byte ∉ world.content file)
    (hevicted : byte ∉ world.evicted) : ¬ world.Lossless := by
  intro hlossless
  have hgone : ∀ file, byte ∉ world.content file := by
    intro file hbyte
    by_cases hpresent : file ∈ world.files
    · exact hfiles file (AList.mem_keys.1 hpresent) hbyte
    · rw [content_of_notMem hpresent] at hbyte
      cases hbyte
  obtain ⟨place, hplace, -⟩ := hlossless byte hwritten
  cases place with
  | current => exact hgone _ hplace
  | evicted => exact hevicted hplace
  | rotated stamp =>
    simp only [LogWorld.holds, LogWorld.live] at hplace
    split_ifs at hplace
    · exact hgone _ hplace
    · exact hgone _ hplace

end Node

/-! ## Rotations in one second -/

instance (world : LogWorld ℕ) (request : LogRequest ℕ) (outcome : LogOutcome ℕ) :
    Decidable (RotationMeets world request outcome) := by
  unfold RotationMeets
  split <;> infer_instance

instance (node : LogNode ℕ) (event : LogNodeEvent ℕ) : Decidable (NodeMeets node event) := by
  unfold NodeMeets
  split
  · split <;> infer_instance
  · infer_instance

/-- A byte is written and the log rotated with so many calls, the clock at `stamp`. -/
def rotation (calls stamp : ℕ) : List (LogNodeEvent ℕ) :=
  [.writer .write, .tick] ++ List.replicate calls (.answer ⟨false, 0, stamp, .kept⟩)

/-- Three rotations at different times, the second one cut off before the plain file of the
archive is removed. -/
def rotatedInTurn : List (LogNodeEvent ℕ) :=
  .writer .opens :: rotation 5 1 ++ rotation 9 2 ++ .crash :: rotation 9 3 ++ rotation 20 4

def rotatedAtOnce : List (LogNodeEvent ℕ) :=
  .writer .opens :: rotation 5 1 ++ rotation 20 1 ++ rotation 6 2

def reopenedAnyway : List (LogNodeEvent ℕ) :=
  .writer .opens :: rotation 4 1 ++ [.answer ⟨true, 0, 1, .reopened⟩, .writer .write,
    .answer ⟨false, 0, 1, .kept⟩]

theorem rotated_in_turn_lossless :
    Always (fun node => node.world.Lossless) (logNodeNext ⟨1, 3⟩) (freshLogNode ℕ) rotatedInTurn :=
  rotation_loses_only_oldest ⟨1, 3⟩ rotatedInTurn (by decide +kernel)

/-- The second byte of each run is in no file, and no limit has removed anything. -/
theorem newer_bytes_lost :
    ¬ (rotatedAtOnce.foldl (logNodeNext ⟨1, 5⟩) (freshLogNode ℕ)).world.Lossless ∧
      ¬ (reopenedAnyway.foldl (logNodeNext ⟨1, 5⟩) (freshLogNode ℕ)).world.Lossless := by
  constructor
  · exact not_lossless (by decide +kernel : 1 < _) (by decide +kernel) (by decide +kernel)
  · exact not_lossless (by decide +kernel : 1 < _) (by decide +kernel) (by decide +kernel)

end K3sm.Podlogs
