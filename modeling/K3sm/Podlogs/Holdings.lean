import K3sm.Core.Ledger
import K3sm.Podlogs.Rotation

/-!
# Where the bytes of a log are

Every byte written is in the current file, in a rotated file, or was removed with the oldest
rotated file by the limit.  This is kept by each call of the manager on a condition of its own,
and by everything the writer does.
-/

namespace K3sm.Podlogs

open K3sm.Core

section Files

variable {Stamp : Type} [LinearOrder Stamp] {world : LogWorld Stamp}

theorem LogFile.stamp_le {left right : LogFile Stamp} {early late : Stamp} (hle : left ≤ right)
    (hearly : left.archived = some early) (hlate : right.archived = some late) : early ≤ late := by
  have hkey : left.key ≤ right.key := hle
  have hleft : (ofLex left.key).1 = early := by
    cases left <;> simp_all [LogFile.archived, LogFile.key]
  have hright : (ofLex right.key).1 = late := by
    cases right <;> simp_all [LogFile.archived, LogFile.key]
  rw [Prod.Lex.le_iff, hleft, hright] at hkey
  rcases hkey with hless | ⟨hsame, -⟩
  · exact (WithBot.coe_lt_coe.1 hless).le
  · exact (WithBot.coe_inj.1 hsame).le

theorem content_of_notMem {file : LogFile Stamp} (habsent : file ∉ world.files) :
    world.content file = [] := by
  rw [LogWorld.content, AList.lookup_eq_none.2 habsent]
  rfl

theorem content_congr {before after : LogWorld Stamp} {file : LogFile Stamp}
    (hsame : after.files.lookup file = before.files.lookup file) :
    after.content file = before.content file := by
  rw [LogWorld.content, LogWorld.content, hsame]

theorem mem_congr {before after : LogWorld Stamp} {file : LogFile Stamp}
    (hsame : after.files.lookup file = before.files.lookup file) :
    file ∈ after.files ↔ file ∈ before.files := by
  rw [← AList.lookup_isSome, ← AList.lookup_isSome, hsame]

theorem lookup_put (file other : LogFile Stamp) (bytes : List ℕ) :
    (world.put file bytes).files.lookup other =
      if other = file then some bytes else world.files.lookup other := by
  rw [LogWorld.put]
  split_ifs with hsame
  · rw [hsame, AList.lookup_insert]
  · rw [AList.lookup_insert_ne hsame]

theorem lookup_remove (removal : Removal) (file other : LogFile Stamp) :
    (world.remove removal file).files.lookup other =
      if other = file then none else world.files.lookup other := by
  have hfiles : (world.remove removal file).files = world.files.erase file := rfl
  rw [hfiles]
  split_ifs with hsame
  · rw [hsame, AList.lookup_erase]
  · rw [AList.lookup_erase_ne hsame]

theorem lookup_rename {source target : LogFile Stamp} (other : LogFile Stamp) :
    (world.rename source target).files.lookup other =
      if other = target then some (world.content source)
      else if other = source then none else world.files.lookup other := by
  have hfiles : (world.rename source target).files =
      (world.files.erase source).insert target (world.content source) := rfl
  rw [hfiles]
  split_ifs with htarget hsource
  · rw [htarget, AList.lookup_insert]
  · rw [hsource, AList.lookup_insert_ne (hsource ▸ htarget), AList.lookup_erase]
  · rw [AList.lookup_insert_ne htarget, AList.lookup_erase_ne hsource]

theorem lookup_reopened (other : LogFile Stamp) :
    world.reopened.files.lookup other =
      if other = .current ∧ .current ∉ world.files then some [] else world.files.lookup other := by
  rw [LogWorld.reopened]
  by_cases hpresent : .current ∈ world.files
  · simp [hpresent]
  by_cases hcurrent : other = .current
  · subst hcurrent
    simp [hpresent]
  · simp [hpresent, hcurrent, AList.lookup_insert_ne]

end Files

inductive LogPlace (Stamp : Type)
  | current
  | rotated (stamp : Stamp)
  | evicted

section Holdings

variable {Stamp : Type} [LinearOrder Stamp] {world : LogWorld Stamp}

/-- The bytes of the rotated file with the stamp: those of the archive once it is there. -/
def LogWorld.live (world : LogWorld Stamp) (stamp : Stamp) : List ℕ :=
  if .compressed stamp ∈ world.files then world.content (.compressed stamp)
  else world.content (.rotated stamp)

def LogWorld.holds (world : LogWorld Stamp) : LogPlace Stamp → List ℕ
  | .current => world.content .current
  | .rotated stamp => world.live stamp
  | .evicted => world.evicted

/-- Every byte written is in exactly one place. -/
def LogWorld.Lossless (world : LogWorld Stamp) : Prop :=
  ∀ byte < world.written, ∃! place, byte ∈ world.holds place

def LogWorld.Last (world : LogWorld Stamp) (stamp : Stamp) : Prop :=
  ∀ file ∈ world.files, ∀ other, file.archived = some other → other ≤ stamp

/-- The descriptor of the writer is on a file that is there: the current one, or the last
rotated one while there is no current file. -/
def LogWorld.WriterPlaced (world : LogWorld Stamp) : Prop :=
  match world.writer with
  | .closed => True
  | .on .current => .current ∈ world.files
  | .on (.rotated stamp) =>
    .current ∉ world.files ∧ .rotated stamp ∈ world.files ∧ .compressed stamp ∉ world.files ∧
      world.Last stamp
  | _ => False

/-- The invariant of a log under rotation: every byte is filed in order. -/
structure LogKept (world : LogWorld Stamp) : Prop where
  filed : Filed (fun place byte => byte ∈ world.holds place) (· < world.written)
  ordered : ∀ early late, early < late →
    ∀ byte ∈ world.live early, ∀ later ∈ world.live late, byte < later
  latest : ∀ stamp, ∀ byte ∈ world.live stamp, ∀ later ∈ world.content .current, byte < later
  placed : world.WriterPlaced

theorem LogKept.lossless (hkept : LogKept world) : world.Lossless := hkept.filed.unique

theorem LogKept.fresh (hkept : LogKept world) {stamp : Stamp} {byte : ℕ}
    (hbyte : byte ∈ world.live stamp) : byte < world.written :=
  hkept.filed.known (.rotated stamp) byte hbyte

theorem live_congr {before after : LogWorld Stamp} {stamp : Stamp}
    (hrotated : after.files.lookup (.rotated stamp) = before.files.lookup (.rotated stamp))
    (hcompressed : after.files.lookup (.compressed stamp) =
      before.files.lookup (.compressed stamp)) :
    after.live stamp = before.live stamp := by
  rw [LogWorld.live, LogWorld.live, content_congr hrotated, content_congr hcompressed]
  simp only [mem_congr hcompressed]

theorem LogKept.same {before after : LogWorld Stamp} (hkept : LogKept before)
    (hcurrent : after.content .current = before.content .current)
    (hlive : ∀ stamp, after.live stamp = before.live stamp)
    (hevicted : after.evicted = before.evicted) (hwritten : after.written = before.written)
    (hplaced : after.WriterPlaced) : LogKept after where
  filed := by
    rw [hwritten]
    refine hkept.filed.congr fun place byte => ?_
    cases place with
    | current => rw [LogWorld.holds, hcurrent]; rfl
    | rotated stamp => rw [LogWorld.holds, hlive]; rfl
    | evicted => rw [LogWorld.holds, hevicted]; rfl
  ordered := by
    intro early late hless byte hbyte later hlater
    rw [hlive] at hbyte hlater
    exact hkept.ordered early late hless byte hbyte later hlater
  latest := by
    intro stamp byte hbyte later hlater
    rw [hlive] at hbyte
    rw [hcurrent] at hlater
    exact hkept.latest stamp byte hbyte later hlater
  placed := hplaced

theorem LogWorld.Last.live_eq_nil {stamp later : Stamp} (hlast : world.Last stamp)
    (hlater : stamp < later) : world.live later = [] := by
  have habsent : ∀ file : LogFile Stamp, file.archived = some later → file ∉ world.files :=
    fun file hfile hmem => absurd (hlast file hmem later hfile) (not_le.2 hlater)
  rw [LogWorld.live, if_neg (habsent (.compressed later) rfl),
    content_of_notMem (habsent (.rotated later) rfl)]

theorem LogKept.reopened (hkept : LogKept world) : LogKept world.reopened := by
  refine hkept.same ?_ ?_ rfl rfl ?_
  · by_cases hpresent : .current ∈ world.files
    · exact content_congr (by simp [lookup_reopened, hpresent])
    · rw [content_of_notMem hpresent, LogWorld.content, lookup_reopened]
      simp [hpresent]
  · intro stamp
    exact live_congr (by simp [lookup_reopened]) (by simp [lookup_reopened])
  · change .current ∈ world.reopened.files
    rw [← AList.lookup_isSome, lookup_reopened]
    split_ifs with habsent
    · rfl
    · rw [AList.lookup_isSome]
      simpa using habsent

theorem LogKept.closed (hkept : LogKept world) : LogKept { world with writer := .closed } :=
  hkept.same rfl (fun _ => rfl) rfl rfl trivial

theorem filed_write {after : LogWorld Stamp} (hkept : LogKept world) (goal : LogPlace Stamp)
    (hwritten : after.written = world.written + 1)
    (hgoal : after.holds goal = world.holds goal ++ [world.written])
    (hothers : ∀ place, place ≠ goal → after.holds place = world.holds place) :
    Filed (fun place byte => byte ∈ after.holds place) (· < after.written) := by
  refine hkept.filed.add goal (lt_irrefl world.written) (fun place byte => ?_) (fun byte => ?_)
  · by_cases hplace : place = goal
    · simp [hplace, hgoal]
    · simp [hplace, hothers place hplace]
  · rw [hwritten]
    omega

theorem LogKept.write_current (hkept : LogKept world) (hon : world.writer = .on .current) :
    LogKept (world.change .write) := by
  have hplaced := hkept.placed
  simp only [LogWorld.WriterPlaced, hon] at hplaced
  have hchange : world.change .write =
      { world.put .current (world.content .current ++ [world.written]) with
        written := world.written + 1 } := by
    simp [LogWorld.change, hon, LogWorld.put]
  have hlookup : ∀ file, file ≠ .current →
      (world.change .write).files.lookup file = world.files.lookup file := by
    intro file hfile
    rw [hchange]
    exact (lookup_put .current file _).trans (if_neg hfile)
  have hcurrent : (world.change .write).content .current =
      world.content .current ++ [world.written] := by
    rw [hchange]
    simp [LogWorld.content, LogWorld.put]
  have hlive : ∀ stamp, (world.change .write).live stamp = world.live stamp :=
    fun stamp => live_congr (hlookup _ (by simp)) (hlookup _ (by simp))
  refine ⟨filed_write hkept .current (by rw [hchange]) hcurrent ?_, ?_, ?_, ?_⟩
  · intro place hplace
    cases place with
    | current => exact absurd rfl hplace
    | rotated stamp => exact hlive stamp
    | evicted => rw [hchange]; rfl
  · intro early late hless byte hbyte later hlater
    rw [hlive] at hbyte hlater
    exact hkept.ordered early late hless byte hbyte later hlater
  · intro stamp byte hbyte later hlater
    rw [hlive] at hbyte
    rw [hcurrent, List.mem_append, List.mem_singleton] at hlater
    rcases hlater with hold | rfl
    · exact hkept.latest stamp byte hbyte later hold
    · exact hkept.fresh hbyte
  · rw [LogWorld.WriterPlaced, hchange]
    simp [LogWorld.put, hon]

theorem LogKept.write_rotated (hkept : LogKept world) {stamp : Stamp}
    (hon : world.writer = .on (.rotated stamp)) : LogKept (world.change .write) := by
  have hplaced := hkept.placed
  simp only [LogWorld.WriterPlaced, hon] at hplaced
  obtain ⟨hcurrent, hrotated, hcompressed, hlast⟩ := hplaced
  have hchange : world.change .write =
      { world.put (.rotated stamp) (world.content (.rotated stamp) ++ [world.written]) with
        written := world.written + 1 } := by
    simp [LogWorld.change, hon, LogWorld.put]
  have hlookup : ∀ file, file ≠ .rotated stamp →
      (world.change .write).files.lookup file = world.files.lookup file := by
    intro file hfile
    rw [hchange]
    exact (lookup_put (.rotated stamp) file _).trans (if_neg hfile)
  have hnone : (world.change .write).content .current = [] := by
    rw [content_congr (hlookup _ (by simp)), content_of_notMem hcurrent]
  have hgrown : (world.change .write).live stamp = world.live stamp ++ [world.written] := by
    simp only [LogWorld.live, mem_congr (hlookup (.compressed stamp) (by simp)), hcompressed,
      if_false]
    rw [hchange]
    simp [LogWorld.content, LogWorld.put]
  have hlive : ∀ other, other ≠ stamp → (world.change .write).live other = world.live other :=
    fun other hother => live_congr (hlookup _ (by simpa using hother)) (hlookup _ (by simp))
  have hmem : ∀ file, file ∈ (world.change .write).files ↔ file ∈ world.files := by
    intro file
    rw [hchange]
    simp only [LogWorld.put, AList.mem_insert, or_iff_right_iff_imp]
    rintro rfl
    exact hrotated
  have hafter : (world.change .write).Last stamp :=
    fun file hfile => hlast file ((hmem file).1 hfile)
  refine ⟨filed_write hkept (.rotated stamp) (by rw [hchange]) hgrown ?_, ?_, ?_, ?_⟩
  · intro place hplace
    cases place with
    | current => exact content_congr (hlookup _ (by simp))
    | rotated other => exact hlive other (by simpa using hplace)
    | evicted => rw [hchange]; rfl
  · intro early late hless byte hbyte later hlater
    rcases lt_trichotomy late stamp with hbefore | rfl | hbeyond
    · rw [hlive early (hless.trans hbefore).ne] at hbyte
      rw [hlive late hbefore.ne] at hlater
      exact hkept.ordered early late hless byte hbyte later hlater
    · rw [hlive early hless.ne] at hbyte
      rw [hgrown, List.mem_append, List.mem_singleton] at hlater
      rcases hlater with hold | rfl
      · exact hkept.ordered early late hless byte hbyte later hold
      · exact hkept.fresh hbyte
    · rw [hafter.live_eq_nil hbeyond] at hlater
      simp at hlater
  · intro other byte hbyte later hlater
    rw [hnone] at hlater
    simp at hlater
  · have hwriter : (world.change .write).writer = .on (.rotated stamp) := by
      rw [hchange]
      exact hon
    simp only [LogWorld.WriterPlaced, hwriter]
    simp only [hmem]
    exact ⟨hcurrent, hrotated, hcompressed, hafter⟩

theorem LogKept.change (hkept : LogKept world) (change : WriterChange) :
    LogKept (world.change change) := by
  have hplaced := hkept.placed
  cases change with
  | write =>
    cases hwriter : world.writer with
    | closed => simpa [LogWorld.change, hwriter] using hkept
    | unlinked => simp [LogWorld.WriterPlaced, hwriter] at hplaced
    | on file =>
      cases file with
      | current => exact hkept.write_current hwriter
      | rotated stamp => exact hkept.write_rotated hwriter
      | compressed stamp | temporary stamp => simp [LogWorld.WriterPlaced, hwriter] at hplaced
  | close => exact hkept.closed
  | opens =>
    rw [LogWorld.change]
    split_ifs
    · exact hkept.reopened
    · exact hkept

def LogWorld.Off (world : LogWorld Stamp) : Prop := ∀ stamp, world.writer ≠ .on (.rotated stamp)

def SameArchives (before after : LogWorld Stamp) : Prop :=
  ∀ file, file ≠ .current → after.files.lookup file = before.files.lookup file

def SameNames (before after : LogWorld Stamp) : Prop :=
  ∀ file, file ≠ .current → (file ∈ after.files ↔ file ∈ before.files)

theorem SameArchives.trans {first second third : LogWorld Stamp}
    (hfirst : SameArchives first second) (hsecond : SameArchives second third) :
    SameArchives first third :=
  fun file hfile => (hsecond file hfile).trans (hfirst file hfile)

theorem sameArchives_reopened : SameArchives world world.reopened := by
  intro file hfile
  simp [lookup_reopened, hfile]

theorem off_change (hkept : LogKept world) (hoff : world.Off) (change : WriterChange) :
    (world.change change).Off ∧ SameArchives world (world.change change) := by
  have hplaced := hkept.placed
  cases change with
  | write =>
    cases hwriter : world.writer with
    | closed => simpa [LogWorld.change, hwriter] using ⟨hoff, fun _ _ => rfl⟩
    | unlinked => simp [LogWorld.WriterPlaced, hwriter] at hplaced
    | on file =>
      cases file with
      | current =>
        refine ⟨fun stamp => ?_, fun other hother => ?_⟩
        · simp [LogWorld.change, hwriter]
        · simp [LogWorld.change, hwriter, AList.lookup_insert_ne hother]
      | rotated stamp => exact absurd hwriter (hoff stamp)
      | compressed stamp | temporary stamp => simp [LogWorld.WriterPlaced, hwriter] at hplaced
  | close => exact ⟨fun stamp => by simp [LogWorld.change], fun _ _ => rfl⟩
  | opens =>
    rw [LogWorld.change]
    split_ifs
    · exact ⟨fun stamp => by simp [LogWorld.reopened], sameArchives_reopened⟩
    · exact ⟨hoff, fun _ _ => rfl⟩

theorem sameNames_change (hkept : LogKept world) (change : WriterChange) :
    SameNames world (world.change change) := by
  have hplaced := hkept.placed
  by_cases hoff : world.Off
  · exact fun file hfile => mem_congr ((off_change hkept hoff change).2 file hfile)
  simp only [LogWorld.Off, not_forall, not_not] at hoff
  obtain ⟨stamp, hwriter⟩ := hoff
  simp only [LogWorld.WriterPlaced, hwriter] at hplaced
  intro file hfile
  cases change with
  | write =>
    simp only [LogWorld.change, hwriter, AList.mem_insert]
    constructor
    · rintro (rfl | hmem)
      · exact hplaced.2.1
      · exact hmem
    · exact .inr
  | close => rfl
  | opens => simp [LogWorld.change, hwriter]

section

variable (hkept : LogKept world) (hoff : world.Off)

include hkept hoff

theorem writer_ne {file : LogFile Stamp} (hfile : file ≠ .current) : world.writer ≠ .on file := by
  intro hwriter
  have hplaced := hkept.placed
  cases file with
  | current => exact hfile rfl
  | rotated stamp => exact hoff stamp hwriter
  | compressed stamp | temporary stamp => simp [LogWorld.WriterPlaced, hwriter] at hplaced

theorem writer_remove (removal : Removal) {file : LogFile Stamp} (hfile : file ≠ .current) :
    (world.remove removal file).writer = world.writer :=
  if_neg (writer_ne hkept hoff hfile)

theorem writer_rename {source target : LogFile Stamp} (hsource : source ≠ .current)
    (htarget : target ≠ .current) : (world.rename source target).writer = world.writer := by
  simp only [LogWorld.rename]
  rw [if_neg (writer_ne hkept hoff hsource), if_neg (writer_ne hkept hoff htarget)]

theorem placed_of_off {after : LogWorld Stamp} (hwriter : after.writer = world.writer)
    (hcurrent : after.files.lookup .current = world.files.lookup .current) :
    after.WriterPlaced := by
  have hplaced := hkept.placed
  rw [LogWorld.WriterPlaced, hwriter]
  cases hbefore : world.writer with
  | closed => trivial
  | unlinked => simp [LogWorld.WriterPlaced, hbefore] at hplaced
  | on file =>
    cases file with
    | current =>
      simp only [LogWorld.WriterPlaced, hbefore] at hplaced
      exact (mem_congr hcurrent).2 hplaced
    | rotated stamp => exact absurd hbefore (hoff stamp)
    | compressed stamp | temporary stamp => simp [LogWorld.WriterPlaced, hbefore] at hplaced

theorem LogKept.unmoved {after : LogWorld Stamp}
    (hcurrent : after.files.lookup .current = world.files.lookup .current)
    (hlive : ∀ stamp, after.live stamp = world.live stamp) (hwriter : after.writer = world.writer)
    (hevicted : after.evicted = world.evicted) (hwritten : after.written = world.written) :
    LogKept after :=
  hkept.same (content_congr hcurrent) hlive hevicted hwritten
    (placed_of_off hkept hoff hwriter hcurrent)

theorem LogKept.put_temporary (stamp : Stamp) (bytes : List ℕ) :
    LogKept (world.put (.temporary stamp) bytes) := by
  refine hkept.unmoved hoff (by simp [lookup_put]) (fun other => ?_) rfl rfl rfl
  exact live_congr (by simp [lookup_put]) (by simp [lookup_put])

theorem LogKept.remove_temporary {removal : Removal} (hremoval : removal ≠ .excess)
    (stamp : Stamp) :
    LogKept (world.remove removal (.temporary stamp)) := by
  refine hkept.unmoved hoff (by simp [lookup_remove]) (fun other => ?_)
    (writer_remove hkept hoff removal (by simp)) (by simp [LogWorld.remove, hremoval]) rfl
  exact live_congr (by simp [lookup_remove]) (by simp [lookup_remove])

theorem LogKept.remove_superseded {removal : Removal} (hremoval : removal ≠ .excess) {stamp : Stamp}
    (harchive : .compressed stamp ∈ world.files) :
    LogKept (world.remove removal (.rotated stamp)) := by
  refine hkept.unmoved hoff (by simp [lookup_remove]) (fun other => ?_)
    (writer_remove hkept hoff removal (by simp)) (by simp [LogWorld.remove, hremoval]) rfl
  have hcompressed : ∀ file, (world.remove removal (.rotated stamp)).files.lookup
      (.compressed file) = world.files.lookup (.compressed file) := by
    intro file
    simp [lookup_remove]
  by_cases hother : other = stamp
  · subst hother
    have harchiveAfter := (mem_congr (hcompressed other)).2 harchive
    rw [LogWorld.live, LogWorld.live, if_pos harchive, if_pos harchiveAfter]
    exact content_congr (hcompressed other)
  · exact live_congr (by simp [lookup_remove, hother]) (hcompressed other)

theorem LogKept.rename_archive {stamp : Stamp} (habsent : .compressed stamp ∉ world.files)
    (hcopied : world.content (.temporary stamp) = world.content (.rotated stamp)) :
    LogKept (world.rename (.temporary stamp) (.compressed stamp)) := by
  refine hkept.unmoved hoff (by simp [lookup_rename]) (fun other => ?_)
    (writer_rename hkept hoff (by simp) (by simp)) rfl rfl
  by_cases hother : other = stamp
  · subst hother
    have hpresent : .compressed other ∈
        (world.rename (.temporary other) (.compressed other)).files := by
      rw [← AList.lookup_isSome, lookup_rename, if_pos rfl]
      rfl
    rw [LogWorld.live, LogWorld.live, if_pos hpresent, if_neg habsent, ← hcopied,
      LogWorld.content, lookup_rename, if_pos rfl]
    rfl
  · exact live_congr (by simp [lookup_rename]) (by simp [lookup_rename, hother])

end

section Evict

variable {file : LogFile Stamp} {stamp : Stamp}

def LogWorld.Single (world : LogWorld Stamp) : Prop :=
  ∀ stamp, .rotated stamp ∈ world.files → .compressed stamp ∉ world.files

omit [LinearOrder Stamp] in
theorem LogWorld.Single.eq_of_archived (hsingle : world.Single) {other : LogFile Stamp}
    (hfile : file ∈ world.files) (hother : other ∈ world.files)
    (harchived : file.archived = some stamp) (hsame : other.archived = some stamp) :
    other = file := by
  cases file <;> cases other <;> simp only [LogFile.archived, Option.some.injEq, reduceCtorEq]
    at harchived hsame
  all_goals subst harchived hsame
  · rfl
  · exact absurd hother (hsingle _ hfile)
  · exact absurd hfile (hsingle _ hother)
  · rfl

theorem LogWorld.Single.live_eq (hsingle : world.Single) (hfile : file ∈ world.files)
    (harchived : file.archived = some stamp) : world.live stamp = world.content file := by
  cases file with
  | current | temporary other => simp [LogFile.archived] at harchived
  | rotated other =>
    obtain rfl : other = stamp := by simpa [LogFile.archived] using harchived
    rw [LogWorld.live, if_neg (hsingle other hfile)]
  | compressed other =>
    obtain rfl : other = stamp := by simpa [LogFile.archived] using harchived
    rw [LogWorld.live, if_pos hfile]

theorem oldest_of_least (hkept : LogKept world) (hsingle : world.Single)
    (hfile : file ∈ world.files) (harchived : file.archived = some stamp)
    (hleast : ∀ other ∈ world.files, ∀ late, other.archived = some late → stamp ≤ late) :
    world.Oldest file := by
  intro other hother hrotated hne byte hbyte later hlater
  obtain ⟨late, hlate⟩ := Option.isSome_iff_exists.1 hrotated
  have hmem : other ∈ world.files := AList.mem_keys.2 hother
  have hless : stamp < late := by
    refine lt_of_le_of_ne (hleast other hmem late hlate) fun hsame => hne ?_
    exact hsingle.eq_of_archived hfile hmem harchived (hsame ▸ hlate)
  rw [← hsingle.live_eq hfile harchived] at hbyte
  rw [← hsingle.live_eq hmem hlate] at hlater
  exact hkept.ordered stamp late hless byte hbyte later hlater

theorem LogKept.evict (hkept : LogKept world) (hoff : world.Off) (hsingle : world.Single)
    (hfile : file ∈ world.files) (harchived : file.archived = some stamp)
    (hleast : ∀ other ∈ world.files, ∀ late, other.archived = some late → stamp ≤ late) :
    LogKept (world.remove .excess file) := by
  have holdest := oldest_of_least hkept hsingle hfile harchived hleast
  have hnotCurrent : file ≠ .current := by
    rintro rfl
    simp [LogFile.archived] at harchived
  have hcurrent : (world.remove .excess file).files.lookup .current =
      world.files.lookup .current := by
    rw [lookup_remove, if_neg hnotCurrent.symm]
  have hevicted : (world.remove .excess file).evicted = world.evicted ++ world.live stamp := by
    rw [hsingle.live_eq hfile harchived]
    simp [LogWorld.remove, holdest]
  have hgone : (world.remove .excess file).live stamp = [] := by
    have habsent : ∀ other : LogFile Stamp, other.archived = some stamp →
        other ∉ (world.remove .excess file).files := by
      intro other hother hmem
      rw [← AList.lookup_isSome, lookup_remove] at hmem
      split_ifs at hmem with hsame
      · simp at hmem
      · exact hsame (hsingle.eq_of_archived hfile (AList.lookup_isSome.1 hmem) harchived hother)
    rw [LogWorld.live, if_neg (habsent _ rfl), content_of_notMem (habsent _ rfl)]
  have hlive : ∀ other, other ≠ stamp →
      (world.remove .excess file).live other = world.live other := by
    intro other hother
    have hne : ∀ name : LogFile Stamp, name.archived = some other → name ≠ file := by
      rintro name hname rfl
      exact hother (Option.some.inj (hname.symm.trans harchived))
    exact live_congr (by rw [lookup_remove, if_neg (hne _ rfl)])
      (by rw [lookup_remove, if_neg (hne _ rfl)])
  refine ⟨hkept.filed.pour (.rotated stamp) .evicted ?_ ?_ ?_, ?_, ?_, ?_⟩
  · intro byte
    simp [LogWorld.holds, hevicted]
  · intro byte
    simp [LogWorld.holds, hgone]
  · intro place hgoal hsource byte
    cases place with
    | current => rw [LogWorld.holds, content_congr hcurrent]; rfl
    | rotated other => rw [LogWorld.holds, hlive other (by simpa using hsource)]; rfl
    | evicted => exact absurd rfl hgoal
  · intro early late hless byte hbyte later hlater
    have hearly : early ≠ stamp := by rintro rfl; simp [hgone] at hbyte
    have hlate : late ≠ stamp := by rintro rfl; simp [hgone] at hlater
    rw [hlive early hearly] at hbyte
    rw [hlive late hlate] at hlater
    exact hkept.ordered early late hless byte hbyte later hlater
  · intro other byte hbyte later hlater
    have hother : other ≠ stamp := by rintro rfl; simp [hgone] at hbyte
    rw [hlive other hother] at hbyte
    rw [content_congr hcurrent] at hlater
    exact hkept.latest other byte hbyte later hlater
  · exact placed_of_off hkept hoff (writer_remove hkept hoff .excess hnotCurrent) hcurrent

end Evict

section Rotate

variable {stamp : Stamp}

theorem lookup_rotate {file : LogFile Stamp} (hcurrent : file ≠ .current)
    (hrotated : file ≠ .rotated stamp) :
    (world.rename .current (.rotated stamp)).files.lookup file = world.files.lookup file := by
  rw [lookup_rename, if_neg hrotated, if_neg hcurrent]

theorem current_notMem_rotate : .current ∉ (world.rename .current (.rotated stamp)).files := by
  rw [← AList.lookup_isSome, lookup_rename]
  simp

theorem compressed_notMem_rotate
    (hlater : ∀ file ∈ world.files, ∀ other, file.archived = some other → other < stamp) :
    .compressed stamp ∉ (world.rename .current (.rotated stamp)).files := by
  rw [mem_congr (lookup_rotate (by simp) (by simp))]
  exact fun hmem => lt_irrefl stamp (hlater _ hmem stamp rfl)

theorem last_rotate
    (hlater : ∀ file ∈ world.files, ∀ other, file.archived = some other → other < stamp) :
    (world.rename .current (.rotated stamp)).Last stamp := by
  intro file hfile other hother
  by_cases hrotated : file = .rotated stamp
  · rw [hrotated] at hother
    exact (Option.some.inj hother).ge
  · have hcurrent : file ≠ .current := fun hsame => current_notMem_rotate (hsame ▸ hfile)
    exact (hlater file ((mem_congr (lookup_rotate hcurrent hrotated)).1 hfile) other hother).le

theorem LogKept.rotate (hkept : LogKept world) (hoff : world.Off)
    (hlater : ∀ file ∈ world.files, ∀ other, file.archived = some other → other < stamp) :
    LogKept (world.rename .current (.rotated stamp)) := by
  have hplaced := hkept.placed
  have habsent : ∀ file : LogFile Stamp, file.archived = some stamp → file ∉ world.files :=
    fun file hfile hmem => lt_irrefl stamp (hlater file hmem stamp hfile)
  have hcompressed := compressed_notMem_rotate hlater
  have hlast := last_rotate hlater
  have hnone : .current ∉ (world.rename .current (.rotated stamp)).files := current_notMem_rotate
  have hpresent : .rotated stamp ∈ (world.rename .current (.rotated stamp)).files := by
    rw [← AList.lookup_isSome, lookup_rename]
    simp
  have hmoved : (world.rename .current (.rotated stamp)).live stamp = world.content .current := by
    rw [LogWorld.live, if_neg hcompressed, LogWorld.content, lookup_rename, if_pos rfl]
    rfl
  have hnew : world.live stamp = [] := by
    rw [LogWorld.live, if_neg (habsent _ rfl), content_of_notMem (habsent _ rfl)]
  have hlive : ∀ other, other ≠ stamp →
      (world.rename .current (.rotated stamp)).live other = world.live other :=
    fun other hother => live_congr (lookup_rotate (by simp) (by simpa using hother))
      (lookup_rotate (by simp) (by simp))
  refine ⟨hkept.filed.pour .current (.rotated stamp) ?_ ?_ ?_, ?_, ?_, ?_⟩
  · intro byte
    simp [LogWorld.holds, hmoved, hnew]
  · intro byte
    simp [LogWorld.holds, content_of_notMem hnone]
  · intro place hgoal hsource byte
    cases place with
    | current => exact absurd rfl hsource
    | rotated other => rw [LogWorld.holds, hlive other (by simpa using hgoal)]; rfl
    | evicted => rfl
  · intro early late hless byte hbyte later hlaterByte
    rcases lt_trichotomy late stamp with hbefore | rfl | hbeyond
    · rw [hlive early (hless.trans hbefore).ne] at hbyte
      rw [hlive late hbefore.ne] at hlaterByte
      exact hkept.ordered early late hless byte hbyte later hlaterByte
    · rw [hlive early hless.ne] at hbyte
      rw [hmoved] at hlaterByte
      exact hkept.latest early byte hbyte later hlaterByte
    · rw [hlast.live_eq_nil hbeyond] at hlaterByte
      simp at hlaterByte
  · intro other byte hbyte later hlaterByte
    rw [content_of_notMem hnone] at hlaterByte
    simp at hlaterByte
  cases hwriter : world.writer with
  | closed => simp [LogWorld.WriterPlaced, LogWorld.rename, hwriter]
  | unlinked => simp [LogWorld.WriterPlaced, hwriter] at hplaced
  | on file =>
    have hcurrent : file = .current := by
      by_contra hfile
      exact writer_ne hkept hoff hfile hwriter
    have hfollows : (world.rename .current (.rotated stamp)).writer = .on (.rotated stamp) := by
      simp [LogWorld.rename, hwriter, hcurrent]
    simp only [LogWorld.WriterPlaced, hfollows]
    exact ⟨hnone, hpresent, hcompressed, hlast⟩

end Rotate

theorem LogKept.restore (hkept : LogKept world) {stamp : Stamp}
    (hrotated : .rotated stamp ∈ world.files) (hcompressed : .compressed stamp ∉ world.files)
    (hlast : world.Last stamp) (hempty : world.content .current = [])
    (hwriter : world.writer ≠ .on .current) : LogKept (world.rename (.rotated stamp) .current) := by
  have hplaced := hkept.placed
  have hlookup : ∀ file, file ≠ .current → file ≠ .rotated stamp →
      (world.rename (.rotated stamp) .current).files.lookup file = world.files.lookup file := by
    intro file hcurrent hother
    rw [lookup_rename, if_neg hcurrent, if_neg hother]
  have hpresent : .current ∈ (world.rename (.rotated stamp) .current).files := by
    rw [← AList.lookup_isSome, lookup_rename]
    simp
  have hback : (world.rename (.rotated stamp) .current).content .current = world.live stamp := by
    rw [LogWorld.live, if_neg hcompressed, LogWorld.content, lookup_rename, if_pos rfl]
    rfl
  have hgone : (world.rename (.rotated stamp) .current).live stamp = [] := by
    have hstill := (mem_congr (hlookup (.compressed stamp) (by simp) (by simp))).not.2 hcompressed
    rw [LogWorld.live, if_neg hstill, LogWorld.content, lookup_rename]
    simp
  have hlive : ∀ other, other ≠ stamp →
      (world.rename (.rotated stamp) .current).live other = world.live other :=
    fun other hother => live_congr (hlookup _ (by simp) (by simpa using hother))
      (hlookup _ (by simp) (by simp))
  refine ⟨hkept.filed.pour (.rotated stamp) .current ?_ ?_ ?_, ?_, ?_, ?_⟩
  · intro byte
    simp [LogWorld.holds, hback, hempty]
  · intro byte
    simp [LogWorld.holds, hgone]
  · intro place hgoal hsource byte
    cases place with
    | current => exact absurd rfl hgoal
    | rotated other => rw [LogWorld.holds, hlive other (by simpa using hsource)]; rfl
    | evicted => rfl
  · intro early late hless byte hbyte later hlater
    have hearly : early ≠ stamp := by rintro rfl; simp [hgone] at hbyte
    have hlate : late ≠ stamp := by rintro rfl; simp [hgone] at hlater
    rw [hlive early hearly] at hbyte
    rw [hlive late hlate] at hlater
    exact hkept.ordered early late hless byte hbyte later hlater
  · intro other byte hbyte later hlater
    have hother : other ≠ stamp := by rintro rfl; simp [hgone] at hbyte
    rw [hlive other hother] at hbyte
    rw [hback] at hlater
    rcases lt_or_gt_of_ne hother with hbefore | hbeyond
    · exact hkept.ordered other stamp hbefore byte hbyte later hlater
    · rw [hlast.live_eq_nil hbeyond] at hbyte
      simp at hbyte
  cases hbefore : world.writer with
  | closed => simp [LogWorld.WriterPlaced, LogWorld.rename, hbefore]
  | unlinked => simp [LogWorld.WriterPlaced, hbefore] at hplaced
  | on file =>
    cases file with
    | current => exact absurd hbefore hwriter
    | compressed other | temporary other => simp [LogWorld.WriterPlaced, hbefore] at hplaced
    | rotated other =>
      simp only [LogWorld.WriterPlaced, hbefore] at hplaced
      obtain ⟨-, hother, -, hlastOther⟩ := hplaced
      have hsame : other = stamp :=
        le_antisymm (hlast _ hother other rfl) (hlastOther _ hrotated stamp rfl)
      simp only [LogWorld.WriterPlaced, LogWorld.rename, hbefore, hsame, if_true]
      simp

end Holdings

end K3sm.Podlogs
