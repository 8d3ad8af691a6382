import K3sm.Core.Run
import K3sm.Core.Script
import K3sm.Registry.Rows

/-!
# The row count record

The store keeps, outside the repository directory, how many rows it believes index.json holds, so
that rows dropped behind its back are noticed.  The two files are written one after the other, and
either write can be the last one made.
-/

namespace K3sm.Registry.RowRecord

open K3sm.Core Option

/-- `rowCount`: the record's content. -/
structure RowCount where
  store : String
  repository : String
  rows : ℤ
  deriving DecidableEq

/-- The record file: a record, or bytes that do not parse as one. -/
inductive RecordFile where
  | malformed
  | count (record : RowCount)
  deriving DecidableEq

/-- What index.json and the record hold, and the store id (empty while the
root has none). -/
structure Files where
  id : String
  index : Option (List Row)
  record : Option RecordFile
  deriving DecidableEq

/-- What an operation goes by whose reading of the store id succeeds, or fails:
`recordedRows` drops the error and goes on with an empty id. -/
def Files.read (files : Files) (idRead : Bool) : Files :=
  if idRead then files else { files with id := "" }

/-- The repository's name, and the length of the JSON encoding of an index. -/
structure Env where
  name : String
  indexLen : List Row → ℕ

def maxIndexLen : ℕ := 64 * 2 ^ 20

/-- The number of rows index.json holds; a missing index holds none. -/
def Files.held (files : Files) : ℕ := (files.index.getD []).length

/-- The count of the record this store wrote for the repository.  A missing
or malformed record, or one bound to another store id, counts as absent. -/
def recordedRows (env : Env) (files : Files) : Option ℤ :=
  match files.record with
  | some (.count got) =>
    if got.store = files.id ∧ got.repository = env.name ∧ 0 ≤ got.rows then
      some got.rows
    else none
  | _ => none

/-- `writeRowCount`, bound to the store id and name the caller read. -/
def writeRowCount (env : Env) (files : Files) (count : ℤ) : Script Files :=
  Script.replaceFile fun current =>
    { current with record := some (.count ⟨files.id, env.name, count⟩) }

def renameIndex (rows : List Row) : Script Files :=
  Script.replaceFile fun files => { files with index := some rows }

/-- The count `writeIndex` records: the old one moved by the change in rows,
or the new number of rows when there is no record or no previous index. -/
def nextCount (recorded : Option ℤ) (rows : List Row) (prev : ℤ) : ℤ :=
  match recorded with
  | some was => if 0 ≤ prev then max 0 (was + rows.length - prev) else rows.length
  | none => rows.length

/-- `writeIndex`.  `prev` is how many rows the caller read, or -1. -/
def writeIndex (env : Env) (files : Files) (rows : List Row) (prev : ℤ) : Script Files :=
  let recorded := recordedRows env files
  let count := nextCount recorded rows prev
  if maxIndexLen < env.indexLen rows then []
  else match recorded with
    | some was =>
      if count < was then writeRowCount env files count ++ renameIndex rows
      else if count = was then renameIndex rows
      else renameIndex rows ++ writeRowCount env files count
    | none => renameIndex rows ++ writeRowCount env files count

/-- `initLocked`: an index that exists is never rewritten. -/
def initLocked (env : Env) (files : Files) : Script Files :=
  match files.index with
  | some _ => []
  | none => writeIndex env files [] (-1)

/-- The writes that change an existing index through `updateIndex`. -/
inductive Write where
  | putTagged (desc : Descriptor) (tag : String)
  | putUntagged (desc : Descriptor)
  | deleteTag (tag : String) (keep : Row → Option Bool)
  | deleteDigest (digest : Digest)

/-- The rows a write leaves; `none` when it fails or changes nothing. -/
def Write.change : Write → List Row → Option (List Row)
  | .putTagged desc tag, rows =>
    if (Registry.putTagged rows desc tag).2 then
      some (Registry.putTagged rows desc tag).1
    else none
  | .putUntagged desc, rows =>
    if (Registry.putUntagged rows desc).2 then
      some (Registry.putUntagged rows desc).1
    else none
  | .deleteTag tag keep, rows => Registry.deleteTag rows tag keep
  | .deleteDigest digest, rows => Registry.deleteDigest rows digest

def updateIndex (env : Env) (files : Files) (write : Write) : Script Files :=
  match files.index with
  | none => []
  | some rows =>
    match write.change rows with
    | none => []
    | some changed => writeIndex env files changed rows.length

def setRows (env : Env) (files : Files) (rows : List Row) : Script Files :=
  match files.index with
  | none => []
  | some old => writeIndex env files rows old.length

/-- `RemoveLayout`'s steps on the two files: index.json first, the record after
it.  `idle` says that the directory holds nothing else and is old enough. -/
def removeLayout (files : Files) (idle : Bool) : Script Files :=
  if files.index = some [] ∧ idle then
    [fun files => some { files with index := none },
      fun files => some { files with record := none }]
  else []

def reapHalfRemoved (files : Files) : Script Files :=
  match files.index with
  | some _ => []
  | none => [fun files => some { files with record := none }]

/-- What `CheckRows` answers.  A pass carries the writes it makes. -/
inductive RowsCheck where
  | unreadable
  | passed (script : Script Files)
  | rowsLost (held recorded : ℤ)

/-- Compares the record with the rows that index.json holds. -/
def checkRows (env : Env) (files : Files) : RowsCheck :=
  match files.index with
  | none => .unreadable
  | some rows =>
    match recordedRows env files with
    | none => .passed (writeRowCount env files rows.length)
    | some count =>
      if (rows.length : ℤ) < count then .rowsLost rows.length count
      else .passed []

/-- The store operations that write index.json, the record or the store id. -/
inductive Op where
  | init
  | write (request : Write)
  | setRows (rows : List Row)
  | removeLayout (idle : Bool)
  | reapHalfRemoved
  | checkRows
  | ensureID (fresh : String)

def Op.script (env : Env) (files : Files) : Op → Script Files
  | .init => initLocked env files
  | .write request => updateIndex env files request
  | .setRows rows => RowRecord.setRows env files rows
  | .removeLayout idle => RowRecord.removeLayout files idle
  | .reapHalfRemoved => RowRecord.reapHalfRemoved files
  | .checkRows =>
    match RowRecord.checkRows env files with
    | .passed script => script
    | _ => []
  | .ensureID fresh =>
    [fun files => if files.id = "" then some { files with id := fresh } else none]

/-- One operation: whether its reading of the store id succeeds, and the step
after which it stops, if it has that many. -/
structure Attempt where
  op : Op
  idRead : Bool
  steps : ℕ

/-- An id is minted after a reading that found none, and no record has it yet. -/
def Attempt.MintsFresh (files : Files) (attempt : Attempt) : Prop :=
  ∀ fresh, attempt.op = .ensureID fresh → attempt.idRead = true ∧
    ∀ record, files.record = some (.count record) → record.store ≠ fresh

/-- The files an attempt leaves.  Its steps are chosen by what it reads, and
change what there is. -/
def Attempt.leave (env : Env) (files : Files) (attempt : Attempt) : Files :=
  (attempt.op.script env (files.read attempt.idRead)).stopAfter attempt.steps files

/-- An attempt at an operation, run as far as it gets. -/
def opStep (env : Env) (before : Files) (attempt : Attempt) (after : Files) : Prop :=
  attempt.MintsFresh before ∧ after = attempt.leave env before

def RecordWithin (env : Env) (files : Files) : Prop :=
  ∀ count, recordedRows env files = some count → count ≤ files.held

/-! ## What `writeIndex` does to index.json -/

theorem writeIndex_cases (env : Env) (files : Files) (rows : List Row) (prev : ℤ) :
    (maxIndexLen < env.indexLen rows ∧ writeIndex env files rows prev = []) ∨
      writeIndex env files rows prev = renameIndex rows ∨
      ∃ count, writeIndex env files rows prev = writeRowCount env files count ++ renameIndex rows ∨
        writeIndex env files rows prev = renameIndex rows ++ writeRowCount env files count := by
  simp only [writeIndex]
  split
  case isTrue hlong => exact .inl ⟨hlong, rfl⟩
  right
  split
  · split
    · exact .inr ⟨_, .inl rfl⟩
    split
    · exact .inl rfl
    · exact .inr ⟨_, .inr rfl⟩
  · exact .inr ⟨_, .inr rfl⟩

variable {env : Env} {files seen left : Files} {rows : List Row}

theorem writeIndex_stops_index {prev : ℤ}
    (hleft : left ∈ (writeIndex env files rows prev).stops files) :
    left.index = files.index ∨ left.index = some rows := by
  rcases writeIndex_cases env files rows prev with
    ⟨-, hscript⟩ | hscript | ⟨count, hscript | hscript⟩ <;> rw [hscript] at hleft
  · exact .inl (by rw [Script.mem_stops_nil.1 hleft])
  · rw [renameIndex, Script.mem_stops_replaceFile] at hleft
    rcases hleft with rfl | rfl
    · exact .inl rfl
    · exact .inr rfl
  · rw [writeRowCount, renameIndex, Script.mem_stops_replaceFile_append,
      Script.mem_stops_replaceFile] at hleft
    rcases hleft with rfl | rfl | rfl
    · exact .inl rfl
    · exact .inl rfl
    · exact .inr rfl
  · rw [writeRowCount, renameIndex, Script.mem_stops_replaceFile_append,
      Script.mem_stops_replaceFile] at hleft
    rcases hleft with rfl | rfl | rfl
    · exact .inl rfl
    · exact .inr rfl
    · exact .inr rfl

theorem writeIndex_run_index {prev : ℤ} (hsize : env.indexLen rows ≤ maxIndexLen)
    (hrun : (writeIndex env files rows prev).run files = some left) : left.index = some rows := by
  rcases writeIndex_cases env files rows prev with
    ⟨hlong, -⟩ | hscript | ⟨count, hscript | hscript⟩
  · exact absurd hlong (not_lt.2 hsize)
  all_goals
    rw [hscript] at hrun
    cases some.inj hrun
    rfl

theorem recordedRows_written (env : Env) (files current : Files) (count : ℤ)
    (hid : current.id = files.id) (hcount : 0 ≤ count) :
    recordedRows env { current with
      record := some (.count ⟨files.id, env.name, count⟩) } = some count := by
  simp [recordedRows, hid, hcount]

@[simp]
theorem recordedRows_index (env : Env) (files : Files)
    (index : Option (List Row)) :
    recordedRows env { files with index := index } = recordedRows env files := rfl

@[simp]
theorem recordedRows_removed (env : Env) (files : Files) :
    recordedRows env { files with record := none } = none := rfl

def rowsRead (files : Files) : ℤ :=
  match files.index with
  | some rows => rows.length
  | none => -1

theorem nextCount_le_length (rows : List Row) (hwithin : RecordWithin env files) :
    nextCount (recordedRows env files) rows (rowsRead files) ≤ rows.length := by
  cases hrecorded : recordedRows env files with
  | none => exact le_rfl
  | some was =>
    have hheld := hwithin was hrecorded
    cases hindex : files.index with
    | none => simp [nextCount, rowsRead, hindex]
    | some old =>
      have hold : files.held = old.length := by simp [Files.held, hindex]
      simp only [nextCount, rowsRead, hindex]
      split <;> omega

/-- Two readings that both find the record find the same count. -/
theorem recordedRows_eq_of_record {count was : ℤ} (hrecord : seen.record = files.record)
    (hcount : recordedRows env files = some count) (hwas : recordedRows env seen = some was) :
    count = was := by
  unfold recordedRows at hcount hwas
  split at hcount
  · rename_i got hgot
    rw [hrecord, hgot] at hwas
    dsimp only at hwas
    split at hcount <;> cases hcount
    split at hwas <;> cases hwas
    rfl
  · cases hcount

theorem within_written (current : Files) (store : String) {count : ℤ}
    (hcount : count ≤ current.held) :
    RecordWithin env { current with record := some (.count ⟨store, env.name, count⟩) } := by
  intro other hother
  unfold recordedRows at hother
  dsimp only at hother
  split at hother <;> cases hother
  exact hcount

/-- Wherever `writeIndex` stops, the record is within the index: it is lowered
before the rename and raised after it.  What is left to ask is about a record that
the write's own reading of the store id does not find. -/
theorem writeIndex_stopAfter_within (rows : List Row) (steps : ℕ)
    (hindex : seen.index = files.index) (hrecord : seen.record = files.record)
    (hread : RecordWithin env seen) (hwithin : RecordWithin env files)
    (hunread : recordedRows env seen = none → 2 ≤ steps → steps < 5 →
      RecordWithin env { files with index := some rows }) :
    RecordWithin env ((writeIndex env seen rows (rowsRead seen)).stopAfter steps files) := by
  have hlength := nextCount_le_length rows hread
  have hraised := @within_written env { files with index := some rows } seen.id _ hlength
  unfold writeIndex
  dsimp only
  split
  · rwa [Script.stopAfter_nil]
  cases hrecorded : recordedRows env seen with
  | none =>
    rw [hrecorded] at hraised
    dsimp only
    rw [renameIndex, writeRowCount, Script.stopAfter_replaceFile_replaceFile]
    split
    · exact hwithin
    split
    · exact hunread hrecorded (by omega) (by omega)
    · exact hraised
  | some was =>
    rw [hrecorded] at hlength hraised
    have hwas : was ≤ files.held := by
      rw [Files.held, ← hindex]
      exact hread was hrecorded
    have hrenamed : was ≤ nextCount (some was) rows (rowsRead seen) →
        RecordWithin env { files with index := some rows } := by
      intro hkept count hcount
      rw [recordedRows_index] at hcount
      rw [recordedRows_eq_of_record hrecord hcount hrecorded]
      exact hkept.trans hlength
    dsimp only
    split
    · rename_i hlower
      rw [writeRowCount, renameIndex, Script.stopAfter_replaceFile_replaceFile]
      split
      · exact hwithin
      split
      · exact within_written files seen.id (hlower.le.trans hwas)
      · exact hraised
    split
    · rename_i hsame
      rw [renameIndex, Script.stopAfter_replaceFile]
      split
      · exact hwithin
      · exact hrenamed hsame.ge
    rename_i hnotLower _
    rw [renameIndex, writeRowCount, Script.stopAfter_replaceFile_replaceFile]
    split
    · exact hwithin
    split
    · exact hrenamed (not_lt.1 hnotLower)
    · exact hraised

/-- Wherever `writeIndex` stops, the record that it finds is within the index. -/
theorem writeIndex_stops_within (rows : List Row) (hwithin : RecordWithin env files)
    (hleft : left ∈ (writeIndex env files rows (rowsRead files)).stops files) :
    RecordWithin env left := by
  obtain ⟨steps, rfl⟩ := hleft
  refine writeIndex_stopAfter_within rows steps rfl rfl hwithin hwithin ?_
  intro hnone _ _ count hcount
  rw [recordedRows_index, hnone] at hcount
  cases hcount

theorem setRows_stops_within (hwithin : RecordWithin env files)
    (hleft : left ∈ (setRows env files rows).stops files) : RecordWithin env left := by
  unfold setRows at hleft
  split at hleft
  · rwa [Script.mem_stops_nil.1 hleft]
  rename_i old hindex
  have hread : rowsRead files = old.length := by simp [rowsRead, hindex]
  rw [← hread] at hleft
  exact writeIndex_stops_within rows hwithin hleft

theorem within_record_removed (env : Env) (files : Files) :
    RecordWithin env { files with record := none } := by
  intro count hcount
  rw [recordedRows_removed] at hcount
  cases hcount

theorem removeLayout_stopAfter_within {idle : Bool} (steps : ℕ) (hwithin : RecordWithin env files) :
    RecordWithin env ((removeLayout files idle).stopAfter steps files) := by
  unfold removeLayout
  split
  case isFalse => rwa [Script.stopAfter_nil]
  case isTrue hempty =>
    rcases steps with - | - | steps
    · exact hwithin
    · -- index.json is gone and held no row, so the record says none either
      intro count hcount
      have hheld := hwithin count hcount
      rwa [Files.held, hempty.1] at hheld
    · have hdone := within_record_removed env { files with index := none }
      simpa [Script.stopAfter] using hdone

theorem reapHalfRemoved_stopAfter_within (steps : ℕ) (hwithin : RecordWithin env files) :
    RecordWithin env ((reapHalfRemoved files).stopAfter steps files) := by
  unfold reapHalfRemoved
  split
  · rwa [Script.stopAfter_nil]
  cases steps with
  | zero => exact hwithin
  | succ steps =>
    have hdone := within_record_removed env files
    simpa [Script.stopAfter] using hdone

/-- A check that passes records what index.json holds, or nothing. -/
theorem checkRows_stopAfter_within {script : Script Files} (steps : ℕ)
    (hindex : seen.index = files.index) (hpassed : checkRows env seen = .passed script)
    (hwithin : RecordWithin env files) : RecordWithin env (script.stopAfter steps files) := by
  unfold checkRows at hpassed
  split at hpassed
  · cases hpassed
  rename_i rows hrows
  have hheld : files.held = rows.length := by rw [Files.held, ← hindex, hrows, getD_some]
  split at hpassed
  · cases hpassed
    rw [writeRowCount, Script.stopAfter_replaceFile]
    split
    · exact hwithin
    · exact within_written files seen.id (by rw [hheld])
  · split at hpassed <;> cases hpassed
    rwa [Script.stopAfter_nil]

theorem checkRows_stops_within {script : Script Files}
    (hpassed : checkRows env files = .passed script) (hwithin : RecordWithin env files)
    (hleft : left ∈ script.stops files) : RecordWithin env left := by
  obtain ⟨steps, rfl⟩ := hleft
  exact checkRows_stopAfter_within steps rfl hpassed hwithin

/-! ## Attempts whose reading of the store id fails -/

/-- The rows an operation is to leave in index.json, when it rewrites the file. -/
def Op.leaves (env : Env) (files : Files) (op : Op) : Option (List Row) :=
  let rows :=
    match op with
    | .init => if files.index = none then some [] else none
    | .write request => files.index.bind request.change
    | .setRows rows => files.index.map fun _ => rows
    | _ => none
  rows.filter fun rows => env.indexLen rows ≤ maxIndexLen

/-- Unless the attempt's reading of the store id finds the record, and so moves it, the
attempt does not stop between the two renames having left fewer rows than the record
counts for one whose reading does. -/
def SparesRecord (env : Env) (files : Files) (attempt : Attempt) : Prop :=
  ∀ rows ∈ attempt.op.leaves env files, 2 ≤ attempt.steps → attempt.steps < 5 →
    recordedRows env (files.read attempt.idRead) = none →
      ∀ count ∈ recordedRows env (files.read !attempt.idRead), count ≤ rows.length

instance (env : Env) (files : Files) (attempt : Attempt) :
    Decidable (SparesRecord env files attempt) :=
  inferInstanceAs (Decidable (∀ rows ∈ attempt.op.leaves env files,
    2 ≤ attempt.steps → attempt.steps < 5 → recordedRows env (files.read attempt.idRead) = none →
      ∀ count ∈ recordedRows env (files.read !attempt.idRead), count ≤ rows.length))

/-- The record is within index.json whether or not the store id can be read. -/
def ReadWithin (env : Env) (files : Files) : Prop :=
  ∀ idRead, RecordWithin env (files.read idRead)

@[simp]
theorem read_index (files : Files) (idRead : Bool) : (files.read idRead).index = files.index := by
  cases idRead <;> rfl

@[simp]
theorem read_record (files : Files) (idRead : Bool) :
    (files.read idRead).record = files.record := by
  cases idRead <;> rfl

theorem leaves_read (op : Op) (idRead : Bool) :
    op.leaves env (files.read idRead) = op.leaves env files := by
  cases idRead <;> cases op <;> rfl

/-- The operations that rewrite index.json all do it through `writeIndex`. -/
theorem script_of_leaves {op : Op} (hleaves : op.leaves env files = some rows) :
    op.script env files = writeIndex env files rows (rowsRead files) := by
  unfold Op.leaves at hleaves
  have hrows := (filter_eq_some_iff.1 hleaves).1
  cases op with
  | init =>
    dsimp only at hrows
    split at hrows <;> cases hrows
    rename_i hindex
    simp [Op.script, initLocked, rowsRead, hindex]
  | write request =>
    obtain ⟨old, hindex, hchange⟩ := bind_eq_some_iff.1 hrows
    simp [Op.script, updateIndex, rowsRead, hindex, hchange]
  | setRows other =>
    obtain ⟨old, hindex, rfl⟩ := map_eq_some_iff.1 hrows
    simp [Op.script, RowRecord.setRows, rowsRead, hindex]
  | _ => cases hrows

theorem checkRows_ne_rowsLost (hwithin : RecordWithin env files) (held recorded : ℤ) :
    checkRows env files ≠ .rowsLost held recorded := by
  unfold checkRows
  split
  · exact nofun
  rename_i rows hindex
  split
  · exact nofun
  rename_i count hcount
  have hheld := hwithin count hcount
  rw [Files.held, hindex, getD_some] at hheld
  rw [if_neg (not_lt.2 hheld)]
  exact nofun

theorem writeIndex_of_long {prev : ℤ} (hlong : ¬ env.indexLen rows ≤ maxIndexLen) :
    writeIndex env files rows prev = [] := by
  simp [writeIndex, not_le.1 hlong]

theorem script_of_leaves_none {op : Op} (hleaves : op.leaves env files = none) :
    op.script env files = [] ∨ (∃ idle, op = .removeLayout idle) ∨ op = .reapHalfRemoved ∨
      op = .checkRows ∨ ∃ fresh, op = .ensureID fresh := by
  unfold Op.leaves at hleaves
  have hrows := filter_eq_none_iff.1 hleaves
  cases op with
  | init =>
    left
    cases hindex : files.index with
    | some old => simp [Op.script, initLocked, hindex]
    | none =>
      simp only [Op.script, initLocked, hindex]
      exact writeIndex_of_long (by simpa [hindex] using hrows)
  | write request =>
    left
    cases hindex : files.index with
    | none => simp [Op.script, updateIndex, hindex]
    | some old =>
      cases hchange : request.change old with
      | none => simp [Op.script, updateIndex, hindex, hchange]
      | some changed =>
        simp only [Op.script, updateIndex, hindex, hchange]
        exact writeIndex_of_long (by simpa [hindex, hchange] using hrows)
  | setRows other =>
    left
    cases hindex : files.index with
    | none => simp [Op.script, RowRecord.setRows, hindex]
    | some old =>
      simp only [Op.script, RowRecord.setRows, hindex]
      exact writeIndex_of_long (by simpa [hindex] using hrows)
  | removeLayout idle => exact .inr (.inl ⟨idle, rfl⟩)
  | reapHalfRemoved => exact .inr (.inr (.inl rfl))
  | checkRows => exact .inr (.inr (.inr (.inl rfl)))
  | ensureID fresh => exact .inr (.inr (.inr (.inr ⟨fresh, rfl⟩)))

/-- No action of the script looks at the store id or changes it. -/
def IgnoresId (script : Script Files) : Prop :=
  ∀ action ∈ script, ∀ before : Files,
    action (before.read false) = (action before).map fun after => after.read false

theorem ignoresId_nil : IgnoresId [] := by
  intro action haction
  cases haction

theorem IgnoresId.append {first last : Script Files} (hfirst : IgnoresId first)
    (hlast : IgnoresId last) : IgnoresId (first ++ last) := by
  intro action haction
  rcases List.mem_append.1 haction with hin | hin
  · exact hfirst action hin
  · exact hlast action hin

theorem ignoresId_replaceFile {rename : Files → Files}
    (hrename : ∀ before, rename (before.read false) = (rename before).read false) :
    IgnoresId (Script.replaceFile rename) := by
  intro action haction before
  simp only [Script.replaceFile, List.mem_cons, List.not_mem_nil, or_false] at haction
  rcases haction with rfl | rfl | rfl
  · rfl
  · exact congrArg some (hrename before)
  · rfl

theorem ignoresId_writeIndex (seen : Files) (rows : List Row) (prev : ℤ) :
    IgnoresId (writeIndex env seen rows prev) := by
  have hindex : IgnoresId (renameIndex rows) := ignoresId_replaceFile fun _ => rfl
  have hrecord : ∀ count, IgnoresId (writeRowCount env seen count) :=
    fun _ => ignoresId_replaceFile fun _ => rfl
  rcases writeIndex_cases env seen rows prev with
    ⟨-, hscript⟩ | hscript | ⟨count, hscript | hscript⟩ <;> rw [hscript]
  · exact ignoresId_nil
  · exact hindex
  · exact (hrecord count).append hindex
  · exact hindex.append (hrecord count)

theorem ignoresId_script {op : Op} (hminted : ∀ fresh, op ≠ .ensureID fresh) (seen : Files) :
    IgnoresId (op.script env seen) := by
  cases hleaves : op.leaves env seen with
  | some rows =>
    rw [script_of_leaves hleaves]
    exact ignoresId_writeIndex seen rows _
  | none =>
    rcases script_of_leaves_none hleaves with
      hscript | ⟨idle, rfl⟩ | rfl | rfl | ⟨fresh, rfl⟩
    · rw [hscript]
      exact ignoresId_nil
    · rw [Op.script, removeLayout]
      split
      · intro action haction
        simp only [List.mem_cons, List.not_mem_nil, or_false] at haction
        rcases haction with rfl | rfl <;> exact fun _ => rfl
      · exact ignoresId_nil
    · rw [Op.script, reapHalfRemoved]
      split
      · exact ignoresId_nil
      · intro action haction
        rw [List.mem_singleton.1 haction]
        exact fun _ => rfl
    · simp only [Op.script, checkRows]
      split
      case h_2 => exact ignoresId_nil
      rename_i hpassed
      split at hpassed
      · cases hpassed
      split at hpassed
      · cases hpassed
        exact ignoresId_replaceFile fun _ => rfl
      · split at hpassed <;> cases hpassed
        exact ignoresId_nil
    · exact absurd rfl (hminted fresh)

/-- No step but the minting of an id looks at the id or changes it. -/
theorem stopAfter_read {op : Op} (hminted : ∀ fresh, op ≠ .ensureID fresh) (seen : Files)
    (steps : ℕ) (files : Files) (idRead : Bool) :
    (op.script env seen).stopAfter steps (files.read idRead) =
      ((op.script env seen).stopAfter steps files).read idRead := by
  cases idRead with
  | true => rfl
  | false => exact Script.stopAfter_map (ignoresId_script hminted seen) steps files

theorem ensureID_within {fresh : String} {steps : ℕ}
    (hfresh : ∀ record, files.record = some (.count record) → record.store ≠ fresh)
    (hwithin : ReadWithin env files) (seen : Files) :
    ReadWithin env (((Op.ensureID fresh).script env seen).stopAfter steps files) := by
  cases steps with
  | zero => exact hwithin
  | succ steps =>
    by_cases hid : files.id = ""
    case neg => simpa [Op.script, Script.stopAfter, hid] using hwithin
    have hminted : ReadWithin env { files with id := fresh } := by
      intro idRead count hcount
      cases idRead with
      | false => exact hwithin false count hcount
      | true =>
        unfold recordedRows at hcount
        split at hcount
        · rename_i got hgot
          rw [if_neg] at hcount
          · cases hcount
          · exact fun hbound => hfresh got hgot hbound.1
        · cases hcount
    simpa [Op.script, Script.stopAfter, hid] using hminted

theorem removeLayout_read (files : Files) (idle idRead : Bool) :
    removeLayout (files.read idRead) idle = removeLayout files idle := by
  cases idRead <;> rfl

theorem reapHalfRemoved_read (files : Files) (idRead : Bool) :
    reapHalfRemoved (files.read idRead) = reapHalfRemoved files := by
  cases idRead <;> rfl

/-- Every step lemma of a store operation together: an attempt that spares the record
leaves it within index.json for either reading. -/
theorem opStep_within {before after : Files} {attempt : Attempt} (hwithin : ReadWithin env before)
    (hspares : SparesRecord env before attempt) (hstep : opStep env before attempt after) :
    ReadWithin env after := by
  obtain ⟨hfresh, rfl⟩ := hstep
  obtain ⟨op, idRead, steps⟩ := attempt
  by_cases hminted : ∃ fresh, op = .ensureID fresh
  · obtain ⟨fresh, rfl⟩ := hminted
    exact ensureID_within (hfresh fresh rfl).2 hwithin _
  intro other
  rw [Attempt.leave, ← stopAfter_read fun fresh hop => hminted ⟨fresh, hop⟩]
  have hindex : (before.read idRead).index = (before.read other).index := by simp
  have hrecord : (before.read idRead).record = (before.read other).record := by simp
  have hother := hwithin other
  dsimp only
  cases hleaves : op.leaves env before with
  | some rows =>
    have hread : op.leaves env (before.read idRead) = op.leaves env before :=
      leaves_read op idRead
    rw [script_of_leaves (hread.trans hleaves)]
    refine writeIndex_stopAfter_within rows steps hindex hrecord (hwithin idRead) hother ?_
    intro hunread hrenamed hwritten count hcount
    rw [recordedRows_index] at hcount
    cases Bool.eq_or_eq_not other idRead with
    | inl hsame =>
      rw [hsame, hunread] at hcount
      cases hcount
    | inr hnot =>
      rw [hnot] at hcount
      exact hspares rows hleaves hrenamed hwritten hunread count hcount
  | none =>
    have hnone := (leaves_read op idRead).trans hleaves
    rcases script_of_leaves_none hnone with
      hscript | ⟨idle, rfl⟩ | rfl | rfl | ⟨fresh, rfl⟩
    · rw [hscript, Script.stopAfter_nil]
      exact hother
    · rw [Op.script, removeLayout_read, ← removeLayout_read before idle other]
      exact removeLayout_stopAfter_within steps hother
    · rw [Op.script, reapHalfRemoved_read, ← reapHalfRemoved_read before other]
      exact reapHalfRemoved_stopAfter_within steps hother
    · rw [Op.script]
      split
      · rename_i hpassed
        exact checkRows_stopAfter_within steps hindex hpassed hother
      · rwa [Script.stopAfter_nil]
    · exact absurd ⟨fresh, rfl⟩ hminted

/-- The state of a repository the store has never written: no index.json and
no record, under any store id. -/
def unwritten (id : String) : Files := { id := id, index := none, record := none }

/-- No false alarm.  After any store operations from a repository that does not
exist, each run to its end or stopped between two of its steps and each sparing the
record, `CheckRows` does not report lost rows, whether or not it can read the store id. -/
theorem record_within_of_run (env : Env) (id : String) {attempts : List Attempt} {files : Files}
    (hrun : Run (guardedStep (SparesRecord env) (opStep env)) (unwritten id) attempts files)
    (idRead : Bool) :
    (∀ count, recordedRows env (files.read idRead) = some count → count ≤ files.held) ∧
      ∀ held recorded, checkRows env (files.read idRead) ≠ .rowsLost held recorded := by
  have hunwritten : ReadWithin env (unwritten id) := by
    intro idRead
    cases idRead with
    | true => exact within_record_removed env (unwritten id)
    | false => exact within_record_removed env (unwritten "")
  have hwithin : ReadWithin env files := by
    refine hrun.invariant hunwritten ?_
    intro before attempt after hbefore hstep
    exact opStep_within hbefore hstep.1 hstep.2
  refine ⟨fun count hcount => ?_, checkRows_ne_rowsLost (hwithin idRead)⟩
  have hheld := hwithin idRead count hcount
  rwa [Files.held, read_index] at hheld

private def demoEnv : Env := { name := "app", indexLen := List.length }

private def demoRow : Row :=
  { mediaType := .plain "application/vnd.oci.image.manifest.v1+json"
    digest := .sha256 1
    size := 2
    refName := none
    annotations := [] }

private def demoPut (digest : ℕ) (idRead : Bool) (steps : ℕ) : Attempt :=
  ⟨.write (.putUntagged { demoRow.toDescriptor with digest := .sha256 digest }), idRead, steps⟩

private theorem demoPut_mintsFresh (files : Files) (digest : ℕ) (idRead : Bool) (steps : ℕ) :
    (demoPut digest idRead steps).MintsFresh files := by
  simp [Attempt.MintsFresh, demoPut]

/-- Two pushes stopped between index.json's rename and the record's write, the second with a
store id it could not read, leave two rows and a record of none. -/
theorem record_within_of_interrupted_push :
    ∃ files, files.held = 2 ∧ recordedRows demoEnv files = some 0 ∧
      ∀ held recorded, checkRows demoEnv files ≠ .rowsLost held recorded := by
  have hcreated : Run (guardedStep (SparesRecord demoEnv) (opStep demoEnv)) (unwritten "s")
      ([] ++ [⟨.init, true, 6⟩]) ⟨"s", some [], some (.count ⟨"s", "app", 0⟩)⟩ :=
    Run.refl.tail ⟨by decide, by simp [Attempt.MintsFresh], rfl⟩
  have hfirst : Run (guardedStep (SparesRecord demoEnv) (opStep demoEnv)) (unwritten "s")
      ([] ++ [⟨.init, true, 6⟩] ++ [demoPut 1 true 3])
      ⟨"s", some [demoRow], some (.count ⟨"s", "app", 0⟩)⟩ :=
    hcreated.tail ⟨by decide, demoPut_mintsFresh _ _ _ _, rfl⟩
  have hsecond := hfirst.tail ⟨by decide, demoPut_mintsFresh _ 2 false 3, rfl⟩
  exact ⟨_, by decide, by decide, (record_within_of_run demoEnv "s" hsecond true).2⟩

/-- The record is left over the rows by a delete whose reading of the store id fails: it
takes the record for absent, so it renames index.json first, and stops there. -/
theorem record_over_rows_by_unread_id :
    ¬ ∀ (env : Env) (id : String) (attempts : List Attempt) (files : Files),
      Run (opStep env) (unwritten id) attempts files →
        ∀ held recorded, checkRows env files ≠ .rowsLost held recorded := by
  intro hclaim
  have hcreated : Run (opStep demoEnv) (unwritten "s") ([] ++ [⟨.init, true, 6⟩])
      ⟨"s", some [], some (.count ⟨"s", "app", 0⟩)⟩ :=
    Run.refl.tail ⟨by simp [Attempt.MintsFresh], rfl⟩
  have hpushed : Run (opStep demoEnv) (unwritten "s")
      ([] ++ [⟨.init, true, 6⟩] ++ [demoPut 1 true 6])
      ⟨"s", some [demoRow], some (.count ⟨"s", "app", 1⟩)⟩ :=
    hcreated.tail ⟨demoPut_mintsFresh _ _ _ _, rfl⟩
  have hdeleted : Run (opStep demoEnv) (unwritten "s")
      ([] ++ [⟨.init, true, 6⟩] ++ [demoPut 1 true 6] ++
        [⟨.write (.deleteDigest demoRow.digest), false, 3⟩])
      ⟨"s", some [], some (.count ⟨"s", "app", 1⟩)⟩ :=
    hpushed.tail ⟨by simp [Attempt.MintsFresh], rfl⟩
  exact hclaim demoEnv "s" _ _ hdeleted 0 1 rfl

/-! ## Whether a recorded loss stays visible -/

/-- What `CheckRows` answers when it can read the store id. -/
def ReportsLoss (env : Env) (files : Files) : Prop :=
  ∃ held recorded, checkRows env files = .rowsLost held recorded

/-- A later write of the index, or a call of `CheckRows`. -/
structure Later where
  request : Option Write
  idRead : Bool
  steps : ℕ

def Later.attempt (later : Later) : Attempt where
  op := later.request.elim .checkRows .write
  idRead := later.idRead
  steps := later.steps

def Later.leave (env : Env) (files : Files) (later : Later) : Files :=
  later.attempt.leave env files

def Later.FindsRecord (env : Env) (files : Files) (later : Later) : Prop :=
  recordedRows env (files.read later.idRead) ≠ none

instance (env : Env) (files : Files) (later : Later) :
    Decidable (later.FindsRecord env files) :=
  inferInstanceAs (Decidable (recordedRows env (files.read later.idRead) ≠ none))

/-- How many rows the recorded count is ahead of index.json. -/
def deficit (env : Env) (files : Files) : ℤ :=
  (recordedRows env files).getD 0 - files.held

/-- A write that finds the record does not stop between the renames of its two files, or it
moves fewer rows than are missing.  One that does not find it would replace it: it stops
before, and has added fewer rows than are missing if it renamed index.json. -/
def SparesLoss (env : Env) (files : Files) (later : Later) : Prop :=
  (later.request = none → later.FindsRecord env files ∨ later.steps < 2) ∧
    ∀ request ∈ later.request, ∀ rows ∈ (Op.write request).leaves env files,
      (later.FindsRecord env files → 2 ≤ later.steps → later.steps < 5 →
        |(rows.length : ℤ) - files.held| < deficit env files) ∧
      (¬ later.FindsRecord env files → later.steps < 2 ∨
        later.steps < 5 ∧ (rows.length : ℤ) - files.held < deficit env files)

instance (env : Env) (files : Files) (later : Later) : Decidable (SparesLoss env files later) :=
  inferInstanceAs (Decidable (_ ∧ ∀ request ∈ later.request,
    ∀ rows ∈ (Op.write request).leaves env files, _ ∧ _))

theorem reportsLoss_iff :
    ReportsLoss env files ↔ ∃ rows count, files.index = some rows ∧
      recordedRows env files = some count ∧ (rows.length : ℤ) < count := by
  unfold ReportsLoss checkRows
  constructor
  · rintro ⟨held, recorded, hlost⟩
    split at hlost
    · cases hlost
    rename_i rows hindex
    split at hlost
    · cases hlost
    rename_i count hcount
    split at hlost
    · rename_i hfewer
      exact ⟨rows, count, hindex, hcount, hfewer⟩
    · cases hlost
  · rintro ⟨rows, count, hindex, hcount, hfewer⟩
    exact ⟨rows.length, count, by simp [hindex, hcount, hfewer]⟩

theorem reportsLoss_written {count : ℤ} (hcount : 0 ≤ count) :
    ReportsLoss env { files with
        index := some rows
        record := some (.count ⟨files.id, env.name, count⟩) } ↔ (rows.length : ℤ) < count := by
  rw [reportsLoss_iff]
  have hrecorded := recordedRows_written env files { files with index := some rows }
    count rfl hcount
  constructor
  · rintro ⟨held, recorded, hindex, hother, hfewer⟩
    cases hindex
    rw [hrecorded] at hother
    cases hother
    exact hfewer
  · intro hfewer
    exact ⟨rows, count, rfl, hrecorded, hfewer⟩

theorem not_reportsLoss (hwithin : RecordWithin env files) : ¬ ReportsLoss env files := by
  rintro ⟨held, recorded, hlost⟩
  exact checkRows_ne_rowsLost hwithin held recorded hlost

theorem read_eq_of_found {count : ℤ} {idRead : Bool}
    (hrecorded : recordedRows env files = some count)
    (hfound : recordedRows env (files.read idRead) ≠ none) : files.read idRead = files := by
  cases idRead
  case true => rfl
  have hid : files.id = "" := by
    unfold recordedRows at hrecorded hfound
    split at hrecorded
    · rename_i got hgot
      rw [read_record, hgot] at hfound
      dsimp only at hfound
      split at hrecorded <;> cases hrecorded
      split at hfound
      · rename_i hhere hread
        exact hhere.1.symm.trans hread.1
      · exact absurd rfl hfound
    · cases hrecorded
  rw [Files.read, if_neg Bool.false_ne_true, ← hid]

variable {changed : List Row} {was : ℤ}

theorem reportsLoss_renamed (hrecorded : recordedRows env files = some was) :
    ReportsLoss env { files with index := some changed } ↔ (changed.length : ℤ) < was := by
  rw [reportsLoss_iff]
  simp [hrecorded]

/-- A write that reads the record moves it by the change in rows. -/
theorem reportsLoss_writeIndex (steps : ℕ) (hindex : files.index = some rows)
    (hrecorded : recordedRows env files = some was) (hfewer : (rows.length : ℤ) < was)
    (hsize : env.indexLen changed ≤ maxIndexLen) :
    ReportsLoss env ((writeIndex env files changed rows.length).stopAfter steps files) ↔
      (2 ≤ steps → steps < 5 → |(changed.length : ℤ) - rows.length| < was - rows.length) := by
  have hlost : ReportsLoss env files := reportsLoss_iff.2 ⟨rows, was, hindex, hrecorded, hfewer⟩
  have hcount : nextCount (some was) changed rows.length =
      was + changed.length - rows.length := by
    simp only [nextCount]
    rw [if_pos (by omega)]
    omega
  have hrecord : ∀ count, 0 ≤ count → (ReportsLoss env { files with
      record := some (.count ⟨files.id, env.name, count⟩) } ↔ (rows.length : ℤ) < count) := by
    intro count hnonneg
    rw [← reportsLoss_written hnonneg, ← hindex]
  simp only [writeIndex, hrecorded, if_neg (not_lt.2 hsize), hcount]
  split
  · -- fewer rows: the record goes first
    rw [writeRowCount, renameIndex, Script.stopAfter_replaceFile_replaceFile]
    split
    · exact iff_of_true hlost (by omega)
    split
    · rw [hrecord _ (by omega), abs_of_neg (by omega)]
      omega
    · rw [reportsLoss_written (by omega)]
      omega
  split
  · rw [renameIndex, Script.stopAfter_replaceFile]
    split
    · exact iff_of_true hlost (by omega)
    · rw [reportsLoss_renamed hrecorded, abs_of_nonneg (by omega)]
      omega
  -- more rows: index.json goes first
  rw [renameIndex, writeRowCount, Script.stopAfter_replaceFile_replaceFile]
  split
  · exact iff_of_true hlost (by omega)
  split
  · rw [reportsLoss_renamed hrecorded, abs_of_nonneg (by omega)]
    omega
  · rw [reportsLoss_written (by omega)]
    omega

/-- A write that takes the record for absent records the rows it leaves. -/
theorem reportsLoss_writeIndex_unread (steps : ℕ) (hindex : files.index = some rows)
    (hrecorded : recordedRows env files = some was) (hfewer : (rows.length : ℤ) < was)
    (hunread : recordedRows env seen = none) (prev : ℤ)
    (hsize : env.indexLen changed ≤ maxIndexLen) :
    ReportsLoss env ((writeIndex env seen changed prev).stopAfter steps files) ↔
      (steps < 2 ∨ steps < 5 ∧ (changed.length : ℤ) - rows.length < was - rows.length) := by
  have hlost : ReportsLoss env files := reportsLoss_iff.2 ⟨rows, was, hindex, hrecorded, hfewer⟩
  simp only [writeIndex, hunread, if_neg (not_lt.2 hsize), nextCount]
  rw [renameIndex, writeRowCount, Script.stopAfter_replaceFile_replaceFile]
  split
  · exact iff_of_true hlost (by omega)
  split
  · rw [reportsLoss_renamed hrecorded]
    omega
  · have hwithin := @within_written env { files with index := some changed } seen.id
      changed.length le_rfl
    exact iff_of_false (not_reportsLoss hwithin) (by omega)

theorem reportsLoss_check (hlost : ReportsLoss env files) (idRead : Bool) (steps : ℕ) :
    ReportsLoss env (Attempt.leave env files ⟨.checkRows, idRead, steps⟩) ↔
      recordedRows env (files.read idRead) ≠ none ∨ steps < 2 := by
  obtain ⟨rows, was, hindex, hrecorded, hfewer⟩ := reportsLoss_iff.1 hlost
  by_cases hfound : recordedRows env (files.read idRead) = none
  · have hpassed : checkRows env (files.read idRead) =
        .passed (writeRowCount env (files.read idRead) rows.length) := by
      simp [checkRows, hindex, hfound]
    simp only [Attempt.leave, Op.script, hpassed, writeRowCount, Script.stopAfter_replaceFile]
    split
    case isTrue hearly => exact iff_of_true hlost (.inr hearly)
    case isFalse hlate =>
      have hheld : (rows.length : ℤ) ≤ files.held := by rw [Files.held, hindex, getD_some]
      have hwithin := @within_written env files (files.read idRead).id rows.length hheld
      exact iff_of_false (not_reportsLoss hwithin) (by simp [hfound, hlate])
  · have hlost' : checkRows env files = .rowsLost rows.length was := by
      simp [checkRows, hindex, hrecorded, hfewer]
    simp only [Attempt.leave, Op.script, read_eq_of_found hrecorded hfound, hlost',
      Script.stopAfter_nil]
    exact iff_of_true hlost (.inl (by simp [hrecorded]))

theorem reportsLoss_leave (hlost : ReportsLoss env files) (later : Later) :
    ReportsLoss env (later.leave env files) ↔ SparesLoss env files later := by
  obtain ⟨rows, was, hindex, hrecorded, hfewer⟩ := reportsLoss_iff.1 hlost
  have hheld : files.held = rows.length := by rw [Files.held, hindex, getD_some]
  have hdeficit : deficit env files = was - rows.length := by simp [deficit, hrecorded, hheld]
  obtain ⟨request, idRead, steps⟩ := later
  cases request with
  | none =>
    refine (reportsLoss_check hlost idRead steps).trans ?_
    simp [SparesLoss, Later.FindsRecord]
  | some request =>
    have hread : (Op.write request).leaves env (files.read idRead) =
        (Op.write request).leaves env files := leaves_read (.write request) idRead
    simp only [SparesLoss, Later.leave, Later.attempt, Attempt.leave, elim_some, Later.FindsRecord]
    cases hleaves : (Op.write request).leaves env files with
    | none =>
      have hscript : (Op.write request).script env (files.read idRead) = [] := by
        simpa using script_of_leaves_none (hread.trans hleaves)
      rw [hscript, Script.stopAfter_nil]
      exact iff_of_true hlost (by simp [hleaves])
    | some changed =>
      have hsize : env.indexLen changed ≤ maxIndexLen := by
        simpa using (filter_eq_some_iff.1 hleaves).2
      rw [script_of_leaves (hread.trans hleaves)]
      by_cases hfound : recordedRows env (files.read idRead) = none
      · rw [reportsLoss_writeIndex_unread steps hindex hrecorded hfewer hfound _ hsize]
        simp [hleaves, hfound, hheld, hdeficit]
      · rw [read_eq_of_found hrecorded hfound]
        have hprev : rowsRead files = rows.length := by simp [rowsRead, hindex]
        rw [hprev, reportsLoss_writeIndex steps hindex hrecorded hfewer hsize]
        simp [hleaves, hrecorded, hheld, hdeficit]

/-- A recorded loss is reported after every call of a history exactly when every call of it
spares the loss in the state it starts from. -/
theorem loss_reported_throughout_iff (env : Env) (files : Files)
    (hlost : ReportsLoss env files) (calls : List Later) :
    Always (ReportsLoss env) (Later.leave env) files calls ↔
      EachStep (SparesLoss env) (Later.leave env) files calls := by
  apply always_iff_eachStep _ hlost
  intro before later hreports
  exact reportsLoss_leave hreports later

private def lossyFiles (recorded : ℤ) : Files :=
  { id := "s", index := some [demoRow], record := some (.count ⟨"s", "app", recorded⟩) }

private def laterPut (idRead : Bool) (steps : ℕ) : Later :=
  ⟨some (.putUntagged { demoRow.toDescriptor with digest := .sha256 2 }), idRead, steps⟩

/-- Three rows are missing, so the loss outlasts a push stopped between its two renames, a
check, and a delete stopped there that could not read the store id. -/
theorem loss_reported_through_interrupted_push :
    Always (ReportsLoss demoEnv) (Later.leave demoEnv) (lossyFiles 4)
      [laterPut true 3, ⟨none, true, 3⟩, ⟨some (.deleteDigest (.sha256 2)), false, 3⟩] :=
  (loss_reported_throughout_iff demoEnv (lossyFiles 4) ⟨1, 4, rfl⟩ _).2 (by decide)

/-- With one row missing, a push stopped between its two renames hides the loss: index.json has
its new row and the record does not count it yet, so the two agree.  So does a push that could
not read the store id and ran to its end, for the record it leaves is bound to no id. -/
theorem loss_hidden_by_interrupted_push :
    ReportsLoss demoEnv (lossyFiles 2) ∧
      ¬ Always (ReportsLoss demoEnv) (Later.leave demoEnv) (lossyFiles 2) [laterPut true 3] ∧
      ¬ Always (ReportsLoss demoEnv) (Later.leave demoEnv) (lossyFiles 2) [laterPut false 6] := by
  have hagree : RecordWithin demoEnv (Later.leave demoEnv (lossyFiles 2) (laterPut true 3)) :=
    fun count hcount => by cases hcount; decide
  have hunbound : RecordWithin demoEnv (Later.leave demoEnv (lossyFiles 2) (laterPut false 6)) :=
    fun count hcount => by cases hcount
  exact ⟨⟨1, 2, rfl⟩, fun halways => not_reportsLoss hagree halways.2,
    fun halways => not_reportsLoss hunbound halways.2⟩

end K3sm.Registry.RowRecord
