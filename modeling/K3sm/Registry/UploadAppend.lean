import K3sm.Core.ByteSource

/-!
# Appending to an upload

A chunk is appended to the session's file up to the room its limit leaves, and one more byte is
asked for then: a chunk that has it is refused, and the file is cut back.  The reader may deliver
in any pieces and fail at any byte, and so may the writes.
-/

namespace K3sm.Registry.UploadAppend

open K3sm.Core.ByteSource

variable {Byte : Type}

inductive AppendError where
  | invalidName
  | uploadUnknown
  | openFailed
  | lockFailed
  | statFailed
  | offsetMismatch
  | readFailed
  | writeFailed
  | truncateFailed
  | uploadTooLarge
  deriving DecidableEq

inductive Opened where
  | file
  | absent
  | failed
  deriving DecidableEq

/-- What `openUpload` finds.  `links` and `same` are what the stats say: the links of the open
file, and whether the path is still that regular file. -/
structure Opening where
  path : Bool
  opened : Opened
  locked : Bool
  links : Option ℕ
  same : Option Bool
  deriving DecidableEq

def checkSession (opening : Opening) (shared : Bool) : Bool :=
  match opening.links, opening.same with
  | some links, some true => shared || links == 1
  | _, _ => false

def openUpload (opening : Opening) (shared : Bool) : Option AppendError :=
  if opening.path = false then some .invalidName
  else match opening.opened with
    | .absent => some .uploadUnknown
    | .failed => some .openFailed
    | .file =>
      if opening.locked = false then some .lockFailed
      else if checkSession opening shared = false then some .uploadUnknown
      else none

/-- A session: its file, how its writes go, and whether it can be opened, measured and cut. -/
structure Session (Byte : Type) extends Sink Byte where
  opening : Opening
  measured : Bool
  truncates : Bool

structure Appended (Byte : Type) where
  length : ℤ
  error : Option AppendError
  content : List Byte

def copyError : CopyError → AppendError
  | .read => .readFailed
  | .write => .writeFailed

/-- What comes after the copy up to the limit: the byte that must not be there. -/
def pastRoom (session : Session Byte) (room : ℕ) (copied : Copied Byte) : Appended Byte :=
  let size : ℤ := session.content.length
  if copied.written = room then
    match probe copied.source with
    | none =>
      if session.truncates then
        ⟨size, some .uploadTooLarge, copied.sink.content.take session.content.length⟩
      else ⟨size + copied.written, some .truncateFailed, copied.sink.content⟩
    | some .failed => ⟨size + copied.written, some .readFailed, copied.sink.content⟩
    | some .eof => ⟨size + copied.written, none, copied.sink.content⟩
  else ⟨size + copied.written, none, copied.sink.content⟩

/-- Appends at the offset, and takes the length back on failure. -/
def appendUploadLimit (session : Session Byte) (offset limit : ℤ) (source : Source Byte) :
    Appended Byte :=
  match openUpload session.opening false with
  | some cause => ⟨0, some cause, session.content⟩
  | none =>
    if session.measured = false then ⟨0, some .statFailed, session.content⟩
    else
      let size : ℤ := session.content.length
      if 0 ≤ offset ∧ offset ≠ size then ⟨size, some .offsetMismatch, session.content⟩
      else if limit < 0 then
        let copied := copy ⟨none, source, session.toSink, 0⟩
        ⟨size + copied.written, copied.error.map copyError, copied.sink.content⟩
      else
        let room := (max (limit - size) 0).toNat
        let copied := copy ⟨some room, source, session.toSink, 0⟩
        match copied.error with
        | some cause => ⟨size + copied.written, some (copyError cause), copied.sink.content⟩
        | none => pastRoom session room copied

/-- The session's file can be opened and measured. -/
def Session.Usable (session : Session Byte) : Prop :=
  openUpload session.opening false = none ∧ session.measured = true

/-- What a chunk leaves in the file: all of it, none of it, or its first bytes. -/
def Keeps (content : List Byte) (limit : ℤ) (source : Source Byte) (appended : Appended Byte) :
    Prop :=
  match appended.error with
  | none =>
    appended.content = content ++ source.bytes ∧ source.ending = .eof ∧
      (0 ≤ limit → (appended.content.length : ℤ) ≤ limit ∨
        limit < content.length ∧ appended.content = content)
  | some .offsetMismatch | some .uploadTooLarge => appended.content = content
  | some _ => ∃ taken, taken <+: source.bytes ∧ appended.content = content ++ taken

/-- The answered length is that of the file. -/
def Measures (appended : Appended Byte) : Prop :=
  appended.error ≠ some .writeFailed → appended.error ≠ some .truncateFailed →
    appended.length = appended.content.length

section Append

variable {session : Session Byte} {limit : ℤ} {source : Source Byte} {copied : Copied Byte}
  {taken : List Byte} {left : Option ℕ}

theorem keeps_unchanged (content : List Byte) (limit : ℤ) (source : Source Byte) (length : ℤ)
    (cause : AppendError) : Keeps content limit source ⟨length, some cause, content⟩ := by
  have hnothing : ∃ taken, taken <+: source.bytes ∧ content = content ++ taken :=
    ⟨[], List.nil_prefix, (List.append_nil _).symm⟩
  cases cause with
  | offsetMismatch | uploadTooLarge => rfl
  | _ => exact hnothing

theorem keeps_of_copy_failed (hcopies : Copies ⟨left, source, session.toSink, 0⟩ copied taken)
    (cause : CopyError) :
    Keeps session.content limit source
      ⟨session.content.length + copied.written, some (copyError cause), copied.sink.content⟩ ∧
    Measures (Appended.mk (session.content.length + copied.written : ℤ) (some (copyError cause))
      copied.sink.content) := by
  have hcontent : copied.sink.content = session.content ++ taken := hcopies.content
  have hwritten : copied.written = taken.length := by rw [hcopies.written, Nat.zero_add]
  refine ⟨?_, ?_⟩
  · cases cause with
    | read | write => exact ⟨taken, hcopies.front, hcontent⟩
  · intro _ _
    simp [hcontent, hwritten]

theorem keeps_of_copy_done (hcopies : Copies ⟨none, source, session.toSink, 0⟩ copied taken)
    (hunlimited : limit < 0) (hnone : copied.error = none) :
    Keeps session.content limit source
      ⟨session.content.length + copied.written, none, copied.sink.content⟩ ∧
    Measures (Appended.mk (session.content.length + copied.written : ℤ) none
      copied.sink.content) := by
  have hcontent : copied.sink.content = session.content ++ taken := hcopies.content
  have hwritten : copied.written = taken.length := by rw [hcopies.written, Nat.zero_add]
  have hbytes : source.bytes = taken ++ copied.source.bytes := hcopies.rest hnone
  obtain ⟨hrest, heof⟩ := (hcopies.stopped hnone).resolve_left nofun
  refine ⟨⟨?_, heof, fun hlimit => absurd hlimit (by omega)⟩, fun _ _ => ?_⟩
  · rw [hcontent, hbytes, hrest, List.append_nil]
  · simp [hcontent, hwritten]

theorem keeps_pastRoom
    (hcopies : Copies ⟨some (max (limit - session.content.length) 0).toNat, source,
      session.toSink, 0⟩
      copied taken) (hnone : copied.error = none) :
    Keeps session.content limit source
      (pastRoom session (max (limit - session.content.length) 0).toNat copied) ∧
    Measures (pastRoom session (max (limit - session.content.length) 0).toNat copied) := by
  have hcontent : copied.sink.content = session.content ++ taken := hcopies.content
  have hwritten : copied.written = taken.length := by rw [hcopies.written, Nat.zero_add]
  have hbytes : source.bytes = taken ++ copied.source.bytes := hcopies.rest hnone
  have hroom := hcopies.limited _ rfl
  have hending : copied.source.ending = source.ending := hcopies.ending
  -- a chunk that went in whole
  have hsuccess : copied.source.bytes = [] → source.ending = .eof →
      Keeps session.content limit source ⟨session.content.length + copied.written, none,
        copied.sink.content⟩ := by
    intro hrest heof
    have hall : taken = source.bytes := by rw [hbytes, hrest, List.append_nil]
    refine ⟨by rw [hcontent, hall], heof, fun _ => ?_⟩
    dsimp only
    rw [hcontent]
    by_cases hover : limit < session.content.length
    · right
      have hempty : taken = [] := List.length_eq_zero_iff.1 (by omega)
      exact ⟨hover, by rw [hempty, List.append_nil]⟩
    · left
      rw [List.length_append]
      omega
  unfold pastRoom
  dsimp only
  split
  case isFalse hshort =>
    rcases hcopies.stopped hnone with hstopped | ⟨hrest, heof⟩
    · exact absurd (hwritten.trans (Option.some.inj hstopped).symm) hshort
    · refine ⟨hsuccess hrest heof, fun _ _ => ?_⟩
      simp [hcontent, hwritten]
  rename_i hfull
  rcases probe_spec copied.source with ⟨hprobe, -⟩ | ⟨hprobe, hrest⟩
  · rw [hprobe]
    dsimp only
    split
    case isTrue =>
      have hcut : copied.sink.content.take session.content.length = session.content := by
        rw [hcontent, List.take_left]
      exact ⟨hcut, fun _ _ => by dsimp only; rw [hcut]⟩
    case isFalse =>
      refine ⟨⟨taken, hcopies.front, hcontent⟩, ?_⟩
      exact fun _ htruncate => absurd rfl htruncate
  · rw [hprobe, hending]
    rcases hsource : source.ending with _ | _
    · refine ⟨hsuccess hrest hsource, fun _ _ => ?_⟩
      simp [hcontent, hwritten]
    · refine ⟨⟨taken, hcopies.front, hcontent⟩, fun _ _ => ?_⟩
      simp [hcontent, hwritten]

/-- A refused chunk leaves the session as it was, a failed one its first bytes there, and one
that succeeds all of it; the returned length is the session's where nothing failed on it. -/
theorem append_upload_limit_atomic (session : Session Byte) (offset limit : ℤ)
    (source : Source Byte) :
    Keeps session.content limit source (appendUploadLimit session offset limit source) ∧
    (session.Usable → Measures (appendUploadLimit session offset limit source)) ∧
    (¬ session.Usable → (appendUploadLimit session offset limit source).length = 0 ∧
      (appendUploadLimit session offset limit source).content = session.content) := by
  unfold Session.Usable appendUploadLimit
  rcases hopen : openUpload session.opening false with _ | cause
  · rcases hmeasured : session.measured with _ | _
    · refine ⟨keeps_unchanged _ _ _ _ _, ?_, fun _ => ⟨rfl, rfl⟩⟩
      rintro ⟨-, ⟨⟩⟩
    suffices hsuffices : Keeps session.content limit source _ ∧ Measures _ from
      ⟨hsuffices.1, fun _ => hsuffices.2, fun hunusable => absurd ⟨rfl, rfl⟩ hunusable⟩
    dsimp only
    rw [if_neg nofun]
    by_cases hoffset : 0 ≤ offset ∧ offset ≠ session.content.length
    · rw [if_pos hoffset]
      exact ⟨rfl, fun _ _ => rfl⟩
    rw [if_neg hoffset]
    by_cases hunlimited : limit < 0
    · rw [if_pos hunlimited]
      obtain ⟨taken, hcopies⟩ := copy_spec ⟨none, source, session.toSink, 0⟩
      rcases herror : (copy ⟨none, source, session.toSink, 0⟩).error with _ | cause
      · exact keeps_of_copy_done hcopies hunlimited herror
      · exact keeps_of_copy_failed hcopies cause
    · rw [if_neg hunlimited]
      obtain ⟨taken, hcopies⟩ := copy_spec ⟨some (max (limit - session.content.length) 0).toNat,
        source, session.toSink, 0⟩
      rcases herror : (copy ⟨some (max (limit - session.content.length) 0).toNat, source,
        session.toSink, 0⟩).error with _ | cause
      · exact keeps_pastRoom hcopies herror
      · exact keeps_of_copy_failed hcopies cause
  · refine ⟨keeps_unchanged _ _ _ _ _, ?_, fun _ => ⟨rfl, rfl⟩⟩
    rintro ⟨⟨⟩, -⟩

/-- A session of three bytes whose lock was not to be had before the request ended. -/
def busySession : Session ℕ where
  content := [1, 2, 3]
  faults := []
  opening := ⟨true, .file, false, some 1, some true⟩
  measured := true
  truncates := true

/-- Nothing was written or cut, and the length that is returned is not the session's. -/
theorem busy_session_length :
    ¬ Measures (appendUploadLimit busySession 3 8 ⟨[[4]], .eof, false⟩) := by
  intro hmeasures
  exact absurd (hmeasures nofun nofun) (by decide)

/-- Where the session can be opened, one byte too many is refused and cut away. -/
theorem usable_session_refuses :
    (Session.Usable { busySession with opening := ⟨true, .file, true, some 1, some true⟩ }) ∧
    Measures (appendUploadLimit
      { busySession with opening := ⟨true, .file, true, some 1, some true⟩ }
      3 4 ⟨[[4], [], [5]], .eof, false⟩) :=
  ⟨⟨rfl, rfl⟩, (append_upload_limit_atomic _ 3 4 _).2.1 ⟨rfl, rfl⟩⟩

end Append

end K3sm.Registry.UploadAppend
