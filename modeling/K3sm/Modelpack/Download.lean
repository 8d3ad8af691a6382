import K3sm.Core.ByteSource

/-!
# A download and its hashes

The bytes of a transfer are written to the file and then to the hashes.  A write that fails stops
before the hashes, and the bytes it left in the file count as received: the next attempt asks for
what comes after them.
-/

namespace K3sm.Modelpack

open K3sm.Core.ByteSource List

variable {Byte Digest : Type*}

structure Hashing (Byte Digest : Type*) where
  sha256 : List Byte → Digest
  /-- The git blob id of a content, with the size in its header. -/
  blobId : ℕ → List Byte → Digest

/-- A file of the model's manifest. -/
structure File (Digest : Type*) where
  size : ℕ
  oid : Digest
  lfs : Option Digest
  sha256 : Option Digest

/-- The file on disk, what the verifier was given since its reset, and the bytes counted. -/
structure Progress (Byte : Type*) where
  content : List Byte
  fed : List Byte
  written : ℕ

structure Response (Byte : Type*) where
  status : ℕ
  contentRange : String
  /-- None when the server does not say. -/
  contentLength : Option ℕ
  body : Source Byte

inductive Answer (Byte : Type*)
  /-- No response; a refused redirect is not tried again. -/
  | failed (retry : Bool)
  /-- `checkHop` finds that the headers contradict the listing. -/
  | contradicts
  | response (response : Response Byte)

/-- What an attempt meets: the answer, each write with the bytes after which it fails, and how
the truncation, the seek and the close end. -/
structure Attempt (Byte : Type*) where
  answer : Answer Byte
  faults : List (Option ℕ)
  truncates : Bool
  seeks : Bool
  closes : Bool
  cancelled : Bool

def copyBufferBytes : ℕ := 2 ^ 20

/-- `io.CopyBuffer` from the limited body to the file and the verifier: whether it broke, and
the rest of the body. -/
def copyBuffer (faults : List (Option ℕ)) (left : ℕ) (source : Source Byte)
    (progress : Progress Byte) : Progress Byte × Bool × Source Byte :=
  match _hread : readLimited (some left) source copyBufferBytes with
  | (([], some ending), rest) => (progress, ending == .failed, rest)
  | (([], none), rest) => copyBuffer faults left rest progress
  | ((byte :: bytes, error), rest) =>
    let bytes := byte :: bytes
    match faults.head?.join with
    -- the verifier comes after the file and gets nothing of this piece
    | some count =>
      (⟨progress.content ++ bytes.take count, progress.fed,
        progress.written + min count bytes.length⟩, true, rest)
    | none =>
      let next := ⟨progress.content ++ bytes, progress.fed ++ bytes,
        progress.written + bytes.length⟩
      match error with
      | some ending => (next, ending == .failed, rest)
      | none => copyBuffer faults.tail (left - bytes.length) rest next
termination_by source.measure
decreasing_by
  all_goals exact readLimited_measure (Nat.two_pow_pos 20) _hread

/-- The progress, and whether a failure may be tried again. -/
abbrev Tried (Byte : Type*) := Progress Byte × Option Bool

def copyBody (file : File Digest) (response : Response Byte) (faults : List (Option ℕ))
    (progress : Progress Byte) : Tried Byte :=
  let remain := file.size - progress.written
  if response.contentLength.any (· ≠ remain) then (progress, some false)
  else
    let (after, broke, rest) := copyBuffer faults remain response.body progress
    if broke || after.written - progress.written < remain then (after, some true)
    else if (rest.read 1).1.1 ≠ [] then (after, some false)
    else (after, none)

def transfer (file : File Digest) (progress : Progress Byte) (attempt : Attempt Byte) :
    Tried Byte :=
  match attempt.answer with
  | .failed retry => (progress, some retry)
  | .contradicts => (progress, some false)
  | .response response =>
    let last : ℤ := file.size - 1
    if response.status = 200 ∧ 0 < progress.written then
      if !attempt.truncates then (progress, some false)
      else if !attempt.seeks then ({ progress with content := [] }, some false)
      else copyBody file response attempt.faults ⟨[], [], 0⟩
    else if response.status = 200 then copyBody file response attempt.faults progress
    else if response.status = 206 ∧ 0 < progress.written then
      if response.contentRange ≠ s!"bytes {progress.written}-{last}/{file.size}" then
        (progress, some false)
      else copyBody file response attempt.faults progress
    else (progress, some (500 ≤ response.status))

section Download

variable [DecidableEq Digest] (hashing : Hashing Byte Digest) (file : File Digest)

/-- `verifier.check`. -/
def check (fed : List Byte) : Option Digest :=
  let got := hashing.sha256 fed
  if file.lfs.any (· ≠ got) then none
  else if file.lfs = none ∧ hashing.blobId file.size fed ≠ file.oid then none
  else if file.sha256.any (· ≠ got) then none
  else some got

inductive Result (Digest : Type*)
  | running
  | failed
  | verified (sum : Digest)
  deriving DecidableEq

def maxAttempts : ℕ := 5

/-- The loop of `download` and what follows it, from the given attempt on. -/
def attemptAll (number : ℕ) (progress : Progress Byte) :
    List (Attempt Byte) → Result Digest × Progress Byte
  | [] => (.running, progress)
  | attempt :: rest =>
    let (after, failure) := transfer file progress attempt
    match failure with
    | some retry =>
      if !retry || attempt.cancelled || number = maxAttempts then (.failed, after)
      else attemptAll (number + 1) after rest
    | none =>
      if after.written ≠ file.size || !attempt.closes then (.failed, after)
      else
        match check hashing file after.fed with
        | none => (.failed, after)
        | some sum => (.verified sum, after)

/-- The attempts at one file, the last one's answer. -/
def download (attempts : List (Attempt Byte)) : Result Digest × Progress Byte :=
  attemptAll hashing file 1 ⟨[], [], 0⟩ attempts

end Download

/-- A write that fails leaves nothing, and a truncated file can be started over. -/
def Attempt.Whole (attempt : Attempt Byte) : Prop :=
  (∀ count, some count ∈ attempt.faults → count = 0) ∧ attempt.seeks = true

/-- The verifier was given what the file holds, and this was counted. -/
def Progress.Agrees (progress : Progress Byte) : Prop :=
  progress.fed = progress.content ∧ progress.written = progress.content.length

theorem copyBuffer_agrees {faults : List (Option ℕ)} {left : ℕ} {source : Source Byte}
    {progress : Progress Byte} (hfaults : ∀ count, some count ∈ faults → count = 0)
    (hagrees : progress.Agrees) : (copyBuffer faults left source progress).1.Agrees := by
  have hreceive : ∀ {progress : Progress Byte} (bytes : List Byte), progress.Agrees →
      Progress.Agrees ⟨progress.content ++ bytes, progress.fed ++ bytes,
        progress.written + bytes.length⟩ := by
    intro progress bytes hagrees
    exact ⟨congrArg (· ++ bytes) hagrees.1, by rw [hagrees.2, length_append]⟩
  fun_induction copyBuffer faults left source progress with
  | case1 => exact hagrees
  | case2 _ _ _ _ _ _ ih => exact ih hfaults hagrees
  | case3 faults _ _ progress byte bytes _ _ _ _ count hfault =>
    have hhead := Option.join_eq_some_iff.1 hfault
    rw [hfaults count (mem_of_mem_head? hhead)]
    simpa [Progress.Agrees] using hagrees
  | case4 => exact hreceive _ hagrees
  | case5 faults _ _ _ _ _ _ _ _ _ _ _ ih =>
    exact ih (fun count hcount => hfaults count (mem_of_mem_tail hcount)) (hreceive _ hagrees)

theorem copyBody_agrees {file : File Digest} {response : Response Byte} {faults : List (Option ℕ)}
    {progress : Progress Byte} (hfaults : ∀ count, some count ∈ faults → count = 0)
    (hagrees : progress.Agrees) : (copyBody file response faults progress).1.Agrees := by
  unfold copyBody
  dsimp only
  split_ifs
  · exact hagrees
  all_goals exact copyBuffer_agrees hfaults hagrees

theorem transfer_agrees {file : File Digest} {progress : Progress Byte} {attempt : Attempt Byte}
    (hwhole : attempt.Whole) (hagrees : progress.Agrees) :
    (transfer file progress attempt).1.Agrees := by
  unfold transfer
  split
  · exact hagrees
  · exact hagrees
  dsimp only
  split_ifs with _ _ hseeks
  · exact hagrees
  · simp [hwhole.2] at hseeks
  · exact copyBody_agrees hwhole.1 ⟨rfl, rfl⟩
  · exact copyBody_agrees hwhole.1 hagrees
  · exact hagrees
  · exact copyBody_agrees hwhole.1 hagrees
  · exact hagrees

/-- A file that is as it was listed, with its sum. -/
structure Verified (hashing : Hashing Byte Digest) (file : File Digest) (content : List Byte)
    (sum : Digest) : Prop where
  size : content.length = file.size
  sum : sum = hashing.sha256 content
  lfs : ∀ oid ∈ file.lfs, oid = hashing.sha256 content
  blob : file.lfs = none → file.oid = hashing.blobId file.size content
  given : ∀ sum ∈ file.sha256, sum = hashing.sha256 content

variable [DecidableEq Digest]

theorem verified_of_check {hashing : Hashing Byte Digest} {file : File Digest} {content : List Byte}
    {sum : Digest} (hsize : content.length = file.size)
    (hcheck : check hashing file content = some sum) : Verified hashing file content sum := by
  unfold check at hcheck
  dsimp only at hcheck
  split_ifs at hcheck with hlfs hblob hgiven
  cases hcheck
  refine ⟨hsize, rfl, ?_, ?_, ?_⟩
  · simpa [Option.any_eq_true] using hlfs
  · intro hnone
    simpa [hnone, eq_comm] using hblob
  · simpa [Option.any_eq_true] using hgiven

theorem attemptAll_agrees (hashing : Hashing Byte Digest) (file : File Digest) {number : ℕ}
    {progress : Progress Byte} {attempts : List (Attempt Byte)}
    (hwhole : ∀ attempt ∈ attempts, attempt.Whole) (hagrees : progress.Agrees) :
    (attemptAll hashing file number progress attempts).2.Agrees ∧
      ∀ sum, (attemptAll hashing file number progress attempts).1 = .verified sum →
        Verified hashing file (attemptAll hashing file number progress attempts).2.content sum := by
  induction attempts generalizing number progress with
  | nil => exact ⟨hagrees, nofun⟩
  | cons attempt rest ih =>
    obtain ⟨hfirst, hrest⟩ := forall_mem_cons.1 hwhole
    have hafter : (transfer file progress attempt).1.Agrees := transfer_agrees hfirst hagrees
    simp only [attemptAll]
    split
    · split_ifs
      · exact ⟨hafter, nofun⟩
      · exact ih hrest hafter
    split_ifs with hbad
    · exact ⟨hafter, nofun⟩
    split
    · exact ⟨hafter, nofun⟩
    rename_i sum hcheck
    refine ⟨hafter, ?_⟩
    rintro _ ⟨⟩
    simp only [Bool.or_eq_true, decide_eq_true_eq, not_or, not_not] at hbad
    rw [hafter.1] at hcheck
    exact verified_of_check (hafter.2.symm.trans hbad.1) hcheck

/-- After every attempt the hashes are those of the file, and a file that passes is as it was
listed, as long as no write fails after a part of its bytes and every restart comes through. -/
theorem download_holds_verified (hashing : Hashing Byte Digest) (file : File Digest)
    (attempts : List (Attempt Byte)) (hwhole : ∀ attempt ∈ attempts, attempt.Whole) :
    hashing.sha256 (download hashing file attempts).2.fed =
        hashing.sha256 (download hashing file attempts).2.content ∧
      hashing.blobId file.size (download hashing file attempts).2.fed =
        hashing.blobId file.size (download hashing file attempts).2.content ∧
      ∀ sum, (download hashing file attempts).1 = .verified sum →
        Verified hashing file (download hashing file attempts).2.content sum := by
  have hstart : Progress.Agrees (⟨[], [], 0⟩ : Progress Byte) := ⟨rfl, rfl⟩
  obtain ⟨hagrees, hverified⟩ := attemptAll_agrees hashing file hwhole hstart
  exact ⟨congrArg _ hagrees.1, congrArg _ hagrees.1, hverified⟩

def plainHashing : Hashing ℕ (List ℕ) := ⟨id, fun size bytes => size :: bytes⟩

/-- Four bytes, of which the first attempt gets two. -/
def resumed (first : Source ℕ) (faults : List (Option ℕ)) : List (Attempt ℕ) :=
  [⟨.response ⟨200, "", some 4, first⟩, faults, true, true, true, false⟩,
    ⟨.response ⟨206, "bytes 2-3/4", some 2, ⟨[[3, 4]], .eof, false⟩⟩, [], true, true, true, false⟩]

theorem broken_body_resumed : Verified plainHashing ⟨4, [], some [1, 2, 3, 4], none⟩
    (download plainHashing ⟨4, [], some [1, 2, 3, 4], none⟩
      (resumed ⟨[[1, 2]], .failed, false⟩ [])).2.content [1, 2, 3, 4] :=
  (download_holds_verified plainHashing ⟨4, [], some [1, 2, 3, 4], none⟩
    (resumed ⟨[[1, 2]], .failed, false⟩ []) (by simp [resumed, Attempt.Whole])).2.2 [1, 2, 3, 4]
    (by decide +kernel)

/-- The first write fails after two bytes, of which the hashes get none.  After the second attempt
the sum is that of the other two. -/
theorem short_write_unverified : ∃ file attempts sum,
    plainHashing.sha256 (download plainHashing file (attempts.take 1)).2.fed ≠
        plainHashing.sha256 (download plainHashing file (attempts.take 1)).2.content ∧
      (download plainHashing file attempts).1 = .verified sum ∧
      sum ≠ plainHashing.sha256 (download plainHashing file attempts).2.content :=
  ⟨⟨4, [], some [3, 4], none⟩, resumed ⟨[[1, 2, 3, 4]], .eof, false⟩ [some 2], [3, 4],
    by decide +kernel⟩

end K3sm.Modelpack
