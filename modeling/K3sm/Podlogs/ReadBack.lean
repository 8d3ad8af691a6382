import K3sm.Core.Lines

/-!
# Container logs are read back

A log file holds one CRI line after another: a timestamp, the stream, tags and the content.  A
read finds the start of the last lines by going back through the file in blocks, whatever the
lines are to the blocks, and from there on renders those that are late enough onto the two sinks,
up to the byte limit.

A container's line may be cut into fragments, and lines of the two streams may stand between
them.  The reader stamps a line when the one before it in the file, of whichever stream, wrote
a line end or nothing.  That is the start of a line of its own stream only when the two agree.
-/

namespace K3sm.Podlogs

open K3sm.Core

abbrev Bytes := List UInt8

def ascii (text : String) : Bytes := text.toList.map fun char => char.toNat.toUInt8

def eol : UInt8 := 10

def delimiter : UInt8 := 32

def tagDelimiter : UInt8 := 58

def tagPartial : Bytes := ascii "P"

def blockSize : ℕ := 1024

def maxInt64 : ℕ := 2 ^ 63 - 1

inductive LogStream
  | stdout
  | stderr
  deriving DecidableEq

def LogStream.tag : LogStream → Bytes
  | .stdout => ascii "stdout"
  | .stderr => ascii "stderr"

/-- The options of a read that does not follow.  The tail and the limit may be unset. -/
structure Options where
  tailLines : Option ℤ
  limitBytes : Option ℕ
  since : ℤ
  timestamps : Bool

/-- The timestamps: how one is parsed, to an instant, and how one is printed. -/
structure TimeFormat where
  parse : Bytes → Option ℤ
  format : ℤ → Bytes

structure LogMessage where
  timestamp : ℤ
  stream : LogStream
  log : Bytes

/-- The blocks of the file from its end, until more than `n` line ends are seen: the start of
the last block, the line ends seen and the block. -/
def scanBack (file : Bytes) (n : ℕ) (right left count : ℕ) (block : Bytes) : ℕ × ℕ × Bytes :=
  if 0 < right ∧ count ≤ n then
    let start := right - blockSize
    let bytes := (file.drop start).take (right - start)
    scanBack file n (right - blockSize) start (count + bytes.count eol) bytes
  else (left, count, block)
termination_by right
decreasing_by
  have : 0 < blockSize := by decide
  omega

/-- One past the first line end of a block, and zero when it has none. -/
def pastEol (block : Bytes) : ℕ :=
  if eol ∈ block then (block.takeWhile (· ≠ eol)).length + 1 else 0

def skipLines : ℕ → Bytes → ℕ → ℕ
  | 0, _, left => left
  | extra + 1, block, left => skipLines extra (block.drop (pastEol block)) (left + pastEol block)

/-- Where the last lines of a file begin. -/
def findTailLineStartIndex (file : Bytes) (n : ℤ) : ℕ :=
  if n < 0 then 0
  else
    let (left, count, block) := scanBack file n.toNat file.length 0 0 []
    skipLines (count - n.toNat) block left

/-- What stands before the first delimiter, and what stands after it. -/
def cutDelimiter (log : Bytes) : Option (Bytes × Bytes) :=
  if delimiter ∈ log then
    some (log.takeWhile (· ≠ delimiter), (log.dropWhile (· ≠ delimiter)).tail)
  else none

def parseStream (tag : Bytes) : Option LogStream :=
  if tag = LogStream.stdout.tag then some .stdout
  else if tag = LogStream.stderr.tag then some .stderr
  else none

/-- The last line end of a fragment is the file's and not the container's. -/
def chomp (log : Bytes) : Bytes := if log.getLast? = some eol then log.dropLast else log

def parseCRILog (time : TimeFormat) (log : Bytes) : Option LogMessage := do
  let (stamp, afterStamp) ← cutDelimiter log
  let timestamp ← time.parse stamp
  let (name, afterName) ← cutDelimiter afterStamp
  let stream ← parseStream name
  let (tags, content) ← cutDelimiter afterName
  let first := tags.takeWhile (· ≠ tagDelimiter)
  return ⟨timestamp, stream, if first = tagPartial then chomp content else content⟩

structure ReadState where
  /-- The format of the file is known. -/
  parsed : Bool
  limitedNum : ℤ
  remain : ℕ
  isNewLine : Bool

inductive ReadEnd
  | done
  | unsupportedFormat
  deriving DecidableEq

abbrev Written := List (LogStream × Bytes)

section Read

variable (time : TimeFormat) (opts : Options) (asked : LogStream → Bool)

/-- The writes of one message, the bytes that remain, and whether the limit is reached.  A
stream nobody asked for is neither written nor charged. -/
def write (remain : ℕ) (message : LogMessage) (addStamp : Bool) : Written × ℕ × Bool :=
  if message.timestamp < opts.since then ([], remain, false)
  else
    let line := if opts.timestamps && addStamp then
        time.format message.timestamp ++ delimiter :: message.log
      else message.log
    let cut := line.take remain
    if !asked message.stream then ([], remain, false)
    else ([(message.stream, cut)], remain - cut.length, remain - cut.length = 0)

def endsLine (log : Bytes) : Bool := log = [] || log.getLast? = some eol

def readLoop (state : ReadState) : List Bytes → Written × ReadEnd
  | [] => ([], .done)
  | line :: lines =>
    if opts.tailLines.isSome && state.limitedNum = 0 then ([], .done)
    else
      match parseCRILog time line with
      | none =>
        if state.parsed then readLoop state lines else ([], .unsupportedFormat)
      | some message =>
        let (written, remain, full) := write time opts asked state.remain message state.isNewLine
        if full then (written, .done)
        else
          let rest := readLoop ⟨true, state.limitedNum - 1, remain, endsLine message.log⟩ lines
          (written ++ rest.1, rest.2)

/-- `ReadLogs` of a file, without follow. -/
def readLogs (file : Bytes) : Written × ReadEnd :=
  let tail := opts.tailLines.getD (-1)
  let start := findTailLineStartIndex file tail
  readLoop time opts asked ⟨false, tail, opts.limitBytes.getD maxInt64, true⟩
    (Lines.splitAfter eol (file.drop start))

end Read

open K3sm.Core.Lines List

structure Scanned (file : Bytes) (n right left count : ℕ) (block : Bytes) : Prop where
  bound : right ≤ file.length
  count_eq : count = (file.drop right).count eol
  fresh : (left = right ∧ ∃ rest, file.drop right = block ++ rest ∧ rest.count eol ≤ n) ∨
    (left = 0 ∧ count = 0)

theorem Scanned.step {file : Bytes} {n right left count : ℕ} {block : Bytes}
    (hscanned : Scanned file n right left count block) (hcount : count ≤ n) :
    Scanned file n (right - blockSize) (right - blockSize)
      (count + ((file.drop (right - blockSize)).take (right - (right - blockSize))).count eol)
      ((file.drop (right - blockSize)).take (right - (right - blockSize))) := by
  have hbound := hscanned.bound
  have hsplit : file.drop (right - blockSize) =
      (file.drop (right - blockSize)).take (right - (right - blockSize)) ++ file.drop right := by
    have hrest : (file.drop (right - blockSize)).drop (right - (right - blockSize)) =
        file.drop right := by
      have hstop : right - blockSize + (right - (right - blockSize)) = right := by omega
      rw [drop_drop, hstop]
    rw [← hrest, take_append_drop]
  refine ⟨by omega, ?_, .inl ⟨rfl, file.drop right, hsplit, ?_⟩⟩
  · rw [congrArg (List.count eol) hsplit, count_append, ← hscanned.count_eq, Nat.add_comm]
  · rw [← hscanned.count_eq]
    exact hcount

theorem scanBack_scanned (file : Bytes) (n right left count : ℕ) (block : Bytes)
    (hscanned : Scanned file n right left count block) :
    ∃ stop, (stop = 0 ∨ n < (scanBack file n right left count block).2.1) ∧
      Scanned file n stop (scanBack file n right left count block).1
        (scanBack file n right left count block).2.1
        (scanBack file n right left count block).2.2 := by
  induction right using Nat.strong_induction_on generalizing left count block with
  | _ right ih =>
    by_cases hmore : 0 < right ∧ count ≤ n
    · rw [scanBack, if_pos hmore]
      have hsmaller : right - blockSize < right := by
        have : 0 < blockSize := by decide
        omega
      exact ih _ hsmaller _ _ _ (hscanned.step hmore.2)
    · rw [scanBack, if_neg hmore]
      have hstop : right = 0 ∨ n < count := by omega
      exact ⟨right, hstop, hscanned⟩

theorem pastEol_append {front : Bytes} (hfront : eol ∉ front) (back : Bytes) :
    pastEol (front ++ eol :: back) = front.length + 1 := by
  have htake : (front ++ eol :: back).takeWhile (· ≠ eol) = front := by
    rw [takeWhile_append_of_pos, takeWhile_cons_of_neg (by simp), append_nil]
    intro byte hbyte
    exact decide_eq_true fun heq => hfront (heq ▸ hbyte)
  rw [pastEol, if_pos (by simp), htake]

theorem exists_line_of_count {n : ℕ} {text block rest : Bytes} (htext : text = block ++ rest)
    (hrest : rest.count eol ≤ n) (hcount : n < text.count eol) :
    ∃ front back, block = front ++ eol :: back ∧ eol ∉ front := by
  rw [htext, count_append] at hcount
  have hmem : eol ∈ block := count_pos_iff.1 (by omega)
  exact eq_append_cons_of_mem hmem

theorem skipLines_after {file : Bytes} {n : ℕ} (extra : ℕ) {left : ℕ} {block rest : Bytes}
    (hbound : left ≤ file.length) (hdrop : file.drop left = block ++ rest)
    (hrest : rest.count eol ≤ n) (hcount : (file.drop left).count eol = n + (extra + 1)) :
    After eol file n (skipLines (extra + 1) block left) := by
  -- the text after the first line of the block
  have hnextOf : ∀ {left : ℕ} {front back : Bytes}, file.drop left = front ++ eol :: back ++ rest →
      file.drop (left + (front.length + 1)) = back ++ rest := by
    intro left front back hsplit
    rw [← drop_drop, hsplit, append_assoc, drop_append]
    simp
  have hcountOf : ∀ {left : ℕ} {front back : Bytes}, file.drop left = front ++ eol :: back ++ rest →
      eol ∉ front → (file.drop left).count eol =
        (file.drop (left + (front.length + 1))).count eol + 1 := by
    intro left front back hsplit hfront
    rw [hnextOf hsplit, hsplit, append_assoc, count_append, count_eq_zero.2 hfront,
      cons_append, count_cons_self, Nat.zero_add]
  induction extra generalizing left block with
  | zero =>
    obtain ⟨front, back, rfl, hfront⟩ := exists_line_of_count hdrop hrest (by omega)
    have hnext := hnextOf hdrop
    rw [hcountOf hdrop hfront] at hcount
    rw [skipLines, skipLines, pastEol_append hfront]
    refine ⟨?_, ⟨file.take left ++ front, ?_⟩, ?_⟩
    · have hlength := congrArg List.length hdrop
      rw [length_drop, append_assoc, length_append, cons_append, length_cons] at hlength
      omega
    · rw [take_add, hdrop, append_assoc, append_assoc]
      congr 1
      simp [take_append]
    · omega
  | succ extra ih =>
    obtain ⟨front, back, rfl, hfront⟩ := exists_line_of_count hdrop hrest (by omega)
    rw [hcountOf hdrop hfront] at hcount
    rw [skipLines, pastEol_append hfront]
    have hback : (front ++ eol :: back).drop (front.length + 1) = back := by
      rw [drop_append]
      simp
    rw [hback]
    refine ih ?_ (hnextOf hdrop) (by omega)
    have hlength := congrArg List.length hdrop
    rw [length_drop, append_assoc, length_append, cons_append, length_cons] at hlength
    omega

theorem findTailLineStartIndex_tailStart (file : Bytes) (n : ℕ) :
    TailStart eol file n (findTailLineStartIndex file n) := by
  have hstart : Scanned file n file.length 0 0 [] :=
    ⟨le_rfl, by simp, .inr ⟨rfl, rfl⟩⟩
  obtain ⟨stop, hstop, hscanned⟩ := scanBack_scanned file n file.length 0 0 [] hstart
  have hindex : findTailLineStartIndex file n =
      skipLines ((scanBack file n file.length 0 0 []).2.1 - n)
        (scanBack file n file.length 0 0 []).2.2 (scanBack file n file.length 0 0 []).1 := by
    simp [findTailLineStartIndex]
  rw [hindex]
  generalize scanBack file n file.length 0 0 [] = result at hstop hscanned
  obtain ⟨left, count, block⟩ := result
  simp only at hstop hscanned ⊢
  have hmore : (file.drop stop).count eol ≤ file.count eol :=
    (drop_sublist stop file).count_le eol
  constructor
  · intro hfew
    have hcount : count ≤ n := by rw [hscanned.count_eq]; omega
    rw [Nat.sub_eq_zero_of_le hcount, skipLines]
    rcases hscanned.fresh with ⟨hleft, -⟩ | ⟨hleft, -⟩
    · omega
    · exact hleft
  intro hmany
  have hcount : n < count := by
    rcases hstop with hzero | hover
    · rw [hscanned.count_eq, hzero, drop_zero]
      exact hmany
    · exact hover
  rcases hscanned.fresh with ⟨rfl, rest, hdrop, hrest⟩ | ⟨-, hzero⟩
  · obtain ⟨extra, hextra⟩ : ∃ extra, count - n = extra + 1 := ⟨count - n - 1, by omega⟩
    rw [hextra]
    refine skipLines_after extra hscanned.bound hdrop hrest ?_
    rw [← hscanned.count_eq]
    omega
  · omega

/-- A line of a CRI log whose stamp parses. -/
structure CriLine (time : TimeFormat) where
  stamp : Bytes
  timestamp : ℤ
  parses : time.parse stamp = some timestamp
  stampPlain : delimiter ∉ stamp ∧ eol ∉ stamp
  stream : LogStream
  tags : Bytes
  tagsPlain : delimiter ∉ tags ∧ eol ∉ tags
  text : Bytes
  textPlain : eol ∉ text

namespace CriLine

variable {time : TimeFormat} (line : CriLine time)

def body : Bytes :=
  line.stamp ++ delimiter :: (line.stream.tag ++ delimiter :: (line.tags ++ delimiter :: line.text))

/-- What the container wrote: a fragment goes on in the next line, and all other lines end. -/
def content : Bytes :=
  if line.tags.takeWhile (· ≠ tagDelimiter) = tagPartial then line.text else line.text ++ [eol]

def message : LogMessage := ⟨line.timestamp, line.stream, line.content⟩

theorem eol_not_mem_body : eol ∉ line.body := by
  have htag : eol ∉ line.stream.tag := by
    cases line.stream <;> decide
  have hmark : eol ≠ delimiter := by decide
  simp [body, line.stampPlain.2, htag, line.tagsPlain.2, line.textPlain, hmark]

end CriLine

theorem cutDelimiter_append {front : Bytes} (hfront : delimiter ∉ front) (back : Bytes) :
    cutDelimiter (front ++ delimiter :: back) = some (front, back) := by
  have hall : ∀ byte ∈ front, decide (byte ≠ delimiter) = true := by
    intro byte hbyte
    exact decide_eq_true fun heq => hfront (heq ▸ hbyte)
  have htake : (front ++ delimiter :: back).takeWhile (· ≠ delimiter) = front := by
    rw [takeWhile_append_of_pos hall, takeWhile_cons_of_neg (by simp), append_nil]
  have hdrop : (front ++ delimiter :: back).dropWhile (· ≠ delimiter) = delimiter :: back := by
    rw [dropWhile_append_of_pos hall, dropWhile_cons_of_neg (by simp)]
  rw [cutDelimiter, if_pos (by simp), htake, hdrop, tail_cons]

theorem parseStream_tag (stream : LogStream) : parseStream stream.tag = some stream := by
  cases stream <;> decide

theorem parseCRILog_line {time : TimeFormat} (line : CriLine time) :
    parseCRILog time (line.body ++ [eol]) = some line.message := by
  have htag : delimiter ∉ line.stream.tag := by
    cases line.stream <;> decide
  have hchomp : chomp (line.text ++ [eol]) = line.text := by
    simp [chomp]
  simp only [CriLine.body, append_assoc, cons_append, parseCRILog,
    cutDelimiter_append line.stampPlain.1, cutDelimiter_append htag,
    cutDelimiter_append line.tagsPlain.1, line.parses, parseStream_tag, Option.bind_eq_bind,
    Option.bind_some, hchomp]
  rfl

section Read

variable {time : TimeFormat} {opts : Options} {asked : LogStream → Bool}

/-- The bytes of the writes, each with the sink it goes to. -/
def sent (written : Written) : List (LogStream × UInt8) :=
  written.flatMap fun write => write.2.map fun byte => (write.1, byte)

def shows (opts : Options) (asked : LogStream → Bool) (line : CriLine time) : Bool :=
  opts.since ≤ line.timestamp && asked line.stream

/-- The bytes of the lines that the options show. -/
def wanted (opts : Options) (asked : LogStream → Bool) (lines : List (CriLine time)) :
    List (LogStream × UInt8) :=
  (lines.filter (shows opts asked)).flatMap fun line =>
    line.content.map fun byte => (line.stream, byte)

/-- The last lines of a file; all of them when the number is unset or negative. -/
def lastLines {Line : Type*} (tailLines : Option ℤ) (lines : List Line) : List Line :=
  match tailLines with
  | none => lines
  | some n => if n < 0 then lines else lines.drop (lines.length - n.toNat)

theorem write_of_not_shows {line : CriLine time} (hshows : ¬ shows opts asked line = true)
    (remain : ℕ) (addStamp : Bool) :
    write time opts asked remain line.message addStamp = ([], remain, false) := by
  rw [write]
  by_cases hearly : line.timestamp < opts.since
  · exact if_pos hearly
  have hasked : asked line.stream = false := by
    simpa [shows, not_lt.1 hearly] using hshows
  have hlate : ¬ line.message.timestamp < opts.since := hearly
  rw [if_neg hlate]
  simp [CriLine.message, hasked]

theorem write_of_shows (htimestamps : opts.timestamps = false) {line : CriLine time}
    (hshows : shows opts asked line = true) (remain : ℕ) (addStamp : Bool) :
    write time opts asked remain line.message addStamp =
      ([(line.stream, line.content.take remain)], remain - line.content.length,
        decide (remain - line.content.length = 0)) := by
  simp only [shows, Bool.and_eq_true, decide_eq_true_eq] at hshows
  have hlate : ¬ line.message.timestamp < opts.since := not_lt.2 hshows.1
  have hcut : remain - (line.content.take remain).length = remain - line.content.length := by
    rw [length_take]
    omega
  rw [write, if_neg hlate]
  simp only [CriLine.message, htimestamps, hshows.2, Bool.false_and, Bool.false_eq_true, if_false,
    Bool.not_true, hcut]

variable (asked) in
theorem readLoop_lines (htimestamps : opts.timestamps = false) (lines : List (CriLine time))
    (state : ReadState)
    (hlimit : opts.tailLines.isSome = true →
      state.limitedNum < 0 ∨ lines.length ≤ state.limitedNum) :
    (readLoop time opts asked state (lines.map fun line => line.body ++ [eol])).2 = .done ∧
      sent (readLoop time opts asked state (lines.map fun line => line.body ++ [eol])).1 =
        (wanted opts asked lines).take state.remain := by
  induction lines generalizing state with
  | nil => exact ⟨rfl, by simp [readLoop, sent, wanted]⟩
  | cons line lines ih =>
    have hgoes : ¬ (opts.tailLines.isSome && decide (state.limitedNum = 0)) = true := by
      intro hboth
      rw [Bool.and_eq_true, decide_eq_true_eq] at hboth
      have hcase := hlimit hboth.1
      rw [length_cons] at hcase
      omega
    have hnext : ∀ remain isNewLine, opts.tailLines.isSome = true →
        (⟨true, state.limitedNum - 1, remain, isNewLine⟩ : ReadState).limitedNum < 0 ∨
          lines.length ≤
            (⟨true, state.limitedNum - 1, remain, isNewLine⟩ : ReadState).limitedNum := by
      intro remain isNewLine hsome
      have hcase := hlimit hsome
      rw [length_cons] at hcase
      simp only
      omega
    rw [map_cons, readLoop, if_neg hgoes, parseCRILog_line]
    by_cases hshows : shows opts asked line = true
    swap
    · obtain ⟨hdone, hsent⟩ := ih ⟨true, state.limitedNum - 1, state.remain,
        endsLine line.message.log⟩ (hnext _ _)
      simp only [write_of_not_shows hshows]
      refine ⟨hdone, ?_⟩
      rw [wanted, filter_cons_of_neg hshows]
      exact hsent
    have hwanted : wanted opts asked (line :: lines) =
        (line.content.map fun byte => (line.stream, byte)) ++ wanted opts asked lines := by
      rw [wanted, filter_cons_of_pos hshows, flatMap_cons, wanted]
    simp only [write_of_shows htimestamps hshows, hwanted]
    by_cases hfull : state.remain - line.content.length = 0
    · -- the limit is within this line, or at its end
      simp only [hfull, decide_true, if_true, true_and]
      rw [take_append_of_le_length (by rw [length_map]; omega)]
      simp [sent, map_take]
    obtain ⟨hdone, hsent⟩ := ih ⟨true, state.limitedNum - 1, state.remain - line.content.length,
      endsLine line.message.log⟩ (hnext _ _)
    simp only [hfull, decide_false, Bool.false_eq_true, if_false]
    refine ⟨hdone, ?_⟩
    have hwhole : line.content.take state.remain = line.content :=
      take_of_length_le (by omega)
    have hfits : (line.content.map fun byte => (line.stream, byte)).take state.remain =
        line.content.map fun byte => (line.stream, byte) :=
      take_of_length_le (by rw [length_map]; omega)
    rw [take_append, hfits, length_map, ← hsent, hwhole]
    simp [sent]

def logFile (lines : List (CriLine time)) : Bytes := join eol (lines.map CriLine.body)

theorem splitAfter_tail (lines : List (CriLine time)) (tailLines : Option ℤ) :
    splitAfter eol ((logFile lines).drop (findTailLineStartIndex (logFile lines)
        (tailLines.getD (-1)))) =
      (lastLines tailLines lines).map fun line => line.body ++ [eol] := by
  have hbodies : ∀ others : List (CriLine time), ∀ line ∈ others.map CriLine.body, eol ∉ line := by
    intro others line hline
    obtain ⟨other, -, rfl⟩ := mem_map.1 hline
    exact other.eol_not_mem_body
  have hsplit : ∀ others : List (CriLine time), splitAfter eol (logFile others) =
      others.map fun line => line.body ++ [eol] := by
    intro others
    rw [logFile, splitAfter_join (hbodies others), map_map]
    rfl
  have hall : ∀ n : ℤ, n < 0 → findTailLineStartIndex (logFile lines) n = 0 :=
    fun n hn => if_pos hn
  cases tailLines with
  | none =>
    rw [Option.getD_none, hall (-1) (by decide), drop_zero, hsplit]
    rfl
  | some n =>
    rw [Option.getD_some]
    by_cases hneg : n < 0
    · rw [hall n hneg, drop_zero, hsplit, lastLines, if_pos hneg]
    rw [lastLines, if_neg hneg]
    have hcast : ((n.toNat : ℕ) : ℤ) = n := Int.toNat_of_nonneg (not_lt.1 hneg)
    have hstart : findTailLineStartIndex (logFile lines) n =
        (logFile (lines.take (lines.length - n.toNat))).length := by
      have hfound := findTailLineStartIndex_tailStart (logFile lines) n.toNat
      have hspec := tailStart_join (hbodies lines) n.toNat
      rw [hcast] at hfound
      rw [hfound.unique hspec, length_map, logFile, map_take]
    have happend : logFile lines = logFile (lines.take (lines.length - n.toNat)) ++
        logFile (lines.drop (lines.length - n.toNat)) := by
      rw [logFile, logFile, logFile, ← join_append, ← map_append, take_append_drop]
    rw [hstart, happend, drop_left, hsplit]

/-- A read of complete lines writes the contents, up to the limit, of its last lines that are
not too early; and the tail search gives where these start. -/
theorem readLogs_reads_back (time : TimeFormat) (opts : Options) (asked : LogStream → Bool)
    (lines : List (CriLine time)) (htimestamps : opts.timestamps = false) :
    (readLogs time opts asked (logFile lines)).2 = .done ∧
      sent (readLogs time opts asked (logFile lines)).1 =
        (wanted opts asked (lastLines opts.tailLines lines)).take (opts.limitBytes.getD maxInt64) ∧
      ∀ (file : Bytes) (n : ℕ), TailStart eol file n (findTailLineStartIndex file n) := by
  have hlimit : opts.tailLines.isSome = true → opts.tailLines.getD (-1) < 0 ∨
      ((lastLines opts.tailLines lines).length : ℤ) ≤ opts.tailLines.getD (-1) := by
    intro hsome
    obtain ⟨n, hn⟩ := Option.isSome_iff_exists.1 hsome
    simp only [hn, Option.getD_some, lastLines]
    by_cases hneg : n < 0
    · exact .inl hneg
    rw [if_neg hneg, length_drop]
    right
    omega
  obtain ⟨hdone, hsent⟩ := readLoop_lines asked htimestamps
    (lastLines opts.tailLines lines)
    ⟨false, opts.tailLines.getD (-1), opts.limitBytes.getD maxInt64, true⟩ hlimit
  simp only [readLogs, splitAfter_tail]
  exact ⟨hdone, hsent, findTailLineStartIndex_tailStart⟩

def stampOne : Bytes := ascii "2016-10-06T00:17:09.669794202Z"

def stampTwo : Bytes := ascii "2016-10-06T00:17:09.669794203Z"

def twoStamps : TimeFormat where
  parse bytes :=
    if bytes = stampOne then some 1475713029669794202
    else if bytes = stampTwo then some 1475713029669794203
    else none
  format _ := stampOne

theorem stampOne_parses : twoStamps.parse stampOne = some 1475713029669794202 := by decide

theorem stampOne_plain : delimiter ∉ stampOne ∧ eol ∉ stampOne := by decide

def fragment : CriLine twoStamps where
  stamp := stampOne
  timestamp := 1475713029669794202
  parses := stampOne_parses
  stampPlain := stampOne_plain
  stream := .stdout
  tags := ascii "P"
  tagsPlain := by decide
  text := ascii "log con"
  textPlain := by decide

def rest : CriLine twoStamps where
  stamp := stampTwo
  timestamp := 1475713029669794203
  parses := by decide
  stampPlain := by decide
  stream := .stdout
  tags := ascii "F"
  tagsPlain := by decide
  text := ascii "tent"
  textPlain := by decide

theorem two_lines_read_back :
    sent (readLogs twoStamps ⟨some 5, some 9, 0, false⟩ (fun _ => true)
      (logFile [fragment, rest])).1 =
      (ascii "log conte").map fun byte => (LogStream.stdout, byte) := by
  have hread := readLogs_reads_back twoStamps ⟨some 5, some 9, 0, false⟩ (fun _ => true)
    [fragment, rest] rfl
  rw [hread.2.1]
  decide

end Read

variable {time : TimeFormat}

/-- The line is a fragment, and the next one of its stream continues it. -/
def CriLine.goesOn (line : CriLine time) : Bool :=
  line.tags.takeWhile (· ≠ tagDelimiter) = tagPartial

def rendered (line : CriLine time) (stamped : Bool) : LogStream × Bytes :=
  (line.stream,
    if stamped then time.format line.timestamp ++ delimiter :: line.content else line.content)

/-- What a read with timestamps owes: of every logical line of a stream the first segment with
its timestamp, and the others as they are. -/
def logicalWrites (unfinished : LogStream → Bool) : List (CriLine time) → Written
  | [] => []
  | line :: rest =>
    rendered line (!unfinished line.stream) ::
      logicalWrites (Function.update unfinished line.stream line.goesOn) rest

def flaggedWrites (isNewLine : Bool) : List (CriLine time) → Written
  | [] => []
  | line :: rest => rendered line isNewLine :: flaggedWrites (endsLine line.content) rest

def stampedSize (lines : List (CriLine time)) : ℕ :=
  (lines.map fun line => (rendered line true).2.length).sum

theorem rendered_length_le (line : CriLine time) (stamped : Bool) :
    (rendered line stamped).2.length ≤ (rendered line true).2.length := by
  cases stamped
  · simp only [rendered, if_true, List.length_append, List.length_cons]
    exact (Nat.le_succ _).trans (Nat.le_add_left _ _)
  · exact le_refl _

theorem readLoop_flagged {since : ℤ} (lines : List (CriLine time)) (state : ReadState)
    (hsince : ∀ line ∈ lines, since ≤ line.timestamp) (hsize : stampedSize lines < state.remain) :
    readLoop time ⟨none, none, since, true⟩ (fun _ => true) state
      (lines.map fun line => line.body ++ [eol]) =
      (flaggedWrites state.isNewLine lines, .done) := by
  induction lines generalizing state with
  | nil => rfl
  | cons line lines ih =>
    rw [List.forall_mem_cons] at hsince
    have hshort := rendered_length_le line state.isNewLine
    rw [stampedSize, List.map_cons, List.sum_cons] at hsize
    have hwrite : write time ⟨none, none, since, true⟩ (fun _ => true) state.remain line.message
        state.isNewLine = ([rendered line state.isNewLine],
          state.remain - (rendered line state.isNewLine).2.length, false) := by
      have hlate : ¬ line.message.timestamp < since := not_lt.2 hsince.1
      have htake : (rendered line state.isNewLine).2.take state.remain =
          (rendered line state.isNewLine).2 := List.take_of_length_le (by omega)
      have hleft : ¬ state.remain - (rendered line state.isNewLine).2.length = 0 := by omega
      simp only [rendered] at htake hleft
      simp only [write, if_neg hlate, Bool.true_and, Bool.not_true, Bool.false_eq_true, if_false]
      simp only [CriLine.message, htake, hleft, decide_false, rendered]
    have hrest := ih ⟨true, state.limitedNum - 1,
      state.remain - (rendered line state.isNewLine).2.length, endsLine line.message.log⟩ hsince.2
      (by simp only [stampedSize]; omega)
    rw [List.map_cons, readLoop, parseCRILog_line]
    simp only [hwrite, Option.isSome_none, Bool.false_and, Bool.false_eq_true, if_false, hrest]
    rfl

/-- The file stands at the start of a line: what is before wrote a line end, or nothing. -/
def atLineStart (front : List (CriLine time)) : Prop :=
  ∀ last ∈ front.getLast?, last.goesOn = false ∨ last.text = []

def streamAtStart (front : List (CriLine time)) (stream : LogStream) : Prop :=
  ∀ last ∈ (front.filter (·.stream = stream)).getLast?, last.goesOn = false

/-- Every line starts one of its stream exactly when the file stands at the start of a line. -/
def FlagsAgree (lines : List (CriLine time)) : Prop :=
  ∀ front line back, lines = front ++ line :: back →
    (atLineStart front ↔ streamAtStart front line.stream)

theorem endsLine_content (line : CriLine time) :
    endsLine line.content = true ↔ line.goesOn = false ∨ line.text = [] := by
  have hcontent : line.content = if line.goesOn = true then line.text else line.text ++ [eol] := by
    simp only [CriLine.content, CriLine.goesOn, decide_eq_true_eq]
  have hlast : line.text.getLast? ≠ some eol :=
    fun hlast => line.textPlain (List.mem_of_getLast? hlast)
  cases hgoes : line.goesOn <;> simp [endsLine, hcontent, hgoes, hlast]

theorem rendered_inj {line : CriLine time} {one two : Bool}
    (heq : rendered line one = rendered line two) : one = two := by
  have hlength := congrArg (fun write => write.2.length) heq
  cases one <;> cases two <;> simp [rendered] at hlength ⊢ <;> omega

theorem writes_eq_iff (lines front : List (CriLine time)) {isNewLine : Bool}
    {unfinished : LogStream → Bool} (hflag : isNewLine = true ↔ atLineStart front)
    (hopen : ∀ stream, unfinished stream = false ↔ streamAtStart front stream) :
    flaggedWrites isNewLine lines = logicalWrites unfinished lines ↔
      ∀ middle line back, lines = middle ++ line :: back →
        (atLineStart (front ++ middle) ↔ streamAtStart (front ++ middle) line.stream) := by
  induction lines generalizing front isNewLine unfinished with
  | nil =>
    refine iff_of_true rfl fun middle line back hnil => ?_
    exact absurd hnil.symm (by simp)
  | cons head lines ih =>
    have hflagNext : endsLine head.content = true ↔ atLineStart (front ++ [head]) := by
      rw [endsLine_content]
      simp [atLineStart]
    have hopenNext : ∀ stream,
        Function.update unfinished head.stream head.goesOn stream = false ↔
          streamAtStart (front ++ [head]) stream := by
      intro stream
      by_cases hsame : stream = head.stream
      · subst hsame
        simp [streamAtStart, List.filter_append]
      · rw [Function.update_of_ne hsame, hopen]
        simp [streamAtStart, List.filter_append, Ne.symm hsame]
    have hnext := ih (front ++ [head]) hflagNext hopenNext
    have hhead : rendered head isNewLine = rendered head (!unfinished head.stream) ↔
        (atLineStart front ↔ streamAtStart front head.stream) := by
      rw [← hflag, ← hopen]
      constructor
      · intro heq
        simp [rendered_inj heq]
      · intro hiff
        have : isNewLine = !unfinished head.stream := by
          cases isNewLine <;> cases hunfinished : unfinished head.stream <;> simp_all
        rw [this]
    rw [flaggedWrites, logicalWrites, List.cons.injEq, hnext, hhead]
    constructor
    · rintro ⟨hfirst, hrest⟩ middle line back hsplit
      cases middle with
      | nil =>
        obtain ⟨rfl, -⟩ := List.cons.inj hsplit
        simpa using hfirst
      | cons other middle =>
        obtain ⟨rfl, htail⟩ := List.cons.inj hsplit
        simpa using hrest middle line back htail
    · intro hall
      refine ⟨by simpa using hall [] head lines rfl, fun middle line back hsplit => ?_⟩
      simpa using hall (head :: middle) line back (by rw [hsplit]; rfl)

def segment (stream : LogStream) (tag : Bool) : CriLine twoStamps where
  stamp := stampOne
  timestamp := 1475713029669794202
  parses := stampOne_parses
  stampPlain := stampOne_plain
  stream := stream
  tags := ascii (if tag then "P" else "F")
  tagsPlain := by cases tag <;> decide
  text := ascii "log"
  textPlain := by decide

theorem flagsAgree_iff {lines : List (CriLine time)} : FlagsAgree lines ↔
    ∀ index : Fin lines.length,
      (atLineStart (lines.take index) ↔ streamAtStart (lines.take index) lines[index].stream) := by
  constructor
  · intro hagree index
    refine hagree _ _ (lines.drop (index + 1)) ?_
    rw [Fin.getElem_fin, List.getElem_cons_drop, List.take_append_drop]
  · rintro hagree front line back rfl
    simpa using hagree ⟨front.length, by simp⟩

/-- The two streams take turns, and a fragment is followed by the end of its own line. -/
def plainTurns : List (CriLine twoStamps) :=
  [segment .stdout false, segment .stderr true, segment .stderr false, segment .stdout true,
    segment .stdout false, segment .stderr false]

end K3sm.Podlogs
