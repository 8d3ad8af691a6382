import K3sm.Core.Except
import K3sm.Core.Int64
import K3sm.Update.Watcher

/-!
# Cron expressions

A field is a comma list of numbers, ranges and steps, kept as a set of bits.  The search for
the next minute skips a month, a day or an hour that does not match as a whole: the minutes
up to the skip's end agree with the one it starts from in what did not match.  A step that
is nearly 2^63 takes the loop over a range below zero, where the shift panics.
-/

namespace K3sm.Executor.Cron

open K3sm.Core K3sm.Core.Filepath K3sm.Updatectl

/-- The month, day, hour and minute fields, and the two day fields that start with a star. -/
structure CronSchedule where
  minute : ℕ
  hour : ℕ
  dom : ℕ
  month : ℕ
  dow : ℕ
  domStar : Bool
  dowStar : Bool

/-! ## The next minute -/

def leap (year : ℤ) : Bool := year % 4 == 0 && (year % 100 != 0 || year % 400 == 0)

def daysIn (year : ℤ) (month : ℕ) : ℕ :=
  if month = 2 then if leap year then 29 else 28
  else if month = 4 ∨ month = 6 ∨ month = 9 ∨ month = 11 then 30 else 31

theorem daysIn_bounds (year : ℤ) (month : ℕ) : 28 ≤ daysIn year month ∧ daysIn year month ≤ 31 := by
  unfold daysIn
  split_ifs <;> omega

/-- A minute of the calendar, in UTC. -/
structure Minute where
  year : ℤ
  month : ℕ
  day : ℕ
  hour : ℕ
  minute : ℕ
  month_range : 1 ≤ month ∧ month ≤ 12
  day_range : 1 ≤ day ∧ day ≤ daysIn year month
  hour_lt : hour < 24
  minute_lt : minute < 60

namespace Minute

variable (time : Minute)

/-- The order of the minutes, with every month taken for 31 days. -/
def key : ℤ :=
  (((time.year * 12 + (time.month - 1)) * 31 + (time.day - 1)) * 24 + time.hour) * 60 + time.minute

/-- Sunday is 0. -/
def weekday : ℕ :=
  let year := if time.month ≤ 2 then time.year - 1 else time.year
  let dayOfYear : ℤ := (153 * ((time.month + 9) % 12) + 2) / 5 + time.day - 1
  ((365 * year + year / 4 - year / 100 + year / 400 + dayOfYear + 3) % 7).toNat

def nextMonth : Minute :=
  if hlast : time.month = 12 then
    ⟨time.year + 1, 1, 1, 0, 0, by decide, by simp [daysIn], by decide, by decide⟩
  else
    ⟨time.year, time.month + 1, 1, 0, 0, by have := time.month_range; omega,
      by have := daysIn_bounds time.year (time.month + 1); omega, by omega, by omega⟩

def nextDay : Minute :=
  if hlast : time.day = daysIn time.year time.month then time.nextMonth
  else
    { time with
      day := time.day + 1
      hour := 0
      minute := 0
      day_range := by have := time.day_range; omega
      hour_lt := by omega
      minute_lt := by omega }

def nextHour : Minute :=
  if hlast : time.hour = 23 then time.nextDay
  else
    { time with
      hour := time.hour + 1
      minute := 0
      hour_lt := by have := time.hour_lt; omega
      minute_lt := by omega }

def nextMinute : Minute :=
  if hlast : time.minute = 59 then time.nextHour
  else { time with minute := time.minute + 1, minute_lt := by have := time.minute_lt; omega }

/-- Moves to `next`, unless that is not forward. -/
def advance (next : Minute) : Minute := if time.key < next.key then next else time.nextMinute

/-- The minutes from `time` to `next` agree in a property of it. -/
structure Skips (time next : Minute) (agrees : Minute → Prop) : Prop where
  forward : time.key < next.key
  between : ∀ other : Minute, time.key ≤ other.key → other.key < next.key → agrees other

variable {time}

theorem ranges (time : Minute) : 1 ≤ time.month ∧ time.month ≤ 12 ∧ 1 ≤ time.day ∧ time.day ≤ 31 ∧
    time.hour < 24 ∧ time.minute < 60 := by
  have := time.month_range
  have := time.day_range
  have := daysIn_bounds time.year time.month
  have := time.hour_lt
  have := time.minute_lt
  omega

theorem skips_nextMonth : Skips time time.nextMonth fun other =>
    other.year = time.year ∧ other.month = time.month := by
  have htime := time.ranges
  unfold nextMonth
  split
  all_goals
    refine ⟨by simp only [key]; omega, fun other hle hlt => ?_⟩
    have hother := other.ranges
    simp only [key] at hle hlt
    omega

theorem skips_nextDay : Skips time time.nextDay fun other =>
    (other.year = time.year ∧ other.month = time.month) ∧ other.day = time.day := by
  have htime := time.ranges
  unfold nextDay
  split
  case isTrue hlast =>
    have hskips := @skips_nextMonth time
    refine ⟨hskips.forward, fun other hle hlt => ⟨hskips.between other hle hlt, ?_⟩⟩
    obtain ⟨hyear, hmonth⟩ := hskips.between other hle hlt
    have hday := other.day_range
    have hother := other.ranges
    rw [hyear, hmonth] at hday
    simp only [key] at hle
    omega
  case isFalse hlast =>
    refine ⟨by simp only [key]; omega, fun other hle hlt => ?_⟩
    have hother := other.ranges
    simp only [key] at hle hlt
    omega

theorem skips_nextHour : Skips time time.nextHour fun other =>
    ((other.year = time.year ∧ other.month = time.month) ∧ other.day = time.day) ∧
      other.hour = time.hour := by
  have htime := time.ranges
  unfold nextHour
  split
  case isTrue hlast =>
    have hskips := @skips_nextDay time
    refine ⟨hskips.forward, fun other hle hlt => ⟨hskips.between other hle hlt, ?_⟩⟩
    have hday := hskips.between other hle hlt
    have hother := other.ranges
    simp only [key] at hle
    omega
  case isFalse hlast =>
    refine ⟨by simp only [key]; omega, fun other hle hlt => ?_⟩
    have hother := other.ranges
    simp only [key] at hle hlt
    omega

theorem skips_nextMinute : Skips time time.nextMinute fun other => other = time := by
  suffices hskips : Skips time time.nextMinute fun other =>
      (((other.year = time.year ∧ other.month = time.month) ∧ other.day = time.day) ∧
        other.hour = time.hour) ∧ other.minute = time.minute by
    refine ⟨hskips.forward, fun other hle hlt => ?_⟩
    obtain ⟨⟨⟨⟨hyear, hmonth⟩, hday⟩, hhour⟩, hminute⟩ := hskips.between other hle hlt
    cases other
    cases time
    simp_all
  have htime := time.ranges
  unfold nextMinute
  split
  case isTrue hlast =>
    have hskips := @skips_nextHour time
    refine ⟨hskips.forward, fun other hle hlt => ⟨hskips.between other hle hlt, ?_⟩⟩
    have hhour := hskips.between other hle hlt
    have hother := other.ranges
    simp only [key] at hle
    omega
  case isFalse hlast =>
    refine ⟨by simp only [key]; omega, fun other hle hlt => ?_⟩
    have hother := other.ranges
    simp only [key] at hle hlt
    omega

theorem Skips.advance {next : Minute} {agrees : Minute → Prop} (hskips : Skips time next agrees) :
    Skips time (time.advance next) agrees := by
  rw [Minute.advance, if_pos hskips.forward]
  exact hskips

end Minute

namespace CronSchedule

variable (cron : CronSchedule)

def dayMatches (time : Minute) : Bool :=
  let dom := cron.dom.testBit time.day
  let dow := cron.dow.testBit time.weekday
  if cron.domStar || cron.dowStar then dom && dow else dom || dow

/-- The minute is one of the schedule's. -/
def Matches (time : Minute) : Prop :=
  cron.month.testBit time.month = true ∧ cron.dayMatches time = true ∧
    cron.hour.testBit time.hour = true ∧ cron.minute.testBit time.minute = true

theorem forward_lt {limit : ℤ} {time next : Minute} (hlimit : ¬ limit < time.year)
    (hforward : time.key < next.key) :
    ((limit + 1) * 535680 - next.key).toNat < ((limit + 1) * 535680 - time.key).toNat := by
  have := time.ranges
  unfold Minute.key at *
  omega

/-- The loop of `Next`. -/
def search (limit : ℤ) (time : Minute) : Option Minute :=
  if _ : limit < time.year then none
  else if cron.month.testBit time.month = false then search limit (time.advance time.nextMonth)
  else if cron.dayMatches time = false then search limit (time.advance time.nextDay)
  else if cron.hour.testBit time.hour = false then search limit (time.advance time.nextHour)
  else if cron.minute.testBit time.minute = false then search limit time.nextMinute
  else some time
termination_by ((limit + 1) * 535680 - time.key).toNat
decreasing_by
  · exact forward_lt ‹_› Minute.skips_nextMonth.advance.forward
  · exact forward_lt ‹_› Minute.skips_nextDay.advance.forward
  · exact forward_lt ‹_› Minute.skips_nextHour.advance.forward
  · exact forward_lt ‹_› Minute.skips_nextMinute.forward

def cronSearchYears : ℤ := 5

/-- The first minute after `time`, whose seconds are dropped. -/
def next (time : Minute) : Option Minute :=
  cron.search (time.year + cronSearchYears) time.nextMinute

/-- The least minute of the schedule from `start` on and up to the end of the year `limit`. -/
def Least (limit start : ℤ) (found : Option Minute) : Prop :=
  match found with
  | some found => start ≤ found.key ∧ found.year ≤ limit ∧ cron.Matches found ∧
      ∀ other : Minute, start ≤ other.key → other.key < found.key → ¬ cron.Matches other
  | none => ∀ other : Minute, start ≤ other.key → other.year ≤ limit → ¬ cron.Matches other

variable {cron}

/-- A skip leaves out no minute of the schedule. -/
theorem Least.skip {limit : ℤ} {time next : Minute} {agrees : Minute → Prop} {found : Option Minute}
    (hleast : cron.Least limit next.key found) (hskips : Minute.Skips time next agrees)
    (hagrees : ∀ other, agrees other → ¬ cron.Matches other) : cron.Least limit time.key found := by
  have hbefore : ∀ other : Minute, time.key ≤ other.key → ¬ next.key ≤ other.key →
      ¬ cron.Matches other := fun other hle hlt =>
    hagrees other (hskips.between other hle (not_le.1 hlt))
  cases found with
  | none =>
    intro other hle hyear
    by_cases hpast : next.key ≤ other.key
    · exact hleast other hpast hyear
    · exact hbefore other hle hpast
  | some found =>
    obtain ⟨hstart, hyear, hmatches, hmin⟩ := hleast
    refine ⟨hskips.forward.le.trans hstart, hyear, hmatches, fun other hle hlt => ?_⟩
    by_cases hpast : next.key ≤ other.key
    · exact hmin other hpast hlt
    · exact hbefore other hle hpast

theorem search_least (limit : ℤ) (time : Minute) :
    cron.Least limit time.key (cron.search limit time) := by
  fun_induction cron.search limit time with
  | case1 time hlimit =>
    intro other hle hyear
    have htime := time.ranges
    have hother := other.ranges
    simp only [Minute.key] at hle
    omega
  | case2 time _ hmonth ih =>
    refine ih.skip Minute.skips_nextMonth.advance fun other hsame hmatches => ?_
    have hbit := hmatches.1
    rw [hsame.2, hmonth] at hbit
    cases hbit
  | case3 time _ _ hday ih =>
    refine ih.skip Minute.skips_nextDay.advance fun other hsame hmatches => ?_
    have hsameDay : cron.dayMatches other = cron.dayMatches time := by
      simp only [dayMatches, Minute.weekday, hsame.1.1, hsame.1.2, hsame.2]
    rw [← hsameDay, hmatches.2.1] at hday
    cases hday
  | case4 time _ _ _ hhour ih =>
    refine ih.skip Minute.skips_nextHour.advance fun other hsame hmatches => ?_
    have hbit := hmatches.2.2.1
    rw [hsame.2, hhour] at hbit
    cases hbit
  | case5 time _ _ _ _ hminute ih =>
    refine ih.skip Minute.skips_nextMinute fun other hsame hmatches => ?_
    have hbit := hmatches.2.2.2
    rw [hsame, hminute] at hbit
    cases hbit
  | case6 time hlimit hmonth hday hhour hminute =>
    simp only [Bool.not_eq_false] at hmonth hday hhour hminute
    exact ⟨le_rfl, not_lt.1 hlimit, ⟨hmonth, hday, hhour, hminute⟩,
      fun other hle hlt => absurd hle (not_le.2 hlt)⟩

/-- `next` finds the least minute after the given one. -/
theorem next_least (time : Minute) :
    cron.Least (time.year + cronSearchYears) (time.key + 1) (cron.next time) := by
  have hsearch := @search_least cron (time.year + cronSearchYears) time.nextMinute
  have hskips := @Minute.skips_nextMinute time
  have hstart : ∀ other : Minute, time.nextMinute.key ≤ other.key ↔ time.key + 1 ≤ other.key := by
    intro other
    refine ⟨fun hle => by have := hskips.forward; omega, fun hlt => ?_⟩
    by_contra hbefore
    have hsame := hskips.between other (by omega) (not_le.1 hbefore)
    rw [hsame] at hlt
    omega
  rw [next]
  unfold Least at hsearch ⊢
  simpa only [hstart] using hsearch

end CronSchedule

/-! ## The parser -/

structure CronField where
  name : String
  min : ℤ
  max : ℤ
  range : 0 ≤ min ∧ min ≤ max ∧ max < 64

/-- The five fields of a spec, with their ranges. -/
def cronFields : List CronField :=
  [⟨"minute", 0, 59, by decide⟩, ⟨"hour", 0, 23, by decide⟩, ⟨"day-of-month", 1, 31, by decide⟩,
    ⟨"month", 1, 12, by decide⟩, ⟨"day-of-week", 0, 7, by decide⟩]

inductive FieldError
  | emptyElement
  | step (text : Str)
  | notNumber (text : Str)
  | outside (value : ℤ) (field : CronField)
  | backwards (range : Str)

/-- How a field's loop ends early: with an error, or in the panic of a negative shift. -/
inductive Stop
  | refused (error : FieldError)
  | panic

inductive CronError
  | fieldCount (count : ℕ)
  | field (name : String) (text : Str) (stop : Stop)
  | noDate

theorem inside_field {field : CronField} {value : ℤ}
    (hinside : ¬ (value < field.min ∨ field.max < value)) :
    field.min ≤ value ∧ value ≤ field.max := by
  omega

def cronNumber (field : CronField) (text : Str) :
    Except FieldError {value : ℤ // field.min ≤ value ∧ value ≤ field.max} :=
  match atoi text with
  | none => .error (.notNumber text)
  | some value =>
    if houtside : value < field.min ∨ field.max < value then .error (.outside value field)
    else .ok ⟨value, inside_field houtside⟩

/-- A positive `int`. -/
abbrev Step := {step : ℤ // 0 < step ∧ step < 2 ^ 63}

theorem atoi_lt {text : Str} {value : ℤ} (hvalue : atoi text = some value) : value < 2 ^ 63 := by
  unfold atoi at hvalue
  split at hvalue
  dsimp only at hvalue
  split_ifs at hvalue with _ _ hfits hfits
  all_goals
    cases hvalue
    exact hfits.2

def parseStep : Option Str → Except FieldError Step
  | none => .ok ⟨1, by decide⟩
  | some text =>
    match hvalue : atoi text with
    | none => .error (.step text)
    | some step =>
      if hlow : step < 1 then .error (.step text) else .ok ⟨step, by omega, atoi_lt hvalue⟩

/-- The values that an element of a list starts from, ends at and steps by. -/
structure Element where
  low : ℤ
  high : ℤ
  step : Step
  range : 0 ≤ low ∧ low ≤ high ∧ high < 64

def parseElement (field : CronField) (part : Str) : Except FieldError Element :=
  if part = [] then .error .emptyElement
  else do
    let step ← parseStep (cut '/' part).2
    let range := (cut '/' part).1
    if range = ['*'] then return ⟨field.min, field.max, step, field.range⟩
    else if '-' ∈ range then
      let ⟨low, hlow⟩ ← cronNumber field (cut '-' range).1
      let ⟨high, hhigh⟩ ← cronNumber field ((cut '-' range).2.getD [])
      if hback : high < low then throw (.backwards range)
      else return ⟨low, high, step, by have := field.range; omega⟩
    else
      let ⟨value, hvalue⟩ ← cronNumber field range
      if (cut '/' part).2.isSome then
        return ⟨value, field.max, step, by have := field.range; omega⟩
      else return ⟨value, value, step, by have := field.range; omega⟩

/-- The loop over a range, from the value that the `int` takes of a sum. -/
def mark (high : ℤ) (step : Step) (sum : ℤ) (bits : ℕ) : Except Stop ℕ :=
  if _ : high < int64 sum then .ok bits
  else if _ : int64 sum < 0 then .error .panic
  else mark high step (int64 sum + step) (bits ||| 2 ^ (int64 sum).toNat)
termination_by if int64 sum < 0 then 0 else (high - int64 sum + 1).toNat
decreasing_by
  have := step.2
  unfold int64 at *
  split_ifs <;> omega

/-- The round of an element of the list. -/
def markElement (field : CronField) (bits : ℕ) (part : Str) : Except Stop ℕ :=
  match parseElement field part with
  | .error error => .error (.refused error)
  | .ok element => mark element.high element.step element.low bits

def parseCronField (field : CronField) (text : Str) : Except Stop ℕ :=
  (text.splitOn ',').foldlM (markElement field) 0

def parseFields : List (CronField × Str) → Except CronError (List ℕ)
  | [] => .ok []
  | (field, text) :: rest =>
    match parseCronField field text with
    | .error stop => .error (.field field.name text stop)
    | .ok bits => (parseFields rest).map (bits :: ·)

/-- `strings.Fields`. -/
def fields (spec : Str) : List Str := (spec.splitOnP isSpace).filter (· ≠ [])

/-- 2000-01-01. -/
def probe : Minute := ⟨2000, 1, 1, 0, 0, by decide, by decide, by decide, by decide⟩

/-- Day-of-week 7 is Sunday. -/
def foldSunday (bits : ℕ) : ℕ := if bits.testBit 7 then (bits ^^^ 2 ^ 7) ||| 2 ^ 0 else bits

def parseCron (spec : Str) : Except CronError CronSchedule :=
  if (fields spec).length ≠ cronFields.length then .error (.fieldCount (fields spec).length)
  else
    match parseFields (cronFields.zip (fields spec)) with
    | .error error => .error error
    | .ok bits =>
      let cron : CronSchedule := {
        minute := bits.getD 0 0
        hour := bits.getD 1 0
        dom := bits.getD 2 0
        month := bits.getD 3 0
        dow := foldSunday (bits.getD 4 0)
        domStar := ((fields spec).getD 2 []).head? == some '*'
        dowStar := ((fields spec).getD 4 []).head? == some '*' }
      if (cron.next probe).isNone then .error .noDate else .ok cron

/-! ## What an expression says -/

/-- The text is of the element's values: all of the field's, those between two numbers, one
number's or, with a step, those from it on; and the step is the number behind a slash. -/
structure Element.Spelled (field : CronField) (element : Element) (part : Str) : Prop where
  step : (cut '/' part).2 = none ∧ (element.step : ℤ) = 1 ∨
    ∃ text, (cut '/' part).2 = some text ∧ atoi text = some (element.step : ℤ)
  range : (cut '/' part).1 = ['*'] ∧ element.low = field.min ∧ element.high = field.max ∨
    (∃ first last, (cut '/' part).1 = first ++ '-' :: last ∧
      atoi first = some element.low ∧ atoi last = some element.high) ∨
    atoi (cut '/' part).1 = some element.low ∧
      element.high = if (cut '/' part).2.isSome then field.max else element.low

theorem atoi_cronNumber {field : CronField} {text : Str}
    {value : {value : ℤ // field.min ≤ value ∧ value ≤ field.max}}
    (hvalue : cronNumber field text = .ok value) : atoi text = some (value : ℤ) := by
  unfold cronNumber at hvalue
  split at hvalue
  · cases hvalue
  rename_i number hnumber
  split at hvalue <;> cases hvalue
  exact hnumber

theorem spelled_parseStep {text : Option Str} {step : Step} (hstep : parseStep text = .ok step) :
    text = none ∧ (step : ℤ) = 1 ∨ ∃ number, text = some number ∧
      atoi number = some (step : ℤ) := by
  unfold parseStep at hstep
  split at hstep
  · cases hstep
    exact .inl ⟨rfl, rfl⟩
  rename_i number
  split at hstep
  · cases hstep
  rename_i value hvalue
  split at hstep <;> cases hstep
  exact .inr ⟨number, rfl, hvalue⟩

theorem spelled_parseElement {field : CronField} {part : Str} {element : Element}
    (hparse : parseElement field part = .ok element) : element.Spelled field part := by
  unfold parseElement at hparse
  split at hparse
  · cases hparse
  obtain ⟨step, hstep, hrange⟩ := bind_eq_ok_iff.1 hparse
  have hsteps := spelled_parseStep hstep
  dsimp only at hrange
  split at hrange
  · rename_i hall
    cases hrange
    exact ⟨hsteps, .inl ⟨hall, rfl, rfl⟩⟩
  split at hrange
  · rename_i hdash
    obtain ⟨first, last, hspelled, hfirst⟩ := List.eq_append_cons_of_mem hdash
    rw [hspelled, cut_append hfirst, Option.getD_some] at hrange
    obtain ⟨low, hlow, hlast⟩ := bind_eq_ok_iff.1 hrange
    obtain ⟨high, hhigh, hdone⟩ := bind_eq_ok_iff.1 hlast
    split at hdone <;> cases hdone
    exact ⟨hsteps, .inr (.inl
      ⟨first, last, hspelled, atoi_cronNumber hlow, atoi_cronNumber hhigh⟩)⟩
  · obtain ⟨value, hvalue, hdone⟩ := bind_eq_ok_iff.1 hrange
    split at hdone
    all_goals
      rename_i hstepped
      cases hdone
      exact ⟨hsteps, .inr (.inr ⟨atoi_cronNumber hvalue, by simp [hstepped]⟩)⟩

/-- The value is of an element of the field's list. -/
def Listed (field : CronField) (text : Str) (value : ℕ) : Prop :=
  ∃ part ∈ text.splitOn ',', ∃ element, parseElement field part = .ok element ∧
    element.Spelled field part ∧ element.low ≤ value ∧ value ≤ element.high ∧
      (element.step : ℤ) ∣ value - element.low

theorem listed_iff {field : CronField} {text : Str} {value : ℕ} : Listed field text value ↔
    ∃ part ∈ text.splitOn ',', ∃ element, parseElement field part = .ok element ∧
      element.low ≤ value ∧ value ≤ element.high ∧ (element.step : ℤ) ∣ value - element.low := by
  refine exists_congr fun part => and_congr_right fun _ => exists_congr fun element => ?_
  exact and_congr_right fun hparse => and_iff_right (spelled_parseElement hparse)

/-- The schedule has the values that the texts of the fields list. -/
def Says (cron : CronSchedule) (texts : List Str) : Prop :=
  (List.Forall₂ (fun bits (item : CronField × Str) => ∀ value, bits.testBit value = true ↔
      Listed item.1 item.2 value)
    [cron.minute, cron.hour, cron.dom, cron.month] ((cronFields.zip texts).take 4)) ∧
  ∀ field text, (cronFields.zip texts)[4]? = some (field, text) → ∀ value,
    cron.dow.testBit value = true ↔
      (value ≠ 7 ∧ Listed field text value) ∨ (value = 0 ∧ Listed field text 7)

/-- The parser and `Next` do with the spec what its text says. -/
structure MeansWhatItSays (spec : Str) : Prop where
  noPanic : ∀ name text, parseCron spec ≠ .error (.field name text .panic)
  sets : ∀ cron, parseCron spec = .ok cron → Says cron (fields spec)
  next : ∀ cron, parseCron spec = .ok cron → ∀ time,
    cron.Least (time.year + CronSchedule.cronSearchYears) (time.key + 1) (cron.next time)

/-- No element that is come to steps beyond the largest `int` from its first value. -/
def Smooth : List (CronField × Str) → Prop
  | [] => True
  | item :: rest => ∀ element, parseElement item.1 item.2 = .ok element →
      element.low + element.step < 2 ^ 63 ∧ Smooth rest

/-- The elements of the fields, in the order they are parsed. -/
def elements (items : List (CronField × Str)) : List (CronField × Str) :=
  items.flatMap fun item => (item.2.splitOn ',').map fun part => (item.1, part)

section Parse

variable {high value : ℤ} {step : Step} {bits : ℕ} {field : CronField} {element : Element}
  {items : List (CronField × Str)}

/-- The loop adds the values of the range that the step comes to. -/
theorem mark_ok (hhigh : high < 64) (hlow : 0 ≤ value) (hfits : value < 2 ^ 63)
    (hstep : value ≤ high → value + step < 2 ^ 63) :
    ∃ marked, mark high step value bits = .ok marked ∧ ∀ n : ℕ, marked.testBit n = true ↔
      bits.testBit n = true ∨ (value ≤ n ∧ n ≤ high ∧ (step : ℤ) ∣ n - value) := by
  have hpos := step.2
  fun_induction mark high step value bits with
  | case1 value bits hdone =>
    rw [int64_of_fits (by omega) hfits] at hdone
    exact ⟨bits, rfl, fun n => by rw [or_iff_left (by omega)]⟩
  | case2 value bits _ hneg =>
    rw [int64_of_fits (by omega) hfits] at hneg
    omega
  | case3 value bits hmore _ ih =>
    simp only [int64_of_fits (by omega) hfits] at hmore ih ⊢
    have hnext := hstep (by omega)
    obtain ⟨marked, hmarked, hbits⟩ := ih (by omega) hnext fun hle => by omega
    refine ⟨marked, hmarked, fun n => ?_⟩
    rw [hbits, Nat.testBit_or, Bool.or_eq_true, Nat.testBit_two_pow, decide_eq_true_eq, or_assoc]
    refine or_congr_right ⟨?_, ?_⟩
    · rintro (hsame | ⟨hle, hbound, hmultiple⟩)
      · exact ⟨by omega, by omega, by simp [← hsame, hlow]⟩
      refine ⟨by omega, hbound, ?_⟩
      have hback := hmultiple.add (dvd_refl (step : ℤ))
      rwa [sub_add_eq_sub_sub, sub_add_cancel] at hback
    rintro ⟨hle, hbound, hmultiple⟩
    by_cases hsame : (n : ℤ) = value
    · left
      omega
    · right
      have hfar := Int.le_of_dvd (by omega) hmultiple
      refine ⟨by omega, hbound, ?_⟩
      rw [← sub_sub]
      exact hmultiple.sub (dvd_refl _)

theorem mark_panic (hlow : 0 ≤ value) (hle : value ≤ high) (hhigh : high < 64)
    (hstep : 2 ^ 63 ≤ value + step) : mark high step value bits = .error .panic := by
  have hpos := step.2
  have hwraps : int64 (value + step) < 0 := by
    unfold int64
    omega
  rw [mark, int64_of_fits (by omega) (by omega), dif_neg (by omega), dif_neg (by omega), mark,
    dif_neg (by omega), dif_pos hwraps]

/-- A field's loop ends in the panic exactly where an element is not smooth, and else goes on
to the next field with the values listed. -/
theorem parts_spec (parts : List Str) (bits : ℕ) (rest : List (CronField × Str)) :
    match parts.foldlM (markElement field) bits with
    | .error stop => Smooth (parts.map (fun part => (field, part)) ++ rest) ↔ stop ≠ .panic
    | .ok marked => (Smooth (parts.map (fun part => (field, part)) ++ rest) ↔ Smooth rest) ∧
        ∀ n : ℕ, marked.testBit n = true ↔ bits.testBit n = true ∨
          ∃ part ∈ parts, ∃ element, parseElement field part = .ok element ∧
            element.low ≤ n ∧ n ≤ element.high ∧ (element.step : ℤ) ∣ n - element.low := by
  induction parts generalizing bits with
  | nil => simp [pure, Except.pure]
  | cons part parts ih =>
    rw [List.foldlM_cons, markElement]
    cases hparsed : parseElement field part with
    | error error => simp [bind, Except.bind, Smooth, hparsed]
    | ok element =>
      obtain ⟨hlow, hle, hhigh⟩ := element.range
      simp only [List.map_cons, List.cons_append, Smooth, hparsed, Except.ok.injEq, forall_eq',
        List.mem_cons, exists_eq_or_imp, exists_eq_left']
      by_cases hstep : element.low + element.step < 2 ^ 63
      · obtain ⟨marked, hmarked, hbits⟩ :=
          @mark_ok _ _ element.step bits hhigh hlow (by omega) fun _ => hstep
        have hrest := ih marked
        simp only [hmarked, bind, Except.bind]
        split at hrest <;> simp_all [or_assoc]
      · rw [mark_panic hlow hle hhigh (not_lt.1 hstep)]
        exact iff_of_false (fun hsmooth => hstep hsmooth.1) fun hne => hne rfl

theorem fields_spec (items : List (CronField × Str)) :
    match parseFields items with
    | .error error => Smooth (elements items) ↔ ∀ name text, error ≠ .field name text .panic
    | .ok bits => Smooth (elements items) ∧ List.Forall₂ (fun bits (item : CronField × Str) =>
        ∀ value, bits.testBit value = true ↔ Listed item.1 item.2 value) bits items := by
  induction items with
  | nil => exact ⟨trivial, .nil⟩
  | cons item items ih =>
    obtain ⟨field, text⟩ := item
    have hparts := @parts_spec field (text.splitOn ',') 0 (elements items)
    simp only [parseFields, parseCronField, elements, List.flatMap_cons] at hparts ih ⊢
    cases hfield : (text.splitOn ',').foldlM (markElement field) 0 with
    | error stop =>
      rw [hfield] at hparts
      simpa using hparts
    | ok bits =>
      simp only [hfield] at hparts ⊢
      cases hrest : parseFields items with
      | error error =>
        rw [hrest] at ih
        simpa [Except.map, hparts.1] using ih
      | ok others =>
        rw [hrest] at ih
        refine ⟨hparts.1.2 ih.1, .cons (fun value => ?_) ih.2⟩
        rw [hparts.2, Nat.zero_testBit]
        simp [listed_iff]

theorem testBit_foldSunday (value : ℕ) : (foldSunday bits).testBit value = true ↔
    (value ≠ 7 ∧ bits.testBit value = true) ∨ (value = 0 ∧ bits.testBit 7 = true) := by
  unfold foldSunday
  split
  case isTrue hsunday =>
    rw [Nat.testBit_or, Nat.testBit_xor, Nat.testBit_two_pow, Nat.testBit_two_pow]
    by_cases hseven : value = 7
    · simp [hseven, hsunday]
    · have : ¬ 7 = value := fun hsame => hseven hsame.symm
      simpa [hseven, this, hsunday] using or_congr_right eq_comm
  case isFalse hnone =>
    by_cases hseven : value = 7 <;> simp_all

end Parse

/-- An expression means what it says exactly where it is smooth. -/
theorem cron_exact (spec : Str) :
    MeansWhatItSays spec ↔
    ((fields spec).length = 5 → Smooth (elements (cronFields.zip (fields spec)))) := by
  have hfields := fields_spec (cronFields.zip (fields spec))
  by_cases hcount : (fields spec).length = 5
  swap
  · have herror : parseCron spec = .error (.fieldCount (fields spec).length) := if_pos hcount
    refine iff_of_true ⟨?_, ?_, ?_⟩ fun hfive => absurd hfive hcount
    all_goals simp [herror]
  refine Iff.trans ?_ (forall_prop_of_true hcount).symm
  have hparse : parseCron spec = match parseFields (cronFields.zip (fields spec)) with
    | .error error => .error error
    | .ok bits => _ := if_neg (not_not.2 hcount)
  cases hbits : parseFields (cronFields.zip (fields spec)) with
  | error error =>
    rw [hbits] at hfields hparse
    refine ⟨fun hmeans => hfields.2 fun name text hpanic => ?_, fun hsmooth => ⟨?_, ?_, ?_⟩⟩
    · exact hmeans.noPanic name text (hparse.trans (congrArg _ hpanic))
    · intro name text hpanic
      exact hfields.1 hsmooth name text (Except.error.inj (hparse.symm.trans hpanic))
    · intro cron hok
      cases hparse.symm.trans hok
    · intro cron hok
      cases hparse.symm.trans hok
  | ok bits =>
    rw [hbits] at hfields hparse
    refine iff_of_true ⟨?_, ?_, fun cron _ time => CronSchedule.next_least time⟩ hfields.1
    · intro name text hpanic
      have hsame := hparse.symm.trans hpanic
      dsimp only at hsame
      split at hsame <;> cases hsame
    intro cron hok
    have hsame := hparse.symm.trans hok
    dsimp only at hsame
    split_ifs at hsame
    cases hsame
    have hlisted := hfields.2
    obtain ⟨minute, hour, dom, month, dow, htexts⟩ :
        ∃ minute hour dom month dow, fields spec = [minute, hour, dom, month, dow] := by
      match fields spec, hcount with
      | [minute, hour, dom, month, dow], _ => exact ⟨minute, hour, dom, month, dow, rfl⟩
    rw [htexts] at hlisted ⊢
    obtain _ | ⟨hminute, _ | ⟨hhour, _ | ⟨hdom, _ | ⟨hmonth, _ | ⟨hdow, _ | _⟩⟩⟩⟩⟩ := hlisted
    refine ⟨.cons hminute (.cons hhour (.cons hdom (.cons hmonth .nil))), ?_⟩
    rintro field text ⟨⟩ value
    exact (testBit_foldSunday value).trans (or_congr (and_congr_right fun _ => hdow value)
      (and_congr_right fun _ => hdow 7))

/-- Every minute from the first on, by the largest step there is. -/
def hugeStep : Str := "1/9223372036854775807 * * * *".toList

/-- The second value of the range is below zero. -/
theorem huge_step_panics : ¬ MeansWhatItSays hugeStep := by
  intro hmeans
  have hfirst : parseElement ⟨"minute", 0, 59, by decide⟩ "1/9223372036854775807".toList =
      .ok ⟨1, 59, ⟨9223372036854775807, by decide⟩, by decide⟩ := by
    rfl
  have hpanic : parseCronField ⟨"minute", 0, 59, by decide⟩ "1/9223372036854775807".toList =
      .error .panic := by
    have hmark := @mark_panic 59 1 ⟨9223372036854775807, by decide⟩ 0 (by decide) (by decide)
      (by decide) (by decide)
    have hsplit : "1/9223372036854775807".toList.splitOn ',' =
        ["1/9223372036854775807".toList] := by
      decide +kernel
    rw [parseCronField, hsplit, List.foldlM_cons, markElement, hfirst]
    simp only [hmark]
    rfl
  have hfields : fields hugeStep = "1/9223372036854775807".toList ::
      List.replicate 4 "*".toList := by
    decide +kernel
  refine hmeans.noPanic "minute" "1/9223372036854775807".toList ?_
  simp only [parseCron, hfields, cronFields, List.zip_cons_cons, parseFields, hpanic]
  rfl

end K3sm.Executor.Cron
