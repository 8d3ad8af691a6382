import K3sm.Executor.Cron

/-!
# The loop of the snapshot schedule

The due time is found once, from the reading a plan is made at, and later readings are only
compared with it.  A clock that is set back over minutes of the schedule passes them again
with no snapshot, up to the due time.
-/

namespace K3sm.Executor.SnapshotSchedule

open Cron

/-- A schedule in a location: the order of the instants, the minutes it matches and `Next`. -/
structure Calendar (Instant : Type) where
  stamp : Instant → ℤ
  scheduled : Set Instant
  next : Instant → Option Instant

/-- A reading of the wall clock, and whether the context lets the loop go on from there. -/
structure Reading (Instant : Type) where
  now : Instant
  live : Bool

/-- A reading while the loop waits: the reading `due` was planned from, the one before, how
many snapshots are taken. -/
structure Wake (Instant : Type) where
  plan : Instant
  due : Instant
  last : Instant
  reading : Reading Instant
  ticks : ℕ

inductive Stage (Instant : Type)
  | planning
  | waiting (plan due last : Instant)
  | ended

variable {Instant : Type} (calendar : Calendar Instant)

namespace Calendar

def look (plan due last : Instant) (reading : Reading Instant) : Wake Instant where
  plan := plan
  due := due
  last := last
  reading := reading
  ticks :=
    if calendar.stamp reading.now < calendar.stamp due ∨ reading.live = false then 0 else 1

/-- The loop of `run` over the readings that it takes. -/
def run : Stage Instant → List (Reading Instant) → List (Wake Instant)
  | _, [] => []
  | .ended, _ => []
  | .planning, reading :: rest =>
    match calendar.next reading.now with
    | none => run .ended rest
    | some due => run (.waiting reading.now due reading.now) rest
  | .waiting plan due last, reading :: rest =>
    calendar.look plan due last reading ::
      if reading.live = false then run .ended rest
      else if calendar.stamp reading.now < calendar.stamp due then
        run (.waiting plan due reading.now) rest
      else run .planning rest

/-- A minute of the schedule lies after the one instant and not after the other. -/
def DueIn (after upTo : Instant) : Prop :=
  ∃ minute ∈ calendar.scheduled, calendar.stamp after < calendar.stamp minute ∧
    calendar.stamp minute ≤ calendar.stamp upTo

/-- One tick when a minute was due since the reading before, and else none. -/
structure Follows (wake : Wake Instant) : Prop where
  one : wake.reading.live = true → calendar.DueIn wake.last wake.reading.now → wake.ticks = 1
  none : ¬ calendar.DueIn wake.last wake.reading.now → wake.ticks = 0

/-- `due` is the first minute of the schedule after an instant. -/
structure First (after due : Instant) : Prop where
  scheduled : due ∈ calendar.scheduled
  later : calendar.stamp after < calendar.stamp due
  least : ∀ minute ∈ calendar.scheduled, calendar.stamp after < calendar.stamp minute →
    calendar.stamp due ≤ calendar.stamp minute

variable {calendar} {plan due last : Instant} {wake : Wake Instant}

theorem First.follows (hfirst : calendar.First last due) (reading : Reading Instant) :
    calendar.Follows (calendar.look plan due last reading) where
  one := by
    rintro hlive ⟨minute, hscheduled, hafter, hupTo⟩
    have hdue := hfirst.least minute hscheduled hafter
    simp only [look] at hlive hupTo ⊢
    rw [if_neg]
    rintro (hearly | hstopped)
    · omega
    · rw [hlive] at hstopped
      cases hstopped
  none := by
    intro hnone
    refine if_pos (.inl (not_le.1 fun hpast => hnone ?_))
    exact ⟨due, hfirst.scheduled, hfirst.later, hpast⟩

/-- The clock is not behind a minute of the schedule that it had passed at the plan. -/
def NotSetBack (calendar : Calendar Instant) (wake : Wake Instant) : Prop :=
  ¬ calendar.DueIn wake.last wake.plan

/-- The reading before a wake is not past the due time. -/
def Stage.Early (calendar : Calendar Instant) : Stage Instant → Prop
  | .waiting plan due last =>
    calendar.First plan due → calendar.stamp last < calendar.stamp due
  | _ => True

theorem run_early {stage : Stage Instant} (hstage : Stage.Early calendar stage)
    (readings : List (Reading Instant)) (hwake : wake ∈ calendar.run stage readings) :
    calendar.look wake.plan wake.due wake.last wake.reading = wake ∧
      (calendar.First wake.plan wake.due → calendar.stamp wake.last < calendar.stamp wake.due) := by
  fun_induction calendar.run stage readings with
  | case1 => cases hwake
  | case2 => cases hwake
  | case3 _ _ _ ih => exact ih trivial hwake
  | case4 reading _ due hdue ih => exact ih (fun hfirst => hfirst.later) hwake
  | case5 plan due last reading rest ihEnded ihWaiting ihPlanning =>
    rcases List.mem_cons.1 hwake with rfl | hlater
    · exact ⟨rfl, hstage⟩
    split_ifs at hlater with hstopped hearly
    · exact ihEnded trivial hlater
    · exact ihWaiting (fun _ => hearly) hlater
    · exact ihPlanning trivial hlater

theorem first_last (hfirst : calendar.First plan due)
    (hearly : calendar.stamp last < calendar.stamp due) (hback : ¬ calendar.DueIn last plan) :
    calendar.First last due where
  scheduled := hfirst.scheduled
  later := hearly
  least := by
    intro minute hscheduled hafter
    refine hfirst.least minute hscheduled (not_le.1 fun hpassed => hback ?_)
    exact ⟨minute, hscheduled, hafter, hpassed⟩

theorem follows_iff (hfirst : calendar.First plan due)
    (hearly : calendar.stamp last < calendar.stamp due) :
    (∀ reading, calendar.Follows (calendar.look plan due last reading)) ↔
      ¬ calendar.DueIn last plan := by
  refine ⟨?_, fun hback => (first_last hfirst hearly hback).follows⟩
  rintro hfollows ⟨minute, hscheduled, hafter, hpassed⟩
  have hone := (hfollows ⟨minute, true⟩).one rfl ⟨minute, hscheduled, hafter, le_rfl⟩
  rw [look, if_pos (.inl (hpassed.trans_lt hfirst.later))] at hone
  cases hone

end Calendar

/-- An instant in UTC. -/
structure Moment where
  minute : Minute
  nanos : ℕ
  nanos_lt : nanos < 60000000000

def utc (cron : CronSchedule) : Calendar Moment where
  stamp moment := moment.minute.key * 60000000000 + moment.nanos
  scheduled := { moment | cron.Matches moment.minute ∧ moment.nanos = 0 }
  next moment := (cron.next moment.minute).map fun minute => ⟨minute, 0, by decide⟩

theorem utc_first (cron : CronSchedule) {plan due : Moment}
    (hnext : (utc cron).next plan = some due) : (utc cron).First plan due := by
  obtain ⟨found, hfound, rfl⟩ := Option.map_eq_some_iff.1 hnext
  have hleast := @CronSchedule.next_least cron plan.minute
  rw [hfound] at hleast
  obtain ⟨hstart, -, hmatches, hmin⟩ := hleast
  have hplan := plan.nanos_lt
  refine ⟨⟨hmatches, rfl⟩, by simp only [utc]; omega, ?_⟩
  rintro other ⟨hother, hwhole⟩ hafter
  simp only [utc, hwhole] at hafter ⊢
  by_contra hearly
  exact hmin other.minute (by omega) (by omega) hother

/-- A wake follows the schedule whatever it reads exactly where the clock was not set back.
-/
theorem schedule_exact (calendar : Calendar Instant) (readings : List (Reading Instant)) :
    (∀ wake ∈ calendar.run .planning readings, calendar.First wake.plan wake.due →
      (calendar.NotSetBack wake → calendar.Follows wake) ∧
      ((∀ reading, calendar.Follows (calendar.look wake.plan wake.due wake.last reading)) ↔
        calendar.NotSetBack wake)) ∧
    ∀ (cron : CronSchedule) (plan due : Moment), (utc cron).next plan = some due →
      (utc cron).First plan due := by
  refine ⟨fun wake hwake hfirst => ?_, fun cron plan due => utc_first cron⟩
  have hstart : Calendar.Stage.Early calendar .planning := trivial
  obtain ⟨hlook, hearly⟩ := Calendar.run_early hstart readings hwake
  have hiff := Calendar.follows_iff hfirst (hearly hfirst)
  refine ⟨fun hback => ?_, hiff⟩
  rw [← hlook]
  exact hiff.2 hback wake.reading

/-- 30 * * * *. -/
def hourly : CronSchedule := ⟨2 ^ 30, 2 ^ 24 - 1, 2 ^ 32 - 2, 2 ^ 13 - 2, 2 ^ 7 - 1, true, true⟩

def onMarchFifth (hour minute : ℕ) (hhour : hour < 24) (hminute : minute < 60) : Moment :=
  ⟨⟨2026, 3, 5, hour, minute, by decide, by decide, hhour, hminute⟩, 0, by decide⟩

def planned : Moment := onMarchFifth 11 29 (by decide) (by decide)

def dueAt : Moment := onMarchFifth 11 30 (by decide) (by decide)

theorem hourly_next : (utc hourly).next planned = some dueAt := by
  simp only [utc]
  rw [CronSchedule.next, CronSchedule.search]
  rfl

/-- The loop waits until 11:30 from a plan at 11:29 on. -/
theorem hourly_run (readings : List (Reading Moment)) :
    (utc hourly).run .planning (⟨planned, true⟩ :: readings) =
      (utc hourly).run (.waiting planned dueAt planned) readings := by
  simp only [Calendar.run, hourly_next]

theorem schedule_exact_hourly : ∃ wake ∈ (utc hourly).run .planning
    [⟨planned, true⟩, ⟨dueAt, true⟩], wake.ticks = 1 ∧ (utc hourly).Follows wake := by
  have hwake : (utc hourly).look planned dueAt planned ⟨dueAt, true⟩ ∈
      (utc hourly).run .planning [⟨planned, true⟩, ⟨dueAt, true⟩] := by
    rw [hourly_run]
    exact List.mem_cons_self
  have hexact := (schedule_exact (utc hourly) _).1 _ hwake (utc_first hourly hourly_next)
  refine ⟨_, hwake, rfl, hexact.1 ?_⟩
  rintro ⟨minute, -, hafter, hupTo⟩
  exact hafter.not_ge hupTo

def setBackTo : Moment := onMarchFifth 10 29 (by decide) (by decide)

/-- The clock is set back by an hour, and passes 10:30 again. -/
theorem set_back_missed : ∃ wake ∈ (utc hourly).run .planning
    [⟨planned, true⟩, ⟨setBackTo, true⟩, ⟨onMarchFifth 10 35 (by decide) (by decide), true⟩],
    ¬ (utc hourly).Follows wake := by
  refine ⟨(utc hourly).look planned dueAt setBackTo
    ⟨onMarchFifth 10 35 (by decide) (by decide), true⟩, ?_, fun hfollows => ?_⟩
  · rw [hourly_run]
    exact List.mem_cons_of_mem _ List.mem_cons_self
  · refine absurd (hfollows.one rfl
      ⟨onMarchFifth 10 30 (by decide) (by decide), ⟨?_, rfl⟩, ?_, ?_⟩) (by decide)
    · simp only [CronSchedule.Matches]
      decide
    · decide
    · decide

end K3sm.Executor.SnapshotSchedule
