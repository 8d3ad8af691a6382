import K3sm.Provider.PolicyKept

/-!
# One death, one re-execution

A worker answers the run whose exit started it and the runs its calls end, and the back-off is
advanced for a run when its exit is scheduled, or when a worker that was started to kill has
killed it.  As long as every exit it acts on is of the container's latest run, no run is answered
twice and the back-off is not advanced for it twice, the advances after failed calls apart.
-/

namespace K3sm.Provider

open K3sm.Core K3sm.Core.Filepath List Function Option

/-- The termination of the latest run, as a status shows it. -/
def Slot.lastKey (slot : Slot) : Option TerminationKey :=
  match slot.process with
  | .dead term | .lost term =>
    some (terminationKey slot.count
      { term with exitCode := terminatedExitCode term.exitCode term.signal })
  | _ => none

structure Tidy (slot : Slot) (worker : Worker) : Prop where
  open_deaths : ∀ run ∈ worker.deaths, run ∉ slot.reexecs
  deaths_once : worker.deaths.Nodup
  deaths_past : ∀ run ∈ worker.deaths, run ≤ slot.count
  served_past : ∀ start, worker.stage = .served start → ∀ run ∈ worker.deaths, run < slot.count
  kills_deaths : ∀ run ∈ worker.kills, run ∈ worker.deaths
  kills_once : worker.kills.Nodup
  kills_over : ∀ run ∈ worker.kills, run = slot.count → slot.lastKey.isSome = true
  settles_open : ∀ run ∈ worker.settles, run ∉ slot.advances

structure Answered (slot : Slot) : Prop where
  past : ∀ run ∈ slot.reexecs, run < slot.count
  once : slot.reexecs.Nodup
  bound : ∀ run ∈ slot.advances, run ≤ slot.count
  single : slot.advances.Nodup
  latched : slot.count ∈ slot.advances →
    slot.lastKey.isSome = true ∧ slot.restart.seen = slot.lastKey
  fresh : ∀ gen, slot.restart.attemptGen < gen → slot.workers gen = none
  live : ∀ gen worker, slot.workers gen = some worker → worker.cancelled = false →
    slot.restart.attempt = true ∧ slot.restart.attemptGen = gen ∧ slot.restart.cancel = some gen
  tidy : ∀ gen worker, slot.workers gen = some worker → worker.cancelled = false → Tidy slot worker

@[simp]
theorem endAttempt_seen (gen : ℕ) (restart : ContainerRestart) :
    (restart.endAttempt gen).seen = restart.seen := by
  unfold ContainerRestart.endAttempt
  split <;> rfl

@[simp]
theorem endAttempt_attemptGen (gen : ℕ) (restart : ContainerRestart) :
    (restart.endAttempt gen).attemptGen = restart.attemptGen := by
  unfold ContainerRestart.endAttempt
  split <;> rfl

@[simp]
theorem clearRefusal_seen (gen : ℕ) (restart : ContainerRestart) :
    (restart.clearRefusal gen).seen = restart.seen := by
  unfold ContainerRestart.clearRefusal
  split <;> rfl

@[simp]
theorem clearRefusal_attemptGen (gen : ℕ) (restart : ContainerRestart) :
    (restart.clearRefusal gen).attemptGen = restart.attemptGen := by
  unfold ContainerRestart.clearRefusal
  split <;> rfl

section Slot

variable {slot : Slot}

variable {key : TerminationKey} {worker : Worker} {gen : ℕ}

theorem Answered.unique (hanswered : Answered slot) {other : ℕ} {second : Worker}
    (hworker : slot.workers gen = some worker) (hlive : worker.cancelled = false)
    (hsecond : slot.workers other = some second) (hsecondLive : second.cancelled = false) :
    other = gen :=
  (hanswered.live other second hsecond hsecondLive).2.1.symm.trans
    (hanswered.live gen worker hworker hlive).2.1

theorem Answered.all_cancelled (hanswered : Answered slot) (hfree : slot.restart.attempt = false)
    (hworker : slot.workers gen = some worker) : worker.cancelled = true := by
  by_contra hlive
  have hheld := (hanswered.live gen worker hworker (by simpa using hlive)).1
  rw [hfree] at hheld
  cases hheld

theorem Tidy.transfer {after : Slot} (htidy : Tidy slot worker)
    (hreexecs : after.reexecs = slot.reexecs) (hadvances : after.advances = slot.advances)
    (hcount : slot.count ≤ after.count)
    (hlast : after.count = slot.count → slot.lastKey.isSome = true → after.lastKey = slot.lastKey) :
    Tidy after worker where
  open_deaths := by
    rw [hreexecs]
    exact htidy.open_deaths
  deaths_once := htidy.deaths_once
  deaths_past := fun run hrun => (htidy.deaths_past run hrun).trans hcount
  served_past := fun start hstage run hrun =>
    (htidy.served_past start hstage run hrun).trans_le hcount
  kills_deaths := htidy.kills_deaths
  kills_once := htidy.kills_once
  kills_over := by
    intro run hrun hlatest
    have hpast := htidy.deaths_past run (htidy.kills_deaths run hrun)
    have hsame : after.count = slot.count := by omega
    have hover := htidy.kills_over run hrun (hlatest.trans hsame)
    rwa [hlast hsame hover]
  settles_open := by
    rw [hadvances]
    exact htidy.settles_open

/-- A change that answers no run and advances no back-off: the restart count does not fall,
the latest run stays over once it is, and a worker that goes on is as tidy as it was. -/
theorem Answered.step {after : Slot} (hanswered : Answered slot)
    (hreexecs : after.reexecs = slot.reexecs) (hadvances : after.advances = slot.advances)
    (hseen : after.restart.seen = slot.restart.seen)
    (hattempt : after.restart.attempt = slot.restart.attempt)
    (hgen : after.restart.attemptGen = slot.restart.attemptGen)
    (hcancel : after.restart.cancel = slot.restart.cancel) (hcount : slot.count ≤ after.count)
    (hlast : after.count = slot.count → slot.lastKey.isSome = true → after.lastKey = slot.lastKey)
    (hworkers : ∀ gen worker, after.workers gen = some worker → ∃ before,
      slot.workers gen = some before ∧ before.cancelled = worker.cancelled ∧
      (worker.cancelled = false → Tidy slot before → Tidy after worker)) : Answered after where
  past := by
    rw [hreexecs]
    exact fun run hrun => (hanswered.past run hrun).trans_le hcount
  once := by
    rw [hreexecs]
    exact hanswered.once
  bound := by
    rw [hadvances]
    exact fun run hrun => (hanswered.bound run hrun).trans hcount
  single := by
    rw [hadvances]
    exact hanswered.single
  latched := by
    rw [hadvances]
    intro hrun
    have hbound := hanswered.bound _ hrun
    have hsame : after.count = slot.count := by omega
    rw [hsame] at hrun
    obtain ⟨hover, hlatch⟩ := hanswered.latched hrun
    rw [hlast hsame hover, hseen]
    exact ⟨hover, hlatch⟩
  fresh := by
    intro gen hgens
    rw [hgen] at hgens
    cases hworker : after.workers gen with
    | none => rfl
    | some worker =>
      obtain ⟨before, hbefore, _⟩ := hworkers gen worker hworker
      rw [hanswered.fresh gen hgens] at hbefore
      cases hbefore
  live := by
    intro gen worker hworker hlive
    obtain ⟨before, hbefore, hsame, _⟩ := hworkers gen worker hworker
    rw [hattempt, hgen, hcancel]
    exact hanswered.live gen before hbefore (hsame.trans hlive)
  tidy := by
    intro gen worker hworker hlive
    obtain ⟨before, hbefore, hsame, htidy⟩ := hworkers gen worker hworker
    exact htidy hlive (hanswered.tidy gen before hbefore (hsame.trans hlive))

theorem Answered.finish (hanswered : Answered slot) (gen : ℕ) : Answered (slot.finish gen) where
  past := hanswered.past
  once := hanswered.once
  bound := hanswered.bound
  single := hanswered.single
  latched := by
    intro hcount
    obtain ⟨hover, hlatch⟩ := hanswered.latched hcount
    exact ⟨hover, (endAttempt_seen gen slot.restart).trans hlatch⟩
  fresh := by
    intro other hother
    simp only [Slot.finish, endAttempt_attemptGen] at hother
    by_cases hsame : other = gen
    · subst hsame
      exact update_self ..
    · exact (update_of_ne hsame ..).trans (hanswered.fresh other hother)
  live := by
    intro other worker hworker hlive
    by_cases hsame : other = gen
    · subst hsame
      have hnone : (slot.finish other).workers other = none := update_self ..
      rw [hnone] at hworker
      cases hworker
    have hold : slot.workers other = some worker := by
      simpa only [Slot.finish, update_of_ne hsame] using hworker
    obtain ⟨hheld, hclaim, hstops⟩ := hanswered.live other worker hold hlive
    have hfree : slot.restart.holdsAttempt gen = false := by
      simp only [ContainerRestart.holdsAttempt, hclaim, Bool.and_eq_false_imp, beq_eq_false_iff_ne]
      exact fun _ => hsame
    show (slot.restart.endAttempt gen).attempt = true ∧ _
    simp only [Slot.finish, ContainerRestart.endAttempt, hfree]
    exact ⟨hheld, hclaim, hstops⟩
  tidy := by
    intro other worker hworker hlive
    by_cases hsame : other = gen
    · subst hsame
      have hnone : (slot.finish other).workers other = none := update_self ..
      rw [hnone] at hworker
      cases hworker
    · have hold : slot.workers other = some worker := by
        simpa only [Slot.finish, update_of_ne hsame] using hworker
      exact (hanswered.tidy other worker hold hlive).transfer rfl rfl le_rfl fun _ _ => rfl

theorem updated_workers {after : Slot} {changed : Worker} (hworker : slot.workers gen = some worker)
    (hafter : after.workers = Function.update slot.workers gen (some changed))
    (hsame : worker.cancelled = changed.cancelled)
    (hothers : ∀ other : Worker, Tidy slot other → Tidy after other)
    (hchanged : Tidy slot worker → Tidy after changed) (other : ℕ) (found : Worker)
    (hfound : after.workers other = some found) :
    ∃ before, slot.workers other = some before ∧ before.cancelled = found.cancelled ∧
      (found.cancelled = false → Tidy slot before → Tidy after found) := by
  rw [hafter] at hfound
  by_cases hgen : other = gen
  · subst hgen
    rw [update_self] at hfound
    obtain rfl := some.inj hfound
    exact ⟨worker, hworker, hsame, fun _ => hchanged⟩
  · rw [update_of_ne hgen] at hfound
    exact ⟨found, hfound, rfl, fun _ => hothers found⟩

theorem Answered.fire (hanswered : Answered slot) (gen : ℕ) (noticed : Bool) :
    Answered (slot.fire gen noticed) := by
  unfold Slot.fire
  cases hworker : slot.workers gen with
  | none => exact hanswered
  | some worker =>
    dsimp only
    split
    · exact hanswered
    split
    · exact hanswered.finish gen
    refine hanswered.step rfl rfl rfl rfl rfl rfl le_rfl (fun _ _ => rfl)
      (updated_workers hworker rfl rfl
        (fun _ htidy => htidy.transfer rfl rfl le_rfl fun _ _ => rfl) ?_)
    intro htidy
    exact ⟨htidy.open_deaths, htidy.deaths_once, htidy.deaths_past, nofun,
      htidy.kills_deaths, htidy.kills_once, htidy.kills_over, htidy.settles_open⟩

theorem lastKey_running (hrunning : slot.process = .running) : slot.lastKey = none := by
  simp only [Slot.lastKey, hrunning]

section

variable (hanswered : Answered slot)
include hanswered

theorem Answered.kill (gen : ℕ) (term : Terminated) : Answered (slot.kill gen term) := by
  unfold Slot.kill
  cases hworker : slot.workers gen with
  | none => exact hanswered
  | some worker =>
    dsimp only
    split
    · rename_i hkill
      have hlast := lastKey_running hkill.2
      have hover : slot.lastKey.isSome = true → False := by
        rw [hlast]
        exact nofun
      have hadvances : slot.count ∉ slot.advances :=
        fun hcount => hover (hanswered.latched hcount).1
      have hreexecs : slot.count ∉ slot.reexecs :=
        fun hcount => lt_irrefl _ (hanswered.past _ hcount)
      refine hanswered.step rfl rfl rfl rfl rfl rfl le_rfl (fun _ hsome => (hover hsome).elim)
        (updated_workers hworker rfl rfl
          (fun _ htidy => htidy.transfer rfl rfl le_rfl fun _ hsome => (hover hsome).elim) ?_)
      intro htidy
      have hkills : slot.count ∉ worker.kills :=
        fun hcount => hover (htidy.kills_over _ hcount rfl)
      refine ⟨?_, htidy.deaths_once.insert, ?_, ?_, ?_, ?_, fun _ _ _ => rfl, ?_⟩
      · intro run hrun
        rcases mem_insert_iff.1 hrun with rfl | hold
        · exact hreexecs
        · exact htidy.open_deaths run hold
      · intro run hrun
        rcases mem_insert_iff.1 hrun with rfl | hold
        · exact le_rfl
        · exact htidy.deaths_past run hold
      · intro start hstage
        rw [hkill.1] at hstage
        cases hstage
      · intro run hrun
        rcases mem_cons.1 hrun with rfl | hold
        · exact mem_insert_self
        · exact mem_insert_of_mem (htidy.kills_deaths run hold)
      · exact nodup_cons.2 ⟨hkills, htidy.kills_once⟩
      · intro run hrun
        have hsettles : run = slot.count ∨ run ∈ worker.settles := by
          unfold Worker.settles at hrun ⊢
          cases htrigger : worker.trigger <;> simp_all
        rcases hsettles with rfl | hold
        · exact hadvances
        · exact htidy.settles_open run hold
    · exact hanswered

theorem Answered.spawn (gen : ℕ) : Answered (slot.spawn gen) := by
  unfold Slot.spawn
  cases hworker : slot.workers gen with
  | none => exact hanswered
  | some worker =>
    dsimp only
    split
    · rename_i start _
      split
      · have hmore : ∀ {goal : Prop}, slot.count + 1 = slot.count → goal :=
          fun hcount => absurd hcount (Nat.succ_ne_self _)
        refine hanswered.step rfl rfl rfl rfl rfl rfl (Nat.le_succ _) (fun hcount => hmore hcount)
          (updated_workers hworker rfl rfl
            (fun _ htidy => htidy.transfer rfl rfl (Nat.le_succ _) fun hcount => hmore hcount) ?_)
        intro htidy
        have hpast : ∀ run ∈ worker.deaths.insert slot.count, run < slot.count + 1 := by
          intro run hrun
          rcases mem_insert_iff.1 hrun with rfl | hold
          · exact Nat.lt_succ_self _
          · exact Nat.lt_succ_of_le (htidy.deaths_past run hold)
        refine ⟨?_, htidy.deaths_once.insert, fun run hrun => (hpast run hrun).le,
          fun _ _ => hpast, ?_, htidy.kills_once, ?_, htidy.settles_open⟩
        · intro run hrun
          rcases mem_insert_iff.1 hrun with rfl | hold
          · exact fun hcount => lt_irrefl _ (hanswered.past _ hcount)
          · exact htidy.open_deaths run hold
        · exact fun run hrun => mem_insert_of_mem (htidy.kills_deaths run hrun)
        · intro run hrun hlatest
          have hold := htidy.deaths_past run (htidy.kills_deaths run hrun)
          have hlatest : run = slot.count + 1 := hlatest
          omega
      · exact hanswered
    · exact hanswered

theorem Answered.succeed
    (hlive : ∀ worker, slot.workers gen = some worker → worker.cancelled = false) :
    Answered (slot.succeed gen) := by
  unfold Slot.succeed
  cases hworker : slot.workers gen with
  | none => exact hanswered
  | some worker =>
    dsimp only
    split
    · rename_i start hstage
      have htidy := hanswered.tidy gen worker hworker (hlive worker hworker)
      have hpast := htidy.served_past start hstage
      have hsettles : ∀ run ∈ worker.settles, run ∈ worker.kills := by
        intro run hrun
        unfold Worker.settles at hrun
        cases htrigger : worker.trigger <;> simp_all
      have hunder : ∀ run ∈ worker.settles, run < slot.count :=
        fun run hrun => hpast run (htidy.kills_deaths run (hsettles run hrun))
      have hsettlesOnce : worker.settles.Nodup := by
        unfold Worker.settles
        cases worker.trigger with
        | exit key term => exact nodup_nil
        | liveness | postStart => exact htidy.kills_once
      -- The worker is gone after this, and no other of the container is uncancelled.
      have hgone : ∀ other found, (Function.update slot.workers gen none) other = some found →
          found.cancelled = false → False := by
        intro other found hfound hfoundLive
        by_cases hsame : other = gen
        · subst hsame
          rw [update_self] at hfound
          cases hfound
        · rw [update_of_ne hsame] at hfound
          exact hsame (hanswered.unique hworker (hlive worker hworker) hfound hfoundLive)
      refine ⟨?_, ?_, ?_, ?_, ?_, ?_, ?_, ?_⟩
      · exact forall_mem_append.2 ⟨hanswered.past, hpast⟩
      · refine hanswered.once.append htidy.deaths_once ?_
        exact fun run hold hnew => htidy.open_deaths run hnew hold
      · intro run hrun
        rcases mem_append.1 hrun with hold | hnew
        · exact hanswered.bound run hold
        · exact (hunder run hnew).le
      · refine hanswered.single.append hsettlesOnce ?_
        exact fun run hold hnew => htidy.settles_open run hnew hold
      · intro hrun
        rcases mem_append.1 hrun with hold | hnew
        · obtain ⟨hover, hlatch⟩ := hanswered.latched hold
          refine ⟨hover, Eq.trans ?_ hlatch⟩
          simp only [Slot.finish, endAttempt_seen, clearRefusal_seen]
        · exact absurd (hunder _ hnew) (lt_irrefl _)
      · intro other hother
        have hfresh : slot.restart.attemptGen < other := by
          simpa only [Slot.finish, endAttempt_attemptGen, clearRefusal_attemptGen] using hother
        by_cases hsame : other = gen
        · subst hsame
          exact update_self ..
        · exact (update_of_ne hsame ..).trans (hanswered.fresh other hfresh)
      · exact fun other found hfound hfoundLive => (hgone other found hfound hfoundLive).elim
      · exact fun other found hfound hfoundLive => (hgone other found hfound hfoundLive).elim
    · exact hanswered

theorem Answered.failCall (now gen : ℕ) (cause : Str) : Answered (slot.failCall now gen cause) := by
  unfold Slot.failCall
  cases hworker : slot.workers gen with
  | none => exact hanswered
  | some worker =>
    dsimp only
    split
    · exact hanswered
    split
    · exact hanswered.finish gen
    split
    · refine hanswered.step rfl rfl rfl rfl rfl rfl le_rfl (fun _ _ => rfl)
        (updated_workers hworker rfl rfl
          (fun _ htidy => htidy.transfer rfl rfl le_rfl fun _ _ => rfl) ?_)
      intro htidy
      exact ⟨htidy.open_deaths, htidy.deaths_once, htidy.deaths_past, nofun,
        htidy.kills_deaths, htidy.kills_once, htidy.kills_over, htidy.settles_open⟩
    · exact hanswered.finish gen

theorem Answered.process {count : ℕ} {process : ProcessState}
    (requests : List Ending) (hcount : slot.count ≤ count)
    (hover : count = slot.count → slot.lastKey = none) :
    Answered { slot with count := count, process := process, requests := requests } := by
  have hlast : ∀ {goal : Prop}, count = slot.count → slot.lastKey.isSome = true → goal := by
    intro goal hsame hsome
    rw [hover hsame] at hsome
    cases hsome
  refine hanswered.step rfl rfl rfl rfl rfl rfl hcount (fun hsame hsome => hlast hsame hsome) ?_
  intro gen worker hworker
  exact ⟨worker, hworker, rfl,
    fun _ htidy => htidy.transfer rfl rfl hcount fun hsame hsome => hlast hsame hsome⟩

theorem Answered.exit (term : Terminated) : Answered (slot.exit term) := by
  unfold Slot.exit
  split
  · rename_i hrunning
    exact hanswered.process slot.requests le_rfl fun _ => lastKey_running hrunning
  · exact hanswered

theorem Answered.start : Answered slot.start := by
  unfold Slot.start
  split
  · rename_i habsent
    exact hanswered.process slot.requests le_rfl fun _ => by simp only [Slot.lastKey, habsent]
  · exact hanswered

theorem Answered.pullStart : Answered slot.pullStart := by
  unfold Slot.pullStart
  cases hprocess : slot.process with
  | absent =>
    exact hanswered.process slot.requests le_rfl fun _ => by simp only [Slot.lastKey, hprocess]
  | lost term =>
    exact hanswered.process _ (Nat.le_succ _) fun hsame => absurd hsame (Nat.succ_ne_self _)
  | running | dead term => exact hanswered

theorem Answered.observeRunning : Answered slot.observeRunning := by
  refine hanswered.step rfl rfl rfl rfl rfl rfl le_rfl (fun _ _ => rfl) ?_
  intro gen worker hworker
  exact ⟨worker, hworker, rfl, fun _ htidy => htidy.transfer rfl rfl le_rfl fun _ _ => rfl⟩

theorem Answered.abort : Answered slot.abort := by
  have hgone : ∀ gen worker, slot.abort.workers gen = some worker → worker.cancelled = true := by
    intro gen worker hworker
    by_contra hlive
    have hlive : worker.cancelled = false := by simpa using hlive
    unfold Slot.abort at hworker
    cases hcancel : slot.restart.cancel with
    | none =>
      simp only [hcancel] at hworker
      have hstops := (hanswered.live gen worker hworker hlive).2.2
      rw [hcancel] at hstops
      cases hstops
    | some claim =>
      simp only [hcancel] at hworker
      by_cases hsame : gen = claim
      · subst hsame
        rw [update_self] at hworker
        obtain ⟨found, _, rfl⟩ := map_eq_some_iff.1 hworker
        cases hlive
      · rw [update_of_ne hsame] at hworker
        have hstops := (hanswered.live gen worker hworker hlive).2.2
        rw [hcancel] at hstops
        exact hsame (some.inj hstops).symm
  refine ⟨hanswered.past, hanswered.once, hanswered.bound, hanswered.single, hanswered.latched,
    ?_, ?_, ?_⟩
  · intro gen hgen
    have hnone := hanswered.fresh gen hgen
    unfold Slot.abort
    cases hcancel : slot.restart.cancel with
    | none => exact hnone
    | some claim =>
      by_cases hsame : gen = claim
      · subst hsame
        simp only [update_self, hnone, map_none]
      · simpa only [update_of_ne hsame] using hnone
  · intro gen worker hworker hlive
    rw [hgone gen worker hworker] at hlive
    cases hlive
  · intro gen worker hworker hlive
    rw [hgone gen worker hworker] at hlive
    cases hlive

theorem Answered.startWorker (hfree : slot.restart.attempt = false)
    (trigger : Trigger) (delay : ℕ) {deaths : List ℕ} (hdeaths : deaths.Nodup)
    (hopen : ∀ run ∈ deaths, run ∉ slot.reexecs) (hpast : ∀ run ∈ deaths, run ≤ slot.count) :
    Answered (slot.startWorker trigger delay deaths) := by
  have hworkers : ∀ gen worker, (slot.startWorker trigger delay deaths).workers gen = some worker →
      worker.cancelled = false → gen = slot.restart.attemptGen + 1 ∧
        worker = ⟨trigger, false, delay, .waiting, deaths, []⟩ := by
    intro gen worker hworker hlive
    by_cases hsame : gen = slot.restart.attemptGen + 1
    · subst hsame
      have hnew : (slot.startWorker trigger delay deaths).workers (slot.restart.attemptGen + 1) =
          some ⟨trigger, false, delay, .waiting, deaths, []⟩ := update_self ..
      rw [hnew] at hworker
      exact ⟨rfl, (some.inj hworker).symm⟩
    · have hold : slot.workers gen = some worker := by
        simpa only [Slot.startWorker, update_of_ne hsame] using hworker
      rw [hanswered.all_cancelled hfree hold] at hlive
      cases hlive
  refine ⟨hanswered.past, hanswered.once, hanswered.bound, hanswered.single, hanswered.latched,
    ?_, ?_, ?_⟩
  · intro gen hgen
    have hgen : slot.restart.attemptGen + 1 < gen := hgen
    have hne : gen ≠ slot.restart.attemptGen + 1 := by omega
    exact (update_of_ne hne ..).trans (hanswered.fresh gen (by omega))
  · intro gen worker hworker hlive
    obtain ⟨rfl, _⟩ := hworkers gen worker hworker hlive
    exact ⟨rfl, rfl, rfl⟩
  · intro gen worker hworker hlive
    obtain ⟨_, rfl⟩ := hworkers gen worker hworker hlive
    refine ⟨hopen, hdeaths, hpast, nofun, nofun, nodup_nil, nofun, ?_⟩
    intro run hrun
    unfold Worker.settles at hrun
    cases trigger <;> cases hrun

theorem Answered.killAndRestart (now : ℕ) (trigger : Trigger) :
    Answered (slot.killAndRestart now trigger) := by
  unfold Slot.killAndRestart
  split
  · exact hanswered
  rename_i hfree
  dsimp only
  refine Answered.startWorker ?_ ?_ trigger _ nodup_nil nofun nofun
  · refine hanswered.step rfl rfl rfl rfl rfl rfl le_rfl (fun _ _ => rfl) ?_
    intro gen worker hworker
    exact ⟨worker, hworker, rfl, fun _ htidy => htidy.transfer rfl rfl le_rfl fun _ _ => rfl⟩
  · simpa using hfree

end

/-- The exit would not start a worker, or it is of the container's latest run. -/
def Timely (slot : Slot) (key : TerminationKey) : Prop :=
  slot.restart.attempt = true ∨ slot.restart.seen = some key ∨ slot.lastKey = some key

theorem restartCount_of_lastKey (hlast : slot.lastKey = some key) :
    key.restartCount = slot.count := by
  unfold Slot.lastKey at hlast
  cases hprocess : slot.process with
  | absent | running => rw [hprocess] at hlast; cases hlast
  | dead term | lost term => rw [hprocess] at hlast; exact (some.inj hlast) ▸ rfl

theorem Answered.schedule (hanswered : Answered slot) (now : ℕ) (term : Terminated)
    (htimely : Timely slot key) : Answered (slot.schedule now key term) := by
  unfold Slot.schedule
  split
  · exact hanswered
  rename_i hacts
  have hfree : slot.restart.attempt = false := by
    simpa using fun hattempt => hacts (.inl hattempt)
  have hlast : slot.lastKey = some key := by
    rcases htimely with hattempt | hseen | hlast
    · exact absurd (.inl hattempt) hacts
    · exact absurd (.inr hseen) hacts
    · exact hlast
  have hrun := restartCount_of_lastKey hlast
  -- The latch is of another exit, so the latest run has no advance yet.
  have hadvances : slot.count ∉ slot.advances := by
    intro hcount
    exact hacts (.inr ((hanswered.latched hcount).2.trans hlast))
  dsimp only
  refine Answered.startWorker ?_ ?_ (.exit key term) _ (nodup_singleton _) ?_ ?_
  · refine ⟨hanswered.past, hanswered.once, ?_, ?_, ?_, hanswered.fresh, ?_, ?_⟩
    · exact forall_mem_append.2 ⟨hanswered.bound, forall_mem_singleton.2 hrun.le⟩
    · refine hanswered.single.append (nodup_singleton _) ?_
      intro run hold hnew
      rw [mem_singleton.1 hnew, hrun] at hold
      exact hadvances hold
    · intro _
      have hkept : slot.lastKey.isSome = true := by rw [hlast]; rfl
      exact ⟨hkept, hlast.symm⟩
    · intro gen worker hworker hlive
      rw [hanswered.all_cancelled hfree hworker] at hlive
      cases hlive
    · intro gen worker hworker hlive
      rw [hanswered.all_cancelled hfree hworker] at hlive
      cases hlive
  · exact hfree
  · intro run hrunIn hanswer
    rw [mem_singleton.1 hrunIn, hrun] at hanswer
    exact lt_irrefl _ (hanswered.past _ hanswer)
  · intro run hrunIn
    rw [mem_singleton.1 hrunIn]
    exact hrun.le

theorem Timely.schedule (htimely : Timely slot key) (now : ℕ) (other : TerminationKey)
    (term : Terminated) : Timely (slot.schedule now other term) key := by
  unfold Slot.schedule
  split
  · exact htimely
  · exact .inl rfl

end Slot

/-- Every exit that a status starts a worker for is of the container's latest run, and a call
whose worker was cancelled does not succeed. -/
def Orderly (pod : Pod) (state : State) : Step → Prop
  | .observe status => terminal pod status = false → ∀ exit ∈ due pod status,
      Timely (state.slots exit.name) exit.key
  | .succeed name gen => ∀ worker ∈ (state.slots name).workers gen, worker.cancelled = false
  | _ => True

instance (slot : Slot) (key : TerminationKey) : Decidable (Timely slot key) :=
  inferInstanceAs (Decidable (_ ∨ _ ∨ _))

instance (pod : Pod) (state : State) : (step : Step) → Decidable (Orderly pod state step)
  | .observe status => inferInstanceAs (Decidable (terminal pod status = false →
      ∀ exit ∈ due pod status, Timely (state.slots exit.name) exit.key))
  | .succeed name gen => inferInstanceAs (Decidable
      (∀ worker ∈ (state.slots name).workers gen, worker.cancelled = false))
  | .pass _ | .liveness _ | .postStart _ _ | .cancel | .fire _ _ _ | .kill _ _ _ | .spawn _ _
  | .failCall _ _ _ | .start _ | .exit _ _ | .pull _ _ => .isTrue trivial

def AllAnswered (state : State) : Prop := ∀ name, Answered (state.slots name)

theorem Answered.observe {pod : Pod} {status : PodStatus} {name : Str} {slot : Slot}
    (hanswered : Answered slot) (now : ℕ) (htimely : terminal pod status = false →
      ∀ exit ∈ due pod status, exit.name = name → Timely slot exit.key) :
    Answered (slot.observe pod status now name) := by
  have hmarked : Answered
    (if name ∈ observedRunning pod status then slot.observeRunning else slot) ∧
      ∀ key, Timely slot key →
        Timely (if name ∈ observedRunning pod status then slot.observeRunning else slot) key := by
    split
    · exact ⟨hanswered.observeRunning, fun _ hkey => hkey⟩
    · exact ⟨hanswered, fun _ hkey => hkey⟩
  unfold Slot.observe
  dsimp only
  split
  · exact hmarked.1.abort
  rename_i hgoes
  have hdue := htimely (by simpa using hgoes)
  refine (List.foldlRecOn (motive := fun middle : Slot => Answered middle ∧
    ∀ exit ∈ due pod status, exit.name = name → Timely middle exit.key) _ _
    ⟨hmarked.1, fun exit hexit hname => hmarked.2 _ (hdue exit hexit hname)⟩ ?_).1
  intro middle hmiddle exit hexit
  obtain ⟨hmem, hname⟩ := mem_filter.1 hexit
  refine ⟨hmiddle.1.schedule now exit.term (hmiddle.2 exit hmem (of_decide_eq_true hname)), ?_⟩
  intro other hother hsame
  exact (hmiddle.2 other hother hsame).schedule now exit.key exit.term

theorem answered_next {pod : Pod} {state : State} {step : Step} (hanswered : AllAnswered state)
    (horderly : Orderly pod state step) : AllAnswered (next pod state step) := by
  intro name
  have hslot := hanswered name
  have habout : ∀ {about : Prop} [Decidable about] {changed : Slot}, (about → Answered changed) →
      Answered (if about then changed else state.slots name) :=
    fun hchanged => iteInduction hchanged fun _ => hslot
  rw [next_slots]
  cases step with
  | pass time => exact hslot
  | observe status =>
    refine hslot.observe state.now ?_
    rintro hgoes exit hexit rfl
    exact horderly hgoes exit hexit
  | liveness other => exact habout fun _ => hslot.killAndRestart state.now .liveness
  | postStart other stopped =>
    refine habout fun _ =>
      iteInduction (fun _ => hslot.killAndRestart state.now .postStart) fun _ => ?_
    cases stopped with
    | none => exact hslot
    | some term => exact hslot.exit term
  | cancel => exact hslot.abort
  | fire other gen noticed => exact habout fun _ => hslot.fire gen noticed
  | kill other gen term => exact habout fun _ => hslot.kill gen term
  | spawn other gen => exact habout fun _ => hslot.spawn gen
  | succeed other gen =>
    refine habout fun hsame => hslot.succeed ?_
    rw [hsame]
    exact horderly
  | failCall other gen cause => exact habout fun _ => hslot.failCall state.now gen cause
  | start other => exact habout fun _ => hslot.start
  | exit other term => exact habout fun _ => hslot.exit term
  | pull image reached => exact habout fun _ => hslot.pullStart

/-- In an orderly run no run of a container is answered by two successes, and the back-off is
not advanced for it twice, the advances after failed calls apart. -/
theorem one_death_one_reexecution (pod : Pod) (counts : Str → ℕ) (processes : Str → ProcessState)
    {steps : List Step}
    (hsteps : EachStep (Orderly pod) (next pod) (State.tracked counts processes) steps) :
    Always (fun state => ∀ name, (state.slots name).reexecs.Nodup ∧
        (state.slots name).advances.Nodup) (next pod) (State.tracked counts processes) steps := by
  have hstart : AllAnswered (State.tracked counts processes) := by
    intro name
    exact ⟨nofun, nodup_nil, nofun, nodup_nil, nofun, fun _ _ => rfl, nofun, nofun⟩
  have halways : Always AllAnswered (next pod) (State.tracked counts processes) steps :=
    always_of_eachStep (fun state step hanswered horderly => answered_next hanswered horderly)
      hstart hsteps
  exact halways.mono fun state hanswered name => ⟨(hanswered name).once, (hanswered name).single⟩

def demoFailed : PodStatus := ⟨.failed, [⟨['m'], 0, .terminated ⟨1, 0, 5⟩⟩], []⟩

/-- An exit and its re-execution.  The status that showed the exit is delivered again while
the call is out and once more after it. -/
def demoExit : List Step :=
  [.start ['m'], .exit ['m'] ⟨1, 0, 5⟩, .observe demoFailed, .fire ['m'] 1 false,
    .observe demoFailed, .spawn ['m'] 1, .succeed ['m'] 1, .observe demoFailed]

theorem demo_one_death_one_reexecution :
    Always (fun state => ∀ name, (state.slots name).reexecs.Nodup ∧
        (state.slots name).advances.Nodup) (next (demoPod .always)) demoTrack demoExit :=
  one_death_one_reexecution (demoPod .always) (fun _ => 0) (fun _ => .absent) (by decide)

def demoRetried : List Step :=
  [.start ['m'], .exit ['m'] ⟨1, 0, 5⟩, .observe demoFailed, .fire ['m'] 1 false,
    .failCall ['m'] 1 []]

/-- A call that fails advances the back-off again, for the same exit. -/
theorem failed_call_advances_again :
    ¬ ∀ (pod : Pod) (counts : Str → ℕ) (processes : Str → ProcessState) (steps : List Step),
      Always (fun state => ∀ name, (state.slots name).reexecs.Nodup ∧
          ((state.slots name).advances ++ (state.slots name).retries).Nodup)
        (next pod) (State.tracked counts processes) steps := by
  intro hclaim
  have hlast := (hclaim (demoPod .always) (fun _ => 0) (fun _ => .absent) demoRetried).last
  have htwice : ¬ (((demoRetried.foldl (next (demoPod .always))
      (State.tracked (fun _ => 0) (fun _ => .absent))).slots ['m']).advances ++
        ((demoRetried.foldl (next (demoPod .always))
      (State.tracked (fun _ => 0) (fun _ => .absent))).slots ['m']).retries).Nodup := by decide
  exact htwice (hlast ['m']).2

end K3sm.Provider
