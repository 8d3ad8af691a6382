import K3sm.Core.Run
import K3sm.Eviction.Manager

/-!
# Evictions are paced

A cycle evicts at most one pod and no critical one, three evictions in five minutes are the most of
one episode, and between two evictions of an episode the pressure is looked at twice without
movement towards release.
-/

namespace K3sm.Eviction

open K3sm.Core List

section Journal

variable {Level : Type} [LinearOrder Level]

namespace CycleReport

def isCalm : CycleReport Level → Bool
  | .calm => true
  | _ => false

def look : CycleReport Level → Option (Look Level)
  | .calm => none
  | .looked look => some look
  | .evicted look _ => some look

def evictionStart : CycleReport Level → Option Time
  | .evicted look _ => some look.now
  | _ => none

def victim : CycleReport Level → Option Pod
  | .evicted _ eviction => some eviction.victim
  | _ => none

end CycleReport

/-- The cycles since the pressure was last found released, the last one first. -/
def episode (journal : List (CycleReport Level)) : List (CycleReport Level) :=
  journal.takeWhile fun report => !report.isCalm

def evictionStarts (journal : List (CycleReport Level)) : List Time :=
  (episode journal).filterMap CycleReport.evictionStart

/-- The look comes after the teardown: a sample has landed since, or the cleanup bound has
passed. -/
structure After (eviction : EvictionRecord) (look : Look Level) : Prop where
  later : eviction.teardownAt ≤ look.now
  landed : eviction.teardownSeq < look.seq ∨ eviction.teardownAt + evictionCleanupTimeout ≤ look.now

/-- The second look shows no movement towards release; it is at another sample, unless all
attempts in between have failed. -/
structure Unmoved (first second : Look Level) : Prop where
  inOrder : first.now ≤ second.now
  unmoved : ¬ (second.signal = first.signal ∧ second.level < first.level)
  another : first.seq < second.seq ∨
    first.seq = second.seq ∧ first.attempts < second.attempts

structure PacedEviction (look : Look Level) (eviction : EvictionRecord)
    (older : List (CycleReport Level)) : Prop where
  notCritical : isCriticalPod eviction.victim = false
  recentSample : eviction.sampleAge ≤ staleSampleFactor * eviction.interval
  capped : ∀ first second third, [third, second, first].Sublist (evictionStarts older) →
    first + evictionCascadeWindow ≤ look.now
  spaced : ∀ between earlierLook earlier rest,
    episode older = between ++ .evicted earlierLook earlier :: rest →
    between.filterMap CycleReport.evictionStart = [] →
    ∃ prior skipped, between = .looked prior :: skipped ∧ After earlier prior ∧ Unmoved prior look

/-- Every eviction of the journal was due when it came. -/
def Paced (journal : List (CycleReport Level)) : Prop :=
  ∀ newer look eviction older, journal = newer ++ .evicted look eviction :: older →
    PacedEviction look eviction older

/-- The pods evicted: one for each cycle that reports one, and at most one by the cycle under
way. -/
def OneEach (journal : List (CycleReport Level)) (evicted : List Pod) : Prop :=
  ∃ current : Option Pod, (∀ pod ∈ current, isCriticalPod pod = false) ∧
    evicted = current.toList ++ journal.filterMap CycleReport.victim

theorem paced_cons {report : CycleReport Level} {journal : List (CycleReport Level)}
    (hpaced : Paced journal)
    (hreport : ∀ look eviction, report = .evicted look eviction →
      PacedEviction look eviction journal) : Paced (report :: journal) := by
  intro newer look eviction older hjournal
  cases newer with
  | nil =>
    simp only [nil_append, List.cons.injEq] at hjournal
    obtain ⟨hhead, rfl⟩ := hjournal
    exact hreport look eviction hhead
  | cons head newer =>
    simp only [cons_append, List.cons.injEq] at hjournal
    exact hpaced newer look eviction older hjournal.2

end Journal

section Standing

variable {Level : Type} [LinearOrder Level]

def Armed (manager : EvictionManager Level) (journal : List (CycleReport Level)) : Prop :=
  ∀ between earlierLook earlier rest,
    episode journal = between ++ .evicted earlierLook earlier :: rest →
    between.filterMap CycleReport.evictionStart = [] →
    manager.halted = true ∨
      (manager.awaiting = true ∧ manager.awaitSeq = earlier.teardownSeq ∧
        manager.awaitSince = earlier.teardownAt) ∨
      (manager.awaiting = false ∧ manager.hasBaseline = true ∧
        ∃ prior skipped, between = .looked prior :: skipped ∧ After earlier prior ∧
          manager.baseSignal = prior.signal ∧ manager.baseLevel = prior.level)

structure Past (look : Look Level) (world : EvictionWorld) : Prop where
  now : look.now ≤ world.clock
  seq : look.seq ≤ world.monitor.seq
  attempts : look.attempts ≤ world.monitor.attempts

structure Standing (manager : EvictionManager Level) (journal : List (CycleReport Level))
    (world : EvictionWorld) : Prop where
  counted : manager.evictedAt = (evictionStarts journal).reverse
  inOrder : (evictionStarts journal).Pairwise (· ≥ ·)
  looks : ∀ report ∈ journal, ∀ look ∈ report.look, Past look world
  teardowns : ∀ look eviction, .evicted look eviction ∈ journal → eviction.teardownAt ≤ world.clock
  armed : Armed manager journal
  paced : Paced journal
  evicted : world.evicted = journal.filterMap CycleReport.victim

structure Later (before after : EvictionWorld) : Prop where
  clock : before.clock ≤ after.clock
  seq : before.monitor.seq ≤ after.monitor.seq
  attempts : before.monitor.attempts ≤ after.monitor.attempts

structure Since (before after : EvictionWorld) : Prop extends Later before after where
  evicted : after.evicted = before.evicted

theorem Since.refl (world : EvictionWorld) : Since world world :=
  ⟨⟨le_rfl, le_rfl, le_rfl⟩, rfl⟩

theorem Later.trans {first second third : EvictionWorld} (hfirst : Later first second)
    (hsecond : Later second third) : Later first third :=
  ⟨hfirst.clock.trans hsecond.clock, hfirst.seq.trans hsecond.seq,
    hfirst.attempts.trans hsecond.attempts⟩

theorem Since.trans {first second third : EvictionWorld} (hfirst : Since first second)
    (hsecond : Since second third) : Since first third :=
  ⟨hfirst.toLater.trans hsecond.toLater, hsecond.evicted.trans hfirst.evicted⟩

omit [LinearOrder Level] in
theorem Past.later {look : Look Level} {before after : EvictionWorld} (hpast : Past look before)
    (hlater : Later before after) : Past look after :=
  ⟨hpast.now.trans hlater.clock, hpast.seq.trans hlater.seq, hpast.attempts.trans hlater.attempts⟩

theorem Standing.since {manager : EvictionManager Level} {journal : List (CycleReport Level)}
    {before after : EvictionWorld} (hstanding : Standing manager journal before)
    (hsince : Since before after) : Standing manager journal after where
  counted := hstanding.counted
  inOrder := hstanding.inOrder
  looks := fun report hreport look hlook =>
    (hstanding.looks report hreport look hlook).later hsince.toLater
  teardowns := fun look eviction hmem =>
    (hstanding.teardowns look eviction hmem).trans hsince.clock
  armed := hstanding.armed
  paced := hstanding.paced
  evicted := hsince.evicted.trans hstanding.evicted

theorem since_change (levels : Levels Level) (world : EvictionWorld) (change : EvictionChange) :
    Since world (world.change levels change) := by
  cases change with
  | advance duration => exact ⟨⟨by simp [EvictionWorld.change], le_rfl, le_rfl⟩, rfl⟩
  | sampled reading budgetHeld lag => exact ⟨⟨le_rfl, Nat.le_succ _, Nat.le_succ _⟩, rfl⟩
  | failed => exact ⟨⟨le_rfl, le_rfl, Nat.le_succ _⟩, rfl⟩

/-! ## What a look does -/

variable {manager : EvictionManager Level} {journal : List (CycleReport Level)}
  {look : Look Level} {world : EvictionWorld}

structure NewLook (look : Look Level) (journal : List (CycleReport Level))
    (world : EvictionWorld) : Prop where
  now : ∀ report ∈ journal, ∀ other ∈ report.look, other.now ≤ look.now
  seq : ∀ report ∈ journal, ∀ other ∈ report.look, other.seq ≤ look.seq
  attempts : ∀ report ∈ journal, ∀ other ∈ report.look, other.attempts < look.attempts
  teardowns : ∀ other eviction, .evicted other eviction ∈ journal → eviction.teardownAt ≤ look.now
  past : Past look world

omit [LinearOrder Level] in
theorem episode_subset {report : CycleReport Level} (hreport : report ∈ episode journal) :
    report ∈ journal :=
  (takeWhile_sublist _).subset hreport

omit [LinearOrder Level] in
theorem episode_looked_split {between rest : List (CycleReport Level)} {earlierLook : Look Level}
    {earlier : EvictionRecord}
    (hsplit : episode (.looked look :: journal) = between ++ .evicted earlierLook earlier :: rest) :
    ∃ before, between = .looked look :: before ∧
      episode journal = before ++ .evicted earlierLook earlier :: rest := by
  have hepisode : episode (.looked look :: journal) = .looked look :: episode journal := rfl
  rw [hepisode] at hsplit
  cases between with
  | nil => simp at hsplit
  | cons head before =>
    simp only [cons_append, List.cons.injEq] at hsplit
    exact ⟨before, by rw [← hsplit.1], hsplit.2⟩

omit [LinearOrder Level] in
theorem After.later_look {eviction : EvictionRecord} {prior : Look Level}
    (hafter : After eviction prior) (hnow : prior.now ≤ look.now) (hseq : prior.seq ≤ look.seq) :
    After eviction look where
  later := hafter.later.trans hnow
  landed := by
    rcases hafter.landed with hlanded | hpassed
    · exact .inl (lt_of_lt_of_le hlanded hseq)
    · exact .inr (hpassed.trans hnow)

theorem takeLook_armed (hstanding : Standing manager journal world)
    (hlook : NewLook look journal world) :
    Armed (manager.takeLook look).1 (.looked look :: journal) := by
  intro between earlierLook earlier rest hsplit hnone
  obtain ⟨before, rfl, hbefore⟩ := episode_looked_split hsplit
  have hmem : .evicted earlierLook earlier ∈ journal :=
    episode_subset (hbefore ▸ mem_append_right _ mem_cons_self)
  have hnoneBefore : before.filterMap CycleReport.evictionStart = [] := by
    simpa [CycleReport.evictionStart] using hnone
  rcases hstanding.armed before earlierLook earlier rest hbefore hnoneBefore with
    hhalted | ⟨hawaiting, hseq, hsince⟩ | ⟨hlooking, hbaseline, prior, skipped, rfl, hafter, -⟩
  · left
    simp [EvictionManager.takeLook, hhalted]
  · cases hhalted : manager.halted with
    | true => exact .inl (by simp [EvictionManager.takeLook, hhalted])
    | false =>
      right
      simp only [EvictionManager.takeLook, hhalted, hawaiting, hseq, hsince, Bool.false_eq_true,
        if_false, if_true]
      split_ifs with hwaits
      · exact .inl ⟨hawaiting, hseq, hsince⟩
      refine .inr ⟨rfl, rfl, look, before, rfl, ⟨hlook.teardowns _ _ hmem, ?_⟩, rfl, rfl⟩
      rw [not_and_or, not_le, not_lt] at hwaits
      exact hwaits.imp_right fun hpassed => by linarith
  cases hhalted : manager.halted with
  | true => exact .inl (by simp [EvictionManager.takeLook, hhalted])
  | false =>
    right
    right
    have hprior : .looked prior ∈ journal :=
      episode_subset (hbefore ▸ mem_append_left _ mem_cons_self)
    have hafterLook := hafter.later_look (hlook.now _ hprior prior rfl)
      (hlook.seq _ hprior prior rfl)
    simp only [EvictionManager.takeLook, hhalted, hlooking, hbaseline, Bool.false_eq_true,
      if_false, if_true]
    exact ⟨hlooking, rfl, look, .looked prior :: skipped, rfl, hafterLook, rfl, rfl⟩

theorem takeLook_evictedAt : (manager.takeLook look).1.evictedAt = manager.evictedAt := by
  rw [EvictionManager.takeLook]
  split_ifs <;> rfl

omit [LinearOrder Level] in
theorem evictionStarts_looked : evictionStarts (.looked look :: journal) = evictionStarts journal :=
  rfl

section

variable (hstanding : Standing manager journal world)

include hstanding

theorem takeLook_standing (hlook : NewLook look journal world) :
    Standing (manager.takeLook look).1 (.looked look :: journal) world where
  counted := by rw [takeLook_evictedAt, evictionStarts_looked, hstanding.counted]
  inOrder := by
    rw [evictionStarts_looked]
    exact hstanding.inOrder
  looks := by
    intro report hreport other hother
    rcases mem_cons.1 hreport with rfl | hold
    · obtain rfl : look = other := by simpa [CycleReport.look] using hother
      exact hlook.past
    · exact hstanding.looks report hold other hother
  teardowns := by
    intro other eviction hmem
    refine hstanding.teardowns other eviction ?_
    simpa using hmem
  armed := takeLook_armed hstanding hlook
  paced := paced_cons hstanding.paced fun _ _ hreport => by cases hreport
  evicted := hstanding.evicted

theorem takeLook_spaced (hlook : NewLook look journal world)
    (hgoes : (manager.takeLook look).2 = true) {between rest : List (CycleReport Level)}
    {earlierLook : Look Level} {earlier : EvictionRecord}
    (hsplit : episode journal = between ++ .evicted earlierLook earlier :: rest)
    (hnone : between.filterMap CycleReport.evictionStart = []) :
    ∃ prior skipped, between = .looked prior :: skipped ∧ After earlier prior ∧
      Unmoved prior look := by
  rcases hstanding.armed between earlierLook earlier rest hsplit hnone with
    hhalted | ⟨hawaiting, -, -⟩ |
      ⟨hlooking, hbaseline, prior, skipped, rfl, hafter, hsignal, hlevel⟩
  · simp [EvictionManager.takeLook, hhalted] at hgoes
  · simp only [EvictionManager.takeLook, hawaiting] at hgoes
    split_ifs at hgoes
  refine ⟨prior, skipped, rfl, hafter, ?_⟩
  have hprior : .looked prior ∈ journal :=
    episode_subset (hsplit ▸ mem_append_left _ mem_cons_self)
  refine ⟨hlook.now _ hprior prior rfl, ?_, ?_⟩
  · cases hhalted : manager.halted with
    | true => simp [EvictionManager.takeLook, hhalted] at hgoes
    | false =>
      simp only [EvictionManager.takeLook, hhalted, hlooking, hbaseline, Bool.false_eq_true,
        if_false, if_true, EvictionManager.improved, hsignal, hlevel, Bool.not_eq_true',
        Bool.and_eq_false_iff, decide_eq_false_iff_not] at hgoes
      tauto
  · rcases (hlook.seq _ hprior prior rfl).lt_or_eq with hless | hsame
    · exact .inl hless
    · exact .inr ⟨hsame, hlook.attempts _ hprior prior rfl⟩

theorem resetEpisode_standing : Standing manager.resetEpisode (.calm :: journal) world where
  counted := rfl
  inOrder := List.Pairwise.nil
  looks := by
    intro report hreport look hlook
    rcases mem_cons.1 hreport with rfl | hold
    · cases hlook
    · exact hstanding.looks report hold look hlook
  teardowns := by
    intro look eviction hmem
    exact hstanding.teardowns look eviction (by simpa using hmem)
  armed := by
    intro between earlierLook earlier rest hsplit
    have hnone : episode (.calm :: journal) = [] := rfl
    rw [hnone] at hsplit
    simp at hsplit
  paced := paced_cons hstanding.paced fun _ _ hreport => by cases hreport
  evicted := hstanding.evicted

theorem capped_of_recent (hrecent : manager.recentEvictions look.now < evictionCascadeMaxCount)
    {first second third : Time}
    (hstarts : [third, second, first].Sublist (evictionStarts journal)) :
    first + evictionCascadeWindow ≤ look.now := by
  by_contra hinside
  rw [not_le] at hinside
  have hordered := hstanding.inOrder.sublist hstarts
  simp only [pairwise_cons, mem_cons, not_mem_nil, or_false, forall_eq_or_imp,
    forall_eq] at hordered
  obtain ⟨⟨hsecond, hthird⟩, hfirst, -⟩ := hordered
  have hthree : [third, second, first].countP (fun time => look.now - time < evictionCascadeWindow)
      = 3 := by
    have hin : ∀ time, first ≤ time → look.now - time < evictionCascadeWindow := by
      intro time htime
      linarith
    simp [hin third hthird, hin second hfirst, hin first le_rfl]
  have hcount := hstarts.countP_le
    (p := fun time => decide (look.now - time < evictionCascadeWindow))
  rw [EvictionManager.recentEvictions, hstanding.counted, countP_reverse] at hrecent
  simp only [evictionCascadeMaxCount] at hrecent
  omega

end

omit [LinearOrder Level] in
theorem evictionStart_mem {time : Time} (htime : time ∈ evictionStarts journal) :
    ∃ report ∈ journal, ∃ other ∈ report.look, other.now = time := by
  obtain ⟨report, hreport, hstart⟩ := mem_filterMap.1 htime
  refine ⟨report, episode_subset hreport, ?_⟩
  cases report with
  | calm | looked other => cases hstart
  | evicted other eviction => exact ⟨other, rfl, Option.some.inj hstart⟩

theorem await_standing {looked : EvictionManager Level} {eviction : EvictionRecord}
    {after : EvictionWorld} (hstanding : Standing manager journal world)
    (hlook : NewLook look journal world) (hevictedAt : looked.evictedAt = manager.evictedAt)
    (hlater : Later world after) (hteardown : eviction.teardownAt ≤ after.clock)
    (hpaced : PacedEviction look eviction journal)
    (hevicted : after.evicted = eviction.victim :: world.evicted) :
    Standing (looked.await look.now eviction.teardownSeq eviction.teardownAt)
      (.evicted look eviction :: journal) after where
  counted := by
    have hstarts : evictionStarts (.evicted look eviction :: journal) =
        look.now :: evictionStarts journal := rfl
    rw [hstarts, reverse_cons, ← hstanding.counted, ← hevictedAt]
    rfl
  inOrder := by
    refine List.Pairwise.cons ?_ hstanding.inOrder
    intro time htime
    obtain ⟨report, hreport, other, hother, rfl⟩ := evictionStart_mem htime
    exact hlook.now report hreport other hother
  looks := by
    intro report hreport other hother
    rcases mem_cons.1 hreport with rfl | hold
    · obtain rfl : look = other := by simpa [CycleReport.look] using hother
      exact hlook.past.later hlater
    · exact (hstanding.looks report hold other hother).later hlater
  teardowns := by
    intro other record hmem
    rcases mem_cons.1 hmem with hnew | hold
    · obtain ⟨-, rfl⟩ := CycleReport.evicted.inj hnew
      exact hteardown
    · exact (hstanding.teardowns other record hold).trans hlater.clock
  armed := by
    intro between earlierLook earlier rest hsplit hnone
    have hepisode : episode (.evicted look eviction :: journal) =
        .evicted look eviction :: episode journal := rfl
    rw [hepisode] at hsplit
    cases between with
    | nil =>
      simp only [nil_append, List.cons.injEq, CycleReport.evicted.injEq] at hsplit
      obtain ⟨⟨-, rfl⟩, -⟩ := hsplit
      exact .inr (.inl ⟨rfl, rfl, rfl⟩)
    | cons head before =>
      simp only [cons_append, List.cons.injEq] at hsplit
      rw [← hsplit.1] at hnone
      cases hnone
  paced := by
    refine paced_cons hstanding.paced fun other record hreport => ?_
    obtain ⟨rfl, rfl⟩ := CycleReport.evicted.inj hreport
    exact hpaced
  evicted := by
    rw [hevicted, hstanding.evicted]
    rfl

end Standing

section Cycle

variable {Level : Type} [LinearOrder Level] {levels : Levels Level}
  {manager : EvictionManager Level} {journal : List (CycleReport Level)} {look : Look Level}
  {world : EvictionWorld}

abbrev CycleSafe (levels : Levels Level) (journal : List (CycleReport Level))
    (program : EvictionProg (CycleResult Level)) (world : EvictionWorld) : Prop :=
  program.Safe (evictionMachine levels) (fun _ _ => True) (fun _ _ _ => True)
    (fun world => OneEach journal world.evicted)
    (fun result world => Standing result.1 (result.2.toList ++ journal) world) world

theorem stable_oneEach : Stable (evictionMachine levels) (fun _ _ => True) (fun _ => True)
    (fun world => OneEach journal world.evicted) := by
  intro world change _ _ hone
  have hsame := (since_change levels world change).evicted
  change OneEach journal (world.change levels change).evicted
  rwa [hsame]

theorem stable_since (snapshot : EvictionWorld) :
    Stable (evictionMachine levels) (fun _ _ => True) (fun world => OneEach journal world.evicted)
      (Since snapshot) :=
  fun world change _ _ hsince => hsince.trans (since_change levels world change)

theorem since_call {request : EvictionRequest}
    {next : EvictionAnswer request → EvictionProg (CycleResult Level)}
    (hone : OneEach journal world.evicted)
    (hcall : ∀ later, OneEach journal later.evicted → Since world later → ∀ outcome,
      OneEach journal (evictionHandle request outcome later).2.evicted ∧
        CycleSafe levels journal (next (evictionHandle request outcome later).1)
          (evictionHandle request outcome later).2) :
    CycleSafe levels journal (.call request next) world :=
  Prog.safe_call stable_oneEach (stable_since world) hone (Since.refl world)
    fun later hlater hsince outcome _ => hcall later hlater hsince outcome

theorem since_done {report : Option (CycleReport Level)} (hone : OneEach journal world.evicted)
    (hstanding : Standing manager (report.toList ++ journal) world) :
    CycleSafe levels journal (.done (manager, report)) world := by
  intro later hothers _
  have hsince := ((stable_since world).others stable_oneEach hothers hone (Since.refl world)).2
  exact hstanding.since hsince

omit [LinearOrder Level] in
theorem NewLook.later {after : EvictionWorld} (hlook : NewLook look journal world)
    (hlater : Later world after) : NewLook look journal after :=
  ⟨hlook.now, hlook.seq, hlook.attempts, hlook.teardowns, hlook.past.later hlater⟩

theorem looked_done (hone : OneEach journal world.evicted)
    (hstanding : Standing manager journal world) (hlook : NewLook look journal world) :
    CycleSafe levels journal (.done ((manager.takeLook look).1, some (.looked look))) world :=
  since_done hone (takeLook_standing hstanding hlook)

theorem teardown_safe {victim : Pod} {age period : Time} {before : EvictionWorld}
    (hone : OneEach journal world.evicted) (hstanding : Standing manager journal before)
    (hlook : NewLook look journal before) (hlater : Later before world)
    (hevicted : world.evicted = victim :: before.evicted)
    (hpaced : ∀ seq since, PacedEviction look ⟨victim, age, period, seq, since⟩ journal) :
    CycleSafe levels journal
      (latest >>= fun after => now >>= fun since =>
        pure ((manager.takeLook look).1.await look.now after.seq since,
          some (.evicted look ⟨victim, age, period, after.seq, since⟩))) world := by
  simp only [latest, now, Prog.ask_bind]
  refine since_call hone fun seen hseen hsinceSeen _ => ⟨hseen, ?_⟩
  refine since_call hseen fun ended hended hsinceEnded _ => ⟨hended, ?_⟩
  refine since_done hended ?_
  refine await_standing hstanding hlook takeLook_evictedAt
    (hlater.trans (hsinceSeen.trans hsinceEnded).toLater) le_rfl (hpaced _ _) ?_
  exact (hsinceSeen.trans hsinceEnded).evicted.trans hevicted

theorem handle_evictPod (pod : Pod) (signal : PressureSignal) (outcome : EvictionOutcome)
    (world : EvictionWorld) :
    evictionHandle (.evictPod pod signal) outcome world =
        (true, { world with evicted := pod :: world.evicted }) ∨
      evictionHandle (.evictPod pod signal) outcome world = (false, world) := by
  cases hevicts : outcome.evicts <;> simp [evictionHandle, hevicts]

theorem evictVictim_safe {age period : Time} (hone : OneEach journal world.evicted)
    (hstanding : Standing manager journal world) (hlook : NewLook look journal world)
    (hgoes : (manager.takeLook look).2 = true) (hage : age ≤ staleSampleFactor * period)
    (hrecent : (manager.takeLook look).1.recentEvictions look.now < evictionCascadeMaxCount) :
    CycleSafe levels journal (evictVictim (manager.takeLook look).1 look age period) world := by
  simp only [evictVictim, evictionCandidates, evictPod, Prog.ask_bind]
  refine since_call hone fun named hnamed hsinceNamed outcome => ⟨hnamed, ?_⟩
  have hstandingNamed := hstanding.since hsinceNamed
  have hlookNamed := hlook.later hsinceNamed.toLater
  cases hpicked : pickVictim (evictionHandle .evictionCandidates outcome named).1 with
  | none => exact looked_done hnamed hstandingNamed hlookNamed
  | some victim =>
    refine since_call hnamed fun asked hasked hsinceAsked answered => ?_
    have hstandingAsked := hstandingNamed.since hsinceAsked
    have hlookAsked := hlookNamed.later hsinceAsked.toLater
    rcases handle_evictPod victim.pod look.signal answered asked with hevicted | hfailed
    · rw [hevicted]
      have hnotCritical := pickVictim_not_critical hpicked
      have honeMore : OneEach journal (victim.pod :: asked.evicted) := by
        refine ⟨some victim.pod, ?_, ?_⟩
        · intro pod hpod
          cases hpod
          exact hnotCritical
        · rw [hstandingAsked.evicted]
          rfl
      refine ⟨honeMore, teardown_safe honeMore hstandingAsked hlookAsked
        ⟨le_rfl, le_rfl, le_rfl⟩ rfl fun seq since => ⟨hnotCritical, hage, ?_, ?_⟩⟩
      · intro first second third hstarts
        exact capped_of_recent (takeLook_standing hstandingAsked hlookAsked) hrecent hstarts
      · intro between earlierLook earlier rest hsplit hnone
        exact takeLook_spaced hstandingAsked hlookAsked hgoes hsplit hnone
    · rw [hfailed]
      exact ⟨hasked, looked_done hasked hstandingAsked hlookAsked⟩

theorem checkAndEvict_safe (hone : OneEach journal world.evicted)
    (hstanding : Standing manager journal world) (hlook : NewLook look journal world)
    (hgoes : (manager.takeLook look).2 = true) :
    CycleSafe levels journal (checkAndEvict (manager.takeLook look).1 look) world := by
  simp only [checkAndEvict, sampleAge, interval, Prog.ask_bind]
  refine since_call hone fun aged haged hsinceAged _ => ⟨haged, ?_⟩
  refine since_call haged fun timed htimed hsinceTimed _ => ⟨htimed, ?_⟩
  have hsince := hsinceAged.trans hsinceTimed
  have hstandingTimed := hstanding.since hsince
  have hlookTimed := hlook.later hsince.toLater
  split_ifs with hstale hcascade
  · exact looked_done htimed hstandingTimed hlookTimed
  · refine since_done htimed ?_
    have hlooked := takeLook_standing hstandingTimed hlookTimed
    exact ⟨hlooked.counted, hlooked.inOrder, hlooked.looks, hlooked.teardowns,
      fun _ _ _ _ _ _ => .inl rfl, hlooked.paced, hlooked.evicted⟩
  · exact evictVictim_safe htimed hstandingTimed hlookTimed hgoes (not_lt.1 hstale)
      (not_le.1 hcascade)

theorem cycle_safe (hstanding : Standing manager journal world)
    (hattempts : ∀ report ∈ journal, ∀ other ∈ report.look,
      other.attempts < world.monitor.attempts) :
    CycleSafe levels journal (cycle levels manager) world := by
  have hone : OneEach journal world.evicted := by
    refine ⟨none, fun pod hpod => ?_, hstanding.evicted⟩
    cases hpod
  simp only [cycle, latest, now, Prog.ask_bind]
  refine since_call hone fun seen hseen hsinceSeen _ => ⟨hseen, ?_⟩
  have hstandingSeen := hstanding.since hsinceSeen
  split_ifs with hunsampled hpressured
  · exact since_done hseen hstandingSeen
  · refine since_call hseen fun started hstarted hsinceStarted _ => ⟨hstarted, ?_⟩
    have hstandingStarted : Standing { manager with inEpisode := true } journal started := by
      have hbefore := hstandingSeen.since hsinceStarted
      exact ⟨hbefore.counted, hbefore.inOrder, hbefore.looks, hbefore.teardowns, hbefore.armed,
        hbefore.paced, hbefore.evicted⟩
    have hlook : NewLook
        ⟨seen.monitor.seq, seen.monitor.attempts, (evaluateMemory levels seen.monitor.snap).signal,
          (evaluateMemory levels seen.monitor.snap).level, started.clock⟩ journal started := by
      refine ⟨?_, ?_, ?_, hstandingStarted.teardowns, ⟨le_rfl, ?_, ?_⟩⟩
      · exact fun report hreport other hother =>
          (hstandingStarted.looks report hreport other hother).now
      · exact fun report hreport other hother =>
          (hstandingSeen.looks report hreport other hother).seq
      · exact fun report hreport other hother =>
          lt_of_lt_of_le (hattempts report hreport other hother) hsinceSeen.attempts
      · exact hsinceStarted.seq
      · exact hsinceStarted.attempts
    split_ifs with hgoes
    · exact checkAndEvict_safe hstarted hstandingStarted hlook hgoes
    · exact looked_done hstarted hstandingStarted hlook
  · exact since_done hseen (resetEpisode_standing hstandingSeen)

end Cycle

section Loop

variable {Level : Type} [LinearOrder Level] {levels : Levels Level}

/-- Between cycles the manager stands as the journal says, and the attempt it waits for is after
all looks; in a cycle the rest of it is safe. -/
def LoopKept (levels : Levels Level) (node : EvictionNode Level) : Prop :=
  match node.loop with
  | .waiting attempts =>
    Standing node.manager node.journal node.world ∧
      ∀ report ∈ node.journal, ∀ look ∈ report.look, look.attempts ≤ attempts
  | .cycling program => CycleSafe levels node.journal program node.world

structure NodePaced (levels : Levels Level) (node : EvictionNode Level) : Prop where
  paced : Paced node.journal
  oneEach : OneEach node.journal node.world.evicted
  loop : LoopKept levels node

theorem evictionNext_paced {node : EvictionNode Level} (hnode : NodePaced levels node)
    (event : EvictionEvent) : NodePaced levels (evictionNext levels node event) := by
  obtain ⟨world, manager, loop, journal⟩ := node
  obtain ⟨hpaced, hone, hloop⟩ := hnode
  cases event with
  | change change =>
    have hsince := since_change levels world change
    refine ⟨hpaced, ?_, ?_⟩
    · change OneEach journal (world.change levels change).evicted
      rwa [hsince.evicted]
    · cases loop with
      | waiting attempts => exact ⟨hloop.1.since hsince, hloop.2⟩
      | cycling program =>
        exact Prog.Safe.later hloop (Relation.ReflTransGen.single ⟨change, trivial, rfl⟩)
  | wake =>
    cases loop with
    | cycling program => exact ⟨hpaced, hone, hloop⟩
    | waiting attempts =>
      simp only [evictionNext]
      split_ifs with hticked
      · refine ⟨hpaced, hone, cycle_safe hloop.1 fun report hreport look hlook => ?_⟩
        exact lt_of_le_of_lt (hloop.2 report hreport look hlook) hticked
      · exact ⟨hpaced, hone, hloop⟩
  | answer outcome =>
    cases loop with
    | waiting attempts => exact ⟨hpaced, hone, hloop⟩
    | cycling program =>
      cases program with
      | done result => exact ⟨hpaced, hone, hloop⟩
      | call request next =>
        obtain ⟨honeAfter, hrest⟩ :=
          hloop world Relation.ReflTransGen.refl hone outcome trivial
        exact ⟨hpaced, honeAfter, hrest⟩
  | next =>
    cases loop with
    | waiting attempts => exact ⟨hpaced, hone, hloop⟩
    | cycling program =>
      cases program with
      | call request next => exact ⟨hpaced, hone, hloop⟩
      | done result =>
        have hsafe : CycleSafe levels journal (.done result) world := hloop
        have hstanding : Standing result.1 (result.2.toList ++ journal) world :=
          hsafe.result hone
        refine ⟨hstanding.paced, ⟨none, ?_, hstanding.evicted⟩, hstanding, ?_⟩
        · intro pod hpod
          cases hpod
        · exact fun report hreport look hlook =>
            (hstanding.looks report hreport look hlook).attempts

theorem freshEvictionNode_paced (start : Time) :
    NodePaced levels (freshEvictionNode levels start) := by
  have hpaced : Paced ([] : List (CycleReport Level)) := by
    intro newer look eviction older hjournal
    simp at hjournal
  refine ⟨hpaced, ⟨none, fun pod hpod => ?_, rfl⟩,
    ⟨rfl, List.Pairwise.nil, ?_, ?_, ?_, hpaced, rfl⟩, ?_⟩
  · cases hpod
  · intro report hreport
    cases hreport
  · intro look eviction hmem
    cases hmem
  · intro between earlierLook earlier rest hsplit
    have hnone : episode (freshEvictionNode levels start).journal = [] := rfl
    rw [hnone] at hsplit
    simp at hsplit
  · intro report hreport
    cases hreport

/-- The evictions of every run are paced: at most one a cycle and of no critical pod, no four of
an episode within five minutes, and two looks between two of an episode, the second without a
movement towards release. -/
theorem evictions_paced (levels : Levels Level) (start : Time) (events : List EvictionEvent) :
    Always (fun node => Paced node.journal ∧ OneEach node.journal node.world.evicted)
      (evictionNext levels) (freshEvictionNode levels start) events := by
  have hstep : ∀ node event, NodePaced levels node →
      NodePaced levels (evictionNext levels node event) :=
    fun node event hnode => evictionNext_paced hnode event
  exact (always_of_step hstep (freshEvictionNode_paced start) events).mono
    fun node hnode => ⟨hnode.paced, hnode.oneEach⟩

end Loop

/-! ## Samples that fail -/

/-- Between two evictions of an episode two samples land after the first teardown. -/
def TwoSamplesApart {Level : Type} (journal : List (CycleReport Level)) : Prop :=
  ∀ newer look eviction between earlierLook earlier older,
    journal = newer ++ .evicted look eviction ::
        (between ++ .evicted earlierLook earlier :: older) →
    (∀ report ∈ between, report.isCalm = false) → earlier.teardownSeq + 2 ≤ look.seq

def byteLevels : Levels ℤ := ⟨id, fun n limit => n / limit, 0⟩

def lowMemory : HostReading := { HostReading.none with memAvailableBytes := 50 * 1024 * 1024 }

def batchPod (uid : String) : Pod := ⟨uid.toList, none, none, none, none, [], [], none⟩

def answers (calls : ℕ) (pod : Pod) : List EvictionEvent :=
  List.replicate calls (.answer ⟨[⟨pod, 0, false⟩], true⟩)

/-- Samples fail for thirty seconds after an eviction, and the next one shows the same. -/
def failingSamples : List EvictionEvent :=
  [.change (.sampled lowMemory false 0), .wake] ++ answers 8 (batchPod "a") ++
    [.next, .change (.advance 30000000000), .change .failed, .wake] ++ answers 2 (batchPod "b") ++
    [.next, .change (.sampled lowMemory false 0), .wake] ++ answers 8 (batchPod "b") ++ [.next]

theorem one_sample_between_evictions :
    ¬ TwoSamplesApart
      (failingSamples.foldl (evictionNext byteLevels)
        (freshEvictionNode byteLevels 0)).journal := by
  intro hapart
  have hjournal : ∃ look eviction base earlierLook earlier,
      (failingSamples.foldl (evictionNext byteLevels) (freshEvictionNode byteLevels 0)).journal =
        [.evicted look eviction, .looked base, .evicted earlierLook earlier] ∧
      look.seq = 2 ∧ earlier.teardownSeq = 1 := ⟨_, _, _, _, _, rfl, rfl, rfl⟩
  obtain ⟨look, eviction, base, earlierLook, earlier, hjournal, hseq, hteardown⟩ := hjournal
  have htwo := hapart [] look eviction [.looked base] earlierLook earlier [] hjournal
    (by simp [CycleReport.isCalm])
  omega

end K3sm.Eviction
