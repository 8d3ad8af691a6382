import K3sm.Core.Window
import K3sm.Eviction.Budget

/-!
# What the budget remembers

The monitor keeps a time for every level, a time for the admission stop and a bit for every rung.
Along any samples these tell what the samples within the dwell, and since a rung was passed, have
shown.  A worse reading passes every rung a better one passes; the levels of the rungs are not in
their order, though: evict-soft puts a signal at evicting and evict-hard at critical, and only
memory pressure makes up for that.
-/

namespace K3sm.Eviction

open K3sm.Core

variable {isDescending : SignalID → Bool} {ladder : BudgetLadder} {signal : SignalLadder}
  {stats : BudgetStats}

section Remembered

open List

theorem topRung_any (test : BudgetRung → Bool) (hup : ∀ low high : BudgetRung,
    low.rank ≤ high.rank → test low = true → test high = true) :
    (topRung isDescending stats ladder signal).any test = true ↔
      ∃ rung, test rung = true ∧ holds isDescending stats ladder signal rung = true := by
  rw [topRung, Option.any_eq_true]
  constructor
  · rintro ⟨rung, hrung, htest⟩
    exact ⟨rung, htest, (mem_filter.1 (mem_of_getLast? hrung)).2⟩
  rintro ⟨rung, htest, hholds⟩
  have hmem : rung ∈ budgetRungs.filter (holds isDescending stats ladder signal) :=
    mem_filter.2 ⟨by cases rung <;> decide, hholds⟩
  obtain ⟨front, top, heq⟩ := eq_nil_or_concat'
    (budgetRungs.filter (holds isDescending stats ladder signal)) |>.resolve_left
      (ne_nil_of_mem hmem)
  refine ⟨top, by rw [heq, List.getLast?_concat], hup rung top ?_ htest⟩
  have hsorted : (budgetRungs.filter (holds isDescending stats ladder signal)).Pairwise
      fun low high => low.rank ≤ high.rank :=
    List.Pairwise.filter _ (by decide)
  rw [heq] at hsorted hmem
  rcases mem_append.1 hmem with hfront | hlast
  · exact (pairwise_append.1 hsorted).2.2 rung hfront top mem_cons_self
  · rw [mem_singleton.1 hlast]

theorem blockedBy_isSome : (blockedBy isDescending stats ladder).isSome = true ↔
    ∃ signal ∈ ladder.signals, ∃ rung, BudgetRung.admitStop.rank ≤ rung.rank ∧
      holds isDescending stats ladder signal rung = true := by
  rw [blockedBy, Option.isSome_map, List.find?_isSome]
  refine exists_congr fun signal => and_congr_right fun _ => ?_
  rw [topRung_any _ fun low high hle hlow => ?_]
  · simp only [decide_eq_true_eq]
  · rw [decide_eq_true_eq] at hlow ⊢
    exact hlow.trans hle

theorem nextBlocked_of_none (hnone : ¬ (blockedBy isDescending stats ladder).isSome = true) :
    nextBlocked isDescending stats ladder =
      stats.budget.blocked.filter fun blocked => withinDwell ladder stats.sampledAt blocked.1 := by
  rw [Bool.not_eq_true, Option.isSome_eq_false_iff, Option.isNone_iff_eq_none] at hnone
  simp only [nextBlocked, hnone]

theorem held_budgetOf (hsignal : signal ∈ ladder.signals) (rung : BudgetRung) :
    (budgetOf isDescending stats ladder).2.held signal.id rung =
      holds isDescending stats ladder signal rung := by
  have hfind : ladder.signals.find? (fun other => other.id = signal.id) = some signal := by
    cases hfound : ladder.signals.find? fun other => other.id = signal.id with
    | none => exact (List.find?_eq_none.1 hfound signal hsignal (decide_eq_true rfl)).elim
    | some other =>
      have hid : other.id = signal.id := by simpa using List.find?_some hfound
      rw [inj_on_of_nodup_map ladder.nodup (mem_of_find?_eq_some hfound) hsignal hid]
  simp only [budgetOf, hfind, Option.any_some]

theorem rungLevel_le (rung : BudgetRung) : rungLevel rung ≤ 3 := by
  cases rung <;> decide

theorem le_foldl_max {levels : List ℕ} {start level : ℕ} :
    level ≤ levels.foldl max start ↔ level ≤ start ∨ ∃ other ∈ levels, level ≤ other := by
  induction levels generalizing start with
  | nil => simp
  | cons other levels ih =>
    rw [foldl_cons, ih, le_max_iff, exists_mem_cons_iff, or_assoc]

theorem rawLevel_le : rawLevel isDescending stats ladder ≤ 3 := by
  rw [rawLevel]
  split
  · exact le_rfl
  rw [← not_lt, ← Nat.succ_le_iff, le_foldl_max]
  rintro (hnone | ⟨level, hlevel, hle⟩)
  · omega
  obtain ⟨signal, -, rfl⟩ := mem_map.1 hlevel
  cases htop : topRung isDescending stats ladder signal with
  | none => simp [htop] at hle
  | some top =>
    have := rungLevel_le top
    simp only [htop, Option.map_some, Option.getD_some] at hle
    omega

theorem le_publishedLevel_iff {level : ℕ} (hlevel : 0 < level) :
    level ≤ publishedLevel isDescending stats ladder ↔
      ∃ other, level ≤ other ∧ other ≤ 3 ∧
        (nextLastSeen isDescending stats ladder other).isSome = true := by
  rw [publishedLevel, ← foldl_filter, le_foldl_max]
  constructor
  · rintro (hraw | ⟨other, hother, hle⟩)
    · exact ⟨level, le_rfl, hraw.trans rawLevel_le, by rw [nextLastSeen, if_pos hraw]; rfl⟩
    obtain ⟨hmem, hmarked⟩ := mem_filter.1 hother
    refine ⟨other, hle, ?_, hmarked⟩
    fin_cases hmem <;> decide
  · rintro ⟨other, hle, htop, hmarked⟩
    refine .inr ⟨other, mem_filter.2 ⟨?_, hmarked⟩, hle⟩
    interval_cases other <;> first | omega | decide

section Samples

variable {Level : Type} [LinearOrder Level] (levels : Levels Level) (isDescending : SignalID → Bool)
  (ladder : BudgetLadder) (readings : ℕ → BudgetReading) (times : ℕ → Time)

def monitorAt : ℕ → BudgetMonitor
  | 0 => newBudgetMonitor
  | sample + 1 =>
    (monitorAt sample).sampled levels isDescending ladder (readings sample) (times sample)

/-- The monitor's history up to a sample, stamped with it. -/
def statsAt (sample : ℕ) : BudgetStats :=
  (monitorAt levels isDescending ladder readings times sample).stamp (readings sample)
    (times sample)

/-- The samples that count at one: itself, and those less than the dwell before it. -/
def Counts (sample early : ℕ) : Prop :=
  early ≤ sample ∧ (early = sample ∨ times sample - times early < ladder.dwell)

variable {levels isDescending ladder readings times}

theorem level_marks (level : ℕ) : Marks times ladder.dwell
    (fun sample => level ≤ rawLevel isDescending
      (statsAt levels isDescending ladder readings times sample) ladder)
    fun sample => nextLastSeen isDescending
      (statsAt levels isDescending ladder readings times sample) ladder level where
  now _ hseen := if_pos hseen
  first hseen := if_neg hseen
  next _ hseen := if_neg hseen

theorem blocked_marks : Marks times ladder.dwell
    (fun sample => (blockedBy isDescending
      (statsAt levels isDescending ladder readings times sample) ladder).isSome = true)
    fun sample => (nextBlocked isDescending
      (statsAt levels isDescending ladder readings times sample) ladder).map Prod.fst where
  now sample hseen := by
    obtain ⟨id, hid⟩ := Option.isSome_iff_exists.1 hseen
    simp only [nextBlocked, hid]
    rfl
  first hseen := by
    rw [nextBlocked_of_none hseen]
    rfl
  next sample hseen := by
    rw [nextBlocked_of_none hseen]
    change (Option.filter _ (nextBlocked isDescending
      (statsAt levels isDescending ladder readings times sample) ladder)).map Prod.fst = _
    cases nextBlocked isDescending
      (statsAt levels isDescending ladder readings times sample) ladder with
    | none => rfl
    | some blocked =>
      rw [Option.filter_some]
      exact apply_ite (Option.map Prod.fst) _ _ _

/-- The level, the admission stop and the held rungs at a sample, told by the samples so far. -/
theorem dwell_and_hysteresis (levels : Levels Level) (isDescending : SignalID → Bool)
    (ladder : BudgetLadder) (readings : ℕ → BudgetReading) (times : ℕ → Time)
    (hmono : Monotone times) (sample : ℕ) :
    let stats := statsAt levels isDescending ladder readings times
    let budget := budgetOf isDescending (stats sample) ladder
    IsGreatest {level | ∃ early, Counts ladder times sample early ∧
        rawLevel isDescending (stats early) ladder = level} budget.1.level ∧
      (budget.1.admits = false ↔ ∃ early, Counts ladder times sample early ∧
        ∃ signal ∈ ladder.signals, ∃ rung, BudgetRung.admitStop.rank ≤ rung.rank ∧
          holds isDescending (stats early) ladder signal rung = true) ∧
      ∀ signal ∈ ladder.signals, ∀ rung, budget.2.held signal.id rung = true ↔
        ∃ early ≤ sample, passes isDescending (stats early) ladder signal rung = true ∧
          ∀ later, early < later → later ≤ sample →
            ¬ releases isDescending (stats later) ladder signal rung = true := by
  intro stats budget
  have hlevel : ∀ level, level ≤ budget.1.level ↔ ∃ early, Counts ladder times sample early ∧
      level ≤ rawLevel isDescending (stats early) ladder := by
    intro level
    rcases Nat.eq_zero_or_pos level with rfl | hpos
    · exact iff_of_true (Nat.zero_le _) ⟨sample, ⟨le_rfl, .inl rfl⟩, Nat.zero_le _⟩
    rw [show budget.1.level = publishedLevel isDescending (stats sample) ladder from rfl,
      le_publishedLevel_iff hpos]
    constructor
    · rintro ⟨other, hle, -, hmarked⟩
      obtain ⟨early, hbefore, hraw, hyoung⟩ :=
        ((level_marks other).isSome_iff hmono sample).1 hmarked
      exact ⟨early, ⟨hbefore, hyoung⟩, hle.trans hraw⟩
    · rintro ⟨early, ⟨hbefore, hyoung⟩, hraw⟩
      exact ⟨level, le_rfl, hraw.trans rawLevel_le,
        ((level_marks level).isSome_iff hmono sample).2 ⟨early, hbefore, hraw, hyoung⟩⟩
  refine ⟨⟨?_, ?_⟩, ?_, ?_⟩
  · obtain ⟨early, hcounts, hle⟩ := (hlevel _).1 le_rfl
    exact ⟨early, hcounts, le_antisymm ((hlevel _).2 ⟨early, hcounts, le_rfl⟩) hle⟩
  · rintro level ⟨early, hcounts, rfl⟩
    exact (hlevel _).2 ⟨early, hcounts, le_rfl⟩
  · have hadmits : budget.1.admits = false ↔
        ((nextBlocked isDescending (stats sample) ladder).map Prod.fst).isSome = true := by
      rw [show budget.1.admits = (nextBlocked isDescending (stats sample) ladder).isNone from rfl]
      cases nextBlocked isDescending (stats sample) ladder <;> simp
    rw [hadmits, blocked_marks.isSome_iff hmono sample]
    simp only [blockedBy_isSome, Counts, and_assoc]
    exact exists_congr fun early => and_congr_right fun _ => and_comm
  intro signal hsignal rung
  rw [held_budgetOf hsignal]
  refine @latched_iff _ _ (fun sample =>
    holds isDescending (stats sample) ladder signal rung = true)
    ?_ (fun earlier => ?_) sample
  · simp [holds, stats, statsAt, monitorAt, newBudgetMonitor, BudgetMonitor.stamp, BudgetHold.none]
  have hbefore : (stats (earlier + 1)).budget.held signal.id rung =
      holds isDescending (stats earlier) ladder signal rung := held_budgetOf hsignal rung
  rw [holds, hbefore, Bool.or_eq_true, Bool.and_eq_true, Bool.not_eq_true', Bool.not_eq_true]

end Samples

/-- A Mac with 16 GiB and a calm host but for the memory available. -/
def calmHost (memory : ℤ) : BudgetReading where
  memAvailableBytes := memory
  memCapacityBytes := 16 * 2 ^ 30
  compressorPages := 0
  compressorPagesLimit := 1000
  compressorSegments := 0
  compressorSegmentsLimit := 1000
  swapUsedBytes := 0
  swapVolumeAvailableBytes := 400 * 2 ^ 30
  swapVolumeCapacityBytes := 500 * 2 ^ 30
  diskAvailableBytes := 400 * 2 ^ 30
  diskCapacityBytes := 500 * 2 ^ 30
  pidMax := 4000
  pidCount := 400

/-- Memory runs short at the first sample only, and a sample is taken every ten seconds. -/
def dipReadings : ℕ → BudgetReading
  | 0 => calmHost (50 * 2 ^ 20)
  | _ => calmHost (8 * 2 ^ 30)

def dipTimes (sample : ℕ) : Time := sample * (10 * second)

def wholeLevels : Levels ℤ := ⟨id, fun n limit => (n * 1000).tdiv limit, 0⟩

theorem dip_stays_published : Monotone dipTimes ∧
    3 ≤ (budgetOf falling (statsAt wholeLevels falling (defaultLadder falling (16 * 2 ^ 30) 4000)
      dipReadings dipTimes 1) (defaultLadder falling (16 * 2 ^ 30) 4000)).1.level := by
  have hmono : Monotone dipTimes := by
    intro early late hle
    have : (0 : ℤ) ≤ 10 * second := by decide
    exact mul_le_mul_of_nonneg_right (by exact_mod_cast hle) this
  refine ⟨hmono, ?_⟩
  refine (dwell_and_hysteresis wholeLevels falling (defaultLadder falling (16 * 2 ^ 30) 4000)
    dipReadings dipTimes hmono 1).1.2 ⟨0, ⟨by decide, .inr (by decide)⟩, by decide +kernel⟩

end Remembered

section Worse

open Option

variable {before after : BudgetStats}

/-- Two snapshots of one history, no reading of the second better than the first's. -/
inductive Worse (before : BudgetStats) : BudgetStats → Prop
  | mk (memory pages segments swap volume disk processes : ℤ)
      (hmemory : memory ≤ before.memAvailableBytes) (hpages : before.compressorPages ≤ pages)
      (hsegments : before.compressorSegments ≤ segments) (hswap : before.swapUsedBytes ≤ swap)
      (hvolume : volume ≤ before.swapVolumeAvailableBytes)
      (hdisk : disk ≤ before.diskAvailableBytes) (hprocesses : before.pidCount ≤ processes) :
      Worse before { before with
        memAvailableBytes := memory, compressorPages := pages, compressorSegments := segments
        swapUsedBytes := swap, swapVolumeAvailableBytes := volume, diskAvailableBytes := disk
        pidCount := processes }

/-- What a snapshot's readings are multiplied and subtracted to fits an `int64`.  The two
differences do for readings that are not negative, the products for counts below 2^63 / 1000. -/
structure Unwrapped (stats : BudgetStats) : Prop where
  pages : FitsInt64 (stats.compressorPages * 1000)
  segments : FitsInt64 (stats.compressorSegments * 1000)
  growth : FitsInt64 (stats.swapUsedBytes - lowSwap stats)
  processes : FitsInt64 (stats.pidMax - stats.pidCount)

/-- The reading has no more room, or no less use, than the other. -/
def NoCalmer (id : SignalID) (value later : ℤ) : Prop :=
  if falling id then later ≤ value else value ≤ later

theorem permille_mono {fewer more : ℤ} (hle : fewer ≤ more) (hfewer : FitsInt64 (fewer * 1000))
    (hmore : FitsInt64 (more * 1000)) (limit : ℤ) :
    permille fewer limit = none ∧ permille more limit = none ∨
      ∃ value later, permille fewer limit = some value ∧ permille more limit = some later ∧
        value ≤ later := by
  rw [permille, permille, int64_of_fits hfewer.1 hfewer.2, int64_of_fits hmore.1 hmore.2]
  split_ifs with hlimit
  · exact .inr ⟨_, _, rfl, rfl, Int.tdiv_le_tdiv hlimit (by omega)⟩
  · exact .inl ⟨rfl, rfl⟩

/-- The growth over the window is no smaller from more swap in use. -/
theorem foldl_min_swap (window : List (Time × ℤ)) {used more : ℤ} (hle : used ≤ more) :
    used - window.foldl (fun low reading => min low reading.2) used ≤
      more - window.foldl (fun low reading => min low reading.2) more := by
  have hgeneral : ∀ (window : List (Time × ℤ)) (low high : ℤ), low ≤ high →
      window.foldl (fun low reading => min low reading.2) high ≤
        window.foldl (fun low reading => min low reading.2) low + (high - low) := by
    intro window
    induction window with
    | nil => intro low high _; simp only [List.foldl]; omega
    | cons reading window ih =>
      intro low high hle
      have hnext := ih (min low reading.2) (min high reading.2) (min_le_min_right _ hle)
      simp only [List.foldl]
      omega
  have := hgeneral window used more hle
  omega

theorem Worse.value (hworse : Worse before after) (hplain : Unwrapped before)
    (hplain' : Unwrapped after) (id : SignalID) {value : ℤ}
    (hvalue : budgetSignalValue before id = some value) :
    ∃ later, budgetSignalValue after id = some later ∧ NoCalmer id value later := by
  obtain ⟨hfewer, hless, hgrowth, hfree⟩ := hplain
  obtain ⟨hmore, hgreater, hgrowth', hfree'⟩ := hplain'
  obtain ⟨_, _, _, _, _, _, _, hmemory, hpages, hsegments, hswap, hvolume, hdisk, hprocesses⟩ :=
    hworse
  cases id <;> simp only [budgetSignalValue, NoCalmer, falling, if_true, Bool.false_eq_true,
    if_false] at hvalue ⊢
  case memoryCompressor =>
    rcases permille_mono hpages hfewer hmore before.compressorPagesLimit with
        ⟨hnone, hnone'⟩ | ⟨few, many, hfew, hmany, hle⟩ <;>
      rcases permille_mono hsegments hless hgreater before.compressorSegmentsLimit with
        ⟨hfree, hfree'⟩ | ⟨low, high, hlow, hhigh, hle'⟩ <;>
      simp_all <;> omega
  case memorySwap =>
    rw [int64_of_fits hgrowth.1 hgrowth.2] at hvalue
    rw [int64_of_fits hgrowth'.1 hgrowth'.2]
    split_ifs at hvalue ⊢ with hrecent hrecent'
    · exact absurd hrecent hrecent'
    have hgrown := foldl_min_swap (recentSwap before) hswap
    refine ⟨_, rfl, ?_⟩
    rw [← some.inj hvalue]
    exact max_le_max le_rfl hgrown
  case pidAvailable =>
    rw [int64_of_fits hfree.1 hfree.2] at hvalue
    rw [int64_of_fits hfree'.1 hfree'.2]
    split_ifs at hvalue ⊢
    refine ⟨_, rfl, ?_⟩
    rw [← some.inj hvalue]
    exact max_le_max le_rfl (sub_le_sub_left hprocesses _)
  all_goals
    split_ifs at hvalue ⊢
    refine ⟨_, rfl, ?_⟩
    rw [← some.inj hvalue]
    omega

theorem Worse.holds (hworse : Worse before after) (hplain : Unwrapped before)
    (hplain' : Unwrapped after) (hdesc : isDescending = falling) {rung : BudgetRung}
    (hholds : holds isDescending before ladder signal rung = true) :
    holds isDescending after ladder signal rung = true := by
  have hhold : after.budget = before.budget := by
    cases hworse
    rfl
  have hgate : before.swapUsedBytes ≤ after.swapUsedBytes := by
    cases hworse
    assumption
  cases hthreshold : signal.rungs rung with
  | none => simp [Eviction.holds, passes, releases, hthreshold] at hholds
  | some threshold =>
    cases hvalue : countedValue before ladder signal with
    | none => simp [Eviction.holds, passes, releases, hvalue] at hholds
    | some value =>
      have hlater : ∃ later, countedValue after ladder signal = some later ∧
          NoCalmer signal.id value later := by
        rw [countedValue] at hvalue ⊢
        split_ifs at hvalue with hclosed
        rw [if_neg fun hclosed' => hclosed ⟨hclosed'.1, by omega⟩]
        exact hworse.value hplain hplain' _ hvalue
      obtain ⟨later, hlater, hcalmer⟩ := hlater
      simp only [Eviction.holds, passes, releases, hvalue, hlater, hthreshold, hhold,
        hdesc] at hholds ⊢
      rw [NoCalmer] at hcalmer
      cases hrelease : signal.releases rung <;> cases hfalls : falling signal.id <;>
        cases hheld : before.budget.held signal.id rung <;>
        simp_all [pastRung, calmOfRelease] <;> omega

theorem percentOf_mono {fewer more : ℤ} (hle : fewer ≤ more) (hfewer : FitsInt64 (fewer * 1000))
    (hmore : FitsInt64 (more * 1000)) (limit bound : ℤ) :
    ((percentOf fewer limit).any fun percent => decide (bound ≤ percent)) = true →
      ((percentOf more limit).any fun percent => decide (bound ≤ percent)) = true := by
  unfold FitsInt64 at hfewer hmore
  rw [percentOf, percentOf, int64_of_fits (by omega) (by omega),
    int64_of_fits (by omega) (by omega)]
  split_ifs with hlimit
  · exact id
  have := Int.tdiv_le_tdiv (not_le.1 hlimit) (show fewer * 100 ≤ more * 100 by omega)
  simp only [any_some, decide_eq_true_eq]
  omega

theorem Worse.swapArm (hworse : Worse before after) (harm : swapArm before.toHostStats = true) :
    swapArm after.toHostStats = true := by
  obtain ⟨_, _, _, _, _, _, _, -, -, -, hswap, hvolume, -, -⟩ := hworse
  simp only [Eviction.swapArm, memorySwapLeg, swapfsLeg, Bool.and_eq_true,
    decide_eq_true_eq] at harm ⊢
  obtain ⟨⟨⟨hbefore, htrip⟩, hrising⟩, hsampled, hfloor⟩ := harm
  exact ⟨⟨⟨hbefore, htrip.trans hswap⟩, hrising.trans_le hswap⟩, hsampled, hvolume.trans_lt hfloor⟩

theorem Worse.pressured (hworse : Worse before after) (hplain : Unwrapped before)
    (hplain' : Unwrapped after) (hpressured : memoryPressured before.toHostStats = true) :
    memoryPressured after.toHostStats = true := by
  have harm := hworse.swapArm
  obtain ⟨hfewer, hless, -, -⟩ := hplain
  obtain ⟨hmore, hgreater, -, -⟩ := hplain'
  obtain ⟨_, _, _, _, _, _, _, hmemory, hpages, hsegments, -, -, -, -⟩ := hworse
  simp only [memoryPressured, Bool.or_eq_true] at hpressured ⊢
  rcases hpressured with (havailable | hcompressor) | hswapped
  · refine .inl (.inl ?_)
    simp only [nextAvailable, Bool.or_eq_true, Bool.and_eq_true, decide_eq_true_eq] at havailable ⊢
    exact havailable.imp hmemory.trans_lt (And.imp_right hmemory.trans_lt)
  · refine .inl (.inr ?_)
    simp only [nextCompressor, compressorAbove, Bool.or_eq_true, Bool.and_eq_true] at hcompressor ⊢
    have hpercent := fun bound =>
      percentOf_mono hpages hfewer hmore before.compressorPagesLimit bound
    have hpercent' := fun bound =>
      percentOf_mono hsegments hless hgreater before.compressorSegmentsLimit bound
    refine hcompressor.imp (Or.imp (hpercent _) (hpercent' _)) (And.imp_right ?_)
    exact Or.imp (hpercent (compressorReleasePercent + 1))
      (hpercent' (compressorReleasePercent + 1))
  · refine .inr ?_
    simp only [nextSwap] at hswapped ⊢
    split_ifs at hswapped ⊢ <;> simp_all

/-- A reading on a rung: past its threshold, or not calm again where the sample before held it. -/
def OnRung (desc : Bool) (signal : SignalLadder) (held : BudgetRung → Bool) (value : ℤ)
    (rung : BudgetRung) : Prop :=
  ∃ threshold, signal.rungs rung = some threshold ∧ (pastRung desc value threshold = true ∨
    (held rung = true ∧ calmOfRelease desc value (signal.releases rung) threshold = false))

/-- The signal is read, and the reading is on a rung. -/
def ReadsOn (isDescending : SignalID → Bool) (stats : BudgetStats) (ladder : BudgetLadder)
    (signal : SignalLadder) (rung : BudgetRung) : Prop :=
  ∃ value, countedValue stats ladder signal = some value ∧
    OnRung (isDescending signal.id) signal (stats.budget.held signal.id) value rung

theorem holds_iff {rung : BudgetRung} : holds isDescending stats ladder signal rung = true ↔
    ReadsOn isDescending stats ladder signal rung := by
  unfold ReadsOn OnRung holds passes releases
  cases countedValue stats ladder signal with
  | none => simp
  | some value => cases signal.rungs rung <;> simp

/-- The reading is on evict-soft and short of evict-hard. -/
def SoftOnly (isDescending : SignalID → Bool) (stats : BudgetStats) (ladder : BudgetLadder)
    (signal : SignalLadder) : Prop :=
  ReadsOn isDescending stats ladder signal .evictSoft ∧
    ¬ ReadsOn isDescending stats ladder signal .evictHard

theorem le_rawLevel_iff {level : ℕ} (hpos : 0 < level) (hle : level ≤ 3) :
    level ≤ rawLevel isDescending stats ladder ↔ memoryPressured stats.toHostStats = true ∨
      ∃ signal ∈ ladder.signals, (topRung isDescending stats ladder signal).any
        (fun top => decide (level ≤ rungLevel top)) = true := by
  rw [rawLevel]
  split
  case isTrue hpressured => exact iff_of_true hle (.inl hpressured)
  rename_i hpressured
  rw [le_foldl_max, or_iff_right (by omega), or_iff_right hpressured]
  simp only [List.mem_map, exists_exists_and_eq_and]
  refine exists_congr fun signal => and_congr_right fun _ => ?_
  cases topRung isDescending stats ladder signal
  · simp only [map_none, getD_none, any_none, Bool.false_eq_true, iff_false]
    omega
  · simp

theorem softOnly_iff : (topRung isDescending stats ladder signal).any
    (fun top => decide (3 ≤ rungLevel top)) = true ↔ SoftOnly isDescending stats ladder signal := by
  have habove : ∀ rank, (topRung isDescending stats ladder signal).any
      (fun top => decide (rank ≤ top.rank)) = true ↔
        ∃ rung, rank ≤ rung.rank ∧ holds isDescending stats ladder signal rung = true := by
    intro rank
    rw [topRung_any _ fun low high hle hlow => ?_]
    · simp only [decide_eq_true_eq]
    · rw [decide_eq_true_eq] at hlow ⊢
      exact hlow.trans hle
  have hhard : (∃ rung : BudgetRung, 4 ≤ rung.rank ∧
      holds isDescending stats ladder signal rung = true) ↔
        holds isDescending stats ladder signal .evictHard = true := by
    constructor
    · rintro ⟨rung, hrank, hholds⟩
      cases rung <;> first | exact hholds | exact absurd hrank (by decide)
    · exact fun hholds => ⟨_, by decide, hholds⟩
  have hsoft : (∃ rung : BudgetRung, 3 ≤ rung.rank ∧
      holds isDescending stats ladder signal rung = true) ↔
        holds isDescending stats ladder signal .evictSoft = true ∨
          holds isDescending stats ladder signal .evictHard = true := by
    constructor
    · rintro ⟨rung, hrank, hholds⟩
      cases rung <;>
        first | exact .inl hholds | exact .inr hholds | exact absurd hrank (by decide)
    · rintro (hholds | hholds) <;> exact ⟨_, by decide, hholds⟩
  have hboth := habove 3
  have hfour := habove 4
  rw [hsoft] at hboth
  rw [hhard] at hfour
  rw [SoftOnly, ← holds_iff, ← holds_iff, ← hfour, and_congr_left fun hnot =>
    (hboth.trans (or_iff_left (hfour.not.1 hnot))).symm]
  cases topRung isDescending stats ladder signal with
  | none => simp
  | some top => cases top <;> decide

theorem three_le_rawLevel_iff : 3 ≤ rawLevel isDescending stats ladder ↔
    memoryPressured stats.toHostStats = true ∨
      ∃ signal ∈ ladder.signals, SoftOnly isDescending stats ladder signal := by
  simp only [le_rawLevel_iff (by decide : 0 < 3) le_rfl, softOnly_iff]

/-- Below evicting, the rungs put a signal at levels that rise with them. -/
theorem Worse.low_level (hworse : Worse before after) (hplain : Unwrapped before)
    (hplain' : Unwrapped after) (hdesc : isDescending = falling) {level : ℕ} (hpos : 0 < level)
    (hle : level ≤ 2) (hbefore : level ≤ rawLevel isDescending before ladder) :
    level ≤ rawLevel isDescending after ladder := by
  have hup : ∀ low high : BudgetRung, low.rank ≤ high.rank →
      decide (level ≤ rungLevel low) = true → decide (level ≤ rungLevel high) = true := by
    intro low high hrank hlevel
    rw [decide_eq_true_eq] at hlevel ⊢
    cases low <;> cases high <;> simp only [BudgetRung.rank, rungLevel] at hrank hlevel ⊢ <;> omega
  rw [le_rawLevel_iff hpos (by omega)] at hbefore ⊢
  simp only [topRung_any _ hup] at hbefore ⊢
  rcases hbefore with hpressured | ⟨signal, hsignal, rung, hrung, hholds⟩
  · exact .inl (hworse.pressured hplain hplain' hpressured)
  · exact .inr ⟨signal, hsignal, rung, hrung, hworse.holds hplain hplain' hdesc hholds⟩

/-- The worse snapshot takes a signal from its evict-soft rung over to its evict-hard rung, where
memory pressure is not on and no signal is read on evict-soft alone. -/
structure GoesOver (isDescending : SignalID → Bool) (ladder : BudgetLadder)
    (before after : BudgetStats) : Prop where
  goes : ∃ signal ∈ ladder.signals, SoftOnly isDescending before ladder signal ∧
    ReadsOn isDescending after ladder signal .evictHard
  unpressured : memoryPressured after.toHostStats = false
  none_left : ∀ signal ∈ ladder.signals, ¬ SoftOnly isDescending after ladder signal

def firstSample (memory : ℤ) : BudgetStats := newBudgetMonitor.stamp (calmHost memory) 0

theorem worse_memory {less more : ℤ} (hle : less ≤ more) :
    Worse (firstSample more) (firstSample less) :=
  .mk less _ _ _ _ _ _ hle le_rfl le_rfl le_rfl le_rfl le_rfl le_rfl

theorem unwrapped_firstSample (memory : ℤ) : Unwrapped (firstSample memory) :=
  have hzero : FitsInt64 0 := ⟨by decide, by decide⟩
  have hleft : FitsInt64 3600 := ⟨by decide, by decide⟩
  ⟨hzero, hzero, hzero, hleft⟩

/-- The calm host with so many pages compressed of a limit of 10^17. -/
def compressed (pages : ℤ) : BudgetStats :=
  { firstSample (8 * 2 ^ 30) with compressorPages := pages, compressorPagesLimit := 10 ^ 17 }

theorem worse_compressed {fewer more : ℤ} (hle : fewer ≤ more) :
    Worse (compressed fewer) (compressed more) :=
  .mk _ more _ _ _ _ _ le_rfl hle le_rfl le_rfl le_rfl le_rfl le_rfl

end Worse

end K3sm.Eviction
