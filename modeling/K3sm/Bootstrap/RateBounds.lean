import K3sm.Core.Int64
import K3sm.Core.LockedCalls
import K3sm.Core.TokenBucket

/-!
# What the limits on join requests bound

`PreAuthLimiter` bounds anonymous join volume, per source address and in total, and
`JoinRateLimiter` what one join token may drive after it was verified.  Times are nanoseconds
since Go's zero time, and units are exact rationals where the source has floats.

Both limiters stamp a bucket with the reading of whoever charges it, also with one before the
stamp it replaces; the time in between is then refilled a second time.  So the bounds hold for the
runs in which each bucket is reached in the order of the readings.
-/

namespace K3sm.Bootstrap

open K3sm.Core

/-- The answer of a limiter: whether the request may proceed and, when it may
not, how long until it may be tried again. -/
structure Verdict where
  granted : Bool
  retryAfter : ℕ
  deriving DecidableEq

/-- The limits of one source and of all of them. -/
structure PreAuthTuning where
  source : Tuning
  global : Tuning
  maxSources : ℕ

/-- The tuning of `newPreAuthLimiter`. -/
def preAuthShipped : PreAuthTuning where
  source := { burst := 16, refill := 2 * second, refill_pos := by decide }
  global := { burst := 64, refill := 250000000, refill_pos := by decide }
  maxSources := 1024

/-- The interval is a constant of the package, whatever the tuning of the
limiter. -/
def preAuthSweepInterval : ℕ := preAuthShipped.source.burst * preAuthShipped.source.refill

/-- The buckets of the sources, the one for those a full table has no room for, and the one
of all. -/
structure PreAuthLimiter (Source : Type) where
  sources : Tuning.BucketTable Source
  overflow : Bucket
  global : Bucket
  lastSweep : ℕ

/-- The zero value of a bucket, which nothing was ever charged to. -/
def unseen : Bucket := ⟨0, 0⟩

def newPreAuthLimiter {Source : Type} : PreAuthLimiter Source where
  sources := ∅
  overflow := unseen
  global := unseen
  lastSweep := 0

def refilled (tuning : Tuning) (bucket : Bucket) (now : ℕ) : Bucket :=
  if bucket.stamp = 0 then tuning.untouched now else tuning.bring bucket now

def wait (tuning : Tuning) (bucket : Bucket) : ℕ :=
  if 1 ≤ bucket.units then 0 else ⌊(1 - bucket.units) * tuning.refill⌋₊

def spend (bucket : Bucket) : Bucket := { bucket with units := bucket.units - 1 }

namespace PreAuthLimiter

variable {Source : Type} [DecidableEq Source] (tuning : PreAuthTuning)

omit [DecidableEq Source] in
def sweepLocked (limiter : PreAuthLimiter Source) (now : ℕ) : PreAuthLimiter Source :=
  { limiter with sources := tuning.source.sweep limiter.sources now }

omit [DecidableEq Source] in
/-- The first part of `allow`: the periodic sweep. -/
def sweepDue (limiter : PreAuthLimiter Source) (now : ℕ) : PreAuthLimiter Source :=
  if limiter.lastSweep = 0 then { limiter with lastSweep := now }
  else if limiter.lastSweep + preAuthSweepInterval ≤ now then
    { limiter.sweepLocked tuning now with lastSweep := now }
  else limiter

/-- Whether a request of the source is charged to the shared bucket. -/
def overflows (limiter : PreAuthLimiter Source) (source : Source) : Bool :=
  (limiter.sources.lookup source).isNone &&
    decide (tuning.maxSources ≤ limiter.sources.entries.length)

/-- The source's side of a charge: the bucket it is charged to, refilled. -/
def sourceBucket (limiter : PreAuthLimiter Source) (source : Source) (now : ℕ) : Bucket :=
  refilled tuning.source
    (if limiter.overflows tuning source then limiter.overflow
      else (limiter.sources.lookup source).getD unseen) now

/-- The second part of `allow`, on the limiter after the sweep. -/
def settle (limiter : PreAuthLimiter Source) (source : Source) (now : ℕ) :
    Verdict × PreAuthLimiter Source :=
  let overflow := limiter.overflows tuning source
  let src := limiter.sourceBucket tuning source now
  let glob := refilled tuning.global limiter.global now
  if src.units < 1 ∨ glob.units < 1 then
    -- An unseen source that is refused stays absent.
    (⟨false, max (wait tuning.source src) (wait tuning.global glob)⟩,
      { limiter with
        global := glob
        overflow := if overflow then src else limiter.overflow
        sources :=
          if !overflow && (limiter.sources.lookup source).isSome then
            limiter.sources.insert source src
          else limiter.sources })
  else
    (⟨true, 0⟩,
      { limiter with
        global := spend glob
        overflow := if overflow then spend src else limiter.overflow
        sources :=
          if overflow then limiter.sources else limiter.sources.insert source (spend src) })

def allow (limiter : PreAuthLimiter Source) (source : Source) (now : ℕ) :
    Verdict × PreAuthLimiter Source :=
  (limiter.sweepDue tuning now).settle tuning source now

end PreAuthLimiter

/-- The tuning of `newJoinRateLimiter`. -/
def joinRateShipped : Tuning where
  burst := 5
  refill := 12 * second
  refill_pos := by decide

def joinRateMaxBuckets : ℕ := 1024

/-- A bucket for each join token. -/
structure JoinRateLimiter (Token : Type) where
  buckets : Tuning.BucketTable Token

def newKeyedRateLimiter {Token : Type} : JoinRateLimiter Token := ⟨∅⟩

namespace JoinRateLimiter

variable {Token : Type} [DecidableEq Token] (tuning : Tuning)

omit [DecidableEq Token] in
def sweepLocked (limiter : JoinRateLimiter Token) (now : ℕ) : JoinRateLimiter Token :=
  ⟨tuning.sweep limiter.buckets now⟩

/-- The bucket of a token as `allow` refills it. -/
def tokenBucket (limiter : JoinRateLimiter Token) (token : Token) (now : ℕ) : Bucket :=
  tuning.bring ((limiter.buckets.lookup token).getD (tuning.untouched now)) now

def allow (limiter : JoinRateLimiter Token) (token : Token) (now : ℕ) :
    Verdict × JoinRateLimiter Token :=
  let bucket := limiter.tokenBucket tuning token now
  if bucket.units < 1 then
    (⟨false, ⌊(1 - bucket.units) * tuning.refill⌋₊⟩, ⟨limiter.buckets.insert token bucket⟩)
  else
    let swept :=
      if joinRateMaxBuckets ≤ limiter.buckets.entries.length then limiter.sweepLocked tuning now
      else limiter
    (⟨true, 0⟩, ⟨swept.buckets.insert token (spend bucket)⟩)

end JoinRateLimiter

open K3sm.Core.Tuning

variable {Key State : Type}

def admissions (watched : Charge Key State → Bool) (log : List (Charge Key State)) :
    List (Charge Key State) :=
  log.filter fun charge => charge.granted && watched charge

/-- In every window, by the readings, no more admissions than the tuning allows;
by the moment of the lock, than it allows for a window widened by the longest wait. -/
def Bounded (tuning : Tuning) (watched : Charge Key State → Bool)
    (log : List (Charge Key State)) : Prop :=
  ∀ window : Window,
    (((admissions watched log).countP fun charge => decide (window.Holds charge.reading) : ℕ) : ℚ) ≤
      tuning.allowance window.length ∧
    ∀ delay : ℕ,
      (((admissions watched log).countP fun charge =>
        decide (window.Holds charge.instant ∧ charge.instant ≤ charge.reading + delay) : ℕ) : ℚ) ≤
        tuning.allowance (window.length + delay)

def takenIn (watched : Charge Key State → Bool) (window : Window)
    (log : List (Charge Key State)) : ℕ :=
  (admissions watched log).countP fun charge => decide (window.Holds charge.reading)

theorem takenIn_cons_of_not {watched : Charge Key State → Bool} {window : Window}
    {charge : Charge Key State} {log : List (Charge Key State)}
    (hidle : (charge.granted && watched charge) = false) :
    takenIn watched window (charge :: log) = takenIn watched window log := by
  simp only [takenIn, admissions, List.filter_cons, hidle, Bool.false_eq_true, if_false]

theorem takenIn_cons (watched : Charge Key State → Bool) (window : Window)
    (charge : Charge Key State) (log : List (Charge Key State)) :
    takenIn watched window (charge :: log) =
      takenIn watched window log +
        if (charge.granted && watched charge) = true ∧
          window.Holds charge.reading then 1 else 0 := by
  cases hcounts : charge.granted && watched charge with
  | false => simp [takenIn_cons_of_not hcounts]
  | true => simp [takenIn, admissions, hcounts, List.countP_cons]

theorem bounded_of_takenIn {tuning : Tuning} {watched : Charge Key State → Bool}
    {log : List (Charge Key State)} {operate : State → Key → ℕ → Bool × State} {start : ℕ}
    (htimely : ∀ charge ∈ log, start ≤ charge.reading ∧ charge.reading ≤ charge.instant ∧
      charge.granted = (operate charge.found charge.key charge.reading).1)
    (htaken : ∀ window, (takenIn watched window log : ℚ) ≤ tuning.allowance window.length) :
    Bounded tuning watched log := by
  intro window
  refine ⟨htaken window, fun delay => le_trans ?_
    (htaken ⟨window.start - delay, window.length + delay⟩)⟩
  simp only [takenIn]
  apply Nat.cast_le.2
  apply List.countP_mono_left
  intro charge hcharge hholds
  have hreading := (htimely charge (List.mem_of_mem_filter hcharge)).2.1
  obtain ⟨⟨hfirst, hlast⟩, hdelay⟩ := of_decide_eq_true hholds
  apply decide_eq_true
  constructor
  · show window.start - delay ≤ charge.reading
    omega
  · show charge.reading ≤ window.start - delay + (window.length + delay)
    omega

/-- The bucket behind a value of the source: none behind the zero value. -/
def seen (bucket : Bucket) : Option Bucket :=
  if bucket.stamp = 0 then none else some bucket

theorem refilled_eq_charged (tuning : Tuning) (bucket : Bucket) (now : ℕ) :
    refilled tuning bucket now = tuning.charged (seen bucket) now := by
  simp only [refilled, seen]
  split <;> rfl

theorem seen_of_stamp {bucket : Bucket} (hstamp : bucket.stamp ≠ 0) :
    seen bucket = some bucket := by
  rw [seen, if_neg hstamp]

variable {table : BucketTable Key} {key : Key} {bucket : Option Bucket}

theorem seen_getD (hstamp : ∀ present ∈ bucket, present.stamp ≠ 0) :
    seen (bucket.getD unseen) = bucket := by
  cases bucket with
  | none => rfl
  | some present => exact seen_of_stamp (hstamp present rfl)

/-- What a bucket holds; one that was never drawn on is full. -/
def balance (tuning : Tuning) (bucket : Option Bucket) : ℚ :=
  bucket.elim tuning.burst Bucket.units

def Modest (tuning : Tuning) (bucket : Option Bucket) : Prop :=
  ∀ present ∈ bucket, present.units ≤ tuning.burst ∧ present.stamp ≠ 0

theorem modest_none (tuning : Tuning) : Modest tuning none := by
  intro present hpresent
  cases hpresent

theorem balance_le_burst {tuning : Tuning} (hmodest : Modest tuning bucket) :
    balance tuning bucket ≤ tuning.burst := by
  cases bucket with
  | none => exact le_refl _
  | some present => exact (hmodest present rfl).1

theorem balance_le_charged {tuning : Tuning} (hmodest : Modest tuning bucket) (now : ℕ) :
    balance tuning bucket ≤ (tuning.charged bucket now).units := by
  cases bucket with
  | none => exact le_refl _
  | some present => exact tuning.units_le_bring (hmodest present rfl).1 now

theorem modest_charged {tuning : Tuning} (hmodest : Modest tuning bucket) {now : ℕ}
    (hnow : 0 < now) :
    Modest tuning (some (tuning.charged bucket now)) := by
  intro present hpresent
  obtain rfl : tuning.charged bucket now = present := Option.some.inj hpresent
  refine ⟨charged_units_le (fun other hother => (hmodest other hother).1) now, ?_⟩
  rw [charged_stamp]
  exact hnow.ne'

theorem modest_spend {tuning : Tuning} {bucket : Bucket} (hmodest : Modest tuning (some bucket)) :
    Modest tuning (some (spend bucket)) := by
  intro present hpresent
  obtain rfl : spend bucket = present := Option.some.inj hpresent
  have hbucket := hmodest bucket rfl
  refine ⟨?_, hbucket.2⟩
  show bucket.units - 1 ≤ tuning.burst
  linarith [hbucket.1]

theorem modest_lookup_sweep [DecidableEq Key] {tuning : Tuning}
    (hmodest : Modest tuning (table.lookup key)) (now : ℕ) :
    Modest tuning ((tuning.sweep table now).lookup key) := by
  intro present hpresent
  rw [lookup_sweep, Option.mem_def, Option.filter_eq_some_iff] at hpresent
  exact hmodest present hpresent.1

theorem modest_insert [DecidableEq Key] {tuning : Tuning} {other : Key} {bucket : Bucket}
    (htable : ∀ key, Modest tuning (table.lookup key)) (hbucket : Modest tuning (some bucket))
    (key : Key) : Modest tuning ((table.insert other bucket).lookup key) := by
  by_cases hkey : key = other
  · rw [hkey, AList.lookup_insert]
    exact hbucket
  · rw [AList.lookup_insert_ne hkey]
    exact htable key

theorem balance_le_sweep [DecidableEq Key] {tuning : Tuning}
    (hmodest : Modest tuning (table.lookup key)) (now : ℕ) :
    balance tuning (table.lookup key) ≤ balance tuning ((tuning.sweep table now).lookup key) := by
  rw [lookup_sweep]
  cases hlookup : table.lookup key with
  | none => exact le_refl _
  | some bucket =>
    cases hfull : tuning.full bucket now with
    | true =>
      rw [Option.filter_some, if_neg (by simp [hfull])]
      exact balance_le_burst (hlookup ▸ hmodest)
    | false =>
      rw [Option.filter_some, if_pos (by simp [hfull])]

theorem lookup_sweep_of_kept [DecidableEq Key] {tuning : Tuning} {now : ℕ}
    (hkept : ((table.lookup key).isSome && ((tuning.sweep table now).lookup key).isNone) = false) :
    (tuning.sweep table now).lookup key = table.lookup key := by
  rw [lookup_sweep] at hkept ⊢
  cases hlookup : table.lookup key with
  | none => rfl
  | some bucket =>
    rw [hlookup, Option.filter_some] at hkept
    rw [Option.filter_some]
    split
    case isTrue => rfl
    case isFalse hfull => simp [hfull] at hkept

/-! ## The bound before authentication -/

namespace PreAuthLimiter

variable {Source : Type} [DecidableEq Source] {tuning : PreAuthTuning}

variable (tuning) in
/-- `allow` as what a caller does once it has the lock. -/
def operate (limiter : PreAuthLimiter Source) (source : Source) (now : ℕ) :
    Bool × PreAuthLimiter Source :=
  ((limiter.allow tuning source now).1.granted, (limiter.allow tuning source now).2)

variable (tuning) in
theorem settle_cases (limiter : PreAuthLimiter Source) (source : Source) (now : ℕ) :
    ((limiter.settle tuning source now).1.granted = false ∧
      (limiter.settle tuning source now).2 =
        { limiter with
          global := refilled tuning.global limiter.global now
          overflow :=
            if limiter.overflows tuning source then limiter.sourceBucket tuning source now
            else limiter.overflow
          sources :=
            if !limiter.overflows tuning source && (limiter.sources.lookup source).isSome then
              limiter.sources.insert source (limiter.sourceBucket tuning source now)
            else limiter.sources }) ∨
    ((limiter.settle tuning source now).1.granted = true ∧
      1 ≤ (limiter.sourceBucket tuning source now).units ∧
      1 ≤ (refilled tuning.global limiter.global now).units ∧
      (limiter.settle tuning source now).2 =
        { limiter with
          global := spend (refilled tuning.global limiter.global now)
          overflow :=
            if limiter.overflows tuning source then spend (limiter.sourceBucket tuning source now)
            else limiter.overflow
          sources :=
            if limiter.overflows tuning source then limiter.sources
            else limiter.sources.insert source
              (spend (limiter.sourceBucket tuning source now)) }) := by
  simp only [settle]
  split
  case isTrue => exact .inl ⟨rfl, rfl⟩
  rename_i hunits
  rw [not_or, not_lt, not_lt] at hunits
  exact .inr ⟨rfl, hunits.1, hunits.2, rfl⟩

variable {limiter : PreAuthLimiter Source} {source : Source} {window : Window} {now taken : ℕ}

theorem sourceBucket_overflow (hoverflow : limiter.overflows tuning source = true) (now : ℕ) :
    limiter.sourceBucket tuning source now = tuning.source.charged (seen limiter.overflow) now := by
  rw [sourceBucket, if_pos hoverflow, refilled_eq_charged]

theorem sourceBucket_own (hown : limiter.overflows tuning source = false)
    (hstamp : ∀ present ∈ limiter.sources.lookup source, present.stamp ≠ 0) (now : ℕ) :
    limiter.sourceBucket tuning source now =
      tuning.source.charged (limiter.sources.lookup source) now := by
  rw [sourceBucket, if_neg (by simp [hown]), refilled_eq_charged, seen_getD hstamp]

omit [DecidableEq Source] in
@[simp] theorem sweepDue_global (limiter : PreAuthLimiter Source) (now : ℕ) :
    (limiter.sweepDue tuning now).global = limiter.global := by
  simp only [sweepDue]
  split_ifs <;> rfl

omit [DecidableEq Source] in
@[simp] theorem sweepDue_overflow (limiter : PreAuthLimiter Source) (now : ℕ) :
    (limiter.sweepDue tuning now).overflow = limiter.overflow := by
  simp only [sweepDue]
  split_ifs <;> rfl

omit [DecidableEq Source] in
variable (tuning) in
theorem sweepDue_sources (limiter : PreAuthLimiter Source) (now : ℕ) :
    (limiter.sweepDue tuning now).sources = limiter.sources ∨
      (limiter.sweepDue tuning now).sources = tuning.source.sweep limiter.sources now := by
  simp only [sweepDue]
  split_ifs
  · exact .inl rfl
  · exact .inr rfl
  · exact .inl rfl

/-- What holds of a limiter's buckets at all times. -/
structure Sound (tuning : PreAuthTuning) (limiter : PreAuthLimiter Source) : Prop where
  sources : ∀ source, Modest tuning.source (limiter.sources.lookup source)
  overflow : Modest tuning.source (seen limiter.overflow)
  global : Modest tuning.global (seen limiter.global)
  capped : limiter.sources.entries.length ≤ tuning.maxSources

/-- No bucket holds less than before. -/
structure Unspent (tuning : PreAuthTuning) (before after : PreAuthLimiter Source) : Prop where
  sources : ∀ source, balance tuning.source (before.sources.lookup source) ≤
    balance tuning.source (after.sources.lookup source)
  overflow : balance tuning.source (seen before.overflow) ≤
    balance tuning.source (seen after.overflow)
  global : balance tuning.global (seen before.global) ≤ balance tuning.global (seen after.global)

theorem sound_new : Sound tuning (newPreAuthLimiter : PreAuthLimiter Source) where
  sources := fun source => by
    rw [newPreAuthLimiter, AList.lookup_empty]
    exact modest_none _
  overflow := modest_none _
  global := modest_none _
  capped := Nat.zero_le _

theorem Sound.sweepDue (hsound : Sound tuning limiter) (now : ℕ) :
    Sound tuning (limiter.sweepDue tuning now) where
  sources := by
    intro source
    rcases sweepDue_sources tuning limiter now with hsame | hswept
    · rw [hsame]
      exact hsound.sources source
    · rw [hswept]
      exact modest_lookup_sweep (hsound.sources source) now
  overflow := by
    rw [sweepDue_overflow]
    exact hsound.overflow
  global := by
    rw [sweepDue_global]
    exact hsound.global
  capped := by
    rcases sweepDue_sources tuning limiter now with hsame | hswept
    · rw [hsame]
      exact hsound.capped
    · rw [hswept]
      exact (sweep_length_le _ _).trans hsound.capped

theorem Sound.modest_sourceBucket (hsound : Sound tuning limiter) (source : Source)
    (hnow : 0 < now) :
    Modest tuning.source (some (limiter.sourceBucket tuning source now)) := by
  cases hoverflow : limiter.overflows tuning source with
  | true =>
    rw [sourceBucket_overflow hoverflow]
    exact modest_charged hsound.overflow hnow
  | false =>
    rw [sourceBucket_own hoverflow fun present hpresent =>
      (hsound.sources source present hpresent).2]
    exact modest_charged (hsound.sources source) hnow

theorem Sound.modest_global (hsound : Sound tuning limiter) (hnow : 0 < now) :
    Modest tuning.global (some (refilled tuning.global limiter.global now)) := by
  rw [refilled_eq_charged]
  exact modest_charged hsound.global hnow

theorem modest_seen {tuning : Tuning} {bucket : Bucket} (hmodest : Modest tuning (some bucket)) :
    Modest tuning (seen bucket) := by
  rw [seen_of_stamp (hmodest bucket rfl).2]
  exact hmodest

theorem Sound.settle (hsound : Sound tuning limiter) (source : Source) (hnow : 0 < now) :
    Sound tuning (limiter.settle tuning source now).2 := by
  have hsrc := hsound.modest_sourceBucket source hnow
  have hglob := hsound.modest_global hnow
  rcases settle_cases tuning limiter source now with
    ⟨_, hafter⟩ | ⟨_, _, _, hafter⟩
  · rw [hafter]
    refine ⟨?_, ?_, modest_seen hglob, ?_⟩
    · intro other
      dsimp only
      split
      · exact modest_insert hsound.sources hsrc other
      · exact hsound.sources other
    · dsimp only
      split
      · exact modest_seen hsrc
      · exact hsound.overflow
    · dsimp only
      split
      case isFalse => exact hsound.capped
      rename_i htracked
      rw [Bool.and_eq_true] at htracked
      rw [insert_length, if_pos (AList.lookup_isSome.1 htracked.2)]
      exact hsound.capped
  rw [hafter]
  refine ⟨?_, ?_, modest_seen (modest_spend hglob), ?_⟩
  · intro other
    dsimp only
    split
    · exact hsound.sources other
    · exact modest_insert hsound.sources (modest_spend hsrc) other
  · dsimp only
    split
    · exact modest_seen (modest_spend hsrc)
    · exact hsound.overflow
  dsimp only
  split
  case isTrue => exact hsound.capped
  rename_i hown
  -- A new source is only entered while there is room for it.
  rw [insert_length]
  split
  case isTrue => exact hsound.capped
  rename_i habsent
  have hnone := AList.lookup_eq_none.2 habsent
  simp only [overflows, hnone, Option.isNone_none, Bool.true_and,
    decide_eq_true_eq, not_le] at hown
  exact hown

theorem Sound.unspent_settle (hsound : Sound tuning limiter) (source : Source) (hnow : 0 < now)
    (hrefused : (limiter.settle tuning source now).1.granted = false) :
    Unspent tuning limiter (limiter.settle tuning source now).2 := by
  have hsrc := hsound.modest_sourceBucket source hnow
  have hglob := hsound.modest_global hnow
  rcases settle_cases tuning limiter source now with
    ⟨_, hafter⟩ | ⟨hgranted, _⟩
  · rw [hafter]
    refine ⟨?_, ?_, ?_⟩
    · intro other
      dsimp only
      split
      case isFalse => exact le_refl _
      rename_i htracked
      rw [Bool.and_eq_true, Bool.not_eq_true'] at htracked
      by_cases hother : other = source
      · rw [hother, AList.lookup_insert, sourceBucket_own htracked.1 fun present hpresent =>
          (hsound.sources source present hpresent).2]
        exact balance_le_charged (hsound.sources source) now
      · rw [AList.lookup_insert_ne hother]
    · dsimp only
      split
      case isFalse => exact le_refl _
      rename_i hoverflow
      rw [seen_of_stamp (hsrc _ rfl).2, sourceBucket_overflow hoverflow]
      exact balance_le_charged hsound.overflow now
    · dsimp only
      rw [seen_of_stamp (hglob _ rfl).2, refilled_eq_charged]
      exact balance_le_charged hsound.global now
  · rw [hrefused] at hgranted
    cases hgranted

theorem Sound.unspent_sweepDue (hsound : Sound tuning limiter) (now : ℕ) :
    Unspent tuning limiter (limiter.sweepDue tuning now) where
  sources := by
    intro source
    rcases sweepDue_sources tuning limiter now with hsame | hswept
    · rw [hsame]
    · rw [hswept]
      exact balance_le_sweep (hsound.sources source) now
  overflow := by rw [sweepDue_overflow]
  global := by rw [sweepDue_global]

theorem Unspent.trans {first second third : PreAuthLimiter Source}
    (hfirst : Unspent tuning first second) (hsecond : Unspent tuning second third) :
    Unspent tuning first third where
  sources := fun source => (hfirst.sources source).trans (hsecond.sources source)
  overflow := hfirst.overflow.trans hsecond.overflow
  global := hfirst.global.trans hsecond.global

/-! ### What holds when the readings come in order -/

variable (tuning) in
/-- Whether a charge went to the bucket of the given source itself. -/
def chargedTo (source : Source) (charge : Charge Source (PreAuthLimiter Source)) : Bool :=
  decide (charge.key = source) &&
    !(charge.found.sweepDue tuning charge.reading).overflows tuning charge.key

variable (tuning) in
/-- Whether a charge concerned the bucket of the given source: it was the
source's own, or its sweep dropped the bucket. -/
def touchesSource (source : Source) (charge : Charge Source (PreAuthLimiter Source)) : Bool :=
  decide (charge.key = source) ||
    ((charge.found.sources.lookup source).isSome &&
      ((charge.found.sweepDue tuning charge.reading).sources.lookup source).isNone)

theorem kept_sweepDue {last : ℕ}
    (hkept : tuning.source.Kept window taken last (limiter.sources.lookup source))
    (hlater : last ≤ now) :
    tuning.source.Kept window taken now ((limiter.sweepDue tuning now).sources.lookup source) := by
  rcases sweepDue_sources tuning limiter now with hsame | hswept
  · rw [hsame]
    exact hkept.later hlater
  · rw [hswept]
    exact hkept.sweep hlater

theorem lookup_settle_ne {other : Source} (hother : source ≠ other) (now : ℕ) :
    (limiter.settle tuning other now).2.sources.lookup source = limiter.sources.lookup source := by
  rcases settle_cases tuning limiter other now with ⟨_, hafter⟩ | ⟨_, _, _, hafter⟩
  · rw [hafter]
    dsimp only
    split
    · exact AList.lookup_insert_ne hother
    · rfl
  · rw [hafter]
    dsimp only
    split
    · rfl
    · exact AList.lookup_insert_ne hother

theorem lookup_allow_of_not_touches {other : Source} (hother : source ≠ other)
    (hkept : ((limiter.sources.lookup source).isSome &&
      ((limiter.sweepDue tuning now).sources.lookup source).isNone) = false) :
    (limiter.allow tuning other now).2.sources.lookup source = limiter.sources.lookup source := by
  rw [allow, lookup_settle_ne hother]
  rcases sweepDue_sources tuning limiter now with hsame | hswept
  · rw [hsame]
  · rw [hswept] at hkept ⊢
    exact lookup_sweep_of_kept hkept

theorem kept_settle (hsound : Sound tuning limiter)
    (hkept : tuning.source.Kept window taken now (limiter.sources.lookup source)) :
    tuning.source.Kept window
      (taken + if ((limiter.settle tuning source now).1.granted &&
          !limiter.overflows tuning source) = true ∧ window.Holds now then 1 else 0) now
      ((limiter.settle tuning source now).2.sources.lookup source) := by
  have hstamp : ∀ present ∈ limiter.sources.lookup source, present.stamp ≠ 0 :=
    fun present hpresent => (hsound.sources source present hpresent).2
  rcases settle_cases tuning limiter source now with
    ⟨hrefused, hafter⟩ | ⟨hgranted, hunit, _, hafter⟩
  · rw [if_neg (by simp [hrefused]), add_zero, hafter]
    dsimp only
    split
    case isFalse => exact hkept
    rename_i htracked
    rw [Bool.and_eq_true, Bool.not_eq_true'] at htracked
    rw [AList.lookup_insert, sourceBucket_own htracked.1 hstamp]
    exact hkept.refuse (le_refl _)
  rw [hafter]
  dsimp only
  cases hoverflow : limiter.overflows tuning source with
  | true => simpa using hkept
  | false =>
    rw [sourceBucket_own hoverflow hstamp] at hunit
    have hspent := hkept.grant (le_refl _) hunit
    simpa [hgranted, sourceBucket_own hoverflow hstamp, spend] using hspent

theorem kept_settle_global (source : Source) {last : ℕ} (hnow : 0 < now) (hlater : last ≤ now)
    (hkept : tuning.global.Kept window taken last (seen limiter.global)) :
    tuning.global.Kept window
      (taken + if (limiter.settle tuning source now).1.granted = true ∧ window.Holds now
        then 1 else 0) now (seen (limiter.settle tuning source now).2.global) := by
  have hstamp : (tuning.global.charged (seen limiter.global) now).stamp ≠ 0 := by
    rw [charged_stamp]
    exact hnow.ne'
  rcases settle_cases tuning limiter source now with
    ⟨hrefused, hafter⟩ | ⟨hgranted, _, hunit, hafter⟩
  · rw [if_neg (by simp [hrefused]), add_zero, hafter]
    dsimp only
    rw [refilled_eq_charged, seen_of_stamp hstamp]
    exact hkept.refuse hlater
  rw [refilled_eq_charged] at hunit
  have hspent := hkept.grant hlater hunit
  rw [hafter]
  dsimp only
  have hseen : seen (spend (tuning.global.charged (seen limiter.global) now)) = some _ :=
    seen_of_stamp hstamp
  rw [refilled_eq_charged, hseen]
  simpa [hgranted, spend] using hspent

abbrev after (tuning : PreAuthTuning) (start : ℕ+) (events : List (CallerEvent Source)) :
    Callers Source (PreAuthLimiter Source) :=
  events.foldl (Callers.next (operate tuning)) (Callers.fresh newPreAuthLimiter start)

theorem Sound.allow (hsound : Sound tuning limiter) (source : Source) (hnow : 0 < now) :
    Sound tuning (limiter.allow tuning source now).2 :=
  (hsound.sweepDue now).settle source hnow

theorem Sound.unspent_allow (hsound : Sound tuning limiter) (source : Source) (hnow : 0 < now)
    (hrefused : (limiter.allow tuning source now).1.granted = false) :
    Unspent tuning limiter (limiter.allow tuning source now).2 :=
  (hsound.unspent_sweepDue now).trans ((hsound.sweepDue now).unspent_settle source hnow hrefused)

/-- What every run keeps, whatever the order of the readings: the limiter is
sound and no refused request has spent anything. -/
def Clean (tuning : PreAuthTuning) (limiter : PreAuthLimiter Source)
    (log : List (Charge Source (PreAuthLimiter Source))) : Prop :=
  Sound tuning limiter ∧ ∀ charge ∈ log, charge.granted = false →
    Unspent tuning charge.found (charge.found.allow tuning charge.key charge.reading).2

theorem clean_after (tuning : PreAuthTuning) (start : ℕ+) (events : List (CallerEvent Source)) :
    Clean tuning (after tuning start events).state (after tuning start events).log := by
  have hcharge : ∀ (world : Callers Source (PreAuthLimiter Source)) (call : Call Source),
      (start : ℕ) ≤ call.reading → Clean tuning world.state world.log →
      Clean tuning (operate tuning world.state call.key call.reading).2
        (world.chargeOf (operate tuning) call :: world.log) := by
    intro world call hstart hclean
    have hnow : 0 < call.reading := lt_of_lt_of_le start.pos hstart
    refine ⟨hclean.1.allow call.key hnow, ?_⟩
    intro charge hmem hrefused
    rcases List.mem_cons.1 hmem with rfl | hearlier
    · exact hclean.1.unspent_allow call.key hnow hrefused
    · exact hclean.2 charge hearlier hrefused
  have hnew : Clean tuning (newPreAuthLimiter : PreAuthLimiter Source) [] :=
    ⟨sound_new, by simp⟩
  exact (Callers.always_of_every_charge hcharge hnew events).last.2

/-- In a run in which a source's bucket is reached in order, the source is
admitted no more often than its tuning allows. -/
theorem source_bounded (tuning : PreAuthTuning) (start : ℕ+) (source : Source)
    {events : List (CallerEvent Source)}
    (hsteps : EachStep (Callers.InOrder (operate tuning) (touchesSource tuning source))
      (Callers.next (operate tuning)) (Callers.fresh newPreAuthLimiter start) events) :
    Bounded tuning.source (chargedTo tuning source) (after tuning start events).log := by
  have hall : ∀ window : Window,
      Always (fun world => world.Timely (operate tuning) start ∧ Sound tuning world.state ∧
        tuning.source.Kept window (takenIn (chargedTo tuning source) window world.log)
          (Callers.latest (touchesSource tuning source) world.log)
          (world.state.sources.lookup source)) (Callers.next (operate tuning))
        (Callers.fresh newPreAuthLimiter start) events := by
    intro window
    refine @Callers.always_inOrder Source (PreAuthLimiter Source) (operate tuning)
      (touchesSource tuning source) (fun limiter log last => Sound tuning limiter ∧
        tuning.source.Kept window (takenIn (chargedTo tuning source) window log) last
          (limiter.sources.lookup source)) start ?_ ?_ _ ⟨sound_new, ?_⟩ _ hsteps
    · intro world call last hstart hidle hinv
      have hnow : 0 < call.reading := lt_of_lt_of_le start.pos hstart
      obtain ⟨hkey, hdropped⟩ := Bool.or_eq_false_iff.1 hidle
      have hother : call.key ≠ source := of_decide_eq_false hkey
      refine ⟨hinv.1.allow call.key hnow, ?_⟩
      rw [takenIn_cons_of_not (by simp [chargedTo, Callers.chargeOf, hother])]
      have hsame := lookup_allow_of_not_touches hother.symm hdropped
      exact hsame ▸ hinv.2
    · intro world call last hstart htouch hlast hinv
      have hnow : 0 < call.reading := lt_of_lt_of_le start.pos hstart
      refine ⟨hinv.1.allow call.key hnow, ?_⟩
      have hswept := kept_sweepDue hinv.2 hlast
      by_cases hkey : call.key = source
      · subst hkey
        have hsettled := kept_settle (hinv.1.sweepDue call.reading) hswept
        rw [takenIn_cons]
        have hcharged : chargedTo tuning call.key (world.chargeOf (operate tuning) call) =
            !(world.state.sweepDue tuning call.reading).overflows tuning call.key := by
          simp [chargedTo, Callers.chargeOf]
        rw [hcharged]
        exact hsettled
      · rw [takenIn_cons_of_not (by simp [chargedTo, Callers.chargeOf, hkey])]
        have hsame : (world.state.allow tuning call.key call.reading).2.sources.lookup source = _ :=
          lookup_settle_ne (Ne.symm hkey) call.reading
        exact hsame ▸ hswept
    · rw [newPreAuthLimiter, AList.lookup_empty]
      exact kept_nothing 0
  exact bounded_of_takenIn (hall ⟨0, 0⟩).last.1.log fun window => (hall window).last.2.2.within

/-- In a run in which all requests are charged in the order of their readings,
no more of them are admitted than the global tuning allows. -/
theorem global_bounded (tuning : PreAuthTuning) (start : ℕ+) {events : List (CallerEvent Source)}
    (hsteps : EachStep (Callers.InOrder (operate tuning) fun _ => true)
      (Callers.next (operate tuning)) (Callers.fresh newPreAuthLimiter start) events) :
    Bounded tuning.global (fun _ => true) (after tuning start events).log := by
  have hall : ∀ window : Window,
      Always (fun world => world.Timely (operate tuning) start ∧
        tuning.global.Kept window (takenIn (fun _ => true) window world.log)
          (Callers.latest (fun _ => true) world.log) (seen world.state.global))
        (Callers.next (operate tuning)) (Callers.fresh newPreAuthLimiter start) events := by
    intro window
    refine @Callers.always_inOrder Source (PreAuthLimiter Source) (operate tuning)
      (fun _ => true) (fun limiter log last =>
        tuning.global.Kept window (takenIn (fun _ => true) window log) last
          (seen limiter.global)) start ?_ ?_ _ (kept_nothing 0) _ hsteps
    · intro world call last _ hidle
      cases hidle
    intro world call last hstart _ hlast hkept
    have hnow : 0 < call.reading := lt_of_lt_of_le start.pos hstart
    have hglobal : (world.state.sweepDue tuning call.reading).global = world.state.global :=
      sweepDue_global _ _
    rw [← hglobal] at hkept
    have hsettled := kept_settle_global call.key hnow hlast hkept
    rw [takenIn_cons]
    simpa [Callers.chargeOf, operate, allow] using hsettled
  exact bounded_of_takenIn (hall ⟨0, 0⟩).last.1.log fun window => (hall window).last.2.within

end PreAuthLimiter

/-! ## The bound per token -/

namespace JoinRateLimiter

variable {Token : Type} [DecidableEq Token] {tuning : Tuning}

variable (tuning) in
/-- `allow` as what a caller does once it has the lock. -/
def operate (limiter : JoinRateLimiter Token) (token : Token) (now : ℕ) :
    Bool × JoinRateLimiter Token :=
  ((limiter.allow tuning token now).1.granted, (limiter.allow tuning token now).2)

/-- The table as the charge of a granted request finds it. -/
def swept (tuning : Tuning) (limiter : JoinRateLimiter Token) (now : ℕ) : BucketTable Token :=
  if joinRateMaxBuckets ≤ limiter.buckets.entries.length then tuning.sweep limiter.buckets now
  else limiter.buckets

variable (tuning) in
theorem allow_cases (limiter : JoinRateLimiter Token) (token : Token) (now : ℕ) :
    ((limiter.allow tuning token now).1.granted = false ∧
      (limiter.allow tuning token now).2.buckets =
        limiter.buckets.insert token (tuning.charged (limiter.buckets.lookup token) now)) ∨
    ((limiter.allow tuning token now).1.granted = true ∧
      1 ≤ (tuning.charged (limiter.buckets.lookup token) now).units ∧
      (limiter.allow tuning token now).2.buckets =
        (limiter.swept tuning now).insert token
          (spend (tuning.charged (limiter.buckets.lookup token) now))) := by
  have hbucket : limiter.tokenBucket tuning token now =
      tuning.charged (limiter.buckets.lookup token) now := by
    rw [tokenBucket]
    cases limiter.buckets.lookup token with
    | none => simp [bring, charged, untouched]
    | some bucket => rfl
  simp only [allow, hbucket]
  split
  case isTrue => exact .inl ⟨rfl, rfl⟩
  rename_i hunits
  refine .inr ⟨rfl, not_lt.1 hunits, ?_⟩
  simp only [swept]
  split <;> rfl

variable (tuning) in
/-- Whether a charge concerned the bucket of the given token. -/
def touchesToken (token : Token) (charge : Charge Token (JoinRateLimiter Token)) : Bool :=
  decide (charge.key = token) ||
    ((charge.found.buckets.lookup token).isSome &&
      ((charge.found.swept tuning charge.reading).lookup token).isNone)

def chargedTo (token : Token) (charge : Charge Token (JoinRateLimiter Token)) : Bool :=
  decide (charge.key = token)

variable {limiter : JoinRateLimiter Token} {token other : Token} {now : ℕ}

theorem lookup_allow_of_not_touches (hother : token ≠ other)
    (hkept : ((limiter.buckets.lookup token).isSome &&
      ((limiter.swept tuning now).lookup token).isNone) = false) :
    (limiter.allow tuning other now).2.buckets.lookup token = limiter.buckets.lookup token := by
  rcases allow_cases tuning limiter other now with ⟨_, hafter⟩ | ⟨_, _, hafter⟩
  · rw [hafter, AList.lookup_insert_ne hother]
  rw [hafter, AList.lookup_insert_ne hother]
  simp only [swept] at hkept ⊢
  split at hkept
  case isFalse hfew => rw [if_neg hfew]
  rename_i hmany
  rw [if_pos hmany]
  exact lookup_sweep_of_kept hkept

theorem kept_allow {window : Window} {taken last : ℕ} (hlater : last ≤ now)
    (hkept : tuning.Kept window taken last (limiter.buckets.lookup token)) :
    tuning.Kept window
      (taken + if (limiter.allow tuning token now).1.granted = true ∧ window.Holds now
        then 1 else 0) now ((limiter.allow tuning token now).2.buckets.lookup token) := by
  rcases allow_cases tuning limiter token now with ⟨hrefused, hafter⟩ | ⟨hgranted, hunit, hafter⟩
  · rw [if_neg (by simp [hrefused]), add_zero, hafter, AList.lookup_insert]
    exact hkept.refuse hlater
  · rw [hafter, AList.lookup_insert]
    have hspent := hkept.grant hlater hunit
    simpa [hgranted, spend] using hspent

theorem kept_allow_other {window : Window} {taken last : ℕ} (hother : token ≠ other)
    (hlater : last ≤ now) (hkept : tuning.Kept window taken last (limiter.buckets.lookup token)) :
    tuning.Kept window taken now ((limiter.allow tuning other now).2.buckets.lookup token) := by
  rcases allow_cases tuning limiter other now with ⟨_, hafter⟩ | ⟨_, _, hafter⟩
  · rw [hafter, AList.lookup_insert_ne hother]
    exact hkept.later hlater
  · rw [hafter, AList.lookup_insert_ne hother]
    simp only [swept]
    split
    · exact hkept.sweep hlater
    · exact hkept.later hlater

abbrev after (tuning : Tuning) (start : ℕ+) (events : List (CallerEvent Token)) :
    Callers Token (JoinRateLimiter Token) :=
  events.foldl (Callers.next (operate tuning)) (Callers.fresh newKeyedRateLimiter start)

theorem token_bounded (tuning : Tuning) (start : ℕ+) (token : Token)
    {events : List (CallerEvent Token)}
    (hsteps : EachStep (Callers.InOrder (operate tuning) (touchesToken tuning token))
      (Callers.next (operate tuning)) (Callers.fresh newKeyedRateLimiter start) events) :
    Bounded tuning (chargedTo token) (after tuning start events).log := by
  have hall : ∀ window : Window,
      Always (fun world => world.Timely (operate tuning) start ∧
        tuning.Kept window (takenIn (chargedTo token) window world.log)
          (Callers.latest (touchesToken tuning token) world.log)
          (world.state.buckets.lookup token)) (Callers.next (operate tuning))
        (Callers.fresh newKeyedRateLimiter start) events := by
    intro window
    refine @Callers.always_inOrder Token (JoinRateLimiter Token) (operate tuning)
      (touchesToken tuning token) (fun limiter log last =>
        tuning.Kept window (takenIn (chargedTo token) window log) last
          (limiter.buckets.lookup token)) start ?_ ?_ _ ?_ _ hsteps
    · intro world call last _ hidle hkept
      obtain ⟨hkey, hdropped⟩ := Bool.or_eq_false_iff.1 hidle
      have hother : call.key ≠ token := of_decide_eq_false hkey
      rw [takenIn_cons_of_not (by simp [chargedTo, Callers.chargeOf, hother])]
      have hsame := lookup_allow_of_not_touches hother.symm hdropped
      exact hsame ▸ hkept
    · intro world call last _ _ hlast hkept
      by_cases hkey : call.key = token
      · subst hkey
        have hcharged := kept_allow hlast hkept
        rw [takenIn_cons]
        simpa [chargedTo, Callers.chargeOf, operate] using hcharged
      · rw [takenIn_cons_of_not (by simp [chargedTo, Callers.chargeOf, hkey])]
        exact kept_allow_other (Ne.symm hkey) hlast hkept
    · rw [newKeyedRateLimiter, AList.lookup_empty]
      exact kept_nothing 0
  exact bounded_of_takenIn (hall ⟨0, 0⟩).last.1.log fun window => (hall window).last.2.within

theorem modest_swept (hmodest : Modest tuning (limiter.buckets.lookup token)) (now : ℕ) :
    Modest tuning ((limiter.swept tuning now).lookup token) := by
  simp only [swept]
  split
  · exact modest_lookup_sweep hmodest now
  · exact hmodest

theorem modest_allow (hmodest : ∀ token, Modest tuning (limiter.buckets.lookup token))
    (other : Token) (hnow : 0 < now) (token : Token) :
    Modest tuning ((limiter.allow tuning other now).2.buckets.lookup token) := by
  have hcharged := modest_charged (hmodest other) hnow
  rcases allow_cases tuning limiter other now with ⟨_, hafter⟩ | ⟨_, _, hafter⟩
  · rw [hafter]
    exact modest_insert hmodest hcharged token
  · rw [hafter]
    exact modest_insert (fun token => modest_swept (hmodest token) now)
      (modest_spend hcharged) token

theorem unspent_allow (hmodest : ∀ token, Modest tuning (limiter.buckets.lookup token))
    (hrefused : (limiter.allow tuning other now).1.granted = false) (token : Token) :
    balance tuning (limiter.buckets.lookup token) ≤
      balance tuning ((limiter.allow tuning other now).2.buckets.lookup token) := by
  rcases allow_cases tuning limiter other now with ⟨_, hafter⟩ | ⟨hgranted, _⟩
  · rw [hafter]
    by_cases hother : token = other
    · rw [hother, AList.lookup_insert]
      exact balance_le_charged (hmodest other) now
    · rw [AList.lookup_insert_ne hother]
  · rw [hrefused] at hgranted
    cases hgranted

def Clean (tuning : Tuning) (limiter : JoinRateLimiter Token)
    (log : List (Charge Token (JoinRateLimiter Token))) : Prop :=
  (∀ token, Modest tuning (limiter.buckets.lookup token)) ∧
    ∀ charge ∈ log, charge.granted = false → ∀ token,
      balance tuning (charge.found.buckets.lookup token) ≤
        balance tuning
          ((charge.found.allow tuning charge.key charge.reading).2.buckets.lookup token)

theorem clean_after (tuning : Tuning) (start : ℕ+) (events : List (CallerEvent Token)) :
    Clean tuning (after tuning start events).state (after tuning start events).log := by
  have hcharge : ∀ (world : Callers Token (JoinRateLimiter Token)) (call : Call Token),
      (start : ℕ) ≤ call.reading → Clean tuning world.state world.log →
      Clean tuning (operate tuning world.state call.key call.reading).2
        (world.chargeOf (operate tuning) call :: world.log) := by
    intro world call hstart hclean
    have hnow : 0 < call.reading := lt_of_lt_of_le start.pos hstart
    refine ⟨modest_allow hclean.1 call.key hnow, ?_⟩
    intro charge hmem hrefused
    rcases List.mem_cons.1 hmem with rfl | hearlier
    · exact unspent_allow hclean.1 hrefused
    · exact hclean.2 charge hearlier hrefused
  have hnew : Clean tuning (newKeyedRateLimiter : JoinRateLimiter Token) [] := by
    refine ⟨fun token => ?_, by simp⟩
    rw [newKeyedRateLimiter, AList.lookup_empty]
    exact modest_none _
  exact (Callers.always_of_every_charge hcharge hnew events).last.2

end JoinRateLimiter

/-! ## Both limiters -/

/-- The limits bound what they say in every run in which the bucket in question
is reached in the order of the clock readings.  In every run a refused request
spends nothing and the table of sources stays within its cap. -/
theorem join_limits_bound_in_order {Source Token : Type} [DecidableEq Source] [DecidableEq Token]
    (tuning : PreAuthTuning) (perToken : Tuning) (start opened : ℕ+)
    (events : List (CallerEvent Source)) (joins : List (CallerEvent Token)) :
    ((PreAuthLimiter.after tuning start events).state.sources.entries.length ≤ tuning.maxSources ∧
      (∀ charge ∈ (PreAuthLimiter.after tuning start events).log, charge.granted = false →
        PreAuthLimiter.Unspent tuning charge.found
          (charge.found.allow tuning charge.key charge.reading).2) ∧
      (EachStep (Callers.InOrder (PreAuthLimiter.operate tuning) fun _ => true)
          (Callers.next (PreAuthLimiter.operate tuning))
          (Callers.fresh newPreAuthLimiter start) events →
        Bounded tuning.global (fun _ => true) (PreAuthLimiter.after tuning start events).log) ∧
      ∀ source,
        EachStep (Callers.InOrder (PreAuthLimiter.operate tuning)
            (PreAuthLimiter.touchesSource tuning source))
          (Callers.next (PreAuthLimiter.operate tuning))
          (Callers.fresh newPreAuthLimiter start) events →
        Bounded tuning.source (PreAuthLimiter.chargedTo tuning source)
          (PreAuthLimiter.after tuning start events).log) ∧
    (∀ charge ∈ (JoinRateLimiter.after perToken opened joins).log, charge.granted = false →
      ∀ token, balance perToken (charge.found.buckets.lookup token) ≤
        balance perToken
          ((charge.found.allow perToken charge.key charge.reading).2.buckets.lookup token)) ∧
    ∀ token,
      EachStep (Callers.InOrder (JoinRateLimiter.operate perToken)
          (JoinRateLimiter.touchesToken perToken token))
        (Callers.next (JoinRateLimiter.operate perToken))
        (Callers.fresh newKeyedRateLimiter opened) joins →
      Bounded perToken (JoinRateLimiter.chargedTo token)
        (JoinRateLimiter.after perToken opened joins).log := by
  have hclean := PreAuthLimiter.clean_after tuning start events
  refine ⟨⟨hclean.1.capped, hclean.2, PreAuthLimiter.global_bounded tuning start,
    fun source => PreAuthLimiter.source_bounded tuning start source⟩, ?_, ?_⟩
  · exact (JoinRateLimiter.clean_after perToken opened joins).2
  · exact fun token => JoinRateLimiter.token_bounded perToken opened token

/-- Requests of two keys that wait for the lock together and get it in the
order of their readings. -/
def promptSchedule (first second : String) : List (CallerEvent String) :=
  [.read first, .tick 5, .read second, .lock 0, .lock 0, .tick 7, .read first, .lock 0]

theorem join_limits_bound_at_prompt :
    Bounded preAuthShipped.global (fun _ => true)
      (PreAuthLimiter.after preAuthShipped 1 (promptSchedule "192.0.2.7" "192.0.2.8")).log ∧
    Bounded preAuthShipped.source (PreAuthLimiter.chargedTo preAuthShipped "192.0.2.7")
      (PreAuthLimiter.after preAuthShipped 1 (promptSchedule "192.0.2.7" "192.0.2.8")).log ∧
    Bounded joinRateShipped (JoinRateLimiter.chargedTo "abcdef")
      (JoinRateLimiter.after joinRateShipped 1 (promptSchedule "abcdef" "ghijkl")).log := by
  obtain ⟨hpreauth, -, htokens⟩ := join_limits_bound_in_order preAuthShipped joinRateShipped 1 1
    (promptSchedule "192.0.2.7" "192.0.2.8") (promptSchedule "abcdef" "ghijkl")
  exact ⟨hpreauth.2.2.1 (by decide +kernel), hpreauth.2.2.2 "192.0.2.7" (by decide +kernel),
    htokens "abcdef" (by decide +kernel)⟩

/-- A waiting request is charged with its old reading after the burst was spent
and refilled; the bucket then refills for the same time again. -/
def staleSchedule {Key : Type} (key : Key) (burst elapsed : ℕ) : List (CallerEvent Key) :=
  .read key :: (List.replicate burst [.read key, .lock 1]).flatten ++ .tick elapsed ::
    (List.replicate burst [.read key, .lock 1]).flatten ++ .lock 0 ::
      (List.replicate burst [.read key, .lock 0]).flatten

theorem join_limits_bound_fails_out_of_order :
    ¬ Bounded preAuthShipped.source (PreAuthLimiter.chargedTo preAuthShipped "192.0.2.7")
      (PreAuthLimiter.after preAuthShipped 1 (staleSchedule "192.0.2.7" 16 (32 * second))).log ∧
    ¬ Bounded joinRateShipped (JoinRateLimiter.chargedTo "abcdef")
      (JoinRateLimiter.after joinRateShipped 1 (staleSchedule "abcdef" 5 (60 * second))).log := by
  constructor
  · intro hbounded
    have hinstant := (hbounded ⟨1 + 32 * second, 0⟩).1
    revert hinstant
    decide +kernel
  · intro hbounded
    have hinstant := (hbounded ⟨1 + 60 * second, 0⟩).1
    revert hinstant
    decide +kernel

end K3sm.Bootstrap
