import Mathlib

/-!
# Token buckets

A bucket holds a number of units as of the instant it is stamped with, gains one unit per `refill`
ticks of the clock up to `burst`, and every admission takes one unit out.  `Kept` is the account
that bounds the admissions of any window of time: as long as a bucket is only ever brought
forward, what was taken out since the start of the window and what is left together never exceed
the burst and what the time since then has refilled.
-/

namespace K3sm.Core

open Option

/-- How many units a bucket holds at most, and how long one unit takes to come
back. -/
structure Tuning where
  burst : ℕ
  refill : ℕ
  refill_pos : 0 < refill

structure Bucket where
  units : ℚ
  stamp : ℕ
  deriving DecidableEq

structure Window where
  start : ℕ
  length : ℕ

def Window.Holds (window : Window) (instant : ℕ) : Prop :=
  window.start ≤ instant ∧ instant ≤ window.start + window.length

instance (window : Window) (instant : ℕ) : Decidable (window.Holds instant) :=
  inferInstanceAs (Decidable (_ ∧ _))

namespace Tuning

variable (tuning : Tuning)

/-- The units that come back between two instants, negative when the second is
the earlier one. -/
def gained (since now : ℕ) : ℚ :=
  ((now : ℚ) - since) / tuning.refill

/-- A bucket brought to an instant: refilled for the time that has passed, or
only stamped anew when none has. -/
def bring (bucket : Bucket) (now : ℕ) : Bucket where
  units :=
    if bucket.stamp < now then min tuning.burst (bucket.units + tuning.gained bucket.stamp now)
    else bucket.units
  stamp := now

def untouched (now : ℕ) : Bucket := ⟨tuning.burst, now⟩

def allowance (length : ℕ) : ℚ :=
  tuning.burst + (length : ℚ) / tuning.refill

theorem gained_add (first second third : ℕ) :
    tuning.gained first second + tuning.gained second third = tuning.gained first third := by
  simp only [gained, ← add_div]
  congr 1
  ring

theorem gained_nonneg {since now : ℕ} (hlater : since ≤ now) : 0 ≤ tuning.gained since now := by
  have hcast : (since : ℚ) ≤ now := by exact_mod_cast hlater
  exact div_nonneg (sub_nonneg.2 hcast) (Nat.cast_nonneg _)

theorem gained_le_length {start now length : ℕ} (hwithin : now ≤ start + length) :
    tuning.gained start now ≤ (length : ℚ) / tuning.refill := by
  have hcast : (now : ℚ) ≤ start + length := by exact_mod_cast hwithin
  apply div_le_div_of_nonneg_right _ (Nat.cast_nonneg _)
  linarith

theorem bring_units_le {bucket : Bucket} (hunits : bucket.units ≤ tuning.burst) (now : ℕ) :
    (tuning.bring bucket now).units ≤ tuning.burst := by
  simp only [bring]
  split
  · exact min_le_left _ _
  · exact hunits

theorem units_le_bring {bucket : Bucket} (hunits : bucket.units ≤ tuning.burst) (now : ℕ) :
    bucket.units ≤ (tuning.bring bucket now).units := by
  simp only [bring]
  split
  case isFalse => exact le_refl _
  rename_i hlater
  have hgain := tuning.gained_nonneg hlater.le
  exact le_min hunits (by linarith)

theorem bring_units_le_gained {bucket : Bucket} {now : ℕ} (hlater : bucket.stamp ≤ now) :
    (tuning.bring bucket now).units ≤ bucket.units + tuning.gained bucket.stamp now := by
  simp only [bring]
  split
  · exact min_le_right _ _
  · have hgain := tuning.gained_nonneg hlater
    linarith

/-- What has been taken out since the start of a window, against what a bucket
holds.  A bucket that is not there is full as of `last`. -/
def Accounted (window : Window) (taken last : ℕ) : Option Bucket → Prop
  | none => taken = 0 ∨ (window.start ≤ last ∧ (taken : ℚ) ≤ tuning.gained window.start last)
  | some bucket =>
    taken = 0 ∨ (window.start ≤ bucket.stamp ∧
      taken + bucket.units ≤ tuning.burst + tuning.gained window.start bucket.stamp)

def Sane (last : ℕ) (bucket : Option Bucket) : Prop :=
  ∀ present ∈ bucket, 0 ≤ present.units ∧ present.units ≤ tuning.burst ∧ present.stamp ≤ last

/-- The invariant behind the bound: the account is kept until the window has
passed, and the admissions of the window stay within its allowance. -/
structure Kept (window : Window) (taken last : ℕ) (bucket : Option Bucket) : Prop where
  sane : tuning.Sane last bucket
  accounted : last ≤ window.start + window.length → tuning.Accounted window taken last bucket
  within : (taken : ℚ) ≤ tuning.allowance window.length

variable {tuning} {window : Window} {taken last now : ℕ}

theorem allowance_nonneg (length : ℕ) : 0 ≤ tuning.allowance length := by
  unfold allowance
  positivity

theorem kept_nothing (last : ℕ) : tuning.Kept window 0 last none where
  sane := by simp [Sane]
  accounted := fun _ => .inl rfl
  within := by simpa using tuning.allowance_nonneg window.length

variable {bucket : Option Bucket}

theorem Kept.later (hkept : tuning.Kept window taken last bucket) (hlater : last ≤ now) :
    tuning.Kept window taken now bucket where
  sane := fun present hpresent =>
    have hsane := hkept.sane present hpresent
    ⟨hsane.1, hsane.2.1, hsane.2.2.trans hlater⟩
  accounted := by
    intro hwithin
    have haccounted := hkept.accounted (hlater.trans hwithin)
    cases bucket with
    | some present => exact haccounted
    | none =>
      apply haccounted.imp_right
      rintro ⟨hstart, htaken⟩
      have hgain := tuning.gained_nonneg hlater
      have hsplit := tuning.gained_add window.start last now
      exact ⟨hstart.trans hlater, by linarith⟩
  within := hkept.within

def charged (tuning : Tuning) (bucket : Option Bucket) (now : ℕ) : Bucket :=
  bucket.elim (tuning.untouched now) fun present => tuning.bring present now

@[simp] theorem charged_stamp (bucket : Option Bucket) (now : ℕ) :
    (tuning.charged bucket now).stamp = now := by
  cases bucket <;> rfl

theorem charged_units_le (hsane : ∀ present ∈ bucket, present.units ≤ tuning.burst) (now : ℕ) :
    (tuning.charged bucket now).units ≤ tuning.burst := by
  cases bucket with
  | none => exact le_refl _
  | some present => exact tuning.bring_units_le (hsane present rfl) now

section

variable (hkept : tuning.Kept window taken last bucket) (hlater : last ≤ now)

include hkept hlater

theorem Kept.charged_accounted (hwithin : now ≤ window.start + window.length) :
    taken = 0 ∨ (window.start ≤ now ∧
      taken + (tuning.charged bucket now).units ≤
        tuning.burst + tuning.gained window.start now) := by
  have haccounted := (hkept.later hlater).accounted hwithin
  cases bucket with
  | none =>
    apply haccounted.imp_right
    rintro ⟨hstart, htaken⟩
    refine ⟨hstart, ?_⟩
    simp only [charged, elim_none, untouched]
    linarith
  | some present =>
    apply haccounted.imp_right
    rintro ⟨hstart, htaken⟩
    have hstamp : present.stamp ≤ now := (hkept.sane present rfl).2.2.trans hlater
    have hunits := tuning.bring_units_le_gained hstamp
    have hsplit := tuning.gained_add window.start present.stamp now
    refine ⟨hstart.trans hstamp, ?_⟩
    simp only [charged, elim_some]
    linarith

theorem Kept.refuse : tuning.Kept window taken now (some (tuning.charged bucket now)) where
  sane := by
    intro present hpresent
    obtain rfl : tuning.charged bucket now = present := some.inj hpresent
    refine ⟨?_, charged_units_le (fun present hpresent => (hkept.sane present hpresent).2.1) now,
      (charged_stamp bucket now).le⟩
    cases bucket with
    | none => exact Nat.cast_nonneg _
    | some present =>
      have hsane := hkept.sane present rfl
      exact hsane.1.trans (tuning.units_le_bring hsane.2.1 now)
  accounted := by
    intro hwithin
    have haccounted := hkept.charged_accounted hlater hwithin
    simpa only [Accounted, charged_stamp] using haccounted
  within := hkept.within

/-- An admission takes one unit from a bucket that holds one, and counts in
the window when its instant lies there. -/
theorem Kept.grant (hunit : 1 ≤ (tuning.charged bucket now).units) :
    tuning.Kept window (taken + if window.Holds now then 1 else 0) now
      (some { tuning.charged bucket now with units := (tuning.charged bucket now).units - 1 }) := by
  have hburst : (tuning.charged bucket now).units ≤ tuning.burst :=
    charged_units_le (fun present hpresent => (hkept.sane present hpresent).2.1) now
  have haccount : now ≤ window.start + window.length →
      tuning.Accounted window (taken + if window.Holds now then 1 else 0) now
        (some { tuning.charged bucket now with
          units := (tuning.charged bucket now).units - 1 }) := by
    intro hwithin
    have haccounted := hkept.charged_accounted hlater hwithin
    simp only [Accounted, charged_stamp]
    by_cases hstart : window.start ≤ now
    · right
      refine ⟨hstart, ?_⟩
      rw [if_pos ⟨hstart, hwithin⟩]
      push_cast
      rcases haccounted with hnone | ⟨_, htaken⟩
      · have hgain := tuning.gained_nonneg hstart
        rw [hnone]
        push_cast
        linarith
      · linarith
    · left
      rw [if_neg fun hholds => hstart hholds.1]
      exact haccounted.resolve_right fun hpast => hstart hpast.1
  refine ⟨?_, haccount, ?_⟩
  · intro present hpresent
    obtain rfl := some.inj hpresent
    refine ⟨by simpa using hunit, ?_, (charged_stamp bucket now).le⟩
    show (tuning.charged bucket now).units - 1 ≤ tuning.burst
    linarith
  by_cases hholds : window.Holds now
  · have hgain := tuning.gained_le_length hholds.2
    rcases haccount hholds.2 with hnone | ⟨_, htaken⟩
    · rw [hnone]
      exact_mod_cast tuning.allowance_nonneg window.length
    · simp only [charged_stamp] at htaken
      unfold allowance
      linarith
  · rw [if_neg hholds]
    exact hkept.within

end

theorem Kept.drop {bucket : Bucket} (hkept : tuning.Kept window taken last (some bucket))
    (hlater : last ≤ now)
    (hfull : (tuning.burst : ℚ) ≤ bucket.units + tuning.gained bucket.stamp now) :
    tuning.Kept window taken now none where
  sane := by simp [Sane]
  accounted := by
    intro hwithin
    have haccounted := hkept.accounted (hlater.trans hwithin)
    apply haccounted.imp_right
    rintro ⟨hstart, htaken⟩
    have hsplit := tuning.gained_add window.start bucket.stamp now
    refine ⟨hstart.trans ((hkept.sane bucket rfl).2.2.trans hlater), ?_⟩
    linarith
  within := hkept.within

/-! ## Tables of buckets -/

abbrev BucketTable (Key : Type) := AList fun _ : Key => Bucket

def full (tuning : Tuning) (bucket : Bucket) (now : ℕ) : Bool :=
  decide ((tuning.burst : ℚ) ≤ bucket.units + tuning.gained bucket.stamp now)

variable {Key : Type} [DecidableEq Key]

omit [DecidableEq Key] in
/-- A table without the buckets that are full at an instant. -/
def sweep (tuning : Tuning) (table : BucketTable Key) (now : ℕ) : BucketTable Key where
  entries := table.entries.filter fun entry => !tuning.full entry.2 now
  nodupKeys := table.nodupKeys.sublist List.filter_sublist

theorem lookup_sweep (table : BucketTable Key) (now : ℕ) (key : Key) :
    (tuning.sweep table now).lookup key =
      (table.lookup key).filter fun bucket => !tuning.full bucket now := by
  ext bucket
  rw [filter_eq_some_iff, ← mem_def, ← mem_def, AList.mem_lookup_iff,
    AList.mem_lookup_iff]
  exact List.mem_filter

omit [DecidableEq Key] in
theorem sweep_length_le (table : BucketTable Key) (now : ℕ) :
    (tuning.sweep table now).entries.length ≤ table.entries.length :=
  List.length_filter_le _ _

/-- A sweep keeps the account of every key's bucket, and one that leaves a
bucket in place does not touch it. -/
theorem Kept.sweep {table : BucketTable Key} {key : Key}
    (hkept : tuning.Kept window taken last (table.lookup key)) (hlater : last ≤ now) :
    tuning.Kept window taken now ((tuning.sweep table now).lookup key) := by
  rw [lookup_sweep]
  cases hlookup : table.lookup key with
  | none => exact (hlookup ▸ hkept).later hlater
  | some bucket =>
    rw [hlookup] at hkept
    cases hfull : tuning.full bucket now with
    | true =>
      rw [filter_some, if_neg (by simp [hfull])]
      exact hkept.drop hlater (of_decide_eq_true hfull)
    | false =>
      rw [filter_some, if_pos (by simp [hfull])]
      exact hkept.later hlater

theorem insert_length (table : BucketTable Key) (key : Key) (bucket : Bucket) :
    (table.insert key bucket).entries.length =
      if key ∈ table then table.entries.length else table.entries.length + 1 := by
  have hkeys : ∀ table : BucketTable Key, table.entries.length = table.keys.length :=
    fun table => (List.length_map _).symm
  split
  case isTrue hmem =>
      rw [hkeys, hkeys, AList.keys_insert, List.length_cons,
        List.length_erase_of_mem (AList.mem_keys.1 hmem)]
      have hpos := List.length_pos_of_mem (AList.mem_keys.1 hmem)
      omega
  case isFalse habsent =>
      rw [AList.entries_insert_of_notMem habsent, List.length_cons]

end Tuning

end K3sm.Core
