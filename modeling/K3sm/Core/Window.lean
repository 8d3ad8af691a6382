import Mathlib

/-!
# Marks that outlast what they saw

A mark holds the time something was last seen and is dropped at the first look that finds it
too old; a latch closes when something passes and opens when something releases it.  Along a
sequence of looks both are told by the whole past, and not only by the look before.
-/

namespace K3sm.Core

variable {time : ℕ → ℤ} {dwell : ℤ} {seen : ℕ → Prop} {mark : ℕ → Option ℤ}

structure Marks (time : ℕ → ℤ) (dwell : ℤ) (seen : ℕ → Prop) (mark : ℕ → Option ℤ) : Prop where
  now : ∀ look, seen look → mark look = some (time look)
  first : ¬ seen 0 → mark 0 = none
  next : ∀ look, ¬ seen (look + 1) →
    mark (look + 1) = (mark look).filter fun last => decide (time (look + 1) - last < dwell)

structure LastSeen (time : ℕ → ℤ) (dwell : ℤ) (seen : ℕ → Prop) (look : ℕ) (mark : Option ℤ) :
    Prop where
  some : ∀ last, mark = some last →
    (∃ early ≤ look, seen early ∧ time early = last ∧ (early = look ∨ time look - last < dwell)) ∧
      ∀ early ≤ look, seen early → time early ≤ last
  none : mark = none → ∀ early ≤ look, seen early → dwell ≤ time look - time early

theorem Marks.lastSeen (hmarks : Marks time dwell seen mark) (hmono : Monotone time) (look : ℕ) :
    LastSeen time dwell seen look (mark look) := by
  have hnow : ∀ look, seen look → LastSeen time dwell seen look (mark look) := by
    intro look hseen
    rw [hmarks.now look hseen]
    refine ⟨?_, nofun⟩
    rintro last ⟨⟩
    exact ⟨⟨look, le_rfl, hseen, rfl, .inl rfl⟩, fun early hle _ => hmono hle⟩
  induction look with
  | zero =>
    by_cases hseen : seen 0
    · exact hnow 0 hseen
    · rw [hmarks.first hseen]
      exact ⟨nofun, fun _ early hle hearly => absurd (Nat.le_zero.1 hle ▸ hearly) hseen⟩
  | succ look ih =>
    by_cases hseen : seen (look + 1)
    · exact hnow (look + 1) hseen
    have hstep : time look ≤ time (look + 1) := hmono (Nat.le_succ look)
    have hbefore : ∀ early ≤ look + 1, seen early → early ≤ look := by
      intro early hle hearly
      refine Nat.le_of_lt_succ (lt_of_le_of_ne hle ?_)
      rintro rfl
      exact hseen hearly
    rw [hmarks.next look hseen]
    cases hmark : mark look with
    | none =>
      refine ⟨nofun, fun _ early hle hearly => ?_⟩
      have := ih.none hmark early (hbefore early hle hearly) hearly
      omega
    | some last =>
      obtain ⟨⟨early, hle, hearly, htime, -⟩, hmost⟩ := ih.some last hmark
      rw [Option.filter_some]
      split
      case isTrue hyoung =>
        refine ⟨?_, nofun⟩
        rintro other ⟨⟩
        refine ⟨⟨early, hle.trans (Nat.le_succ _), hearly, htime, .inr ?_⟩, ?_⟩
        · exact of_decide_eq_true hyoung
        · exact fun other hle hother => hmost other (hbefore other hle hother) hother
      case isFalse hold =>
        refine ⟨nofun, fun _ other hle hother => ?_⟩
        have := hmost other (hbefore other hle hother) hother
        rw [decide_eq_true_eq] at hold
        omega

theorem Marks.isSome_iff (hmarks : Marks time dwell seen mark) (hmono : Monotone time) (look : ℕ) :
    (mark look).isSome = true ↔
      ∃ early ≤ look, seen early ∧ (early = look ∨ time look - time early < dwell) := by
  obtain ⟨hsome, hnone⟩ := hmarks.lastSeen hmono look
  constructor
  · intro hmark
    obtain ⟨last, hlast⟩ := Option.isSome_iff_exists.1 hmark
    obtain ⟨⟨early, hle, hearly, rfl, hyoung⟩, -⟩ := hsome last hlast
    exact ⟨early, hle, hearly, hyoung⟩
  rintro ⟨early, hle, hearly, hyoung⟩
  by_contra hmark
  rw [Bool.not_eq_true, Option.isSome_eq_false_iff, Option.isNone_iff_eq_none] at hmark
  have hold := hnone hmark early hle hearly
  rcases hyoung with rfl | hyoung
  · rw [hmarks.now early hearly] at hmark
    cases hmark
  · omega

theorem latched_iff {passed released held : ℕ → Prop} (hfirst : held 0 ↔ passed 0)
    (hnext : ∀ look, held (look + 1) ↔ passed (look + 1) ∨ held look ∧ ¬ released (look + 1))
    (look : ℕ) :
    held look ↔ ∃ early ≤ look, passed early ∧
      ∀ later, early < later → later ≤ look → ¬ released later := by
  induction look with
  | zero =>
    rw [hfirst]
    constructor
    · exact fun hpassed => ⟨0, le_rfl, hpassed, fun later hlt hle => absurd hlt (by omega)⟩
    · rintro ⟨early, hle, hpassed, -⟩
      exact Nat.le_zero.1 hle ▸ hpassed
  | succ look ih =>
    rw [hnext, ih]
    constructor
    · rintro (hpassed | ⟨⟨early, hle, hpassed, hheld⟩, hkept⟩)
      · exact ⟨look + 1, le_rfl, hpassed, fun later hlt hle => absurd hlt (by omega)⟩
      refine ⟨early, by omega, hpassed, fun later hlt hle' => ?_⟩
      rcases hle'.lt_or_eq with hbefore | rfl
      · exact hheld later hlt (by omega)
      · exact hkept
    · rintro ⟨early, hle, hpassed, hheld⟩
      rcases hle.lt_or_eq with hbefore | rfl
      · right
        refine ⟨⟨early, by omega, hpassed, fun later hlt hle' => ?_⟩, ?_⟩
        · exact hheld later hlt (by omega)
        · exact hheld _ (by omega) le_rfl
      · exact .inl hpassed

end K3sm.Core
