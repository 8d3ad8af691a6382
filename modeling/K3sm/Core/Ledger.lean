import Mathlib

/-!
# Items kept in places

A ledger says which items stand in which places.  It is complete when every item there is
stands in exactly one place and nothing else stands anywhere.  Adding a new item and pouring
one place into another keep a ledger complete.
-/

namespace K3sm.Core

variable {Place Item : Type*}

structure Filed (holds : Place → Item → Prop) (items : Item → Prop) : Prop where
  unique : ∀ item, items item → ∃! place, holds place item
  known : ∀ place item, holds place item → items item

theorem Filed.congr {holds moved : Place → Item → Prop} {items : Item → Prop}
    (hfiled : Filed holds items) (hsame : ∀ place item, moved place item ↔ holds place item) :
    Filed moved items := by
  have heq : moved = holds := by
    funext place item
    exact propext (hsame place item)
  rwa [heq]

theorem Filed.pour {holds poured : Place → Item → Prop} {items : Item → Prop}
    (hfiled : Filed holds items) (source goal : Place)
    (hgoal : ∀ item, poured goal item ↔ holds goal item ∨ holds source item)
    (hsource : ∀ item, ¬ poured source item)
    (hothers : ∀ place, place ≠ goal → place ≠ source →
      ∀ item, poured place item ↔ holds place item) : Filed poured items := by
  have hcame : ∀ place item, poured place item →
      holds place item ∨ place = goal ∧ holds source item := by
    intro place item hplace
    by_cases hplaceGoal : place = goal
    · subst hplaceGoal
      exact ((hgoal item).1 hplace).imp_right fun hholds => ⟨rfl, hholds⟩
    · have hplaceSource : place ≠ source := fun hsame => hsource item (hsame ▸ hplace)
      exact .inl ((hothers place hplaceGoal hplaceSource item).1 hplace)
  constructor
  · intro item hitem
    obtain ⟨place, hplace, honly⟩ := hfiled.unique item hitem
    by_cases hmoves : place = source
    · subst hmoves
      refine ⟨goal, (hgoal item).2 (.inr hplace), fun other hother => ?_⟩
      rcases hcame other item hother with hholds | ⟨hother, -⟩
      · exact absurd (honly other hholds ▸ hother) (hsource item)
      · exact hother
    · refine ⟨place, ?_, fun other hother => ?_⟩
      · by_cases hplaceGoal : place = goal
        · exact hplaceGoal ▸ (hgoal item).2 (.inl (hplaceGoal ▸ hplace))
        · exact (hothers place hplaceGoal hmoves item).2 hplace
      · rcases hcame other item hother with hholds | ⟨-, hholds⟩
        · exact honly other hholds
        · exact absurd (honly source hholds).symm hmoves
  · intro place item hplace
    rcases hcame place item hplace with hholds | ⟨-, hholds⟩
    · exact hfiled.known place item hholds
    · exact hfiled.known source item hholds

theorem Filed.add {holds added : Place → Item → Prop} {items more : Item → Prop} {new : Item}
    (hfiled : Filed holds items) (goal : Place) (hnew : ¬ items new)
    (hadded : ∀ place item, added place item ↔ holds place item ∨ place = goal ∧ item = new)
    (hmore : ∀ item, more item ↔ items item ∨ item = new) : Filed added more := by
  constructor
  · intro item hitem
    rcases (hmore item).1 hitem with hold | rfl
    · obtain ⟨place, hplace, honly⟩ := hfiled.unique item hold
      refine ⟨place, (hadded _ _).2 (.inl hplace), ?_⟩
      intro other hother
      rcases (hadded _ _).1 hother with hholds | ⟨-, rfl⟩
      · exact honly other hholds
      · exact absurd hold hnew
    · refine ⟨goal, (hadded _ _).2 (.inr ⟨rfl, rfl⟩), ?_⟩
      intro other hother
      rcases (hadded _ _).1 hother with hholds | ⟨hgoal, -⟩
      · exact absurd (hfiled.known other _ hholds) hnew
      · exact hgoal
  · intro place item hitem
    rcases (hadded _ _).1 hitem with hholds | ⟨-, hnewItem⟩
    · exact (hmore item).2 (.inl (hfiled.known place item hholds))
    · exact (hmore item).2 (.inr hnewItem)

end K3sm.Core
