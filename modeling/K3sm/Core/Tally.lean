import Mathlib

/-!
# Tallies of distinct items

A tally counts how often each item is named and keeps the total weight of the items that are named
at all, each counted once.  Naming an item again and dropping one of several names leave the total
alone; the total moves with the first name and the last.
-/

namespace K3sm.Core

open List Function

variable {Item : Type*} [DecidableEq Item]

structure Mark where
  weight : ℤ
  refs : ℕ
  deriving DecidableEq

structure Tally (Item : Type*) where
  marks : Item → Option Mark
  total : ℤ

def Tally.empty : Tally Item where
  marks := fun _ => none
  total := 0

def Tally.add (weight : Item → ℤ) (tally : Tally Item) (item : Item) : Tally Item :=
  match tally.marks item with
  | some mark =>
    { tally with
      marks := update tally.marks item (some { mark with refs := mark.refs + 1 }) }
  | none =>
    { marks := update tally.marks item (some ⟨weight item, 1⟩)
      total := tally.total + weight item }

def Tally.remove (tally : Tally Item) (item : Item) : Tally Item :=
  match tally.marks item with
  | none => tally
  | some mark =>
    if mark.refs - 1 = 0 then
      { marks := update tally.marks item none
        total := tally.total - mark.weight }
    else
      { tally with
        marks := update tally.marks item (some { mark with refs := mark.refs - 1 }) }

def Tally.addAll (weight : Item → ℤ) (tally : Tally Item) (items : List Item) : Tally Item :=
  items.foldl (Tally.add weight) tally

def Tally.removeAll (tally : Tally Item) (items : List Item) : Tally Item :=
  items.foldl Tally.remove tally

def Tally.grows (weight : Item → ℤ) (tally : Tally Item) (items : List Item) : ℤ :=
  ((items.filter fun item => (tally.marks item).isNone).map weight).sum

/-- The tally is that of the list of names. -/
structure Tally.Counts (weight : Item → ℤ) (tally : Tally Item) (names : List Item) : Prop where
  marks : ∀ item, tally.marks item =
    if names.count item = 0 then none else some ⟨weight item, names.count item⟩
  total : tally.total = ∑ item ∈ names.toFinset, weight item

namespace Tally

variable {weight : Item → ℤ} {tally : Tally Item} {names rest items : List Item} {item : Item}

theorem counts_empty (weight : Item → ℤ) : (empty : Tally Item).Counts weight [] where
  marks := by simp [empty]
  total := by simp [empty]

theorem Counts.perm (hcounts : tally.Counts weight names) (hperm : names.Perm rest) :
    tally.Counts weight rest where
  marks := by
    intro other
    rw [hcounts.marks, hperm.count_eq]
  total := by
    rw [hcounts.total, toFinset_eq_of_perm _ _ hperm]

theorem Counts.add (hcounts : tally.Counts weight names) (item : Item) :
    (tally.add weight item).Counts weight (item :: names) := by
  by_cases hnamed : item ∈ names
  · have hpos : names.count item ≠ 0 := by
      rwa [ne_eq, count_eq_zero, not_not]
    have hmark : tally.marks item = some ⟨weight item, names.count item⟩ := by
      rw [hcounts.marks, if_neg hpos]
    refine ⟨?_, ?_⟩
    · intro other
      simp only [Tally.add, hmark]
      by_cases hsame : other = item
      · subst hsame
        simp
      · rw [update_of_ne hsame, hcounts.marks, count_cons_of_ne (Ne.symm hsame)]
    · simp only [Tally.add, hmark]
      rw [hcounts.total, toFinset_cons, Finset.insert_eq_of_mem (mem_toFinset.2 hnamed)]
  have hmark : tally.marks item = none := by
    rw [hcounts.marks, if_pos (count_eq_zero.2 hnamed)]
  refine ⟨?_, ?_⟩
  · intro other
    simp only [Tally.add, hmark]
    by_cases hsame : other = item
    · subst hsame
      simp [count_eq_zero.2 hnamed]
    · rw [update_of_ne hsame, hcounts.marks, count_cons_of_ne (Ne.symm hsame)]
  · simp only [Tally.add, hmark]
    rw [hcounts.total, toFinset_cons, Finset.sum_insert (by rwa [mem_toFinset]), add_comm]

theorem Counts.remove (hcounts : tally.Counts weight (item :: names)) :
    (tally.remove item).Counts weight names := by
  have hmark : tally.marks item = some ⟨weight item, names.count item + 1⟩ := by
    rw [hcounts.marks, count_cons_self, if_neg (Nat.succ_ne_zero _)]
  have hother : ∀ other ≠ item, tally.marks other =
      if names.count other = 0 then none else some ⟨weight other, names.count other⟩ := by
    intro other hother
    rw [hcounts.marks, count_cons_of_ne (Ne.symm hother)]
  by_cases hnamed : item ∈ names
  · have hpos : names.count item ≠ 0 := by
      rwa [ne_eq, count_eq_zero, not_not]
    simp only [Tally.remove, hmark, Nat.add_sub_cancel, if_neg hpos]
    refine ⟨?_, ?_⟩
    · intro other
      by_cases hsame : other = item
      · subst hsame
        simp [hpos]
      · exact (update_of_ne hsame _ _).trans (hother other hsame)
    · rw [hcounts.total, toFinset_cons, Finset.insert_eq_of_mem (mem_toFinset.2 hnamed)]
  have hzero : names.count item = 0 := count_eq_zero.2 hnamed
  simp only [Tally.remove, hmark, Nat.add_sub_cancel, if_pos hzero]
  refine ⟨?_, ?_⟩
  · intro other
    by_cases hsame : other = item
    · subst hsame
      simp [hzero]
    · exact (update_of_ne hsame _ _).trans (hother other hsame)
  · rw [hcounts.total, toFinset_cons,
      Finset.sum_insert (by rwa [mem_toFinset]), add_sub_cancel_left]

theorem Counts.addAll (hcounts : tally.Counts weight names) (items : List Item) :
    (tally.addAll weight items).Counts weight (items ++ names) := by
  induction items generalizing tally names with
  | nil => exact hcounts
  | cons item items ih =>
    have hrest := ih (hcounts.add item)
    apply hrest.perm
    exact perm_middle

theorem Counts.removeAll (hcounts : tally.Counts weight (items ++ names)) :
    (tally.removeAll items).Counts weight names := by
  induction items generalizing tally with
  | nil => exact hcounts
  | cons item items ih => exact ih hcounts.remove

theorem marks_add_of_ne {other : Item} (hother : other ≠ item) :
    (tally.add weight item).marks other = tally.marks other := by
  unfold Tally.add
  split <;> exact update_of_ne hother _ _

theorem total_addAll (hnodup : items.Nodup) :
    (tally.addAll weight items).total = tally.total + tally.grows weight items := by
  induction items generalizing tally with
  | nil => simp [addAll, grows]
  | cons item items ih =>
    obtain ⟨hnot, hrest⟩ := nodup_cons.1 hnodup
    have hsame : (tally.add weight item).grows weight items = tally.grows weight items := by
      unfold grows
      congr 2
      apply filter_congr
      intro other hother
      have hne : other ≠ item := by
        rintro rfl
        exact hnot hother
      rw [marks_add_of_ne hne]
    calc
      (tally.addAll weight (item :: items)).total =
          ((tally.add weight item).addAll weight items).total := rfl
      _ = (tally.add weight item).total + tally.grows weight items := by
          rw [ih hrest, hsame]
      _ = tally.total + tally.grows weight (item :: items) := by
          cases hmark : tally.marks item with
          | none => simp [Tally.add, grows, hmark, add_assoc]
          | some mark => simp [Tally.add, grows, hmark]

end Tally

end K3sm.Core
