import Mathlib

/-!
# Rounds until nothing changes

A loop that goes over a list again and again, each step adding to what has been found,
until a whole round adds nothing.  What has been found only grows and cannot grow past a
limit, so the loop ends; where it ends no single step adds anything any more.
-/

namespace K3sm.Core

structure Grows {State : Type*} (size : State → ℕ) (step : State → State) : Prop where
  le : ∀ state, size state ≤ size (step state)
  same : ∀ state, size (step state) = size state → step state = state

/-- Rounds until one adds nothing, at most as many as the bound. -/
def saturate {State : Type*} (size : State → ℕ) (round : State → State) : ℕ → State → State
  | 0, state => state
  | bound + 1, state =>
    if size (round state) = size state then round state
    else saturate size round bound (round state)

section Rounds

variable {State Item : Type*} {size : State → ℕ} {round : State → State}
  {step : State → Item → State} {inv : State → Prop}

theorem Grows.foldl (hstep : ∀ item, Grows size fun state => step state item)
    (items : List Item) : Grows size fun state => items.foldl step state := by
  induction items with
  | nil => exact ⟨fun _ => le_rfl, fun _ _ => rfl⟩
  | cons item items ih =>
    refine ⟨fun state => ((hstep item).le state).trans (ih.le _), ?_⟩
    intro state hsize
    have hfirst : size (step state item) = size state := by
      apply le_antisymm _ ((hstep item).le state)
      exact (ih.le (step state item)).trans_eq hsize
    have hsame : step state item = state := (hstep item).same state hfirst
    rw [List.foldl_cons, hsame] at hsize ⊢
    exact ih.same state hsize

theorem foldl_fixed (hstep : ∀ item, Grows size fun state => step state item)
    {items : List Item} {state : State} (hfixed : items.foldl step state = state) :
    ∀ item ∈ items, step state item = state := by
  induction items with
  | nil => exact nofun
  | cons item items ih =>
    have hsize : size (step state item) = size state := by
      apply le_antisymm _ ((hstep item).le state)
      calc size (step state item) ≤ size (items.foldl step (step state item)) :=
            (Grows.foldl hstep items).le _
        _ = size state := by rw [← List.foldl_cons, hfixed]
    have hsame : step state item = state := (hstep item).same state hsize
    rw [List.foldl_cons, hsame] at hfixed
    exact List.forall_mem_cons.2 ⟨hsame, ih hfixed⟩

theorem saturate_inv (hround : ∀ state, inv state → inv (round state)) (bound : ℕ) {state : State}
    (hinv : inv state) : inv (saturate size round bound state) := by
  induction bound generalizing state with
  | zero => exact hinv
  | succ bound ih =>
    rw [saturate]
    split_ifs
    · exact hround state hinv
    · exact ih (hround state hinv)

theorem saturate_fixed (limit : ℕ) (hgrows : Grows size round)
    (hround : ∀ state, inv state → inv (round state))
    (hlimit : ∀ state, inv state → size state ≤ limit) {bound : ℕ} {state : State}
    (hinv : inv state) (hbound : limit < size state + bound) :
    round (saturate size round bound state) = saturate size round bound state := by
  induction bound generalizing state with
  | zero => exact absurd (hlimit state hinv) (by omega)
  | succ bound ih =>
    rw [saturate]
    split_ifs with hsize
    · rw [hgrows.same state hsize, hgrows.same state hsize]
    · have hle := hgrows.le state
      exact ih (hround state hinv) (by omega)

end Rounds

end K3sm.Core
