import Mathlib.Data.List.Permutation
import Mathlib.Data.List.Sublists
import Mathlib.GroupTheory.Perm.Basic

/-!
# Subsets and orderings of a list

`heap` is Heap's algorithm with one more swap after the last recursion.  An array of odd
length comes back as it was, and one of even length turned by one place.  Either way every
item has been at the last place once when the recursion over the others begins.
-/

namespace K3sm.Core.Orderings

open Equiv

section Combinations

variable {Item : Type} {items set : List Item} {count : ℕ}

/-- The loop of the recursion from `items` on, with `set` chosen so far. -/
def combinationsFrom (count : ℕ) : List Item → List Item → List (List Item)
  | [], set => if set.length = count then [set] else []
  | item :: rest, set =>
    if set.length = count then [set]
    else if count - set.length ≤ rest.length + 1 then
      combinationsFrom count rest (set ++ [item]) ++ combinationsFrom count rest set
    else []

def combinations (items : List Item) (count : ℕ) : List (List Item) :=
  if items.length < count then [] else combinationsFrom count items []

theorem combinationsFrom_perm (hset : set.length ≤ count) :
    (combinationsFrom count items set).Perm
      ((items.sublistsLen (count - set.length)).map (set ++ ·)) := by
  induction items generalizing set with
  | nil =>
    rw [combinationsFrom]
    split
    case isTrue hfull => simp [hfull]
    rename_i hmore
    obtain ⟨more, hmore⟩ := Nat.exists_eq_add_one.2
      (Nat.sub_pos_of_lt (by omega : set.length < count))
    simp [hmore]
  | cons item rest ih =>
    rw [combinationsFrom]
    split
    case isTrue hfull => simp [hfull]
    rename_i hmore
    obtain ⟨more, hmore⟩ := Nat.exists_eq_add_one.2
      (Nat.sub_pos_of_lt (by omega : set.length < count))
    split
    case isTrue =>
      have htaken := @ih (set ++ [item]) (by simp; omega)
      have hleft := ih hset
      have hfewer : count - (set ++ [item]).length = more := by simp; omega
      rw [hfewer] at htaken
      rw [hmore] at hleft ⊢
      rw [List.sublistsLen_succ_cons, List.map_append, List.map_map]
      refine (List.perm_append_comm.trans (hleft.append htaken)).trans ?_
      simp [Function.comp_def]
    case isFalse hfew =>
      rw [List.sublistsLen_of_length_lt (by simp; omega)]
      rfl

theorem combinations_perm (items : List Item) (count : ℕ) :
    (combinations items count).Perm (items.sublistsLen count) := by
  rw [combinations]
  split
  case isTrue hfew => rw [List.sublistsLen_of_length_lt hfew]
  case isFalse => simpa using @combinationsFrom_perm _ items [] count (Nat.zero_le _)

end Combinations

section Heap

variable {Item : Type} {length : ℕ}

/-- One round of the loop over an array of `length` places. -/
def heapRound (visit : (ℕ → Item) → List (ℕ → Item) × (ℕ → Item)) (length : ℕ)
    (state : List (ℕ → Item) × (ℕ → Item)) (place : ℕ) : List (ℕ → Item) × (ℕ → Item) :=
  let (seen, left) := visit state.2
  (state.1 ++ seen, left ∘ swap (if length % 2 = 0 then place else 0) (length - 1))

/-- The arrays that are visited, and the one that is left. -/
def heap : ℕ → (ℕ → Item) → List (ℕ → Item) × (ℕ → Item)
  | 0 | 1 => fun array => ([array], array)
  | length + 2 => fun array =>
    (List.range (length + 2)).foldl (heapRound (heap (length + 1)) (length + 2)) ([], array)

/-- Every order of the items, by Heap's exchanges. -/
def permutations (items : List Item) : List (List Item) :=
  (heap items.length fun place => items[place]?).1.map fun order =>
    (List.range items.length).filterMap order

/-- Each place takes the item of the one before it, and the first the last one's. -/
def turn : ℕ → Perm ℕ
  | 0 => 1
  | length + 1 => turn length * swap 0 length

/-- What `heap` leaves of an array. -/
def effect (length : ℕ) : Perm ℕ := if length % 2 = 0 then turn length else 1

theorem turn_apply (length place : ℕ) : turn length place =
    if place < length then (if place = 0 then length - 1 else place - 1) else place := by
  induction length generalizing place with
  | zero => simp [turn]
  | succ length ih =>
    rw [turn, Perm.mul_apply, ih, swap_apply_def]
    split_ifs <;> omega

theorem turn_pow_apply {rounds : ℕ} (hrounds : rounds ≤ length) (place : ℕ) :
    (turn length ^ rounds) place = if place < length then
      (if rounds ≤ place then place - rounds else place + length - rounds) else place := by
  induction rounds with
  | zero => simp
  | succ rounds ih =>
    rw [pow_succ', Perm.mul_apply, ih (by omega), turn_apply]
    split_ifs <;> omega

/-- The swaps of the first rounds over an array of even length. -/
def swaps (last : ℕ) : ℕ → Perm ℕ
  | 0 => 1
  | rounds + 1 => swaps last rounds * swap rounds last

theorem swaps_apply {last rounds : ℕ} (hrounds : rounds ≤ last) (place : ℕ) :
    swaps last rounds place = if place = last then (if rounds = 0 then last else rounds - 1)
      else if place < rounds then (if place = 0 then last else place - 1) else place := by
  induction rounds generalizing place with
  | zero =>
    simp only [swaps, Perm.one_apply]
    split_ifs <;> omega
  | succ rounds ih =>
    rw [swaps, Perm.mul_apply, ih (by omega), swap_apply_def]
    grind

/-- How the array stands when each round begins, as an order of the first one's places. -/
structure Starts (length : ℕ) (start : ℕ → Perm ℕ) : Prop where
  zero : start 0 = 1
  next : ∀ round, start (round + 1) = start round * effect (length + 1) *
    swap (if (length + 2) % 2 = 0 then round else 0) (length + 1)
  fixes : ∀ round < length + 2, ∀ place, length + 2 ≤ place → start round place = place
  covers : ∀ place < length + 2, ∃ round < length + 2, start round (length + 1) = place
  last : start (length + 2) = effect (length + 2)

theorem exists_starts (length : ℕ) : ∃ start, Starts length start := by
  by_cases heven : length % 2 = 0
  · have hodd : ¬ (length + 1) % 2 = 0 := by omega
    refine ⟨swaps (length + 1), rfl, ?_, ?_, ?_, ?_⟩
    · intro round
      rw [effect, if_neg hodd, if_pos (by omega), mul_one, swaps]
    · intro round hround place hplace
      rw [swaps_apply (by omega), if_neg (by omega), if_neg (by omega)]
    · intro place hplace
      by_cases hlast : place = length + 1
      · exact ⟨0, by omega, by simp [swaps, hlast]⟩
      refine ⟨place + 1, by omega, ?_⟩
      rw [swaps_apply (by omega)]
      simp
    · ext place
      rw [effect, if_pos (by omega), swaps, swap_self, ← Perm.one_def, mul_one,
        swaps_apply le_rfl, turn_apply]
      grind
  refine ⟨fun round => turn (length + 2) ^ round, rfl, ?_, ?_, ?_, ?_⟩
  · intro round
    rw [effect, if_pos (by omega), if_neg (by omega), pow_succ, mul_assoc, turn]
  · intro round hround place hplace
    rw [turn_pow_apply (by omega), if_neg (by omega)]
  · intro place hplace
    refine ⟨length + 1 - place, by omega, ?_⟩
    rw [turn_pow_apply (by omega), if_pos (by omega), if_pos (by omega)]
    omega
  · ext place
    rw [effect, if_neg (by omega), turn_pow_apply le_rfl, Perm.one_apply]
    split_ifs <;> omega

/-- Every order of the first places is visited, and `effect` is left. -/
structure Visits (Item : Type) (length : ℕ) : Prop where
  left : ∀ array : ℕ → Item, (heap length array).2 = array ∘ effect length
  count : ∀ array : ℕ → Item, (heap length array).1.length = length.factorial
  all : ∀ (array : ℕ → Item) (order : Perm ℕ), (∀ place, length ≤ place → order place = place) →
    array ∘ order ∈ (heap length array).1

theorem Visits.rounds {start : ℕ → Perm ℕ} (hvisits : Visits Item (length + 1))
    (hstarts : Starts length start) (array : ℕ → Item) (rounds : ℕ) :
    ∃ seen, (List.range rounds).foldl (heapRound (heap (length + 1)) (length + 2)) ([], array) =
        (seen, array ∘ start rounds) ∧ seen.length = rounds * (length + 1).factorial ∧
      ∀ round < rounds, ∀ order ∈ (heap (length + 1) (array ∘ start round)).1, order ∈ seen := by
  induction rounds with
  | zero => exact ⟨[], by simp [hstarts.zero], by simp, by simp⟩
  | succ rounds ih =>
    obtain ⟨seen, hfold, hcount, hall⟩ := ih
    refine ⟨seen ++ (heap (length + 1) (array ∘ start rounds)).1, ?_, ?_, ?_⟩
    · rw [List.range_succ, List.foldl_append, hfold]
      simp only [List.foldl_cons, List.foldl_nil, heapRound, hvisits.left, hstarts.next]
      rfl
    · rw [List.length_append, hcount, hvisits.count, Nat.succ_mul]
    · intro round hround order horder
      rcases Nat.lt_succ_iff_lt_or_eq.1 hround with hbefore | rfl
      · exact List.mem_append_left _ (hall round hbefore order horder)
      · exact List.mem_append_right _ horder

theorem visits (length : ℕ) : Visits Item length := by
  induction length using Nat.twoStepInduction with
  | zero =>
    refine ⟨fun _ => rfl, fun _ => rfl, fun array order hfixes => List.mem_singleton.2 ?_⟩
    funext place
    exact congrArg array (hfixes place (Nat.zero_le _))
  | one =>
    refine ⟨fun _ => rfl, fun _ => rfl, fun array order hfixes => List.mem_singleton.2 ?_⟩
    have hone : order = 1 := by
      ext place
      rcases Nat.eq_zero_or_pos place with rfl | hpos
      · -- no other place is left for the first one
        by_contra hmoved
        exact hmoved (order.injective (hfixes _ (Nat.pos_of_ne_zero hmoved)))
      · exact hfixes place hpos
    rw [hone]
    rfl
  | more length _ ih =>
    obtain ⟨start, hstarts⟩ := exists_starts length
    have hrun := fun array => ih.rounds hstarts array (length + 2)
    refine ⟨fun array => ?_, fun array => ?_, fun array order hfixes => ?_⟩
    · obtain ⟨seen, hfold, -⟩ := hrun array
      simp only [heap, hfold, hstarts.last]
    · obtain ⟨seen, hfold, hcount, -⟩ := hrun array
      simp only [heap, hfold, hcount, Nat.factorial_succ (length + 1)]
    obtain ⟨seen, hfold, -, hall⟩ := hrun array
    have hlow : order (length + 1) < length + 2 := by
      by_contra hhigh
      have := order.injective (hfixes _ (not_lt.1 hhigh))
      omega
    obtain ⟨round, hround, hplace⟩ := hstarts.covers _ hlow
    -- what is left to do from the round that has the right item at the last place
    have hrest : ∀ place, length + 1 ≤ place → ((start round)⁻¹ * order) place = place := by
      intro place hle
      rw [Perm.mul_apply, Perm.inv_eq_iff_eq]
      rcases hle.eq_or_lt with rfl | hlt
      · exact hplace.symm
      · rw [hfixes place hlt, hstarts.fixes round hround place hlt]
    have hmem := hall round hround _ (ih.all _ _ hrest)
    simp only [heap, hfold]
    convert hmem using 1
    funext place
    simp

theorem exists_order {order items : List Item} (hperm : order.Perm items) :
    ∃ places : Perm ℕ, (∀ place, items.length ≤ place → places place = place) ∧
      ∀ place, items[places place]? = order[place]? := by
  induction hperm with
  | nil => exact ⟨1, fun _ _ => rfl, fun _ => rfl⟩
  | cons item _ ih =>
    obtain ⟨places, hfixes, hitems⟩ := ih
    let shifted : Perm ℕ :=
      { toFun := fun | 0 => 0 | place + 1 => places place + 1
        invFun := fun | 0 => 0 | place + 1 => places.symm place + 1
        left_inv := by rintro (_ | place) <;> simp
        right_inv := by rintro (_ | place) <;> simp }
    refine ⟨shifted, ?_, ?_⟩
    · rintro (_ | place) hplace
      · rfl
      · exact congrArg (· + 1) (hfixes place (by simpa using hplace))
    · rintro (_ | place)
      · rfl
      · exact hitems place
  | swap first second rest =>
    refine ⟨swap 0 1, ?_, ?_⟩
    · intro place hplace
      simp only [List.length_cons] at hplace
      exact swap_apply_of_ne_of_ne (by omega) (by omega)
    · rintro (_ | _ | place)
      · rfl
      · rfl
      · rw [swap_apply_of_ne_of_ne (by omega) (by omega)]
        rfl
  | trans _ hlast ih ih' =>
    obtain ⟨places, hfixes, hitems⟩ := ih
    obtain ⟨others, hfixes', hitems'⟩ := ih'
    refine ⟨others * places, ?_, ?_⟩
    · intro place hplace
      rw [Perm.mul_apply, hfixes place (hlast.length_eq ▸ hplace), hfixes' place hplace]
    · intro place
      rw [Perm.mul_apply, hitems', hitems]

theorem filterMap_range (items : List Item) :
    (List.range items.length).filterMap (fun place => items[place]?) = items := by
  induction items with
  | nil => rfl
  | cons item rest ih =>
    rw [List.length_cons, List.range_succ_eq_map, List.filterMap_cons, List.filterMap_map]
    exact congrArg (item :: ·) ih

theorem mem_permutations {order items : List Item} (hperm : order.Perm items) :
    order ∈ permutations items := by
  obtain ⟨places, hfixes, hitems⟩ := exists_order hperm
  refine List.mem_map.2 ⟨_, (visits items.length).all _ places hfixes, ?_⟩
  simp only [Function.comp_def, hitems, ← hperm.length_eq]
  exact filterMap_range order

theorem permutations_perm {items : List Item} (hitems : items.Nodup) :
    (permutations items).Perm items.permutations := by
  have hsubperm : items.permutations.Subperm (permutations items) :=
    (List.nodup_permutations _ hitems).subperm fun order horder =>
      mem_permutations (List.mem_permutations.1 horder)
  refine (hsubperm.perm_of_length_le ?_).symm
  rw [permutations, List.length_map, (visits _).count, List.length_permutations]

end Heap

end K3sm.Core.Orderings
