import Mathlib

/-!
# A bounded map whose entries expire

An entry is given out before its time and never at or after it.  A full map drops what
has expired, and all of it when that makes no room.  So whatever the map gives out was
put there, and its time had not come.
-/

namespace K3sm.Core

structure TtlEntry (Value : Type) where
  value : Value
  till : ℤ
  deriving DecidableEq

abbrev TtlCache (Key Value : Type) := List (Key × TtlEntry Value)

namespace TtlCache

variable {Key Value : Type} [DecidableEq Key]

def get (cache : TtlCache Key Value) (key : Key) (now : ℤ) : Option Value :=
  match cache.lookup key with
  | none => none
  | some entry => if now < entry.till then some entry.value else none

def room (cache : TtlCache Key Value) (max : ℕ) (now : ℤ) : TtlCache Key Value :=
  if max ≤ cache.length then
    let live := cache.filter fun entry => now < entry.2.till
    if max ≤ live.length then [] else live
  else cache

/-- An entry that is over already is not stored. -/
def put (cache : TtlCache Key Value) (max : ℕ) (key : Key) (value : Value) (till now : ℤ) :
    TtlCache Key Value :=
  if now < till then (key, ⟨value, till⟩) :: (room cache max now).filter (·.1 ≠ key) else cache

variable {cache : TtlCache Key Value} {now : ℤ}

theorem mem_of_get {key : Key} {value : Value} (hget : get cache key now = some value) :
    ∃ till, (key, ⟨value, till⟩) ∈ cache ∧ now < till := by
  unfold get at hget
  split at hget
  · cases hget
  rename_i entry hlookup
  split at hget
  · rename_i hnow
    cases hget
    obtain ⟨before, after, rfl, -⟩ := List.lookup_eq_some_iff.1 hlookup
    exact ⟨entry.till, List.mem_append_right _ List.mem_cons_self, hnow⟩
  · cases hget

omit [DecidableEq Key] in
theorem mem_of_mem_room {max : ℕ} {entry : Key × TtlEntry Value}
    (hentry : entry ∈ room cache max now) : entry ∈ cache := by
  unfold room at hentry
  split at hentry
  · simp only at hentry
    split at hentry
    · cases hentry
    · exact List.mem_of_mem_filter hentry
  · exact hentry

theorem forall_mem_put {good : Key × TtlEntry Value → Prop} {max : ℕ} {key : Key} {value : Value}
    {till : ℤ} (hall : ∀ entry ∈ cache, good entry) (hnew : good (key, ⟨value, till⟩)) :
    ∀ entry ∈ put cache max key value till now, good entry := by
  intro entry hentry
  unfold put at hentry
  split at hentry
  · rcases List.mem_cons.1 hentry with rfl | hrest
    · exact hnew
    · exact hall entry (mem_of_mem_room (List.mem_of_mem_filter hrest))
  · exact hall entry hentry

end TtlCache

end K3sm.Core
