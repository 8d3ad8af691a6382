import Mathlib

/-!
# A store of versioned objects

Objects under keys, each with the version its last write gave it, as an API server keeps
them.  Creating needs the key to be free; an update, and a delete that asks for it, needs
the version that was read.  No version is given twice, so an object that still has the
version it was read with is the object that was read.
-/

namespace K3sm.Core

/-- How an API server answers a write; `failed` says nothing about whether it took effect. -/
inductive WriteAnswer
  | done
  | taken
  | absent
  | conflict
  | failed
  deriving DecidableEq

inductive ReadAnswer (Value : Type)
  | found (value : Value) (version : ℕ)
  | absent
  | failed
  deriving DecidableEq

/-- What becomes of a call: it is answered, or the answer is an error and the call had no
effect, or it had. -/
inductive CallFate
  | answered
  | lost
  | unanswered
  deriving DecidableEq

/-- A store whose rows carry the number of the write that made them. -/
structure Versioned (Key Value : Type) where
  rows : AList fun _ : Key => Value × ℕ
  clock : ℕ
  dated : ∀ entry ∈ rows.entries, entry.2.2 < clock

namespace Versioned

variable {Key Value : Type} [DecidableEq Key]

def empty : Versioned Key Value where
  rows := ∅
  clock := 0
  dated := nofun

def get (store : Versioned Key Value) (key : Key) : Option (Value × ℕ) := store.rows.lookup key

def entries (store : Versioned Key Value) : List (Key × Value × ℕ) :=
  store.rows.entries.map fun entry => (entry.1, entry.2)

variable {key : Key} {value : Value} {store : Versioned Key Value} {version : ℕ}

theorem dated_of_get (hget : store.get key = some (value, version)) : version < store.clock :=
  store.dated ⟨key, value, version⟩ (AList.mem_lookup_iff.1 hget)

def put (store : Versioned Key Value) (key : Key) (value : Value) : Versioned Key Value where
  rows := store.rows.insert key (value, store.clock)
  clock := store.clock + 1
  dated := by
    intro entry hentry
    rw [AList.entries_insert, List.mem_cons] at hentry
    rcases hentry with rfl | hold
    · exact Nat.lt_succ_self _
    · exact (store.dated entry ((List.kerase_sublist key _).subset hold)).trans (Nat.lt_succ_self _)

def remove (store : Versioned Key Value) (key : Key) : Versioned Key Value where
  rows := store.rows.erase key
  clock := store.clock
  dated := fun entry hentry => store.dated entry ((List.kerase_sublist key _).subset hentry)

def create (store : Versioned Key Value) (key : Key) (value : Value) :
    WriteAnswer × Versioned Key Value :=
  match store.get key with
  | some _ => (.taken, store)
  | none => (.done, store.put key value)

/-- A write that asks for the version it replaces. -/
def update (store : Versioned Key Value) (key : Key) (version : ℕ) (value : Value) :
    WriteAnswer × Versioned Key Value :=
  match store.get key with
  | none => (.absent, store)
  | some (_, current) =>
    if current = version then (.done, store.put key value) else (.conflict, store)

/-- A delete, preconditioned on a version if one is given. -/
def delete (store : Versioned Key Value) (key : Key) (version : Option ℕ) :
    WriteAnswer × Versioned Key Value :=
  match store.get key with
  | none => (.absent, store)
  | some (_, current) =>
    if version = none ∨ version = some current then (.done, store.remove key)
    else (.conflict, store)

def read (store : Versioned Key Value) (key : Key) : ReadAnswer Value :=
  match store.get key with
  | none => .absent
  | some (value, version) => .found value version

@[simp]
theorem get_put_self (store : Versioned Key Value) (key : Key) (value : Value) :
    (store.put key value).get key = some (value, store.clock) :=
  AList.lookup_insert store.rows

theorem get_put_of_ne (store : Versioned Key Value) {other : Key} (value : Value)
    (hother : other ≠ key) : (store.put key value).get other = store.get other :=
  AList.lookup_insert_ne hother

@[simp]
theorem get_remove_self (store : Versioned Key Value) (key : Key) :
    (store.remove key).get key = none :=
  AList.lookup_erase key store.rows

theorem get_remove_of_ne (store : Versioned Key Value) {other : Key} (hother : other ≠ key) :
    (store.remove key).get other = store.get other :=
  AList.lookup_erase_ne hother

theorem mem_entries :
    (key, value, version) ∈ store.entries ↔ store.get key = some (value, version) := by
  unfold entries get
  rw [← Option.mem_def, AList.mem_lookup_iff, List.mem_map]
  constructor
  · rintro ⟨entry, hentry, heq⟩
    obtain ⟨rfl, hvalue⟩ := Prod.mk.inj heq
    rw [← hvalue]
    exact hentry
  · intro hentry
    exact ⟨⟨key, value, version⟩, hentry, rfl⟩

theorem create_cases (store : Versioned Key Value) (key : Key) (value : Value) :
    (∃ row, store.get key = some row ∧ store.create key value = (.taken, store)) ∨
      store.get key = none ∧ store.create key value = (.done, store.put key value) := by
  unfold create
  cases store.get key with
  | some row => exact .inl ⟨row, rfl, rfl⟩
  | none => exact .inr ⟨rfl, rfl⟩

theorem update_cases (store : Versioned Key Value) (key : Key) (version : ℕ) (value : Value) :
    (store.update key version value).1 ≠ .done ∧ (store.update key version value).2 = store ∨
      ∃ old, store.get key = some (old, version) ∧
        store.update key version value = (.done, store.put key value) := by
  unfold update
  rcases store.get key with _ | ⟨old, current⟩
  · exact .inl ⟨nofun, rfl⟩
  dsimp only
  split_ifs with hversion
  · exact .inr ⟨old, by rw [hversion], rfl⟩
  · exact .inl ⟨nofun, rfl⟩

theorem delete_cases (store : Versioned Key Value) (key : Key) (version : Option ℕ) :
    store.get key = none ∧ store.delete key version = (.absent, store) ∨
      ∃ old current, store.get key = some (old, current) ∧
        (store.delete key version = (.conflict, store) ∨
          (version = none ∨ version = some current) ∧
            store.delete key version = (.done, store.remove key)) := by
  unfold delete
  rcases store.get key with _ | ⟨old, current⟩
  · exact .inl ⟨rfl, rfl⟩
  refine .inr ⟨old, current, rfl, ?_⟩
  dsimp only
  split_ifs with hversion
  · exact .inr ⟨hversion, rfl⟩
  · exact .inl rfl

/-- The object, if it still has the version, is the one that was read with it. -/
def Seen (store : Versioned Key Value) (key : Key) (value : Value) (version : ℕ) : Prop :=
  version < store.clock ∧ ∀ current, store.get key = some (current, version) → current = value

def Grown (before after : Versioned Key Value) : Prop :=
  before.clock ≤ after.clock ∧ ∀ key, after.get key = before.get key ∨ after.get key = none ∨
    ∃ value, after.get key = some (value, before.clock) ∧ before.clock < after.clock

theorem Grown.refl (store : Versioned Key Value) : Grown store store :=
  ⟨le_rfl, fun _ => .inl rfl⟩

theorem Grown.seen {before after : Versioned Key Value} (hgrown : Grown before after)
    (hseen : before.Seen key value version) : after.Seen key value version := by
  refine ⟨lt_of_lt_of_le hseen.1 hgrown.1, ?_⟩
  intro current hget
  rcases hgrown.2 key with hsame | hnone | ⟨new, hnew, _⟩
  · exact hseen.2 current (hsame ▸ hget)
  · simp [hnone] at hget
  rw [hnew] at hget
  have hversion : before.clock = version := (Prod.mk.inj (Option.some.inj hget)).2
  exact absurd hversion hseen.1.ne'

theorem seen_of_get (hget : store.get key = some (value, version)) :
    store.Seen key value version := by
  refine ⟨dated_of_get hget, fun current hcurrent => ?_⟩
  rw [hget] at hcurrent
  exact (Prod.mk.inj (Option.some.inj hcurrent)).1.symm

theorem grown_put (store : Versioned Key Value) (key : Key) (value : Value) :
    Grown store (store.put key value) := by
  refine ⟨Nat.le_succ _, fun other => ?_⟩
  by_cases hother : other = key
  · exact .inr (.inr ⟨value, by rw [hother]; exact get_put_self store key value,
      Nat.lt_succ_self _⟩)
  · exact .inl (get_put_of_ne store value hother)

theorem grown_remove (store : Versioned Key Value) (key : Key) :
    Grown store (store.remove key) := by
  refine ⟨le_rfl, fun other => ?_⟩
  by_cases hother : other = key
  · exact .inr (.inl (by rw [hother]; exact get_remove_self store key))
  · exact .inl (get_remove_of_ne store hother)

end Versioned

end K3sm.Core
