import K3sm.Core.Filepath
import K3sm.Core.Run
import K3sm.Registry.Plan

/-!
# The order of the dedupe's passes

A pass of the dedupe takes the digests that are held as several inodes, largest first, and
`ConvergeRotation` puts those first that have not been hashed for the longest time.  Every pass in
which a digest is left out puts one more of the others behind it.
-/

namespace K3sm.Registry.Converge

open K3sm.Core K3sm.Core.Filepath K3sm.Registry.Gc List Function

/-- `convergeInode`: an inode of a digest and the repositories that name it, in the order
of the scan. -/
structure ConvergeInode where
  ino : ℕ
  size : ℕ
  mtime : Time
  names : List Str
  deriving DecidableEq

/-- `convergeGroup`: the inodes of one digest on one device.  The keeper is known by its
inode number. -/
structure ConvergeGroup where
  digest : Digest
  dev : ℕ
  inodes : List ConvergeInode
  keeper : Option ℕ
  merged : ℕ
  hashed : Bool
  deriving DecidableEq

abbrev GroupKey := Digest × ℕ

namespace ConvergeGroup

def key (group : ConvergeGroup) : GroupKey := (group.digest, group.dev)

/-- The inodes newest first, ties to the first repository. -/
def order (group : ConvergeGroup) : List ConvergeInode :=
  group.inodes.insertionSort fun left right =>
    right.mtime < left.mtime ∨
      left.mtime = right.mtime ∧ left.names.headD [] ≤ right.names.headD []

def size (group : ConvergeGroup) : ℕ := (group.inodes.map ConvergeInode.size).foldl max 0

/-- How many names do not share the keeper's inode: the verified keeper's, or the
newest's. -/
def pending (group : ConvergeGroup) : ℤ :=
  let keeper := group.keeper.or (group.order.head?.map ConvergeInode.ino)
  ((group.inodes.filter fun inode => some inode.ino ≠ keeper).map
    fun inode => inode.names.length).sum - group.merged

end ConvergeGroup

def sizeOrder (left right : ConvergeGroup) : Prop :=
  right.size < left.size ∨ left.size = right.size ∧
    (digestRank left.digest < digestRank right.digest ∨
      digestRank left.digest = digestRank right.digest ∧ left.dev ≤ right.dev)

instance : DecidableRel sizeOrder := fun _ _ => inferInstanceAs (Decidable (_ ∨ _ ∧ (_ ∨ _ ∧ _)))

/-- `convergeTable`, by its groups: one for each digest and device. -/
structure ConvergeTable where
  groups : List ConvergeGroup
  distinct : (groups.map ConvergeGroup.key).Nodup

/-- `work`: the groups of two inodes and more, largest first. -/
def ConvergeTable.work (table : ConvergeTable) : List ConvergeGroup :=
  (table.groups.filter fun group => 2 ≤ group.inodes.length).insertionSort sizeOrder

structure ConvergeRotation where
  pass : ℕ
  served : GroupKey → Option ℕ
  counted : ∀ key serving, served key = some serving → serving ≤ pass

namespace ConvergeRotation

def fresh : ConvergeRotation where
  pass := 0
  served := fun _ => none
  counted := nofun

/-- The pass a group last hashed in; a missing entry reads as 0. -/
def lastServed (rotation : ConvergeRotation) (key : GroupKey) : ℕ := (rotation.served key).getD 0

def order (rotation : ConvergeRotation) (groups : List ConvergeGroup) : List ConvergeGroup :=
  groups.insertionSort fun left right =>
    rotation.lastServed left.key ≤ rotation.lastServed right.key

def note (rotation : ConvergeRotation) (noted : GroupKey → Option ℕ) (group : ConvergeGroup) :
    GroupKey → Option ℕ :=
  if group.pending ≤ 0 then noted
  else if group.hashed then Function.update noted group.key (some (rotation.pass + 1))
  else
    match rotation.served group.key with
    | some serving => Function.update noted group.key (some serving)
    | none => noted

theorem note_counted (rotation : ConvergeRotation) (groups : List ConvergeGroup)
    {noted : GroupKey → Option ℕ}
    (hnoted : ∀ key serving, noted key = some serving → serving ≤ rotation.pass + 1) :
    ∀ key serving, groups.foldl rotation.note noted key = some serving →
      serving ≤ rotation.pass + 1 := by
  induction groups generalizing noted with
  | nil => exact hnoted
  | cons group groups ih =>
    apply ih
    intro key serving hserving
    unfold note at hserving
    split_ifs at hserving
    · exact hnoted key serving hserving
    · by_cases hkey : key = group.key
      · rw [hkey, update_self] at hserving
        exact (Option.some.inj hserving).ge
      · rw [update_of_ne hkey] at hserving
        exact hnoted key serving hserving
    cases hold : rotation.served group.key with
    | none =>
      rw [hold] at hserving
      exact hnoted key serving hserving
    | some old =>
      rw [hold] at hserving
      change Function.update noted group.key (some old) key = some serving at hserving
      by_cases hkey : key = group.key
      · rw [hkey, update_self] at hserving
        obtain rfl := Option.some.inj hserving
        exact Nat.le_succ_of_le (rotation.counted group.key old hold)
      · rw [update_of_ne hkey] at hserving
        exact hnoted key serving hserving

def record (rotation : ConvergeRotation) (groups : List ConvergeGroup) : ConvergeRotation where
  pass := rotation.pass + 1
  served := groups.foldl rotation.note fun _ => none
  counted := rotation.note_counted groups nofun

end ConvergeRotation

/-- A pass: what its scan finds, what it does to a group, and which groups have anything to
hash. -/
structure Pass where
  table : ConvergeTable
  converge : ConvergeGroup → ConvergeGroup
  todo : GroupKey → Bool
  same_key : ∀ group, (converge group).key = group.key

def Pass.groups (pass : Pass) (rotation : ConvergeRotation) : List ConvergeGroup :=
  (rotation.order pass.table.work).map pass.converge

/-- `Converge`, as far as the rotation goes. -/
def next (rotation : ConvergeRotation) (pass : Pass) : ConvergeRotation :=
  rotation.record (pass.groups rotation)

def Pass.Hashes (pass : Pass) (key : GroupKey) : Prop :=
  ∃ group ∈ pass.table.work, group.key = key ∧ (pass.converge group).hashed = true

structure Pass.Keeps (pass : Pass) (keys : Finset GroupKey) : Prop where
  keys : ∀ key, key ∈ keys ↔ ∃ group ∈ pass.table.work, group.key = key
  pending : ∀ group ∈ pass.table.work, 0 < (pass.converge group).pending

def Pass.HashesFirst (rotation : ConvergeRotation) (pass : Pass) : Prop :=
  ∀ group, (rotation.order pass.table.work).find? (fun group => pass.todo group.key) = some group →
    (pass.converge group).hashed = true

namespace ConvergeRotation

variable {rotation : ConvergeRotation} {groups : List ConvergeGroup} {group : ConvergeGroup}

theorem note_of_ne {noted : GroupKey → Option ℕ} {key : GroupKey} (hkey : key ≠ group.key) :
    rotation.note noted group key = noted key := by
  unfold note
  split_ifs
  · rfl
  · exact update_of_ne hkey _ _
  cases rotation.served group.key with
  | none => rfl
  | some serving => exact update_of_ne hkey _ _

theorem foldl_note_of_notMem {noted : GroupKey → Option ℕ} {key : GroupKey}
    (hkey : ∀ group ∈ groups, key ≠ group.key) :
    groups.foldl rotation.note noted key = noted key := by
  induction groups generalizing noted with
  | nil => rfl
  | cons first groups ih =>
    rw [foldl_cons, ih fun group hgroup => hkey group (mem_cons_of_mem _ hgroup)]
    exact note_of_ne (hkey first mem_cons_self)

theorem lastServed_record (hdistinct : (groups.map ConvergeGroup.key).Nodup)
    (hgroup : group ∈ groups) (hpending : 0 < group.pending) :
    (rotation.record groups).lastServed group.key =
      if group.hashed then rotation.pass + 1 else rotation.lastServed group.key := by
  obtain ⟨front, back, rfl⟩ := append_of_mem hgroup
  have hapart : ∀ other ∈ front ++ back, group.key ≠ other.key := by
    intro other hother hsame
    have hcons : (group.key :: (front ++ back).map ConvergeGroup.key).Nodup := by
      refine List.Perm.nodup ?_ hdistinct
      rw [map_append, map_cons, map_append]
      exact perm_middle
    exact (nodup_cons.1 hcons).1 (hsame ▸ mem_map_of_mem hother)
  have hserved : (rotation.record (front ++ group :: back)).served group.key =
      rotation.note (front.foldl rotation.note fun _ => none) group group.key := by
    show (front ++ group :: back).foldl rotation.note (fun _ => none) group.key = _
    rw [foldl_append, foldl_cons]
    exact foldl_note_of_notMem fun other hother => hapart other (mem_append_right _ hother)
  have hfront : front.foldl rotation.note (fun _ => none) group.key = none :=
    foldl_note_of_notMem fun other hother => hapart other (mem_append_left _ hother)
  unfold lastServed
  rw [hserved, note, if_neg (not_le.2 hpending)]
  split_ifs
  · rw [update_self]
    rfl
  · cases rotation.served group.key with
    | none =>
      dsimp only
      rw [hfront]
    | some serving =>
      dsimp only
      rw [update_self]

theorem lastServed_le (rotation : ConvergeRotation) (key : GroupKey) :
    rotation.lastServed key ≤ rotation.pass := by
  unfold lastServed
  cases hserved : rotation.served key with
  | none => exact Nat.zero_le _
  | some serving => exact rotation.counted key serving hserved

theorem order_perm (rotation : ConvergeRotation) (groups : List ConvergeGroup) :
    (rotation.order groups).Perm groups :=
  perm_insertionSort _ _

theorem order_pairwise (rotation : ConvergeRotation) (groups : List ConvergeGroup) :
    (rotation.order groups).Pairwise fun left right =>
      rotation.lastServed left.key ≤ rotation.lastServed right.key := by
  have htotal : Std.Total fun left right : ConvergeGroup =>
      rotation.lastServed left.key ≤ rotation.lastServed right.key := ⟨fun _ _ => le_total _ _⟩
  have htrans : IsTrans ConvergeGroup fun left right : ConvergeGroup =>
      rotation.lastServed left.key ≤ rotation.lastServed right.key :=
    ⟨fun _ _ _ hfirst hsecond => hfirst.trans hsecond⟩
  exact pairwise_insertionSort _ _

end ConvergeRotation

section Turns

variable {rotation : ConvergeRotation} {pass : Pass} {keys : Finset GroupKey} {key other : GroupKey}

theorem Pass.distinct (pass : Pass) (rotation : ConvergeRotation) :
    ((pass.groups rotation).map ConvergeGroup.key).Nodup := by
  have hkeys : (pass.groups rotation).map ConvergeGroup.key =
      (rotation.order pass.table.work).map ConvergeGroup.key := by
    rw [Pass.groups, map_map]
    exact map_congr_left fun group _ => pass.same_key group
  have hwork : (pass.table.work.map ConvergeGroup.key).Nodup := by
    refine List.Perm.nodup ((perm_insertionSort _ _).map _).symm ?_
    exact pass.table.distinct.sublist (List.Sublist.map _ filter_sublist)
  rw [hkeys]
  exact List.Perm.nodup ((rotation.order_perm _).map _).symm hwork

theorem lastServed_next (hkeeps : pass.Keeps keys) {group : ConvergeGroup}
    (hgroup : group ∈ pass.table.work) :
    (next rotation pass).lastServed group.key =
      if (pass.converge group).hashed then rotation.pass + 1
      else rotation.lastServed group.key := by
  have hmem : pass.converge group ∈ pass.groups rotation :=
    mem_map_of_mem ((rotation.order_perm _).mem_iff.2 hgroup)
  rw [next, ← pass.same_key group]
  exact ConvergeRotation.lastServed_record (pass.distinct rotation) hmem
    (hkeeps.pending group hgroup)

def ahead (keys : Finset GroupKey) (rotation : ConvergeRotation) (key : GroupKey) :
    Finset GroupKey :=
  keys.filter fun other => other ≠ key ∧ rotation.lastServed other ≤ rotation.lastServed key

theorem ahead_next_lt (hkeeps : pass.Keeps keys) (hfirst : pass.HashesFirst rotation)
    (hkey : key ∈ keys) (htodo : pass.todo key = true) (hleft : ¬ pass.Hashes key) :
    (ahead keys (next rotation pass) key).card < (ahead keys rotation key).card := by
  obtain ⟨group, hgroup, rfl⟩ := (hkeeps.keys key).1 hkey
  have hunhashed : (pass.converge group).hashed = false :=
    Bool.eq_false_of_not_eq_true fun hhashed => hleft ⟨group, hgroup, rfl, hhashed⟩
  have hsame : (next rotation pass).lastServed group.key = rotation.lastServed group.key := by
    rw [lastServed_next hkeeps hgroup, hunhashed]
    rfl
  -- the first group with anything to hash is not behind this one
  have hordered : group ∈ rotation.order pass.table.work := (rotation.order_perm _).mem_iff.2 hgroup
  have hsome : ((rotation.order pass.table.work).find?
      fun group => pass.todo group.key).isSome = true :=
    List.find?_isSome.2 ⟨group, hordered, htodo⟩
  obtain ⟨leader, hleader⟩ := Option.isSome_iff_exists.1 hsome
  obtain ⟨-, front, back, hsplit, hfront⟩ := List.find?_eq_some_iff_append.1 hleader
  have hhashed := hfirst leader hleader
  have hwork : leader ∈ pass.table.work :=
    (rotation.order_perm _).mem_iff.1 (mem_of_find?_eq_some hleader)
  have hback : group ∈ back := by
    rw [hsplit] at hordered
    rcases mem_append.1 hordered with hin | hin
    · simpa [htodo] using hfront group hin
    rcases mem_cons.1 hin with rfl | hbehind
    · rw [hunhashed] at hhashed
      exact absurd hhashed Bool.false_ne_true
    · exact hbehind
  have hle : rotation.lastServed leader.key ≤ rotation.lastServed group.key := by
    have hpairwise := rotation.order_pairwise pass.table.work
    rw [hsplit, pairwise_append] at hpairwise
    exact (pairwise_cons.1 hpairwise.2.1).1 group hback
  have hbehind : rotation.lastServed group.key < (next rotation pass).lastServed leader.key := by
    rw [lastServed_next hkeeps hwork, if_pos hhashed]
    exact Nat.lt_succ_of_le (rotation.lastServed_le _)
  have hne : leader.key ≠ group.key := by
    intro heq
    rw [heq, hsame] at hbehind
    exact absurd hbehind (lt_irrefl _)
  apply Finset.card_lt_card
  refine ⟨?_, fun hsubset => ?_⟩
  · intro other hother
    obtain ⟨hmem, hother, hahead⟩ := Finset.mem_filter.1 hother
    obtain ⟨rival, hrival, rfl⟩ := (hkeeps.keys other).1 hmem
    refine Finset.mem_filter.2 ⟨hmem, hother, ?_⟩
    rw [hsame, lastServed_next hkeeps hrival] at hahead
    split_ifs at hahead
    · exact absurd (hahead.trans (rotation.lastServed_le _)) (Nat.not_succ_le_self _)
    · exact hahead
  · have hmem : leader.key ∈ ahead keys rotation group.key :=
      Finset.mem_filter.2 ⟨(hkeeps.keys _).2 ⟨leader, hwork, rfl⟩, hne, hle⟩
    have hstill := (Finset.mem_filter.1 (hsubset hmem)).2.2
    rw [hsame] at hstill
    exact absurd hstill (not_le.2 hbehind)

theorem hashed_of_ahead_lt {passes : List Pass} (hkeeps : ∀ pass ∈ passes, pass.Keeps keys)
    (hfirst : EachStep (fun rotation pass => pass.HashesFirst rotation) next rotation passes)
    (hkey : key ∈ keys) (htodo : ∀ pass ∈ passes, pass.todo key = true)
    (hahead : (ahead keys rotation key).card < passes.length) :
    ∃ pass ∈ passes, pass.Hashes key := by
  induction passes generalizing rotation with
  | nil => exact absurd hahead (Nat.not_lt_zero _)
  | cons pass passes ih =>
    by_cases hhashes : pass.Hashes key
    · exact ⟨pass, mem_cons_self, hhashes⟩
    have hlt := ahead_next_lt (hkeeps pass mem_cons_self) hfirst.1 hkey
      (htodo pass mem_cons_self) hhashes
    rw [length_cons] at hahead
    obtain ⟨later, hlater, hserves⟩ := ih
      (fun pass hpass => hkeeps pass (mem_cons_of_mem _ hpass)) hfirst.2
      (fun pass hpass => htodo pass (mem_cons_of_mem _ hpass)) (by omega)
    exact ⟨later, mem_cons_of_mem _ hlater, hserves⟩

/-- The rotation starves no digest: among as many consecutive passes as there are groups,
every group that has anything to hash is hashed in one. -/
theorem rotation_starves_none {passes : List Pass} (hpasses : passes.length = keys.card)
    (hkeeps : ∀ pass ∈ passes, pass.Keeps keys)
    (hfirst : EachStep (fun rotation pass => pass.HashesFirst rotation) next rotation passes)
    (hkey : key ∈ keys) (htodo : ∀ pass ∈ passes, pass.todo key = true) :
    ∃ pass ∈ passes, pass.Hashes key := by
  apply hashed_of_ahead_lt hkeeps hfirst hkey htodo
  rw [hpasses]
  apply Finset.card_lt_card
  refine ⟨Finset.filter_subset _ _, fun hsubset => ?_⟩
  exact (Finset.mem_filter.1 (hsubset hkey)).2.1 rfl

end Turns

/-! ## Two digests in turn -/

def twin (digest size : ℕ) : ConvergeGroup where
  digest := .sha256 digest
  dev := 1
  inodes := [⟨1, size, 0, ["a".toList]⟩, ⟨2, size, 1, ["b".toList]⟩]
  keeper := none
  merged := 0
  hashed := false

def twins : ConvergeTable where
  groups := [twin 0 1, twin 1 9]
  distinct := by decide

def twinKeys : Finset GroupKey := {(.sha256 0, 1), (.sha256 1, 1)}

def onePass (served : ℕ) : Pass where
  table := twins
  converge := fun group => { group with hashed := group.digest = .sha256 served }
  todo := fun _ => true
  same_key := fun _ => rfl

theorem work_twins : twins.work = [twin 1 9, twin 0 1] := by decide

theorem onePass_keeps (served : ℕ) : (onePass served).Keeps twinKeys where
  keys := by
    intro key
    show key ∈ twinKeys ↔ ∃ group ∈ twins.work, group.key = key
    rw [work_twins]
    simp [twinKeys, twin, ConvergeGroup.key, eq_comm, or_comm]
  pending := by
    show ∀ group ∈ twins.work, _
    rw [work_twins]
    intro group hgroup
    rcases mem_pair.1 hgroup with rfl | rfl <;> exact Int.one_pos

/-- The larger digest goes first, and the smaller one in the second pass. -/
theorem twins_starve_not :
    EachStep (fun rotation pass => pass.HashesFirst rotation) next ConvergeRotation.fresh
        [onePass 1, onePass 0] ∧ ∃ pass ∈ [onePass 1, onePass 0], pass.Hashes (.sha256 0, 1) := by
  have hfirst : EachStep (fun rotation pass => pass.HashesFirst rotation) next
      ConvergeRotation.fresh [onePass 1, onePass 0] := by
    refine ⟨?_, ?_, trivial⟩
    · intro group hgroup
      have hleader : group = twin 1 9 := Option.some.inj (hgroup.symm.trans (by decide))
      rw [hleader]
      rfl
    · intro group hgroup
      have hleader : group = twin 0 1 := Option.some.inj (hgroup.symm.trans (by decide))
      rw [hleader]
      rfl
  have hlength : [onePass 1, onePass 0].length = twinKeys.card := by decide
  have hkeeps : ∀ pass ∈ [onePass 1, onePass 0], pass.Keeps twinKeys := by
    intro pass hpass
    rcases mem_pair.1 hpass with rfl | rfl <;> exact onePass_keeps _
  refine ⟨hfirst, rotation_starves_none hlength hkeeps hfirst (by decide) fun _ hpass => ?_⟩
  rcases mem_pair.1 hpass with rfl | rfl <;> rfl

end K3sm.Registry.Converge
