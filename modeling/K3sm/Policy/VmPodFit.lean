import Mathlib.Data.List.Chain
import Mathlib.Data.List.Sort
import Mathlib.Data.String.Basic

/-!
# Mounts that one guest can hold

A vm pod holds one source at one path, and one path for each Memory emptyDir.  The rules
compare only the neighbours of a sorted list.  Neighbours of one key that do not conflict
agree in an equivalence of the fields they carry, so a whole run of one key agrees as soon as
its neighbours do.
-/

namespace K3sm.Policy

section Neighbours

variable {Item Key Result : Type}

/-- The result for each neighbouring pair where `conflict` holds. -/
def adjacentConflicts (sorted : List Item) (conflict : Item → Item → Bool)
    (result : Item → Result) : List Result :=
  ((sorted.zip sorted.tail).filter fun pair => conflict pair.1 pair.2).map fun pair =>
    result pair.1

variable {sorted : List Item} {conflict : Item → Item → Bool} {result : Item → Result}

theorem adjacentConflicts_eq_nil :
    adjacentConflicts sorted conflict result = [] ↔
      sorted.IsChain fun left right => conflict left right = false := by
  rw [adjacentConflicts, List.map_eq_nil_iff, List.filter_eq_nil_iff]
  induction sorted with
  | nil => simp
  | cons left rest ih =>
    cases rest with
    | nil => simp
    | cons right rest =>
      rw [List.isChain_cons_cons, ← ih]
      simp

variable [LinearOrder Key] {key : Item → Key} {agree : Item → Item → Prop}

/-- In a list sorted by the key, neighbours find a conflict whenever any two items do. -/
theorem adjacentConflicts_ne_nil (hsorted : sorted.Pairwise fun left right => key left ≤ key right)
    (hagree : Equivalence agree)
    (hconflict : ∀ left right, conflict left right = true ↔
      key left = key right ∧ ¬ agree left right) :
    adjacentConflicts sorted conflict result ≠ [] ↔
      ∃ left ∈ sorted, ∃ right ∈ sorted, conflict left right = true := by
  rw [Ne, adjacentConflicts_eq_nil, not_iff_comm]
  push Not
  have hfalse : ∀ left right, conflict left right = false ↔
      (key left = key right → agree left right) := by
    intro left right
    rw [← Bool.not_eq_true, hconflict, not_and, not_not]
  simp only [Bool.not_eq_true, hfalse]
  constructor
  · intro hall
    apply List.Pairwise.isChain
    exact List.Pairwise.imp_of_mem (fun hleft hright _ => hall _ hleft _ hright) hsorted
  intro hchain
  -- with the order of the keys the relation of neighbours is transitive
  have htrans : IsTrans Item fun left right =>
      key left ≤ key right ∧ (key left = key right → agree left right) := by
    refine ⟨fun left middle right hfirst hsecond => ⟨hfirst.1.trans hsecond.1, fun hsame => ?_⟩⟩
    have hmiddle : key left = key middle := le_antisymm hfirst.1 (hsame ▸ hsecond.1)
    exact hagree.trans (hfirst.2 hmiddle) (hsecond.2 (hmiddle.symm.trans hsame))
  have hboth : sorted.IsChain fun left right =>
      key left ≤ key right ∧ (key left = key right → agree left right) := by
    have hkeys := hsorted.isChain
    rw [List.isChain_iff_getElem] at hkeys hchain ⊢
    exact fun place hplace => ⟨hkeys place hplace, hchain place hplace⟩
  have hpairs := List.isChain_iff_pairwise.1 hboth
  have hall := (hpairs.imp And.right).forall_of_forall_of_flip
    (fun item _ _ => hagree.refl item) ?_
  · exact fun left hleft right hright => hall hleft hright
  · exact (hpairs.imp And.right).imp fun hright hsame => hagree.symm (hright hsame.symm)

end Neighbours

structure VolumeMount where
  name : String
  mountPath : String
  subPath : Option String
  readOnly : Option Bool
  deriving DecidableEq

structure EmptyDir where
  medium : Option String
  deriving DecidableEq

structure PersistentVolumeClaim where
  readOnly : Option Bool
  deriving DecidableEq

/-- The two sources of a volume that the rules on mounts read. -/
structure Volume where
  name : String
  emptyDir : Option EmptyDir
  persistentVolumeClaim : Option PersistentVolumeClaim
  deriving DecidableEq

structure Container where
  volumeMounts : Option (List VolumeMount)
  deriving DecidableEq

/-- What the rules read of a pod. -/
structure PodSpec where
  containers : List Container
  initContainers : Option (List Container)
  volumes : Option (List Volume)
  deriving DecidableEq

namespace PodSpec

variable (spec : PodSpec)

def all : List Container := spec.containers ++ spec.initContainers.getD []

def mounts : List VolumeMount := spec.all.flatMap fun container => container.volumeMounts.getD []

def allVolumes : List Volume := spec.volumes.getD []

end PodSpec

def Volume.isMemory (volume : Volume) : Bool :=
  volume.emptyDir.any fun source => source.medium == some "Memory"

def Volume.readOnlyMatters (volume : Volume) : Bool :=
  volume.emptyDir.isSome ||
    volume.persistentVolumeClaim.any fun claim => !(claim.readOnly == some true)

/-- What the rules rely on of the evaluator's `sortBy`. -/
structure Sorter where
  sortBy : (VolumeMount → String) → List VolumeMount → List VolumeMount
  perm : ∀ key mounts, (sortBy key mounts).Perm mounts
  sorted : ∀ key mounts, (sortBy key mounts).Pairwise fun left right => key left ≤ key right

def VolumeMount.subPathText (mount : VolumeMount) : String := mount.subPath.getD ""

def VolumeMount.isReadOnly (mount : VolumeMount) : Bool := mount.readOnly == some true

section Rules

variable (sorter : Sorter) (spec : PodSpec)

def memoryVolumes : List String := (spec.allVolumes.filter Volume.isMemory).map Volume.name

def readOnlyMatters : List String := (spec.allVolumes.filter Volume.readOnlyMatters).map Volume.name

def pathConflict (left right : VolumeMount) : Bool :=
  left.mountPath == right.mountPath && (left.name != right.name ||
    left.subPathText != right.subPathText ||
      (left.isReadOnly != right.isReadOnly && decide (left.name ∈ readOnlyMatters spec)))

def memoryConflict (left right : VolumeMount) : Bool :=
  left.name == right.name && left.mountPath != right.mountPath

def pathConflicts : List String :=
  adjacentConflicts (sorter.sortBy VolumeMount.mountPath spec.mounts) (pathConflict spec)
    VolumeMount.mountPath

def memoryMounts : List VolumeMount :=
  spec.mounts.filter fun mount => decide (mount.name ∈ memoryVolumes spec)

def memoryPathConflicts : List String :=
  adjacentConflicts (sorter.sortBy VolumeMount.name (memoryMounts spec)) memoryConflict
    VolumeMount.name

def pathRule (isCreate : Bool) : Bool := !isCreate || (pathConflicts sorter spec).isEmpty

def memoryRule (isCreate : Bool) : Bool := !isCreate || (memoryPathConflicts sorter spec).isEmpty

/-- Two mounts meet at one path and want different things there. -/
def SharesPath : Prop :=
  ∃ left ∈ spec.mounts, ∃ right ∈ spec.mounts, left.mountPath = right.mountPath ∧
    (left.name ≠ right.name ∨ left.subPathText ≠ right.subPathText ∨
      (left.isReadOnly ≠ right.isReadOnly ∧ left.name ∈ readOnlyMatters spec))

/-- A memory volume is mounted at two paths. -/
def SplitsMemory : Prop :=
  ∃ name ∈ memoryVolumes spec, ∃ left ∈ spec.mounts, ∃ right ∈ spec.mounts,
    left.name = name ∧ right.name = name ∧ left.mountPath ≠ right.mountPath

/-- What mounts of one path that do not conflict agree in. -/
def SameMount (left right : VolumeMount) : Prop :=
  left.name = right.name ∧ left.subPathText = right.subPathText ∧
    (left.name ∈ readOnlyMatters spec → left.isReadOnly = right.isReadOnly)

end Rules

section Exact

variable {sorter : Sorter} {spec : PodSpec}

theorem sameMount_equivalence : Equivalence (SameMount spec) where
  refl := fun _ => ⟨rfl, rfl, fun _ => rfl⟩
  symm := fun hsame => ⟨hsame.1.symm, hsame.2.1.symm, fun hmatters =>
    (hsame.2.2 (hsame.1 ▸ hmatters)).symm⟩
  trans := fun hfirst hsecond => ⟨hfirst.1.trans hsecond.1, hfirst.2.1.trans hsecond.2.1,
    fun hmatters => (hfirst.2.2 hmatters).trans (hsecond.2.2 (hfirst.1 ▸ hmatters))⟩

theorem pathConflict_iff (left right : VolumeMount) : pathConflict spec left right = true ↔
    left.mountPath = right.mountPath ∧ ¬ SameMount spec left right := by
  simp only [pathConflict, SameMount, Bool.and_eq_true, Bool.or_eq_true, beq_iff_eq, bne_iff_ne,
    decide_eq_true_eq]
  tauto

theorem pathConflicts_ne_nil : pathConflicts sorter spec ≠ [] ↔ SharesPath spec := by
  rw [pathConflicts,
    adjacentConflicts_ne_nil (sorter.sorted _ _) sameMount_equivalence pathConflict_iff]
  simp only [(sorter.perm _ _).mem_iff, SharesPath, pathConflict, Bool.and_eq_true,
    Bool.or_eq_true, beq_iff_eq, bne_iff_ne, decide_eq_true_eq, or_assoc]

theorem memoryPathConflicts_ne_nil : memoryPathConflicts sorter spec ≠ [] ↔ SplitsMemory spec := by
  have hagree : Equivalence fun left right : VolumeMount => left.mountPath = right.mountPath :=
    ⟨fun _ => rfl, Eq.symm, Eq.trans⟩
  rw [memoryPathConflicts, adjacentConflicts_ne_nil (sorter.sorted _ _) hagree
    fun left right => by simp [memoryConflict]]
  simp only [(sorter.perm _ _).mem_iff, memoryMounts, memoryConflict, List.mem_filter,
    decide_eq_true_eq, Bool.and_eq_true, beq_iff_eq, bne_iff_ne]
  constructor
  · rintro ⟨left, ⟨hleft, hname⟩, right, ⟨hright, -⟩, hsame, hpath⟩
    exact ⟨left.name, hname, left, hleft, right, hright, rfl, hsame.symm, hpath⟩
  · rintro ⟨name, hname, left, hleft, right, hright, rfl, hsame, hpath⟩
    exact ⟨left, ⟨hleft, hname⟩, right, ⟨hright, hsame ▸ hname⟩, hsame.symm, hpath⟩

end Exact

/-- On a create the two rules refuse exactly the pods that break them, and on any other
request neither refuses. -/
theorem mount_rules_complete (sorter : Sorter) (spec : PodSpec) (isCreate : Bool) :
    (pathRule sorter spec isCreate = false ↔ isCreate = true ∧ SharesPath spec) ∧
      (memoryRule sorter spec isCreate = false ↔ isCreate = true ∧ SplitsMemory spec) := by
  rw [← @pathConflicts_ne_nil sorter, ← @memoryPathConflicts_ne_nil sorter]
  simp [pathRule, memoryRule]

def clashingSpec : PodSpec where
  containers := [⟨some [⟨"a", "/data", none, none⟩]⟩, ⟨some [⟨"b", "/data", none, none⟩]⟩]
  initContainers := none
  volumes := none

/-- The insertion of each mount behind those of smaller keys. -/
def insertionSorter : Sorter where
  sortBy := fun key => List.insertionSort fun left right => key left ≤ key right
  perm := fun _ mounts => mounts.perm_insertionSort _
  sorted := fun key mounts => by
    have : Std.Total fun left right : VolumeMount => key left ≤ key right :=
      ⟨fun left right => le_total (key left) (key right)⟩
    have : IsTrans VolumeMount fun left right => key left ≤ key right := ⟨fun _ _ _ => le_trans⟩
    exact mounts.pairwise_insertionSort _

/-- An edit of an image is judged, and these rules let its mounts be. -/
theorem edit_keeps_clash : ¬ (pathRule insertionSorter clashingSpec false = false ↔
    SharesPath clashingSpec) := by
  intro hexact
  have hrefused := hexact.2 ⟨⟨"a", "/data", none, none⟩, by decide,
    ⟨"b", "/data", none, none⟩, by decide, rfl, .inl (by decide)⟩
  cases hrefused

end K3sm.Policy
