import Mathlib

/-!
# Files with several names

A disk maps names to inodes and inodes to their bytes.  One inode may have many names,
its hard links; the link count is how many.  Names are made and removed one at a time,
and bytes change only by a write at the end or a cut, whatever the inode is called.
-/

namespace K3sm.Core

open Function

variable {Name Byte : Type*} [DecidableEq Name]

/-- `links` is the names of each inode, which `mem_links` ties to the names' inodes. -/
structure Disk (Name Byte : Type*) [DecidableEq Name] where
  inode : Name → Option ℕ
  links : ℕ → Finset Name
  content : ℕ → List Byte
  mem_links : ∀ name file, name ∈ links file ↔ inode name = some file

namespace Disk

variable {disk : Disk Name Byte} {name other source target : Name} {file : ℕ}

def empty : Disk Name Byte where
  inode := fun _ => none
  links := fun _ => ∅
  content := fun _ => []
  mem_links := by simp

/-- `st_nlink`. -/
def nlink (disk : Disk Name Byte) (file : ℕ) : ℕ := (disk.links file).card

/-- Makes `name` a name of `file`, or of nothing. -/
def point (disk : Disk Name Byte) (name : Name) (file : Option ℕ) : Disk Name Byte where
  inode := update disk.inode name file
  links := fun any =>
    if file = some any then insert name (disk.links any) else (disk.links any).erase name
  content := disk.content
  mem_links := by
    intro other any
    by_cases hsame : other = name
    · subst hsame
      by_cases hfile : file = some any <;> simp [hfile]
    · rw [update_of_ne hsame, ← disk.mem_links]
      by_cases hfile : file = some any <;> simp [hfile, hsame]

@[simp]
theorem point_inode_self (disk : Disk Name Byte) (name : Name) (file : Option ℕ) :
    (disk.point name file).inode name = file := by
  simp [point]

theorem point_inode_of_ne (hne : other ≠ name) (file : Option ℕ) :
    (disk.point name file).inode other = disk.inode other := by
  simp [point, hne]

@[simp]
theorem point_content (disk : Disk Name Byte) (name : Name) (file : Option ℕ) :
    (disk.point name file).content = disk.content := rfl

/-- `open(2)` with `O_CREAT|O_EXCL` on a name that is free, with an inode that is. -/
def create (disk : Disk Name Byte) (name : Name) (file : ℕ) : Disk Name Byte :=
  { disk.point name (some file) with content := update disk.content file [] }

/-- `link(2)`: the new name has to be free.  A failed call changes nothing. -/
def link (disk : Disk Name Byte) (source target : Name) : Disk Name Byte :=
  match disk.inode source, disk.inode target with
  | some file, none => disk.point target (some file)
  | _, _ => disk

def unlink (disk : Disk Name Byte) (name : Name) : Disk Name Byte := disk.point name none

/-- `rename(2)`: two names of one inode are both kept. -/
def rename (disk : Disk Name Byte) (source target : Name) : Disk Name Byte :=
  match disk.inode source with
  | none => disk
  | some file =>
    if disk.inode target = some file then disk
    else (disk.point target (some file)).point source none

def write (disk : Disk Name Byte) (file : ℕ) (bytes : List Byte) : Disk Name Byte :=
  { disk with content := update disk.content file (disk.content file ++ bytes) }

/-- `ftruncate(2)` to a length the file has passed. -/
def truncate (disk : Disk Name Byte) (file length : ℕ) : Disk Name Byte :=
  { disk with content := update disk.content file ((disk.content file).take length) }

def Sole (disk : Disk Name Byte) (name : Name) (file : ℕ) : Prop :=
  ∀ other, disk.inode other = some file → other = name

theorem sole_of_nlink (hname : disk.inode name = some file) (hlinks : disk.nlink file = 1) :
    disk.Sole name file := by
  obtain ⟨only, honly⟩ := Finset.card_eq_one.1 hlinks
  have hmem : ∀ other, disk.inode other = some file → other = only := by
    intro other hother
    rw [← disk.mem_links, honly, Finset.mem_singleton] at hother
    exact hother
  intro other hother
  rw [hmem other hother, hmem name hname]

@[simp]
theorem create_inode (disk : Disk Name Byte) (name : Name) (file : ℕ) :
    (disk.create name file).inode = update disk.inode name (some file) := rfl

theorem create_content_of_ne {made : ℕ} (hne : file ≠ made) :
    (disk.create name made).content file = disk.content file := by
  simp [create, hne]

@[simp]
theorem link_content (disk : Disk Name Byte) (source target : Name) :
    (disk.link source target).content = disk.content := by
  unfold link
  split <;> rfl

@[simp]
theorem rename_content (disk : Disk Name Byte) (source target : Name) :
    (disk.rename source target).content = disk.content := by
  unfold rename
  split
  · rfl
  · split <;> rfl

@[simp]
theorem unlink_content (disk : Disk Name Byte) (name : Name) :
    (disk.unlink name).content = disk.content := rfl

@[simp]
theorem write_inode (disk : Disk Name Byte) (file : ℕ) (bytes : List Byte) :
    (disk.write file bytes).inode = disk.inode := rfl

@[simp]
theorem truncate_inode (disk : Disk Name Byte) (file length : ℕ) :
    (disk.truncate file length).inode = disk.inode := rfl

@[simp]
theorem write_content_self (disk : Disk Name Byte) (file : ℕ) (bytes : List Byte) :
    (disk.write file bytes).content file = disk.content file ++ bytes := by
  simp [write]

@[simp]
theorem truncate_content_self (disk : Disk Name Byte) (file length : ℕ) :
    (disk.truncate file length).content file = (disk.content file).take length := by
  simp [truncate]

theorem write_content_of_ne {written : ℕ} (hne : file ≠ written) (bytes : List Byte) :
    (disk.write written bytes).content file = disk.content file := by
  simp [write, hne]

theorem truncate_content_of_ne {cut : ℕ} (hne : file ≠ cut) (length : ℕ) :
    (disk.truncate cut length).content file = disk.content file := by
  simp [truncate, hne]

theorem unlink_inode_of_ne (hne : other ≠ name) :
    (disk.unlink name).inode other = disk.inode other :=
  point_inode_of_ne hne none

theorem inode_of_unlink (hname : (disk.unlink name).inode other = some file) :
    disk.inode other = some file := by
  by_cases hsame : other = name
  · subst hsame
    simp [unlink] at hname
  · rwa [unlink_inode_of_ne hsame] at hname

theorem inode_of_link (hname : (disk.link source target).inode other = some file) :
    disk.inode other = some file ∨
      other = target ∧ disk.inode target = none ∧ disk.inode source = some file := by
  unfold link at hname
  split at hname
  case h_2 => exact .inl hname
  rename_i found hsource htarget
  by_cases hsame : other = target
  · subst hsame
    rw [point_inode_self] at hname
    exact .inr ⟨rfl, htarget, hname ▸ hsource⟩
  · exact .inl (by rwa [point_inode_of_ne hsame] at hname)

theorem link_inode_of_some (hname : disk.inode other = some file) :
    (disk.link source target).inode other = some file := by
  unfold link
  split
  case h_2 => exact hname
  rename_i htarget
  have hne : other ≠ target := by
    rintro rfl
    rw [hname] at htarget
    cases htarget
  rw [point_inode_of_ne hne, hname]

theorem rename_inode_of_ne (hsource : other ≠ source) (htarget : other ≠ target) :
    (disk.rename source target).inode other = disk.inode other := by
  unfold rename
  split
  · rfl
  split
  · rfl
  · rw [point_inode_of_ne hsource, point_inode_of_ne htarget]

/-- A name that is there after a rename is an old one, or the target with what the source
named. -/
theorem inode_of_rename (hname : (disk.rename source target).inode other = some file) :
    disk.inode other = some file ∨ other = target ∧ disk.inode source = some file := by
  unfold rename at hname
  split at hname
  case h_1 => exact .inl hname
  rename_i found hsource
  split at hname
  case isTrue => exact .inl hname
  by_cases hgone : other = source
  · subst hgone
    simp at hname
  · rw [point_inode_of_ne hgone] at hname
    by_cases hsame : other = target
    · subst hsame
      rw [point_inode_self] at hname
      exact .inr ⟨rfl, hname ▸ hsource⟩
    · exact .inl (by rwa [point_inode_of_ne hsame] at hname)

end Disk

end K3sm.Core
