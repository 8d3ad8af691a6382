import K3sm.Registry.Upload

/-!
# What one system call leaves to the others

A thread that holds a file's flock relies on the rest of the system for four things: the flock
stays its own, the bytes stay, the session path goes on naming the file, and a file with no name
but that path gets none.
-/

namespace K3sm.Registry.Upload

open K3sm.Core Function

variable {Byte : Type} {volume : Volume Byte} {effect : Effect Byte}

/-- Inodes are handed out in order, and a random name keeps the inode it was made for.
Each session was made with an inode of its own. -/
structure Volume.Names (volume : Volume Byte) : Prop where
  named_lt : ∀ {path file}, volume.disk.inode path = some file → file < volume.nextInode
  minted_lt : ∀ {path file}, volume.minted path = some file → file < volume.nextInode
  named_minted : ∀ {path file}, volume.disk.inode path = some file → path.random = true →
    volume.minted path = some file
  upload_inj : ∀ {left right file}, volume.minted (.upload left) = some file →
    volume.minted (.upload right) = some file → left = right

def Effect.Mints (volume : Volume Byte) : Effect Byte → Prop
  | .create path => volume.minted path = none
  | .link _ target => target.random = false
  | .linkTemp _ target => target.isUpload = false ∧ volume.minted target = none
  | .rename _ target => target.random = false
  | .replace _ target => target.random = false
  | _ => True

variable {path : Path} {session : Session} {after : Volume Byte} {file tid : ℕ}

theorem minted_apply (hmints : effect.Mints volume) (hminted : volume.minted path = some file) :
    (volume.apply effect).minted path = some file := by
  cases effect with
  | create other =>
    have hne : path ≠ other := by
      rintro rfl
      rw [show volume.minted path = none from hmints] at hminted
      cases hminted
    simp [Volume.apply, hne, hminted]
  | linkTemp source target =>
    have hne : path ≠ target := by
      rintro rfl
      rw [hmints.2] at hminted
      cases hminted
    simp [Volume.apply, hne, hminted]
  | _ => exact hminted

/-- A call that makes no inode and mints no name keeps the names in order if every random
name it leaves was there before. -/
theorem Volume.Names.of_names (hnames : volume.Names) (hnext : after.nextInode = volume.nextInode)
    (hminted : after.minted = volume.minted)
    (hrandom : ∀ path file, after.disk.inode path = some file →
      volume.disk.inode path = some file ∨
        path.random = false ∧ ∃ source, volume.disk.inode source = some file) : after.Names where
  named_lt := by
    intro path file hpath
    rw [hnext]
    rcases hrandom path file hpath with hold | ⟨_, source, hsource⟩
    · exact hnames.named_lt hold
    · exact hnames.named_lt hsource
  minted_lt := by
    rw [hnext, hminted]
    exact hnames.minted_lt
  named_minted := by
    intro path file hpath htrue
    rw [hminted]
    rcases hrandom path file hpath with hold | ⟨hfalse, _⟩
    · exact hnames.named_minted hold htrue
    · rw [hfalse] at htrue
      cases htrue
  upload_inj := by
    rw [hminted]
    exact hnames.upload_inj

theorem names_create (hnames : volume.Names) : (volume.apply (.create path)).Names where
  named_lt := by
    intro other file hother
    by_cases hsame : other = path
    · subst hsame
      simp only [Volume.apply, Disk.create_inode, update_self, Option.some.injEq] at hother
      subst hother
      exact Nat.lt_succ_self _
    · simp only [Volume.apply, Disk.create_inode, update_of_ne hsame] at hother
      exact Nat.lt_succ_of_lt (hnames.named_lt hother)
  minted_lt := by
    intro other file hother
    by_cases hsame : other = path
    · subst hsame
      simp only [Volume.apply, update_self, Option.some.injEq] at hother
      subst hother
      exact Nat.lt_succ_self _
    · simp only [Volume.apply, update_of_ne hsame] at hother
      exact Nat.lt_succ_of_lt (hnames.minted_lt hother)
  named_minted := by
    intro other file hother hrandom
    by_cases hsame : other = path
    · subst hsame
      simpa [Volume.apply] using hother
    · simp only [Volume.apply, Disk.create_inode, update_of_ne hsame] at hother ⊢
      exact hnames.named_minted hother hrandom
  upload_inj := by
    intro left right file hleft hright
    -- The new inode is above every inode a session was made with.
    have hold : ∀ session, Path.upload session ≠ path →
        (volume.apply (.create path)).minted (.upload session) = some file →
        volume.minted (.upload session) = some file ∧ file < volume.nextInode := by
      intro session hne hminted
      simp only [Volume.apply, update_of_ne hne] at hminted
      exact ⟨hminted, hnames.minted_lt hminted⟩
    have hnew : ∀ session, Path.upload session = path →
        (volume.apply (.create path)).minted (.upload session) = some file →
        file = volume.nextInode := by
      intro session heq hminted
      simp only [Volume.apply, heq, update_self, Option.some.injEq] at hminted
      exact hminted.symm
    by_cases hl : Path.upload left = path
    · by_cases hr : Path.upload right = path
      · exact Path.upload.inj (hl.trans hr.symm)
      have hlt := (hold right hr hright).2
      rw [hnew left hl hleft] at hlt
      exact absurd hlt (lt_irrefl _)
    · by_cases hr : Path.upload right = path
      · have hlt := (hold left hl hleft).2
        rw [hnew right hr hright] at hlt
        exact absurd hlt (lt_irrefl _)
      · exact hnames.upload_inj (hold left hl hleft).1 (hold right hr hright).1

theorem names_linkTemp {source target : Path} (hnames : volume.Names)
    (hupload : target.isUpload = false) (hminted : volume.minted target = none) :
    (volume.apply (.linkTemp source target)).Names where
  named_lt := by
    intro path file hpath
    rcases Disk.inode_of_link hpath with hold | ⟨_, _, hsource⟩
    · exact hnames.named_lt hold
    · exact hnames.named_lt hsource
  minted_lt := by
    intro path file hpath
    by_cases hsame : path = target
    · subst hsame
      simp only [Volume.apply, update_self] at hpath
      exact hnames.named_lt hpath
    · simp only [Volume.apply, update_of_ne hsame] at hpath
      exact hnames.minted_lt hpath
  named_minted := by
    intro path file hpath hrandom
    by_cases hsame : path = target
    · subst hsame
      simp only [Volume.apply, update_self]
      rcases Disk.inode_of_link hpath with hold | ⟨_, _, hsource⟩
      · rw [hnames.named_minted hold hrandom] at hminted
        cases hminted
      · exact hsource
    · simp only [Volume.apply, update_of_ne hsame]
      rcases Disk.inode_of_link hpath with hold | ⟨heq, _⟩
      · exact hnames.named_minted hold hrandom
      · exact absurd heq hsame
  upload_inj := by
    have hne : ∀ session, Path.upload session ≠ target := by
      rintro session rfl
      cases hupload
    intro left right file hleft hright
    simp only [Volume.apply, update_of_ne (hne _)] at hleft hright
    exact hnames.upload_inj hleft hright

theorem Volume.Names.apply (hnames : volume.Names) (hmints : effect.Mints volume) :
    (volume.apply effect).Names := by
  cases effect with
  | create path => exact names_create hnames
  | linkTemp source target => exact names_linkTemp hnames hmints.1 hmints.2
  | link source target =>
    refine hnames.of_names rfl rfl ?_
    intro path file hpath
    rcases Disk.inode_of_link hpath with hold | ⟨rfl, _, hsource⟩
    · exact .inl hold
    · exact .inr ⟨hmints, source, hsource⟩
  | rename source target =>
    refine hnames.of_names rfl rfl ?_
    intro path file hpath
    rcases Disk.inode_of_rename hpath with hold | ⟨rfl, hsource⟩
    · exact .inl hold
    · exact .inr ⟨hmints, source, hsource⟩
  | replace source target =>
    refine hnames.of_names rfl rfl ?_
    intro path file hpath
    by_cases hsame : path = target
    · subst hsame
      simp only [Volume.apply, Disk.point_inode_self] at hpath
      exact .inr ⟨hmints, source, hpath⟩
    · simp only [Volume.apply, Disk.point_inode_of_ne hsame] at hpath
      exact .inl hpath
  | unlink path => exact hnames.of_names rfl rfl fun _ _ hpath => .inl (Disk.inode_of_unlink hpath)
  | _ => exact hnames.of_names rfl rfl fun _ _ hpath => .inl hpath

/-! ## What a lock holder relies on -/

def Volume.Lone (volume : Volume Byte) (session : Session) (file : ℕ) : Prop :=
  volume.disk.inode (.upload session) = some file → volume.disk.Sole (.upload session) file

theorem Volume.Lone.of_names (hlone : volume.Lone session file)
    (hnames : ∀ path, after.disk.inode path = some file → volume.disk.inode path = some file) :
    after.Lone session file := by
  intro hnamed path hpath
  exact hlone (hnames _ hnamed) path (hnames path hpath)

structure Volume.Frame (tid : ℕ) (volume after : Volume Byte) : Prop where
  flock : ∀ {file}, volume.flock file = some tid → after.flock file = some tid
  content : ∀ {file}, volume.flock file = some tid → file < volume.nextInode →
    after.disk.content file = volume.disk.content file
  named : ∀ {session file}, volume.flock file = some tid →
    volume.disk.inode (.upload session) = some file →
    after.disk.inode (.upload session) = some file
  lone : ∀ {session file}, volume.flock file = some tid → file < volume.nextInode →
    volume.Lone session file → after.Lone session file

def Effect.LinkSpares (volume : Volume Byte) (tid : ℕ) (source target : Path) : Prop :=
  target.isUpload = false ∧ ∀ file, volume.disk.inode source = some file →
    volume.flock file = some tid → source.isUpload = false

def Effect.Spares (volume : Volume Byte) (tid : ℕ) : Effect Byte → Prop
  | .quiet => True
  | .lock _ file => volume.flock file = none
  | .unlock file => volume.flock file ≠ some tid
  | .create path => volume.minted path = none
  | .write file _ => volume.flock file ≠ some tid
  | .truncate file _ => volume.flock file ≠ some tid
  | .link source target => Effect.LinkSpares volume tid source target
  | .linkTemp source target => Effect.LinkSpares volume tid source target
  | .rename source target =>
    source.isUpload = false ∧ Effect.LinkSpares volume tid source target
  | .replace source target => Effect.LinkSpares volume tid source target
  | .unlink path => ∀ file, path.isUpload = true → volume.disk.inode path = some file →
      volume.flock file ≠ some tid

theorem Volume.Lone.of_linked {source target : Path}
    (hspares : Effect.LinkSpares volume tid source target) (hlocked : volume.flock file = some tid)
    (hlone : volume.Lone session file)
    (hnames : ∀ path, after.disk.inode path = some file → volume.disk.inode path = some file ∨
      path = target ∧ volume.disk.inode source = some file) : after.Lone session file := by
  intro hnamed
  have hbefore : volume.disk.inode (.upload session) = some file := by
    rcases hnames _ hnamed with hold | ⟨htarget, _⟩
    · exact hold
    have hupload := hspares.1
    rw [← htarget] at hupload
    cases hupload
  have hsole := hlone hbefore
  intro path hpath
  rcases hnames path hpath with hold | ⟨_, hsource⟩
  · exact hsole path hold
  -- The source is a name of the file too, so it is the session path.
  have hupload := hspares.2 file hsource hlocked
  rw [hsole source hsource] at hupload
  cases hupload

theorem upload_ne_of_isUpload (hupload : path.isUpload = false) : Path.upload session ≠ path := by
  rintro rfl
  cases hupload

theorem Volume.Frame.of_disk (hflock : after.flock = volume.flock)
    (hcontent : after.disk.content = volume.disk.content)
    (hnamed : ∀ {session file}, volume.flock file = some tid →
      volume.disk.inode (.upload session) = some file →
      after.disk.inode (.upload session) = some file)
    (hlone : ∀ {session file}, volume.flock file = some tid → volume.Lone session file →
      after.Lone session file) : Volume.Frame tid volume after where
  flock := by
    intro file hfile
    rw [hflock, hfile]
  content := by
    intro file _ _
    rw [hcontent]
  named := hnamed
  lone := by
    intro session file hlocked _ hbefore
    exact hlone hlocked hbefore

theorem frame_content {content : ℕ → List Byte}
    (hcontent : ∀ other, other ≠ file → content other = volume.disk.content other)
    (hfree : volume.flock file ≠ some tid) :
    Volume.Frame tid volume { volume with disk := { volume.disk with content := content } } where
  flock := id
  content := by
    intro other hlocked _
    apply hcontent
    rintro rfl
    exact hfree hlocked
  named := fun _ hnamed => hnamed
  lone := fun _ _ hlone => hlone

theorem frame_flock {holder : Option ℕ} (hfree : volume.flock file ≠ some tid) :
    Volume.Frame tid volume { volume with flock := Function.update volume.flock file holder } where
  flock := by
    intro other hlocked
    have hne : other ≠ file := by
      rintro rfl
      exact hfree hlocked
    simp only [update_of_ne hne, hlocked]
  content := fun _ _ => rfl
  named := fun _ hnamed => hnamed
  lone := fun _ _ hlone => hlone

theorem frame_create (hnames : volume.Names) (hminted : volume.minted path = none) :
    Volume.Frame tid volume (volume.apply (.create path)) where
  flock := id
  content := by
    intro file _ hlt
    exact Disk.create_content_of_ne (Nat.ne_of_lt hlt)
  named := by
    intro session file _ hnamed
    have hne : Path.upload session ≠ path := by
      rintro rfl
      rw [hnames.named_minted hnamed rfl] at hminted
      cases hminted
    simp only [Volume.apply, Disk.create_inode, update_of_ne hne, hnamed]
  lone := by
    intro session file _ hlt hlone
    refine hlone.of_names ?_
    intro other hother
    have hne : other ≠ path := by
      rintro rfl
      simp only [Volume.apply, Disk.create_inode, update_self, Option.some.injEq] at hother
      exact absurd hother.symm (Nat.ne_of_lt hlt)
    simpa only [Volume.apply, Disk.create_inode, update_of_ne hne] using hother

theorem frame_apply (hnames : volume.Names) (hspares : effect.Spares volume tid) :
    Volume.Frame tid volume (volume.apply effect) := by
  cases effect with
  | quiet => exact .of_disk rfl rfl (fun _ hnamed => hnamed) (fun _ hlone => hlone)
  | lock other file =>
    refine frame_flock ?_
    rw [show volume.flock file = none from hspares]
    exact (Option.some_ne_none tid).symm
  | unlock file => exact frame_flock hspares
  | create path => exact frame_create hnames hspares
  | write file bytes =>
    exact frame_content (fun _ hne => Disk.write_content_of_ne hne bytes) hspares
  | truncate file length =>
    exact frame_content (fun _ hne => Disk.truncate_content_of_ne hne length) hspares
  | link source target | linkTemp source target =>
    refine .of_disk rfl (Disk.link_content ..) (fun _ hnamed => Disk.link_inode_of_some hnamed) ?_
    intro session file hlocked hlone
    refine hlone.of_linked hspares hlocked fun path hpath => ?_
    exact (Disk.inode_of_link hpath).imp_right fun hnew => ⟨hnew.1, hnew.2.2⟩
  | rename source target =>
    refine .of_disk rfl (Disk.rename_content ..) ?_ ?_
    · intro session file _ hnamed
      exact (Disk.rename_inode_of_ne (upload_ne_of_isUpload hspares.1)
        (upload_ne_of_isUpload hspares.2.1)).trans hnamed
    · intro session file hlocked hlone
      exact hlone.of_linked hspares.2 hlocked fun path hpath => Disk.inode_of_rename hpath
  | replace source target =>
    refine .of_disk rfl rfl ?_ ?_
    · intro session file _ hnamed
      exact (Disk.point_inode_of_ne (upload_ne_of_isUpload hspares.1) _).trans hnamed
    intro session file hlocked hlone
    refine hlone.of_linked hspares hlocked fun path hpath => ?_
    by_cases hsame : path = target
    · subst hsame
      simp only [Volume.apply, Disk.point_inode_self] at hpath
      exact .inr ⟨rfl, hpath⟩
    · simp only [Volume.apply, Disk.point_inode_of_ne hsame] at hpath
      exact .inl hpath
  | unlink path =>
    refine .of_disk rfl rfl ?_ ?_
    · intro session file hlocked hnamed
      have hne : Path.upload session ≠ path := by
        rintro rfl
        exact hspares file rfl hnamed hlocked
      exact (Disk.unlink_inode_of_ne hne).trans hnamed
    · intro session file _ hlone
      exact hlone.of_names fun _ hpath => Disk.inode_of_unlink hpath

def Effect.writes : Effect Byte → Option ℕ
  | .write file _ => some file
  | .truncate file _ => some file
  | _ => none

theorem apply_content (hwrites : effect.writes ≠ some file) (hlt : file < volume.nextInode) :
    (volume.apply effect).disk.content file = volume.disk.content file := by
  cases effect with
  | create path => exact Disk.create_content_of_ne (Nat.ne_of_lt hlt)
  | write other bytes =>
    refine Disk.write_content_of_ne ?_ bytes
    rintro rfl
    exact hwrites rfl
  | truncate other length =>
    refine Disk.truncate_content_of_ne ?_ length
    rintro rfl
    exact hwrites rfl
  | link source target | linkTemp source target | rename source target => simp [Volume.apply]
  | _ => rfl

end K3sm.Registry.Upload
