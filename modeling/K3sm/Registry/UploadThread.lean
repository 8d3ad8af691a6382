import K3sm.Registry.UploadVolume

/-!
# One thread under its lock

`Takes` lists what a thread can do from each stage, with the checks that let it.  `Phase.Sound` is
what the thread then knows about the file it has locked: past the check its path names the file,
an append is the only one who can name it, and past the hash the bytes are the digest's.
-/

namespace K3sm.Registry.Upload

open K3sm.Core List Option

variable {Byte : Type} {hashing : Hashing Byte} {volume : Volume Byte} {thread : Thread Byte}
  {tid : ℕ} {stage : Stage Byte} {move : Move Byte}

/-- Each step of a thread, with its guard. -/
inductive Takes (hashing : Hashing Byte) (volume : Volume Byte) (tid : ℕ) (thread : Thread Byte) :
    Stage Byte → Move Byte → Prop
  | openFile {file : ℕ} (hnamed : volume.disk.inode thread.path = some file) :
      Takes hashing volume tid thread .opening (.quiet (.waiting file))
  | notOpened :
      Takes hashing volume tid thread .opening (.quiet (thread.call.returns 0 false))
  | flock {file : ℕ} (hfree : volume.flock file = none) :
      Takes hashing volume tid thread (.waiting file) ⟨.lock tid file, [], .holding file .locked⟩
  | notLocked {file : ℕ} :
      Takes hashing volume tid thread (.waiting file) (.quiet (thread.call.returns 0 false))
  | stat {file : ℕ} :
      Takes hashing volume tid thread (.holding file .locked)
        (.quiet (.holding file (.statted (volume.disk.nlink file))))
  | lstat {file links : ℕ} {idle : Bool} {phase : Phase Byte}
      (hnamed : volume.disk.inode thread.path = some file)
      (hpass : thread.call.pass links idle = some phase) :
      Takes hashing volume tid thread (.holding file (.statted links))
        (.quiet (.holding file phase))
  | mismatch {file : ℕ} {offset limit : ℤ} (hcall : thread.call = .append offset limit) :
      Takes hashing volume tid thread (.holding file .checked)
        (.quiet (.holding file (.closing (volume.disk.content file).length false)))
  | start {file : ℕ} {offset limit : ℤ} (hcall : thread.call = .append offset limit) :
      Takes hashing volume tid thread (.holding file .checked)
        (.quiet (.holding file (.copying (volume.disk.content file).length [] 0)))
  | receive {file base : ℕ} {read bytes : List Byte} :
      Takes hashing volume tid thread (.holding file (.copying base read read.length))
        ⟨.quiet, bytes, .holding file (.copying base (read ++ bytes) read.length)⟩
  | write {file base written count : ℕ} {read bytes : List Byte}
      (hbytes : bytes = (read.drop written).take count) :
      Takes hashing volume tid thread (.holding file (.copying base read written))
        ⟨.write file bytes, [], .holding file (.copying base read (written + bytes.length))⟩
  | finish {file base : ℕ} {read : List Byte} :
      Takes hashing volume tid thread (.holding file (.copying base read read.length))
        (.quiet (.holding file (.closing (base + read.length) true)))
  | probe {file base : ℕ} {read : List Byte} {byte : Byte} :
      Takes hashing volume tid thread (.holding file (.copying base read read.length))
        ⟨.quiet, [byte], .holding file (.cutting base read.length)⟩
  | cut {file base written : ℕ} :
      Takes hashing volume tid thread (.holding file (.cutting base written))
        ⟨.truncate file base, [], .holding file (.closing base false)⟩
  | trust {file : ℕ} {digest : Digest} {hashed : Option ℕ}
      (hcall : thread.call = .commit digest hashed)
      (htrusts : trusts hashed (volume.disk.content file).length (volume.disk.nlink file) = true) :
      Takes hashing volume tid thread (.holding file .checked) (.quiet (.holding file .verified))
  | reread {file : ℕ} {digest : Digest} {hashed : Option ℕ}
      (hcall : thread.call = .commit digest hashed) :
      Takes hashing volume tid thread (.holding file .checked)
        (.quiet (.holding file (.hashing [])))
  | hash {file count : ℕ} {read : List Byte} :
      Takes hashing volume tid thread (.holding file (.hashing read))
        (.quiet (.holding file
          (.hashing (read ++ ((volume.disk.content file).drop read.length).take count))))
  | verify {file : ℕ} {read : List Byte} {digest : Digest} {hashed : Option ℕ}
      (hcall : thread.call = .commit digest hashed)
      (hall : (volume.disk.content file).length ≤ read.length)
      (hverified : hashing.verified read digest = true) :
      Takes hashing volume tid thread (.holding file (.hashing read))
        (.quiet (.holding file .verified))
  | refuse {file : ℕ} {read : List Byte} :
      Takes hashing volume tid thread (.holding file (.hashing read))
        (.quiet (.holding file (.closing 0 false)))
  | recheck {file : ℕ} :
      Takes hashing volume tid thread (.holding file .verified) (.quiet (.holding file .linking))
  | link {file : ℕ} {digest : Digest} {hashed : Option ℕ}
      (hcall : thread.call = .commit digest hashed) :
      Takes hashing volume tid thread (.holding file .linking)
        ⟨.link thread.path (thread.blobPath digest), [], .holding file .comparing⟩
  | keep {file : ℕ} :
      Takes hashing volume tid thread (.holding file .comparing) (.quiet (.holding file .removing))
  | differ {file : ℕ} :
      Takes hashing volume tid thread (.holding file .comparing) (.quiet (.holding file .replacing))
  | linkTemp {file : ℕ} {temp : String}
      (hminted : volume.minted (thread.tempPath temp) = none) :
      Takes hashing volume tid thread (.holding file .replacing)
        ⟨.linkTemp thread.path (thread.tempPath temp), [], .holding file (.staged temp)⟩
  | checkTemp {file : ℕ} {temp : String} :
      Takes hashing volume tid thread (.holding file (.staged temp))
        (.quiet (.holding file (.moving temp)))
  | rename {file : ℕ} {temp : String} {digest : Digest} {hashed : Option ℕ}
      (hcall : thread.call = .commit digest hashed) :
      Takes hashing volume tid thread (.holding file (.moving temp))
        ⟨.rename (thread.tempPath temp) (thread.blobPath digest), [], .holding file .removing⟩
  | remove {file : ℕ} :
      Takes hashing volume tid thread (.holding file .removing)
        ⟨.unlink thread.path, [], .holding file (.closing 0 true)⟩
  | close {file newLen : ℕ} {ok : Bool} :
      Takes hashing volume tid thread (.holding file (.closing newLen ok))
        ⟨.unlock file, [], thread.call.returns newLen ok⟩
  | fail {file : ℕ} {phase failed : Phase Byte} (hfailed : phase.failed = some failed) :
      Takes hashing volume tid thread (.holding file phase) (.quiet (.holding file failed))

variable {phase : Phase Byte}

theorem takes_of_holding {file : ℕ} {action : Action Byte}
    (hmove : thread.holding volume hashing file phase action = some move) :
    Takes hashing volume tid thread (.holding file phase) move := by
  revert hmove
  fun_cases Thread.holding thread volume hashing file phase action
  case case2 links idle hnamed =>
      intro hmove
      obtain ⟨phase, hpass, rfl⟩ := map_eq_some_iff.1 hmove
      exact .lstat hnamed hpass
  case case29 digest hashed hcall =>
      intro hmove
      obtain ⟨found, hfound, rfl⟩ := map_eq_some_iff.1 hmove
      split
      · exact .keep
      · exact .differ
  case case39 =>
      intro hmove
      obtain ⟨failed, hfailed, rfl⟩ := map_eq_some_iff.1 hmove
      exact .fail hfailed
  -- Each other branch either refuses the action or gives its move outright.
  all_goals
    intro hmove
    cases hmove
  case case1 => exact .stat
  case case4 hcall size hoffset => exact .mismatch hcall
  case case5 hcall size hoffset => exact .start hcall
  case case7 hcall hfits =>
      obtain ⟨rfl, _⟩ := hfits
      exact .receive
  case case10 => exact .write rfl
  case case11 => exact .finish
  case case13 hcall hfull =>
      obtain ⟨rfl, _⟩ := hfull
      exact .probe
  case case16 => exact .cut
  case case17 hcall htrusts => exact .trust hcall htrusts
  case case18 hcall htrusts => exact .reread hcall
  case case20 => exact .hash
  case case21 hcall hall hverified => exact .verify hcall hall hverified
  case case22 => exact .refuse
  case case25 => exact .recheck
  case case27 hcall => exact .link hcall
  case case31 hminted => exact .linkTemp hminted.1
  case case33 => exact .checkTemp
  case case35 hcall => exact .rename hcall
  case case37 => exact .remove
  case case38 => exact .close

theorem takes_of_move {action : Action Byte}
    (hmove : thread.move tid volume hashing action = some move) :
    Takes hashing volume tid thread thread.stage move := by
  unfold Thread.move at hmove
  generalize thread.stage = stage at hmove
  split at hmove
  case h_1 =>
      obtain ⟨file, hnamed, rfl⟩ := map_eq_some_iff.1 hmove
      exact .openFile hnamed
  case h_2 =>
      cases hmove
      exact .notOpened
  case h_3 file =>
      split at hmove
      · cases hmove
        exact .flock ‹_›
      · cases hmove
  case h_4 =>
      cases hmove
      exact .notLocked
  case h_5 => exact takes_of_holding hmove
  case h_6 => cases hmove

/-! ## What a thread knows -/

def Thread.Named (thread : Thread Byte) (volume : Volume Byte) (file : ℕ) : Prop :=
  volume.disk.inode thread.path = some file

def Call.appends : Call → Bool
  | .append _ _ => true
  | _ => false

def Thread.Vouched (hashing : Hashing Byte) (thread : Thread Byte) (volume : Volume Byte)
    (file : ℕ) : Prop :=
  thread.call.appends = false ∧ ∀ digest hashed, thread.call = .commit digest hashed →
    hashing.verified (volume.disk.content file) digest = true

def Phase.Sound (hashing : Hashing Byte) (thread : Thread Byte) (volume : Volume Byte)
    (file : ℕ) : Phase Byte → Prop
  | .locked => True
  | .statted links => links = 1 → volume.Lone thread.session file
  | .checked => thread.Named volume file ∧
      (thread.call.appends = true → volume.Lone thread.session file)
  | .copying base read written => thread.Named volume file ∧ thread.call.appends = true ∧
      volume.Lone thread.session file ∧ base ≤ (volume.disk.content file).length ∧
      (volume.disk.content file).drop base = read.take written ∧ written ≤ read.length
  | .cutting base _ => thread.Named volume file ∧ thread.call.appends = true ∧
      volume.Lone thread.session file ∧ base ≤ (volume.disk.content file).length
  | .hashing read => thread.Named volume file ∧ thread.call.appends = false ∧
      read <+: volume.disk.content file
  | .verified => thread.Named volume file ∧ thread.Vouched hashing volume file
  | .linking => thread.Named volume file ∧ thread.Vouched hashing volume file
  | .comparing => thread.Named volume file ∧ thread.Vouched hashing volume file
  | .replacing => thread.Named volume file ∧ thread.Vouched hashing volume file
  | .staged temp => thread.Named volume file ∧ thread.Vouched hashing volume file ∧
      volume.minted (thread.tempPath temp) = some file
  | .moving temp => thread.Named volume file ∧ thread.Vouched hashing volume file ∧
      volume.minted (thread.tempPath temp) = some file
  | .removing => thread.Named volume file ∧ thread.call.appends = false
  | .closing _ _ => True

def Stage.file : Stage Byte → Option ℕ
  | .waiting file => some file
  | .holding file _ => some file
  | _ => none

structure Thread.Sound (hashing : Hashing Byte) (volume : Volume Byte) (tid : ℕ)
    (thread : Thread Byte) : Prop where
  file : ∀ {file}, thread.stage.file = some file → volume.minted thread.path = some file
  flock : ∀ {file phase}, thread.stage = .holding file phase → volume.flock file = some tid
  phase : ∀ {file phase}, thread.stage = .holding file phase →
    phase.Sound hashing thread volume file

theorem Thread.Sound.of_no_file (hfile : thread.stage.file = none) :
    thread.Sound hashing volume tid where
  file := by
    intro file hsome
    rw [hfile] at hsome
    cases hsome
  flock := by
    intro file phase hstage
    rw [hstage] at hfile
    cases hfile
  phase := by
    intro file phase hstage
    rw [hstage] at hfile
    cases hfile

theorem Phase.Sound.frame {after : Volume Byte} {file : ℕ}
    (hsound : phase.Sound hashing thread volume file) (hframe : volume.Frame tid after)
    (hminted : ∀ path file, volume.minted path = some file → after.minted path = some file)
    (hlocked : volume.flock file = some tid) (hlt : file < volume.nextInode) :
    phase.Sound hashing thread after file := by
  have hcontent := hframe.content hlocked hlt
  have hnamed : thread.Named volume file → thread.Named after file :=
    fun hnamed => hframe.named hlocked hnamed
  have hlone : volume.Lone thread.session file → after.Lone thread.session file :=
    hframe.lone hlocked hlt
  have hvouched : thread.Vouched hashing volume file → thread.Vouched hashing after file := by
    rintro ⟨happends, hvouched⟩
    refine ⟨happends, ?_⟩
    rw [hcontent]
    exact hvouched
  cases phase with
  | locked => trivial
  | statted links => exact fun hlinks => hlone (hsound hlinks)
  | checked => exact ⟨hnamed hsound.1, fun happends => hlone (hsound.2 happends)⟩
  | copying base read written | cutting base written =>
    obtain ⟨hold, happends, honly, hrest⟩ := hsound
    refine ⟨hnamed hold, happends, hlone honly, ?_⟩
    rw [hcontent]
    exact hrest
  | hashing read =>
    refine ⟨hnamed hsound.1, hsound.2.1, ?_⟩
    rw [hcontent]
    exact hsound.2.2
  | verified | linking | comparing | replacing => exact ⟨hnamed hsound.1, hvouched hsound.2⟩
  | staged temp
  | moving temp => exact ⟨hnamed hsound.1, hvouched hsound.2.1, hminted _ _ hsound.2.2⟩
  | removing => exact ⟨hnamed hsound.1, hsound.2⟩
  | closing newLen ok => trivial

theorem Thread.Sound.frame {after : Volume Byte} (hsound : thread.Sound hashing volume tid)
    (hnames : volume.Names) (hframe : volume.Frame tid after)
    (hminted : ∀ path file, volume.minted path = some file → after.minted path = some file) :
    thread.Sound hashing after tid where
  file := fun hfile => hminted _ _ (hsound.file hfile)
  flock := fun hstage => hframe.flock (hsound.flock hstage)
  phase := by
    intro file phase hstage
    have hfile : thread.stage.file = some file := by
      rw [hstage]
      rfl
    exact (hsound.phase hstage).frame hframe hminted (hsound.flock hstage)
      (hnames.minted_lt (hsound.file hfile))

theorem Takes.mints (htakes : Takes hashing volume tid thread stage move) :
    move.effect.Mints volume := by
  cases htakes with
  | link hcall => rfl
  | linkTemp hminted => exact ⟨rfl, hminted⟩
  | rename hcall => rfl
  | _ => trivial

theorem Takes.spares {other : ℕ} (htakes : Takes hashing volume tid thread thread.stage move)
    (hsound : thread.Sound hashing volume tid) (hother : other ≠ tid) :
    move.effect.Spares volume other := by
  -- The only file the thread touches is the one it has locked.
  have hmine : ∀ {file phase}, thread.stage = .holding file phase →
      volume.flock file ≠ some other := by
    intro file phase hstage hlocked
    rw [hsound.flock hstage, some.injEq] at hlocked
    exact hother hlocked.symm
  have hpath : ∀ {file phase}, thread.stage = .holding file phase → thread.Named volume file →
      ∀ found, volume.disk.inode thread.path = some found → volume.flock found ≠ some other := by
    intro file phase hstage hnamed found hfound
    rw [hnamed, some.injEq] at hfound
    exact hfound ▸ hmine hstage
  generalize hstage : thread.stage = stage at htakes
  cases htakes with
  | flock hfree => exact hfree
  | write hbytes | cut => exact hmine hstage
  | link hcall | linkTemp hminted =>
    have hnamed := (hsound.phase hstage).1
    exact ⟨rfl, fun found hfound hlocked => absurd hlocked (hpath hstage hnamed found hfound)⟩
  | rename hcall => exact ⟨rfl, rfl, fun _ _ _ => rfl⟩
  | remove => exact fun found _ hfound => hpath hstage (hsound.phase hstage).1 found hfound
  | close => exact hmine hstage
  | _ => trivial

def Thread.at (thread : Thread Byte) (stage : Stage Byte) : Thread Byte :=
  { thread with stage := stage }

theorem Call.pass_sound {links file : ℕ} {idle : Bool}
    (hpass : thread.call.pass links idle = some phase) (hnamed : thread.Named volume file)
    (hlinks : links = 1 → volume.Lone thread.session file) :
    phase.Sound hashing (thread.at (.holding file phase)) volume file := by
  cases hcall : thread.call with
  | append offset limit =>
    simp only [hcall, Call.pass] at hpass
    split at hpass
    case isFalse => cases hpass
    rename_i hone
    cases hpass
    exact ⟨hnamed, fun _ => hlinks hone⟩
  | commit digest hashed =>
    simp only [hcall, Call.pass] at hpass
    cases hpass
    refine ⟨hnamed, fun happends => ?_⟩
    simp [Thread.at, hcall, Call.appends] at happends
  | cancel =>
    simp only [hcall, Call.pass] at hpass
    cases hpass
    refine ⟨hnamed, ?_⟩
    simp [Thread.at, hcall, Call.appends]
  | reap =>
    simp only [hcall, Call.pass] at hpass
    split at hpass
    · cases hpass
      refine ⟨hnamed, ?_⟩
      simp [Thread.at, hcall, Call.appends]
    · cases hpass

theorem Phase.failed_eq {failed : Phase Byte} (hfailed : phase.failed = some failed) :
    ∃ newLen, failed = .closing newLen false := by
  cases phase <;> cases hfailed <;> exact ⟨_, rfl⟩

theorem Call.returns_file (call : Call) (newLen : ℕ) (ok : Bool) :
    (call.returns newLen ok : Stage Byte).file = none := by
  cases call <;> rfl

theorem Thread.Sound.hold {file : ℕ} (hminted : volume.minted thread.path = some file)
    (hflock : volume.flock file = some tid)
    (hphase : phase.Sound hashing (thread.at (.holding file phase)) volume file) :
    (thread.at (.holding file phase)).Sound hashing volume tid where
  file := by
    intro other hother
    cases hother
    exact hminted
  flock := by
    intro other any hstage
    cases hstage
    exact hflock
  phase := by
    intro other any hstage
    cases hstage
    exact hphase

theorem copied_write {content read bytes : List Byte} {base written count : ℕ}
    (hbase : base ≤ content.length) (hcopied : content.drop base = read.take written)
    (hwritten : written ≤ read.length) (hbytes : bytes = (read.drop written).take count) :
    base ≤ (content ++ bytes).length ∧
      (content ++ bytes).drop base = read.take (written + bytes.length) ∧
      written + bytes.length ≤ read.length := by
  have hlength : bytes.length ≤ read.length - written := by
    rw [hbytes, length_take, length_drop]
    exact min_le_right _ _
  refine ⟨?_, ?_, by omega⟩
  · rw [length_append]
    omega
  · rw [drop_append_of_le_length hbase, hcopied, take_add]
    congr 1
    rw [hbytes, length_take, take_eq_take_iff]
    omega

theorem verified_of_trusts {file : ℕ} {digest : Digest} {hashed : Option ℕ}
    (htrusts : trusts hashed (volume.disk.content file).length (volume.disk.nlink file) = true)
    (hfast : ∀ n, hashed = some n →
      hashing.verified ((volume.disk.content file).take n) digest = true) :
    hashing.verified (volume.disk.content file) digest = true := by
  have hsize : hashed = some (volume.disk.content file).length := by
    simp only [trusts, Bool.and_eq_true, decide_eq_true_eq] at htrusts
    exact htrusts.1
  have hfront := hfast _ hsize
  rwa [take_length] at hfront

/-- A thread's own step keeps what it knows.  `hfast` is what a commit relies on when it
does not read the file again. -/
theorem Takes.sound (htakes : Takes hashing volume tid thread thread.stage move)
    (hsound : thread.Sound hashing volume tid) (hnames : volume.Names)
    (hfast : ∀ digest n file, thread.call = .commit digest (some n) →
      volume.minted thread.path = some file →
      hashing.verified ((volume.disk.content file).take n) digest = true) :
    (thread.at move.stage).Sound hashing (volume.apply move.effect) tid := by
  have hfile : ∀ {file phase}, thread.stage = .holding file phase →
      volume.minted thread.path = some file := by
    intro file phase hstage
    apply hsound.file
    rw [hstage]
    rfl
  have hmints := htakes.mints
  generalize hstage : thread.stage = stage at htakes
  cases htakes with
  | openFile hnamed =>
    refine ⟨?_, by rintro file phase ⟨⟩, by rintro file phase ⟨⟩⟩
    rintro file ⟨⟩
    exact hnames.named_minted hnamed rfl
  | notOpened => exact .of_no_file (Call.returns_file ..)
  | flock hfree =>
    refine .hold (hsound.file (by rw [hstage]; rfl)) ?_ trivial
    simp [Volume.apply]
  | notLocked => exact .of_no_file (Call.returns_file ..)
  | stat =>
    refine .hold (hfile hstage) (hsound.flock hstage) ?_
    intro hlinks hnamed
    exact Disk.sole_of_nlink hnamed hlinks
  | lstat hnamed hpass =>
    exact .hold (hfile hstage) (hsound.flock hstage)
      (Call.pass_sound hpass hnamed (hsound.phase hstage))
  | mismatch hcall => exact .hold (hfile hstage) (hsound.flock hstage) trivial
  | start hcall =>
    obtain ⟨hnamed, hlone⟩ := hsound.phase hstage
    have happends : thread.call.appends = true := by
      rw [hcall]
      rfl
    refine .hold (hfile hstage) (hsound.flock hstage)
      ⟨hnamed, happends, hlone happends, le_rfl, ?_, le_rfl⟩
    simp [Volume.apply, Move.quiet]
  | receive =>
    obtain ⟨hnamed, happends, hlone, hbase, hcopied, _⟩ := hsound.phase hstage
    refine .hold (hfile hstage) (hsound.flock hstage) ⟨hnamed, happends, hlone, hbase, ?_, ?_⟩
    · rw [take_left]
      simpa [Volume.apply] using hcopied
    · simp
  | write hbytes =>
    obtain ⟨hnamed, happends, hlone, hbase, hcopied, hwritten⟩ := hsound.phase hstage
    refine .hold (hfile hstage) (hsound.flock hstage) ⟨hnamed, happends, hlone, ?_⟩
    simp only [Volume.apply, Disk.write_content_self]
    exact copied_write hbase hcopied hwritten hbytes
  | finish => exact .hold (hfile hstage) (hsound.flock hstage) trivial
  | probe =>
    obtain ⟨hnamed, happends, hlone, hbase, _⟩ := hsound.phase hstage
    exact .hold (hfile hstage) (hsound.flock hstage) ⟨hnamed, happends, hlone, hbase⟩
  | cut => exact .hold (hfile hstage) (hsound.flock hstage) trivial
  | trust hcall htrusts =>
    refine .hold (hfile hstage) (hsound.flock hstage) ⟨(hsound.phase hstage).1, hcall ▸ rfl, ?_⟩
    intro digest hashed hother
    cases hcall.symm.trans hother
    exact verified_of_trusts htrusts fun n hn =>
      hfast _ n _ (hn ▸ hcall) (hfile hstage)
  | reread hcall =>
    exact .hold (hfile hstage) (hsound.flock hstage)
      ⟨(hsound.phase hstage).1, hcall ▸ rfl, nil_prefix⟩
  | hash =>
    obtain ⟨hnamed, happends, rest, hrest⟩ := hsound.phase hstage
    refine .hold (hfile hstage) (hsound.flock hstage) ⟨hnamed, happends, ?_⟩
    simp only [Volume.apply, Move.quiet, ← hrest, drop_left]
    exact (prefix_append_right_inj _).2 ( take_prefix _ _)
  | verify hcall hall hverified =>
    obtain ⟨hnamed, happends, hfront⟩ := hsound.phase hstage
    refine .hold (hfile hstage) (hsound.flock hstage) ⟨hnamed, happends, ?_⟩
    intro digest hashed hother
    cases hcall.symm.trans hother
    rw [hfront.eq_of_length_le hall] at hverified
    exact hverified
  | refuse => exact .hold (hfile hstage) (hsound.flock hstage) trivial
  | recheck => exact .hold (hfile hstage) (hsound.flock hstage) (hsound.phase hstage)
  | link hcall =>
    obtain ⟨hnamed, hvouched⟩ := hsound.phase hstage
    refine .hold (hfile hstage) (hsound.flock hstage)
      ⟨Disk.link_inode_of_some hnamed, hvouched.1, ?_⟩
    simp only [Volume.apply, Disk.link_content]
    exact hvouched.2
  | keep =>
    obtain ⟨hnamed, hvouched⟩ := hsound.phase hstage
    exact .hold (hfile hstage) (hsound.flock hstage) ⟨hnamed, hvouched.1⟩
  | differ => exact .hold (hfile hstage) (hsound.flock hstage) (hsound.phase hstage)
  | linkTemp hminted =>
    obtain ⟨hnamed, hvouched⟩ := hsound.phase hstage
    refine .hold (minted_apply hmints (hfile hstage))
      (hsound.flock hstage) ⟨Disk.link_inode_of_some hnamed, ⟨hvouched.1, ?_⟩, ?_⟩
    · simp only [Volume.apply, Disk.link_content]
      exact hvouched.2
    · simp only [Volume.apply, Thread.tempPath, Thread.at, Function.update_self]
      exact hnamed
  | checkTemp => exact .hold (hfile hstage) (hsound.flock hstage) (hsound.phase hstage)
  | rename hcall =>
    obtain ⟨hnamed, hvouched, _⟩ := hsound.phase hstage
    refine .hold (hfile hstage) (hsound.flock hstage) ⟨?_, hvouched.1⟩
    exact (Disk.rename_inode_of_ne (upload_ne_of_isUpload rfl)
      (upload_ne_of_isUpload rfl)).trans hnamed
  | remove => exact .hold (hfile hstage) (hsound.flock hstage) trivial
  | close => exact .of_no_file (Call.returns_file ..)
  | fail hfailed =>
    obtain ⟨newLen, rfl⟩ := Phase.failed_eq hfailed
    exact .hold (hfile hstage) (hsound.flock hstage) trivial

/-! ## Writing and publishing -/

def Stage.writer : Stage Byte → Option (ℕ × ℕ)
  | .holding file (.copying base _ _) => some (file, base)
  | .holding file (.cutting base _) => some (file, base)
  | _ => none

theorem Takes.sole_of_writes {file : ℕ} (htakes : Takes hashing volume tid thread thread.stage move)
    (hsound : thread.Sound hashing volume tid) (hwrites : move.effect.writes = some file) :
    volume.disk.Sole thread.path file := by
  generalize hstage : thread.stage = stage at htakes
  cases htakes with
  | write hbytes | cut =>
    cases hwrites
    obtain ⟨hnamed, _, hlone, _⟩ := hsound.phase hstage
    exact hlone hnamed
  | _ => cases hwrites

/-- A name under blobs/ that a thread's step makes is its commit's, and the file it is for
has the digest. -/
theorem Takes.published {repo : String} {digest : Digest} {file : ℕ}
    (htakes : Takes hashing volume tid thread thread.stage move)
    (hsound : thread.Sound hashing volume tid) (hnames : volume.Names)
    (hbefore : volume.disk.inode (.blob repo digest) ≠ some file)
    (hafter : (volume.apply move.effect).disk.inode (.blob repo digest) = some file) :
    repo = thread.session.repo ∧ (∃ hashed, thread.call = .commit digest hashed) ∧
      hashing.verified ((volume.apply move.effect).disk.content file) digest = true := by
  generalize hstage : thread.stage = stage at htakes
  cases htakes with
  | link hcall =>
    obtain ⟨hnamed, hvouched⟩ := hsound.phase hstage
    rcases Disk.inode_of_link hafter with hold | ⟨heq, _, hsource⟩
    · exact absurd hold hbefore
    cases heq
    rw [hnamed] at hsource
    cases hsource
    refine ⟨rfl, ⟨_, hcall⟩, ?_⟩
    simp only [Volume.apply, Disk.link_content]
    exact hvouched.2 _ _ hcall
  | linkTemp hminted =>
    rcases Disk.inode_of_link hafter with hold | ⟨heq, _⟩
    · exact absurd hold hbefore
    · cases heq
  | rename hcall =>
    obtain ⟨_, hvouched, hminted⟩ := hsound.phase hstage
    rcases Disk.inode_of_rename hafter with hold | ⟨heq, hsource⟩
    · exact absurd hold hbefore
    cases heq
    -- The temp name was made for this file and never for another.
    rw [hnames.named_minted hsource rfl] at hminted
    cases hminted
    refine ⟨rfl, ⟨_, hcall⟩, ?_⟩
    simp only [Volume.apply, Disk.rename_content]
    exact hvouched.2 _ _ hcall
  | remove =>
    exact absurd (Disk.inode_of_unlink hafter) hbefore
  | _ => exact absurd hafter hbefore

theorem Takes.content_cases {file : ℕ}
    (htakes : Takes hashing volume tid thread stage move) (hlt : file < volume.nextInode) :
    (∃ bytes, (volume.apply move.effect).disk.content file = volume.disk.content file ++ bytes) ∨
      ∃ base, stage.writer = some (file, base) ∧
        (volume.apply move.effect).disk.content file = (volume.disk.content file).take base := by
  by_cases hwrites : move.effect.writes = some file
  · cases htakes with
    | write hbytes =>
      cases hwrites
      exact .inl ⟨_, Disk.write_content_self ..⟩
    | cut =>
      cases hwrites
      exact .inr ⟨_, rfl, Disk.truncate_content_self ..⟩
    | _ => cases hwrites
  · refine .inl ⟨[], ?_⟩
    rw [append_nil, apply_content hwrites hlt]

theorem Call.returns_writer (call : Call) (newLen : ℕ) (ok : Bool) :
    (call.returns newLen ok : Stage Byte).writer = none := by
  cases call <;> rfl

theorem Call.pass_writer {call : Call} {links file : ℕ} {idle : Bool}
    (hpass : call.pass links idle = some phase) : (Stage.holding file phase).writer = none := by
  revert hpass
  fun_cases Call.pass call links idle
  all_goals
    intro hpass
    cases hpass
  all_goals rfl

/-- A thread that writes a file after its step did so before, from the same length, or
starts at the length the file has. -/
theorem Takes.writer_cases {file base : ℕ} (htakes : Takes hashing volume tid thread stage move)
    (hwriter : move.stage.writer = some (file, base)) :
    stage.writer = some (file, base) ∨ base = (volume.disk.content file).length := by
  cases htakes with
  | start hcall =>
    cases hwriter
    exact .inr rfl
  | receive | write hbytes | probe => exact .inl hwriter
  | notOpened | notLocked =>
    simp only [Move.quiet, Call.returns_writer] at hwriter
    cases hwriter
  | close =>
    simp only [Call.returns_writer] at hwriter
    cases hwriter
  | lstat hnamed hpass =>
    simp only [Move.quiet, Call.pass_writer hpass] at hwriter
    cases hwriter
  | fail hfailed =>
    obtain ⟨newLen, rfl⟩ := Phase.failed_eq hfailed
    cases hwriter
  | _ => cases hwriter

end K3sm.Registry.Upload
