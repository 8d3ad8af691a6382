import K3sm.Registry.UploadStep

/-!
# What a commit publishes

Over every run of the upload system: a file that has a name under blobs/ keeps its bytes, a
commit puts there only bytes of its digest, and the streamed hash of a session is the hash
of the file it stands for, so that trusting it decides a commit as reading the file would.
-/

namespace K3sm.Registry.Upload

open K3sm.Core Option

variable {Byte : Type} {hashing : Hashing Byte} {start world after : World Byte}

/-- A store at rest: no process runs, and every session file is its own. -/
structure World.Resting (world : World Byte) : Prop where
  names : world.volume.Names
  threads : ∀ tid, world.threads tid = none
  entries : ∀ key, world.entries key = none
  table : ∀ proc session, world.table proc session = none

theorem World.Resting.inv (hrest : world.Resting) : Inv hashing world where
  names := hrest.names
  sound := by
    intro tid thread hthread
    rw [hrest.threads] at hthread
    cases hthread
  hashed := by
    intro tid thread hthread
    rw [hrest.threads] at hthread
    cases hthread
  held := by
    intro tid thread hthread
    rw [hrest.threads] at hthread
    cases hthread
  entry := by
    intro key entry hentry
    rw [hrest.entries] at hentry
    cases hentry
  entry_lt := by
    intro key entry hentry
    rw [hrest.entries] at hentry
    cases hentry
  table := by
    intro proc session key hkey
    rw [hrest.table] at hkey
    cases hkey

def Step (hashing : Hashing Byte) (before : World Byte) (op : Op Byte) (after : World Byte) :
    Prop :=
  before.next hashing op = some after

theorem inv_of_run {ops : List (Op Byte)} (hrest : start.Resting)
    (hrun : Run (Step hashing) start ops world) : Inv hashing world :=
  hrun.invariant hrest.inv fun _ _ _ hinv hnext => hinv.next hnext

/-- A blob path leads to the file. -/
def World.Published (world : World Byte) (file : ℕ) : Prop :=
  ∃ repo digest, world.volume.disk.inode (.blob repo digest) = some file

theorem next_content {op : Op Byte} {file : ℕ} (hnext : world.next hashing op = some after)
    (hlt : file < world.volume.nextInode) (hop : ∀ tid action, op ≠ .act tid action) :
    after.content file = world.content file := by
  cases op with
  | act tid action => exact absurd rfl (hop tid action)
  | spawn tid proc session =>
    simp only [World.next] at hnext
    split at hnext <;> cases hnext
    rfl
  | newUpload tid tracked =>
    obtain ⟨thread, _, hnew⟩ := bind_eq_some_iff.1 hnext
    simp only [World.newUpload] at hnew
    split at hnew
    · split at hnew <;> cases hnew <;> exact apply_content (fun hfalse => by cases hfalse) hlt
    · cases hnew
  | bind tid =>
    obtain ⟨thread, _, hbind⟩ := bind_eq_some_iff.1 hnext
    simp only [World.bind] at hbind
    split at hbind <;> cases hbind
    rfl
  | acquire tid =>
    obtain ⟨thread, _, hacquire⟩ := bind_eq_some_iff.1 hnext
    simp only [World.acquire] at hacquire
    split at hacquire
    · split at hacquire <;> cases hacquire <;> rfl
    · cases hacquire
  | lockEntry tid =>
    obtain ⟨thread, _, hlock⟩ := bind_eq_some_iff.1 hnext
    simp only [World.lockEntry] at hlock
    repeat' split at hlock
    all_goals cases hlock
    rfl
  | release tid =>
    obtain ⟨thread, _, hrelease⟩ := bind_eq_some_iff.1 hnext
    simp only [World.release] at hrelease
    repeat' split at hrelease
    all_goals cases hrelease
    rfl
  | call tid request =>
    obtain ⟨thread, _, hcall⟩ := bind_eq_some_iff.1 hnext
    simp only [World.startCall] at hcall
    repeat' split at hcall
    all_goals cases hcall
    all_goals simp [World.content, World.setThread]
  | settle tid =>
    obtain ⟨thread, _, hsettle⟩ := bind_eq_some_iff.1 hnext
    simp only [World.settle] at hsettle
    split at hsettle <;> cases hsettle
    simp [World.content, World.setThread]
  | mountReplace source repo digest =>
    simp only [World.next, World.mountReplace] at hnext
    repeat' split at hnext
    all_goals cases hnext
    rfl
  | mount source repo digest =>
    cases hnext
    exact apply_content (fun hfalse => by cases hfalse) hlt
  | forget proc session | removeBlob repo digest | removeTemp repo id | stop proc =>
    cases hnext
    rfl

theorem Inv.published_content {op : Op Byte} {file : ℕ} (hinv : Inv hashing world)
    (hnext : world.next hashing op = some after) (hpublished : world.Published file) :
    after.content file = world.content file := by
  obtain ⟨repo, digest, hblob⟩ := hpublished
  have hlt := hinv.names.named_lt hblob
  by_cases hop : ∃ tid action, op = .act tid action
  · obtain ⟨tid, action, rfl⟩ := hop
    obtain ⟨thread, hthread, hact⟩ := bind_eq_some_iff.1 hnext
    obtain ⟨move, hmove, rfl⟩ := map_eq_some_iff.1 hact
    have htakes := takes_of_move hmove
    rw [World.content, World.perform_volume]
    refine apply_content ?_ hlt
    intro hwrites
    -- The only name of a file an append writes is a session's.
    have hsole := htakes.sole_of_writes (hinv.sound tid thread hthread) hwrites
    cases hsole _ hblob
  · exact next_content hnext hlt fun tid action heq => hop ⟨tid, action, heq⟩

theorem Inv.linked {tid : ℕ} {action : Action Byte} {thread : Thread Byte} {repo : String}
    {digest : Digest} {file : ℕ} (hinv : Inv hashing world)
    (hnext : world.next hashing (.act tid action) = some after)
    (hthread : world.threads tid = some thread)
    (hbefore : world.volume.disk.inode (.blob repo digest) ≠ some file)
    (hafter : after.volume.disk.inode (.blob repo digest) = some file) :
    repo = thread.session.repo ∧ (∃ hashed, thread.call = .commit digest hashed) ∧
      hashing.verified (after.content file) digest = true := by
  obtain ⟨same, hsame, hact⟩ := bind_eq_some_iff.1 hnext
  rw [hthread, Option.some.injEq] at hsame
  subst hsame
  obtain ⟨move, hmove, rfl⟩ := map_eq_some_iff.1 hact
  rw [World.perform_volume] at hafter
  rw [World.content, World.perform_volume]
  exact (takes_of_move hmove).published (hinv.sound tid thread hthread) hinv.names hbefore hafter

/-- No step changes a byte of a published file, and every name under blobs/ that is made is
one its commit asked for, of a file whose bytes are the digest's. -/
theorem published_immutable_of_run {ops : List (Op Byte)} {op : Op Byte} (hrest : start.Resting)
    (hrun : Run (Step hashing) start ops world) (hnext : Step hashing world op after) :
    (∀ file, world.Published file → after.content file = world.content file) ∧
      ∀ tid action thread repo digest file, op = .act tid action → world.threads tid = some thread →
        world.volume.disk.inode (.blob repo digest) ≠ some file →
        after.volume.disk.inode (.blob repo digest) = some file →
        repo = thread.session.repo ∧ (∃ hashed, thread.call = .commit digest hashed) ∧
          hashing.verified (after.content file) digest = true := by
  have hinv := inv_of_run hrest hrun
  refine ⟨fun file hpublished => hinv.published_content hnext hpublished, ?_⟩
  rintro tid action thread repo digest file rfl hthread hbefore hafter
  exact hinv.linked hnext hthread hbefore hafter

/-! A run: a session of two bytes, committed by the hash that was streamed with them. -/

def demoHashing : Hashing ℕ where
  sha256 := fun bytes => bytes.foldl (fun sum byte => 10 * sum + byte) 1
  sha512 := fun bytes => bytes.foldl (fun sum byte => 10 * sum + byte) 2

def emptyVolume : Volume ℕ := ⟨.empty, 0, fun _ => none, fun _ => none⟩

def emptyWorld : World ℕ := ⟨emptyVolume, fun _ => none, fun _ => none, 0, fun _ _ => none⟩

theorem emptyWorld_resting : emptyWorld.Resting where
  names := ⟨nofun, nofun, nofun, nofun⟩
  threads := fun _ => rfl
  entries := fun _ => rfl
  table := fun _ _ => rfl

def demoOps : List (Op ℕ) :=
  [.spawn 0 0 ⟨"app", "u"⟩, .newUpload 0 true, .bind 0, .call 0 (.append 0 (-1)),
    .act 0 .openFile, .act 0 .flock, .act 0 .stat, .act 0 (.lstat false), .act 0 .size,
    .act 0 (.receive [3, 4]), .act 0 (.write 2), .act 0 .finish, .act 0 .close, .settle 0,
    .call 0 (.commit (.sha256 134)), .act 0 .openFile, .act 0 .flock, .act 0 .stat,
    .act 0 (.lstat false), .act 0 .decide, .act 0 .recheck]

theorem demo_published_immutable : ∃ world after,
    Run (Step demoHashing) emptyWorld demoOps world ∧ Step demoHashing world (.act 0 .link) after ∧
      after.volume.disk.inode (.blob "app" (.sha256 134)) = some 0 ∧
      after.content 0 = [3, 4] ∧ demoHashing.verified (after.content 0) (.sha256 134) = true := by
  have hends : (demoOps.foldlM (fun before => World.next before demoHashing) emptyWorld).map
    (fun world =>
      ((world.threads 0).map fun thread => thread.session.repo,
        world.volume.disk.inode (.blob "app" (.sha256 134)),
        (world.next demoHashing (.act 0 .link)).map fun after =>
          (after.volume.disk.inode (.blob "app" (.sha256 134)), after.content 0))) =
      some (some "app", none, some (some 0, [3, 4])) := by
    rfl
  obtain ⟨world, hfold, hstate⟩ := map_eq_some_iff.1 hends
  simp only [Prod.mk.injEq] at hstate
  obtain ⟨hrepo, hbefore, hlast⟩ := hstate
  obtain ⟨thread, hthread, _⟩ := map_eq_some_iff.1 hrepo
  obtain ⟨after, hnext, hafter⟩ := map_eq_some_iff.1 hlast
  simp only [Prod.mk.injEq] at hafter
  have hrun : Run (Step demoHashing) emptyWorld demoOps world := run_of_foldlM hfold
  refine ⟨world, after, hrun, hnext, hafter.1, hafter.2, ?_⟩
  exact ((published_immutable_of_run emptyWorld_resting hrun hnext).2 0 .link thread "app"
    (.sha256 134) 0 rfl hthread (by rw [hbefore]; nofun) hafter.1).2.2

/-! ## The streamed hash -/

/-- The holder of the entry is appending to it. -/
def World.Feeding (world : World Byte) (entry : Entry Byte) : Prop :=
  ∃ tid thread, entry.holder = some tid ∧ world.threads tid = some thread ∧
    thread.call.appends = true ∧ thread.stage ≠ .idle

/-! ### The decision of a commit

From the check on, a commit decides by three kinds of steps: it weighs the streamed hash, reads
the file, and compares.  None of them changes the volume. -/

/-- What `commitUpload` comes to on the file it has locked and checked: it trusts a hash
that covers the whole of an unshared file, and reads the file otherwise. -/
def Volume.commitAccepts (hashing : Hashing Byte) (volume : Volume Byte) (file : ℕ)
    (digest : Digest) (hashed : Option ℕ) : Bool :=
  trusts hashed (volume.disk.content file).length (volume.disk.nlink file) ||
    hashing.verified (volume.disk.content file) digest

inductive Action.Decides : Action Byte → Prop
  | decide : Action.Decides .decide
  | hash (count : ℕ) : Action.Decides (.hash count)
  | verify : Action.Decides .verify

/-- The commit that a thread is in comes to accept its digest by its own steps. -/
def World.Accepts (hashing : Hashing Byte) (world : World Byte) (tid file : ℕ) : Prop :=
  ∃ ops later thread, (∀ op ∈ ops, ∃ action, action.Decides ∧ op = .act tid action) ∧
    Run (Step hashing) world ops later ∧ later.threads tid = some thread ∧
    thread.stage = .holding file .verified

/-- Where a decision stands, on a file that is as it was. -/
inductive Decision (hashing : Hashing Byte) (volume : Volume Byte) (file : ℕ) (digest : Digest)
    (hashed : Option ℕ) : Stage Byte → Prop
  | begun : Decision hashing volume file digest hashed (.holding file .checked)
  | reading {read : List Byte} (hsofar : read <+: volume.disk.content file) :
      Decision hashing volume file digest hashed (.holding file (.hashing read))
  | accepted (haccepts : volume.commitAccepts hashing file digest hashed = true) :
      Decision hashing volume file digest hashed (.holding file .verified)
  | refused : Decision hashing volume file digest hashed (.holding file (.closing 0 false))

/-- What holds after some of the steps of a decision. -/
structure Deciding (hashing : Hashing Byte) (volume : Volume Byte) (tid file : ℕ)
    (thread : Thread Byte) (digest : Digest) (hashed : Option ℕ) (later : World Byte) : Prop where
  unchanged : later.volume = volume
  stage : ∃ stage, later.threads tid = some (thread.at stage) ∧
    Decision hashing volume file digest hashed stage

section Decision

variable {tid file : ℕ} {thread : Thread Byte} {digest : Digest} {hashed : Option ℕ}
  {volume : Volume Byte}

theorem Decision.move {action : Action Byte} {move : Move Byte} {stage : Stage Byte}
    (hdecision : Decision hashing volume file digest hashed stage)
    (hcall : thread.call = .commit digest hashed) (hdecides : action.Decides)
    (hmove : (thread.at stage).move tid volume hashing action = some move) :
    ∃ next, move = .quiet next ∧ Decision hashing volume file digest hashed next := by
  cases hdecision with
  | begun =>
    cases hdecides with
    | decide =>
      simp only [Thread.move, Thread.at, Thread.holding, hcall] at hmove
      split at hmove
      case isTrue htrusts =>
        cases hmove
        exact ⟨_, rfl, .accepted (by simp [Volume.commitAccepts, htrusts])⟩
      case isFalse =>
        cases hmove
        exact ⟨_, rfl, .reading List.nil_prefix⟩
    | hash count | verify => cases hmove
  | reading hsofar =>
    cases hdecides with
    | decide => cases hmove
    | hash count =>
      cases hmove
      refine ⟨_, rfl, .reading ?_⟩
      obtain ⟨rest, hrest⟩ := hsofar
      rw [← hrest, List.drop_left]
      exact (List.prefix_append_right_inj _).2 (List.take_prefix _ _)
    | verify =>
      simp only [Thread.move, Thread.at, Thread.holding, hcall] at hmove
      split at hmove
      case isFalse => cases hmove
      rename_i hall
      rw [hsofar.eq_of_length_le hall] at hmove
      split at hmove
      case isTrue hverified =>
        cases hmove
        exact ⟨_, rfl, .accepted (by simp [Volume.commitAccepts, hverified])⟩
      case isFalse =>
        cases hmove
        exact ⟨_, rfl, .refused⟩
  | accepted haccepts => cases hdecides <;> cases hmove
  | refused => cases hdecides <;> cases hmove

theorem Deciding.next {action : Action Byte} {before after : World Byte}
    (hdeciding : Deciding hashing volume tid file thread digest hashed before)
    (hcall : thread.call = .commit digest hashed) (hdecides : action.Decides)
    (hnext : Step hashing before (.act tid action) after) :
    Deciding hashing volume tid file thread digest hashed after := by
  obtain ⟨hvolume, stage, hthread, hdecision⟩ := hdeciding
  obtain ⟨same, hsame, hact⟩ := bind_eq_some_iff.1 hnext
  rw [hthread, Option.some.injEq] at hsame
  subst hsame
  obtain ⟨move, hmove, rfl⟩ := map_eq_some_iff.1 hact
  rw [hvolume] at hmove
  obtain ⟨next, rfl, hdecision⟩ := hdecision.move hcall hdecides hmove
  refine ⟨by rw [World.perform_volume]; exact hvolume, next, ?_, hdecision⟩
  rw [World.perform_self]
  rfl

theorem deciding_of_run {ops : List (Op Byte)} {later : World Byte}
    (hthread : world.threads tid = some thread) (hstage : thread.stage = .holding file .checked)
    (hcall : thread.call = .commit digest hashed)
    (hops : ∀ op ∈ ops, ∃ action, action.Decides ∧ op = .act tid action)
    (hrun : Run (Step hashing) world ops later) :
    Deciding hashing world.volume tid file thread digest hashed later := by
  induction hrun with
  | refl =>
    have hsame : thread.at (.holding file .checked) = thread := by rw [← hstage]; rfl
    exact ⟨rfl, _, by rw [hsame]; exact hthread, .begun⟩
  | tail _ hnext ih =>
    obtain ⟨action, hdecides, rfl⟩ := hops _ (List.mem_append_right _ List.mem_cons_self)
    exact (ih fun op hop => hops op (List.mem_append_left _ hop)).next hcall hdecides hnext

theorem step_act {before : World Byte} {action : Action Byte} {move : Move Byte}
    (hthread : before.threads tid = some thread)
    (hmove : thread.move tid before.volume hashing action = some move) :
    Step hashing before (.act tid action) (before.perform tid thread move) := by
  simp only [Step, World.next, hthread, Option.bind_some, hmove, Option.map_some]

theorem World.Accepts.head {before after : World Byte} {action : Action Byte}
    (htaken : Step hashing before (.act tid action) after) (hdecides : action.Decides)
    (haccepts : after.Accepts hashing tid file) : before.Accepts hashing tid file := by
  obtain ⟨ops, later, other, hops, hrun, hrest⟩ := haccepts
  refine ⟨_, later, other, ?_, hrun.head htaken, hrest⟩
  rintro op (_ | ⟨_, hop⟩)
  · exact ⟨action, hdecides, rfl⟩
  · exact hops op hop

theorem accepts_verified {before : World Byte} (hthread : before.threads tid = some thread)
    (hstage : thread.stage = .holding file .verified) : before.Accepts hashing tid file :=
  ⟨[], before, thread, nofun, Run.refl, hthread, hstage⟩

theorem accepts_of_read {before : World Byte} {read : List Byte}
    (hthread : before.threads tid = some (thread.at (.holding file (.hashing read))))
    (hcall : thread.call = .commit digest hashed)
    (hread : read = before.volume.disk.content file)
    (hverified : hashing.verified (before.volume.disk.content file) digest = true) :
    before.Accepts hashing tid file := by
  have hverify : (thread.at (.holding file (.hashing read))).move tid before.volume hashing
      .verify = some (.quiet (.holding file .verified)) := by
    simp [Thread.move, Thread.at, Thread.holding, hcall, hread, hverified]
  exact .head (step_act hthread hverify) .verify (accepts_verified (World.perform_self ..) rfl)

/-- A commit that reads the file to its end accepts what the bytes hash to. -/
theorem accepts_of_reading {before : World Byte}
    (hthread : before.threads tid = some (thread.at (.holding file (.hashing []))))
    (hcall : thread.call = .commit digest hashed)
    (hverified : hashing.verified (before.volume.disk.content file) digest = true) :
    before.Accepts hashing tid file := by
  have hhash : Step hashing before
      (.act tid (.hash (before.volume.disk.content file).length)) _ := step_act hthread rfl
  refine .head hhash (.hash _) (accepts_of_read (World.perform_self ..) hcall ?_ ?_)
  · simp [Volume.apply, Move.quiet]
  · simpa [Volume.apply, Move.quiet] using hverified

/-- A commit that has checked its session accepts exactly what `commitAccepts` says. -/
theorem accepts_iff (hthread : world.threads tid = some thread)
    (hstage : thread.stage = .holding file .checked) (hcall : thread.call = .commit digest hashed) :
    world.Accepts hashing tid file ↔
      world.volume.commitAccepts hashing file digest hashed = true := by
  constructor
  · rintro ⟨ops, later, other, hops, hrun, hother, hverified⟩
    obtain ⟨hvolume, stage, hlater, hdecision⟩ := deciding_of_run hthread hstage hcall hops hrun
    rw [hother, Option.some.injEq] at hlater
    subst hlater
    obtain rfl : stage = .holding file .verified := hverified
    cases hdecision
    assumption
  intro haccepts
  cases htrusts : trusts hashed (world.volume.disk.content file).length
      (world.volume.disk.nlink file) with
  | true =>
    have hdecide : thread.move tid world.volume hashing .decide =
        some (.quiet (.holding file .verified)) := by
      simp [Thread.move, hstage, Thread.holding, hcall, htrusts]
    exact .head (step_act hthread hdecide) .decide (accepts_verified (World.perform_self ..) rfl)
  | false =>
    have hdecide : thread.move tid world.volume hashing .decide =
        some (.quiet (.holding file (.hashing []))) := by
      simp [Thread.move, hstage, Thread.holding, hcall, htrusts]
    refine .head (step_act hthread hdecide) .decide
      (accepts_of_reading (World.perform_self ..) hcall ?_)
    simpa [Volume.commitAccepts, htrusts, Volume.apply, Move.quiet] using haccepts

end Decision

theorem Inv.settled {key : ℕ} {entry : Entry Byte} (hinv : Inv hashing world)
    (hentry : world.entries key = some entry) (hfeeding : ¬ world.Feeding entry) :
    entry.hash.Settled := by
  have hsound := hinv.entry key entry hentry
  cases hholder : entry.holder with
  | none => exact hsound.free hholder
  | some tid =>
    obtain ⟨thread, hthread, hkey, hqueued⟩ := hsound.holder tid hholder
    obtain ⟨same, hsame, _, _, hmine⟩ := hinv.held tid thread hthread key hkey
    rw [hentry, Option.some.injEq] at hsame
    subst hsame
    have hteed := (hmine hqueued).2
    cases happends : thread.call.appends with
    | false => rwa [World.teed_other happends] at hteed
    | true =>
      have hidle : thread.stage = .idle := by
        by_contra hbusy
        exact hfeeding ⟨tid, thread, hholder, hthread, happends, hbusy⟩
      exact hteed.settled hidle

/-- A hash that is still held is the hash of the file's first `n` bytes, and of what the
append in flight has read besides. -/
theorem Inv.hash_prefix {key : ℕ} {entry : Entry Byte} {fed : List Byte}
    (hinv : Inv hashing world) (hentry : world.entries key = some entry)
    (hfed : entry.hash.h = some fed) :
    ∃ file, world.volume.minted (.upload entry.session) = some file ∧
      entry.hash.n ≤ (world.content file).length ∧
      fed.take entry.hash.n = (world.content file).take entry.hash.n ∧
      fed.length = entry.hash.n + entry.hash.teed ∧
      (¬ world.Feeding entry → fed = (world.content file).take entry.hash.n) := by
  obtain ⟨file, hminted, hstable, hfeds, hlength⟩ := (hinv.entry key entry hentry).tracks fed hfed
  refine ⟨file, hminted, hstable.1, hfeds, hlength, ?_⟩
  intro hfeeding
  have hteed := hinv.settled hentry hfeeding fed hfed
  calc fed
      = fed.take entry.hash.n := (List.take_of_length_le (by omega)).symm
    _ = (world.content file).take entry.hash.n := hfeds

/-- A streamed hash that is trusted is the hash of the whole file. -/
theorem Inv.commitAccepts_iff {tid file : ℕ} {thread : Thread Byte} {digest : Digest}
    {hashed : Option ℕ} (hinv : Inv hashing world) (hthread : world.threads tid = some thread)
    (hfile : thread.stage.file = some file) (hcall : thread.call = .commit digest hashed) :
    world.volume.commitAccepts hashing file digest hashed = true ↔
      hashing.verified (world.content file) digest = true := by
  have hminted := (hinv.sound tid thread hthread).file hfile
  rw [Volume.commitAccepts, Bool.or_eq_true]
  refine ⟨fun haccepts => haccepts.elim (fun htrusts => ?_) id, .inr⟩
  exact verified_of_trusts htrusts fun n hn => hinv.fast hthread (hn ▸ hcall) hminted

/-- The same moment with the commit made by `CommitUpload`, which has no hash to go by. -/
def World.byReading (world : World Byte) (tid : ℕ) (thread : Thread Byte) (digest : Digest) :
    World Byte :=
  world.setThread tid { thread with call := .commit digest none }

theorem accepts_byReading_iff {tid file : ℕ} {thread : Thread Byte} {digest : Digest}
    (hstage : thread.stage = .holding file .checked) :
    (world.byReading tid thread digest).Accepts hashing tid file ↔
      hashing.verified (world.content file) digest = true := by
  have hthread : (world.byReading tid thread digest).threads tid =
      some { thread with call := .commit digest none } := by
    simp [World.byReading, World.setThread]
  rw [accepts_iff hthread hstage rfl, Volume.commitAccepts, trusts]
  simp only [reduceCtorEq, decide_false, Bool.false_and, Bool.false_or]
  rfl

theorem Inv.verify_eq {tid file : ℕ} {thread : Thread Byte} {digest : Digest}
    {hashed : Option ℕ} {read : List Byte} (hinv : Inv hashing world)
    (hthread : world.threads tid = some thread) (hcall : thread.call = .commit digest hashed)
    (hstage : thread.stage = .holding file (.hashing read))
    (hnext : Step hashing world (.act tid .verify) after) :
    after.threads tid = some (thread.at (.holding file
      (if hashing.verified (world.content file) digest = true then .verified
        else .closing 0 false))) := by
  have hsofar := ((hinv.sound tid thread hthread).phase hstage).2.2
  obtain ⟨same, hsame, hact⟩ := bind_eq_some_iff.1 hnext
  rw [hthread, Option.some.injEq] at hsame
  subst hsame
  obtain ⟨move, hmove, rfl⟩ := map_eq_some_iff.1 hact
  simp only [Thread.move, hstage, Thread.holding, hcall] at hmove
  split at hmove
  case isFalse => cases hmove
  rename_i hall
  rw [hsofar.eq_of_length_le hall] at hmove
  rw [World.perform_self]
  split at hmove <;> cases hmove
  · rename_i hverified
    rw [if_pos (show hashing.verified (world.content file) digest = true from hverified)]
    rfl
  · rename_i hrefused
    rw [if_neg (show ¬ hashing.verified (world.content file) digest = true from hrefused)]
    rfl

/-- An entry that holds a hash holds that of the first `n` bytes of its session's file.  And a
commit with the streamed hash comes to accept its digest exactly when one that reads the file
would, which is when the file's bytes are the digest's; what others do meanwhile is no matter, as
this holds wherever the decision stands. -/
theorem streamed_hash_of_run {ops : List (Op Byte)} (hrest : start.Resting)
    (hrun : Run (Step hashing) start ops world) :
    (∀ key entry fed, world.entries key = some entry → entry.hash.h = some fed →
      ∃ file, world.volume.minted (.upload entry.session) = some file ∧
        entry.hash.n ≤ (world.content file).length ∧
        fed.take entry.hash.n = (world.content file).take entry.hash.n ∧
        fed.length = entry.hash.n + entry.hash.teed ∧
        (¬ world.Feeding entry → fed = (world.content file).take entry.hash.n)) ∧
    ∀ tid thread file digest hashed, world.threads tid = some thread →
      thread.call = .commit digest hashed →
      (thread.stage = .holding file .checked →
        (world.Accepts hashing tid file ↔
          (world.byReading tid thread digest).Accepts hashing tid file) ∧
        (world.Accepts hashing tid file ↔
          hashing.verified (world.content file) digest = true)) ∧
      (thread.stage = .holding file .verified →
        hashing.verified (world.content file) digest = true) ∧
      ∀ read after, thread.stage = .holding file (.hashing read) →
        Step hashing world (.act tid .verify) after →
        after.threads tid = some (thread.at (.holding file
          (if hashing.verified (world.content file) digest = true then .verified
            else .closing 0 false))) := by
  have hinv := inv_of_run hrest hrun
  refine ⟨fun key entry fed hentry hfed => hinv.hash_prefix hentry hfed, ?_⟩
  intro tid thread file digest hashed hthread hcall
  refine ⟨?_, ?_, ?_⟩
  · intro hstage
    have haccepts : world.Accepts hashing tid file ↔
        hashing.verified (world.content file) digest = true :=
      (accepts_iff hthread hstage hcall).trans
        (hinv.commitAccepts_iff hthread (by rw [hstage]; rfl) hcall)
    exact ⟨haccepts.trans (accepts_byReading_iff hstage).symm, haccepts⟩
  · intro hstage
    exact ((hinv.sound tid thread hthread).phase hstage).2.2 digest hashed hcall
  · intro read after hstage hnext
    exact hinv.verify_eq hthread hcall hstage hnext

theorem demo_streamed_hash : ∃ world thread,
    Run (Step demoHashing) emptyWorld (demoOps.take 19) world ∧
    (∃ entry, world.entries 0 = some entry ∧ entry.hash.h = some [3, 4] ∧ entry.hash.n = 2) ∧
    [3, 4] = (world.content 0).take 2 ∧ world.threads 0 = some thread ∧
    world.Accepts demoHashing 0 0 ∧
    (world.byReading 0 thread (.sha256 134)).Accepts demoHashing 0 0 := by
  have hends : ((demoOps.take 19).foldlM (fun before => World.next before demoHashing)
      emptyWorld).map (fun world => (world.threads 0, world.entries 0,
        world.volume.minted (.upload ⟨"app", "u"⟩), world.content 0)) =
      some (some ⟨0, ⟨"app", "u"⟩, some 0, .commit (.sha256 134) (some 2), .holding 0 .checked⟩,
        some ⟨0, ⟨"app", "u"⟩, ⟨some [3, 4], 2, 0⟩, some 0⟩, some 0, [3, 4]) := by
    rfl
  obtain ⟨world, hfold, hstate⟩ := map_eq_some_iff.1 hends
  simp only [Prod.mk.injEq] at hstate
  obtain ⟨hthread, hentry, hminted, hcontent⟩ := hstate
  have hrun : Run (Step demoHashing) emptyWorld (demoOps.take 19) world := run_of_foldlM hfold
  obtain ⟨hhash, hcommit⟩ := streamed_hash_of_run emptyWorld_resting hrun
  obtain ⟨file, hfile, _, _, _, hrest⟩ := hhash 0 _ _ hentry rfl
  rw [hminted, Option.some.injEq] at hfile
  subst hfile
  obtain ⟨hsame, haccepts⟩ := (hcommit 0 _ 0 _ _ hthread rfl).1 rfl
  have hhere := haccepts.2 (by rw [hcontent]; rfl)
  refine ⟨world, _, hrun, ⟨_, hentry, rfl, rfl⟩, hrest ?_, hthread, hhere, hsame.1 hhere⟩
  rintro ⟨tid, thread, hholder, hholds, happends, _⟩
  cases hholder
  rw [hthread, Option.some.injEq] at hholds
  subst hholds
  cases happends

end K3sm.Registry.Upload
