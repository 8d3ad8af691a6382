import K3sm.Core.Run
import K3sm.Registry.UploadThread

/-!
# The invariant of the upload system

An entry's hash was fed bytes before the store knew what would become of them, and other threads
and processes write the same file.  What saves it is that a prefix once passed is never written
again: an append starts at the end and a cut goes back to where its own append started.  `Teed`
says, stage by stage of an append, what the hash has been fed beyond that prefix.
-/

namespace K3sm.Registry.Upload

open K3sm.Core

variable {Byte : Type} {hashing : Hashing Byte} {world after : World Byte} {tid : ℕ}
  {thread changed : Thread Byte}

def World.content (world : World Byte) (file : ℕ) : List Byte := world.volume.disk.content file

def World.Stable (world : World Byte) (file length : ℕ) : Prop :=
  length ≤ (world.content file).length ∧
    ∀ tid thread base, world.threads tid = some thread →
      thread.stage.writer = some (file, base) → length ≤ base

/-- What a step may not take back. -/
structure World.Keeps (world after : World Byte) : Prop where
  minted : ∀ path file, world.volume.minted path = some file → after.volume.minted path = some file
  stable : ∀ file length, file < world.volume.nextInode → world.Stable file length →
    after.Stable file length ∧ (after.content file).take length = (world.content file).take length

theorem World.Keeps.of_content
    (hminted : ∀ path file, world.volume.minted path = some file →
      after.volume.minted path = some file)
    (hcontent : ∀ file, file < world.volume.nextInode → after.content file = world.content file)
    (hwriter : ∀ tid thread file base, after.threads tid = some thread →
      thread.stage.writer = some (file, base) →
      ∃ tid thread, world.threads tid = some thread ∧ thread.stage.writer = some (file, base)) :
    world.Keeps after where
  minted := hminted
  stable := by
    intro file length hlt hstable
    refine ⟨⟨?_, ?_⟩, ?_⟩
    · rw [hcontent file hlt]
      exact hstable.1
    · intro tid thread base hthread hwrites
      obtain ⟨before, old, hold, holdWrites⟩ := hwriter tid thread file base hthread hwrites
      exact hstable.2 before old base hold holdWrites
    · rw [hcontent file hlt]

theorem Takes.keeps {move : Move Byte}
    (htakes : Takes hashing world.volume tid thread thread.stage move)
    (hthread : world.threads tid = some thread) : world.Keeps (world.perform tid thread move) where
  minted := by
    intro path file hminted
    rw [World.perform_volume]
    exact minted_apply htakes.mints hminted
  stable := by
    intro file length hlt hstable
    have hbytes : length ≤ ((world.perform tid thread move).content file).length ∧
        ((world.perform tid thread move).content file).take length =
          (world.content file).take length := by
      simp only [World.content, World.perform_volume]
      rcases htakes.content_cases hlt with ⟨bytes, hbytes⟩ | ⟨base, hwriter, hcut⟩
      · rw [hbytes]
        refine ⟨?_, List.take_append_of_le_length hstable.1⟩
        rw [List.length_append]
        exact Nat.le_add_right_of_le hstable.1
      · have hbase := hstable.2 tid thread base hthread hwriter
        rw [hcut, List.length_take, List.take_take, min_eq_left hbase]
        exact ⟨le_min hbase hstable.1, rfl⟩
    refine ⟨⟨hbytes.1, ?_⟩, hbytes.2⟩
    intro other any base hany hwriter
    by_cases hsame : other = tid
    · subst hsame
      simp only [World.perform, World.setThread, Function.update_self, Option.some.injEq] at hany
      subst hany
      rcases htakes.writer_cases hwriter with hold | hbase
      · exact hstable.2 other thread base hthread hold
      · rw [hbase]
        exact hstable.1
    · simp only [World.perform, World.setThread, Function.update_of_ne hsame,
        World.onHash_threads] at hany
      exact hstable.2 other any base hany hwriter

/-- What the hash was fed begins with a stable prefix of the session's file, `n` bytes
long; the current append fed it the rest. -/
def World.Tracks (world : World Byte) (session : Session) (state : HashState Byte) : Prop :=
  ∀ fed, state.h = some fed → ∃ file, world.volume.minted (.upload session) = some file ∧
    world.Stable file state.n ∧ fed.take state.n = (world.content file).take state.n ∧
    fed.length = state.n + state.teed

def World.Appended (world : World Byte) (session : Session) (state : HashState Byte)
    (newLen : ℕ) : Prop :=
  ∀ fed, state.h = some fed → ∃ file, world.volume.minted (.upload session) = some file ∧
    world.Stable file newLen ∧ state.teed ≤ newLen ∧
    fed.drop state.n = ((world.content file).take newLen).drop (newLen - state.teed)

def HashState.Settled (state : HashState Byte) : Prop := ∀ fed, state.h = some fed → state.teed = 0

theorem World.Tracks.keeps {session : Session} {state : HashState Byte}
    (htracks : world.Tracks session state) (hkeeps : world.Keeps after)
    (hnames : world.volume.Names) : after.Tracks session state := by
  intro fed hfed
  obtain ⟨file, hminted, hstable, hfeds, hlength⟩ := htracks fed hfed
  obtain ⟨hstill, htake⟩ := hkeeps.stable file state.n (hnames.minted_lt hminted) hstable
  exact ⟨file, hkeeps.minted _ _ hminted, hstill, hfeds.trans htake.symm, hlength⟩

theorem World.Appended.keeps {session : Session} {state : HashState Byte} {newLen : ℕ}
    (happended : world.Appended session state newLen) (hkeeps : world.Keeps after)
    (hnames : world.volume.Names) : after.Appended session state newLen := by
  intro fed hfed
  obtain ⟨file, hminted, hstable, hteed, hdrop⟩ := happended fed hfed
  obtain ⟨hstill, htake⟩ := hkeeps.stable file newLen (hnames.minted_lt hminted) hstable
  refine ⟨file, hkeeps.minted _ _ hminted, hstill, hteed, ?_⟩
  rw [htake]
  exact hdrop

namespace HashState

variable {state : HashState Byte}

@[simp]
theorem write_nil (state : HashState Byte) : state.write [] = state := by
  obtain ⟨h, n, teed⟩ := state
  cases h <;> simp [write]

theorem writer_eq {fed : List Byte} (hsettled : state.Settled) (hfed : state.h = some fed) :
    state.writer = state := by
  have hteed := hsettled fed hfed
  obtain ⟨h, n, teed⟩ := state
  simp only at hteed
  simp [writer, hteed]

theorem settled_writer (state : HashState Byte) : state.writer.Settled := fun _ _ => rfl

theorem settled_lost : (lost : HashState Byte).Settled := fun _ _ => rfl

theorem settle_cases (state : HashState Byte) (newLen : ℕ) (ok : Bool) :
    (state.settle newLen ok = state ∧ state.Settled) ∨
      (ok = true ∧ newLen = state.n + state.teed ∧
        state.settle newLen ok = { state with n := newLen, teed := 0 }) ∨
      state.settle newLen ok = lost := by
  unfold settle
  split
  case h_1 hnone =>
      refine .inl ⟨rfl, fun fed hfed => ?_⟩
      rw [hnone] at hfed
      cases hfed
  case h_2 =>
      split
      case isTrue hrefused => exact .inl ⟨rfl, fun _ _ => hrefused.2⟩
      split
      case isTrue hstarted => exact .inr (.inl ⟨hstarted.1, by omega, rfl⟩)
      case isFalse => exact .inr (.inr rfl)

theorem settled_settle (state : HashState Byte) (newLen : ℕ) (ok : Bool) :
    (state.settle newLen ok).Settled := by
  rcases state.settle_cases newLen ok with ⟨hsame, hsettled⟩ | ⟨_, _, hnew⟩ | hlost
  · rw [hsame]
    exact hsettled
  · rw [hnew]
    exact fun _ _ => rfl
  · rw [hlost]
    exact settled_lost

end HashState

theorem World.Tracks.write {session : Session} {state : HashState Byte}
    (htracks : world.Tracks session state) (bytes : List Byte) :
    world.Tracks session (state.write bytes) := by
  intro fed hfed
  cases hstate : state.h with
  | none =>
    simp only [HashState.write, hstate] at hfed
    cases hfed
  | some before =>
    obtain ⟨file, hminted, hstable, hfeds, hlength⟩ := htracks before hstate
    simp only [HashState.write, hstate, Option.some.injEq] at hfed ⊢
    subst hfed
    refine ⟨file, hminted, hstable, ?_, ?_⟩
    · rw [List.take_append_of_le_length (by omega), hfeds]
    · rw [List.length_append, hlength, Nat.add_assoc]

theorem World.Tracks.writer {session : Session} {state : HashState Byte}
    (htracks : world.Tracks session state) (hsettled : state.Settled) :
    world.Tracks session state.writer := by
  intro fed hfed
  have hsame := HashState.writer_eq hsettled hfed
  rw [hsame] at hfed ⊢
  exact htracks fed hfed

theorem World.Tracks.settle {session : Session} {state : HashState Byte} {newLen : ℕ} {ok : Bool}
    (htracks : world.Tracks session state)
    (happended : ok = true → world.Appended session state newLen) :
    world.Tracks session (state.settle newLen ok) := by
  rcases state.settle_cases newLen ok with ⟨hsame, _⟩ | ⟨hok, hlen, hnew⟩ | hlost
  · rw [hsame]
    exact htracks
  · rw [hnew]
    intro fed hfed
    obtain ⟨file, hminted, _, hfeds, hlength⟩ := htracks fed hfed
    obtain ⟨other, hother, hstable, _, hdrop⟩ := happended hok fed hfed
    rw [hminted, Option.some.injEq] at hother
    subst hother
    have hstart : newLen - state.teed = state.n := by omega
    refine ⟨file, hminted, hstable, ?_, by simp only; omega⟩
    calc fed.take newLen
        = fed := List.take_of_length_le (by omega)
      _ = fed.take state.n ++ fed.drop state.n := (List.take_append_drop ..).symm
      _ = (world.content file).take state.n ++
            ((world.content file).take newLen).drop state.n := by rw [hfeds, hdrop, hstart]
      _ = ((world.content file).take newLen).take state.n ++
            ((world.content file).take newLen).drop state.n := by
          rw [List.take_take, min_eq_left (by omega)]
      _ = (world.content file).take newLen := List.take_append_drop ..
  · rw [hlost]
    intro fed hfed
    cases hfed

theorem World.Tracks.settle_settled {session : Session} {state : HashState Byte} {newLen : ℕ}
    {ok : Bool} (htracks : world.Tracks session state) (hsettled : state.Settled) :
    world.Tracks session (state.settle newLen ok) := by
  rcases state.settle_cases newLen ok with ⟨hsame, _⟩ | ⟨_, hlen, hnew⟩ | hlost
  · rw [hsame]
    exact htracks
  · rw [hnew]
    intro fed hfed
    have hteed := hsettled fed hfed
    rw [hteed, Nat.add_zero] at hlen
    obtain ⟨file, hminted, hstable, hfeds, hlength⟩ := htracks fed hfed
    rw [hteed] at hlength
    subst hlen
    exact ⟨file, hminted, hstable, hfeds, hlength⟩
  · rw [hlost]
    intro fed hfed
    cases hfed

variable {thread : Thread Byte}

def Stage.Teed (world : World Byte) (session : Session) (state : HashState Byte) :
    Stage Byte → Prop
  | .holding _ (.copying _ read _) => ∀ fed, state.h = some fed → fed.drop state.n = read
  | .holding _ (.cutting _ _) => True
  | .holding _ (.closing newLen ok) => ok = true → world.Appended session state newLen
  | .returned newLen ok => ok = true → world.Appended session state newLen
  | _ => state.Settled

def World.Teed (world : World Byte) (thread : Thread Byte) (state : HashState Byte) : Prop :=
  if thread.call.appends = true then thread.stage.Teed world thread.session state
  else state.Settled

theorem Stage.Teed.keeps {session : Session} {state : HashState Byte} {stage : Stage Byte}
    (hteed : stage.Teed world session state) (hkeeps : world.Keeps after)
    (hnames : world.volume.Names) : stage.Teed after session state := by
  cases stage with
  | returned newLen ok => exact fun hok => (hteed hok).keeps hkeeps hnames
  | holding file phase =>
    cases phase with
    | closing newLen ok => exact fun hok => (hteed hok).keeps hkeeps hnames
    | _ => exact hteed
  | _ => exact hteed

theorem World.teed_append {state : HashState Byte} (happends : thread.call.appends = true) :
    world.Teed thread state ↔ thread.stage.Teed world thread.session state := by
  rw [World.Teed, if_pos happends]

theorem World.teed_other {state : HashState Byte} (happends : thread.call.appends = false) :
    world.Teed thread state ↔ state.Settled := by
  rw [World.Teed, if_neg (by simp [happends])]

theorem World.Teed.keeps {state : HashState Byte} (hteed : world.Teed thread state)
    (hkeeps : world.Keeps after) (hnames : world.volume.Names) : after.Teed thread state := by
  cases happends : thread.call.appends with
  | false => rwa [World.teed_other happends] at hteed ⊢
  | true =>
    rw [World.teed_append happends] at hteed ⊢
    exact hteed.keeps hkeeps hnames

theorem World.Teed.settled {state : HashState Byte} (hteed : world.Teed thread state)
    (hstage : thread.stage = .idle) : state.Settled := by
  cases happends : thread.call.appends with
  | false => rwa [World.teed_other happends] at hteed
  | true =>
    rw [World.teed_append happends, hstage] at hteed
    exact hteed

theorem World.teed_of_settled {state : HashState Byte} (hsettled : state.Settled)
    (hstage : thread.stage = .idle ∨ thread.stage = .admitted ∨ thread.stage = .opening) :
    world.Teed thread state := by
  cases happends : thread.call.appends with
  | false => rwa [World.teed_other happends]
  | true =>
    rw [World.teed_append happends]
    rcases hstage with hstage | hstage | hstage <;> rw [hstage] <;> exact hsettled

theorem Thread.Sound.writer_flock {volume : Volume Byte} {file base : ℕ}
    (hsound : thread.Sound hashing volume tid) (hwriter : thread.stage.writer = some (file, base)) :
    volume.flock file = some tid := by
  cases hstage : thread.stage with
  | holding other phase =>
    rw [hstage] at hwriter
    cases phase <;> cases hwriter <;> exact hsound.flock hstage
  | _ =>
    rw [hstage] at hwriter
    cases hwriter

theorem World.stable_length {file : ℕ}
    (hwriter : ∀ tid thread base, world.threads tid = some thread →
      thread.stage.writer ≠ some (file, base)) : world.Stable file (world.content file).length :=
  ⟨le_rfl, fun tid thread base hthread hwrites => absurd hwrites (hwriter tid thread base hthread)⟩

section Step

variable {move : Move Byte} {state : HashState Byte}

theorem World.perform_self (world : World Byte) (tid : ℕ) (thread : Thread Byte)
    (move : Move Byte) :
    (world.perform tid thread move).threads tid = some (thread.at move.stage) := by
  simp [World.perform, World.setThread, Thread.at]

theorem World.perform_of_ne {other : ℕ} (hother : other ≠ tid) (thread : Thread Byte)
    (move : Move Byte) : (world.perform tid thread move).threads other = world.threads other := by
  simp [World.perform, World.setThread, hother]

theorem appended_of_finish {file base : ℕ} {read : List Byte}
    (hsounds : ∀ tid thread, world.threads tid = some thread →
      thread.Sound hashing world.volume tid) (hthread : world.threads tid = some thread)
    (hstage : thread.stage = .holding file (.copying base read read.length))
    (htracks : world.Tracks thread.session state)
    (hteed : ∀ fed, state.h = some fed → fed.drop state.n = read) :
    (world.perform tid thread
      (.quiet (.holding file (.closing (base + read.length) true)))).Appended thread.session state
        (base + read.length) := by
  have hsound := hsounds tid thread hthread
  obtain ⟨_, _, _, hbase, hcopied, _⟩ := hsound.phase hstage
  rw [List.take_length] at hcopied
  have hlength : (world.volume.disk.content file).length = base + read.length := by
    rw [← hcopied, List.length_drop]
    omega
  -- The thread has the flock, and its own append is over.
  have hwriter : ∀ other any start,
      (world.perform tid thread
        (.quiet (.holding file (.closing (base + read.length) true)))).threads other = some any →
      any.stage.writer ≠ some (file, start) := by
    intro other any start hany hwrites
    by_cases hsame : other = tid
    · subst hsame
      rw [World.perform_self, Option.some.injEq] at hany
      subst hany
      cases hwrites
    · rw [World.perform_of_ne hsame] at hany
      have hlocked := (hsounds other any hany).writer_flock hwrites
      rw [hsound.flock hstage, Option.some.injEq] at hlocked
      exact hsame hlocked.symm
  have hcontent : (world.perform tid thread
      (.quiet (.holding file (.closing (base + read.length) true)))).content file =
      world.volume.disk.content file := by
    rw [World.content, World.perform_volume]
    rfl
  have hstable := World.stable_length hwriter
  rw [hcontent, hlength] at hstable
  intro fed hfed
  obtain ⟨_, _, _, _, hfeds⟩ := htracks fed hfed
  have hteeds : state.teed = read.length := by
    rw [← hteed fed hfed, List.length_drop]
    omega
  refine ⟨file, ?_, hstable, by omega, ?_⟩
  · rw [World.perform_volume]
    apply hsound.file
    rw [hstage]
    rfl
  · rw [hcontent, hteed fed hfed, hteeds, ← hlength, List.take_length, hlength,
      Nat.add_sub_cancel, hcopied]

theorem Call.returns_append {call : Call} (happends : call.appends = true) (newLen : ℕ)
    (ok : Bool) : (call.returns newLen ok : Stage Byte) = .returned newLen ok := by
  cases call with
  | append offset limit => rfl
  | _ => cases happends

theorem Call.pass_append {call : Call} {links : ℕ} {idle : Bool} {phase : Phase Byte}
    (happends : call.appends = true) (hpass : call.pass links idle = some phase) :
    phase = .checked := by
  cases call with
  | append offset limit =>
    simp only [Call.pass] at hpass
    split at hpass <;> cases hpass
    rfl
  | _ => cases happends

theorem Takes.feed_eq_nil (htakes : Takes hashing world.volume tid thread thread.stage move)
    (hsound : thread.Sound hashing world.volume tid) (happends : thread.call.appends = false) :
    move.feed = [] := by
  generalize hstage : thread.stage = stage at htakes
  cases htakes with
  | receive | probe =>
    obtain ⟨_, htrue, _⟩ := hsound.phase hstage
    rw [happends] at htrue
    cases htrue
  | _ => rfl

theorem teed_start (htracks : world.Tracks thread.session state) (hsettled : state.Settled) :
    ∀ fed, state.h = some fed → fed.drop state.n = [] := by
  intro fed hfed
  obtain ⟨_, _, _, _, hlength⟩ := htracks fed hfed
  rw [hsettled fed hfed] at hlength
  rw [List.drop_eq_nil_iff, hlength]
  exact le_rfl

theorem teed_receive {read : List Byte} (htracks : world.Tracks thread.session state)
    (hteed : ∀ fed, state.h = some fed → fed.drop state.n = read) (bytes : List Byte) :
    ∀ fed, (state.write bytes).h = some fed → fed.drop (state.write bytes).n = read ++ bytes := by
  intro fed hfed
  cases hstate : state.h with
  | none =>
    simp only [HashState.write, hstate] at hfed
    cases hfed
  | some before =>
    obtain ⟨_, _, _, _, hlength⟩ := htracks before hstate
    simp only [HashState.write, hstate, Option.some.injEq] at hfed ⊢
    rw [← hfed, List.drop_append_of_le_length (by omega), hteed before hstate]

theorem Takes.teed (htakes : Takes hashing world.volume tid thread thread.stage move)
    (hsounds : ∀ tid thread, world.threads tid = some thread →
      thread.Sound hashing world.volume tid)
    (hthread : world.threads tid = some thread) (hnames : world.volume.Names)
    (htracks : world.Tracks thread.session state) (hteed : world.Teed thread state) :
    (world.perform tid thread move).Teed (thread.at move.stage) (state.write move.feed) := by
  have hsound := hsounds tid thread hthread
  have hkeeps := htakes.keeps hthread
  cases happends : thread.call.appends with
  | false =>
    rw [World.teed_other happends] at hteed
    rw [htakes.feed_eq_nil hsound happends, HashState.write_nil]
    have hsame : (thread.at move.stage).call.appends = false := happends
    rw [World.teed_other hsame]
    exact hteed
  | true =>
    have hsame : (thread.at move.stage).call.appends = true := happends
    rw [World.teed_append happends] at hteed
    rw [World.teed_append hsame]
    generalize hstage : thread.stage = stage at htakes hteed
    cases htakes with
    | receive => exact teed_receive htracks hteed _
    | start hcall =>
      simp only [Move.quiet, HashState.write_nil]
      exact teed_start htracks hteed
    | finish =>
      simp only [Move.quiet, HashState.write_nil]
      exact fun _ => appended_of_finish hsounds hthread hstage htracks hteed
    | probe => trivial
    | cut | mismatch hcall | refuse => rintro ⟨⟩
    | notOpened | notLocked =>
      simp only [Thread.at, Move.quiet, Call.returns_append happends]
      rintro ⟨⟩
    | close =>
      rw [Call.returns_append happends] at hkeeps
      simp only [Thread.at, Call.returns_append happends, HashState.write_nil]
      exact fun hok => (hteed hok).keeps hkeeps hnames
    | lstat hnamed hpass =>
      obtain rfl := Call.pass_append happends hpass
      simp only [Move.quiet, HashState.write_nil]
      exact hteed
    | fail hfailed =>
      obtain ⟨newLen, rfl⟩ := Phase.failed_eq hfailed
      rintro ⟨⟩
    | remove =>
      -- An append is never at the point of removing its session.
      have hfalse := (hsound.phase hstage).2
      rw [happends] at hfalse
      cases hfalse
    | _ =>
      simp only [Move.quiet, HashState.write_nil]
      exact hteed

end Step

def World.Hashed (hashing : Hashing Byte) (world : World Byte) (thread : Thread Byte) : Prop :=
  ∀ digest size, thread.call = .commit digest (some size) →
    ∃ file, world.volume.minted thread.path = some file ∧ world.Stable file size ∧
      hashing.verified ((world.content file).take size) digest = true

theorem World.Hashed.keeps (hhashed : world.Hashed hashing thread) (hkeeps : world.Keeps after)
    (hnames : world.volume.Names) : after.Hashed hashing thread := by
  intro digest size hcall
  obtain ⟨file, hminted, hstable, hverified⟩ := hhashed digest size hcall
  obtain ⟨hstill, htake⟩ := hkeeps.stable file size (hnames.minted_lt hminted) hstable
  refine ⟨file, hkeeps.minted _ _ hminted, hstill, ?_⟩
  rw [htake]
  exact hverified

def World.Held (world : World Byte) (tid : ℕ) (thread : Thread Byte) : Prop :=
  ∀ key, thread.entry = some key → ∃ entry, world.entries key = some entry ∧
    entry.proc = thread.proc ∧ entry.session = thread.session ∧
    (thread.stage ≠ .queued → entry.holder = some tid ∧ world.Teed thread entry.hash)

structure Entry.Sound (world : World Byte) (key : ℕ) (entry : Entry Byte) : Prop where
  tracks : world.Tracks entry.session entry.hash
  free : entry.holder = none → entry.hash.Settled
  holder : ∀ tid, entry.holder = some tid → ∃ thread, world.threads tid = some thread ∧
    thread.entry = some key ∧ thread.stage ≠ .queued

def World.Owns (world : World Byte) (proc : ℕ) (session : Session) (key : ℕ) : Prop :=
  ∃ entry, world.entries key = some entry ∧ entry.proc = proc ∧ entry.session = session

/-- The invariant of uploads beside each other. -/
structure Inv (hashing : Hashing Byte) (world : World Byte) : Prop where
  names : world.volume.Names
  sound : ∀ tid thread, world.threads tid = some thread → thread.Sound hashing world.volume tid
  hashed : ∀ tid thread, world.threads tid = some thread → world.Hashed hashing thread
  held : ∀ tid thread, world.threads tid = some thread → world.Held tid thread
  entry : ∀ key entry, world.entries key = some entry → entry.Sound world key
  entry_lt : ∀ key entry, world.entries key = some entry → key < world.nextEntry
  table : ∀ proc session key, world.table proc session = some key → world.Owns proc session key

def World.SparesEntries (world after : World Byte) (actor : Option ℕ) : Prop :=
  ∀ key entry, world.entries key = some entry → ∃ left, after.entries key = some left ∧
    left.proc = entry.proc ∧ left.session = entry.session ∧
    ∀ other, entry.holder = some other → some other ≠ actor → left = entry

theorem World.Held.spares {actor : Option ℕ} {other : ℕ} {thread : Thread Byte}
    (hheld : world.Held other thread) (hspares : world.SparesEntries after actor)
    (hother : some other ≠ actor) (hkeeps : world.Keeps after) (hnames : world.volume.Names) :
    after.Held other thread := by
  intro key hkey
  obtain ⟨entry, hentry, hproc, hsession, hmine⟩ := hheld key hkey
  obtain ⟨left, hleft, hleftProc, hleftSession, hsame⟩ := hspares key entry hentry
  refine ⟨left, hleft, hleftProc.trans hproc, hleftSession.trans hsession, ?_⟩
  intro hstage
  obtain ⟨hholder, hteed⟩ := hmine hstage
  obtain rfl := hsame other hholder hother
  exact ⟨hholder, hteed.keeps hkeeps hnames⟩

theorem World.Owns.spares {actor : Option ℕ} {proc key : ℕ} {session : Session}
    (howns : world.Owns proc session key) (hspares : world.SparesEntries after actor) :
    after.Owns proc session key := by
  obtain ⟨entry, hentry, hproc, hsession⟩ := howns
  obtain ⟨left, hleft, hleftProc, hleftSession, _⟩ := hspares key entry hentry
  exact ⟨left, hleft, hleftProc.trans hproc, hleftSession.trans hsession⟩

theorem Inv.advance (actor : Option ℕ) (hinv : Inv hashing world) (hkeeps : world.Keeps after)
    (hnames : after.volume.Names)
    (hframe : ∀ other, some other ≠ actor → world.volume.Frame other after.volume)
    (hothers : ∀ other, some other ≠ actor → after.threads other = world.threads other)
    (hactor : ∀ tid thread, actor = some tid → after.threads tid = some thread →
      thread.Sound hashing after.volume tid ∧ after.Hashed hashing thread ∧ after.Held tid thread)
    (hspares : world.SparesEntries after actor)
    (hentry : ∀ key entry, after.entries key = some entry →
      world.entries key = some entry ∧ (∀ other, entry.holder = some other → some other ≠ actor) ∨
        entry.Sound after key)
    (hlt : ∀ key entry, after.entries key = some entry → key < after.nextEntry)
    (htable : ∀ proc session key, after.table proc session = some key →
      world.table proc session = some key ∨ after.Owns proc session key) : Inv hashing after where
  names := hnames
  sound := by
    intro tid thread hthread
    by_cases htid : some tid = actor
    · exact (hactor tid thread htid.symm hthread).1
    · rw [hothers tid htid] at hthread
      exact (hinv.sound tid thread hthread).frame hinv.names (hframe tid htid) hkeeps.minted
  hashed := by
    intro tid thread hthread
    by_cases htid : some tid = actor
    · exact (hactor tid thread htid.symm hthread).2.1
    · rw [hothers tid htid] at hthread
      exact (hinv.hashed tid thread hthread).keeps hkeeps hinv.names
  held := by
    intro tid thread hthread
    by_cases htid : some tid = actor
    · exact (hactor tid thread htid.symm hthread).2.2
    · rw [hothers tid htid] at hthread
      exact (hinv.held tid thread hthread).spares hspares htid hkeeps hinv.names
  entry := by
    intro key entry hkey
    rcases hentry key entry hkey with ⟨hold, hnot⟩ | hsound
    · have hsound := hinv.entry key entry hold
      refine ⟨hsound.tracks.keeps hkeeps hinv.names, hsound.free, ?_⟩
      intro tid hholder
      obtain ⟨thread, hthread, hrest⟩ := hsound.holder tid hholder
      refine ⟨thread, ?_, hrest⟩
      rw [hothers tid (hnot tid hholder), hthread]
    · exact hsound
  entry_lt := hlt
  table := by
    intro proc session key hkey
    rcases htable proc session key hkey with hold | howns
    · exact (hinv.table proc session key hold).spares hspares
    · exact howns

end K3sm.Registry.Upload
