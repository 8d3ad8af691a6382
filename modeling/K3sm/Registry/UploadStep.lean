import K3sm.Registry.UploadInv

/-!
# Every step keeps the invariant

The steps fall into four kinds: those of the volume alone, those of the session table, those
that hand an entry from thread to thread, and those of a thread with the entry it holds.
The last kind has the operations of the store in it.
-/

namespace K3sm.Registry.Upload

open K3sm.Core Option Function

variable {Byte : Type} {hashing : Hashing Byte} {world after : World Byte} {tid : ℕ}
  {thread changed : Thread Byte}

theorem Volume.Frame.refl (volume : Volume Byte) (tid : ℕ) : volume.Frame tid volume :=
  .of_disk rfl rfl (fun _ hnamed => hnamed) (fun _ hlone => hlone)

theorem World.keeps_apply {effect : Effect Byte}
    (hvolume : after.volume = world.volume.apply effect)
    (hmints : effect.Mints world.volume) (hwrites : effect.writes = none)
    (hwriter : ∀ tid thread file base, after.threads tid = some thread →
      thread.stage.writer = some (file, base) → world.threads tid = some thread) :
    world.Keeps after := by
  refine .of_content ?_ ?_ ?_
  · intro path file hminted
    rw [hvolume]
    exact minted_apply hmints hminted
  · intro file hlt
    rw [World.content, hvolume]
    exact apply_content (by rw [hwrites]; exact (some_ne_none file).symm) hlt
  · intro tid thread file base hthread hwrites
    exact ⟨tid, thread, hwriter tid thread file base hthread hwrites, hwrites⟩

theorem World.sparesEntries_of_eq {actor : Option ℕ} (hentries : after.entries = world.entries) :
    world.SparesEntries after actor := by
  intro key entry hkey
  exact ⟨entry, hentries ▸ hkey, rfl, rfl, fun _ _ _ => rfl⟩

theorem Inv.onVolume {effect : Effect Byte} (hinv : Inv hashing world)
    (hmints : effect.Mints world.volume) (hspares : ∀ tid, effect.Spares world.volume tid)
    (hwrites : effect.writes = none) : Inv hashing (world.onVolume effect) := by
  have hkeeps : world.Keeps (world.onVolume effect) :=
    World.keeps_apply rfl hmints hwrites fun _ _ _ _ hthread _ => hthread
  exact hinv.advance none hkeeps (hinv.names.apply hmints)
    (fun other _ => frame_apply hinv.names (hspares other)) (fun _ _ => rfl)
    (nofun) (World.sparesEntries_of_eq rfl)
    (fun _ _ hkey => .inl ⟨hkey, fun other _ => some_ne_none other⟩)
    hinv.entry_lt (fun _ _ _ hkey => .inl hkey)

theorem Inv.setTable {proc : ℕ} {session : Session} (hinv : Inv hashing world) (key : Option ℕ)
    (howns : ∀ found, key = some found → world.Owns proc session found) :
    Inv hashing (world.setTable proc session key) := by
  have hkeeps : world.Keeps (world.setTable proc session key) :=
    .of_content (fun _ _ hminted => hminted) (fun _ _ => rfl)
      fun tid thread _ _ hthread hwrites => ⟨tid, thread, hthread, hwrites⟩
  refine hinv.advance none hkeeps hinv.names (fun other _ => .refl _ other) (fun _ _ => rfl)
    (nofun) (World.sparesEntries_of_eq rfl)
    (fun _ _ hkey => .inl ⟨hkey, fun other _ => some_ne_none other⟩)
    hinv.entry_lt ?_
  intro any other found hfound
  by_cases hproc : any = proc
  · subst hproc
    simp only [World.setTable, update_self] at hfound
    by_cases hsession : other = session
    · subst hsession
      rw [update_self] at hfound
      exact .inr (howns found hfound)
    · rw [update_of_ne hsession] at hfound
      exact .inl hfound
  · simp only [World.setTable, update_of_ne hproc] at hfound
    exact .inl hfound

variable {entry fresh : Entry Byte} {key : ℕ}

theorem World.addEntry_of_some (hinv : Inv hashing world) (hkey : world.entries key = some entry) :
    (world.addEntry fresh).entries key = some entry := by
  have hne : key ≠ world.nextEntry := Nat.ne_of_lt (hinv.entry_lt key entry hkey)
  simp only [World.addEntry, update_of_ne hne, hkey]

theorem World.addEntry_self (world : World Byte) (fresh : Entry Byte) :
    (world.addEntry fresh).entries world.nextEntry = some fresh := by
  simp [World.addEntry]

theorem World.addEntry_cases (hkey : (world.addEntry fresh).entries key = some entry) :
    key = world.nextEntry ∧ entry = fresh ∨ world.entries key = some entry := by
  by_cases hne : key = world.nextEntry
  · subst hne
    rw [World.addEntry_self, some.injEq] at hkey
    exact .inl ⟨rfl, hkey.symm⟩
  · simp only [World.addEntry, update_of_ne hne] at hkey
    exact .inr hkey

theorem World.addEntry_lt (hinv : Inv hashing world)
    (hkey : (world.addEntry fresh).entries key = some entry) : key < world.nextEntry + 1 := by
  rcases World.addEntry_cases hkey with ⟨rfl, _⟩ | hold
  · exact Nat.lt_succ_self _
  · exact Nat.lt_succ_of_lt (hinv.entry_lt key entry hold)

theorem Inv.addLost (hinv : Inv hashing world) (proc : ℕ) (session : Session) :
    Inv hashing (world.addEntry ⟨proc, session, .lost, none⟩) := by
  have hkeeps : world.Keeps (world.addEntry ⟨proc, session, .lost, none⟩) :=
    .of_content (fun _ _ hminted => hminted) (fun _ _ => rfl)
      fun tid thread _ _ hthread hwrites => ⟨tid, thread, hthread, hwrites⟩
  refine hinv.advance none hkeeps hinv.names (fun other _ => .refl _ other) (fun _ _ => rfl)
    (nofun) ?_ ?_ ?_ (fun _ _ _ hkey => .inl hkey)
  · intro key entry hkey
    exact ⟨entry, World.addEntry_of_some hinv hkey, rfl, rfl, fun _ _ _ => rfl⟩
  · intro key entry hkey
    rcases World.addEntry_cases hkey with ⟨_, rfl⟩ | hold
    · refine .inr ⟨?_, fun _ => HashState.settled_lost, ?_⟩
      · intro fed hfed
        cases hfed
      · intro tid htid
        cases htid
    · exact .inl ⟨hold, fun other _ => some_ne_none other⟩
  · exact fun key entry hkey => World.addEntry_lt hinv hkey

theorem World.onHash_id (world : World Byte) (entry : Option ℕ) :
    world.onHash entry (fun state => state) = world := by
  cases entry with
  | none => rfl
  | some key => simp [World.onHash]

theorem Inv.holds (hinv : Inv hashing world) (hthread : world.threads tid = some thread)
    (hkey : world.entries key = some entry) (hholder : entry.holder = some tid) :
    thread.entry = some key := by
  obtain ⟨holder, hholds, hentry, _⟩ := (hinv.entry key entry hkey).holder tid hholder
  rw [hthread, some.injEq] at hholds
  exact hholds ▸ hentry

def World.rehash (world : World Byte) (tid : ℕ) (volume : Volume Byte) (entry : Option ℕ)
    (change : HashState Byte → HashState Byte) (changed : Thread Byte) : World Byte :=
  (({ world with volume := volume }).onHash entry change).setThread tid changed

section Rehash

variable {volume : Volume Byte} {change : HashState Byte → HashState Byte}

@[simp]
theorem World.rehash_volume (entry : Option ℕ) :
    (world.rehash tid volume entry change changed).volume = volume := by
  simp [World.rehash, World.setThread]

theorem World.rehash_threads (entry : Option ℕ) :
    (world.rehash tid volume entry change changed).threads =
      Function.update world.threads tid (some changed) := by
  simp [World.rehash, World.setThread]

theorem World.rehash_entries_self {key : ℕ} {entry : Entry Byte}
    (hkey : world.entries key = some entry) :
    (world.rehash tid volume (some key) change changed).entries key =
      some { entry with hash := change entry.hash } := by
  simp only [World.rehash, World.setThread, World.onHash_entries_self, hkey, map_some]

theorem World.rehash_entries_of_ne {own : Option ℕ} {key : ℕ} (hne : own ≠ some key) :
    (world.rehash tid volume own change changed).entries key = world.entries key := by
  simp only [World.rehash, World.setThread, World.onHash_entries_of_ne _ hne]

theorem Inv.rehash (hinv : Inv hashing world) (hthread : world.threads tid = some thread)
    (hqueued : thread.stage ≠ .queued) (hproc : changed.proc = thread.proc)
    (hsession : changed.session = thread.session) (hentry : changed.entry = thread.entry)
    (hstage : changed.stage ≠ .queued) (hnames : volume.Names)
    (hframe : ∀ other, other ≠ tid → world.volume.Frame other volume)
    (hsound : changed.Sound hashing volume tid)
    (hkeeps : world.Keeps (world.rehash tid volume thread.entry change changed))
    (hhashed : (world.rehash tid volume thread.entry change changed).Hashed hashing changed)
    (hchange : ∀ state, world.Tracks thread.session state → world.Teed thread state →
      (world.rehash tid volume thread.entry change changed).Tracks thread.session (change state) ∧
        (world.rehash tid volume thread.entry change changed).Teed changed (change state)) :
    Inv hashing (world.rehash tid volume thread.entry change changed) := by
  -- The entry the thread holds, in the new world.
  have hown : ∀ key, thread.entry = some key → ∃ entry, world.entries key = some entry ∧
      entry.holder = some tid ∧ entry.proc = thread.proc ∧ entry.session = thread.session ∧
      (world.rehash tid volume thread.entry change changed).entries key =
        some { entry with hash := change entry.hash } ∧
      (world.rehash tid volume thread.entry change changed).Tracks thread.session
        (change entry.hash) ∧
      (world.rehash tid volume thread.entry change changed).Teed changed (change entry.hash) := by
    intro key hkey
    obtain ⟨entry, hfound, hentryProc, hentrySession, hmine⟩ :=
      hinv.held tid thread hthread key hkey
    obtain ⟨hholder, hteed⟩ := hmine hqueued
    have htracks := (hinv.entry key entry hfound).tracks
    rw [hentrySession] at htracks
    refine ⟨entry, hfound, hholder, hentryProc, hentrySession, ?_, hchange _ htracks hteed⟩
    rw [hkey]
    exact World.rehash_entries_self hfound
  have hself : (world.rehash tid volume thread.entry change changed).threads tid =
      some changed := by
    rw [World.rehash_threads, update_self]
  refine hinv.advance (some tid) hkeeps
    (by rw [World.rehash_volume]; exact hnames) ?_ ?_ ?_ ?_ ?_ ?_ ?_
  · intro other hother
    rw [World.rehash_volume]
    exact hframe other fun hsame => hother (congrArg some hsame)
  · intro other hother
    rw [World.rehash_threads, update_of_ne fun hsame => hother (congrArg some hsame)]
  · rintro any other ⟨⟩ hother
    rw [hself, some.injEq] at hother
    subst hother
    refine ⟨by rw [World.rehash_volume]; exact hsound, hhashed, ?_⟩
    intro key hkey
    rw [hentry] at hkey
    obtain ⟨entry, _, hholder, hentryProc, hentrySession, hafter, _, hteed⟩ := hown key hkey
    exact ⟨_, hafter, hentryProc.trans hproc.symm, hentrySession.trans hsession.symm,
      fun _ => ⟨hholder, hteed⟩⟩
  · intro key entry hkey
    by_cases hmine : thread.entry = some key
    · obtain ⟨same, hsame, hholder, _, _, hafter, _⟩ := hown key hmine
      rw [hkey, some.injEq] at hsame
      subst hsame
      refine ⟨_, hafter, rfl, rfl, fun other hother hne => ?_⟩
      rw [hholder] at hother
      exact absurd hother.symm hne
    · exact ⟨entry, (World.rehash_entries_of_ne hmine).trans hkey, rfl, rfl, fun _ _ _ => rfl⟩
  · intro key entry hkey
    by_cases hmine : thread.entry = some key
    · obtain ⟨before, _, hholder, _, hentrySession, hafter, htracks, _⟩ := hown key hmine
      rw [hafter, some.injEq] at hkey
      subst hkey
      refine .inr ⟨?_, ?_, ?_⟩
      · simp only [hentrySession]
        exact htracks
      · intro hnone
        rw [show before.holder = none from hnone] at hholder
        cases hholder
      · intro other hother
        rw [show before.holder = some other from hother, some.injEq] at hholder
        subst hholder
        exact ⟨changed, hself, hentry.trans hmine, hstage⟩
    · rw [World.rehash_entries_of_ne hmine] at hkey
      refine .inl ⟨hkey, fun other hother hsame => ?_⟩
      rw [hsame] at hother
      exact hmine (hinv.holds hthread hkey hother)
  · intro key entry hkey
    have hnext : (world.rehash tid volume thread.entry change changed).nextEntry =
        world.nextEntry := by
      simp [World.rehash, World.setThread]
    rw [hnext]
    by_cases hmine : thread.entry = some key
    · obtain ⟨before, hbefore, _⟩ := hown key hmine
      exact hinv.entry_lt key before hbefore
    · rw [World.rehash_entries_of_ne hmine] at hkey
      exact hinv.entry_lt key entry hkey
  · intro proc session key hkey
    have htable : (world.rehash tid volume thread.entry change changed).table = world.table := by
      simp [World.rehash, World.setThread]
    rw [htable] at hkey
    exact .inl hkey

end Rehash

/-! ## The store's operations -/

theorem Call.returns_not_queued (call : Call) (newLen : ℕ) (ok : Bool) :
    (call.returns newLen ok : Stage Byte) ≠ .queued := by
  cases call <;> nofun

theorem Takes.not_queued {move : Move Byte} {stage : Stage Byte}
    (htakes : Takes hashing world.volume tid thread stage move) :
    stage ≠ .queued ∧ move.stage ≠ .queued := by
  cases htakes with
  | notOpened | notLocked | close => exact ⟨nofun, thread.call.returns_not_queued _ _⟩
  | _ => exact ⟨nofun, nofun⟩

variable {digest : Digest} {entry : Entry Byte} {holder : Option ℕ} {size key proc : ℕ}

theorem Inv.fast (hinv : Inv hashing world) (hthread : world.threads tid = some thread) {file : ℕ}
    (hcall : thread.call = .commit digest (some size))
    (hfile : world.volume.minted thread.path = some file) :
    hashing.verified ((world.volume.disk.content file).take size) digest = true := by
  obtain ⟨found, hfound, _, hverified⟩ := hinv.hashed tid thread hthread digest size hcall
  rw [hfile, some.injEq] at hfound
  exact hfound ▸ hverified

theorem Inv.act {move : Move Byte} (hinv : Inv hashing world)
    (hthread : world.threads tid = some thread)
    (htakes : Takes hashing world.volume tid thread thread.stage move) :
    Inv hashing (world.perform tid thread move) := by
  have hsound := hinv.sound tid thread hthread
  have hkeeps := htakes.keeps hthread
  have hqueued := htakes.not_queued
  change Inv hashing (world.rehash tid (world.volume.apply move.effect) thread.entry
    (fun state => state.write move.feed) (thread.at move.stage))
  refine hinv.rehash hthread hqueued.1 rfl rfl rfl hqueued.2 (hinv.names.apply htakes.mints)
    ?_ ?_ hkeeps ?_ ?_
  · intro other hother
    exact frame_apply hinv.names (htakes.spares hsound hother)
  · exact htakes.sound hsound hinv.names fun _ _ _ hcall hfile => hinv.fast hthread hcall hfile
  · exact (hinv.hashed tid thread hthread).keeps hkeeps hinv.names
  · intro state htracks hteed
    exact ⟨(htracks.write move.feed).keeps hkeeps hinv.names,
      htakes.teed hinv.sound hthread hinv.names htracks hteed⟩

theorem Stage.writer_of_file {stage : Stage Byte} (hfile : stage.file = none) :
    stage.writer = none := by
  cases stage with
  | holding file phase => cases hfile
  | _ => rfl

theorem World.keeps_rehash {change : HashState Byte → HashState Byte} {entry : Option ℕ}
    (hfile : changed.stage.file = none) :
    world.Keeps (world.rehash tid world.volume entry change changed) := by
  have hvolume : (world.rehash tid world.volume entry change changed).volume =
      world.volume.apply .quiet := World.rehash_volume entry
  refine World.keeps_apply hvolume trivial rfl ?_
  intro other any file base hany hwriter
  rw [World.rehash_threads] at hany
  by_cases hsame : other = tid
  · subst hsame
    rw [update_self, some.injEq] at hany
    subst hany
    rw [Stage.writer_of_file hfile] at hwriter
    cases hwriter
  · rwa [update_of_ne hsame] at hany

theorem Inv.turn {change : HashState Byte → HashState Byte} (hinv : Inv hashing world)
    (hthread : world.threads tid = some thread) (hqueued : thread.stage ≠ .queued)
    (hproc : changed.proc = thread.proc) (hsession : changed.session = thread.session)
    (hentry : changed.entry = thread.entry) (hstage : changed.stage ≠ .queued)
    (hfile : changed.stage.file = none) (hhashed : world.Hashed hashing changed)
    (hchange : ∀ state, world.Tracks thread.session state → world.Teed thread state →
      world.Tracks thread.session (change state) ∧ world.Teed changed (change state)) :
    Inv hashing (world.rehash tid world.volume thread.entry change changed) := by
  have hkeeps : world.Keeps (world.rehash tid world.volume thread.entry change changed) :=
    World.keeps_rehash hfile
  refine hinv.rehash hthread hqueued hproc hsession hentry hstage hinv.names
    (fun other _ => .refl _ other) (.of_no_file hfile) hkeeps (hhashed.keeps hkeeps hinv.names) ?_
  intro state htracks hteed
  obtain ⟨hnewTracks, hnewTeed⟩ := hchange state htracks hteed
  exact ⟨hnewTracks.keeps hkeeps hinv.names, hnewTeed.keeps hkeeps hinv.names⟩

theorem Inv.setThread (hinv : Inv hashing world)
    (hthread : world.threads tid = some thread) (hqueued : thread.stage ≠ .queued)
    (hproc : changed.proc = thread.proc) (hsession : changed.session = thread.session)
    (hentry : changed.entry = thread.entry) (hstage : changed.stage ≠ .queued)
    (hfile : changed.stage.file = none) (hhashed : world.Hashed hashing changed)
    (hchange : ∀ state, world.Tracks thread.session state → world.Teed thread state →
      world.Teed changed state) : Inv hashing (world.setThread tid changed) := by
  have hturn : Inv hashing
    (world.rehash tid world.volume thread.entry (fun state => state) changed) :=
    hinv.turn hthread hqueued hproc hsession hentry hstage hfile hhashed
      fun state htracks hteed => ⟨htracks, hchange state htracks hteed⟩
  rwa [World.rehash, World.onHash_id] at hturn

theorem World.hashed_of_other (hcall : ∀ digest size, changed.call ≠ .commit digest (some size)) :
    world.Hashed hashing changed :=
  fun digest size hcommit => absurd hcommit (hcall digest size)

theorem verified_of_covers {state : HashState Byte} (htracks : world.Tracks thread.session state)
    (hsettled : state.Settled) (hcovers : state.covers hashing digest = some size) :
    ∃ file, world.volume.minted thread.path = some file ∧ world.Stable file size ∧
      hashing.verified ((world.content file).take size) digest = true := by
  cases digest with
  | sha256 encoded =>
    cases hstate : state.h with
    | none => simp [HashState.covers, HashState.sum, algorithm, hstate] at hcovers
    | some fed =>
      simp only [HashState.covers, HashState.sum, algorithm, hstate, map_some,
        Text.sha256.injEq, ite_none_right_eq_some, some.injEq] at hcovers
      obtain ⟨hsum, rfl⟩ := hcovers
      obtain ⟨file, hminted, hstable, hfeds, hlength⟩ := htracks fed hstate
      rw [hsettled fed hstate, Nat.add_zero] at hlength
      refine ⟨file, hminted, hstable, ?_⟩
      rw [← hfeds, List.take_of_length_le hlength.le, Hashing.verified, hsum, beq_self_eq_true]
  | sha512 encoded | plain text => simp [HashState.covers, HashState.sum, algorithm] at hcovers

theorem Inv.hashedFor (hinv : Inv hashing world) (hthread : world.threads tid = some thread)
    (hstage : thread.stage = .idle) (hhashed : world.hashedFor hashing thread digest = some size) :
    ∃ file, world.volume.minted thread.path = some file ∧ world.Stable file size ∧
      hashing.verified ((world.content file).take size) digest = true := by
  cases hkey : thread.entry with
  | none => simp [World.hashedFor, hkey] at hhashed
  | some key =>
    obtain ⟨entry, hentry, _, hsession, hmine⟩ := hinv.held tid thread hthread key hkey
    obtain ⟨_, hteed⟩ := hmine (by rw [hstage]; nofun)
    have htracks := (hinv.entry key entry hentry).tracks
    rw [hsession] at htracks
    simp only [World.hashedFor, hkey, hentry] at hhashed
    exact verified_of_covers htracks (hteed.settled hstage) hhashed

theorem Inv.startCall {request : Request} (hinv : Inv hashing world)
    (hthread : world.threads tid = some thread)
    (hcall : world.startCall hashing tid thread request = some after) : Inv hashing after := by
  unfold World.startCall at hcall
  split at hcall
  case h_1 offset limit hstage =>
      cases hcall
      refine hinv.turn hthread (by rw [hstage]; nofun) rfl rfl rfl
        nofun rfl (World.hashed_of_other nofun) ?_
      intro state htracks hteed
      exact ⟨htracks.writer (hteed.settled hstage),
        World.teed_of_settled state.settled_writer (.inr (.inr rfl))⟩
  case h_2 digest hstage =>
      split at hcall
      case isFalse => cases hcall
      cases hcall
      refine hinv.setThread hthread (by rw [hstage]; nofun) rfl rfl rfl
        nofun rfl ?_ ?_
      · intro other size hcommit
        obtain ⟨rfl, hhashed⟩ := Call.commit.inj hcommit
        have hcovered := hinv.hashedFor hthread hstage hhashed
        exact hcovered
      · intro state _ hteed
        exact World.teed_of_settled (hteed.settled hstage) (.inr (.inr rfl))
  case h_3 hstage =>
      cases hcall
      refine hinv.setThread hthread (by rw [hstage]; nofun) rfl rfl rfl
        nofun rfl (World.hashed_of_other nofun) ?_
      intro state _ hteed
      exact World.teed_of_settled (hteed.settled hstage) (.inr (.inr rfl))
  case h_4 hstage =>
      cases hcall
      refine hinv.setThread hthread (by rw [hstage]; nofun) rfl rfl rfl
        nofun rfl (World.hashed_of_other nofun) ?_
      intro state _ hteed
      exact World.teed_of_settled (hteed.settled hstage) (.inr (.inr rfl))
  case h_5 => cases hcall

theorem Inv.settle (hinv : Inv hashing world) (hthread : world.threads tid = some thread)
    (hsettle : world.settle tid thread = some after) : Inv hashing after := by
  unfold World.settle at hsettle
  split at hsettle
  case h_2 => cases hsettle
  rename_i newLen ok hstage
  cases hsettle
  refine hinv.turn hthread (by rw [hstage]; nofun) rfl rfl rfl
    nofun rfl (hinv.hashed tid thread hthread) ?_
  intro state htracks hteed
  refine ⟨?_, World.teed_of_settled (state.settled_settle newLen ok) (.inl rfl)⟩
  cases happends : thread.call.appends with
  | true =>
    rw [World.teed_append happends, hstage] at hteed
    exact htracks.settle hteed
  | false =>
    rw [World.teed_other happends] at hteed
    exact htracks.settle_settled hteed

/-! ## Entries that change hands -/

theorem Inv.holds_none (hinv : Inv hashing world) (hthread : world.threads tid = some thread)
    (hnone : thread.entry = none) (hkey : world.entries key = some entry) :
    ∀ other, entry.holder = some other → other ≠ tid := by
  rintro other hholder rfl
  rw [hinv.holds hthread hkey hholder] at hnone
  cases hnone

theorem Inv.handOver (hinv : Inv hashing world) (hvolume : after.volume = world.volume)
    (hthreads : after.threads = Function.update world.threads tid (some changed))
    (hfile : changed.stage.file = none) (hhashed : world.Hashed hashing changed)
    (hheld : world.Keeps after → after.Held tid changed)
    (hspares : world.SparesEntries after (some tid))
    (hentry : world.Keeps after → ∀ key entry, after.entries key = some entry →
      world.entries key = some entry ∧ (∀ other, entry.holder = some other → other ≠ tid) ∨
        entry.Sound after key)
    (hlt : ∀ key entry, after.entries key = some entry → key < after.nextEntry)
    (htable : after.table = world.table) : Inv hashing after := by
  have hkeeps : world.Keeps after := by
    have hquiet : after.volume = world.volume.apply .quiet := hvolume
    refine World.keeps_apply hquiet trivial rfl ?_
    intro other any file base hany hwriter
    rw [hthreads] at hany
    by_cases hsame : other = tid
    · subst hsame
      rw [update_self, some.injEq] at hany
      subst hany
      rw [Stage.writer_of_file hfile] at hwriter
      cases hwriter
    · rwa [update_of_ne hsame] at hany
  refine hinv.advance (some tid) hkeeps
    (by rw [hvolume]; exact hinv.names) ?_ ?_ ?_ hspares ?_ hlt ?_
  · intro other _
    rw [hvolume]
    exact .refl _ other
  · intro other hother
    rw [hthreads, update_of_ne fun hsame => hother (congrArg some hsame)]
  · rintro any other ⟨⟩ hother
    rw [hthreads, update_self, some.injEq] at hother
    subst hother
    exact ⟨.of_no_file hfile, hhashed.keeps hkeeps hinv.names, hheld hkeeps⟩
  · intro key entry hkey
    refine (hentry hkeeps key entry hkey).imp_left fun ⟨hold, hnot⟩ => ⟨hold, ?_⟩
    intro other hother hsame
    exact hnot other hother (some.inj hsame)
  · intro proc session key hkey
    rw [htable] at hkey
    exact .inl hkey

theorem Inv.spawn {session : Session} (hinv : Inv hashing world)
    (hfree : world.threads tid = none) :
    Inv hashing (world.setThread tid ⟨proc, session, none, .cancel, .idle⟩) := by
  refine hinv.handOver rfl rfl rfl (World.hashed_of_other nofun) (nofun)
    (World.sparesEntries_of_eq rfl) ?_ hinv.entry_lt rfl
  intro _ key entry hkey
  refine .inl ⟨hkey, ?_⟩
  rintro other hholder rfl
  obtain ⟨holder, hholds, _⟩ := (hinv.entry key entry hkey).holder other hholder
  rw [hfree] at hholds
  cases hholds

theorem Inv.queue (hinv : Inv hashing world) (hthread : world.threads tid = some thread)
    (hnone : thread.entry = none) (howns : world.Owns thread.proc thread.session key) :
    Inv hashing (world.setThread tid { thread with entry := some key, stage := .queued }) := by
  refine hinv.handOver rfl rfl rfl (hinv.hashed tid thread hthread) ?_
    (World.sparesEntries_of_eq rfl) ?_ hinv.entry_lt rfl
  · rintro _ other ⟨⟩
    obtain ⟨entry, hentry, hproc, hsession⟩ := howns
    exact ⟨entry, hentry, hproc, hsession, fun hqueued => absurd rfl hqueued⟩
  · intro _ other entry hkey
    exact .inl ⟨hkey, hinv.holds_none hthread hnone hkey⟩

theorem World.setHolder_self :
    (world.setHolder key entry holder).entries key = some { entry with holder := holder } := by
  simp [World.setHolder]

theorem World.setHolder_of_ne {other : ℕ} (hne : other ≠ key) :
    (world.setHolder key entry holder).entries other = world.entries other := by
  simp [World.setHolder, hne]

theorem Inv.setHolder (hinv : Inv hashing world) (hkey : world.entries key = some entry)
    (hmine : ∀ other, entry.holder = some other → other = tid)
    (helse : ∀ other left, other ≠ key → world.entries other = some left → left.holder ≠ some tid)
    (hfile : changed.stage.file = none) (hhashed : world.Hashed hashing changed)
    (hsettled : entry.hash.Settled)
    (hheld : world.Keeps ((world.setHolder key entry holder).setThread tid changed) →
      ((world.setHolder key entry holder).setThread tid changed).Held tid changed)
    (hholder : ∀ other, holder = some other → other = tid ∧ changed.entry = some key ∧
      changed.stage ≠ .queued) :
    Inv hashing ((world.setHolder key entry holder).setThread tid changed) := by
  refine hinv.handOver rfl rfl hfile hhashed hheld ?_ ?_ ?_ rfl
  · intro other left hleft
    by_cases hsame : other = key
    · subst hsame
      rw [hkey, some.injEq] at hleft
      subst hleft
      refine ⟨_, World.setHolder_self, rfl, rfl, fun any hany hne => ?_⟩
      exact absurd (congrArg some (hmine any hany)) hne
    · exact ⟨left, (World.setHolder_of_ne hsame).trans hleft, rfl, rfl, fun _ _ _ => rfl⟩
  · intro hkeeps other left hleft
    change (world.setHolder key entry holder).entries other = some left at hleft
    by_cases hsame : other = key
    · subst hsame
      rw [World.setHolder_self, some.injEq] at hleft
      subst hleft
      refine .inr ⟨(hinv.entry _ entry hkey).tracks.keeps hkeeps hinv.names, fun _ => hsettled, ?_⟩
      intro any hany
      obtain ⟨rfl, hentry, hstage⟩ := hholder any hany
      exact ⟨changed, by simp [World.setThread], hentry, hstage⟩
    · rw [World.setHolder_of_ne hsame] at hleft
      refine .inl ⟨hleft, ?_⟩
      rintro any hany rfl
      exact helse other left hsame hleft hany
  · intro other left hleft
    change (world.setHolder key entry holder).entries other = some left at hleft
    by_cases hsame : other = key
    · subst hsame
      exact hinv.entry_lt _ entry hkey
    · rw [World.setHolder_of_ne hsame] at hleft
      exact hinv.entry_lt other left hleft

theorem Inv.lockEntry (hinv : Inv hashing world) (hthread : world.threads tid = some thread)
    (hlock : world.lockEntry tid thread = some after) : Inv hashing after := by
  unfold World.lockEntry at hlock
  split at hlock
  case h_2 => cases hlock
  rename_i key hstage hkey
  split at hlock
  case h_2 => cases hlock
  rename_i entry hentry
  split at hlock
  case h_2 => cases hlock
  rename_i hfree
  cases hlock
  have hsettled := (hinv.entry key entry hentry).free hfree
  obtain ⟨same, hsame, hproc, hsession, _⟩ := hinv.held tid thread hthread key hkey
  rw [hentry, some.injEq] at hsame
  subst hsame
  refine hinv.setHolder hentry ?_ ?_ rfl (hinv.hashed tid thread hthread) hsettled ?_ ?_
  · intro other hother
    rw [hfree] at hother
    cases hother
  · intro other left hne hleft hother
    -- A queued thread holds nothing.
    obtain ⟨holder, hholds, _, hqueued⟩ :=
      (hinv.entry other left hleft).holder tid hother
    rw [hthread, some.injEq] at hholds
    exact hqueued (hholds ▸ hstage)
  · rintro hkeeps other hother
    rw [show thread.entry = some other from hother, some.injEq] at hkey
    subst hkey
    exact ⟨_, World.setHolder_self, hproc, hsession,
      fun _ => ⟨rfl, World.teed_of_settled hsettled (.inl rfl)⟩⟩
  · rintro other ⟨⟩
    exact ⟨rfl, hkey, nofun⟩

theorem Inv.release (hinv : Inv hashing world) (hthread : world.threads tid = some thread)
    (hrelease : world.release tid thread = some after) : Inv hashing after := by
  unfold World.release at hrelease
  split at hrelease
  case h_2 => cases hrelease
  rename_i key hstage hkey
  split at hrelease
  case h_2 => cases hrelease
  rename_i entry hentry
  cases hrelease
  obtain ⟨same, hsame, _, _, hmine⟩ := hinv.held tid thread hthread key hkey
  rw [hentry, some.injEq] at hsame
  subst hsame
  obtain ⟨hholder, hteed⟩ := hmine (by rw [hstage]; nofun)
  refine hinv.setHolder hentry ?_ ?_ (by simp [hstage, Stage.file])
    (hinv.hashed tid thread hthread) (hteed.settled hstage) (nofun)
    (nofun)
  · intro other hother
    rw [hholder, some.injEq] at hother
    exact hother.symm
  · intro other left hne hleft hother
    rw [hinv.holds hthread hleft hother, some.injEq] at hkey
    exact hne hkey

theorem Inv.acquire (hinv : Inv hashing world) (hthread : world.threads tid = some thread)
    (hacquire : world.acquire tid thread = some after) : Inv hashing after := by
  unfold World.acquire at hacquire
  split at hacquire
  case h_2 => cases hacquire
  rename_i hstage hnone
  split at hacquire
  case h_1 key hkey =>
      cases hacquire
      exact hinv.queue hthread hnone (hinv.table _ _ key hkey)
  cases hacquire
  have hadded := hinv.addLost thread.proc thread.session
  have howns : (world.addEntry ⟨thread.proc, thread.session, .lost, none⟩).Owns thread.proc
      thread.session world.nextEntry := ⟨_, World.addEntry_self .., rfl, rfl⟩
  have htabled := hadded.setTable (some world.nextEntry) fun found hfound =>
    some.inj hfound ▸ howns
  exact htabled.queue hthread hnone howns

theorem Inv.bind (hinv : Inv hashing world) (hthread : world.threads tid = some thread)
    (hbind : world.bind tid thread = some after) : Inv hashing after := by
  unfold World.bind at hbind
  split at hbind
  case h_2 => cases hbind
  rename_i key hstage hkey
  cases hbind
  obtain ⟨entry, hentry, hproc, hsession, _⟩ := hinv.held tid thread hthread key hkey
  have howns : world.Owns thread.proc thread.session key := ⟨entry, hentry, hproc, hsession⟩
  have htabled := hinv.setTable (some key) fun found hfound => some.inj hfound ▸ howns
  refine htabled.setThread hthread (by rw [hstage]; nofun) rfl rfl rfl nofun rfl
    (htabled.hashed tid thread hthread) ?_
  intro state _ hteed
  have hsettled : state.Settled := by
    cases happends : thread.call.appends with
    | false => rwa [World.teed_other happends] at hteed
    | true =>
      rw [World.teed_append happends, hstage] at hteed
      exact hteed
  exact World.teed_of_settled hsettled (.inl rfl)

/-! ## New sessions -/

theorem Inv.newUpload {tracked : Bool} (hinv : Inv hashing world)
    (hthread : world.threads tid = some thread)
    (hnew : world.newUpload tid thread tracked = some after) : Inv hashing after := by
  unfold World.newUpload at hnew
  split at hnew
  case h_2 => cases hnew
  rename_i hstage hnone hminted
  have hmade : Inv hashing (world.onVolume (.create thread.path)) :=
    hinv.onVolume hminted (fun _ => hminted) rfl
  simp only at hnew
  split at hnew
  case isFalse =>
      cases hnew
      exact hmade
  cases hnew
  -- The new file is empty, and so is what the entry's hash was fed.
  have htracks : ∀ any : World Byte, any.volume = world.volume.apply (.create thread.path) →
      any.Tracks thread.session .newHashState := by
    intro any hvolume fed hfed
    cases hfed
    refine ⟨world.volume.nextInode, ?_, ⟨Nat.zero_le _, fun _ _ base _ _ => Nat.zero_le base⟩,
      rfl, rfl⟩
    rw [hvolume]
    simp [Volume.apply, Thread.path]
  refine hmade.handOver rfl rfl rfl (hmade.hashed tid thread hthread) ?_ ?_ ?_ ?_ rfl
  · rintro hkeeps key ⟨⟩
    exact ⟨_, World.addEntry_self .., rfl, rfl,
      fun _ => ⟨rfl, World.teed_of_settled (fun _ _ => rfl) (.inr (.inl rfl))⟩⟩
  · intro key entry hkey
    exact ⟨entry, World.addEntry_of_some hmade hkey, rfl, rfl, fun _ _ _ => rfl⟩
  · intro hkeeps key entry hkey
    rcases World.addEntry_cases hkey with ⟨rfl, rfl⟩ | hold
    · refine .inr ⟨htracks _ rfl, (fun hfalse => by cases hfalse), ?_⟩
      rintro other ⟨⟩
      exact ⟨{ thread with entry := some world.nextEntry, stage := .admitted },
        by simp [World.setThread], rfl, (fun hfalse => by cases hfalse)⟩
    · exact .inl ⟨hold, hmade.holds_none hthread hnone hold⟩
  · exact fun key entry hkey => World.addEntry_lt hmade hkey

theorem World.stop_threads (hthread : (world.stop proc).threads tid = some thread) :
    world.threads tid = some thread ∧ thread.proc ≠ proc := by
  obtain ⟨hold, hproc⟩ := filter_eq_some_iff.1 hthread
  exact ⟨hold, by simpa using hproc⟩

theorem World.threads_stop (hthread : world.threads tid = some thread)
    (hproc : thread.proc ≠ proc) :
    (world.stop proc).threads tid = some thread :=
  filter_eq_some_iff.2 ⟨hthread, by simpa using hproc⟩

theorem World.stop_entries (hentry : (world.stop proc).entries key = some entry) :
    world.entries key = some entry ∧ entry.proc ≠ proc := by
  obtain ⟨hold, hproc⟩ := filter_eq_some_iff.1 hentry
  exact ⟨hold, by simpa using hproc⟩

theorem World.entries_stop (hentry : world.entries key = some entry) (hproc : entry.proc ≠ proc) :
    (world.stop proc).entries key = some entry :=
  filter_eq_some_iff.2 ⟨hentry, by simpa using hproc⟩

theorem World.frame_stop (hthread : world.threads tid = some thread) (hproc : thread.proc ≠ proc) :
    world.volume.Frame tid (world.stop proc).volume where
  flock := by
    intro file hlocked
    refine filter_eq_some_iff.2 ⟨hlocked, ?_⟩
    simp [World.runsIn, hthread, hproc]
  content := fun _ _ => rfl
  named := fun _ hnamed => hnamed
  lone := fun _ _ hlone => hlone

theorem Inv.stop (hinv : Inv hashing world) (proc : ℕ) : Inv hashing (world.stop proc) := by
  have hkeeps : world.Keeps (world.stop proc) :=
    .of_content (fun _ _ hminted => hminted) (fun _ _ => rfl)
      fun tid thread _ _ hthread hwrites => ⟨tid, thread, (World.stop_threads hthread).1, hwrites⟩
  refine ⟨?_, ?_, ?_, ?_, ?_, ?_, ?_⟩
  · exact hinv.names.of_names rfl rfl fun _ _ hpath => .inl hpath
  · intro tid thread hthread
    obtain ⟨hold, hproc⟩ := World.stop_threads hthread
    exact (hinv.sound tid thread hold).frame hinv.names (World.frame_stop hold hproc) hkeeps.minted
  · intro tid thread hthread
    exact (hinv.hashed tid thread (World.stop_threads hthread).1).keeps hkeeps hinv.names
  · intro tid thread hthread key hkey
    obtain ⟨hold, hproc⟩ := World.stop_threads hthread
    obtain ⟨entry, hentry, hentryProc, hsession, hmine⟩ := hinv.held tid thread hold key hkey
    refine ⟨entry, World.entries_stop hentry (hentryProc ▸ hproc), hentryProc, hsession, ?_⟩
    intro hstage
    exact ⟨(hmine hstage).1, (hmine hstage).2.keeps hkeeps hinv.names⟩
  · intro key entry hentry
    obtain ⟨hold, hproc⟩ := World.stop_entries hentry
    have hsound := hinv.entry key entry hold
    refine ⟨hsound.tracks.keeps hkeeps hinv.names, hsound.free, ?_⟩
    intro tid hholder
    obtain ⟨thread, hthread, hkey, hstage⟩ := hsound.holder tid hholder
    -- The holder is a thread of the entry's own process.
    obtain ⟨same, hsame, hentryProc, _⟩ := hinv.held tid thread hthread key hkey
    rw [hold, some.injEq] at hsame
    subst hsame
    exact ⟨thread, World.threads_stop hthread (hentryProc ▸ hproc), hkey, hstage⟩
  · intro key entry hentry
    exact hinv.entry_lt key entry (World.stop_entries hentry).1
  · intro other session key hkey
    by_cases hsame : other = proc
    · subst hsame
      simp [World.stop] at hkey
    · simp only [World.stop, update_of_ne hsame] at hkey
      obtain ⟨entry, hentry, hentryProc, hsession⟩ := hinv.table other session key hkey
      exact ⟨entry, World.entries_stop hentry (hentryProc ▸ hsame), hentryProc, hsession⟩

theorem Inv.next {op : Op Byte} (hinv : Inv hashing world)
    (hnext : world.next hashing op = some after) : Inv hashing after := by
  cases op with
  | spawn tid proc session =>
    simp only [World.next] at hnext
    split at hnext
    case h_2 => cases hnext
    rename_i hfree
    cases hnext
    exact hinv.spawn hfree
  | newUpload tid tracked =>
    obtain ⟨thread, hthread, hnew⟩ := bind_eq_some_iff.1 hnext
    exact hinv.newUpload hthread hnew
  | bind tid =>
    obtain ⟨thread, hthread, hbind⟩ := bind_eq_some_iff.1 hnext
    exact hinv.bind hthread hbind
  | acquire tid =>
    obtain ⟨thread, hthread, hacquire⟩ := bind_eq_some_iff.1 hnext
    exact hinv.acquire hthread hacquire
  | lockEntry tid =>
    obtain ⟨thread, hthread, hlock⟩ := bind_eq_some_iff.1 hnext
    exact hinv.lockEntry hthread hlock
  | release tid =>
    obtain ⟨thread, hthread, hrelease⟩ := bind_eq_some_iff.1 hnext
    exact hinv.release hthread hrelease
  | forget proc session =>
    cases hnext
    exact hinv.setTable none nofun
  | call tid request =>
    obtain ⟨thread, hthread, hcall⟩ := bind_eq_some_iff.1 hnext
    exact hinv.startCall hthread hcall
  | act tid action =>
    obtain ⟨thread, hthread, hact⟩ := bind_eq_some_iff.1 hnext
    obtain ⟨move, hmove, rfl⟩ := map_eq_some_iff.1 hact
    exact hinv.act hthread (takes_of_move hmove)
  | settle tid =>
    obtain ⟨thread, hthread, hsettle⟩ := bind_eq_some_iff.1 hnext
    exact hinv.settle hthread hsettle
  | mount source repo digest =>
    cases hnext
    exact hinv.onVolume rfl (fun _ => ⟨rfl, fun _ _ _ => rfl⟩) rfl
  | mountReplace source repo digest =>
    simp only [World.next, World.mountReplace] at hnext
    split at hnext
    case h_2 => cases hnext
    split at hnext
    · cases hnext
      exact hinv.onVolume rfl (fun _ => ⟨rfl, fun _ _ _ => rfl⟩) rfl
    · cases hnext
  | removeBlob repo digest | removeTemp repo id =>
    cases hnext
    exact hinv.onVolume trivial (nofun) rfl
  | stop proc =>
    cases hnext
    exact hinv.stop proc

end K3sm.Registry.Upload
