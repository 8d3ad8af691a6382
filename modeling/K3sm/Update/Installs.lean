import K3sm.Core.Run
import K3sm.Update.Watcher

/-!
# Installs and handovers

The controller hands a node over in a patch that clears the phase, and it may do so at any
moment, between the node's write of Installing and its call of the root helper too.  A call
that comes after such a patch belongs to the handover before it.  Counted by the handover
its daemon read, the helper is called at most once, and only with Installing written.
-/

namespace K3sm.Update

open K3sm.Core K3sm.Core.Filepath List Option
open K3sm.Updatectl (NodePhase Payload)

/-- A call of the root helper: how often the phase had been cleared at the `Sync`'s read and
at the call, and whether that `Sync`, and the node since the clearing, had Installing applied. -/
structure Call where
  read : ℕ
  made : ℕ
  wrote : Bool
  installing : Bool
  deriving DecidableEq

/-- The Node, how often the phase has been cleared, now and at the current `Sync`'s read, what
that has done, whether Installing was applied since the last clearing, and the calls. -/
structure World where
  node : Option Node
  cleared : ℕ
  read : ℕ
  wrote : Bool
  called : Bool
  installing : Bool
  calls : List Call

inductive Change where
  | handover (version payload signature signer : Str)
  | clear
  | remove
  | create
  deriving DecidableEq

def World.change : Change → World → World
  | .handover version payload signature signer, world =>
    match world.node with
    | none => world
    | some _ =>
      { world with
        node := some ⟨version, payload, signature, signer, (.unset, [])⟩
        cleared := world.cleared + 1
        installing := false }
  | .clear, world =>
    match world.node with
    | none => world
    | some _ =>
      { world with node := some Node.blank, cleared := world.cleared + 1, installing := false }
  | .remove, world => { world with node := none }
  | .create, world =>
    match world.node with
    | none => { world with node := some Node.blank }
    | some _ => world

/-- What a change can do: nothing, clear the phase, or take the Node away or put a blank one
in its place. -/
theorem change_cases (change : Change) (world : World) : world.change change = world ∨
    (∃ node : Node, node.phase.1 = .unset ∧ world.change change =
      { world with node := some node, cleared := world.cleared + 1, installing := false }) ∨
    (∃ node : Option Node, (node = none ∨ node = some Node.blank) ∧
      world.change change = { world with node := node }) := by
  cases change with
  | handover version payload signature signer =>
    cases hnode : world.node with
    | none => exact .inl (by simp only [World.change, hnode])
    | some node =>
      exact .inr (.inl ⟨⟨version, payload, signature, signer, (.unset, [])⟩, rfl,
        by simp only [World.change, hnode]⟩)
  | clear =>
    cases hnode : world.node with
    | none => exact .inl (by simp only [World.change, hnode])
    | some node => exact .inr (.inl ⟨Node.blank, rfl, by simp only [World.change, hnode]⟩)
  | remove => exact .inr (.inr ⟨none, .inl rfl, rfl⟩)
  | create =>
    cases hnode : world.node with
    | none => exact .inr (.inr ⟨_, .inr rfl, by simp only [World.change, hnode]⟩)
    | some node => exact .inl (by simp only [World.change, hnode])

/-- What becomes of a call.  A call to the API is answered, fails, or takes effect without
its answer getting back. -/
inductive Outcome where
  | done
  | failed
  | unanswered
  | flag (flag : Bool)
  | verified (result : Except Str Payload)
  | directory (error : Option Str)
  | downloaded (result : Except Str Str)
  | helped (helped : Helped)

def World.patched (note : Note) (world : World) : World :=
  match world.node with
  | none => world
  | some node =>
    { world with
      node := some { node with phase := note }
      wrote := world.wrote || note.1 == .installing
      installing := world.installing || note.1 == .installing }

def fetched : Option Node → Fetched
  | none => .missing
  | some node => .found node

def World.handle : (request : Request) → Outcome → World → Answer request × World
  | .getNode, .done, world =>
    (fetched world.node, { world with
      read := world.cleared, wrote := false, called := false })
  | .getNode, _, world => (Fetched.failed, world)
  | .getAgain, .done, world => (fetched world.node, world)
  | .getAgain, _, world => (Fetched.failed, world)
  | .patchPhase note, .done, world => (world.node.isSome, world.patched note)
  | .patchPhase note, .unanswered, world => (false, world.patched note)
  | .patchPhase _, _, world => (false, world)
  | .ready, .flag flag, world => (flag, world)
  | .ready, _, world => (false, world)
  | .verify _, .verified result, world => (result, world)
  | .verify _, _, world => ((.error [] : Except Str Payload), world)
  | .attemptDir, .directory error, world => (error, world)
  | .attemptDir, _, world => (some [], world)
  | .download _, .downloaded result, world => (result, world)
  | .download _, _, world => ((.error [] : Except Str Str), world)
  | .applyUpdate, outcome, world =>
    (match outcome with
      | .helped helped => helped
      | _ => ⟨[], .error ([], [])⟩,
    { world with
      called := true
      calls := world.calls ++ [⟨world.read, world.cleared, world.wrote, world.installing⟩] })

variable {key : Key} {note : Note} {request : Request} {world : World}

theorem handle_cases (hread : request ≠ .getNode) (hhelper : request ≠ .applyUpdate)
    (outcome : Outcome) (world : World) : (World.handle request outcome world).2 = world ∨
    ∃ note, request = .patchPhase note ∧
      (World.handle request outcome world).2 = world.patched note := by
  cases request with
  | getNode => exact absurd rfl hread
  | applyUpdate => exact absurd rfl hhelper
  | patchPhase note =>
    cases outcome with
    | done | unanswered => exact .inr ⟨note, rfl, rfl⟩
    | _ => exact .inl rfl
  | _ => cases outcome <;> exact .inl rfl

def api : Machine Request Answer World Change Outcome := ⟨World.change, World.handle⟩

structure State where
  world : World
  memory : Memory

/-- A change of the node, a sync of the watcher or a restart. -/
inductive Step where
  | change (change : Change)
  | sync (events : List (Event Change Outcome))
  | restart

/-- One step.  A `Sync` that has not ended is one whose daemon has. -/
def next (config : Config) (state : State) : Step → State
  | .change change => { state with world := state.world.change change }
  | .sync events =>
    match play api (sync config state.memory) state.world events with
    | (.done (_, memory), world) => ⟨world, memory⟩
    | (.call _ _, world) => ⟨world, Memory.fresh⟩
  | .restart => { state with memory := Memory.fresh }

/-- Whether a `Sync` that reads this Node leaves the root helper alone, at any daemon that
does not run the release. -/
def Blocked (node : Option Node) : Prop :=
  ∀ found ∈ node, found.version = [] ∨ resumable found.phase.1 = false

theorem blocked_of_blank {node : Option Node} (hblank : node = none ∨ node = some Node.blank) :
    Blocked node := by
  rcases hblank with rfl | rfl
  · exact nofun
  intro found hfound
  rw [← some.inj hfound]
  exact .inl rfl

/-- The calls are of different handovers, each made with Installing written, and the one
handed over last is not open to another. -/
structure Counted (world : World) : Prop where
  bound : ∀ call ∈ world.calls, call.read ≤ world.read
  past : world.read ≤ world.cleared
  wrote : ∀ call ∈ world.calls, call.wrote = true
  once : (world.calls.map Call.read).Nodup
  spent : ∀ call ∈ world.calls, call.read = world.cleared → Blocked world.node

/-- The handover the current `Sync` read has had no call yet, and an Installing that stands
on the Node is of this `Sync`. -/
structure Open (world : World) : Prop where
  unspent : ∀ call ∈ world.calls, call.read ≠ world.read
  own : ∀ node ∈ world.node, node.phase.1 = .installing → world.wrote = true

def Installed (world : World) : Prop :=
  world.wrote = true ∧ (world.cleared = world.read → Blocked world.node)

abbrev anyChange : World → Change → Prop := fun _ _ => True
abbrev anyOutcome : World → Request → Outcome → Prop := fun _ _ _ => True

theorem Counted.raised (hcounted : Counted world) (node : Option Node) :
    Counted { world with node := node, cleared := world.cleared + 1, installing := false } where
  bound := hcounted.bound
  past := Nat.le_succ_of_le hcounted.past
  wrote := hcounted.wrote
  once := hcounted.once
  spent := by
    intro call hcall hlast
    have hbound := hcounted.bound call hcall
    have hpast := hcounted.past
    have hlast : call.read = world.cleared + 1 := hlast
    omega

theorem Counted.replaced (hcounted : Counted world) {node : Option Node}
    (hnode : ∀ call ∈ world.calls, call.read = world.cleared → Blocked node) :
    Counted { world with node := node } :=
  ⟨hcounted.bound, hcounted.past, hcounted.wrote, hcounted.once, hnode⟩

theorem stable_counted : Stable api anyChange (fun _ => True) Counted := by
  intro world change _ _ hcounted
  show Counted (world.change change)
  rcases change_cases change world with hsame | ⟨node, _, hraised⟩ | ⟨node, hblank, hreplaced⟩
  · rwa [hsame]
  · rw [hraised]
    exact hcounted.raised (some node)
  · rw [hreplaced]
    exact hcounted.replaced fun _ _ _ => blocked_of_blank hblank

theorem stable_open : Stable api anyChange Counted Open := by
  intro world change _ _ hopen
  show Open (world.change change)
  rcases change_cases change world with hsame | ⟨node, hunset, hraised⟩ | ⟨node, hblank, hreplaced⟩
  · rwa [hsame]
  · rw [hraised]
    refine ⟨hopen.unspent, ?_⟩
    intro found hfound hphase
    rw [← some.inj hfound, hunset] at hphase
    cases hphase
  · rw [hreplaced]
    refine ⟨hopen.unspent, ?_⟩
    rcases hblank with rfl | rfl
    · exact nofun
    intro found hfound hphase
    rw [← some.inj hfound] at hphase
    cases hphase

theorem stable_installed : Stable api anyChange Counted Installed := by
  intro world change hcounted _ hinstalled
  show Installed (world.change change)
  rcases change_cases change world with hsame | ⟨node, _, hraised⟩ | ⟨node, hblank, hreplaced⟩
  · rwa [hsame]
  · rw [hraised]
    refine ⟨hinstalled.1, ?_⟩
    intro hread
    have hpast := hcounted.past
    have hread : world.cleared + 1 = world.read := hread
    omega
  · rw [hreplaced]
    exact ⟨hinstalled.1, fun _ => blocked_of_blank hblank⟩

def Quiet (request : Request) : Prop := request ≠ .getNode ∧ request ≠ .applyUpdate

def Closing (request : Request) : Prop :=
  Quiet request ∧ ∀ note, request = .patchPhase note → resumable note.1 = false

theorem Counted.patched (hcounted : Counted world)
    (hnote : (∀ call ∈ world.calls, call.read ≠ world.cleared) ∨ resumable note.1 = false) :
    Counted (world.patched note) := by
  unfold World.patched
  cases hnode : world.node with
  | none => exact hcounted
  | some node =>
    refine ⟨hcounted.bound, hcounted.past, hcounted.wrote, hcounted.once, ?_⟩
    intro call hcall hlast
    rcases hnote with hunspent | hclosing
    · exact absurd hlast (hunspent call hcall)
    intro found hfound
    rw [← some.inj hfound]
    exact .inr hclosing

theorem Counted.unspent (hcounted : Counted world) (hopen : Open world) :
    ∀ call ∈ world.calls, call.read ≠ world.cleared := by
  intro call hcall hlast
  have hbound := hcounted.bound call hcall
  have hpast := hcounted.past
  have hunspent := hopen.unspent call hcall
  omega

theorem counted_closing (hclosing : Closing request) (outcome : Outcome)
    (hcounted : Counted world) :
    Counted (World.handle request outcome world).2 := by
  rcases handle_cases hclosing.1.1 hclosing.1.2 outcome world with hsame | ⟨note, hnote, hpatched⟩
  · rwa [hsame]
  · rw [hpatched]
    exact hcounted.patched (.inr (hclosing.2 note hnote))

theorem Open.patched (hopen : Open world) (note : Note) : Open (world.patched note) := by
  unfold World.patched
  cases hnode : world.node with
  | none => exact hopen
  | some node =>
    refine ⟨hopen.unspent, ?_⟩
    intro found hfound hphase
    rw [← some.inj hfound] at hphase
    exact Bool.or_eq_true_iff.2 (.inr (beq_iff_eq.2 hphase))

theorem open_quiet (hquiet : Quiet request) (outcome : Outcome)
    (hworld : Counted world ∧ Open world) :
    Counted (World.handle request outcome world).2 ∧
      Open (World.handle request outcome world).2 := by
  rcases handle_cases hquiet.1 hquiet.2 outcome world with hsame | ⟨note, _, hpatched⟩
  · rwa [hsame]
  · rw [hpatched]
    exact ⟨hworld.1.patched (.inl (hworld.1.unspent hworld.2)), hworld.2.patched note⟩

abbrev anyAnswer : (request : Request) → Answer request → Prop := fun _ _ => True
abbrev anyEnd {Result : Type} : Result → Prop := fun _ => True

theorem retryPhase_all {sends : Request → Prop} (hget : sends .getAgain)
    (hpatch : sends (.patchPhase note)) (waits : List ℕ) :
    (retryPhase key note waits).All anyAnswer sends anyEnd := by
  induction waits with
  | nil => trivial
  | cons wait waits ih =>
    refine ⟨hget, ?_⟩
    intro answer _
    cases answer with
    | missing => trivial
    | failed => exact ih
    | found node =>
      show Prog.All _ _ _ (if handoverKey node ≠ key then _ else _)
      split
      · trivial
      split
      · trivial
      refine ⟨hpatch, ?_⟩
      intro applied _
      cases applied with
      | true => trivial
      | false => exact ih

theorem writePhase_all {sends : Request → Prop} (hget : sends .getAgain)
    (hpatch : sends (.patchPhase note)) : (writePhase key note).All anyAnswer sends anyEnd := by
  refine ⟨hpatch, ?_⟩
  intro applied _
  cases applied with
  | true => trivial
  | false => exact retryPhase_all hget hpatch waits

theorem closing_getAgain : Closing .getAgain :=
  ⟨⟨nofun, nofun⟩, nofun⟩

theorem closing_patch (hnote : resumable note.1 = false) : Closing (.patchPhase note) := by
  refine ⟨⟨nofun, nofun⟩, ?_⟩
  intro other hother
  rw [← Request.patchPhase.inj hother]
  exact hnote

theorem writePhase_closing (hnote : resumable note.1 = false) :
    (writePhase key note).All anyAnswer Closing anyEnd :=
  writePhase_all closing_getAgain (closing_patch hnote)

theorem fail_closing (memory : Memory) (key : Key) (message tail : Str) :
    (fail memory key message tail).All anyAnswer Closing anyEnd := by
  refine (writePhase_closing rfl).bind ?_
  intro ended _
  cases ended <;> trivial

theorem mirrorFrames_closing (key : Key) (restarting : Bool) (frames : List WirePhase) :
    (mirrorFrames key restarting frames).All anyAnswer Closing anyEnd := by
  induction frames generalizing restarting with
  | nil => trivial
  | cons frame frames ih =>
    unfold mirrorFrames
    split
    · exact (writePhase_closing rfl).bind fun _ _ => ih true
    · exact ih restarting

theorem deliver_closing (memory : Memory) (key : Key) (verdict : Str) :
    (deliver memory key verdict).All anyAnswer Closing anyEnd := by
  refine (writePhase_closing rfl).bind ?_
  intro ended _
  cases ended <;> trivial

theorem reportDone_closing (memory : Memory) (key : Key) (node : Node) :
    (reportDone memory key node).All anyAnswer Closing anyEnd := by
  unfold reportDone
  split
  · trivial
  refine ⟨⟨⟨nofun, nofun⟩, nofun⟩, ?_⟩
  intro ready _
  cases ready with
  | false => trivial
  | true => exact (writePhase_closing rfl).bind fun _ _ => trivial

theorem safe_of_closing {Result : Type} {program : Act Result}
    (hall : program.All anyAnswer Closing anyEnd) (world : World) :
    program.Safe api anyChange anyOutcome Counted (fun _ _ => True) world :=
  hall.safe (fun _ _ _ _ _ => trivial)
    (fun _ _ outcome hcounted hclosing _ => counted_closing hclosing outcome hcounted) world

theorem safe_of_quiet {Result : Type} {program : Act Result} {post : Result → Prop}
    (hall : program.All anyAnswer Quiet post) (hcounted : Counted world) (hopen : Open world) :
    program.Safe api anyChange anyOutcome Counted (fun _ world => Open world) world := by
  have hsafe : program.Safe api anyChange anyOutcome Counted
      (fun result world => post result ∧ Open world) world :=
    hall.keeps stable_counted stable_open (fun _ _ _ _ _ => trivial)
      (fun _ _ outcome hkept hopen hquiet _ => open_quiet hquiet outcome ⟨hkept, hopen⟩)
      hcounted hopen
  exact hsafe.mono fun _ _ _ hpost => hpost.2

/-! ## The write of Installing -/

def installingNote : Note := formatPhase .installing []

def AfterInstalling (ended : WriteEnd) (world : World) : Prop :=
  Open world ∧ (ended = .written → Installed world)

theorem stable_afterInstalling (ended : WriteEnd) :
    Stable api anyChange Counted (AfterInstalling ended) := by
  intro world change hcounted hchange hafter
  refine ⟨stable_open world change hcounted hchange hafter.1, ?_⟩
  intro hended
  exact stable_installed world change hcounted hchange (hafter.2 hended)

theorem safe_written {ended : WriteEnd} (hcounted : Counted world) (hopen : Open world)
    (hinstalled : ended = .written → Installed world) :
    (Prog.done ended : Act WriteEnd).Safe api anyChange anyOutcome Counted AfterInstalling world :=
  Prog.safe_done stable_counted (stable_afterInstalling ended) hcounted ⟨hopen, hinstalled⟩

theorem installed_of_phase {node : Node} (hopen : Open world) (hnode : world.node = some node)
    (hphase : node.phase = installingNote) : Installed world := by
  refine ⟨hopen.own node hnode (by rw [hphase]; rfl), ?_⟩
  intro _ found hfound
  rw [hnode] at hfound
  rw [← some.inj hfound, hphase]
  exact .inr rfl

theorem installed_patched (hnode : world.node.isSome = true) :
    Installed (world.patched installingNote) := by
  obtain ⟨node, hnode⟩ := isSome_iff_exists.1 hnode
  simp only [World.patched, hnode]
  refine ⟨Bool.or_eq_true_iff.2 (.inr rfl), ?_⟩
  intro _ found hfound
  rw [← some.inj hfound]
  exact .inr rfl

theorem patch_installing {next : Bool → Act WriteEnd} (hnext : next true = .done .written)
    (hagain : ∀ world, Counted world → Open world →
      (next false).Safe api anyChange anyOutcome Counted AfterInstalling world)
    (hcounted : Counted world) (hopen : Open world) :
    (Prog.call (.patchPhase installingNote) next : Act WriteEnd).Safe api anyChange anyOutcome
      Counted AfterInstalling world := by
  refine Prog.safe_call stable_counted stable_open hcounted hopen ?_
  intro later hlater hopenLater outcome _
  have hquiet : Quiet (.patchPhase installingNote) := ⟨nofun, nofun⟩
  obtain ⟨hafter, hopenAfter⟩ := open_quiet hquiet outcome ⟨hlater, hopenLater⟩
  refine ⟨hafter, ?_⟩
  cases outcome with
  | done =>
    show (next later.node.isSome).Safe api anyChange anyOutcome Counted AfterInstalling
      (later.patched installingNote)
    cases hnode : later.node.isSome with
    | true =>
      rw [hnext]
      exact safe_written hafter hopenAfter fun _ => installed_patched hnode
    | false => exact hagain _ hafter hopenAfter
  | _ => exact hagain _ hafter hopenAfter

theorem retryPhase_installing (key : Key) (waits : List ℕ) (world : World)
    (hcounted : Counted world) (hopen : Open world) :
    (retryPhase key installingNote waits).Safe api anyChange anyOutcome Counted AfterInstalling
      world := by
  induction waits generalizing world with
  | nil => exact safe_written hcounted hopen nofun
  | cons wait waits ih =>
    refine Prog.safe_call stable_counted stable_open hcounted hopen ?_
    intro later hlater hopenLater outcome _
    have hquiet : Quiet .getAgain := ⟨nofun, nofun⟩
    refine ⟨(open_quiet hquiet outcome ⟨hlater, hopenLater⟩).1, ?_⟩
    cases outcome with
    | done =>
      show Prog.Safe api anyChange anyOutcome Counted AfterInstalling
        (Prog.bind (.done (fetched later.node)) _) later
      cases hnode : later.node with
      | none => exact safe_written hlater hopenLater nofun
      | some node =>
        show Prog.Safe api anyChange anyOutcome Counted AfterInstalling
          (if handoverKey node ≠ key then _ else _) later
        split
        · exact safe_written hlater hopenLater nofun
        split
        case isTrue hphase =>
          exact safe_written hlater hopenLater fun _ => installed_of_phase hopenLater hnode hphase
        case isFalse => exact patch_installing rfl ih hlater hopenLater
    | _ => exact ih later hlater hopenLater

theorem writePhase_installing (key : Key) (hcounted : Counted world) (hopen : Open world) :
    (writePhase key installingNote).Safe api anyChange anyOutcome Counted AfterInstalling world :=
  patch_installing rfl (retryPhase_installing key waits) hcounted hopen

theorem stable_readyToInstall :
    Stable api anyChange Counted (fun world => Open world ∧ Installed world) := by
  intro world change hcounted hchange hready
  exact ⟨stable_open world change hcounted hchange hready.1,
    stable_installed world change hcounted hchange hready.2⟩

theorem counted_helper (hcounted : Counted world) (hopen : Open world)
    (hinstalled : Installed world) (outcome : Outcome) :
    Counted (World.handle .applyUpdate outcome world).2 := by
  refine ⟨?_, hcounted.past, ?_, ?_, ?_⟩
  · exact forall_mem_append.2 ⟨hcounted.bound, forall_mem_singleton.2 le_rfl⟩
  · exact forall_mem_append.2 ⟨hcounted.wrote, forall_mem_singleton.2 hinstalled.1⟩
  · show ((world.calls ++ _).map Call.read).Nodup
    rw [map_append, map_singleton]
    refine hcounted.once.append (nodup_singleton _) ?_
    intro read hread hnew
    obtain ⟨call, hcall, rfl⟩ := mem_map.1 hread
    exact hopen.unspent call hcall (mem_singleton.1 hnew)
  · intro call hcall hlast
    rcases mem_append.1 hcall with hold | hnew
    · exact hcounted.spent call hold hlast
    · rw [mem_singleton.1 hnew] at hlast
      exact hinstalled.2 hlast.symm

theorem afterHelper_closing (memory : Memory) (key : Key) (helped : Helped) :
    (afterHelper memory key helped).All anyAnswer Closing anyEnd := by
  refine (mirrorFrames_closing key false helped.frames).bind ?_
  intro restarting _
  cases helped.outcome with
  | error report => exact fail_closing memory key report.1 report.2
  | ok phase =>
    show Prog.All _ _ _ (if advances phase && !restarting then _ else _)
    split
    · exact (writePhase_closing rfl).bind fun _ _ => trivial
    · trivial

theorem install_safe (memory : Memory) (key : Key) (hcounted : Counted world) (hopen : Open world)
    (hinstalled : Installed world) :
    (install memory key).Safe api anyChange anyOutcome Counted (fun _ _ => True) world := by
  refine Prog.safe_call stable_counted stable_readyToInstall hcounted ⟨hopen, hinstalled⟩ ?_
  intro later hlater hready outcome _
  exact ⟨counted_helper hlater hready.1 hready.2 outcome,
    safe_of_closing (afterHelper_closing memory key _) _⟩

theorem writePhase_quiet (key : Key) (note : Note) :
    (writePhase key note).All anyAnswer Quiet anyEnd :=
  writePhase_all ⟨nofun, nofun⟩ ⟨nofun, nofun⟩

theorem fetchAndInstall_safe (config : Config) (memory : Memory) (key : Key) (payload : Payload)
    (hcounted : Counted world) (hopen : Open world) :
    (fetchAndInstall config memory key payload).Safe api anyChange anyOutcome Counted
      (fun _ _ => True) world := by
  refine (safe_of_quiet (writePhase_quiet key _) hcounted hopen).bind hcounted ?_
  intro downloading world hcounted hopen
  cases downloading with
  | lost | moved => exact fun _ _ _ => trivial
  | written =>
    have hquiet : (call (.download payload.url)).All anyAnswer Quiet anyEnd :=
      ⟨⟨nofun, nofun⟩, fun _ _ => trivial⟩
    refine (safe_of_quiet hquiet hcounted hopen).bind hcounted ?_
    intro downloaded world hcounted hopen
    cases downloaded with
    | error message => exact safe_of_closing (fail_closing memory key message []) world
    | ok sum =>
      refine (safe_of_quiet (writePhase_quiet key _) hcounted hopen).bind hcounted ?_
      intro verifying world hcounted hopen
      cases verifying with
      | lost | moved => exact fun _ _ _ => trivial
      | written =>
        show Prog.Safe _ _ _ _ _ (if sum ≠ payload.sha256 then _ else _) world
        split
        · exact safe_of_closing (fail_closing memory key _ []) world
        refine (writePhase_installing key hcounted hopen).bind hcounted ?_
        intro installing world hcounted hafter
        cases installing with
        | lost | moved => exact fun _ _ _ => trivial
        | written => exact install_safe memory key hcounted hafter.1 (hafter.2 rfl)

theorem attempt_safe (config : Config) (memory : Memory) (key : Key) (node : Node)
    (hcounted : Counted world) (hopen : Open world) :
    (attempt config memory key node).Safe api anyChange anyOutcome Counted (fun _ _ => True)
      world := by
  have hfail : ∀ message world, (fail memory key message []).Safe api anyChange anyOutcome Counted
      (fun _ _ => True) world :=
    fun message world => safe_of_closing (fail_closing memory key message []) world
  have hverify : (call (.verify node)).All anyAnswer Quiet anyEnd :=
    ⟨⟨nofun, nofun⟩, fun _ _ => trivial⟩
  refine (safe_of_quiet hverify hcounted hopen).bind hcounted ?_
  intro verified world hcounted hopen
  cases verified with
  | error message => exact hfail message world
  | ok payload =>
    show Prog.Safe _ _ _ _ _ (if payload.version ≠ node.version then _ else _) world
    split
    · exact hfail _ world
    cases config.hostPin payload.url with
    | some message => exact hfail message world
    | none =>
      show Prog.Safe _ _ _ _ _
        (if config.older node.version && !payload.allowDowngrade then _ else _) world
      split
      · exact hfail _ world
      have hdir : (call .attemptDir).All anyAnswer Quiet anyEnd :=
        ⟨⟨nofun, nofun⟩, fun _ _ => trivial⟩
      refine (safe_of_quiet hdir hcounted hopen).bind hcounted ?_
      intro directory world hcounted hopen
      cases directory with
      | some message => exact hfail message world
      | none => exact fetchAndInstall_safe config memory key payload hcounted hopen

theorem tryHandover_safe (config : Config) (memory : Memory) (key : Key) (node : Node)
    (hcounted : Counted world) (hopen : Open world) :
    (tryHandover config memory key node).Safe api anyChange anyOutcome Counted (fun _ _ => True)
      world :=
  (attempt_safe config _ key node hcounted hopen).bind hcounted fun _ _ _ _ _ _ _ => trivial

theorem resume_safe (config : Config) (memory : Memory) (key : Key) (node : Node)
    (hcounted : Counted world) (hopen : resumable node.phase.1 = true → Open world) :
    (resume config memory key node).Safe api anyChange anyOutcome Counted (fun _ _ => True)
      world := by
  unfold resume
  cases hphase : node.phase.1 with
  | unset => exact tryHandover_safe config memory key node hcounted (hopen (by rw [hphase]; rfl))
  | downloading | verifying =>
    show Prog.Safe _ _ _ _ _ (if key ∈ memory.tried then _ else _) world
    split
    · exact fun _ _ _ => trivial
    · exact tryHandover_safe config memory key node hcounted (hopen (by rw [hphase]; rfl))
  | _ => exact fun _ _ _ => trivial

theorem syncNode_safe (config : Config) (memory : Memory) (node : Node) (hcounted : Counted world)
    (hopen : node.version ≠ [] → resumable node.phase.1 = true → Open world) :
    (syncNode config memory node).Safe api anyChange anyOutcome Counted (fun _ _ => True)
      world := by
  unfold syncNode
  split
  · exact fun _ _ _ => trivial
  rename_i hversion
  split
  · exact safe_of_closing (reportDone_closing memory _ node) world
  cases memory.owed (handoverKey node) with
  | none => exact resume_safe config memory _ node hcounted (hopen hversion)
  | some verdict =>
    show Prog.Safe _ _ _ _ _ (if _ ∧ _ then _ else _) world
    split
    · exact safe_of_closing (deliver_closing memory _ verdict) world
    · exact resume_safe config _ _ node hcounted (hopen hversion)

theorem counted_read (hcounted : Counted world) : Counted (World.handle .getNode .done world).2 :=
  ⟨fun call hcall => (hcounted.bound call hcall).trans hcounted.past, le_rfl, hcounted.wrote,
    hcounted.once, hcounted.spent⟩

theorem open_read (hcounted : Counted world) {node : Node} (hnode : world.node = some node)
    (hversion : node.version ≠ []) (hphase : resumable node.phase.1 = true) :
    Open (World.handle .getNode .done world).2 := by
  constructor
  · intro call hcall hread
    rcases hcounted.spent call hcall hread node hnode with hempty | hblocked
    · exact hversion hempty
    · rw [hphase] at hblocked
      cases hblocked
  · intro found hfound hinstalling
    have hsame : world.node = some found := hfound
    rw [hnode] at hsame
    rw [← some.inj hsame] at hinstalling
    rw [hinstalling] at hphase
    cases hphase

theorem sync_safe (config : Config) (memory : Memory) (world : World) :
    (sync config memory).Safe api anyChange anyOutcome Counted (fun _ _ => True) world := by
  intro later hothers hlater outcome _
  cases outcome with
  | done =>
    refine ⟨counted_read hlater, ?_⟩
    show Prog.Safe api anyChange anyOutcome Counted (fun _ _ => True)
      (Prog.bind (.done (fetched later.node)) _) _
    cases hnode : later.node with
    | none => exact fun _ _ _ => trivial
    | some node =>
      exact syncNode_safe config _ node (counted_read hlater) (open_read hlater hnode)
  | _ => exact ⟨hlater, fun _ _ _ => trivial⟩

theorem next_sync_world (config : Config) (state : State) (events : List (Event Change Outcome)) :
    (next config state (.sync events)).world =
      (play api (sync config state.memory) state.world events).2 := by
  simp only [next]
  split
  · rename_i hplayed
    rw [hplayed]
  · rename_i hplayed
    rw [hplayed]

theorem counted_next (config : Config) (state : State) (step : Step)
    (hcounted : Counted state.world) : Counted (next config state step).world := by
  cases step with
  | change change => exact stable_counted state.world change trivial trivial hcounted
  | restart => exact hcounted
  | sync events =>
    have hmeets : EventsMeet api anyChange anyOutcome (sync config state.memory) state.world
        events :=
      eventsMeet_of_forall api anyChange anyOutcome (fun _ _ => trivial)
        (fun _ _ _ => trivial) _ _ _
    have hplayed := ((sync_safe config state.memory state.world).play stable_counted hcounted
      hmeets).1
    rwa [next_sync_world]

/-! ## At most one install for a handover -/

def World.start (node : Option Node) : World := ⟨node, 0, 0, false, false, false, []⟩

theorem counted_start (node : Option Node) : Counted (World.start node) :=
  ⟨nofun, le_rfl, nofun, nodup_nil, nofun⟩

/-- Of the calls of the root helper no two are made by daemons that read the same handover,
and each is made by one that had its write of Installing applied. -/
theorem installs_once_per_handover (config : Config) (node : Option Node) (memory : Memory)
    (steps : List Step) :
    Always (fun state => (state.world.calls.map Call.read).Nodup ∧
        ∀ call ∈ state.world.calls, call.wrote = true)
      (next config) ⟨World.start node, memory⟩ steps := by
  have halways : Always (fun state => Counted state.world) (next config)
      ⟨World.start node, memory⟩ steps :=
    always_of_step (counted_next config) (counted_start node) steps
  exact halways.mono fun state hcounted => ⟨hcounted.once, hcounted.wrote⟩

/-- A daemon whose own checks pass every payload, and that does not run the release. -/
def demoConfig : Config := ⟨fun _ => false, fun _ => none, fun _ => false, fun _ => []⟩

def demoNode : Node := ⟨['v'], [], [], [], (.unset, [])⟩

def demoPayload : Payload := ⟨['v'], [], [], [], false⟩

def demoToInstalling : List (Event Change Outcome) :=
  [.answer .done, .answer (.verified (.ok demoPayload)), .answer (.directory none), .answer .done,
    .answer (.downloaded (.ok [])), .answer .done, .answer .done]

/-- The Node is handed over again between the write of Installing and the call, whose installer
stops the daemon; the next one finds a fresh handover and calls the helper too. -/
def demoOverlap : List Step :=
  let handover : Event Change Outcome := .change (.handover ['v'] [] [] [])
  let helped : Event Change Outcome := .answer (.helped ⟨[.installing], .ok .done⟩)
  [.sync (demoToInstalling ++ [handover, helped]), .sync (demoToInstalling ++ [helped])]

/-- Counted by when they are made, the calls between two clearings of the phase can be two,
and one of them can come before any write of Installing since. -/
theorem two_installs_between_clears :
    ¬ ∀ (config : Config) (node : Option Node) (memory : Memory) (steps : List Step),
      Always (fun state => (state.world.calls.map Call.made).Nodup ∧
          ∀ call ∈ state.world.calls, call.installing = true)
        (next config) ⟨World.start node, memory⟩ steps := by
  intro hclaim
  have hlast := (hclaim demoConfig (some demoNode) Memory.fresh demoOverlap).last
  revert hlast
  decide

end K3sm.Update
