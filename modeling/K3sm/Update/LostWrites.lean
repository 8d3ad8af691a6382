import K3sm.Update.Installs

/-!
# Phase writes that are lost

A write that uses its budget ends the `Sync`, with the phase on the Node unknown.  What the next
`Sync` of the same handover does depends on that phase and on what the daemon remembers.
-/

namespace K3sm.Update

open K3sm.Core K3sm.Core.Filepath
open K3sm.Updatectl (NodePhase Payload)

def PhaseIn (kind : Note → Prop) (world : World) : Prop :=
  ∀ node ∈ world.node, kind node.phase

def Within (kind : Note → Prop) (request : Request) : Prop :=
  request ≠ .getNode ∧ ∀ note, request = .patchPhase note → kind note

variable {key : Key} {memory : Memory} {node : Node} {note : Note} {kind : Note → Prop}
  {helped : Prop} {state : State} {world : World}

theorem PhaseIn.patched (hworld : PhaseIn kind world) (hnote : kind note) :
    PhaseIn kind (world.patched note) := by
  unfold World.patched
  cases hnode : world.node with
  | none => exact hworld
  | some node =>
    intro found hfound
    rw [← Option.some.inj hfound]
    exact hnote

theorem PhaseIn.handle (hworld : PhaseIn kind world) {request : Request}
    (hwithin : Within kind request) (outcome : Outcome) :
    PhaseIn kind (World.handle request outcome world).2 := by
  by_cases hhelper : request = .applyUpdate
  · subst hhelper
    exact hworld
  · rcases handle_cases hwithin.1 hhelper outcome world with hsame | ⟨note, hnote, hpatched⟩
    · rwa [hsame]
    · rw [hpatched]
      exact hworld.patched (hwithin.2 note hnote)

theorem PhaseIn.change (hunset : ∀ note : Note, note.1 = .unset → kind note)
    (hworld : PhaseIn kind world) (change : Change) : PhaseIn kind (world.change change) := by
  rcases change_cases change world with hsame | ⟨node, hnode, hraised⟩ | ⟨node, hblank, hreplaced⟩
  · rwa [hsame]
  · rw [hraised]
    intro found hfound
    rw [← Option.some.inj hfound]
    exact hunset _ hnode
  · rw [hreplaced]
    rcases hblank with rfl | rfl
    · exact nofun
    intro found hfound
    rw [← Option.some.inj hfound]
    exact hunset _ rfl

def early (note : Note) : Prop :=
  note.1 = .unset ∨ note.1 = .downloading ∨ note.1 = .verifying ∨ note.1 = .installing

def notFailed (note : Note) : Prop := note.1 ≠ .failed

def failedOnlyWith (verdict : Str) (note : Note) : Prop :=
  note.1 = .failed → note = formatPhase .failed verdict

theorem early_unset (note : Note) (hnote : note.1 = .unset) : early note := .inl hnote

theorem notFailed_unset (note : Note) (hnote : note.1 = .unset) : notFailed note := by
  intro hfailed
  rw [hnote] at hfailed
  cases hfailed

theorem failedOnlyWith_of_notFailed (verdict : Str) (note : Note) (hnote : notFailed note) :
    failedOnlyWith verdict note :=
  fun hfailed => absurd hfailed hnote

theorem failedOnlyWith_unset (verdict : Str) (note : Note) (hnote : note.1 = .unset) :
    failedOnlyWith verdict note :=
  failedOnlyWith_of_notFailed verdict note (notFailed_unset note hnote)

theorem notFailed_of_early (note : Note) (hnote : early note) : notFailed note := by
  intro hfailed
  rcases hnote with h | h | h | h <;> (rw [h] at hfailed; cases hfailed)

theorem PhaseIn.mono {wider : Note → Prop} (hworld : PhaseIn kind world)
    (hwider : ∀ note, kind note → wider note) : PhaseIn wider world :=
  fun node hnode => hwider _ (hworld node hnode)

abbrev anyWorld : World → Prop := fun _ => True

theorem stable_anyWorld : Stable api anyChange anyWorld anyWorld := fun _ _ _ _ _ => trivial

/-- What is known of the world at a point of an attempt: the kind of the phase, and that the
helper has been called if it has. -/
structure Stands (kind : Note → Prop) (helped : Prop) (world : World) : Prop where
  phase : PhaseIn kind world
  called : helped → world.called = true

theorem Stands.mono {wider : Note → Prop} (hstands : Stands kind helped world)
    (hwider : ∀ note, kind note → wider note) : Stands wider helped world :=
  ⟨hstands.phase.mono hwider, hstands.called⟩

theorem change_called (change : Change) (world : World) :
    (world.change change).called = world.called := by
  rcases change_cases change world with hsame | ⟨_, _, hraised⟩ | ⟨_, _, hreplaced⟩
  · rw [hsame]
  · rw [hraised]
  · rw [hreplaced]

theorem patched_called (note : Note) (world : World) :
    (world.patched note).called = world.called := by
  unfold World.patched
  cases world.node with
  | none | some node => rfl

theorem stable_stands (helped : Prop) (hunset : ∀ note : Note, note.1 = .unset → kind note) :
    Stable api anyChange anyWorld (Stands kind helped) := by
  intro world change _ _ hstands
  refine ⟨hstands.phase.change hunset change, ?_⟩
  intro hhelped
  exact (change_called change world).trans (hstands.called hhelped)

theorem Stands.handle (hstands : Stands kind helped world) {request : Request}
    (hwithin : Within kind request) (outcome : Outcome) :
    Stands kind helped (World.handle request outcome world).2 := by
  refine ⟨hstands.phase.handle hwithin outcome, ?_⟩
  intro hhelped
  by_cases hhelper : request = .applyUpdate
  · subst hhelper
    rfl
  · rcases handle_cases hwithin.1 hhelper outcome world with hsame | ⟨note, _, hpatched⟩
    · rw [hsame]
      exact hstands.called hhelped
    · rw [hpatched, patched_called]
      exact hstands.called hhelped

theorem safe_within {Result : Type} {program : Act Result}
    (hunset : ∀ note : Note, note.1 = .unset → kind note)
    (hall : program.All anyAnswer (Within kind) anyEnd) (hworld : Stands kind helped world) :
    program.Safe api anyChange anyOutcome anyWorld (fun _ world => Stands kind helped world)
      world := by
  have hsafe : program.Safe api anyChange anyOutcome anyWorld
      (fun result world => anyEnd result ∧ Stands kind helped world) world :=
    hall.keeps stable_anyWorld (stable_stands helped hunset) (fun _ _ _ _ _ => trivial)
      (fun _ _ outcome _ hkept hwithin _ => ⟨trivial, hkept.handle hwithin outcome⟩) trivial hworld
  exact hsafe.mono fun _ _ _ hpost => hpost.2

theorem writePhase_within (key : Key) (hnote : kind note) :
    (writePhase key note).All anyAnswer (Within kind) anyEnd := by
  refine writePhase_all ⟨nofun, nofun⟩ ⟨nofun, ?_⟩
  intro other hother
  rw [← Request.patchPhase.inj hother]
  exact hnote

theorem mirrorFrames_within (key : Key) (hnote : kind (formatPhase .restarting []))
    (restarting : Bool) (frames : List WirePhase) :
    (mirrorFrames key restarting frames).All anyAnswer (Within kind) anyEnd := by
  induction frames generalizing restarting with
  | nil => trivial
  | cons frame frames ih =>
    unfold mirrorFrames
    split
    · exact (writePhase_within key hnote).bind fun _ _ => ih true
    · exact ih restarting

def Owes (key : Key) (memory : Memory) (world : World) : Prop :=
  ∃ verdict, memory.owed key = some verdict ∧ PhaseIn (failedOnlyWith verdict) world

def Abandoned (key : Key) (memory : Memory) (world : World) : Prop :=
  memory.owed key = none ∧ (world.called = true ∨ PhaseIn early world)

def LostWith (key : Key) (result : SyncEnd × Memory) (world : World) : Prop :=
  result.1 = .lost → Owes key result.2 world ∨ Abandoned key result.2 world

theorem Owes.change (howes : Owes key memory world) (change : Change) :
    Owes key memory (world.change change) := by
  obtain ⟨verdict, howed, hphase⟩ := howes
  exact ⟨verdict, howed, hphase.change (failedOnlyWith_unset verdict) change⟩

theorem Abandoned.change (habandoned : Abandoned key memory world) (change : Change) :
    Abandoned key memory (world.change change) := by
  refine ⟨habandoned.1, ?_⟩
  rcases habandoned.2 with hcalled | hphase
  · exact .inl ((change_called change world).trans hcalled)
  · exact .inr (hphase.change early_unset change)

theorem stable_lostWith (key : Key) (result : SyncEnd × Memory) :
    Stable api anyChange anyWorld (LostWith key result) := by
  intro world change _ _ hlost hended
  rcases hlost hended with howes | habandoned
  · exact .inl (howes.change change)
  · exact .inr (habandoned.change change)

theorem safe_ends {result : SyncEnd × Memory} (hlost : LostWith key result world) :
    (Prog.done result : Act (SyncEnd × Memory)).Safe api anyChange anyOutcome anyWorld
      (LostWith key) world :=
  Prog.safe_done stable_anyWorld (stable_lostWith key result) trivial hlost

theorem owed_owe (memory : Memory) (key : Key) (verdict : Str) :
    (memory.owe key verdict).owed key = some verdict := by
  simp [Memory.owe, Memory.owed]

theorem fail_loses (memory : Memory) (key : Key) (message tail : Str)
    (hworld : Stands notFailed helped world) :
    (fail memory key message tail).Safe api anyChange anyOutcome anyWorld (LostWith key)
      world := by
  have hall : (writePhase key (formatPhase .failed (failVerdict message tail))).All anyAnswer
      (Within (failedOnlyWith (failVerdict message tail))) anyEnd :=
    writePhase_within key fun _ => rfl
  refine (safe_within (failedOnlyWith_unset _) hall
    (hworld.mono (failedOnlyWith_of_notFailed _))).bind trivial ?_
  intro ended world _ hstands
  cases ended with
  | lost =>
    exact safe_ends fun _ => .inl ⟨_, owed_owe memory key _, hstands.phase⟩
  | written | moved => exact safe_ends nofun

theorem afterHelper_loses (memory : Memory) (key : Key) (helped : Helped)
    (howed : memory.owed key = none) (hworld : Stands notFailed True world) :
    (afterHelper memory key helped).Safe api anyChange anyOutcome anyWorld (LostWith key)
      world := by
  have hrestarting : notFailed (formatPhase .restarting []) := nofun
  refine (safe_within notFailed_unset (mirrorFrames_within key hrestarting false helped.frames)
    hworld).bind trivial ?_
  intro restarting world _ hstands
  cases helped.outcome with
  | error report => exact fail_loses memory key report.1 report.2 hstands
  | ok phase =>
    show Prog.Safe _ _ _ _ _ (if advances phase && !restarting then _ else _) world
    split
    · refine (safe_within notFailed_unset (writePhase_within key hrestarting) hstands).bind
        trivial ?_
      intro wrote world _ hstands
      exact safe_ends fun _ => .inr ⟨howed, .inl (hstands.called trivial)⟩
    · exact safe_ends nofun

theorem install_loses (memory : Memory) (key : Key) (howed : memory.owed key = none)
    (hworld : Stands early False world) :
    (install memory key).Safe api anyChange anyOutcome anyWorld (LostWith key) world := by
  refine Prog.safe_call stable_anyWorld (stable_stands False early_unset) trivial hworld ?_
  intro later _ hstands outcome _
  have hcalled : Stands notFailed True (World.handle .applyUpdate outcome later).2 :=
    ⟨hstands.phase.mono notFailed_of_early, fun _ => rfl⟩
  exact ⟨trivial, afterHelper_loses memory key _ howed hcalled⟩

theorem writePhase_early (hnote : early note) (hworld : Stands early False world) :
    (writePhase key note).Safe api anyChange anyOutcome anyWorld
      (fun _ world => Stands early False world) world :=
  safe_within early_unset (writePhase_within key hnote) hworld

theorem call_early (request : Request) (hread : request ≠ .getNode)
    (hpatch : ∀ note, request ≠ .patchPhase note) (hworld : Stands early False world) :
    (call request).Safe api anyChange anyOutcome anyWorld
      (fun _ world => Stands early False world) world := by
  have hall : (call request).All anyAnswer (Within early) anyEnd :=
    ⟨⟨hread, fun note hnote => absurd hnote (hpatch note)⟩, fun _ _ => trivial⟩
  exact safe_within early_unset hall hworld

theorem fetchAndInstall_loses (config : Config) (memory : Memory) (key : Key) (payload : Payload)
    (howed : memory.owed key = none) (hworld : Stands early False world) :
    (fetchAndInstall config memory key payload).Safe api anyChange anyOutcome anyWorld
      (LostWith key) world := by
  have hlost : ∀ world, Stands early False world → LostWith key (.lost, memory) world :=
    fun _ hstands _ => .inr ⟨howed, .inr hstands.phase⟩
  have hfail : ∀ message world, Stands early False world →
      (fail memory key message []).Safe api anyChange anyOutcome anyWorld (LostWith key) world :=
    fun message _ hstands => fail_loses memory key message [] (hstands.mono notFailed_of_early)
  refine (writePhase_early (.inr (.inl rfl)) hworld).bind trivial ?_
  intro downloading world _ hstands
  cases downloading with
  | lost => exact safe_ends (hlost world hstands)
  | moved => exact safe_ends nofun
  | written =>
    refine (call_early (.download payload.url) nofun nofun hstands).bind trivial ?_
    intro downloaded world _ hstands
    cases downloaded with
    | error message => exact hfail message world hstands
    | ok sum =>
      refine (writePhase_early (.inr (.inr (.inl rfl))) hstands).bind trivial ?_
      intro verifying world _ hstands
      cases verifying with
      | lost => exact safe_ends (hlost world hstands)
      | moved => exact safe_ends nofun
      | written =>
        show Prog.Safe _ _ _ _ _ (if sum ≠ payload.sha256 then _ else _) world
        split
        · exact hfail _ world hstands
        refine (writePhase_early (.inr (.inr (.inr rfl))) hstands).bind trivial ?_
        intro installing world _ hstands
        cases installing with
        | lost => exact safe_ends (hlost world hstands)
        | moved => exact safe_ends nofun
        | written => exact install_loses memory key howed hstands

theorem attempt_loses (config : Config) (memory : Memory) (key : Key) (node : Node)
    (howed : memory.owed key = none) (hworld : Stands early False world) :
    (attempt config memory key node).Safe api anyChange anyOutcome anyWorld (LostWith key)
      world := by
  have hfail : ∀ message world, Stands early False world →
      (fail memory key message []).Safe api anyChange anyOutcome anyWorld (LostWith key) world :=
    fun message _ hstands => fail_loses memory key message [] (hstands.mono notFailed_of_early)
  refine (call_early (.verify node) nofun nofun hworld).bind trivial ?_
  intro verified world _ hstands
  cases verified with
  | error message => exact hfail message world hstands
  | ok payload =>
    show Prog.Safe _ _ _ _ _ (if payload.version ≠ node.version then _ else _) world
    split
    · exact hfail _ world hstands
    cases config.hostPin payload.url with
    | some message => exact hfail message world hstands
    | none =>
      show Prog.Safe _ _ _ _ _
        (if config.older node.version && !payload.allowDowngrade then _ else _) world
      split
      · exact hfail _ world hstands
      refine (call_early .attemptDir nofun nofun hstands).bind trivial ?_
      intro directory world _ hstands
      cases directory with
      | some message => exact hfail message world hstands
      | none => exact fetchAndInstall_loses config memory key payload howed hstands

/-- What the daemon knows after a lost write: the verdict it owes, or that the attempt is not
to be counted as tried. -/
def Recalls (key : Key) (memory : Memory) (world : World) : Prop :=
  Owes key memory world ∨ (Abandoned key memory world ∧ key ∉ memory.tried)

theorem stable_recalls (key : Key) (result : SyncEnd × Memory) :
    Stable api anyChange anyWorld (fun world => result.1 = .lost → Recalls key result.2 world) := by
  intro world change _ _ hlost hended
  rcases hlost hended with howes | ⟨habandoned, htried⟩
  · exact .inl (howes.change change)
  · exact .inr ⟨habandoned.change change, htried⟩

theorem safe_recalls {result : SyncEnd × Memory}
    (hlost : result.1 = .lost → Recalls key result.2 world) :
    (Prog.done result : Act (SyncEnd × Memory)).Safe api anyChange anyOutcome anyWorld
      (fun result world => result.1 = .lost → Recalls key result.2 world) world :=
  Prog.safe_done stable_anyWorld (stable_recalls key result) trivial hlost

theorem tryHandover_recalls (config : Config) (memory : Memory) (key : Key) (node : Node)
    (howed : memory.owed key = none) (hworld : Stands early False world) :
    (tryHandover config memory key node).Safe api anyChange anyOutcome anyWorld
      (fun result world => result.1 = .lost → Recalls key result.2 world) world := by
  refine (attempt_loses config { memory with tried := key :: memory.tried } key node howed
    hworld).bind trivial ?_
  intro result world _ hresult
  refine safe_recalls ?_
  intro hended
  have hended : result.1 = .lost := hended
  have hforgotten : key ∉ (result.2.forget key).tried := by simp [Memory.forget]
  show Recalls key (if result.1 = .lost then result.2.forget key else result.2) world
  rw [if_pos hended]
  rcases hresult hended with howes | habandoned
  · exact .inl howes
  · exact .inr ⟨habandoned, hforgotten⟩

theorem resume_recalls (config : Config) (memory : Memory) (key : Key) (node : Node)
    (howed : memory.owed key = none) (hnode : world.node = some node) :
    (resume config memory key node).Safe api anyChange anyOutcome anyWorld
      (fun result world => result.1 = .lost → Recalls key result.2 world) world := by
  have hearly : early node.phase → Stands early False world := by
    intro hphase
    refine ⟨?_, False.elim⟩
    intro found hfound
    rw [hnode] at hfound
    rwa [← Option.some.inj hfound]
  unfold resume
  cases hphase : node.phase.1 with
  | unset => exact tryHandover_recalls config memory key node howed (hearly (.inl hphase))
  | downloading =>
    show Prog.Safe _ _ _ _ _ (if key ∈ memory.tried then _ else _) world
    split
    · exact safe_recalls nofun
    · exact tryHandover_recalls config memory key node howed (hearly (.inr (.inl hphase)))
  | verifying =>
    show Prog.Safe _ _ _ _ _ (if key ∈ memory.tried then _ else _) world
    split
    · exact safe_recalls nofun
    · exact tryHandover_recalls config memory key node howed (hearly (.inr (.inr (.inl hphase))))
  | _ => exact safe_recalls nofun

theorem deliver_recalls (memory : Memory) (key : Key) (verdict : Str)
    (howed : memory.owed key = some verdict) (hworld : Stands notFailed False world) :
    (deliver memory key verdict).Safe api anyChange anyOutcome anyWorld
      (fun result world => result.1 = .lost → Recalls key result.2 world) world := by
  have hall : (writePhase key (formatPhase .failed verdict)).All anyAnswer
      (Within (failedOnlyWith verdict)) anyEnd :=
    writePhase_within key fun _ => rfl
  refine (safe_within (failedOnlyWith_unset _) hall
    (hworld.mono (failedOnlyWith_of_notFailed _))).bind trivial ?_
  intro ended world _ hstands
  cases ended with
  | lost => exact safe_recalls fun _ => .inl ⟨verdict, howed, hstands.phase⟩
  | written | moved => exact safe_recalls nofun

theorem owed_forgive (memory : Memory) (key : Key) : (memory.forgive key).owed key = none := by
  simp [Memory.forgive, Memory.owed]

/-- After a `Sync` that read this Node and lost a write, the daemon runs the release or
recalls what it was at. -/
theorem syncNode_recalls (config : Config) (memory : Memory) (node : Node)
    (hnode : world.node = some node) :
    (syncNode config memory node).Safe api anyChange anyOutcome anyWorld
      (fun result world => result.1 = .lost → node.version ≠ [] ∧
        (config.onTarget node.version = true ∨ Recalls (handoverKey node) result.2 world))
      world := by
  unfold syncNode
  split
  · exact fun _ _ _ => nofun
  rename_i hversion
  have hrecalled : ∀ {program : Act (SyncEnd × Memory)},
      program.Safe api anyChange anyOutcome anyWorld
        (fun result world => result.1 = .lost → Recalls (handoverKey node) result.2 world) world →
      program.Safe api anyChange anyOutcome anyWorld
        (fun result world => result.1 = .lost → node.version ≠ [] ∧
          (config.onTarget node.version = true ∨ Recalls (handoverKey node) result.2 world))
        world :=
    fun hsafe => hsafe.mono fun _ _ _ hpost hended => ⟨hversion, .inr (hpost hended)⟩
  split
  · rename_i htarget
    have hany : (reportDone memory (handoverKey node) node).Safe api anyChange anyOutcome anyWorld
        (fun _ _ => True) world :=
      (reportDone_closing memory (handoverKey node) node).safe (fun _ _ _ _ _ => trivial)
        (fun _ _ _ _ _ _ => trivial) world
    exact hany.mono fun _ _ _ _ _ => ⟨hversion, .inl htarget⟩
  cases howed : memory.owed (handoverKey node) with
  | none => exact hrecalled (resume_recalls config memory _ node howed hnode)
  | some verdict =>
    show Prog.Safe _ _ _ _ _ (if _ ∧ _ then _ else _) world
    split
    · rename_i hphase
      have hstands : Stands notFailed False world := by
        refine ⟨?_, False.elim⟩
        intro found hfound
        rw [hnode] at hfound
        rw [← Option.some.inj hfound]
        exact hphase.2
      exact hrecalled (deliver_recalls memory _ verdict howed hstands)
    · exact hrecalled (resume_recalls config _ _ node (owed_forgive memory _) hnode)

theorem play_read (config : Config) (memory : Memory) (hnode : world.node = some node)
    (events : List (Event Change Outcome)) :
    play api (sync config memory) world (.answer .done :: events) =
      play api (syncNode config { memory with resync := false } node)
        (World.handle .getNode .done world).2 events := by
  have hanswer : (World.handle .getNode .done world).1 = Fetched.found node :=
    congrArg fetched hnode
  show play api (Prog.bind (.done (World.handle .getNode .done world).1) _) _ events = _
  rw [hanswer]
  rfl

theorem recalls_of_lost (config : Config) {first : Node} (hfirst : state.world.node = some first)
    {events : List (Event Change Outcome)}
    (hlost : play api (sync config state.memory) state.world (.answer .done :: events) =
      (.done (.lost, memory), world)) :
    first.version ≠ [] ∧
      (config.onTarget first.version = true ∨ Recalls (handoverKey first) memory world) := by
  rw [play_read config state.memory hfirst] at hlost
  have hread : (World.handle .getNode .done state.world).2.node = some first := hfirst
  have hsafe := syncNode_recalls config { state.memory with resync := false } first hread
  have hmeets : EventsMeet api anyChange anyOutcome
      (syncNode config { state.memory with resync := false } first)
      (World.handle .getNode .done state.world).2 events :=
    eventsMeet_of_forall api anyChange anyOutcome (fun _ _ => trivial) (fun _ _ _ => trivial) _ _ _
  have hended := (hsafe.play stable_anyWorld trivial hmeets).2
  rw [hlost] at hended
  exact hended.result trivial rfl

/-! ## Up to the next Sync that reads the Node -/

/-- The sync could not read the node. -/
def Missed (state : State) : Step → Prop
  | .change _ => True
  | .sync events => ∃ outcome, events = [.answer outcome] ∧
      ∀ node, ((World.handle .getNode outcome state.world).1 : Fetched) ≠ .found node
  | .restart => False

theorem next_missed (config : Config) {outcome : Outcome}
    (hmissed : ∀ node, ((World.handle .getNode outcome state.world).1 : Fetched) ≠ .found node) :
    next config state (.sync [.answer outcome]) =
      ⟨(World.handle .getNode outcome state.world).2, state.memory⟩ := by
  have hplay : play api (sync config state.memory) state.world [.answer outcome] =
      (.done (.error, state.memory), (World.handle .getNode outcome state.world).2) := by
    show play api (Prog.bind (.done (World.handle .getNode outcome state.world).1) _) _ [] = _
    cases hanswer : ((World.handle .getNode outcome state.world).1 : Fetched) with
    | found node => exact absurd hanswer (hmissed node)
    | failed | missing => rfl
  simp only [next, hplay]

theorem handle_getNode_node (outcome : Outcome) (world : World) :
    (World.handle .getNode outcome world).2.node = world.node := by
  cases outcome <;> rfl

theorem missed_keeps (config : Config) (hunset : ∀ note : Note, note.1 = .unset → kind note)
    {step : Step} (hmissed : Missed state step) (hphase : PhaseIn kind state.world) :
    (next config state step).memory = state.memory ∧
      PhaseIn kind (next config state step).world := by
  cases step with
  | change change => exact ⟨rfl, hphase.change hunset change⟩
  | restart => exact hmissed.elim
  | sync events =>
    obtain ⟨outcome, rfl, hread⟩ := hmissed
    rw [next_missed config hread]
    refine ⟨rfl, ?_⟩
    intro node hnode
    exact hphase node ((handle_getNode_node outcome state.world).symm.trans hnode)

theorem missed_run (config : Config) (hunset : ∀ note : Note, note.1 = .unset → kind note)
    {steps : List Step} (hmissed : EachStep Missed (next config) state steps)
    (hphase : PhaseIn kind state.world) :
    (steps.foldl (next config) state).memory = state.memory ∧
      PhaseIn kind (steps.foldl (next config) state).world := by
  induction steps generalizing state with
  | nil => exact ⟨rfl, hphase⟩
  | cons step steps ih =>
    obtain ⟨hmemory, hkept⟩ := missed_keeps config hunset hmissed.1 hphase
    obtain ⟨hlater, hlast⟩ := ih hmissed.2 hkept
    exact ⟨hlater.trans hmemory, hlast⟩

/-- How the next `Sync` goes on: on the release it reports Done; an owed verdict is written,
unless the Node has it or was handed over anew; and an attempt that did not come to the
helper is run again, unless Installing stands on the Node. -/
def PicksUp (config : Config) (memory : Memory) (node : Node) (called : Bool) : Prop :=
  if config.onTarget node.version then
    syncNode config memory node = reportDone memory (handoverKey node) node
  else match memory.owed (handoverKey node), node.phase.1 with
    | some _, .unset =>
      syncNode config memory node =
        tryHandover config (memory.forgive (handoverKey node)) (handoverKey node) node
    | some verdict, .failed => node.phase = formatPhase .failed verdict
    | some verdict, _ =>
      syncNode config memory node = deliver memory (handoverKey node) verdict
    | none, phase =>
      called = false → phase ≠ .installing →
        syncNode config memory node = tryHandover config memory (handoverKey node) node

theorem picksUp_owed {config : Config} {verdict : Str} (hversion : node.version ≠ [])
    (htarget : config.onTarget node.version = false)
    (howed : memory.owed (handoverKey node) = some verdict)
    (hfailed : failedOnlyWith verdict node.phase) (called : Bool) :
    PicksUp config memory node called := by
  unfold PicksUp syncNode
  rw [if_neg (by simp [htarget]), if_neg hversion, if_neg (by simp [htarget]), howed]
  cases hphase : node.phase.1 with
  | unset => simp [resume, hphase]
  | failed => exact hfailed hphase
  | _ => simp

theorem picksUp_abandoned {config : Config} {called : Bool} (hversion : node.version ≠ [])
    (htarget : config.onTarget node.version = false) (howed : memory.owed (handoverKey node) = none)
    (htried : handoverKey node ∉ memory.tried) (hphase : called = true ∨ early node.phase) :
    PicksUp config memory node called := by
  unfold PicksUp syncNode
  rw [if_neg (by simp [htarget]), if_neg hversion, if_neg (by simp [htarget]), howed]
  intro hcalled hinstalling
  rcases hphase with hcall | hunset | hdownloading | hverifying | hinstall
  · rw [hcalled] at hcall
    cases hcall
  · simp only [resume, hunset]
  · simp only [resume, hdownloading, if_neg htried]
  · simp only [resume, hverifying, if_neg htried]
  · exact absurd hinstall hinstalling

/-- A `Sync` read a Node and lost a write.  Whatever then becomes of the Node, the next `Sync`
that gets to read it and finds the same handover picks up. -/
theorem lost_write_picked_up (config : Config) {state : State} {first : Node}
    (hfirst : state.world.node = some first) {events : List (Event Change Outcome)}
    {memory : Memory} {world : World}
    (hlost : play api (sync config state.memory) state.world (.answer .done :: events) =
      (.done (.lost, memory), world))
    {steps : List Step} (hmissed : EachStep Missed (next config) ⟨world, memory⟩ steps)
    {node : Node} (hnode : (steps.foldl (next config) ⟨world, memory⟩).world.node = some node)
    (hsame : handoverKey node = handoverKey first) :
    PicksUp config { (steps.foldl (next config) ⟨world, memory⟩).memory with resync := false }
      node world.called := by
  obtain ⟨hversion, hrecalls⟩ := recalls_of_lost config hfirst hlost
  have hnodeVersion : node.version = first.version := congrArg Prod.fst hsame
  rw [← hnodeVersion] at hversion hrecalls
  rw [← hsame] at hrecalls
  cases htarget : config.onTarget node.version with
  | true =>
    unfold PicksUp syncNode
    rw [if_pos htarget, if_neg hversion, if_pos htarget]
  | false =>
    rw [htarget] at hrecalls
    rcases hrecalls with htarget | ⟨verdict, howed, hphase⟩ | ⟨⟨howed, hphase⟩, htried⟩
    · cases htarget
    · obtain ⟨hmemory, hlast⟩ :=
        missed_run config (failedOnlyWith_unset verdict) hmissed hphase
      rw [hmemory]
      have howes : ({ memory with resync := false } : Memory).owed (handoverKey node) =
          some verdict := howed
      exact picksUp_owed hversion htarget howes (hlast node hnode) world.called
    have hlast : world.called = true ∨ early node.phase := by
      rcases hphase with hcalled | hphase
      · exact .inl hcalled
      · exact .inr ((missed_run config early_unset hmissed hphase).2 node hnode)
    have hmemory : (steps.foldl (next config) ⟨world, memory⟩).memory = memory :=
      (missed_run config (fun _ _ => trivial) hmissed (fun _ _ => trivial :
        PhaseIn (fun _ => True) world)).1
    rw [hmemory]
    have howes : ({ memory with resync := false } : Memory).owed (handoverKey node) = none :=
      howed
    exact picksUp_abandoned hversion htarget howes htried hlast

def demoState : State := ⟨World.start (some demoNode), Memory.fresh⟩

def demoNeverLands : List (Event Change Outcome) :=
  .answer .failed :: List.replicate 23 (.answer .failed)

def demoLosesVerifying : List (Event Change Outcome) :=
  [.answer (.verified (.ok demoPayload)), .answer (.directory none), .answer .done,
    .answer (.downloaded (.ok []))] ++ demoNeverLands

def demoDownloading : Node := { demoNode with phase := formatPhase .downloading [] }

theorem demo_lost_write_picked_up :
    play api (sync demoConfig Memory.fresh) demoState.world (.answer .done :: demoLosesVerifying) =
        (.done (.lost, Memory.fresh), World.start (some demoDownloading)) ∧
      PicksUp demoConfig Memory.fresh demoDownloading false := by
  have hlost : play api (sync demoConfig demoState.memory) demoState.world
      (.answer .done :: demoLosesVerifying) =
        (.done (.lost, Memory.fresh), World.start (some demoDownloading)) := rfl
  have hmissed : EachStep Missed (next demoConfig)
      ⟨World.start (some demoDownloading), Memory.fresh⟩ [] := trivial
  have hfirst : demoState.world.node = some demoNode := rfl
  exact ⟨hlost, lost_write_picked_up demoConfig hfirst hlost hmissed rfl rfl⟩

def demoFailedLands : List (Event Change Outcome) :=
  [.answer (.verified (.error [])), .answer .unanswered] ++ List.replicate 23 (.answer .failed)

/-- The verdict that is owed stands on the Node, so the next `Sync` has nothing to write.  It
neither writes nor runs the attempt. -/
theorem lost_verdict_on_the_node :
    ¬ ∀ (config : Config) (state : State) (first : Node) (events : List (Event Change Outcome))
        (memory : Memory) (world : World) (node : Node), state.world.node = some first →
      play api (sync config state.memory) state.world (.answer .done :: events) =
        (.done (.lost, memory), world) →
      world.node = some node → handoverKey node = handoverKey first →
      (∃ verdict, syncNode config { memory with resync := false } node =
        deliver { memory with resync := false } (handoverKey node) verdict) ∨
      (world.called = false → ∃ other,
        syncNode config { memory with resync := false } node =
          tryHandover config other (handoverKey node) node) := by
  intro hclaim
  have hnext := hclaim demoConfig demoState demoNode demoFailedLands
    (Memory.fresh.owe (handoverKey demoNode) failRecovery)
    (World.start (some { demoNode with phase := formatPhase .failed failRecovery }))
    { demoNode with phase := formatPhase .failed failRecovery } rfl rfl rfl rfl
  rcases hnext with ⟨verdict, hdelivers⟩ | hattempts
  · have hended : true = false := congrArg Prog.ended hdelivers
    cases hended
  · obtain ⟨other, hattempt⟩ := hattempts rfl
    have hended : true = false := congrArg Prog.ended hattempt
    cases hended

end K3sm.Update
