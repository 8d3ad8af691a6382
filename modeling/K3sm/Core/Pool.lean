import K3sm.Core.Interaction
import K3sm.Core.Run

/-!
# Programs beside each other

A pool is a world and the programs that work in it, each a call at a time and in any order.  When
every call only lets the world grow and every program is safe against growth that keeps the
invariant, the invariant holds throughout, however many programs there are.
-/

namespace K3sm.Core

section Pool

variable {Request : Type} {Answer : Request → Type} {World Outcome Result Job : Type}

/-- A world and the programs at work on it. -/
structure Pool (Request : Type) (Answer : Request → Type) (World Result : Type) where
  world : World
  programs : List (Prog Request Answer Result)

/-- A new program, or the next call of one that is there. -/
inductive Move (Job Outcome : Type) where
  | start (job : Job)
  | turn (index : ℕ) (outcome : Outcome)

variable (handle : (request : Request) → Outcome → World → Answer request × World)
  (ready : World → Request → Bool) (body : Job → Prog Request Answer Result)

def Pool.next (pool : Pool Request Answer World Result) :
    Move Job Outcome → Pool Request Answer World Result
  | .start job => { pool with programs := pool.programs ++ [body job] }
  | .turn index outcome =>
    match pool.programs[index]? with
    | some (.call request rest) =>
      if ready pool.world request then
        { world := (handle request outcome pool.world).2
          programs := pool.programs.set index (rest (handle request outcome pool.world).1) }
      else pool
    | _ => pool

theorem Pool.next_world (pool : Pool Request Answer World Result) (move : Move Job Outcome) :
    (pool.next handle ready body move).world = pool.world ∨
      ∃ request outcome,
        (pool.next handle ready body move).world = (handle request outcome pool.world).2 := by
  cases move with
  | start job => exact .inl rfl
  | turn index outcome =>
    unfold Pool.next
    dsimp only
    split
    case h_2 => exact .inl rfl
    rename_i request rest _
    split
    case isTrue => exact .inr ⟨request, outcome, rfl⟩
    case isFalse => exact .inl rfl

def shared : Machine Request Answer World World Outcome where
  change := fun after _ => after
  handle := handle

variable (grows : World → World → Prop) (inv : World → Prop)

def Growth (before after : World) : Prop := grows before after ∧ inv after

def Turn (world : World) (request : Request) (_ : Outcome) : Prop := ready world request = true

variable (post : Result → World → Prop)

/-- The world keeps its invariant, and every program is safe in it. -/
def Pool.Sound (pool : Pool Request Answer World Result) : Prop :=
  inv pool.world ∧ ∀ program ∈ pool.programs,
    program.Safe (shared handle) (Growth grows inv) (Turn ready) inv post pool.world

variable {handle ready body grows inv post} {good : Job → Prop}

theorem Growth.stable_inv : Stable (shared handle) (Growth grows inv) (fun _ => True) inv :=
  fun _ _ _ hgrowth _ => hgrowth.2

theorem Prog.Safe.grown {property : World → Prop}
    (hgrows : ∀ request outcome world, grows world (handle request outcome world).2)
    (hstable : ∀ before after, grows before after → property before → property after)
    {program : Prog Request Answer Result} {world : World} (hworld : inv world)
    (hproperty : property world)
    (hsafe : program.Safe (shared handle) (Growth grows inv) (Turn ready) inv post world) :
    program.Safe (shared handle) (Growth grows inv) (Turn ready) inv
      (fun result world => post result world ∧ property world) world := by
  have hkept : Stable (shared handle) (Growth grows inv) inv property :=
    fun before after _ hgrowth => hstable before after hgrowth.1
  induction program generalizing world with
  | done result =>
    intro later hlater hinv
    exact ⟨hsafe later hlater hinv, (hkept.others Growth.stable_inv hlater hworld hproperty).2⟩
  | call request rest ih =>
    intro later hlater hinv outcome hready
    obtain ⟨hafter, hrest⟩ := hsafe later hlater hinv outcome hready
    have hbefore := (hkept.others Growth.stable_inv hlater hworld hproperty).2
    exact ⟨hafter, ih _ hafter (hstable _ _ (hgrows request outcome later) hbefore) hrest⟩

theorem Pool.Sound.turn {pool : Pool Request Answer World Result}
    (hgrows : ∀ request outcome world, grows world (handle request outcome world).2)
    (hsound : pool.Sound handle ready grows inv post) {request : Request} {outcome : Outcome}
    {rest : Answer request → Prog Request Answer Result} {index : ℕ}
    (hprogram : pool.programs[index]? = some (.call request rest))
    (hready : ready pool.world request = true) :
    Pool.Sound handle ready grows inv post
      { world := (handle request outcome pool.world).2
        programs := pool.programs.set index (rest (handle request outcome pool.world).1) } := by
  have hmember : Prog.call request rest ∈ pool.programs := List.mem_of_getElem? hprogram
  obtain ⟨hinv, hrest⟩ := hsound.2 _ hmember pool.world Relation.ReflTransGen.refl hsound.1 outcome
    hready
  refine ⟨hinv, ?_⟩
  intro program hprogram
  rcases List.mem_or_eq_of_mem_set hprogram with hother | rfl
  · -- to another program this call is growth
    apply (hsound.2 program hother).later
    exact Relation.ReflTransGen.single ⟨_, ⟨hgrows request outcome pool.world, hinv⟩, rfl⟩
  · exact hrest

theorem Pool.Sound.next {pool : Pool Request Answer World Result}
    (hgrows : ∀ request outcome world, grows world (handle request outcome world).2)
    (hbody : ∀ job world, good job → inv world →
      (body job).Safe (shared handle) (Growth grows inv) (Turn ready) inv post world)
    (hsound : pool.Sound handle ready grows inv post) {move : Move Job Outcome}
    (hmove : ∀ job, move = .start job → good job) :
    (pool.next handle ready body move).Sound handle ready grows inv post := by
  cases move with
  | start job =>
    refine ⟨hsound.1, ?_⟩
    exact List.forall_mem_append.2
      ⟨hsound.2, List.forall_mem_singleton.2 (hbody job pool.world (hmove job rfl) hsound.1)⟩
  | turn index outcome =>
    unfold Pool.next
    simp only
    split
    · split
      · exact hsound.turn hgrows ‹_› ‹_›
      · exact hsound
    · exact hsound

theorem Pool.always_inv (hgrows : ∀ request outcome world,
    grows world (handle request outcome world).2)
    (hbody : ∀ job world, good job → inv world →
      (body job).Safe (shared handle) (Growth grows inv) (Turn ready) inv post world)
    {world : World} (hworld : inv world) {moves : List (Move Job Outcome)}
    (hmoves : ∀ job, Move.start job ∈ moves → good job) :
    Always (fun pool => inv pool.world) (Pool.next handle ready body) ⟨world, []⟩ moves := by
  have hstart : Pool.Sound handle ready grows inv post ⟨world, []⟩ := ⟨hworld, nofun⟩
  generalize (⟨world, []⟩ : Pool Request Answer World Result) = pool at hstart
  induction moves generalizing pool with
  | nil => exact hstart.1
  | cons move moves ih =>
    refine ⟨hstart.1, ih ?_ _ ?_⟩
    · exact fun job hjob => hmoves job (List.mem_cons_of_mem _ hjob)
    apply hstart.next hgrows hbody
    intro job hjob
    exact hmoves job (hjob ▸ List.mem_cons_self)

end Pool

end K3sm.Core
