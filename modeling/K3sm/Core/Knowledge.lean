import K3sm.Core.Pool

/-!
# What a program has learned

`Knows` checks along the tree of a program that every call it makes has been taught what it uses.
Whether the facts are still true when they are used is a question about the other programs: a
program relies on a fact from the answer that teaches it to the call that uses it, and a step that
ends a fact under a program that relies on it is the only way to be misled.
-/

namespace K3sm.Core

/-- Which calls a program may make at all, which facts they use, and what answers teach. -/
structure Knowledge (Request : Type) (Answer : Request → Type) (Fact : Type) where
  lawful : Request → Prop
  uses : Request → Set Fact
  learns : (request : Request) → Answer request → Set Fact

section Knows

variable {Request : Type} {Answer : Request → Type} {Fact Result Other : Type}
variable (knowledge : Knowledge Request Answer Fact)

/-- Every call of the program is lawful and finds what it uses, and the program ends with
`post` of what it was taught. -/
def Prog.Knows (post : Result → Set Fact → Prop) : Prog Request Answer Result → Set Fact → Prop
  | .done result, held => post result held
  | .call request next, held =>
    knowledge.lawful request ∧ knowledge.uses request ⊆ held ∧
      ∀ answer, (next answer).Knows post (held ∪ knowledge.learns request answer)

variable {knowledge} {post : Result → Set Fact → Prop} {held more : Set Fact}

@[simp]
theorem Prog.knows_done {result : Result} :
    (Prog.done result : Prog Request Answer Result).Knows knowledge post held ↔ post result held :=
  Iff.rfl

@[simp]
theorem Prog.knows_call {request : Request} {next : Answer request → Prog Request Answer Result} :
    (Prog.call request next).Knows knowledge post held ↔
      knowledge.lawful request ∧ knowledge.uses request ⊆ held ∧
        ∀ answer, (next answer).Knows knowledge post (held ∪ knowledge.learns request answer) :=
  Iff.rfl

variable {program : Prog Request Answer Result}

theorem Prog.Knows.mono {post' : Result → Set Fact → Prop}
    (hknows : program.Knows knowledge post held)
    (hpost : ∀ result held, post result held → post' result held) :
    program.Knows knowledge post' held := by
  induction program generalizing held with
  | done result => exact hpost result held hknows
  | call request next ih =>
    exact ⟨hknows.1, hknows.2.1, fun answer => ih answer (hknows.2.2 answer)⟩

theorem Prog.Knows.keeping (hknows : program.Knows knowledge post held) :
    program.Knows knowledge (fun result later => post result later ∧ held ⊆ later) held := by
  induction program generalizing held with
  | done result => exact ⟨hknows, subset_rfl⟩
  | call request next ih =>
    refine ⟨hknows.1, hknows.2.1, fun answer => (ih answer (hknows.2.2 answer)).mono ?_⟩
    rintro result later ⟨hresult, hlater⟩
    exact ⟨hresult, Set.subset_union_left.trans hlater⟩

theorem Prog.Knows.bind {post' : Other → Set Fact → Prop}
    {next : Result → Prog Request Answer Other} (hknows : program.Knows knowledge post held)
    (hnext : ∀ result later, post result later → held ⊆ later →
      (next result).Knows knowledge post' later) :
    (program >>= next).Knows knowledge post' held := by
  have hgeneral : ∀ (program : Prog Request Answer Result) (start : Set Fact),
      program.Knows knowledge (fun result later => post result later ∧ held ⊆ later) start →
      (program >>= next).Knows knowledge post' start := by
    intro program
    induction program with
    | done result => exact fun start hdone => hnext result start hdone.1 hdone.2
    | call request rest ih =>
      exact fun start hcall => ⟨hcall.1, hcall.2.1, fun answer => ih answer _ (hcall.2.2 answer)⟩
  exact hgeneral program held hknows.keeping

end Knows

section Relies

variable {Request : Type} {Answer : Request → Type} {Fact Result : Type}
variable (knowledge : Knowledge Request Answer Fact)

/-- The program may use the fact before it is taught it anew. -/
def Prog.Relies (fact : Fact) : Prog Request Answer Result → Prop
  | .done _ => False
  | .call request next =>
    fact ∈ knowledge.uses request ∨
      ∃ answer, fact ∉ knowledge.learns request answer ∧ (next answer).Relies fact

variable {knowledge} {post : Result → Set Fact → Prop} {held : Set Fact} {fact : Fact}

theorem Prog.Knows.held_of_relies {program : Prog Request Answer Result}
    (hknows : program.Knows knowledge post held) (hrelies : program.Relies knowledge fact) :
    fact ∈ held := by
  induction program generalizing held with
  | done result => exact absurd hrelies id
  | call request next ih =>
    rcases hrelies with hused | ⟨answer, hnew, hlater⟩
    · exact hknows.2.1 hused
    rcases ih answer (hknows.2.2 answer) hlater with hheld | hlearned
    · exact hheld
    · exact absurd hlearned hnew

theorem Prog.relied_before {request : Request} {next : Answer request → Prog Request Answer Result}
    {answer : Answer request} (hrelies : (next answer).Relies knowledge fact) :
    (Prog.call request next).Relies knowledge fact ∨ fact ∈ knowledge.learns request answer := by
  by_cases hlearned : fact ∈ knowledge.learns request answer
  · exact .inr hlearned
  · exact .inl (.inr ⟨answer, hlearned, hrelies⟩)

end Relies

section Relied

variable {Request : Type} {Answer : Request → Type} {World Outcome Result Job Fact : Type}
variable (handle : (request : Request) → Outcome → World → Answer request × World)
  (ready : World → Request → Bool) (body : Job → Prog Request Answer Result)
  (knowledge : Knowledge Request Answer Fact) (holds : World → Fact → Prop) (kind : Set Fact)

/-- A move undoes no fact that a program in the pool relies on. -/
def Pool.Spares (pool : Pool Request Answer World Result) (move : Move Job Outcome) : Prop :=
  ∀ program ∈ (pool.next handle ready body move).programs, ∀ fact ∈ kind,
    program.Relies knowledge fact → holds pool.world fact →
      holds (pool.next handle ready body move).world fact

def Pool.Relied (inv : World → Prop) (pool : Pool Request Answer World Result) : Prop :=
  inv pool.world ∧ ∀ program ∈ pool.programs,
    (∃ held, program.Knows knowledge (fun _ _ => True) held) ∧
      ∀ fact ∈ kind, program.Relies knowledge fact → holds pool.world fact

variable {handle ready body knowledge holds kind} {inv : World → Prop}

variable {pool : Pool Request Answer World Result}

theorem Pool.spares_of_lasting {move : Move Job Outcome}
    (hlast : ∀ fact ∈ kind, holds pool.world fact →
      holds (pool.next handle ready body move).world fact) :
    pool.Spares handle ready body knowledge holds kind move :=
  fun _ _ fact hkind _ => hlast fact hkind

theorem Pool.Relied.caller (hrelied : pool.Relied knowledge holds kind inv) {index : ℕ}
    {request : Request} {rest : Answer request → Prog Request Answer Result}
    (hfound : pool.programs[index]? = some (.call request rest)) :
    knowledge.lawful request ∧
      ∀ fact ∈ kind, fact ∈ knowledge.uses request → holds pool.world fact := by
  obtain ⟨⟨held, hknows⟩, htrue⟩ := hrelied.2 _ (List.mem_of_getElem? hfound)
  exact ⟨hknows.1, fun fact hkind hused => htrue fact hkind (.inl hused)⟩

theorem Pool.Relied.next {move : Move Job Outcome}
    (hlearns : ∀ request outcome world, inv world → ∀ fact ∈ kind,
      fact ∈ knowledge.learns request (handle request outcome world).1 →
      holds (handle request outcome world).2 fact)
    (hbody : ∀ job, (body job).Knows knowledge (fun _ _ => True) ∅)
    (hrelied : pool.Relied knowledge holds kind inv)
    (hspares : pool.Spares handle ready body knowledge holds kind move)
    (hinv : inv (pool.next handle ready body move).world) :
    (pool.next handle ready body move).Relied knowledge holds kind inv := by
  refine ⟨hinv, ?_⟩
  have hkept : ∀ program ∈ pool.programs, program ∈ (pool.next handle ready body move).programs →
      ∀ fact ∈ kind, program.Relies knowledge fact →
        holds (pool.next handle ready body move).world fact :=
    fun program hprogram hafter fact hkind hrelies =>
      hspares program hafter fact hkind hrelies ((hrelied.2 program hprogram).2 fact hkind hrelies)
  cases move with
  | start job =>
    intro program hprogram
    rcases List.mem_append.1 hprogram with hold | hnew
    · exact ⟨(hrelied.2 program hold).1, hkept program hold hprogram⟩
    · rw [List.mem_singleton.1 hnew]
      exact ⟨⟨∅, hbody job⟩, fun fact _ hrelies => absurd ((hbody job).held_of_relies hrelies) id⟩
  | turn index outcome =>
    unfold Pool.Spares at hspares
    unfold Pool.next at hkept hspares ⊢
    dsimp only at hkept hspares ⊢
    split
    case h_2 => exact hrelied.2
    rename_i request rest hfound
    rw [hfound] at hkept hspares
    dsimp only at hkept hspares
    split
    case isFalse => exact hrelied.2
    rename_i hready
    rw [if_pos hready] at hkept hspares
    have hcaller := hrelied.2 _ (List.mem_of_getElem? hfound)
    obtain ⟨held, hknows⟩ := hcaller.1
    intro program hprogram
    rcases List.mem_or_eq_of_mem_set hprogram with hother | rfl
    · exact ⟨(hrelied.2 program hother).1, hkept program hother hprogram⟩
    refine ⟨⟨_, hknows.2.2 _⟩, fun fact hkind hrelies => ?_⟩
    rcases Prog.relied_before hrelies with hbefore | hnew
    · exact hspares _ hprogram fact hkind hrelies (hcaller.2 fact hkind hbefore)
    · exact hlearns request outcome pool.world hrelied.1 fact hkind hnew

/-- In every run whose steps spare what programs rely on, an invariant that lawful calls keep
while what they use is true holds throughout. -/
theorem Pool.always_relied
    (hlearns : ∀ request outcome world, inv world → ∀ fact ∈ kind,
      fact ∈ knowledge.learns request (handle request outcome world).1 →
      holds (handle request outcome world).2 fact)
    (hbody : ∀ job, (body job).Knows knowledge (fun _ _ => True) ∅)
    (hkeeps : ∀ request outcome world, inv world → knowledge.lawful request →
      (∀ fact ∈ kind, fact ∈ knowledge.uses request → holds world fact) →
      inv (handle request outcome world).2)
    {world : World} (hworld : inv world) {moves : List (Move Job Outcome)}
    (hsteps : EachStep (Pool.Spares handle ready body knowledge holds kind)
      (Pool.next handle ready body) ⟨world, []⟩ moves) :
    Always (fun pool => inv pool.world) (Pool.next handle ready body) ⟨world, []⟩ moves := by
  have hstart : Pool.Relied knowledge holds kind inv
      (⟨world, []⟩ : Pool Request Answer World Result) := ⟨hworld, nofun⟩
  refine (always_of_eachStep ?_ hstart hsteps).mono fun pool hrelied => hrelied.1
  intro pool move hrelied hspares
  refine hrelied.next hlearns hbody hspares ?_
  cases move with
  | start job => exact hrelied.1
  | turn index outcome =>
    unfold Pool.next
    dsimp only
    split
    case h_2 => exact hrelied.1
    rename_i request rest hfound
    split
    case isFalse => exact hrelied.1
    obtain ⟨hlawful, htrue⟩ := hrelied.caller hfound
    exact hkeeps request outcome pool.world hrelied.1 hlawful htrue

theorem Pool.always_of_lasting
    (hlast : ∀ request outcome world, ∀ fact ∈ kind, holds world fact →
      holds (handle request outcome world).2 fact)
    (hlearns : ∀ request outcome world, inv world → ∀ fact ∈ kind,
      fact ∈ knowledge.learns request (handle request outcome world).1 →
      holds (handle request outcome world).2 fact)
    (hbody : ∀ job, (body job).Knows knowledge (fun _ _ => True) ∅)
    (hkeeps : ∀ request outcome world, inv world → knowledge.lawful request →
      (∀ fact ∈ kind, fact ∈ knowledge.uses request → holds world fact) →
      inv (handle request outcome world).2)
    {world : World} (hworld : inv world) (moves : List (Move Job Outcome)) :
    Always (fun pool => inv pool.world) (Pool.next handle ready body) ⟨world, []⟩ moves := by
  have hspares : ∀ (moves : List (Move Job Outcome)) (pool : Pool Request Answer World Result),
      EachStep (Pool.Spares handle ready body knowledge holds kind) (Pool.next handle ready body)
        pool moves := by
    intro moves
    induction moves with
    | nil => exact fun _ => trivial
    | cons move moves ih =>
      refine fun pool => ⟨Pool.spares_of_lasting fun fact hkind hholds => ?_, ih _⟩
      rcases pool.next_world handle ready body move with hsame | ⟨request, outcome, hcall⟩
      · exact hsame.symm ▸ hholds
      · exact hcall.symm ▸ hlast request outcome pool.world fact hkind hholds
  exact Pool.always_relied hlearns hbody hkeeps hworld (hspares moves _)

end Relied

end K3sm.Core
