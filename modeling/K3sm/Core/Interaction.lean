import Mathlib

/-!
# Programs that call out

A program is the tree of the calls it can make: after each call it goes on with the answer.  The
world answers the calls, and other parties change the world before, between and after them.  What
a program keeps to is shown along its tree: `All` when any answer may come, `Safe` when the
answers come from the world.
-/

namespace K3sm.Core

/-- A program that makes requests and goes on with their answers. -/
inductive Prog (Request : Type) (Answer : Request → Type) (Result : Type) where
  | done (result : Result)
  | call (request : Request) (next : Answer request → Prog Request Answer Result)

namespace Prog

variable {Request : Type} {Answer : Request → Type} {Result Other : Type}

def bind : Prog Request Answer Result → (Result → Prog Request Answer Other) →
    Prog Request Answer Other
  | .done result, next => next result
  | .call request rest, next => .call request fun answer => (rest answer).bind next

instance : Monad (Prog Request Answer) where
  pure := .done
  bind := bind

def ask (request : Request) : Prog Request Answer (Answer request) := .call request .done

def ended : Prog Request Answer Result → Bool
  | .done _ => true
  | .call _ _ => false

@[simp]
theorem pure_eq (result : Result) : (pure result : Prog Request Answer Result) = .done result :=
  rfl

@[simp]
theorem done_bind (result : Result) (next : Result → Prog Request Answer Other) :
    (Prog.done result >>= next) = next result :=
  rfl

@[simp]
theorem call_bind (request : Request) (rest : Answer request → Prog Request Answer Result)
    (next : Result → Prog Request Answer Other) :
    (Prog.call request rest >>= next) = .call request fun answer => rest answer >>= next :=
  rfl

@[simp]
theorem ask_bind (request : Request) (next : Answer request → Prog Request Answer Other) :
    (ask request >>= next) = .call request next :=
  rfl

end Prog

structure Machine (Request : Type) (Answer : Request → Type) (World Change Outcome : Type) where
  change : Change → World → World
  handle : (request : Request) → Outcome → World → Answer request × World

/-- What happens next: someone else's change, or the outcome of the program's call. -/
inductive Event (Change Outcome : Type) where
  | change (change : Change)
  | answer (outcome : Outcome)

section Play

variable {Request : Type} {Answer : Request → Type} {World Change Outcome Result Other : Type}
variable (machine : Machine Request Answer World Change Outcome)

/-- A program run beside changes by others. -/
def play : Prog Request Answer Result → World → List (Event Change Outcome) →
    Prog Request Answer Result × World
  | program, world, [] => (program, world)
  | program, world, .change change :: events => play program (machine.change change world) events
  | .done result, world, .answer _ :: events => play (.done result) world events
  | .call request next, world, .answer outcome :: events =>
    play (next (machine.handle request outcome world).1)
      (machine.handle request outcome world).2 events

variable (rely : World → Change → Prop) (allow : World → Request → Outcome → Prop)

/-- Each event meets its condition in the world it happens in. -/
def EventsMeet : Prog Request Answer Result → World → List (Event Change Outcome) → Prop
  | _, _, [] => True
  | program, world, .change change :: events =>
    rely world change ∧ EventsMeet program (machine.change change world) events
  | .done result, world, .answer _ :: events => EventsMeet (.done result) world events
  | .call request next, world, .answer outcome :: events =>
    allow world request outcome ∧
      EventsMeet (next (machine.handle request outcome world).1)
        (machine.handle request outcome world).2 events

instance EventsMeet.decidable [∀ world change, Decidable (rely world change)]
    [∀ world request outcome, Decidable (allow world request outcome)] :
    (program : Prog Request Answer Result) → (world : World) →
      (events : List (Event Change Outcome)) →
      Decidable (EventsMeet machine rely allow program world events)
  | .done _, _, [] => .isTrue trivial
  | .call _ _, _, [] => .isTrue trivial
  | .done result, world, .change change :: events =>
    @instDecidableAnd _ _ _ (decidable (.done result) (machine.change change world) events)
  | .call request next, world, .change change :: events =>
    @instDecidableAnd _ _ _ (decidable (.call request next) (machine.change change world) events)
  | .done result, world, .answer _ :: events => decidable (.done result) world events
  | .call request next, world, .answer outcome :: events =>
    @instDecidableAnd _ _ _ (decidable (next (machine.handle request outcome world).1)
      (machine.handle request outcome world).2 events)

theorem eventsMeet_of_forall (hrely : ∀ world change, rely world change)
    (hallow : ∀ world request outcome, allow world request outcome)
    (program : Prog Request Answer Result) (world : World) (events : List (Event Change Outcome)) :
    EventsMeet machine rely allow program world events := by
  induction events generalizing program world with
  | nil => cases program <;> trivial
  | cons event events ih =>
    cases event with
    | change change =>
      cases program with
      | done result | call request next => exact ⟨hrely world change, ih _ _⟩
    | answer outcome =>
      cases program with
      | done result => exact ih _ _
      | call request next => exact ⟨hallow world request outcome, ih _ _⟩

def Others : World → World → Prop :=
  Relation.ReflTransGen fun before after =>
    ∃ change, rely before change ∧ after = machine.change change before

def Prog.Safe (inv : World → Prop) (post : Result → World → Prop) :
    Prog Request Answer Result → World → Prop
  | .done result, world =>
    ∀ later, Others machine rely world later → inv later → post result later
  | .call request next, world =>
    ∀ later, Others machine rely world later → inv later →
      ∀ outcome, allow later request outcome →
        inv (machine.handle request outcome later).2 ∧
        (next (machine.handle request outcome later).1).Safe inv post
          (machine.handle request outcome later).2

variable {machine rely allow} {inv : World → Prop}

def Stable (machine : Machine Request Answer World Change Outcome)
    (rely : World → Change → Prop) (inv : World → Prop) (property : World → Prop) : Prop :=
  ∀ world change, inv world → rely world change → property world →
    property (machine.change change world)

variable {world : World}

theorem Stable.others {property : World → Prop} (hstable : Stable machine rely inv property)
    (hinv : Stable machine rely (fun _ => True) inv) {later : World}
    (hothers : Others machine rely world later) (hworld : inv world) (hproperty : property world) :
    inv later ∧ property later := by
  induction hothers with
  | refl => exact ⟨hworld, hproperty⟩
  | tail _ hchange ih =>
    obtain ⟨change, hrely, rfl⟩ := hchange
    exact ⟨hinv _ change trivial hrely ih.1, hstable _ change ih.1 hrely ih.2⟩

theorem Prog.safe_call {post : Result → World → Prop} {request : Request}
    {next : Answer request → Prog Request Answer Result} {property : World → Prop}
    (hinv : Stable machine rely (fun _ => True) inv) (hstable : Stable machine rely inv property)
    (hworld : inv world) (hproperty : property world)
    (hcall : ∀ later, inv later → property later → ∀ outcome, allow later request outcome →
      inv (machine.handle request outcome later).2 ∧
        (next (machine.handle request outcome later).1).Safe machine rely allow inv post
          (machine.handle request outcome later).2) :
    (Prog.call request next).Safe machine rely allow inv post world := by
  intro later hothers hlater outcome hallow
  exact hcall later hlater (hstable.others hinv hothers hworld hproperty).2 outcome hallow

theorem Prog.safe_done {post : Result → World → Prop} {result : Result}
    (hinv : Stable machine rely (fun _ => True) inv)
    (hstable : Stable machine rely inv (post result)) (hworld : inv world)
    (hpost : post result world) :
    (Prog.done result : Prog Request Answer Result).Safe machine rely allow inv post world :=
  fun _ hothers _ => (hstable.others hinv hothers hworld hpost).2

theorem Prog.Safe.later {post : Result → World → Prop} {program : Prog Request Answer Result}
    {later : World} (hsafe : program.Safe machine rely allow inv post world)
    (hothers : Others machine rely world later) :
    program.Safe machine rely allow inv post later := by
  cases program with
  | done result | call request next => exact fun last hlast => hsafe last (hothers.trans hlast)

theorem Prog.Safe.bind {post : Result → World → Prop} {post' : Other → World → Prop}
    {program : Prog Request Answer Result} {next : Result → Prog Request Answer Other}
    (hinv : inv world) (hsafe : program.Safe machine rely allow inv post world)
    (hnext : ∀ result world, inv world → post result world →
      (next result).Safe machine rely allow inv post' world) :
    (program >>= next).Safe machine rely allow inv post' world := by
  induction program generalizing world with
  | done result => exact hnext result world hinv (hsafe world Relation.ReflTransGen.refl hinv)
  | call request rest ih =>
    intro later hothers hlater outcome hallow
    obtain ⟨hkept, hrest⟩ := hsafe later hothers hlater outcome hallow
    exact ⟨hkept, ih _ hkept hrest⟩

theorem Prog.Safe.mono {post post' : Result → World → Prop} {program : Prog Request Answer Result}
    (hsafe : program.Safe machine rely allow inv post world)
    (hpost : ∀ result world, inv world → post result world → post' result world) :
    program.Safe machine rely allow inv post' world := by
  induction program generalizing world with
  | done result => exact fun last hlast hinv => hpost result last hinv (hsafe last hlast hinv)
  | call request rest ih =>
    intro later hothers hlater outcome hallow
    obtain ⟨hkept, hrest⟩ := hsafe later hothers hlater outcome hallow
    exact ⟨hkept, ih _ hrest⟩

/-- Wherever the events leave a safe program, the invariant holds and the rest of the
program is safe. -/
theorem Prog.Safe.play {post : Result → World → Prop} {program : Prog Request Answer Result}
    {events : List (Event Change Outcome)} (hstable : Stable machine rely (fun _ => True) inv)
    (hinv : inv world) (hsafe : program.Safe machine rely allow inv post world)
    (hevents : EventsMeet machine rely allow program world events) :
    inv (play machine program world events).2 ∧
      (play machine program world events).1.Safe machine rely allow inv post
        (play machine program world events).2 := by
  induction events generalizing program world with
  | nil =>
    cases program <;> exact ⟨hinv, hsafe⟩
  | cons event events ih =>
    cases event with
    | change change =>
      have hmeets : rely world change ∧
          EventsMeet machine rely allow program (machine.change change world) events := by
        cases program <;> exact hevents
      have hplay : K3sm.Core.play machine program world (.change change :: events) =
          K3sm.Core.play machine program (machine.change change world) events := by
        cases program <;> rfl
      rw [hplay]
      refine ih (hstable world change trivial hmeets.1 hinv) ?_ hmeets.2
      exact hsafe.later (Relation.ReflTransGen.single ⟨change, hmeets.1, rfl⟩)
    | answer outcome =>
      cases program with
      | done result => exact ih hinv hsafe hevents
      | call request next =>
        obtain ⟨hkept, hrest⟩ :=
          hsafe world Relation.ReflTransGen.refl hinv outcome hevents.1
        exact ih hkept hrest hevents.2

theorem Prog.Safe.congr {post : Result → World → Prop} {inv' : World → Prop}
    {program : Prog Request Answer Result} (hsafe : program.Safe machine rely allow inv post world)
    (hsame : ∀ world, inv world ↔ inv' world) :
    program.Safe machine rely allow inv' post world := by
  induction program generalizing world with
  | done result => exact fun later hothers hlater => hsafe later hothers ((hsame later).2 hlater)
  | call request rest ih =>
    intro later hothers hlater outcome hallow
    obtain ⟨hafter, hrest⟩ := hsafe later hothers ((hsame later).2 hlater) outcome hallow
    exact ⟨(hsame _).1 hafter, ih _ hrest⟩

theorem Prog.Safe.frame {post : Result → World → Prop} {kept : World → Prop}
    {program : Prog Request Answer Result} (hinv : Stable machine rely (fun _ => True) inv)
    (hstable : Stable machine rely inv kept) (hworld : inv world) (hkept : kept world)
    (hsafe : program.Safe machine rely allow (fun world => inv world ∧ kept world) post world) :
    program.Safe machine rely allow inv (fun result world => post result world ∧ kept world)
      world := by
  induction program generalizing world with
  | done result =>
    intro later hothers hlater
    have hkeptLater := (hstable.others hinv hothers hworld hkept).2
    exact ⟨hsafe later hothers ⟨hlater, hkeptLater⟩, hkeptLater⟩
  | call request rest ih =>
    intro later hothers hlater outcome hallow
    have hkeptLater := (hstable.others hinv hothers hworld hkept).2
    obtain ⟨hafter, hrest⟩ := hsafe later hothers ⟨hlater, hkeptLater⟩ outcome hallow
    exact ⟨hafter.1, ih _ hafter.1 hafter.2 hrest⟩

theorem Prog.Safe.result {post : Result → World → Prop} {result : Result}
    (hsafe : (Prog.done result : Prog Request Answer Result).Safe machine rely allow inv post world)
    (hinv : inv world) : post result world :=
  hsafe world Relation.ReflTransGen.refl hinv

end Play

section All

variable {Request : Type} {Answer : Request → Type} {World Change Outcome Result Other : Type}
variable (valid : (request : Request) → Answer request → Prop) (sends : Request → Prop)

def Prog.All (post : Result → Prop) : Prog Request Answer Result → Prop
  | .done result => post result
  | .call request next =>
    sends request ∧ ∀ answer, valid request answer → (next answer).All post

variable {valid sends} {post : Result → Prop} {post' : Other → Prop}
  {program : Prog Request Answer Result}

@[simp]
theorem Prog.all_done {result : Result} :
    (Prog.done result : Prog Request Answer Result).All valid sends post ↔ post result :=
  Iff.rfl

@[simp]
theorem Prog.all_call {request : Request} {next : Answer request → Prog Request Answer Result} :
    (Prog.call request next).All valid sends post ↔
      sends request ∧ ∀ answer, valid request answer → (next answer).All valid sends post :=
  Iff.rfl

section

variable (hall : program.All valid sends post)

include hall

theorem Prog.All.bind {next : Result → Prog Request Answer Other}
    (hnext : ∀ result, post result → (next result).All valid sends post') :
    (program >>= next).All valid sends post' := by
  induction program with
  | done result => exact hnext result hall
  | call request rest ih =>
    exact ⟨hall.1, fun answer hanswer => ih answer (hall.2 answer hanswer)⟩

theorem Prog.All.mono {post' : Result → Prop} (hpost : ∀ result, post result → post' result) :
    program.All valid sends post' := by
  induction program with
  | done result => exact hpost result hall
  | call request rest ih =>
    exact ⟨hall.1, fun answer hanswer => ih answer (hall.2 answer hanswer)⟩

theorem Prog.All.widen {valid' : (request : Request) → Answer request → Prop}
    {sends' : Request → Prop}
    (hvalid : ∀ request answer, valid' request answer → valid request answer)
    (hsends : ∀ request, sends request → sends' request) : program.All valid' sends' post := by
  induction program with
  | done result => exact hall
  | call request rest ih =>
    exact ⟨hsends request hall.1,
      fun answer hanswer => ih answer (hall.2 answer (hvalid request answer hanswer))⟩

theorem Prog.All.safe {machine : Machine Request Answer World Change Outcome}
    {rely : World → Change → Prop} {allow : World → Request → Outcome → Prop} {inv : World → Prop}
    (hvalid : ∀ world request outcome, inv world → allow world request outcome →
      valid request (machine.handle request outcome world).1)
    (hkeeps : ∀ world request outcome, inv world → sends request → allow world request outcome →
      inv (machine.handle request outcome world).2) (world : World) :
    program.Safe machine rely allow inv (fun result _ => post result) world := by
  induction program generalizing world with
  | done result => exact fun _ _ _ => hall
  | call request rest ih =>
    intro later _ hlater outcome hallow
    exact ⟨hkeeps later request outcome hlater hall.1 hallow,
      ih _ (hall.2 _ (hvalid later request outcome hlater hallow)) _⟩

theorem Prog.All.keeps {machine : Machine Request Answer World Change Outcome}
    {rely : World → Change → Prop} {allow : World → Request → Outcome → Prop}
    {inv kept : World → Prop} (hinv : Stable machine rely (fun _ => True) inv)
    (hstable : Stable machine rely inv kept)
    (hvalid : ∀ world request outcome, inv world → allow world request outcome →
      valid request (machine.handle request outcome world).1)
    (hkeeps : ∀ world request outcome, inv world → kept world → sends request →
      allow world request outcome → inv (machine.handle request outcome world).2 ∧
        kept (machine.handle request outcome world).2) {world : World} (hworld : inv world)
    (hkept : kept world) :
    program.Safe machine rely allow inv (fun result world => post result ∧ kept world) world := by
  refine Prog.Safe.frame hinv hstable hworld hkept ?_
  exact hall.safe (fun world request outcome hboth => hvalid world request outcome hboth.1)
    (fun world request outcome hboth => hkeeps world request outcome hboth.1 hboth.2) world

end

theorem Prog.Safe.and_all {machine : Machine Request Answer World Change Outcome}
    {rely : World → Change → Prop} {allow : World → Request → Outcome → Prop}
    {inv : World → Prop} {post' : Result → World → Prop} {world : World}
    (hsafe : program.Safe machine rely allow inv post' world) (hall : program.All valid sends post)
    (hvalid : ∀ world request outcome, inv world → allow world request outcome →
      valid request (machine.handle request outcome world).1) :
    program.Safe machine rely allow inv (fun result world => post' result world ∧ post result)
      world := by
  induction program generalizing world with
  | done result => exact fun later hothers hlater => ⟨hsafe later hothers hlater, hall⟩
  | call request rest ih =>
    intro later hothers hlater outcome hallow
    obtain ⟨hafter, hrest⟩ := hsafe later hothers hlater outcome hallow
    exact ⟨hafter, ih _ hrest (hall.2 _ (hvalid later request outcome hlater hallow))⟩

end All

end K3sm.Core
