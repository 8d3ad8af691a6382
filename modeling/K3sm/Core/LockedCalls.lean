import K3sm.Core.Run

/-!
# Calls that read a clock before they take a lock

Any number of callers use one object behind a lock.  Each reads the clock first and works with
that reading once it has the lock, so the readings may reach the object in another order than they
were made in.
-/

namespace K3sm.Core

open List

/-- A caller that has read the clock and waits for the lock. -/
structure Call (Key : Type) where
  key : Key
  reading : ℕ
  deriving DecidableEq

/-- A call that has had the lock: the clock at that moment, the state it found
and whether it was granted. -/
structure Charge (Key State : Type) where
  key : Key
  reading : ℕ
  instant : ℕ
  found : State
  granted : Bool

/-- A clock, the calls that have read it and wait for the lock, and what the lock guards. -/
structure Callers (Key State : Type) where
  clock : ℕ
  waiting : List (Call Key)
  state : State
  log : List (Charge Key State)

inductive CallerEvent (Key : Type)
  | tick (elapsed : ℕ)
  | read (key : Key)
  | lock (index : ℕ)

variable {Key State : Type}

def Callers.fresh (state : State) (start : ℕ) : Callers Key State where
  clock := start
  waiting := []
  state := state
  log := []

namespace Callers

variable (operate : State → Key → ℕ → Bool × State)

def chargeOf (world : Callers Key State) (call : Call Key) : Charge Key State where
  key := call.key
  reading := call.reading
  instant := world.clock
  found := world.state
  granted := (operate world.state call.key call.reading).1

def next (world : Callers Key State) : CallerEvent Key → Callers Key State
  | .tick elapsed => { world with clock := world.clock + elapsed }
  | .read key => { world with waiting := world.waiting ++ [⟨key, world.clock⟩] }
  | .lock index =>
    match world.waiting[index]? with
    | none => world
    | some call =>
      { world with
        waiting := world.waiting.eraseIdx index
        state := (operate world.state call.key call.reading).2
        log := world.chargeOf operate call :: world.log }

/-- A charge is made of the object's answer in the state the call found, with
a reading no later than the moment of the lock. -/
structure Timely (start : ℕ) (world : Callers Key State) : Prop where
  clock : start ≤ world.clock
  waiting : ∀ call ∈ world.waiting, start ≤ call.reading ∧ call.reading ≤ world.clock
  log : ∀ charge ∈ world.log, start ≤ charge.reading ∧ charge.reading ≤ charge.instant ∧
    charge.granted = (operate charge.found charge.key charge.reading).1

variable {operate}

theorem Timely.next {start : ℕ} {world : Callers Key State} (htimely : world.Timely operate start)
    (event : CallerEvent Key) : (world.next operate event).Timely operate start := by
  cases event with
  | tick elapsed =>
    refine ⟨htimely.clock.trans (Nat.le_add_right _ _), ?_, htimely.log⟩
    intro call hcall
    have hreading := htimely.waiting call hcall
    exact ⟨hreading.1, hreading.2.trans (Nat.le_add_right _ _)⟩
  | read key =>
    refine ⟨htimely.clock, ?_, htimely.log⟩
    exact forall_mem_append.2 ⟨htimely.waiting, forall_mem_singleton.2 ⟨htimely.clock, le_refl _⟩⟩
  | lock index =>
    simp only [Callers.next]
    cases hcall : world.waiting[index]? with
    | none => exact htimely
    | some call =>
      have hreading := htimely.waiting call (mem_of_getElem? hcall)
      refine ⟨htimely.clock, ?_, ?_⟩
      · exact fun other hother => htimely.waiting other (mem_of_mem_eraseIdx hother)
      · exact forall_mem_cons.2 ⟨⟨hreading.1, hreading.2, rfl⟩, htimely.log⟩

/-- A condition on the moments when a call gets the lock. -/
def AtLock (condition : Callers Key State → Call Key → Prop) (world : Callers Key State) :
    CallerEvent Key → Prop
  | .lock index => ∀ call ∈ world.waiting[index]?, condition world call
  | _ => True

instance (condition : Callers Key State → Call Key → Prop)
    [∀ world call, Decidable (condition world call)] (world : Callers Key State) :
    (event : CallerEvent Key) → Decidable (world.AtLock condition event)
  | .tick _ => .isTrue trivial
  | .read _ => .isTrue trivial
  | .lock index =>
    inferInstanceAs (Decidable (∀ call ∈ world.waiting[index]?, condition world call))

/-- One rule for everything the object and its log keep: it is enough to look
at the moments when a call gets the lock. -/
theorem always_of_charge {condition : Callers Key State → Call Key → Prop}
    {inv : State → List (Charge Key State) → Prop} {start : ℕ}
    (hcharge : ∀ (world : Callers Key State) (call : Call Key),
      start ≤ call.reading → condition world call → inv world.state world.log →
      inv (operate world.state call.key call.reading).2 (world.chargeOf operate call :: world.log))
    {state : State} (hstate : inv state []) {events : List (CallerEvent Key)}
    (hsteps : EachStep (AtLock condition) (next operate) (fresh state start) events) :
    Always (fun world => world.Timely operate start ∧ inv world.state world.log) (next operate)
      (fresh state start) events := by
  have hfresh : (fresh state start : Callers Key State).Timely operate start :=
    ⟨le_refl _, by simp [fresh], by simp [fresh]⟩
  have hstep : ∀ (world : Callers Key State) (event : CallerEvent Key),
      (world.Timely operate start ∧ inv world.state world.log) → world.AtLock condition event →
      (world.next operate event).Timely operate start ∧
        inv (world.next operate event).state (world.next operate event).log := by
    intro world event hworld hcondition
    refine ⟨hworld.1.next event, ?_⟩
    cases event with
    | tick elapsed | read key => exact hworld.2
    | lock index =>
      simp only [next]
      cases hcall : world.waiting[index]? with
      | none => exact hworld.2
      | some call =>
        have hreading := hworld.1.waiting call (mem_of_getElem? hcall)
        exact hcharge world call hreading.1 (hcondition call hcall) hworld.2
  exact always_of_eachStep hstep ⟨hfresh, hstate⟩ hsteps

theorem always_of_every_charge {inv : State → List (Charge Key State) → Prop} {start : ℕ}
    (hcharge : ∀ (world : Callers Key State) (call : Call Key),
      start ≤ call.reading → inv world.state world.log →
      inv (operate world.state call.key call.reading).2 (world.chargeOf operate call :: world.log))
    {state : State} (hstate : inv state []) (events : List (CallerEvent Key)) :
    Always (fun world => world.Timely operate start ∧ inv world.state world.log) (next operate)
      (fresh state start) events := by
  have hsteps : ∀ (events : List (CallerEvent Key)) (world : Callers Key State),
      EachStep (AtLock fun _ _ => True) (next operate) world events := by
    intro events
    induction events with
    | nil => exact fun _ => trivial
    | cons event events ih =>
      intro world
      refine ⟨?_, ih _⟩
      cases event <;> simp [AtLock]
  exact always_of_charge (fun world call hstart _ => hcharge world call hstart) hstate
    (hsteps events _)

variable (touches : Charge Key State → Bool)

variable (operate) in
/-- A call that touches the watched part gets the lock with a reading no
earlier than that of every call that touched it before. -/
def inTurn (world : Callers Key State) (call : Call Key) : Prop :=
  touches (world.chargeOf operate call) = true →
    ∀ earlier ∈ world.log, touches earlier = true → earlier.reading ≤ call.reading

instance (world : Callers Key State) (call : Call Key) :
    Decidable (inTurn operate touches world call) :=
  inferInstanceAs (Decidable (_ → _))

variable (operate) in
/-- The watched part is reached in the order of the readings. -/
abbrev InOrder : Callers Key State → CallerEvent Key → Prop :=
  AtLock (inTurn operate touches)

def latest (log : List (Charge Key State)) : ℕ :=
  ((log.filter touches).map Charge.reading).foldr max 0

variable {touches}

theorem latest_le {log : List (Charge Key State)} {now : ℕ}
    (hall : ∀ earlier ∈ log, touches earlier = true → earlier.reading ≤ now) :
    latest touches log ≤ now := by
  induction log with
  | nil => exact Nat.zero_le _
  | cons charge log ih =>
    have hrest := ih fun earlier hearlier => hall earlier (mem_cons_of_mem _ hearlier)
    by_cases htouch : touches charge = true
    · simp only [latest, filter_cons_of_pos htouch, map_cons, foldr_cons]
      exact max_le (hall charge mem_cons_self htouch) hrest
    · simpa only [latest, filter_cons_of_neg htouch] using hrest

theorem latest_cons_of_touches {charge : Charge Key State} {log : List (Charge Key State)}
    (htouch : touches charge = true) (hlatest : latest touches log ≤ charge.reading) :
    latest touches (charge :: log) = charge.reading := by
  simp only [latest, filter_cons_of_pos htouch, map_cons, foldr_cons]
  exact max_eq_left hlatest

theorem latest_cons_of_not_touches {charge : Charge Key State} {log : List (Charge Key State)}
    (htouch : touches charge = false) : latest touches (charge :: log) = latest touches log := by
  simp only [latest, filter_cons_of_neg (Bool.not_eq_true _ ▸ htouch)]

/-- An invariant over the latest reading of the watched part is kept by every
run in which that part is reached in order. -/
theorem always_inOrder {inv : State → List (Charge Key State) → ℕ → Prop} {start : ℕ}
    (hidle : ∀ (world : Callers Key State) (call : Call Key) (last : ℕ),
      start ≤ call.reading → touches (world.chargeOf operate call) = false →
      inv world.state world.log last →
      inv (operate world.state call.key call.reading).2
        (world.chargeOf operate call :: world.log) last)
    (htouch : ∀ (world : Callers Key State) (call : Call Key) (last : ℕ),
      start ≤ call.reading → touches (world.chargeOf operate call) = true →
      last ≤ call.reading → inv world.state world.log last →
      inv (operate world.state call.key call.reading).2
        (world.chargeOf operate call :: world.log) call.reading)
    {state : State} (hstate : inv state [] 0) {events : List (CallerEvent Key)}
    (hsteps : EachStep (InOrder operate touches) (next operate) (fresh state start) events) :
    Always (fun world => world.Timely operate start ∧
      inv world.state world.log (latest touches world.log)) (next operate)
      (fresh state start) events := by
  refine @always_of_charge Key State operate _
    (fun state log => inv state log (latest touches log)) start ?_ state hstate events hsteps
  intro world call hstart horder hinv
  cases htouches : touches (world.chargeOf operate call) with
  | false =>
    rw [latest_cons_of_not_touches htouches]
    exact hidle world call _ hstart htouches hinv
  | true =>
    have hlatest : latest touches world.log ≤ call.reading :=
      latest_le (horder htouches)
    have hnow : latest touches (world.chargeOf operate call :: world.log) = call.reading :=
      latest_cons_of_touches htouches hlatest
    rw [hnow]
    exact htouch world call _ hstart htouches hlatest hinv

end Callers

end K3sm.Core
