import K3sm.Core.Run

/-!
# Threads over a shared state

Threads take turns on a shared state.  A turn is one atomic section of one thread: it changes the
state, leaves the thread where it goes on, and may start other threads.  An invariant of the state
and the threads, whatever their order, is shown turn by turn.
-/

namespace K3sm.Core

structure Threads (Shared Thread : Type) where
  shared : Shared
  threads : List Thread

/-- What a turn makes of the state and its thread, and the threads it starts. -/
structure Taken (Shared Thread : Type) where
  shared : Shared
  thread : Thread
  started : List Thread

inductive ThreadMove (Thread Outcome Change : Type) where
  | start (thread : Thread)
  | turn (index : ℕ) (outcome : Outcome)
  | outside (change : Change)

namespace Threads

variable {Shared Thread Outcome Change : Type}
variable (act : Outcome → Shared → Thread → Taken Shared Thread)
  (outside : Change → Shared → Shared)

def next (system : Threads Shared Thread) : ThreadMove Thread Outcome Change → Threads Shared Thread
  | .start thread => { system with threads := system.threads ++ [thread] }
  | .turn index outcome =>
    match system.threads[index]? with
    | none => system
    | some thread =>
      let taken := act outcome system.shared thread
      { shared := taken.shared
        threads := system.threads.set index taken.thread ++ taken.started }
  | .outside change => { system with shared := outside change system.shared }

/-- Only threads of one kind are started from outside, and every turn meets a condition on
the state and the thread it is taken in. -/
def Meets (begins : Thread → Prop) (condition : Shared → Thread → Outcome → Prop)
    (system : Threads Shared Thread) : ThreadMove Thread Outcome Change → Prop
  | .start thread => begins thread
  | .turn index outcome =>
    ∀ thread, system.threads[index]? = some thread → condition system.shared thread outcome
  | .outside _ => True

instance decidableMeets (begins : Thread → Prop) [DecidablePred begins]
    (condition : Shared → Thread → Outcome → Prop)
    [∀ shared thread outcome, Decidable (condition shared thread outcome)]
    (system : Threads Shared Thread) :
    ∀ move : ThreadMove Thread Outcome Change, Decidable (system.Meets begins condition move)
  | .start thread => inferInstanceAs (Decidable (begins thread))
  | .turn index outcome =>
    inferInstanceAs
      (Decidable (∀ thread ∈ system.threads[index]?, condition system.shared thread outcome))
  | .outside _ => isTrue trivial

variable {act outside} {begins : Thread → Prop} {condition : Shared → Thread → Outcome → Prop}
  {inv : Shared → Multiset Thread → Prop}

theorem exists_others {threads : List Thread} {index : ℕ} {thread : Thread}
    (hfound : threads[index]? = some thread) :
    ∃ others : Multiset Thread, (threads : Multiset Thread) = thread ::ₘ others ∧
      ∀ other : Thread, (threads.set index other : Multiset Thread) = other ::ₘ others := by
  obtain ⟨hindex, rfl⟩ := List.getElem?_eq_some_iff.1 hfound
  refine ⟨threads.eraseIdx index, ?_, fun other => ?_⟩
  · exact (Multiset.coe_eq_coe.2 (List.getElem_cons_eraseIdx_perm hindex)).symm
  · exact Multiset.coe_eq_coe.2 (List.set_perm_cons_eraseIdx hindex other)

theorem step_inv
    (hstart : ∀ shared threads thread, inv shared threads → begins thread →
      inv shared (thread ::ₘ threads))
    (hturn : ∀ shared thread others outcome, inv shared (thread ::ₘ others) →
      condition shared thread outcome →
      inv (act outcome shared thread).shared
        ((act outcome shared thread).thread ::ₘ (others + (act outcome shared thread).started)))
    (houtside : ∀ shared threads change, inv shared threads → inv (outside change shared) threads)
    {system : Threads Shared Thread} {move : ThreadMove Thread Outcome Change}
    (hinv : inv system.shared system.threads) (hmove : system.Meets begins condition move) :
    inv (system.next act outside move).shared (system.next act outside move).threads := by
  cases move with
  | start thread =>
    have hthreads : ((system.threads ++ [thread] : List Thread) : Multiset Thread) =
        thread ::ₘ (system.threads : Multiset Thread) := by
      rw [← Multiset.coe_add, add_comm]
      rfl
    change inv system.shared ((system.threads ++ [thread] : List Thread) : Multiset Thread)
    rw [hthreads]
    exact hstart _ _ _ hinv hmove
  | turn index outcome =>
    unfold next
    dsimp only
    split
    case h_1 => exact hinv
    rename_i thread hfound
    obtain ⟨others, hthreads, hset⟩ := exists_others hfound
    rw [hthreads] at hinv
    dsimp only
    rw [← Multiset.coe_add, hset, Multiset.cons_add]
    exact hturn _ _ _ _ hinv (hmove thread hfound)
  | outside change => exact houtside _ _ _ hinv

/-- An invariant that every turn keeps under the condition holds throughout every run whose
moves meet it. -/
theorem always_inv
    (hstart : ∀ shared threads thread, inv shared threads → begins thread →
      inv shared (thread ::ₘ threads))
    (hturn : ∀ shared thread others outcome, inv shared (thread ::ₘ others) →
      condition shared thread outcome →
      inv (act outcome shared thread).shared
        ((act outcome shared thread).thread ::ₘ (others + (act outcome shared thread).started)))
    (houtside : ∀ shared threads change, inv shared threads → inv (outside change shared) threads)
    {system : Threads Shared Thread} (hinv : inv system.shared system.threads)
    {moves : List (ThreadMove Thread Outcome Change)}
    (hmoves : EachStep (Meets begins condition) (next act outside) system moves) :
    Always (fun system => inv system.shared system.threads) (next act outside) system moves := by
  have hstep : ∀ (system : Threads Shared Thread) (move : ThreadMove Thread Outcome Change),
      inv system.shared system.threads → system.Meets begins condition move →
      inv (system.next act outside move).shared (system.next act outside move).threads :=
    fun system move hinv hmove => step_inv hstart hturn houtside hinv hmove
  exact always_of_eachStep hstep hinv hmoves

end Threads

end K3sm.Core
