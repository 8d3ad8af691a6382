import K3sm.Provider.PodCalls

/-!
# No pod comes back from the dead

A create that lands behind a delete is answered by a compensating delete, if the create that
landed reads the delete.  `createBehindDelete` reads it in the UID as well as in the tracks;
`commitParkedCreate` reads it in the retry's own track alone, which a repeat create may have
replaced before the delete found its successor.
-/

namespace K3sm.Provider.PodCalls

open K3sm.Core Multiset

section Roles

def isAdmitted : PodCall → Bool
  | .admitted _ | .claims _ | .hold _ | .allocate _ | .creating _ _ _ | .park _ _
  | .rejected _ _ _ | .untrack _ _ | .landed _ _ | .late _ | .createDone _ _ => true
  | .releasing _ next | .released next => isAdmitted next
  | _ => false

def inDelete : PodCall → Bool
  | .deleting _ | .deleteFailed | .deleted _ => true
  | .releasing _ next | .released next => inDelete next
  | _ => false

def pastDelete : PodCall → Bool
  | .deleted _ => true
  | .releasing _ next | .released next => pastDelete next
  | _ => false

def inLoop : PodCall → Bool
  | .compensate | .compensated => true
  | .releasing _ next | .released next => inLoop next
  | _ => false

def leavesLoop : PodCall → Bool
  | .compensateEnd => true
  | .releasing _ next | .released next => leavesLoop next
  | _ => false

variable {Uid : Type}

def answers (state : PodState Uid) : PodCall → Bool
  | .landed _ _ | .late _ | .retryLanded _ | .retryLate | .compensate => true
  | .retryCommit number live => (state.track number).deleting || live.isNone
  | .compensated => state.compensateAgain
  | .releasing _ next | .released next => answers state next
  | _ => false

/-- The invariant of a pod's creates and deletes. -/
structure Sound (state : PodState Uid) (calls : Multiset PodCall) : Prop where
  admitting : calls.countP (isAdmitted · = true) = state.admitting
  deleting : calls.countP (inDelete · = true) = state.deleteInRPC
  loop : calls.countP (inLoop · = true) = if state.compensating = some true then 1 else 0
  leaving : calls.countP (leavesLoop · = true) = if state.compensating = some false then 1 else 0
  fenced : state.compensating = some false → state.admitting = 0
  owed : state.torn = true → state.admitting ≠ 0 →
    state.deleteOwed.any (fun owed => !owed.refusal) = true
  answered : state.guest = true → (state.torn = true ∨ ∃ call ∈ calls, pastDelete call = true) →
    ∃ call ∈ calls, answers state call = true

theorem inDelete_of_pastDelete {call : PodCall} (hpast : pastDelete call = true) :
    inDelete call = true := by
  induction call with
  | deleted owned => rfl
  | releasing owed next ih | released next ih => exact ih hpast
  | _ => exact absurd hpast Bool.false_ne_true

def role (call : PodCall) : Bool × Bool × Bool × Bool × Bool :=
  (isAdmitted call, inDelete call, pastDelete call, inLoop call, leavesLoop call)

def idle : Bool × Bool × Bool × Bool × Bool := (false, false, false, false, false)

variable {before after : PodState Uid} {call rest : PodCall} {others : Multiset PodCall}
  {worker : Option ℕ} {number : ℕ} {turnout : Turnout}

theorem Sound.turn (hsound : Sound before (call ::ₘ others))
    (hadmitting : after.admitting + (isAdmitted call).toNat =
      before.admitting + (isAdmitted rest).toNat)
    (hdeleting : after.deleteInRPC + (inDelete call).toNat =
      before.deleteInRPC + (inDelete rest).toNat)
    (hloop : (if after.compensating = some true then 1 else 0) + (inLoop call).toNat =
      (if before.compensating = some true then 1 else 0) + (inLoop rest).toNat)
    (hleaving : (if after.compensating = some false then 1 else 0) + (leavesLoop call).toNat =
      (if before.compensating = some false then 1 else 0) + (leavesLoop rest).toNat)
    (hfenced : after.compensating = some false → after.admitting = 0)
    (howed : after.torn = true → after.admitting ≠ 0 →
      after.deleteOwed.any (fun owed => !owed.refusal) = true)
    (hanswered : after.guest = true →
      (after.torn = true ∨ pastDelete rest = true ∨ ∃ other ∈ others, pastDelete other = true) →
      answers after rest = true ∨ ∃ other ∈ others, answers after other = true) :
    Sound after (rest ::ₘ others) := by
  have hcount : ∀ kind : PodCall → Bool,
      (rest ::ₘ others).countP (kind · = true) + (kind call).toNat =
        (call ::ₘ others).countP (kind · = true) + (kind rest).toNat := by
    intro kind
    rw [countP_cons, countP_cons]
    cases kind call <;> cases kind rest <;> simp
  have hadmitted := hcount isAdmitted
  have hdeletes := hcount inDelete
  have hloops := hcount inLoop
  have hleaves := hcount leavesLoop
  rw [hsound.admitting] at hadmitted
  rw [hsound.deleting] at hdeletes
  rw [hsound.loop] at hloops
  rw [hsound.leaving] at hleaves
  refine ⟨by omega, by omega, by omega, by omega, hfenced, howed, ?_⟩
  intro hguest hbehind
  have hdanger : after.torn = true ∨ pastDelete rest = true ∨
      ∃ other ∈ others, pastDelete other = true := by
    refine hbehind.imp_right ?_
    rintro ⟨other, hother, hpast⟩
    rcases mem_cons.1 hother with rfl | hmem
    · exact .inl hpast
    · exact .inr ⟨other, hmem, hpast⟩
  rcases hanswered hguest hdanger with hrest | ⟨other, hother, hanswers⟩
  · exact ⟨rest, mem_cons_self _ _, hrest⟩
  · exact ⟨other, mem_cons_of_mem hother, hanswers⟩

theorem Sound.start (hsound : Sound before others) (hidle : role call = idle) :
    Sound before (call ::ₘ others) := by
  simp only [role, idle, Prod.mk.injEq] at hidle
  obtain ⟨hadmitted, hdelete, hpast, hloop, hleaves⟩ := hidle
  refine ⟨?_, ?_, ?_, ?_, hsound.fenced, hsound.owed, ?_⟩
  · rw [countP_cons, hadmitted]
    exact hsound.admitting
  · rw [countP_cons, hdelete]
    exact hsound.deleting
  · rw [countP_cons, hloop]
    exact hsound.loop
  · rw [countP_cons, hleaves]
    exact hsound.leaving
  intro hguest hbehind
  have hdanger : before.torn = true ∨ ∃ other ∈ others, pastDelete other = true := by
    refine hbehind.imp_right ?_
    rintro ⟨other, hother, hotherPast⟩
    rcases mem_cons.1 hother with rfl | hmem
    · rw [hpast] at hotherPast
      exact absurd hotherPast Bool.false_ne_true
    · exact ⟨other, hmem, hotherPast⟩
  obtain ⟨other, hother, hanswers⟩ := hsound.answered hguest hdanger
  exact ⟨other, mem_cons_of_mem hother, hanswers⟩

/-- What is in flight for the pod, and what it is owed, stays. -/
structure Quiet (before after : PodState Uid) : Prop where
  guest : after.guest = before.guest
  torn : after.torn = before.torn
  admitting : after.admitting = before.admitting
  deleteInRPC : after.deleteInRPC = before.deleteInRPC
  compensating : after.compensating = before.compensating
  compensateAgain : after.compensateAgain = before.compensateAgain
  owed : before.admitting ≠ 0 → before.deleteOwed.any (fun owed => !owed.refusal) = true →
    after.deleteOwed.any (fun owed => !owed.refusal) = true
  deleting : ∀ number, (before.track number).deleting = true → (after.track number).deleting = true

theorem Quiet.refl (state : PodState Uid) : Quiet state state :=
  ⟨rfl, rfl, rfl, rfl, rfl, rfl, fun _ howed => howed, fun _ hmark => hmark⟩

theorem Quiet.trans {middle : PodState Uid} (hfirst : Quiet before middle)
    (hsecond : Quiet middle after) : Quiet before after where
  guest := hsecond.guest.trans hfirst.guest
  torn := hsecond.torn.trans hfirst.torn
  admitting := hsecond.admitting.trans hfirst.admitting
  deleteInRPC := hsecond.deleteInRPC.trans hfirst.deleteInRPC
  compensating := hsecond.compensating.trans hfirst.compensating
  compensateAgain := hsecond.compensateAgain.trans hfirst.compensateAgain
  owed := fun hcalls howed =>
    hsecond.owed (hfirst.admitting.symm ▸ hcalls) (hfirst.owed hcalls howed)
  deleting := fun number hmark => hsecond.deleting number (hfirst.deleting number hmark)

theorem answers_mono (hagain : before.compensateAgain = true → after.compensateAgain = true)
    (hdeleting : ∀ number, (before.track number).deleting = true →
      (after.track number).deleting = true)
    (hanswers : answers before call = true) : answers after call = true := by
  induction call with
  | retryCommit number live =>
    rcases Bool.or_eq_true_iff.1 hanswers with hmark | hnone
    · exact Bool.or_eq_true_iff.2 (.inl (hdeleting number hmark))
    · exact Bool.or_eq_true_iff.2 (.inr hnone)
  | compensated => exact hagain hanswers
  | releasing owed next ih | released next ih => exact ih hanswers
  | _ => exact hanswers

theorem Quiet.answers (hquiet : Quiet before after)
    (hanswers : PodCalls.answers before call = true) :
    PodCalls.answers after call = true :=
  answers_mono (fun hagain => hquiet.compensateAgain.trans hagain) hquiet.deleting hanswers

theorem Sound.answered_by (hsound : Sound before (call ::ₘ others)) (hguest : before.guest = true)
    (hdanger : before.torn = true ∨ pastDelete call = true ∨
      ∃ other ∈ others, pastDelete other = true) :
    answers before call = true ∨ ∃ other ∈ others, answers before other = true := by
  have hbehind : before.torn = true ∨ ∃ other ∈ call ::ₘ others, pastDelete other = true := by
    rcases hdanger with htorn | hcall | ⟨other, hother, hpast⟩
    · exact .inl htorn
    · exact .inr ⟨call, mem_cons_self _ _, hcall⟩
    · exact .inr ⟨other, mem_cons_of_mem hother, hpast⟩
  obtain ⟨other, hother, hanswers⟩ := hsound.answered hguest hbehind
  rcases mem_cons.1 hother with rfl | hmem
  · exact .inl hanswers
  · exact .inr ⟨other, hmem, hanswers⟩

theorem Sound.no_past (hsound : Sound before (call ::ₘ others)) (hnone : before.deleteInRPC = 0) :
    ∀ other ∈ call ::ₘ others, pastDelete other = false := by
  intro other hother
  by_contra hpast
  have hcount := hsound.deleting
  rw [hnone, countP_eq_zero] at hcount
  exact hcount other hother (inDelete_of_pastDelete (by simpa using hpast))

/-- A quiet turn after which the call answers if it did, unless no delete is there to answer
for. -/
theorem Sound.quiet (hsound : Sound before (call ::ₘ others)) (hquiet : Quiet before after)
    (hrole : role rest = role call)
    (hanswers : PodCalls.answers before call = true →
      PodCalls.answers after rest = true ∨ before.torn = false ∧ before.deleteInRPC = 0) :
    Sound after (rest ::ₘ others) := by
  simp only [role, Prod.mk.injEq] at hrole
  obtain ⟨hadmitted, hdelete, hpast, hloop, hleaves⟩ := hrole
  apply hsound.turn
  · rw [hquiet.admitting, hadmitted]
  · rw [hquiet.deleteInRPC, hdelete]
  · rw [hquiet.compensating, hloop]
  · rw [hquiet.compensating, hleaves]
  · rw [hquiet.compensating, hquiet.admitting]
    exact hsound.fenced
  · rw [hquiet.torn, hquiet.admitting]
    exact fun htorn hcalls => hquiet.owed hcalls (hsound.owed htorn hcalls)
  rw [hquiet.guest, hquiet.torn, hpast]
  intro hguest hdanger
  rcases hsound.answered_by hguest hdanger with hcall | ⟨other, hother, hother_answers⟩
  · rcases hanswers hcall with hrest | ⟨htorn, hnone⟩
    · exact .inl hrest
    rcases hdanger with hwas | hlate | ⟨late, hlate, hpastLate⟩
    · rw [htorn] at hwas
      exact absurd hwas Bool.false_ne_true
    · rw [hsound.no_past hnone call (mem_cons_self _ _)] at hlate
      exact absurd hlate Bool.false_ne_true
    · rw [hsound.no_past hnone late (mem_cons_of_mem hlate)] at hpastLate
      exact absurd hpastLate Bool.false_ne_true
  · exact .inr ⟨other, hother, hquiet.answers hother_answers⟩

abbrev SoundAfter (taken : Took Uid) (others : Multiset PodCall) : Prop :=
  Sound taken.shared (taken.thread ::ₘ (others + taken.started))

theorem Sound.goOn (hsound : Sound after (rest ::ₘ others)) :
    SoundAfter (PodCalls.goOn after rest) others := by
  unfold SoundAfter PodCalls.goOn
  rwa [coe_nil, add_zero]

variable (state : PodState Uid)

theorem quiet_setTrack (number : ℕ) {change : Track → Track}
    (hkeeps : ∀ track, track.deleting = true → (change track).deleting = true) :
    Quiet state (state.setTrack number change) := by
  refine { Quiet.refl state with deleting := ?_ }
  intro other hmark
  unfold PodState.track PodState.setTrack at *
  rw [List.getD_eq_getElem?_getD] at hmark ⊢
  rw [List.getElem?_modify]
  cases hfound : state.tracks[other]? with
  | none =>
    rw [hfound] at hmark
    exact absurd hmark Bool.false_ne_true
  | some track =>
    rw [hfound] at hmark
    show (if number = other then change track else track).deleting = true
    by_cases hnumber : number = other
    · rw [if_pos hnumber]
      exact hkeeps track hmark
    · rw [if_neg hnumber]
      exact hmark

theorem quiet_install (track : Track) : Quiet state (state.install track) := by
  refine { Quiet.refl state with deleting := ?_ }
  intro number hmark
  unfold PodState.track PodState.install at *
  rw [List.getD_eq_getElem?_getD] at hmark ⊢
  cases hfound : state.tracks[number]? with
  | none =>
    rw [hfound] at hmark
    exact absurd hmark Bool.false_ne_true
  | some found =>
    rw [hfound] at hmark
    have hshort := (List.getElem?_eq_some_iff.1 hfound).1
    rw [List.getElem?_append_left hshort, hfound]
    exact hmark

theorem quiet_claimFenceRelease : Quiet state state.claimFenceRelease.2 := by
  unfold PodState.claimFenceRelease
  split
  case isTrue => exact Quiet.refl state
  rename_i hfree
  have hout : state.admitting = 0 := by
    simp only [PodState.inFlight, Bool.or_eq_true, decide_eq_true_eq, not_or] at hfree
    exact not_not.1 hfree.1.1.1
  cases state.deleteOwed with
  | none =>
    dsimp only
    split
    · exact { Quiet.refl _ with }
    · exact Quiet.refl state
  | some owed =>
    dsimp only
    split
    · exact { Quiet.refl state with owed := fun hcalls => absurd hout hcalls }
    · exact { Quiet.refl state with owed := fun hcalls => absurd hout hcalls }

theorem quiet_forgetTorndown (owned : Option ℕ) : Quiet state (state.forgetTorndown owned) := by
  unfold PodState.forgetTorndown
  split
  · exact { Quiet.refl _ with }
  · exact Quiet.refl state

theorem quiet_withdrawRefusal (number : ℕ) : Quiet state (state.withdrawRefusal number) := by
  unfold PodState.withdrawRefusal
  split
  case h_2 => exact Quiet.refl state
  rename_i owned howed
  refine { Quiet.refl state with owed := ?_ }
  intro _ hdelete
  rw [howed] at hdelete
  exact absurd hdelete Bool.false_ne_true

theorem quiet_untrackRejectedCreate (number : ℕ) :
    Quiet state (state.untrackRejectedCreate number).2 := by
  have hpublish : ∀ after : PodState Uid, Quiet state after →
      Quiet state after.publishFenceRelease := fun after hquiet =>
    hquiet.trans { Quiet.refl _ with }
  have hafter : Quiet state
      (if (state.live.isSome && decide (state.live ≠ some number)) || state.deleteOwed.isSome then
        state
      else if state.deleteOwed.isSome || decide (state.updating ≠ 0) || state.fenceReleasing then
        { state with deleteOwed := some { owned := some number, refusal := true } }
      else if state.live = some number then { state with live := none }
      else state) := by
    split_ifs with hleft
    · exact Quiet.refl state
    · refine { Quiet.refl state with owed := ?_ }
      intro _ hdelete
      have hnone : state.deleteOwed = none := by
        simp only [Bool.or_eq_true, not_or, Bool.not_eq_true, Option.isSome_eq_false_iff,
          Option.isNone_iff_eq_none] at hleft
        exact hleft.2
      rw [hnone] at hdelete
      exact absurd hdelete Bool.false_ne_true
    · exact { Quiet.refl _ with }
    · exact Quiet.refl state
  unfold PodState.untrackRejectedCreate
  dsimp only
  split
  · exact hpublish _ hafter
  · exact hafter

theorem quiet_forgetRejectedNow [DecidableEq Uid] (uid : Uid) (number : ℕ) :
    Quiet state (forgetRejectedNow uid number state) := by
  unfold forgetRejectedNow
  dsimp only
  split_ifs
  · exact { Quiet.refl state with owed := fun _ _ => rfl }
  · exact { Quiet.refl _ with }
  · exact { Quiet.refl _ with }

variable {state}

theorem Sound.orRelease (hsound : Sound state (rest ::ₘ others)) :
    SoundAfter (PodCalls.orRelease state.claimFenceRelease rest) others := by
  have hquiet := quiet_claimFenceRelease state
  unfold PodCalls.orRelease
  split
  case h_2 => exact (hsound.quiet hquiet rfl fun hanswers => .inl (hquiet.answers hanswers)).goOn
  rename_i owed _
  have hafter : Sound state.claimFenceRelease.2 (.releasing owed rest ::ₘ others) :=
    hsound.quiet hquiet rfl fun hanswers => .inl (hquiet.answers hanswers)
  exact hafter.goOn

/-! ## Turns that count -/

theorem Sound.admitting_pos (hsound : Sound state (call ::ₘ others))
    (hadmitted : isAdmitted call = true) : 0 < state.admitting := by
  rw [← hsound.admitting, countP_pos]
  exact ⟨call, mem_cons_self _ _, hadmitted⟩

theorem Sound.deleteInRPC_pos (hsound : Sound state (call ::ₘ others))
    (hdelete : inDelete call = true) : 0 < state.deleteInRPC := by
  rw [← hsound.deleting, countP_pos]
  exact ⟨call, mem_cons_self _ _, hdelete⟩

theorem Sound.others_answer (hsound : Sound before (call ::ₘ others))
    (hsilent : answers before call = false) (htracks : after.tracks = before.tracks)
    (hagain : after.compensateAgain = before.compensateAgain) (hguest : before.guest = true)
    (hdanger : before.torn = true ∨ pastDelete call = true ∨
      ∃ other ∈ others, pastDelete other = true) :
    answers after rest = true ∨ ∃ other ∈ others, answers after other = true := by
  rcases hsound.answered_by hguest hdanger with hcall | ⟨other, hother, hanswers⟩
  · rw [hsilent] at hcall
    exact absurd hcall Bool.false_ne_true
  · refine .inr ⟨other, hother, answers_mono (fun hwas => hagain.trans hwas) ?_ hanswers⟩
    intro number hmark
    unfold PodState.track at hmark ⊢
    rwa [htracks]

theorem Sound.counted (hsound : Sound state (.admission worker ::ₘ others))
    (htorn : state.torn = false) (hfree : state.compensating = none) :
    Sound { state with admitting := state.admitting + 1 } (.admitted worker ::ₘ others) := by
  refine hsound.turn rfl rfl rfl rfl ?_ ?_ (hsound.others_answer rfl rfl rfl)
  · intro hfalse
    exact absurd (hfree.symm.trans hfalse) nofun
  · intro hwas
    exact absurd (htorn.symm.trans hwas) Bool.false_ne_true

theorem role_afterCreate (worker : Option ℕ) (failed : Bool) :
    role (afterCreate worker failed) = idle := by
  cases worker <;> rfl

theorem Sound.uncounted {failed : Bool}
    (hsound : Sound state (.createDone worker failed ::ₘ others)) :
    Sound { state with admitting := state.admitting - 1 }
      (afterCreate worker failed ::ₘ others) := by
  have hpos := hsound.admitting_pos rfl
  have hidle := role_afterCreate worker failed
  simp only [role, idle, Prod.mk.injEq] at hidle
  obtain ⟨hadmitted, hdelete, hpast, hloop, hleaves⟩ := hidle
  refine hsound.turn ?_ ?_ ?_ ?_ ?_ ?_ ?_
  · rw [hadmitted]
    exact Nat.sub_add_cancel hpos
  · rw [hdelete]
    rfl
  · rw [hloop]
    rfl
  · rw [hleaves]
    rfl
  · intro hfalse
    exact absurd (hsound.fenced hfalse) hpos.ne'
  · intro htorn _
    exact hsound.owed htorn hpos.ne'
  · rw [hpast]
    exact hsound.others_answer rfl rfl rfl

theorem Sound.lands (hsound : Sound state (call ::ₘ others)) (hrole : role rest = role call)
    (hanswers : ∀ state : PodState Uid, answers state rest = true) :
    Sound { state with guest := true } (rest ::ₘ others) := by
  simp only [role, Prod.mk.injEq] at hrole
  obtain ⟨hadmitted, hdelete, -, hloop, hleaves⟩ := hrole
  refine hsound.turn ?_ ?_ ?_ ?_ hsound.fenced hsound.owed fun _ _ => .inl (hanswers _)
  · rw [hadmitted]
  · rw [hdelete]
  · rw [hloop]
  · rw [hleaves]

theorem Sound.vanishes (hsound : Sound state (call ::ₘ others))
    (hadmitted : isAdmitted rest = isAdmitted call) (hdelete : inDelete rest = inDelete call)
    (hloop : inLoop rest = inLoop call) (hleaves : leavesLoop rest = leavesLoop call) :
    Sound { state with guest := false } (rest ::ₘ others) := by
  refine hsound.turn ?_ ?_ ?_ ?_ hsound.fenced hsound.owed
    fun hguest => absurd hguest Bool.false_ne_true
  · rw [hadmitted]
  · rw [hdelete]
  · rw [hloop]
  · rw [hleaves]

theorem Sound.teardown {owned : Option ℕ} (hsound : Sound state (.teardown owned ::ₘ others)) :
    Sound { state with deleteInRPC := state.deleteInRPC + 1 } (.deleting owned ::ₘ others) :=
  hsound.turn rfl rfl rfl rfl hsound.fenced hsound.owed (hsound.others_answer rfl rfl rfl)

theorem Sound.deleteFailed (hsound : Sound state (.deleteFailed ::ₘ others)) :
    Sound { state with deleteInRPC := state.deleteInRPC - 1 } (.ended ::ₘ others) :=
  hsound.turn rfl (Nat.sub_add_cancel (hsound.deleteInRPC_pos rfl)) rfl rfl hsound.fenced
    hsound.owed (hsound.others_answer rfl rfl rfl)

theorem Sound.looping (hsound : Sound state (call ::ₘ others)) (hloop : inLoop call = true) :
    state.compensating = some true := by
  by_contra hother
  have hcount := hsound.loop
  rw [if_neg hother, countP_eq_zero] at hcount
  exact hcount call (mem_cons_self _ _) hloop

theorem Sound.leaves (hsound : Sound state (call ::ₘ others)) (hleaves : leavesLoop call = true) :
    state.compensating = some false := by
  by_contra hother
  have hcount := hsound.leaving
  rw [if_neg hother, countP_eq_zero] at hcount
  exact hcount call (mem_cons_self _ _) hleaves

theorem answers_of_inLoop (hagain : after.compensateAgain = true) (hloop : inLoop call = true) :
    answers after call = true := by
  induction call with
  | compensate => rfl
  | compensated => exact hagain
  | releasing owed next ih | released next ih => exact ih hloop
  | _ => exact absurd hloop Bool.false_ne_true

theorem answers_outside_loop (htracks : after.tracks = before.tracks)
    (houtside : inLoop call = false) (hanswers : answers before call = true) :
    answers after call = true := by
  induction call with
  | compensated => exact absurd houtside.symm Bool.false_ne_true
  | retryCommit number live =>
    unfold answers PodState.track at hanswers ⊢
    rwa [htracks]
  | releasing owed next ih | released next ih => exact ih houtside hanswers
  | _ => exact hanswers

theorem Sound.startLoop {calls : Multiset PodCall} (hsound : Sound state calls)
    (hfree : state.compensating = none) :
    Sound { state with compensating := some true } (.compensate ::ₘ calls) := by
  refine ⟨?_, ?_, ?_, ?_, nofun, hsound.owed, fun _ _ => ⟨_, mem_cons_self _ _, rfl⟩⟩
  · rw [countP_cons]
    exact hsound.admitting
  · rw [countP_cons]
    exact hsound.deleting
  · rw [countP_cons, hsound.loop, hfree]
    rfl
  · rw [countP_cons, hsound.leaving, hfree]
    rfl

theorem Sound.compensates (hsound : Sound state (call ::ₘ others)) (hrole : role rest = role call)
    (houtside : inLoop call = false) (hopen : state.compensating ≠ some false) :
    SoundAfter (startCompensation state.compensateLateCreate rest) others := by
  simp only [role, Prod.mk.injEq] at hrole
  obtain ⟨hadmitted, hdelete, -, hinLoop, hleaves⟩ := hrole
  unfold PodState.compensateLateCreate startCompensation SoundAfter
  cases hcompensating : state.compensating with
  | none =>
    have hloop := hsound.startLoop hcompensating
    rw [cons_swap] at hloop
    have hothers : others + (([PodCall.compensate] : List PodCall) : Multiset PodCall) =
        .compensate ::ₘ others := add_comm _ _
    dsimp only
    rw [if_pos rfl, hothers]
    refine hloop.turn ?_ ?_ ?_ ?_ nofun hloop.owed ?_
    · rw [hadmitted]
    · rw [hdelete]
    · rw [hinLoop]
    · rw [hleaves]
    · exact fun _ _ => .inr ⟨_, mem_cons_self _ _, rfl⟩
  | some outstanding =>
    obtain rfl : outstanding = true := by
      by_contra hfalse
      exact hopen (hcompensating.trans (by rw [Bool.eq_false_of_not_eq_true hfalse]))
    refine Sound.goOn (hsound.turn ?_ ?_ ?_ ?_ nofun hsound.owed ?_)
    · rw [hadmitted]
    · rw [hdelete]
    · rw [hinLoop, hcompensating]
    · rw [hleaves, hcompensating]
    intro _ _
    have hcount := hsound.loop
    rw [countP_cons, houtside, hcompensating] at hcount
    have hpos : 0 < others.countP (inLoop · = true) := by
      rw [show others.countP (inLoop · = true) = 1 by simpa using hcount]
      exact Nat.one_pos
    obtain ⟨other, hother, hloop⟩ := countP_pos.1 hpos
    exact .inr ⟨other, hother, answers_of_inLoop rfl hloop⟩

theorem admitting_of_claim {claimed : Option OwedDelete}
    (hclaim : state.claimFenceRelease.1 = some claimed) : state.admitting = 0 := by
  unfold PodState.claimFenceRelease at hclaim
  split at hclaim
  case isTrue => exact absurd hclaim nofun
  rename_i hfree
  simp only [PodState.inFlight, Bool.or_eq_true, decide_eq_true_eq, not_or] at hfree
  exact not_not.1 hfree.1.1.1

theorem Sound.leaveLoop (hsound : Sound state (.compensated ::ₘ others))
    (hsilent : answers state .compensated = false)
    (hquiet : Quiet { state with compensating := some false } after) {outcome : Option Bool}
    (hleft : outcome ≠ some true) (hfenced : outcome = some false → state.admitting = 0)
    (hrole : role rest = (false, false, false, false, decide (outcome = some false))) :
    Sound { after with compensating := outcome } (rest ::ₘ others) := by
  have hloop := hsound.looping rfl
  simp only [role, Prod.mk.injEq] at hrole
  obtain ⟨hadmitted, hdelete, hpast, hinLoop, hleaves⟩ := hrole
  refine hsound.turn ?_ ?_ ?_ ?_ ?_ ?_ ?_
  · rw [hadmitted]
    exact congrArg (· + 0) hquiet.admitting
  · rw [hdelete]
    exact congrArg (· + 0) hquiet.deleteInRPC
  · rw [hinLoop, hloop, if_neg hleft]
    rfl
  · rw [hleaves, hloop]
    by_cases hfalse : outcome = some false <;> simp [hfalse, leavesLoop]
  · exact fun hfalse => hquiet.admitting.trans (hfenced hfalse)
  · intro htorn hcalls
    have hcount : state.admitting ≠ 0 := fun hnone => hcalls (hquiet.admitting.trans hnone)
    exact hquiet.owed hcount (hsound.owed (hquiet.torn ▸ htorn) hcount)
  intro hguest hdanger
  rw [hpast] at hdanger
  rcases hsound.answered_by (hquiet.guest ▸ hguest) (hquiet.torn ▸ hdanger) with
    hcall | ⟨other, hother, hanswers⟩
  · exact absurd (hsilent.symm.trans hcall) Bool.false_ne_true
  refine .inr ⟨other, hother, answers_mono ?_ ?_ hanswers⟩
  · exact fun hagain => hquiet.compensateAgain.trans hagain
  · exact hquiet.deleting

/-- The compensating delete has landed: it runs again for a create that joined it, and else
leaves the loop. -/
theorem Sound.compensated (hsound : Sound state (.compensated ::ₘ others)) :
    SoundAfter (compensatingDeleteLanded state) others := by
  have hloop := hsound.looping rfl
  unfold compensatingDeleteLanded
  split
  case isTrue =>
    refine Sound.goOn (hsound.turn rfl rfl rfl rfl hsound.fenced hsound.owed ?_)
    exact fun _ _ => .inl rfl
  rename_i hagain
  have hsilent : answers state .compensated = false := Bool.eq_false_of_not_eq_true hagain
  have hquiet := quiet_claimFenceRelease { state with compensating := some false }
  have hout : ∀ owed after, PodState.claimFenceRelease { state with compensating := some false } =
      (some owed, after) → state.admitting = 0 := by
    intro owed after hclaim
    have hclaimed : ({ state with compensating := some false } : PodState Uid).admitting = 0 :=
      admitting_of_claim (congrArg Prod.fst hclaim)
    exact hclaimed
  split
  case h_2 after hclaim =>
    rw [hclaim] at hquiet
    exact Sound.goOn (hsound.leaveLoop hsilent hquiet nofun nofun rfl)
  rename_i owed after hclaim
  rw [hclaim] at hquiet
  have hsame : { after with compensating := some false } = after := by
    have hfalse : after.compensating = some false := hquiet.compensating
    cases after
    cases hfalse
    rfl
  have hleft : Sound { after with compensating := some false }
      (.releasing owed .compensateEnd ::ₘ others) :=
    hsound.leaveLoop hsilent hquiet nofun (fun _ => hout owed after hclaim) rfl
  rw [hsame] at hleft
  exact hleft.goOn

theorem Sound.compensateEnd (hsound : Sound state (.compensateEnd ::ₘ others)) :
    Sound { state with compensating := none, compensateAgain := false } (.ended ::ₘ others) := by
  have hleaves := hsound.leaves rfl
  refine hsound.turn rfl rfl ?_ ?_ nofun hsound.owed ?_
  · rw [hleaves]
    rfl
  · rw [hleaves]
    rfl
  intro hguest hdanger
  rcases hsound.answered_by hguest hdanger with hcall | ⟨other, hother, hanswers⟩
  · exact absurd hcall Bool.false_ne_true
  have hcount := hsound.loop
  rw [hleaves, if_neg (by decide), countP_eq_zero] at hcount
  have houtside := hcount other (mem_cons_of_mem hother)
  refine .inr ⟨other, hother, answers_outside_loop ?_ ?_ hanswers⟩
  · rfl
  · exact Bool.eq_false_of_not_eq_true houtside

theorem Sound.silent (hsound : Sound before (call ::ₘ others)) (hquiet : Quiet before after)
    (hrole : role rest = role call) (hsilent : answers before call = false) :
    SoundAfter (PodCalls.goOn after rest) others :=
  (hsound.quiet hquiet hrole fun hanswers =>
    absurd (hsilent.symm.trans hanswers) Bool.false_ne_true).goOn

theorem quiet_held (held : Bool) : Quiet state { state with held := held } :=
  { Quiet.refl _ with }

theorem quiet_updating (updating : ℕ) : Quiet state { state with updating := updating } :=
  { Quiet.refl _ with }

theorem quiet_fence (fenceReleasing : Bool) :
    Quiet state { state with fenceReleasing := fenceReleasing } :=
  { Quiet.refl _ with }

theorem quiet_tombstones (tombstones tornDown : List Uid) :
    Quiet state { state with tombstones := tombstones, tornDown := tornDown } :=
  { Quiet.refl _ with }

theorem Sound.holdForClaims (hsound : Sound state (call ::ₘ others)) (hrole : role rest = role call)
    (hsilent : answers state call = false) :
    SoundAfter (PodCalls.holdForClaims state rest) others := by
  unfold PodCalls.holdForClaims
  split
  case h_1 => exact hsound.silent (Quiet.refl state) hrole hsilent
  have hrest := hsound.quiet (quiet_install state { claims := true, waiting := true }) hrole
    fun hanswers => absurd (hsilent.symm.trans hanswers) Bool.false_ne_true
  have hworker : Sound _ (.claimWait state.tracks.length ::ₘ rest ::ₘ others) :=
    hrest.start rfl
  rw [cons_swap] at hworker
  have hothers : others + (([.claimWait state.tracks.length] : List PodCall) : Multiset PodCall) =
      .claimWait state.tracks.length ::ₘ others := add_comm _ _
  unfold SoundAfter
  dsimp only
  rw [hothers]
  exact hworker

variable (uid : Uid)

/-- The three ways back from the dead are closed: no create is admitted once the memory of
the teardown is gone; a retry's create that lands during a teardown, or after it, carries a
delete's mark or finds no track; and none joins a compensating delete that has landed. -/
def InOrder (state : PodState Uid) : PodCall → Prop
  | .admission _ => state.torn = true → uid ∈ state.tornDown
  | .retryLanded number =>
    state.deleteInRPC ≠ 0 ∨ state.torn = true →
      (state.track number).deleting = true ∨ (state.withdrawRefusal number).live = none
  | .retryLate => state.compensating ≠ some false
  | _ => True

variable [DecidableEq Uid]

theorem Sound.tornDownNow {owned : Option ℕ} (hsound : Sound state (.deleted owned ::ₘ others)) :
    SoundAfter (PodCalls.tornDownNow uid owned state) others := by
  have hcount := Nat.sub_add_cancel (hsound.deleteInRPC_pos rfl)
  have hdanger : state.torn = true ∨ pastDelete (.deleted owned) = true ∨
      ∃ other ∈ others, pastDelete other = true := .inr (.inl rfl)
  unfold PodCalls.tornDownNow
  dsimp only
  split
  case isTrue =>
    refine Sound.goOn (hsound.turn rfl hcount rfl rfl hsound.fenced (fun _ _ => rfl) ?_)
    exact fun hguest _ => hsound.others_answer rfl rfl rfl hguest hdanger
  case isFalse hfree =>
    have hout : state.admitting = 0 := by
      simp only [PodState.inFlight, Bool.or_eq_true, decide_eq_true_eq, not_or] at hfree
      exact not_not.1 hfree.1.1
    refine Sound.goOn (hsound.turn rfl hcount rfl rfl hsound.fenced ?_ ?_)
    · exact fun _ hcalls => absurd hout hcalls
    · exact fun hguest _ => hsound.others_answer rfl rfl rfl hguest hdanger

variable {uid}

theorem Sound.admitOnCreate (hsound : Sound state (.admission worker ::ₘ others))
    (horder : InOrder uid state (.admission worker)) :
    SoundAfter (PodCalls.admitOnCreate uid worker turnout state) others := by
  have hback := role_afterCreate worker false
  unfold PodCalls.admitOnCreate
  split
  case isTrue =>
    split
    · exact hsound.silent (Quiet.refl state) hback rfl
    · exact hsound.silent (Quiet.refl state) rfl rfl
  split
  case isTrue => exact hsound.silent (Quiet.refl state) hback rfl
  rename_i hstale
  -- a create that is not stale is behind no teardown
  have hfresh : state.compensating = none ∧ uid ∉ state.tornDown := by
    simpa [PodState.createIsStale] using hstale
  have htorn : state.torn = false := by
    by_contra hwas
    exact hfresh.2 (horder (by simpa using hwas))
  split
  case h_1 number _ =>
    split
    · exact hsound.silent (Quiet.refl state) hback rfl
    · exact (hsound.counted htorn hfresh.1).goOn
  case h_2 =>
    split
    · apply Sound.orRelease
      exact hsound.quiet (quiet_install state { rejected := true }) hback
        fun hanswers => absurd hanswers Bool.false_ne_true
    · exact (hsound.counted htorn hfresh.1).goOn

/-- A create that lands reads a delete that is in the runtime or owed, so it goes on as its
pod's only behind none. -/
theorem Sound.landed (hsound : Sound state (.landed worker number ::ₘ others)) :
    SoundAfter (act uid turnout state (.landed worker number)) others := by
  by_cases hbegun : state.deleteBegun number = true
  · have hbehind : state.createBehindDelete number =
        (true, state.setTrack number fun track => { track with landedBehindDelete := true }) :=
      if_pos hbegun
    simp only [act, hbehind, if_pos]
    apply Sound.goOn
    exact hsound.quiet (quiet_setTrack state number fun _ hmark => hmark) rfl fun _ => .inl rfl
  have hahead : state.createBehindDelete number = (false, state.withdrawRefusal number) :=
    if_neg hbegun
  simp only [act, hahead, Bool.false_eq_true, if_false]
  apply Sound.goOn
  refine hsound.quiet (quiet_withdrawRefusal state number) rfl fun _ => .inr ?_
  simp only [PodState.deleteBegun, Bool.or_eq_true, decide_eq_true_eq, not_or, not_not] at hbegun
  refine ⟨?_, hbegun.1.2⟩
  by_contra htorn
  exact hbegun.1.1.1 (hsound.owed (by simpa using htorn) (hsound.admitting_pos rfl).ne')

theorem Sound.retryLanded (hsound : Sound state (.retryLanded number ::ₘ others))
    (horder : InOrder uid state (.retryLanded number)) :
    SoundAfter (act uid turnout state (.retryLanded number)) others := by
  have hquiet : Quiet state
      (if (state.track number).deleting = true then state else state.withdrawRefusal number) := by
    split
    · exact Quiet.refl state
    · exact quiet_withdrawRefusal state number
  apply Sound.goOn
  refine hsound.quiet hquiet rfl fun _ => ?_
  by_cases hbehind : state.deleteInRPC ≠ 0 ∨ state.torn = true
  · left
    by_cases hmark : (state.track number).deleting = true
    · exact Bool.or_eq_true_iff.2 (.inl (hquiet.deleting number hmark))
    refine Bool.or_eq_true_iff.2 (.inr ?_)
    rw [if_neg hmark, (horder hbehind).resolve_left hmark]
    rfl
  · right
    rw [not_or, not_not, Bool.not_eq_true] at hbehind
    exact hbehind.symm

omit [DecidableEq Uid] in
theorem Sound.commitParkedCreate {live : Option ℕ}
    (hsound : Sound state (.retryCommit number live ::ₘ others)) :
    SoundAfter (PodCalls.commitParkedCreate number live state) others := by
  have hlate : Sound state (.retryLate ::ₘ others) :=
    hsound.quiet (Quiet.refl state) rfl fun _ => .inl rfl
  unfold PodCalls.commitParkedCreate
  split
  case isTrue => exact hlate.goOn
  rename_i hmark
  have hsilent : live ≠ none → answers state (.retryCommit number live) = false := by
    intro hlive
    rw [answers, Bool.eq_false_of_not_eq_true hmark, Bool.false_or]
    exact Option.isNone_eq_false_iff.2 (Option.isSome_iff_ne_none.2 hlive)
  split
  case isTrue hown =>
    exact hsound.silent (quiet_setTrack state number fun _ hwas => hwas) rfl
      (hsilent (hown ▸ nofun))
  split
  case isTrue hother =>
    exact hsound.silent (Quiet.refl state) rfl (hsilent (Option.isSome_iff_ne_none.1 hother))
  case isFalse => exact hlate.goOn

omit [DecidableEq Uid] in
theorem Sound.claimed {taken : Bool × PodState Uid} (hsound : Sound state (call ::ₘ others))
    (hquiet : Quiet state taken.2) (hrole : role rest = role call)
    (hsilent : answers state call = false) :
    SoundAfter
      (if taken.1 then PodCalls.goOn taken.2 (.releasing none rest) else PodCalls.goOn taken.2 rest)
      others := by
  split
  · exact hsound.silent hquiet hrole hsilent
  · exact hsound.silent hquiet hrole hsilent

omit [DecidableEq Uid] in
theorem Sound.retries {tracked : Option ℕ} (hsound : Sound state (.updating tracked ::ₘ others)) :
    ∀ numbers : List ℕ,
      Sound state (.updateDone ::ₘ (others + (numbers.map PodCall.retry : List PodCall)))
  | [] => by
      rw [List.map_nil, coe_nil, add_zero]
      exact hsound.quiet (Quiet.refl state) rfl fun hanswers =>
        absurd hanswers Bool.false_ne_true
  | number :: numbers => by
      rw [List.map_cons, ← cons_coe, add_cons, cons_swap]
      exact (hsound.retries numbers).start rfl

theorem Sound.act (hsound : Sound state (call ::ₘ others)) (horder : InOrder uid state call) :
    SoundAfter (PodCalls.act uid turnout state call) others := by
  have hstay : ∀ {rest : PodCall}, role rest = role call → answers state call = false →
      SoundAfter (PodCalls.goOn state rest) others := hsound.silent (Quiet.refl state)
  cases call with
  | create worker =>
    simp only [PodCalls.act]
    split
    · exact hstay (role_afterCreate worker false) rfl
    · exact hstay rfl rfl
  | admission worker => exact hsound.admitOnCreate horder
  | admitted worker => exact hsound.silent (quiet_held true) rfl rfl
  | claims worker =>
    simp only [PodCalls.act]
    split
    · exact hstay rfl rfl
    · exact hstay rfl rfl
  | hold worker => exact hsound.holdForClaims rfl rfl
  | allocate worker =>
    simp only [PodCalls.act, insertTrack]
    split_ifs
    · exact hstay rfl rfl
    · exact hstay rfl rfl
    · exact hsound.silent (quiet_install state {}) rfl rfl
  | creating worker number old =>
    cases turnout with
    | done => exact Sound.goOn (hsound.lands rfl fun _ => rfl)
    | parkable | refused | failed | unclear => exact hstay rfl rfl
  | park worker number =>
    exact hsound.silent (quiet_setTrack state number fun _ hmark => hmark) rfl rfl
  | rejected worker number old =>
    simp only [PodCalls.act]
    split
    · exact hstay rfl rfl
    · exact hstay rfl rfl
  | untrack worker number =>
    exact hsound.claimed (quiet_untrackRejectedCreate state number) rfl rfl
  | landed worker number => exact hsound.landed
  | late worker =>
    -- the compensating delete is not over while a create is out
    have hout := (hsound.admitting_pos rfl).ne'
    exact hsound.compensates rfl rfl fun hfalse => hout (hsound.fenced hfalse)
  | createDone worker failed => exact hsound.uncounted.orRelease
  | claimWait number =>
    simp only [PodCalls.act]
    split
    · exact hstay rfl rfl
    split
    · exact hsound.holdForClaims rfl rfl
    · exact hstay rfl rfl
  | workerBack number failed =>
    simp only [PodCalls.act]
    split_ifs <;> exact hstay rfl rfl
  | workerUntrack number =>
    exact hsound.claimed (quiet_untrackRejectedCreate state number) rfl rfl
  | workerEnd number =>
    exact hsound.silent (quiet_setTrack state number fun _ hmark => hmark) rfl rfl
  | retry number =>
    simp only [PodCalls.act]
    split
    · exact hstay rfl rfl
    · exact hstay rfl rfl
  | retryBegin number =>
    simp only [PodCalls.act]
    split
    · exact hstay rfl rfl
    · exact hsound.silent (quiet_updating (state.updating + 1)) rfl rfl
  | retrying number =>
    simp only [PodCalls.act]
    split
    · exact Sound.goOn (hsound.lands rfl fun _ => rfl)
    · exact hstay rfl rfl
  | retryLanded number => exact hsound.retryLanded horder
  | retryCommit number live => exact hsound.commitParkedCreate
  | retryLate => exact hsound.compensates rfl rfl horder
  | update => exact hsound.silent (quiet_updating (state.updating + 1)) rfl rfl
  | updateCheck =>
    simp only [PodCalls.act]
    split_ifs
    · exact hstay rfl rfl
    · exact hstay rfl rfl
    · exact hstay rfl rfl
    · exact hsound.silent (quiet_held true) rfl rfl
  | updating tracked =>
    simp only [PodCalls.act, SoundAfter]
    split
    · exact hsound.retries tracked.toList
    · exact hsound.retries []
  | updateDone =>
    apply Sound.orRelease
    exact hsound.quiet (quiet_updating (state.updating - 1)) rfl fun hanswers =>
      absurd hanswers Bool.false_ne_true
  | delete =>
    simp only [PodCalls.act]
    split
    · exact hstay rfl rfl
    · exact hstay rfl rfl
  | reap number =>
    simp only [PodCalls.act]
    split_ifs <;> exact hstay rfl rfl
  | mark quiesce number =>
    exact hsound.silent (quiet_setTrack state number fun _ _ => rfl) rfl rfl
  | markWait quiesce number =>
    simp only [PodCalls.act]
    split
    · exact hstay rfl rfl
    · cases quiesce <;> exact hstay rfl rfl
  | relive number =>
    simp only [PodCalls.act]
    split
    · split <;> exact hstay rfl rfl
    · exact hstay rfl rfl
  | judge number =>
    simp only [PodCalls.act]
    split
    · exact hstay rfl rfl
    · exact hstay rfl rfl
  | forgetRejected number => exact hsound.silent (quiet_forgetRejectedNow state uid number) rfl rfl
  | teardown owned => exact hsound.teardown.goOn
  | deleting owned =>
    cases turnout with
    | done | unclear => exact Sound.goOn (hsound.vanishes rfl rfl rfl rfl)
    | failed | refused | parkable => exact hstay rfl rfl
  | deleteFailed => exact hsound.deleteFailed.goOn
  | deleted owned => exact hsound.tornDownNow uid
  | forget owned => exact hsound.silent (quiet_forgetTorndown state owned) rfl rfl
  | reapHold =>
    simp only [PodCalls.act, reapUntrackedHold]
    split
    · exact hstay rfl rfl
    · refine hsound.silent ?_ rfl rfl
      exact { Quiet.refl _ with }
  | compensate =>
    have hagain : Sound state (.compensate ::ₘ others) := hsound
    cases turnout with
    | done | unclear => exact Sound.goOn (hsound.vanishes rfl rfl rfl rfl)
    | failed | refused | parkable => exact hagain.goOn
  | compensated => exact hsound.compensated
  | compensateEnd => exact hsound.compensateEnd.goOn
  | releasing owed rest =>
    have hreleased : ∀ after : PodState Uid, Quiet state after →
        SoundAfter (PodCalls.goOn after (.released rest)) others := fun after hquiet =>
      Sound.goOn (hsound.quiet hquiet rfl fun hanswers => .inl (hquiet.answers hanswers))
    cases owed with
    | none => exact hreleased state (Quiet.refl state)
    | some owed => exact hreleased _ (quiet_forgetTorndown state owed.owned)
  | released rest =>
    apply Sound.orRelease
    have hquiet : Quiet state { state with fenceReleasing := false } := quiet_fence false
    exact hsound.quiet hquiet rfl fun hanswers => .inl (hquiet.answers hanswers)
  | ended => exact hstay rfl rfl

end Roles

section Runs

variable {Uid : Type}

/-- Behind a teardown that has succeeded, the runtime holds no guest of the UID when no call
of it is in flight. -/
def StaysDead (system : PodSystem Uid) : Prop :=
  system.shared.torn = true → (∀ call ∈ system.threads, call = .ended) → system.shared.guest = false

theorem Sound.staysDead {system : PodSystem Uid} (hsound : Sound system.shared system.threads) :
    StaysDead system := by
  intro htorn hended
  by_contra hguest
  obtain ⟨call, hcall, hanswers⟩ :=
    hsound.answered (Bool.eq_true_of_not_eq_false hguest) (.inl htorn)
  rw [hended call hcall] at hanswers
  exact absurd hanswers Bool.false_ne_true

theorem sound_unknown : Sound (unknown Uid).shared (unknown Uid).threads :=
  ⟨rfl, rfl, rfl, rfl, nofun, nofun, nofun⟩

theorem Sound.unheard {before after : PodState Uid} {calls : Multiset PodCall}
    (hsound : Sound before calls) (hquiet : Quiet before after) : Sound after calls := by
  refine ⟨?_, ?_, ?_, ?_, ?_, ?_, ?_⟩
  · rw [hquiet.admitting]
    exact hsound.admitting
  · rw [hquiet.deleteInRPC]
    exact hsound.deleting
  · rw [hquiet.compensating]
    exact hsound.loop
  · rw [hquiet.compensating]
    exact hsound.leaving
  · rw [hquiet.compensating, hquiet.admitting]
    exact hsound.fenced
  · rw [hquiet.torn, hquiet.admitting]
    exact fun htorn hcalls => hquiet.owed hcalls (hsound.owed htorn hcalls)
  · rw [hquiet.guest, hquiet.torn]
    intro hguest hbehind
    obtain ⟨call, hcall, hanswers⟩ := hsound.answered hguest hbehind
    exact ⟨call, hcall, hquiet.answers hanswers⟩

theorem role_of_entry {call : PodCall} (hentry : entry call = true) : role call = idle := by
  cases call with
  | create worker | retry number | update | delete | reap number | reapHold => rfl
  | _ => exact absurd hentry Bool.false_ne_true

variable [DecidableEq Uid] {uid : Uid}

theorem quiet_elsewhere (change : Elsewhere Uid) (state : PodState Uid) :
    Quiet state (elsewhere change state) := by
  cases change with
  | tornDown other | forgotten other => exact quiet_tombstones _ _

/-- Virtual Kubelet, the pull schedules and the reaper start calls, and every turn is in
order. -/
abbrev MovesInOrder (uid : Uid) : PodSystem Uid → PodMove Uid → Prop :=
  Threads.Meets (entry · = true) fun state call _ => InOrder uid state call

/-- No pod comes back from the dead, in any interleaving of its calls in which every turn is
in order. -/
theorem no_guest_behind_teardown {moves : List (PodMove Uid)}
    (hmoves : EachStep (MovesInOrder uid) (next uid) (unknown Uid) moves) :
    Always StaysDead (next uid) (unknown Uid) moves := by
  have hsound : Always (fun system => Sound system.shared system.threads) (next uid)
      (unknown Uid) moves := by
    refine Threads.always_inv ?_ ?_ ?_ sound_unknown hmoves
    · exact fun _ _ _ hsound hentry => hsound.start (role_of_entry hentry)
    · exact fun _ _ _ _ hsound horder => hsound.act horder
    · exact fun _ _ change hsound => hsound.unheard (quiet_elsewhere change _)
  exact hsound.mono fun _ hstate => hstate.staysDead

instance (state : PodState Uid) (call : PodCall) : Decidable (InOrder uid state call) := by
  cases call <;> dsimp only [InOrder] <;> infer_instance

end Runs

section Cases

def turns (index count : ℕ) : List (PodMove ℕ) := List.replicate count (.turn index .done)

def parkedCreate (index : ℕ) : List (PodMove ℕ) :=
  .start (.create none) :: turns index 5 ++ .turn index .parkable :: turns index 2

/-- The pod is deleted while its retry is in the runtime; the retry lands behind the delete
and is compensated for. -/
def lateRetry : List (PodMove ℕ) :=
  parkedCreate 0 ++ .start (.retry 0) :: turns 1 2 ++ .start .delete :: turns 2 8 ++
    turns 1 5 ++ turns 3 5

theorem no_guest_behind_lateRetry :
    EachStep (MovesInOrder 7) (next 7) (unknown ℕ) lateRetry ∧
      Always StaysDead (next 7) (unknown ℕ) lateRetry ∧
      (lateRetry.foldl (next 7) (unknown ℕ)).shared.torn = true ∧
      ∀ call ∈ (lateRetry.foldl (next 7) (unknown ℕ)).threads, call = .ended := by
  have hmoves : EachStep (MovesInOrder 7) (next 7) (unknown ℕ) lateRetry := by decide +kernel
  exact ⟨hmoves, no_guest_behind_teardown hmoves, by decide +kernel, by decide +kernel⟩

/-- While the retry is in the runtime a repeat create replaces the parked track, and the
delete marks the replacement. -/
def overtakenRetry : List (PodMove ℕ) :=
  parkedCreate 0 ++ .start (.retry 0) :: turns 1 2 ++ parkedCreate 2 ++
    .start .delete :: turns 3 8 ++ turns 1 6

/-- The retry takes the replacement that is being deleted for its successor, and its guest
outlives the pod. -/
theorem guest_behind_overtakenRetry :
    EachStep (Threads.Meets (entry · = true) fun _ _ _ => True) (next 7) (unknown ℕ)
        overtakenRetry ∧ ¬ Always StaysDead (next 7) (unknown ℕ) overtakenRetry := by
  refine ⟨by decide +kernel, ?_⟩
  intro halways
  have hended : ∀ call ∈ (overtakenRetry.foldl (next 7) (unknown ℕ)).threads, call = .ended := by
    decide +kernel
  have hgone := halways.last (by decide +kernel) hended
  exact absurd hgone (by decide +kernel)

end Cases

end K3sm.Provider.PodCalls
