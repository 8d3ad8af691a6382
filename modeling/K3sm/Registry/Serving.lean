import K3sm.Core.Threads

/-!
# The serving certificate

Every handshake asks for the current certificate, which is replaced when it comes near its expiry.
One handshake mints, outside the lock, and the others are served the old certificate or wait.  A
mint that fails leaves the handshake with what it read before: a certificate that may have lapsed
since, or the lack of one that a rotation may have made good since.
-/

namespace K3sm.Registry.Serving

open K3sm.Core

structure Certificate where
  notAfter : ℤ
  deriving DecidableEq

/-- The times of `ServingConfig`. -/
structure Config where
  margin : ℕ
  retry : ℕ

inductive MintError where
  | failed
  | panicked
  deriving DecidableEq

/-- What a `current` returned, with the clock and the stored certificate at that moment. -/
structure Answer where
  clock : ℤ
  stored : Option Certificate
  result : Except (Option MintError) Certificate

/-- `ServingIdentity` with the clock.  A channel is known by a number, `minting` is whether
`mintMu` is held, and `answers` has what was returned so far. -/
structure Identity where
  clock : ℤ
  cur : Option Certificate
  flight : Option ℕ
  channels : ℕ
  nextTry : Option ℤ
  lastErr : Option MintError
  minting : Bool
  answers : List Answer

def Certificate.Unexpired (certificate : Certificate) (clock : ℤ) : Prop :=
  clock < certificate.notAfter

instance (certificate : Certificate) (clock : ℤ) : Decidable (certificate.Unexpired clock) :=
  inferInstanceAs (Decidable (_ < _))

/-- What a `current` read under the lock: the certificate, and the time. -/
structure Reading where
  cur : Option Certificate
  now : ℤ

def Reading.valid (reading : Reading) : Option Certificate :=
  reading.cur.filter fun certificate => decide (certificate.Unexpired reading.now)

/-- Where a call stands.  After a failed mint a `current` still has to end its flight and to
return. -/
inductive Call where
  | current
  | waiting (channel : ℕ)
  | starting (reading : Reading)
  | minting (reading : Reading)
  | landed (reading : Reading) (result : Except MintError Certificate)
  | returning (reading : Reading) (result : Except MintError Certificate)
  | rotate
  | rotating
  | ended

/-- What a turn brings: a step of the call's own, the result of its mint, or a panic. -/
inductive Turn where
  | go
  | minted (result : Option Certificate)
  | panics

section Steps

variable (config : Config) (identity : Identity)

def Identity.answer (result : Except (Option MintError) Certificate) : Identity :=
  { identity with answers := ⟨identity.clock, identity.cur, result⟩ :: identity.answers }

/-- The section of `current` under the lock. -/
def look : Identity × Call :=
  let reading : Reading := ⟨identity.cur, identity.clock⟩
  match identity.cur.filter fun certificate =>
      decide (identity.clock < certificate.notAfter - config.margin) with
  | some certificate => (identity.answer (.ok certificate), .ended)
  | none =>
    match identity.flight with
    | some channel =>
      match reading.valid with
      | some certificate => (identity.answer (.ok certificate), .ended)
      | none => (identity, .waiting channel)
    | none =>
      if identity.nextTry.any fun time => decide (identity.clock < time) then
        match reading.valid with
        | some certificate => (identity.answer (.ok certificate), .ended)
        | none => (identity.answer (.error identity.lastErr), .ended)
      else
        ({ identity with flight := some identity.channels, channels := identity.channels + 1 },
          .starting reading)

def Identity.store (certificate : Certificate) : Identity :=
  { identity with cur := some certificate, nextTry := none, lastErr := none, minting := false }

/-- The deferred end of `refresh`. -/
def Identity.land (reading : Reading) : Except MintError Certificate → Identity
  | .ok _ => { identity with flight := none }
  | .error cause =>
    { identity with
      flight := none
      nextTry := some (reading.now + config.retry)
      lastErr := some cause }

/-- What `current` returns after its own flight. -/
def settled (reading : Reading) : Except MintError Certificate →
    Except (Option MintError) Certificate
  | .ok certificate => .ok certificate
  | .error cause =>
    match reading.valid with
    | some certificate => .ok certificate
    | none => .error (some cause)

/-- One turn of a handshake that asks for the certificate. -/
def step : Call → Turn → Identity × Call
  | .current, .go => look config identity
  | .waiting channel, .go =>
    if identity.flight = some channel then (identity, .waiting channel) else (identity, .current)
  | .starting reading, .go =>
    if identity.minting then (identity, .starting reading)
    else ({ identity with minting := true }, .minting reading)
  | .minting reading, .minted (some certificate) =>
    (identity.store certificate, .landed reading (.ok certificate))
  | .minting reading, .minted none =>
    ({ identity with minting := false }, .landed reading (.error .failed))
  | .minting reading, .panics =>
    ({ identity with minting := false }, .landed reading (.error .panicked))
  -- a panic of `OnMint`
  | .landed reading (.ok _), .panics => (identity, .landed reading (.error .panicked))
  | .landed reading result, .go =>
    (identity.land config reading result,
      if result = .error .panicked then .ended else .returning reading result)
  | .returning reading result, .go => (identity.answer (settled reading result), .ended)
  | .rotate, .go =>
    if identity.minting then (identity, .rotate) else ({ identity with minting := true }, .rotating)
  | .rotating, .minted (some certificate) => (identity.store certificate, .ended)
  | .rotating, .minted none | .rotating, .panics => ({ identity with minting := false }, .ended)
  | call, _ => (identity, call)

end Steps

def act (config : Config) (turn : Turn) (identity : Identity) (call : Call) :
    Taken Identity Call where
  shared := (step config identity call turn).1
  thread := (step config identity call turn).2
  started := []

def passes (span : ℕ) (identity : Identity) : Identity :=
  { identity with clock := identity.clock + span }

abbrev System := Threads Identity Call

abbrev Move := ThreadMove Call Turn ℕ

def next (config : Config) : System → Move → System := Threads.next (act config) passes

/-- `NewServingIdentity`, once its first mint has gone well. -/
def serving (clock : ℤ) (first : Certificate) : System where
  shared := ⟨clock, some first, none, 0, none, none, false, []⟩
  threads := []

/-- The certificate has not expired when it is returned, and an error is returned only while no
unexpired one is stored. -/
def Answer.Right (answer : Answer) : Prop :=
  match answer.result with
  | .ok certificate => certificate.Unexpired answer.clock
  | .error _ =>
    ∀ certificate, answer.stored = some certificate → ¬ certificate.Unexpired answer.clock

/-- What a `current` read before its mint failed still says what is so: the valid certificate
is unexpired, or no unexpired one is stored. -/
structure Reading.Holds (reading : Reading) (clock : ℤ) (stored : Option Certificate) : Prop where
  valid : ∀ certificate, reading.valid = some certificate → certificate.Unexpired clock
  none : reading.valid = none → ∀ certificate, stored = some certificate →
    ¬ certificate.Unexpired clock

/-- What a call past its mint is about to return holds at the moment. -/
def Call.Sound (clock : ℤ) (stored : Option Certificate) : Call → Prop
  | .landed reading (.error .failed) | .returning reading (.error .failed) =>
    reading.Holds clock stored
  | .landed _ (.ok certificate) | .returning _ (.ok certificate) => certificate.Unexpired clock
  | .returning _ (.error .panicked) => False
  | _ => True

/-- With the certificate stored, every call past its mint is still about to return what holds. -/
def System.Spares (system : System) (certificate : Certificate) : Prop :=
  ∀ call ∈ system.threads, call.Sound system.shared.clock (some certificate)

/-- The conditions on a step.  Where a mint fails, what its call read still holds; what a mint
stores has not expired; and time does not overtake what a call is about to return. -/
def Timely (system : System) : Move → Prop
  | .start call => call = .current ∨ call = .rotate
  | .turn index (.minted none) =>
    ∀ reading, system.threads[index]? = some (.minting reading) →
      reading.Holds system.shared.clock system.shared.cur
  | .turn index (.minted (some certificate)) =>
    (∀ reading, system.threads[index]? = some (.minting reading) →
      certificate.Unexpired system.shared.clock ∧ system.Spares certificate) ∧
    (system.threads[index]? = some .rotating → system.Spares certificate)
  | .turn _ _ => True
  | .outside span => ∀ call ∈ system.threads,
      call.Sound (system.shared.clock + span) system.shared.cur

section Steps

variable {config : Config} {identity : Identity} {call : Call} {turn : Turn}

theorem valid_eq_some {reading : Reading} {certificate : Certificate} :
    reading.valid = some certificate ↔
      reading.cur = some certificate ∧ certificate.Unexpired reading.now := by
  unfold Reading.valid
  rw [Option.filter_eq_some_iff, decide_eq_true_iff]

theorem expired_of_valid_none (hnone : Reading.valid ⟨identity.cur, identity.clock⟩ = none) :
    ∀ certificate, identity.cur = some certificate → ¬ certificate.Unexpired identity.clock := by
  intro certificate hcur hunexpired
  rw [valid_eq_some.2 ⟨hcur, hunexpired⟩] at hnone
  cases hnone

structure Answers (before after : Identity) : Prop where
  clock : after.clock = before.clock
  answers : (∀ answer ∈ before.answers, answer.Right) → ∀ answer ∈ after.answers, answer.Right

theorem answers_answer {result : Except (Option MintError) Certificate}
    (hright : Answer.Right ⟨identity.clock, identity.cur, result⟩) :
    Answers identity (identity.answer result) := by
  refine ⟨rfl, fun hall => ?_⟩
  exact List.forall_mem_cons.2 ⟨hright, hall⟩

theorem look_spec (config : Config) (identity : Identity) :
    Answers identity (look config identity).1 ∧ (look config identity).1.cur = identity.cur ∧
      (look config identity).2.Sound identity.clock identity.cur := by
  have hserve : ∀ certificate, Reading.valid ⟨identity.cur, identity.clock⟩ = some certificate →
      Answers identity (identity.answer (.ok certificate)) :=
    fun certificate hvalid => answers_answer (valid_eq_some.1 hvalid).2
  unfold look
  dsimp only
  split
  case h_1 certificate hfresh =>
    obtain ⟨hcur, hmargin⟩ := Option.filter_eq_some_iff.1 hfresh
    refine ⟨answers_answer ?_, rfl, trivial⟩
    have hbefore := of_decide_eq_true hmargin
    change identity.clock < certificate.notAfter
    omega
  split
  case h_1 channel _ =>
    split
    case h_1 certificate hvalid => exact ⟨hserve certificate hvalid, rfl, trivial⟩
    case h_2 => exact ⟨⟨rfl, id⟩, rfl, trivial⟩
  case h_2 =>
    split
    case isFalse => exact ⟨⟨rfl, id⟩, rfl, trivial⟩
    split
    case h_1 certificate hvalid => exact ⟨hserve certificate hvalid, rfl, trivial⟩
    case h_2 hnone => exact ⟨answers_answer (expired_of_valid_none hnone), rfl, trivial⟩

theorem settled_right {reading : Reading} {result : Except MintError Certificate}
    (hsound : (Call.returning reading result).Sound identity.clock identity.cur) :
    Answer.Right ⟨identity.clock, identity.cur, settled reading result⟩ := by
  rcases result with (_ | _) | certificate
  · unfold settled
    dsimp only
    split
    case h_1 certificate hvalid => exact hsound.valid certificate hvalid
    case h_2 hnone => exact hsound.none hnone
  · exact hsound.elim
  · exact hsound

def Mints (call : Call) (turn : Turn) (certificate : Certificate) : Prop :=
  turn = .minted (some certificate) ∧ (call = .rotating ∨ ∃ reading, call = .minting reading)

/-- What a step does: it answers right, it stores a certificate only where it mints one, and it
leaves the call sound. -/
structure Steps (identity : Identity) (call : Call) (turn : Turn)
    (after : Identity × Call) : Prop where
  answers : Answers identity after.1
  stored : after.1.cur = identity.cur ∨
    ∃ certificate, Mints call turn certificate ∧ after.1.cur = some certificate
  sound : after.2.Sound identity.clock after.1.cur

theorem steps_quiet {after : Identity × Call} (hclock : after.1.clock = identity.clock)
    (hanswers : after.1.answers = identity.answers) (hcur : after.1.cur = identity.cur)
    (hsound : after.2.Sound identity.clock identity.cur) : Steps identity call turn after := by
  refine ⟨⟨hclock, ?_⟩, .inl hcur, hcur ▸ hsound⟩
  rw [hanswers]
  exact id

theorem steps_store {after : Call} {certificate : Certificate}
    (hmints : Mints call turn certificate)
    (hsound : after.Sound identity.clock (some certificate)) :
    Steps identity call turn (identity.store certificate, after) :=
  ⟨⟨rfl, id⟩, .inr ⟨certificate, hmints, rfl⟩, hsound⟩

theorem step_spec (hsound : call.Sound identity.clock identity.cur)
    (hfails : ∀ reading, call = .minting reading → turn = .minted none →
      reading.Holds identity.clock identity.cur)
    (hmints : ∀ reading certificate, call = .minting reading → turn = .minted (some certificate) →
      certificate.Unexpired identity.clock) :
    Steps identity call turn (step config identity call turn) := by
  cases call with
  | current =>
    cases turn with
    | go =>
      obtain ⟨hanswers, hcur, hlooked⟩ := look_spec config identity
      exact ⟨hanswers, .inl hcur, by change Call.Sound _ (look config identity).1.cur _; rwa [hcur]⟩
    | minted result | panics => exact steps_quiet rfl rfl rfl trivial
  | waiting channel | starting reading =>
    cases turn with
    | go =>
      unfold step
      dsimp only
      split
      · exact steps_quiet rfl rfl rfl trivial
      · exact steps_quiet rfl rfl rfl trivial
    | minted result | panics => exact steps_quiet rfl rfl rfl trivial
  | minting reading =>
    cases turn with
    | go => exact steps_quiet rfl rfl rfl trivial
    | minted result =>
      cases result with
      | none => exact steps_quiet rfl rfl rfl (hfails reading rfl rfl)
      | some certificate =>
        exact steps_store ⟨rfl, .inr ⟨reading, rfl⟩⟩ (hmints reading certificate rfl rfl)
    | panics => exact steps_quiet rfl rfl rfl trivial
  | landed reading result =>
    cases turn with
    | go =>
      rcases result with (_ | _) | certificate
      · exact steps_quiet rfl rfl rfl hsound
      · exact steps_quiet rfl rfl rfl trivial
      · exact steps_quiet rfl rfl rfl hsound
    | minted other =>
      rcases result with cause | certificate
      · exact steps_quiet rfl rfl rfl hsound
      · exact steps_quiet rfl rfl rfl hsound
    | panics =>
      rcases result with cause | certificate
      · exact steps_quiet rfl rfl rfl hsound
      · exact steps_quiet rfl rfl rfl trivial
  | returning reading result =>
    cases turn with
    | go => exact ⟨answers_answer (settled_right hsound), .inl rfl, trivial⟩
    | minted other | panics => exact steps_quiet rfl rfl rfl hsound
  | rotate =>
    cases turn with
    | go =>
      unfold step
      dsimp only
      split
      · exact steps_quiet rfl rfl rfl trivial
      · exact steps_quiet rfl rfl rfl trivial
    | minted result | panics => exact steps_quiet rfl rfl rfl trivial
  | rotating =>
    cases turn with
    | go => exact steps_quiet rfl rfl rfl trivial
    | minted result =>
      cases result with
      | none => exact steps_quiet rfl rfl rfl trivial
      | some certificate => exact steps_store ⟨rfl, .inl rfl⟩ trivial
    | panics => exact steps_quiet rfl rfl rfl trivial
  | ended => exact steps_quiet rfl rfl rfl trivial

end Steps

/-- The invariant of handshakes and mints. -/
structure Sound (system : System) : Prop where
  answers : ∀ answer ∈ system.shared.answers, answer.Right
  calls : ∀ call ∈ system.threads, call.Sound system.shared.clock system.shared.cur

theorem Sound.next {config : Config} {system : System} {move : Move} (hsound : Sound system)
    (htimely : Timely system move) : Sound (next config system move) := by
  cases move with
  | start call =>
    refine ⟨hsound.answers, ?_⟩
    intro other hother
    rcases List.mem_append.1 hother with hmem | hmem
    · exact hsound.calls other hmem
    rw [List.mem_singleton.1 hmem]
    rcases htimely with rfl | rfl
    · trivial
    · trivial
  | outside span => exact ⟨hsound.answers, htimely⟩
  | turn index turn =>
    unfold Serving.next Threads.next
    dsimp only
    split
    case h_1 => exact hsound
    rename_i call hcall
    have hsteps : Steps system.shared call turn (step config system.shared call turn) := by
      refine step_spec (hsound.calls call (List.mem_of_getElem? hcall)) ?_ ?_
      · rintro reading rfl rfl
        exact htimely reading hcall
      · rintro reading certificate rfl rfl
        exact (htimely.1 reading hcall).1
    have hspares : ∀ other ∈ system.threads,
        other.Sound system.shared.clock (step config system.shared call turn).1.cur := by
      intro other hother
      rcases hsteps.stored with hsame | ⟨certificate, ⟨rfl, hmints⟩, hstored⟩
      · rw [hsame]
        exact hsound.calls other hother
      · rw [hstored]
        rcases hmints with rfl | ⟨reading, rfl⟩
        · exact htimely.2 hcall other hother
        · exact (htimely.1 reading hcall).2 other hother
    refine ⟨hsteps.answers.answers hsound.answers, ?_⟩
    intro other hother
    change other.Sound (step config system.shared call turn).1.clock
      (step config system.shared call turn).1.cur
    rw [hsteps.answers.clock]
    rcases List.mem_append.1 hother with hmem | hmem
    · rcases List.mem_or_eq_of_mem_set hmem with hold | rfl
      · exact hspares other hold
      · exact hsteps.sound
    · cases hmem

/-- No certificate is returned that has expired, and no error while an unexpired one is stored,
throughout every run whose steps are timely. -/
theorem current_answers_right (config : Config) (clock : ℤ) (first : Certificate)
    {moves : List Move} (hmoves : EachStep Timely (next config) (serving clock first) moves) :
    Always (fun system => ∀ answer ∈ system.shared.answers, answer.Right) (next config)
      (serving clock first) moves := by
  have hstart : Sound (serving clock first) := ⟨nofun, nofun⟩
  exact (always_of_eachStep (fun _ _ hsound htimely => hsound.next htimely) hstart hmoves).mono
    fun _ hsound => hsound.answers

/-! ## Mints that take long -/

def demoConfig : Config := ⟨10, 60⟩

def handshake : List Move := [.start .current, .turn 0 .go, .turn 0 .go]

/-- The mint fails after a while, and the handshake is answered. -/
def mintFails (span : ℕ) : List Move :=
  [.outside span, .turn 0 (.minted none), .turn 0 .go, .turn 0 .go]

/-- A mint that fails while the certificate is good for a moment yet. -/
theorem early_failure_right :
    EachStep Timely (next demoConfig) (serving 95 ⟨100⟩) (handshake ++ mintFails 2) ∧
      Always (fun system => ∀ answer ∈ system.shared.answers, answer.Right) (next demoConfig)
        (serving 95 ⟨100⟩) (handshake ++ mintFails 2) := by
  have hmoves : EachStep Timely (next demoConfig) (serving 95 ⟨100⟩)
      (handshake ++ mintFails 2) := by
    refine ⟨.inl rfl, trivial, trivial, ?_, ?_, trivial, trivial, trivial⟩
    · intro call hcall
      rw [List.mem_singleton.1 hcall]
      trivial
    · rintro reading ⟨⟩
      refine ⟨?_, nofun⟩
      rintro certificate ⟨⟩
      decide
  exact ⟨hmoves, current_answers_right demoConfig 95 ⟨100⟩ hmoves⟩

/-- A rotation overtakes the mint of a handshake that found the certificate expired. -/
def overtaken : List Move :=
  [.start .current, .turn 0 .go, .start .rotate, .turn 1 .go, .turn 1 (.minted (some ⟨500⟩)),
    .turn 0 .go, .turn 0 (.minted none), .turn 0 .go, .turn 0 .go]

/-- A certificate that lapsed during the mint is returned, and an error although a rotation has
stored a good one. -/
theorem late_failures_wrong :
    ¬ Always (fun system => ∀ answer ∈ system.shared.answers, answer.Right) (next demoConfig)
        (serving 95 ⟨100⟩) (handshake ++ mintFails 10) ∧
      ¬ Always (fun system => ∀ answer ∈ system.shared.answers, answer.Right) (next demoConfig)
        (serving 200 ⟨100⟩) overtaken := by
  constructor
  · intro halways
    have hright := halways.last ⟨105, some ⟨100⟩, .ok ⟨100⟩⟩ List.mem_cons_self
    exact absurd hright (show ¬ (105 : ℤ) < 100 by decide)
  · intro halways
    have hright := halways.last ⟨200, some ⟨500⟩, .error (some .failed)⟩ List.mem_cons_self
    exact hright ⟨500⟩ rfl (show (200 : ℤ) < 500 by decide)

end K3sm.Registry.Serving
