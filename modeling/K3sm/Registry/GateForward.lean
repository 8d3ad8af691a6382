import K3sm.Registry.GateCaches

/-!
# The gate forwards what was authorized

Each question is shown to take an answer that was given to it, whatever the other
requests of the gate do meanwhile, and the write that follows to have all of its answers
in the log.  The pool of requests then keeps the invariant through every history.
-/

namespace K3sm.Registry.Gate

open K3sm.Core K3sm.Core.Filepath K3sm.Core.Url K3sm.Registry.Ref List

section Holds

variable (codec : TokenCodec) (shown : Set Str) {Result Other : Type}

def Holds (post : Result → GateWorld → Prop) (program : Asking Result) (world : GateWorld) : Prop :=
  program.Safe (shared answer) (Growth GateGrows (GateInv codec shown)) (Turn ready)
    (GateInv codec shown) post world

variable {codec shown} {post : Result → GateWorld → Prop} {world : GateWorld}

theorem stable_of_grows {property : GateWorld → Prop}
    (hgrows : ∀ before after, GateGrows before after → property before → property after) :
    Stable (shared answer) (Growth GateGrows (GateInv codec shown)) (GateInv codec shown)
      property :=
  fun before after _ hgrowth hproperty => hgrows before after hgrowth.1 hproperty

theorem holds_call {call : GateCall} {next : call.Answer → Asking Result}
    (property : GateWorld → Prop)
    (hgrows : ∀ before after, GateGrows before after → property before → property after)
    (hworld : GateInv codec shown world) (hproperty : property world)
    (hcall : ∀ later, GateInv codec shown later → property later → ∀ outcome,
      ready later call = true → GateInv codec shown (answer call outcome later).2 ∧
        Holds codec shown post (next (answer call outcome later).1) (answer call outcome later).2) :
    Holds codec shown post (.call call next) world :=
  Prog.safe_call Growth.stable_inv (stable_of_grows hgrows) hworld hproperty hcall

theorem holds_done {result : Result}
    (hgrows : ∀ before after, GateGrows before after → post result before → post result after)
    (hworld : GateInv codec shown world) (hpost : post result world) :
    Holds codec shown post (.done result) world :=
  Prog.safe_done Growth.stable_inv (stable_of_grows hgrows) hworld hpost

theorem holds_bind {after : Other → GateWorld → Prop} {program : Asking Result}
    {next : Result → Asking Other} (hworld : GateInv codec shown world)
    (hprogram : Holds codec shown post program world)
    (hnext : ∀ result later, GateInv codec shown later → post result later →
      Holds codec shown after (next result) later) :
    Holds codec shown after (program >>= next) world :=
  Prog.Safe.bind hworld hprogram hnext

theorem holds_beside {program : Asking Result} (property : GateWorld → Prop)
    (hgrows : ∀ before after, GateGrows before after → property before → property after)
    (hworld : GateInv codec shown world) (hproperty : property world)
    (hprogram : Holds codec shown post program world) :
    Holds codec shown (fun result world => post result world ∧ property world) program world :=
  Prog.Safe.grown answer_grows hgrows hworld hproperty hprogram

theorem holds_any {call : GateCall} {next : call.Answer → Asking Result}
    (hworld : GateInv codec shown world)
    (hcall : ∀ later, GateInv codec shown later → ∀ outcome, ready later call = true →
      GateInv codec shown (answer call outcome later).2 ∧
        Holds codec shown post (next (answer call outcome later).1) (answer call outcome later).2) :
    Holds codec shown post (.call call next) world :=
  holds_call (fun _ => True) (fun _ _ _ => id) hworld trivial
    fun later hlater _ outcome hready => hcall later hlater outcome hready

end Holds

section Token

variable {codec : TokenCodec} {shown : Set Str} {world : GateWorld} {token : Str}

def ReviewOf (codec : TokenCodec) (token : Str) (reviewed : Reviewed) (world : GateWorld) : Prop :=
  ∀ taken, reviewed = .ok taken → TokenTaken codec world.log token taken

theorem ReviewOf.grows {reviewed : Reviewed} {before after : GateWorld}
    (hgrows : GateGrows before after) (hreview : ReviewOf codec token reviewed before) :
    ReviewOf codec token reviewed after :=
  fun taken htaken => (hreview taken htaken).more hgrows.log

theorem reviewOf_error (error : GateError) : ReviewOf codec token (.error error) world := nofun

variable (hdigests : Set.InjOn codec.sha256 shown) (htoken : token ∈ shown)

include hdigests htoken

theorem reviewOf_cached (hworld : GateInv codec shown world) {now : ℤ} {result : TokenResult}
    (hcached : TtlCache.get world.tokens (codec.sha256 token) now = some result) :
    ReviewOf codec token (.ok ⟨result, now⟩) world := by
  obtain ⟨till, hentry, hnow⟩ := TtlCache.mem_of_get hcached
  obtain ⟨reviewed, hreviewed, hkey, status, time, hlogged, hvalue, htill⟩ :=
    hworld.tokens _ hentry
  have hsame : reviewed = token := hdigests hreviewed htoken hkey
  subst hsame
  intro taken htaken
  cases htaken
  refine ⟨status, time, hlogged, hvalue, .inr ?_⟩
  exact htill ▸ hnow

omit hdigests in
theorem holds_answered (hworld : GateInv codec shown world) {status : Option TokenReviewStatus}
    {now : ℤ} (hlogged : Entry.tokenReview token status now ∈ world.log) :
    Holds codec shown (ReviewOf codec token)
      (.call (.tokensPut (codec.sha256 token) (judgeToken codec token status)
        (tokenTill codec token (judgeToken codec token status) now) now)
        fun _ => .done (.ok ⟨judgeToken codec token status, now⟩)) world := by
  refine holds_call (fun world => Entry.tokenReview token status now ∈ world.log)
    (fun _ _ hgrows hentry => hgrows.log hentry) hworld hlogged ?_
  intro world hworld hlogged outcome _
  have hentry : TokenKept codec shown world.log (codec.sha256 token,
      ⟨judgeToken codec token status, tokenTill codec token (judgeToken codec token status) now⟩) :=
    ⟨token, htoken, rfl, status, now, hlogged, rfl, rfl⟩
  have hkept := hworld.tokensPut now hentry
  refine ⟨hkept, holds_done (fun _ _ => ReviewOf.grows) hkept ?_⟩
  intro taken htaken
  cases htaken
  exact ⟨status, now, hlogged, rfl, .inl rfl⟩

theorem holds_reviewInFlight (hworld : GateInv codec shown world) :
    Holds codec shown (ReviewOf codec token) (reviewInFlight codec token) world := by
  refine holds_any hworld fun world hworld outcome _ => ⟨hworld, ?_⟩
  refine holds_any hworld fun world hworld _ _ => ⟨hworld, ?_⟩
  rcases hcached : TtlCache.get world.tokens (codec.sha256 token) outcome.clock with _ | result
  swap
  · simp only [answer, hcached]
    exact holds_done (fun _ _ => ReviewOf.grows) hworld
      (reviewOf_cached hdigests htoken hworld hcached)
  simp only [answer, hcached]
  refine holds_any hworld fun world hworld outcome _ => ⟨hworld, ?_⟩
  show Holds codec shown _ (if (!outcome.allow) = true then _ else _) world
  split
  · exact holds_done (fun _ _ => ReviewOf.grows) hworld (reviewOf_error _)
  refine holds_any hworld fun world hworld outcome _ => ?_
  cases houtcome : outcome.token with
  | none =>
    simp only [answer, houtcome]
    exact ⟨hworld, holds_done (fun _ _ => ReviewOf.grows) hworld (reviewOf_error _)⟩
  | some status =>
    simp only [answer, houtcome]
    have hrecorded : GateInv codec shown
        (world.record (.tokenReview token status outcome.clock)) :=
      hworld.record fun _ hother => by cases hother
    exact ⟨hrecorded, holds_answered htoken hrecorded mem_cons_self⟩

def FliesFor (codec : TokenCodec) (token : Str) (index : ℕ) (world : GateWorld) : Prop :=
  ∃ flight, world.flights[index]? = some flight ∧ flight.key = codec.sha256 token

omit hdigests htoken in
theorem FliesFor.grows {index : ℕ} {before after : GateWorld} (hgrows : GateGrows before after)
    (hflies : FliesFor codec token index before) : FliesFor codec token index after := by
  obtain ⟨flight, hflight, hkey⟩ := hflies
  obtain ⟨later, hlater, hsame⟩ := hgrows.flights index flight hflight
  exact ⟨later, hlater, hsame.trans hkey⟩

theorem holds_waitFlight (hworld : GateInv codec shown world) {index : ℕ}
    (hflies : FliesFor codec token index world) :
    Holds codec shown (ReviewOf codec token)
      (.call (.waitFlight index) fun (landed : Reviewed) => .done landed) world := by
  refine holds_call (FliesFor codec token index) (fun _ _ => FliesFor.grows) hworld hflies ?_
  intro world hworld hflies outcome hready
  refine ⟨hworld, holds_done (fun _ _ => ReviewOf.grows) hworld ?_⟩
  obtain ⟨flight, hflight, hkey⟩ := hflies
  obtain ⟨reviewed, hreviewed, hreviewedKey, hlanded⟩ :=
    hworld.flights flight (mem_of_getElem? hflight)
  have hsame : reviewed = token := hdigests hreviewed htoken (hreviewedKey.trans hkey)
  subst hsame
  intro taken htaken
  simp only [answer, GateWorld.landed, hflight, Option.bind_some] at htaken
  cases hresult : flight.landed with
  | none =>
    rw [hresult] at htaken
    cases htaken
  | some landed =>
    rw [hresult, Option.getD_some] at htaken
    exact hlanded taken (hresult.trans (congrArg some htaken))

omit hdigests htoken in
theorem fliesFor_of_flying {index : ℕ} (hflying : world.flying (codec.sha256 token) = some index) :
    FliesFor codec token index world := by
  obtain ⟨hindex, hfound, -⟩ := List.findIdx?_eq_some_iff_getElem.1 hflying
  rw [Bool.and_eq_true, beq_iff_eq] at hfound
  exact ⟨world.flights[index], List.getElem?_eq_getElem hindex, hfound.1⟩

theorem holds_lead (hworld : GateInv codec shown world) {index : ℕ}
    (hflies : FliesFor codec token index world) :
    Holds codec shown (ReviewOf codec token) (do
      let landed ← reviewInFlight codec token
      .call (.landFlight index landed) fun _ => .done landed) world := by
  refine holds_bind hworld (holds_beside (FliesFor codec token index) (fun _ _ => FliesFor.grows)
    hworld hflies (holds_reviewInFlight hdigests htoken hworld)) ?_
  intro landed world hworld hboth
  refine holds_call (fun world => ReviewOf codec token landed world ∧
    FliesFor codec token index world)
    (fun _ _ hgrows hboth => ⟨hboth.1.grows hgrows, hboth.2.grows hgrows⟩) hworld hboth ?_
  intro world hworld hboth outcome _
  obtain ⟨flight, hflight, hkey⟩ := hboth.2
  have hown : ∀ found, world.flights[index]? = some found → found.key = codec.sha256 token := by
    intro found hfound
    rw [hflight, Option.some.injEq] at hfound
    rw [← hfound, hkey]
  have hlanded := hworld.land htoken hown hboth.1
  exact ⟨hlanded, holds_done (fun _ _ => ReviewOf.grows) hlanded hboth.1⟩

theorem holds_reviewToken (hworld : GateInv codec shown world) :
    Holds codec shown (ReviewOf codec token) (reviewToken codec token) world := by
  refine holds_any hworld fun world hworld outcome _ => ⟨hworld, ?_⟩
  refine holds_any hworld fun world hworld _ _ => ⟨hworld, ?_⟩
  rcases hcached : TtlCache.get world.tokens (codec.sha256 token) outcome.clock with _ | result
  swap
  · simp only [answer, hcached]
    exact holds_done (fun _ _ => ReviewOf.grows) hworld
      (reviewOf_cached hdigests htoken hworld hcached)
  simp only [answer, hcached]
  refine holds_any hworld fun world hworld outcome _ => ?_
  cases hflying : world.flying (codec.sha256 token) with
  | some index =>
    simp only [answer, hflying]
    exact ⟨hworld, holds_waitFlight hdigests htoken hworld (fliesFor_of_flying hflying)⟩
  | none =>
    simp only [answer, hflying]
    have hentered := hworld.enter htoken
    refine ⟨hentered, ?_⟩
    have hflies : FliesFor codec token world.flights.length
        { world with flights := world.flights ++ [⟨codec.sha256 token, none⟩] } :=
      ⟨⟨codec.sha256 token, none⟩, List.getElem?_concat_length, rfl⟩
    exact holds_lead hdigests htoken hentered hflies

end Token

section Namespace

variable {codec : TokenCodec} {shown : Set Str} {world : GateWorld} {ns : Str}

def NamespaceTaken (log : List Entry) (ns : Str) (taken : Taken NamespaceResult) : Prop :=
  ∃ found time, Entry.namespaceGet ns found time ∈ log ∧ taken.result = judgeNamespace ns found ∧
    taken.reading < time + namespaceTTL

def PrefixOf (ns : Str) (answered : Option (Taken NamespaceResult)) (world : GateWorld) : Prop :=
  ∀ taken, answered = some taken → NamespaceTaken world.log ns taken

theorem PrefixOf.grows {answered : Option (Taken NamespaceResult)} {before after : GateWorld}
    (hgrows : GateGrows before after) (hprefixed : PrefixOf ns answered before) :
    PrefixOf ns answered after := by
  intro taken htaken
  obtain ⟨found, time, hlogged, hrest⟩ := hprefixed taken htaken
  exact ⟨found, time, hgrows.log hlogged, hrest⟩

theorem prefixOf_cached (hworld : GateInv codec shown world) {now : ℤ} {result : NamespaceResult}
    (hcached : TtlCache.get world.namespaces ns now = some result) :
    PrefixOf ns (some ⟨result, now⟩) world := by
  obtain ⟨till, hentry, hnow⟩ := TtlCache.mem_of_get hcached
  obtain ⟨found, time, hlogged, hvalue, htill⟩ := hworld.namespaces _ hentry
  intro taken htaken
  cases htaken
  exact ⟨found, time, hlogged, hvalue, htill ▸ hnow⟩

theorem holds_found (hworld : GateInv codec shown world) {found : NamespaceAnswer} {now : ℤ}
    (hlogged : Entry.namespaceGet ns found now ∈ world.log) :
    Holds codec shown (PrefixOf ns)
      (.call (.namespacesPut ns (judgeNamespace ns found) (now + namespaceTTL) now)
        fun _ => .done (some ⟨judgeNamespace ns found, now⟩)) world := by
  refine holds_call (fun world => Entry.namespaceGet ns found now ∈ world.log)
    (fun _ _ hgrows hentry => hgrows.log hentry) hworld hlogged ?_
  intro world hworld hlogged outcome _
  have hentry : NamespaceKept world.log
      (ns, ⟨judgeNamespace ns found, now + namespaceTTL⟩) := ⟨found, now, hlogged, rfl, rfl⟩
  have hkept := hworld.namespacesPut now hentry
  refine ⟨hkept, holds_done (fun _ _ => PrefixOf.grows) hkept ?_⟩
  intro taken htaken
  cases htaken
  exact ⟨found, now, hlogged, rfl, Int.lt_add_of_pos_right now (by decide)⟩

theorem holds_namespacePrefix (hworld : GateInv codec shown world) :
    Holds codec shown (PrefixOf ns) (namespacePrefix ns) world := by
  refine holds_any hworld fun world hworld outcome _ => ⟨hworld, ?_⟩
  refine holds_any hworld fun world hworld _ _ => ⟨hworld, ?_⟩
  rcases hcached : TtlCache.get world.namespaces ns outcome.clock with _ | result
  swap
  · simp only [answer, hcached]
    exact holds_done (fun _ _ => PrefixOf.grows) hworld (prefixOf_cached hworld hcached)
  simp only [answer, hcached]
  refine holds_any hworld fun world hworld outcome _ => ?_
  cases houtcome : outcome.ns with
  | none =>
    simp only [answer, houtcome]
    exact ⟨hworld, holds_done (fun _ _ => PrefixOf.grows) hworld
      fun _ hnone => by cases hnone⟩
  | some found =>
    simp only [answer, houtcome]
    have hrecorded : GateInv codec shown
        (world.record (.namespaceGet ns found outcome.clock)) :=
      hworld.record fun _ hother => by cases hother
    exact ⟨hrecorded, holds_found hrecorded mem_cons_self⟩

end Namespace

section Access

variable {codec : TokenCodec} {shown : Set Str} {world : GateWorld} {id : PushIdentity} {repo : Str}

def AccessTaken (log : List Entry) (id : PushIdentity) (repo : Str) (reading : ℤ) : Prop :=
  ∃ asker time, Entry.accessReview (pushReview asker repo) (some ⟨true, false⟩) time ∈ log ∧
    reading < time + accessTTL ∧ asker.username = id.username ∧ asker.ns = id.ns ∧
    accessKey asker repo = accessKey id repo ∧ Known log asker

theorem AccessTaken.confirmed {log : List Entry} {reading : ℤ}
    (htaken : AccessTaken log id repo reading) : AccessConfirmed log id repo reading := by
  obtain ⟨asker, time, hlogged, htime, husername, hns, hkey, hknown⟩ := htaken
  exact ⟨asker, time, hlogged, htime, husername, hns, hkey, fun honly => honly asker hknown hkey⟩

theorem AccessTaken.more {log longer : List Entry} {reading : ℤ}
    (htaken : AccessTaken log id repo reading) (hmore : log ⊆ longer) :
    AccessTaken longer id repo reading := by
  obtain ⟨asker, time, hlogged, htime, husername, hns, hkey, hknown⟩ := htaken
  exact ⟨asker, time, hmore hlogged, htime, husername, hns, hkey, hknown.more hmore⟩

def PushOf (id : PushIdentity) (repo : Str) (answered : Option (Taken Bool)) (world : GateWorld) :
    Prop :=
  ∀ taken, answered = some taken → taken.result = true → AccessTaken world.log id repo taken.reading

theorem PushOf.grows {answered : Option (Taken Bool)} {before after : GateWorld}
    (hgrows : GateGrows before after) (hpush : PushOf id repo answered before) :
    PushOf id repo answered after :=
  fun taken htaken hallowed => (hpush taken htaken hallowed).more hgrows.log

section

variable (hworld : GateInv codec shown world) (hknown : Known world.log id) (hrepo : Unbroken repo)

include hworld hknown hrepo

/-- What the cache gives out under the key was answered for the repository, to an identity
with the key. -/
theorem pushOf_cached {now : ℤ} {allowed : Bool}
    (hcached : TtlCache.get world.access (accessKey id repo) now = some allowed) :
    PushOf id repo (some ⟨allowed, now⟩) world := by
  obtain ⟨till, hentry, hnow⟩ := TtlCache.mem_of_get hcached
  obtain ⟨asker, asked, status, time, hlogged, hasker, hasked, hkey, hvalue, htill⟩ :=
    hworld.access _ hentry
  obtain ⟨husername, hns, hrepos⟩ := accessKey_inj hkey (unbroken_known hknown).1
    (unbroken_known hasker).1 (unbroken_known hknown).2 (unbroken_known hasker).2 hrepo hasked
  subst hrepos
  intro taken htaken hallowed
  cases htaken
  have hstatus : status = some ⟨true, false⟩ := judgeAccess_iff.1 (hvalue.symm.trans hallowed)
  subst hstatus
  exact ⟨asker, time, hlogged, htill ▸ hnow, husername.symm, hns.symm, hkey.symm, hasker⟩

theorem holds_reviewed {status : Option AccessStatus} {now : ℤ}
    (hlogged : Entry.accessReview (pushReview id repo) status now ∈ world.log) :
    Holds codec shown (PushOf id repo)
      (.call (.accessPut (accessKey id repo) (judgeAccess status) (now + accessTTL) now)
        fun _ => .done (some ⟨judgeAccess status, now⟩)) world := by
  refine holds_call (fun world => Known world.log id ∧
    Entry.accessReview (pushReview id repo) status now ∈ world.log)
    (fun _ _ hgrows hboth => ⟨hboth.1.more hgrows.log, hgrows.log hboth.2⟩) hworld
    ⟨hknown, hlogged⟩ ?_
  intro world hworld hboth outcome _
  have hentry : AccessKept world.log (accessKey id repo, ⟨judgeAccess status, now + accessTTL⟩) :=
    ⟨id, repo, status, now, hboth.2, hboth.1, hrepo, rfl, rfl, rfl⟩
  have hkept := hworld.accessPut now hentry
  refine ⟨hkept, holds_done (fun _ _ => PushOf.grows) hkept ?_⟩
  intro taken htaken hallowed
  cases htaken
  have hstatus := judgeAccess_iff.1 hallowed
  subst hstatus
  exact ⟨id, now, hboth.2, Int.lt_add_of_pos_right now (by decide), rfl, rfl, rfl, hboth.1⟩

theorem holds_mayPush : Holds codec shown (PushOf id repo) (mayPush id repo) world := by
  have hmore : ∀ before after : GateWorld, GateGrows before after → Known before.log id →
      Known after.log id := fun _ _ hgrows hbefore => hbefore.more hgrows.log
  refine holds_call (fun world => Known world.log id) hmore hworld hknown
    fun world hworld hknown outcome _ => ⟨hworld, ?_⟩
  refine holds_call (fun world => Known world.log id) hmore hworld hknown
    fun world hworld hknown _ _ => ⟨hworld, ?_⟩
  rcases hcached : TtlCache.get world.access (accessKey id repo) outcome.clock with _ | allowed
  swap
  · simp only [answer, hcached]
    exact holds_done (fun _ _ => PushOf.grows) hworld (pushOf_cached hworld hknown hrepo hcached)
  simp only [answer, hcached]
  refine holds_call (fun world => Known world.log id) hmore hworld hknown
    fun world hworld hknown outcome _ => ?_
  cases houtcome : outcome.access with
  | none =>
    simp only [answer, houtcome]
    exact ⟨hworld, holds_done (fun _ _ => PushOf.grows) hworld
      fun _ hnone => by cases hnone⟩
  | some status =>
    simp only [answer, houtcome]
    have hrecorded : GateInv codec shown
        (world.record (.accessReview (pushReview id repo) status outcome.clock)) :=
      hworld.record fun _ hother => by cases hother
    exact ⟨hrecorded, holds_reviewed hrecorded (hknown.more (subset_cons_self _ _)) hrepo
      mem_cons_self⟩

end

end Access

section Write

variable {codec : TokenCodec} {shown : Set Str} {world : GateWorld} {token : Str}
  {route : GateRoute} {taken : Taken TokenResult} {namespaceReading : Option ℤ}

theorem TokenTaken.confirmed {log : List Entry} (htaken : TokenTaken codec log token taken)
    (hreason : taken.result.reason = none) (hns : taken.result.id.ns ≠ []) :
    TokenConfirmed codec log token taken.result.id taken.reading := by
  obtain ⟨status, time, hlogged, hresult, hreading⟩ := htaken
  rw [hresult] at hns
  obtain ⟨found, rfl, hconfirms⟩ := confirms_of_judgeToken hns
  rw [← hresult] at hconfirms
  refine ⟨found, time, hlogged, hconfirms, ?_, ?_⟩
  · rcases hreading with hfresh | hkept
    · rw [hfresh]
      exact Int.lt_add_of_pos_right time (by decide)
    · exact lt_of_lt_of_le hkept (tokenTill_le codec token taken.result time)
  · rcases hreading with hfresh | hkept
    · exact .inl hfresh
    · exact .inr fun exp hexp => lt_of_lt_of_le hkept (tokenTill_le_expiry hreason hexp)

theorem TokenConfirmed.known {log : List Entry} {id : PushIdentity} {reading : ℤ}
    (hconfirmed : TokenConfirmed codec log token id reading) : Known log id := by
  obtain ⟨status, time, hlogged, hconfirms, -⟩ := hconfirmed
  exact ⟨token, status, time, hlogged, hconfirms⟩

structure Passed (codec : TokenCodec) (token : Str) (route : GateRoute) (taken : Taken TokenResult)
    (namespaceReading : Option ℤ) (world : GateWorld) : Prop where
  token : TokenConfirmed codec world.log token taken.result.id taken.reading
  namespaced : taken.result.id.isBuilder = false → ∃ reading, namespaceReading = some reading ∧
    NamespaceConfirmed world.log taken.result.id.ns reading ∧
    ∀ repo ∈ route.repos, underPrefix repo taken.result.id.ns = true

theorem Passed.grows {before after : GateWorld} (hgrows : GateGrows before after)
    (hpassed : Passed codec token route taken namespaceReading before) :
    Passed codec token route taken namespaceReading after := by
  constructor
  · obtain ⟨status, time, hlogged, hrest⟩ := hpassed.token
    exact ⟨status, time, hgrows.log hlogged, hrest⟩
  · intro hbuilder
    obtain ⟨reading, hreading, ⟨time, hlogged, htime⟩, hunder⟩ := hpassed.namespaced hbuilder
    exact ⟨reading, hreading, ⟨time, hgrows.log hlogged, htime⟩, hunder⟩

def Asked (id : PushIdentity) (repos rest : List Str) (readings : List (Str × ℤ))
    (world : GateWorld) : Prop :=
  ∀ repo ∈ repos, repo ∈ rest ∨
    ∃ reading, (repo, reading) ∈ readings ∧ AccessTaken world.log id repo reading

theorem Asked.grows {id : PushIdentity} {repos rest : List Str} {readings : List (Str × ℤ)}
    {before after : GateWorld} (hgrows : GateGrows before after)
    (hasked : Asked id repos rest readings before) : Asked id repos rest readings after := by
  intro repo hrepo
  rcases hasked repo hrepo with hrest | ⟨reading, hreading, htaken⟩
  · exact .inl hrest
  · exact .inr ⟨reading, hreading, htaken.more hgrows.log⟩

theorem holds_end (hworld : GateInv codec shown world) (decision : Decision) :
    Holds codec shown (fun _ _ => True) (.done decision) world :=
  holds_done (fun _ _ _ => id) hworld trivial

theorem holds_forward (hworld : GateInv codec shown world) {readings : List (Str × ℤ)}
    (hpassed : Passed codec token route taken namespaceReading world)
    (hasked : Asked taken.result.id route.repos [] readings world) :
    Holds codec shown (fun _ _ => True)
      (.call (.forward ⟨token, route, taken.result.id, taken.reading, namespaceReading,
        readings⟩) fun _ => .done Decision.forwarded) world := by
  refine holds_call (fun world => Passed codec token route taken namespaceReading world ∧
    Asked taken.result.id route.repos [] readings world)
    (fun _ _ hgrows hboth => ⟨hboth.1.grows hgrows, hboth.2.grows hgrows⟩) hworld
    ⟨hpassed, hasked⟩ ?_
  intro world hworld hboth outcome _
  have hauthorized : Authorized codec world.log ⟨token, route, taken.result.id, taken.reading,
      namespaceReading, readings⟩ := by
    refine ⟨hboth.1.token, hboth.1.namespaced, ?_⟩
    intro repo hrepo
    rcases hboth.2 repo hrepo with hrest | ⟨reading, hreading, htaken⟩
    · cases hrest
    · exact ⟨reading, hreading, htaken.confirmed⟩
  have hrecorded : GateInv codec shown (world.record (.forwarded ⟨token, route, taken.result.id,
      taken.reading, namespaceReading, readings⟩)) := by
    apply hworld.record
    intro write hwrite
    cases hwrite
    exact hauthorized
  exact ⟨hrecorded, holds_end hrecorded _⟩

theorem holds_pushEach {finish : List (Str × ℤ) → Asking Decision} {repos rest : List Str}
    {readings : List (Str × ℤ)} (hunbroken : ∀ repo ∈ rest, Unbroken repo)
    (hfinish : ∀ readings world, GateInv codec shown world →
      Passed codec token route taken namespaceReading world →
      Asked taken.result.id repos [] readings world →
      Holds codec shown (fun _ _ => True) (finish readings) world)
    (hworld : GateInv codec shown world)
    (hpassed : Passed codec token route taken namespaceReading world)
    (hasked : Asked taken.result.id repos rest readings world) :
    Holds codec shown (fun _ _ => True) (pushEach taken.result.id finish rest readings) world := by
  induction rest generalizing readings world with
  | nil => exact hfinish readings world hworld hpassed hasked
  | cons repo rest ih =>
    rw [forall_mem_cons] at hunbroken
    refine holds_bind hworld (holds_beside (fun world =>
      Passed codec token route taken namespaceReading world ∧
        Asked taken.result.id repos (repo :: rest) readings world)
      (fun _ _ hgrows hboth => ⟨hboth.1.grows hgrows, hboth.2.grows hgrows⟩) hworld
      ⟨hpassed, hasked⟩ (holds_mayPush hworld hpassed.token.known hunbroken.1)) ?_
    rintro answered world hworld ⟨hpush, hpassed, hasked⟩
    cases answered with
    | none => exact holds_end hworld _
    | some found =>
      show Holds codec shown _ (if (!found.result) = true then _ else _) world
      split
      · exact holds_end hworld _
      rename_i hallowed
      apply ih hunbroken.2 hworld hpassed
      have htaken := hpush found rfl (by simpa using hallowed)
      intro other hother
      rcases hasked other hother with hmember | ⟨reading, hreading, hother⟩
      · rcases mem_cons.1 hmember with rfl | hrest
        · exact .inr ⟨found.reading, mem_append_right _ mem_cons_self, htaken⟩
        · exact .inl hrest
      · exact .inr ⟨reading, mem_append_left _ hreading, hother⟩

theorem holds_authorizeAccess (hunbroken : ∀ repo ∈ route.repos, Unbroken repo)
    (hworld : GateInv codec shown world)
    (hpassed : Passed codec token route taken namespaceReading world) :
    Holds codec shown (fun _ _ => True) (authorizeAccess token route taken namespaceReading)
      world :=
  holds_pushEach hunbroken
    (fun _ _ hworld hpassed hasked => holds_forward hworld hpassed hasked) hworld hpassed
    fun _ hrepo => .inl hrepo

theorem holds_authorizeIdentity (hunbroken : ∀ repo ∈ route.repos, Unbroken repo)
    (hworld : GateInv codec shown world) (htaken : TokenTaken codec world.log token taken)
    (hreason : taken.result.reason = none) :
    Holds codec shown (fun _ _ => True) (authorizeIdentity token route taken) world := by
  unfold authorizeIdentity
  split
  · exact holds_end hworld _
  rename_i hns
  split
  · rename_i hbuilder
    refine holds_authorizeAccess hunbroken hworld ⟨htaken.confirmed hreason hns, ?_⟩
    intro hother
    rw [hbuilder] at hother
    cases hother
  refine holds_bind hworld (holds_beside (fun world => TokenTaken codec world.log token taken)
    (fun _ _ hgrows htaken => htaken.more hgrows.log) hworld htaken
    (holds_namespacePrefix hworld)) ?_
  rintro answered world hworld ⟨hprefixed, htaken⟩
  cases answered with
  | none => exact holds_end hworld _
  | some found =>
    show Holds codec shown _ (if found.result.pushPrefix = [] then _ else
      if (!route.repos.all (underPrefix · found.result.pushPrefix)) = true then _ else _) world
    split
    · exact holds_end hworld _
    rename_i hnonempty
    split
    · exact holds_end hworld _
    rename_i hunder
    refine holds_authorizeAccess hunbroken hworld ⟨htaken.confirmed hreason hns, fun _ => ?_⟩
    obtain ⟨label, time, hlogged, hresult, htime⟩ := hprefixed found rfl
    rw [hresult] at hnonempty hunder
    obtain ⟨rfl, hown⟩ := judgeNamespace_prefix hnonempty
    refine ⟨found.reading, rfl, ⟨time, hlogged, htime⟩, ?_⟩
    rw [hown] at hunder
    simpa using hunder

theorem holds_authorizeWrite (hdigests : Set.InjOn codec.sha256 shown) {request : GateRequest}
    (hshown : ∀ token, request.password = some token → token ∈ shown)
    (hunbroken : ∀ repo ∈ route.repos, Unbroken repo) (hworld : GateInv codec shown world) :
    Holds codec shown (fun _ _ => True) (authorizeWrite codec request route) world := by
  unfold authorizeWrite
  split
  · exact holds_end hworld _
  rename_i token hpassword
  split
  · exact holds_end hworld _
  refine holds_bind hworld (holds_reviewToken hdigests (hshown token hpassword) hworld) ?_
  intro reviewed world hworld hreview
  split
  · exact holds_end hworld _
  · exact holds_end hworld _
  rename_i taken
  split
  · exact holds_end hworld _
  rename_i hreason
  apply holds_authorizeIdentity hunbroken hworld (hreview taken rfl)
  simpa using hreason

theorem unbroken_name {withName : WithName} {name : Str}
    (hname : parseName withName name = .ok name) : Unbroken name := by
  intro hmember
  have hbyte := (parseName_accepts hname).2.2.1 _ hmember
  cases hbyte

theorem unbroken_repos {withName : WithName} {op : GateOp} {rawPath rawQuery : Str}
    (hparsed : Api.Parsed withName op rawPath rawQuery route) :
    ∀ repo ∈ route.repos, Unbroken repo := by
  intro repo hrepo
  unfold GateRoute.repos at hrepo
  split at hrepo
  · rw [mem_singleton.1 hrepo]
    exact unbroken_name hparsed.name
  rename_i hsource
  rcases mem_cons.1 hrepo with rfl | hlast
  · exact unbroken_name hparsed.name
  · rw [mem_singleton.1 hlast]
    exact unbroken_name (hparsed.source_name.resolve_left hsource)

theorem holds_serveGate (withName : WithName) (hdigests : Set.InjOn codec.sha256 shown)
    (request : GateRequest) (world : GateWorld)
    (hshown : ∀ token, request.password = some token → token ∈ shown)
    (hworld : GateInv codec shown world) :
    Holds codec shown (fun _ _ => True) (serveGate codec withName request) world := by
  unfold serveGate
  simp only
  split
  · exact holds_end hworld _
  rename_i hread
  split
  · exact holds_end hworld _
  rename_i hrefused
  split
  · exact holds_end hworld _
  rename_i hinvalid
  have hwrite : (classify withName request.method request.rawPath
      request.rawQuery).op.isWrite = true := by
    rw [not_or] at hinvalid
    cases hop : (classify withName request.method request.rawPath request.rawQuery).op <;>
      simp_all [GateOp.isWrite]
  obtain ⟨op, -, hparsed⟩ := Api.parsed_of_classify hwrite
  exact holds_authorizeWrite hdigests hshown (unbroken_repos hparsed) hworld

end Write

theorem gateInv_start (codec : TokenCodec) (shown : Set Str) : GateInv codec shown {} where
  tokens := nofun
  namespaces := nofun
  access := nofun
  flights := nofun
  authorized := fun later write earlier hlog => by
    have hlength := congrArg List.length hlog
    simp at hlength

/-- A write is forwarded only with its answers in the log: the token confirmed for the
gate's audience, the namespace whose name the repositories are under, unless the identity
is the builder's, and a push of each repository allowed under the identity's key. -/
theorem forwarded_writes_authorized (codec : TokenCodec) (withName : WithName)
    (moves : List (Move GateRequest Outcome))
    (hdigests : Set.InjOn codec.sha256 (presented moves)) :
    Always (fun pool => AllAuthorized codec pool.world.log) (gateNext codec withName)
      ⟨{}, []⟩ moves := by
  have hbody : ∀ (request : GateRequest) (world : GateWorld),
      (∀ token, request.password = some token → token ∈ presented moves) →
      GateInv codec (presented moves) world →
      Holds codec (presented moves) (fun _ _ => True) (serveGate codec withName request) world :=
    holds_serveGate withName hdigests
  have hmoves : ∀ request, Move.start request ∈ moves →
      ∀ token, request.password = some token → token ∈ presented moves :=
    fun request hrequest token hpassword => ⟨request, hrequest, hpassword⟩
  have hinv := Pool.always_inv answer_grows hbody (gateInv_start codec _) hmoves
  exact hinv.mono fun pool hpool => hpool.authorized

/-- Tokens that are their own digests and name no expiry, each valid for a second. -/
def demoCodec : TokenCodec where
  sha256 := id
  expClaim := fun _ => some 0
  lifetimeClaims := fun _ => some (some 1, some 2)

def demoStatus (ns name pod : Str) : TokenReviewStatus where
  authenticated := true
  error := []
  audiences := [registryAudience]
  username := [':'].intercalate [systemWord, serviceAccountWord, ns, name]
  uid := ['u']
  groups := [['g']]
  extra := [(['p', 'o', 'd'], [pod])]

def demoRequest (last : Char) : GateRequest where
  method := .post
  rawPath := root ++ ['a', '/', 'b', '/'] ++ blobsDir ++ '/' :: uploads ++ ['/']
  rawQuery := []
  decodedPath := root ++ ['a', '/', 'b', '/'] ++ blobsDir ++ '/' :: uploads ++ ['/']
  password := some ['t', '.', 't', '.', last]

def demoOutcome (status : TokenReviewStatus) : Outcome where
  clock := 5
  token := some (some status)
  ns := some (.found (some ['a']))
  access := some (some ⟨true, false⟩)

def demoTurns (index turns : ℕ) (last : Char) (status : TokenReviewStatus) :
    List (Move GateRequest Outcome) :=
  .start (demoRequest last) :: List.replicate turns (.turn index (demoOutcome status))

def demoLog (moves : List (Move GateRequest Outcome)) : List Entry :=
  (moves.foldl (gateNext demoCodec demoWithName) ⟨{}, []⟩).world.log

def Entry.forwards : Entry → Bool
  | .forwarded _ => true
  | _ => false

/-- A push of the account p of the namespace a, with every question asked. -/
theorem demo_forwarded_writes_authorized :
    (demoLog (demoTurns 0 18 'x' (demoStatus ['a'] ['p'] ['1']))).any Entry.forwards = true ∧
      Always (fun pool => AllAuthorized demoCodec pool.world.log)
        (gateNext demoCodec demoWithName) ⟨{}, []⟩
        (demoTurns 0 18 'x' (demoStatus ['a'] ['p'] ['1'])) :=
  ⟨by decide, forwarded_writes_authorized demoCodec demoWithName _ fun _ _ _ _ hsame => hsame⟩

def Entry.asksNamespace : Entry → Bool
  | .namespaceGet _ _ _ => true
  | _ => false

/-- Whether the entry is an answer about this pod's extra attributes. -/
def Entry.asksFor (pod : Str) : Entry → Bool
  | .accessReview review _ _ => review.extra == [(['p', 'o', 'd'], [pod])]
  | _ => false

/-- The builder's write is forwarded though no namespace was asked for, and a second pod's
write on the answer that was given about the first. -/
theorem forwarded_without_its_question :
    ((demoLog (demoTurns 0 14 'x' (demoStatus builderNamespace
        ['b', 'u', 'i', 'l', 'd', 'e', 'r'] ['1']))).any Entry.forwards = true ∧
      (demoLog (demoTurns 0 14 'x' (demoStatus builderNamespace
        ['b', 'u', 'i', 'l', 'd', 'e', 'r'] ['1']))).any Entry.asksNamespace = false) ∧
    ((demoLog (demoTurns 0 18 'x' (demoStatus ['a'] ['p'] ['1']) ++
        demoTurns 1 14 'y' (demoStatus ['a'] ['p'] ['2']))).countP Entry.forwards = 2 ∧
      (demoLog (demoTurns 0 18 'x' (demoStatus ['a'] ['p'] ['1']) ++
        demoTurns 1 14 'y' (demoStatus ['a'] ['p'] ['2']))).any (Entry.asksFor ['2']) = false) := by
  decide

end K3sm.Registry.Gate
