import K3sm.Registry.GateAgree
import K3sm.Registry.GateAuth

/-!
# A forwarded write is authorized

Whatever the caches and the flights hold is an answer of the apiserver from the log, with the time
it may be used until.  The requests of the gate only add to that, so the answers a request takes
were given to its own question: the same token, the same namespace, and for the access an identity
that has the same key.
-/

namespace K3sm.Registry.Gate

open K3sm.Core K3sm.Core.Filepath K3sm.Core.Url K3sm.Registry.Ref List

section Said

variable (codec : TokenCodec) (log : List Entry)

def Confirms (status : TokenReviewStatus) (id : PushIdentity) : Prop :=
  status.authenticated = true ∧ status.error = [] ∧ registryAudience ∈ status.audiences ∧
    serviceAccountUser status.username = some id.ns ∧ id.username = status.username ∧
    id.uid = status.uid ∧ id.groups = status.groups ∧ id.extra = status.extra

def Known (id : PushIdentity) : Prop :=
  ∃ token status time, Entry.tokenReview token (some status) time ∈ log ∧ Confirms status id

/-- The token's review was taken within its time: on the answer itself, or from the cache
before the token expired. -/
def TokenConfirmed (token : Str) (id : PushIdentity) (reading : ℤ) : Prop :=
  ∃ status time, Entry.tokenReview token (some status) time ∈ log ∧ Confirms status id ∧
    reading < time + tokenPositiveTTL ∧
    (reading = time ∨ ∀ exp, tokenExpiry codec token = some exp → reading < exp)

/-- The namespace carried its own name as its push label. -/
def NamespaceConfirmed (ns : Str) (reading : ℤ) : Prop :=
  ∃ time, Entry.namespaceGet ns (.found (some ns)) time ∈ log ∧ reading < time + namespaceTTL

/-- A push of the repository was allowed to an identity with the same key, which is the
same identity when no other that is known shares the key. -/
def AccessConfirmed (id : PushIdentity) (repo : Str) (reading : ℤ) : Prop :=
  ∃ asker time, Entry.accessReview (pushReview asker repo) (some ⟨true, false⟩) time ∈ log ∧
    reading < time + accessTTL ∧ asker.username = id.username ∧ asker.ns = id.ns ∧
    accessKey asker repo = accessKey id repo ∧
    ((∀ other, Known log other → accessKey other repo = accessKey id repo → other = id) →
      asker = id)

structure Authorized (write : Forwarded) : Prop where
  token : TokenConfirmed codec log write.token write.id write.tokenReading
  namespaced : write.id.isBuilder = false → ∃ reading, write.namespaceReading = some reading ∧
    NamespaceConfirmed log write.id.ns reading ∧
    ∀ repo ∈ write.route.repos, underPrefix repo write.id.ns = true
  access : ∀ repo ∈ write.route.repos, ∃ reading, (repo, reading) ∈ write.accessReadings ∧
    AccessConfirmed log write.id repo reading

end Said

def AllAuthorized (codec : TokenCodec) (log : List Entry) : Prop :=
  ∀ later write earlier, log = later ++ .forwarded write :: earlier → Authorized codec earlier write

def presented (moves : List (Move GateRequest Outcome)) : Set Str :=
  { token | ∃ request, Move.start request ∈ moves ∧ request.password = some token }

theorem confirms_of_judgeTokenReview {status : Option TokenReviewStatus}
    (hns : (judgeTokenReview status).id.ns ≠ []) :
    ∃ found, status = some found ∧ Confirms found (judgeTokenReview status).id := by
  unfold judgeTokenReview at hns ⊢
  split
  · exact absurd rfl hns
  rename_i found
  simp only at hns
  split
  · rw [if_pos ‹_›] at hns
    exact absurd rfl hns
  rename_i hvalid
  rw [if_neg hvalid] at hns
  split
  · rw [if_pos ‹_›] at hns
    exact absurd rfl hns
  rename_i haudience
  rw [if_neg haudience] at hns
  split
  · rename_i hnone
    rw [hnone] at hns
    exact absurd rfl hns
  · rename_i ns hsome
    simp only [not_or, Bool.not_eq_true, Bool.not_eq_false', ne_eq, not_not] at hvalid
    refine ⟨found, rfl, hvalid.1, hvalid.2, ?_, hsome, rfl, rfl, rfl, rfl⟩
    simpa using haudience

theorem id_judgeToken (codec : TokenCodec) (token : Str) (status : Option TokenReviewStatus) :
    (judgeToken codec token status).id = (judgeTokenReview status).id := by
  unfold judgeToken
  simp only
  split <;> rfl

theorem confirms_of_judgeToken {codec : TokenCodec} {token : Str}
    {status : Option TokenReviewStatus} (hns : (judgeToken codec token status).id.ns ≠ []) :
    ∃ found, status = some found ∧ Confirms found (judgeToken codec token status).id := by
  rw [id_judgeToken] at hns ⊢
  exact confirms_of_judgeTokenReview hns

theorem judgeNamespace_prefix {ns : Str} {found : NamespaceAnswer}
    (hprefixed : (judgeNamespace ns found).pushPrefix ≠ []) :
    found = .found (some ns) ∧ (judgeNamespace ns found).pushPrefix = ns := by
  unfold judgeNamespace at hprefixed ⊢
  split
  · exact absurd rfl hprefixed
  · exact absurd rfl hprefixed
  rename_i value
  simp only at hprefixed
  split
  · rw [if_pos ‹_›] at hprefixed
    exact absurd rfl hprefixed
  rename_i hvalue
  rw [if_neg hvalue] at hprefixed
  rw [not_not] at hvalue
  split
  · rw [if_pos ‹_›] at hprefixed
    exact absurd rfl hprefixed
  · rw [hvalue]
    exact ⟨rfl, rfl⟩

theorem judgeAccess_iff {status : Option AccessStatus} :
    judgeAccess status = true ↔ status = some ⟨true, false⟩ := by
  cases status with
  | none => simp [judgeAccess]
  | some status =>
    obtain ⟨allowed, denied⟩ := status
    simp [judgeAccess]

theorem tokenTill_le (codec : TokenCodec) (token : Str) (result : TokenResult) (now : ℤ) :
    tokenTill codec token result now ≤ now + tokenPositiveTTL := by
  unfold tokenTill tokenPositiveTTL tokenNegativeTTL second
  split
  · omega
  split
  · exact min_le_right _ _
  · exact le_rfl

theorem tokenTill_le_expiry {codec : TokenCodec} {token : Str} {result : TokenResult} {now exp : ℤ}
    (hreason : result.reason = none) (hexp : tokenExpiry codec token = some exp) :
    tokenTill codec token result now ≤ exp := by
  rw [tokenTill, hreason, hexp]
  exact min_le_left _ _

def Unbroken (text : Str) : Prop := '\x00' ∉ text

theorem accessKey_eq (id : PushIdentity) (repo : Str) :
    accessKey id repo = id.username ++ '\x00' :: (id.uid ++ '\x00' ::
      ([','].intercalate (id.groups.insertionSort (· ≤ ·)) ++ '\x00' ::
        (id.ns ++ '\x00' :: repo))) := by
  simp [accessKey, List.intercalate]

theorem accessKey_inj {left right : PushIdentity} {leftRepo rightRepo : Str}
    (hkey : accessKey left leftRepo = accessKey right rightRepo)
    (hleftUser : Unbroken left.username) (hrightUser : Unbroken right.username)
    (hleftNs : Unbroken left.ns) (hrightNs : Unbroken right.ns)
    (hleftRepo : Unbroken leftRepo) (hrightRepo : Unbroken rightRepo) :
    left.username = right.username ∧ left.ns = right.ns ∧ leftRepo = rightRepo := by
  have hsplit := congrArg (List.splitOn '\x00') hkey
  simp only [accessKey_eq, splitOn_append_cons_self, splitOn_eq_singleton hleftUser,
    splitOn_eq_singleton hrightUser, splitOn_eq_singleton hleftNs,
    splitOn_eq_singleton hrightNs, splitOn_eq_singleton hleftRepo,
    splitOn_eq_singleton hrightRepo, singleton_append, List.cons.injEq] at hsplit
  have hends := congrArg List.reverse hsplit.2
  simp only [reverse_append, reverse_cons, reverse_nil, nil_append,
    cons_append, List.cons.injEq] at hends
  exact ⟨hsplit.1, hends.2.1, hends.1⟩

theorem unbroken_accountPart {more : Char → Bool} {part : Str} (hmore : more '\x00' = false)
    (hpart : accountPart more part = true) : Unbroken part := by
  intro hmember
  simp only [accountPart, Bool.and_eq_true, all_eq_true] at hpart
  have hchar := hpart.2 _ hmember
  rw [hmore] at hchar
  revert hchar
  decide

theorem unbroken_serviceAccount {username ns : Str}
    (hname : serviceAccountUser username = some ns) : Unbroken username ∧ Unbroken ns := by
  unfold serviceAccountUser at hname
  split at hname
  · rename_i system account space name hsplit
    split at hname
    · rename_i hparts
      cases hname
      obtain ⟨rfl, rfl, hns, hname⟩ := hparts
      refine ⟨?_, unbroken_accountPart rfl hns⟩
      have hjoin : [':'].intercalate (username.splitOn ':') = username :=
        intercalate_splitOn ':'
      rw [hsplit] at hjoin
      rw [← hjoin]
      intro hmember
      simp only [List.intercalate, List.intersperse, flatten_cons, flatten_nil,
        mem_append, mem_singleton, append_nil] at hmember
      rcases hmember with hmember | hmember | hmember | hmember | hmember | hmember | hmember
      · revert hmember
        decide
      · revert hmember
        decide
      · revert hmember
        decide
      · revert hmember
        decide
      · exact unbroken_accountPart rfl hns hmember
      · revert hmember
        decide
      · exact unbroken_accountPart rfl hname hmember
    · cases hname
  · cases hname

theorem unbroken_known {log : List Entry} {id : PushIdentity} (hknown : Known log id) :
    Unbroken id.username ∧ Unbroken id.ns := by
  obtain ⟨_, status, _, _, _, _, _, haccount, husername, _⟩ := hknown
  rw [husername]
  exact unbroken_serviceAccount haccount

section Invariant

variable (codec : TokenCodec) (shown : Set Str)

def TokenTaken (log : List Entry) (token : Str) (taken : Taken TokenResult) : Prop :=
  ∃ status time, Entry.tokenReview token status time ∈ log ∧
    taken.result = judgeToken codec token status ∧
    (taken.reading = time ∨ taken.reading < tokenTill codec token taken.result time)

def TokenKept (log : List Entry) (entry : Str × TtlEntry TokenResult) : Prop :=
  ∃ token ∈ shown, codec.sha256 token = entry.1 ∧
    ∃ status time, Entry.tokenReview token status time ∈ log ∧
      entry.2.value = judgeToken codec token status ∧
      entry.2.till = tokenTill codec token entry.2.value time

def NamespaceKept (log : List Entry) (entry : Str × TtlEntry NamespaceResult) : Prop :=
  ∃ found time, Entry.namespaceGet entry.1 found time ∈ log ∧
    entry.2.value = judgeNamespace entry.1 found ∧ entry.2.till = time + namespaceTTL

def AccessKept (log : List Entry) (entry : Str × TtlEntry Bool) : Prop :=
  ∃ asker repo status time, Entry.accessReview (pushReview asker repo) status time ∈ log ∧
    Known log asker ∧ Unbroken repo ∧ entry.1 = accessKey asker repo ∧
    entry.2.value = judgeAccess status ∧ entry.2.till = time + accessTTL

def FlightKept (log : List Entry) (flight : Flight) : Prop :=
  ∃ token ∈ shown, codec.sha256 token = flight.key ∧
    ∀ taken, flight.landed = some (.ok taken) → TokenTaken codec log token taken

/-- The invariant of the gate's caches and its log. -/
structure GateInv (world : GateWorld) : Prop where
  tokens : ∀ entry ∈ world.tokens, TokenKept codec shown world.log entry
  namespaces : ∀ entry ∈ world.namespaces, NamespaceKept world.log entry
  access : ∀ entry ∈ world.access, AccessKept world.log entry
  flights : ∀ flight ∈ world.flights, FlightKept codec shown world.log flight
  authorized : AllAuthorized codec world.log

end Invariant

variable {codec : TokenCodec} {shown : Set Str}

section More

variable {log longer : List Entry}

theorem Known.more {id : PushIdentity} (hknown : Known log id) (hmore : log ⊆ longer) :
    Known longer id := by
  obtain ⟨token, status, time, hentry, hconfirms⟩ := hknown
  exact ⟨token, status, time, hmore hentry, hconfirms⟩

theorem TokenTaken.more {token : Str} {taken : Taken TokenResult}
    (htaken : TokenTaken codec log token taken) (hmore : log ⊆ longer) :
    TokenTaken codec longer token taken := by
  obtain ⟨status, time, hentry, hrest⟩ := htaken
  exact ⟨status, time, hmore hentry, hrest⟩

theorem TokenKept.more {entry : Str × TtlEntry TokenResult}
    (hkept : TokenKept codec shown log entry) (hmore : log ⊆ longer) :
    TokenKept codec shown longer entry := by
  obtain ⟨token, htoken, hkey, status, time, hentry, hrest⟩ := hkept
  exact ⟨token, htoken, hkey, status, time, hmore hentry, hrest⟩

theorem NamespaceKept.more {entry : Str × TtlEntry NamespaceResult}
    (hkept : NamespaceKept log entry) (hmore : log ⊆ longer) : NamespaceKept longer entry := by
  obtain ⟨found, time, hentry, hrest⟩ := hkept
  exact ⟨found, time, hmore hentry, hrest⟩

theorem AccessKept.more {entry : Str × TtlEntry Bool} (hkept : AccessKept log entry)
    (hmore : log ⊆ longer) : AccessKept longer entry := by
  obtain ⟨asker, repo, status, time, hentry, hknown, hrest⟩ := hkept
  exact ⟨asker, repo, status, time, hmore hentry, hknown.more hmore, hrest⟩

theorem FlightKept.more {flight : Flight} (hkept : FlightKept codec shown log flight)
    (hmore : log ⊆ longer) : FlightKept codec shown longer flight := by
  obtain ⟨token, htoken, hkey, hlanded⟩ := hkept
  exact ⟨token, htoken, hkey, fun taken htaken => (hlanded taken htaken).more hmore⟩

end More

section Kept

variable {world : GateWorld}

theorem AllAuthorized.cons {log : List Entry} {entry : Entry} (hall : AllAuthorized codec log)
    (hentry : ∀ write, entry = .forwarded write → Authorized codec log write) :
    AllAuthorized codec (entry :: log) := by
  intro later write earlier hlog
  cases later with
  | nil =>
    cases hlog
    exact hentry write rfl
  | cons first later =>
    cases hlog
    exact hall later write earlier rfl

section

variable (hinv : GateInv codec shown world)

include hinv

theorem GateInv.record {entry : Entry}
    (hentry : ∀ write, entry = .forwarded write → Authorized codec world.log write) :
    GateInv codec shown (world.record entry) := by
  have hmore : world.log ⊆ entry :: world.log := subset_cons_self _ _
  exact
    { tokens := fun kept hkept => (hinv.tokens kept hkept).more hmore
      namespaces := fun kept hkept => (hinv.namespaces kept hkept).more hmore
      access := fun kept hkept => (hinv.access kept hkept).more hmore
      flights := fun flight hflight => (hinv.flights flight hflight).more hmore
      authorized := hinv.authorized.cons hentry }

theorem GateInv.tokensPut {key : Str} {result : TokenResult} {till : ℤ} (now : ℤ)
    (hkept : TokenKept codec shown world.log (key, ⟨result, till⟩)) :
    GateInv codec shown (answer (.tokensPut key result till now) {} world).2 :=
  { hinv with tokens := TtlCache.forall_mem_put hinv.tokens hkept }

theorem GateInv.namespacesPut {key : Str} {result : NamespaceResult} {till : ℤ} (now : ℤ)
    (hkept : NamespaceKept world.log (key, ⟨result, till⟩)) :
    GateInv codec shown (answer (.namespacesPut key result till now) {} world).2 :=
  { hinv with namespaces := TtlCache.forall_mem_put hinv.namespaces hkept }

theorem GateInv.accessPut {key : Str} {allowed : Bool} {till : ℤ} (now : ℤ)
    (hkept : AccessKept world.log (key, ⟨allowed, till⟩)) :
    GateInv codec shown (answer (.accessPut key allowed till now) {} world).2 :=
  { hinv with access := TtlCache.forall_mem_put hinv.access hkept }

theorem GateInv.enter {token : Str} (htoken : token ∈ shown) :
    GateInv codec shown
      { world with flights := world.flights ++ [⟨codec.sha256 token, none⟩] } := by
  refine { hinv with flights := ?_ }
  exact forall_mem_append.2 ⟨hinv.flights, forall_mem_singleton.2 ⟨token, htoken, rfl, nofun⟩⟩

theorem GateInv.land {index : ℕ} {token : Str} {landed : Reviewed} (htoken : token ∈ shown)
    (hkey : ∀ flight, world.flights[index]? = some flight → flight.key = codec.sha256 token)
    (hlanded : ∀ taken, landed = .ok taken → TokenTaken codec world.log token taken) :
    GateInv codec shown
      { world with flights := world.flights.modify index ({ · with landed := some landed }) } := by
  refine { hinv with flights := ?_ }
  intro flight hflight
  obtain ⟨position, hposition⟩ := mem_iff_getElem?.1 hflight
  rw [List.getElem?_modify] at hposition
  split at hposition
  · rename_i hindex
    subst hindex
    obtain ⟨before, hbefore, rfl⟩ := Option.map_eq_some_iff.1 hposition
    refine ⟨token, htoken, (hkey before hbefore).symm, ?_⟩
    intro taken htaken
    exact hlanded taken (Option.some.inj htaken)
  · rw [Option.map_eq_map, Option.map_id'] at hposition
    exact hinv.flights flight (mem_of_getElem? hposition)

end

end Kept

structure GateGrows (before after : GateWorld) : Prop where
  log : before.log ⊆ after.log
  flights : ∀ (index : ℕ) flight, before.flights[index]? = some flight →
    ∃ later, after.flights[index]? = some later ∧ later.key = flight.key

theorem GateGrows.refl (world : GateWorld) : GateGrows world world :=
  ⟨List.Subset.refl _, fun _ flight hflight => ⟨flight, hflight, rfl⟩⟩

theorem GateGrows.same {before after : GateWorld} (hlog : before.log ⊆ after.log)
    (hflights : after.flights = before.flights) : GateGrows before after :=
  ⟨hlog, fun _ flight hflight => ⟨flight, hflights ▸ hflight, rfl⟩⟩

theorem answer_grows (call : GateCall) (outcome : Outcome) (world : GateWorld) :
    GateGrows world (answer call outcome world).2 := by
  have hrecord : ∀ entry, GateGrows world (world.record entry) :=
    fun entry => .same (subset_cons_self _ _) rfl
  cases call with
  | now | limiterAllow | tokensGet key now | namespacesGet key now | accessGet key now
  | waitFlight flight => exact .refl world
  | tokensPut key result till now | namespacesPut key result till now
  | accessPut key allowed till now => exact .same (List.Subset.refl _) rfl
  | enterFlight key =>
    simp only [answer]
    split
    · exact .refl world
    refine ⟨List.Subset.refl _, fun index flight hflight => ⟨flight, ?_, rfl⟩⟩
    obtain ⟨hindex, -⟩ := List.getElem?_eq_some_iff.1 hflight
    rwa [List.getElem?_append_left hindex]
  | landFlight index landed =>
    refine ⟨List.Subset.refl _, fun position flight hflight => ?_⟩
    simp only [answer, List.getElem?_modify, hflight]
    split
    · exact ⟨_, rfl, rfl⟩
    · exact ⟨_, rfl, rfl⟩
  | reviewToken token | getNamespace ns | reviewAccess review =>
    simp only [answer]
    split
    · exact .refl world
    · exact hrecord _
  | forward write => exact hrecord _

end K3sm.Registry.Gate
