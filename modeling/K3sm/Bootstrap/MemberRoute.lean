import K3sm.Bootstrap.EtcdMember

/-!
# What the member route may change

The route runs against a membership and a datastore of bindings, while other servers may bind
names of their own.  `Spared` says which members a request may remove; every call keeps it.
-/

namespace K3sm.Bootstrap

open K3sm.Core K3sm.Core.Filepath List Option

structure Membership where
  members : List EtcdMember
  ids : (members.map EtcdMember.id).Nodup

/-- The etcd members and the hashes in the node-password Secrets. -/
structure MemberWorld (Hash : Type) where
  cluster : Membership
  secrets : Str → Option Hash

/-- A call succeeds, fails, or fails in the eyes of the caller after it took
effect. -/
inductive Fate
  | done
  | failed
  | lost
  deriving DecidableEq

/-- The outcome of a call: how it went, what was decided where someone else
decides, the id of a new member and the order in which members are listed. -/
structure MemberOutcome where
  fate : Fate
  decided : Bool
  reserved : Except ReserveError MeshAllocation
  newId : ℕ
  arrange : List EtcdMember → List EtcdMember

def MemberOutcome.listed (outcome : MemberOutcome) (members : List EtcdMember) : List EtcdMember :=
  if (outcome.arrange members).Perm members then outcome.arrange members else members

theorem MemberOutcome.listed_perm (outcome : MemberOutcome) (members : List EtcdMember) :
    (outcome.listed members).Perm members := by
  unfold listed
  split
  · assumption
  · exact List.Perm.refl _

def Membership.remove (cluster : Membership) (id : ℕ) : Membership where
  members := cluster.members.filter fun member => member.id ≠ id
  ids := cluster.ids.sublist (List.Sublist.map _ filter_sublist)

def learner (id : ℕ) (peerURL : Str) : EtcdMember where
  id := id
  name := []
  peerURLs := [peerURL]
  clientURLs := []
  isLearner := true

def Membership.add (cluster : Membership) (id : ℕ) (peerURL : Str)
    (hnew : id ∉ cluster.members.map EtcdMember.id) : Membership where
  members := cluster.members ++ [learner id peerURL]
  ids := by
    rw [map_append, nodup_append]
    refine ⟨cluster.ids, nodup_singleton _, ?_⟩
    intro old hold new hmem heq
    rw [map_singleton, mem_singleton] at hmem
    have hid : new = id := hmem
    exact hnew (hid ▸ heq ▸ hold)

/-- Another server's binding: the first one of a name stays. -/
def bindFirst {Hash : Type} (secrets : Str → Option Hash) (name : Str) (hash : Hash) :
    Str → Option Hash :=
  fun other => if other = name then some ((secrets name).getD hash) else secrets other

variable {bcrypt : Bcrypt}

def memberHandle : (call : MemberCall bcrypt.Hash) → MemberOutcome → MemberWorld bcrypt.Hash →
    call.Answer × MemberWorld bcrypt.Hash
  | .preauth, outcome, world => (outcome.decided, world)
  | .authorize _, outcome, world => (outcome.decided, world)
  | .getSecret name, outcome, world =>
    match outcome.fate, world.secrets name with
    | .done, some hash => (.found hash, world)
    | .done, none => (.notFound, world)
    | _, _ => (.fault, world)
  | .createSecret name hash, outcome, world =>
    match outcome.fate, world.secrets name with
    | .failed, _ => (.fault, world)
    | .done, some _ => (.alreadyExists, world)
    | .lost, some _ => (.fault, world)
    | .done, none => (.created, { world with secrets := bindFirst world.secrets name hash })
    | .lost, none => (.fault, { world with secrets := bindFirst world.secrets name hash })
  | .reserveMesh _ _, outcome, world => (outcome.reserved, world)
  | .releaseMesh _ _, outcome, world => (outcome.decided, world)
  | .memberList, outcome, world =>
    match outcome.fate with
    | .done => (some (outcome.listed world.cluster.members), world)
    | _ => (none, world)
  | .memberRemove id, outcome, world =>
    match outcome.fate with
    | .done => (true, { world with cluster := world.cluster.remove id })
    | .lost => (false, { world with cluster := world.cluster.remove id })
    | .failed => (false, world)
  | .memberAdd peerURL, outcome, world =>
    if hnew : outcome.newId ∉ world.cluster.members.map EtcdMember.id then
      let grown := world.cluster.add outcome.newId peerURL hnew
      match outcome.fate with
      | .done =>
        (some (learner outcome.newId peerURL, outcome.listed grown.members),
          { world with cluster := grown })
      | .lost => (none, { world with cluster := grown })
      | .failed => (none, world)
    else (none, world)

/-- The apiserver and etcd under the route's calls. -/
def memberMachine (bcrypt : Bcrypt) :
    Machine (MemberCall bcrypt.Hash) MemberCall.Answer (MemberWorld bcrypt.Hash)
      (Str × bcrypt.Hash) MemberOutcome where
  change := fun binding world =>
    { world with secrets := bindFirst world.secrets binding.1 binding.2 }
  handle := memberHandle

theorem digitChar_injective {left right : ℕ} (hleft : left < 16) (hright : right < 16)
    (hsame : left.digitChar = right.digitChar) : left = right := by
  revert hsame
  interval_cases left <;> interval_cases right <;> decide

theorem hex_injective : Function.Injective hex := by
  intro left
  induction left using Nat.strong_induction_on with
  | _ left ih =>
    intro right hsame
    simp only [hex] at hsame ih
    rw [Nat.toDigits_eq_if (n := left) (by decide),
      Nat.toDigits_eq_if (n := right) (by decide)] at hsame
    have hdigits : ∀ value, (Nat.toDigits 16 value).length ≠ 0 :=
      fun value hlength => Nat.toDigits_ne_nil (length_eq_zero_iff.1 hlength)
    have hlengths := congrArg List.length hsame
    split_ifs at hsame hlengths with hleft hright hright
    · exact digitChar_injective hleft hright (singleton_inj.1 hsame)
    · have := hdigits (right / 16)
      simp only [length_append, length_singleton] at hlengths
      omega
    · have := hdigits (left / 16)
      simp only [length_append, length_singleton] at hlengths
      omega
    · obtain ⟨hfront, hlast⟩ := append_inj' hsame rfl
      have hquotient := ih (left / 16) (by omega) hfront
      have hremainder := digitChar_injective (Nat.mod_lt left (by decide))
        (Nat.mod_lt right (by decide)) (singleton_inj.1 hlast)
      omega

theorem clusterEntries_urls (members : List EtcdMember) (joinerId : ℕ) (joinerName : Str) :
    (clusterEntries members joinerId joinerName).map Prod.snd =
      members.flatMap EtcdMember.peerURLs := by
  simp [clusterEntries, map_flatMap, Function.comp_def]

/-- No member is listed under another's name, given that the members' own names
differ and none of them is a name the listing invents. -/
theorem listedName_injective {members : List EtcdMember} {joinerId : ℕ} {joinerName : Str}
    (hids : (members.map EtcdMember.id).Nodup)
    (hjoiner : ∀ member ∈ members, member.id ≠ joinerId → member.name ≠ joinerName)
    (hnames : ∀ member ∈ members, ∀ other ∈ members, member.name = other.name →
      member.name = [] ∨ member = other)
    (hinvented : ∀ member ∈ members, ∀ name ∈ joinerName :: members.map EtcdMember.name,
      name ≠ "unstarted-".toList ++ hex member.id)
    {member other : EtcdMember} (hmember : member ∈ members) (hother : other ∈ members)
    (hsame : listedName joinerId joinerName member = listedName joinerId joinerName other) :
    member = other := by
  have hid : member.id = other.id → member = other := inj_on_of_nodup_map hids hmember hother
  have hname : ∀ member ∈ members, member.name ∈ joinerName :: members.map EtcdMember.name :=
    fun member hmember => mem_cons_of_mem _ (mem_map_of_mem hmember)
  simp only [listedName] at hsame
  by_cases hfirst : member.id = joinerId <;> by_cases hsecond : other.id = joinerId
  · exact hid (hfirst.trans hsecond.symm)
  · rw [if_pos hfirst, if_neg hsecond] at hsame
    split_ifs at hsame
    · exact absurd hsame (hinvented other hother joinerName mem_cons_self)
    · exact absurd hsame.symm (hjoiner other hother hsecond)
  · rw [if_neg hfirst, if_pos hsecond] at hsame
    split_ifs at hsame
    · exact absurd hsame.symm (hinvented member hmember joinerName mem_cons_self)
    · exact absurd hsame (hjoiner member hmember hfirst)
  · rw [if_neg hfirst, if_neg hsecond] at hsame
    split_ifs at hsame with hunnamed
    · exact hid (hex_injective (append_cancel_left hsame))
    · exact absurd hsame.symm (hinvented member hmember other.name (hname other hother))
    · exact absurd hsame (hinvented other hother member.name (hname member hmember))
    · exact (hnames member hmember other hother hsame).resolve_left hunnamed

section Route

variable {isDns1123Subdomain : Str → Bool} (server : MemberServer isDns1123Subdomain)
  (body : EtcdMemberRequest)

/-- Registered under the request's name, or unstarted at its peer URL, and not the
serving server's own. -/
def Removable (member : EtcdMember) : Prop :=
  (member.name = body.name ∨ (member.unstarted = true ∧ body.peerURL ∈ member.peerURLs)) ∧
    member.name ≠ server.selfNodeName

def Presented (name : Str) (world : MemberWorld bcrypt.Hash) : Prop :=
  body.nodePassword ≠ [] → ∃ hash, world.secrets (name ++ nodePasswordSecretSuffix) = some hash ∧
    bcrypt.compare hash body.nodePassword = true

structure Spared (start world : MemberWorld bcrypt.Hash) : Prop where
  removed : ∀ member ∈ start.cluster.members, member ∉ world.cluster.members →
    Removable server body member ∧ (member.name ≠ [] → Presented body member.name world)
  gained : ∀ member ∈ world.cluster.members,
    member ∈ start.cluster.members ∨ ∃ id, member = learner id body.peerURL

abbrev RouteSafe {Result : Type} (start : MemberWorld bcrypt.Hash)
    (post : Result → MemberWorld bcrypt.Hash → Prop) (program : MemberProg bcrypt.Hash Result)
    (world : MemberWorld bcrypt.Hash) : Prop :=
  program.Safe (memberMachine bcrypt) (fun _ _ => True) (fun _ _ _ => True)
    (Spared server body start) post world

variable {server body} {start world : MemberWorld bcrypt.Hash}

variable {member : EtcdMember} {kept : List EtcdMember} {net : NetText} {name : Str}

theorem bindFirst_of_bound {secrets : Str → Option bcrypt.Hash} {other : Str}
    {hash bound : bcrypt.Hash} (hbound : secrets name = some bound) :
    bindFirst secrets other hash name = some bound := by
  unfold bindFirst
  split
  case isFalse => exact hbound
  rename_i hname
  rw [← hname, hbound]
  rfl

theorem Presented.bindFirst {other : Str} {hash : bcrypt.Hash}
    (hpresented : Presented body name world) :
    Presented body name { world with secrets := bindFirst world.secrets other hash } := by
  intro hpassword
  obtain ⟨bound, hbound, hcompare⟩ := hpresented hpassword
  exact ⟨bound, bindFirst_of_bound hbound, hcompare⟩

theorem stable_presented (name : Str) :
    Stable (memberMachine bcrypt) (fun _ _ => True) (fun _ => True)
      (fun world => Presented body name world) :=
  fun _ _ _ _ hpresented => hpresented.bindFirst

theorem stable_spared :
    Stable (memberMachine bcrypt) (fun _ _ => True) (fun _ => True) (Spared server body start) := by
  intro world change _ _ hspared
  refine ⟨?_, hspared.gained⟩
  intro member hmember hgone
  obtain ⟨hremovable, hpresented⟩ := hspared.removed member hmember hgone
  exact ⟨hremovable, fun hname => (hpresented hname).bindFirst⟩

theorem spared_of_cluster (hcluster : world.cluster = start.cluster) :
    Spared server body start world := by
  refine ⟨?_, ?_⟩
  · intro member hmember hgone
    exact absurd (hcluster ▸ hmember) hgone
  · intro member hmember
    exact .inl (hcluster ▸ hmember)

theorem safe_quiet {Result : Type} {post : Result → MemberWorld bcrypt.Hash → Prop}
    {call : MemberCall bcrypt.Hash} {next : call.Answer → MemberProg bcrypt.Hash Result}
    {known : MemberWorld bcrypt.Hash → Prop}
    (hstable : Stable (memberMachine bcrypt) (fun _ _ => True) (fun _ => True) known)
    (hcluster : world.cluster = start.cluster) (hknown : known world)
    (hcall : ∀ later, later.cluster = start.cluster → known later → ∀ outcome,
      (memberHandle call outcome later).2.cluster = start.cluster ∧
        RouteSafe server body start post (next (memberHandle call outcome later).1)
          (memberHandle call outcome later).2) :
    RouteSafe server body start post (.call call next) world := by
  have hquiet : Stable (memberMachine bcrypt) (fun _ _ => True) (Spared server body start)
      (fun world => world.cluster = start.cluster ∧ known world) :=
    fun world change _ hrely hboth => ⟨hboth.1, hstable world change trivial hrely hboth.2⟩
  refine Prog.safe_call stable_spared hquiet (spared_of_cluster hcluster) ⟨hcluster, hknown⟩ ?_
  intro later _ hlater outcome _
  obtain ⟨hsame, hnext⟩ := hcall later hlater.1 hlater.2 outcome
  exact ⟨spared_of_cluster hsame, hnext⟩

theorem safe_quiet_done {Result : Type} {post : Result → MemberWorld bcrypt.Hash → Prop}
    {result : Result} (hcluster : world.cluster = start.cluster)
    (hpost : ∀ later, later.cluster = start.cluster → post result later) :
    RouteSafe server body start post (.done result) world := by
  have hquiet : Stable (memberMachine bcrypt) (fun _ _ => True) (fun _ => True)
      (fun world => world.cluster = start.cluster) := fun _ _ _ _ hsame => hsame
  intro later hothers _
  exact hpost later (hquiet.others (fun _ _ _ _ _ => trivial) hothers trivial hcluster).2

theorem getSecret_answer (name : Str) (outcome : MemberOutcome) (world : MemberWorld bcrypt.Hash) :
    (memberHandle (.getSecret name) outcome world).2 = world ∧
      ∀ hash, (memberHandle (.getSecret name) outcome world).1 = .found hash →
        world.secrets name = some hash := by
  simp only [memberHandle]
  split
  case h_1 hfate hbound => exact ⟨rfl, fun hash hfound => by cases hfound; exact hbound⟩
  case h_2 => exact ⟨rfl, nofun⟩
  case h_3 => exact ⟨rfl, nofun⟩

theorem createSecret_answer (name : Str) (hash : bcrypt.Hash) (outcome : MemberOutcome)
    (world : MemberWorld bcrypt.Hash) :
    (memberHandle (.createSecret name hash) outcome world).2.cluster = world.cluster ∧
      ((memberHandle (.createSecret name hash) outcome world).1 = .created →
        (memberHandle (.createSecret name hash) outcome world).2.secrets name = some hash) := by
  simp only [memberHandle]
  split
  case h_4 hbound => exact ⟨rfl, fun _ => by simp [bindFirst, hbound]⟩
  all_goals exact ⟨rfl, nofun⟩

theorem presented_of_verify {read : SecretRead bcrypt.Hash} (hread : ∀ hash, read = .found hash →
      world.secrets (name ++ nodePasswordSecretSuffix) = some hash)
    (hverify : verifyBinding bcrypt body.nodePassword read = .ok ()) :
    Presented body name world := by
  intro _
  cases read with
  | found hash =>
    simp only [verifyBinding] at hverify
    split at hverify
    case isTrue hcompare => exact ⟨hash, hread hash rfl, hcompare⟩
    case isFalse => cases hverify
  | notFound | fault => cases hverify

theorem stable_true : Stable (memberMachine bcrypt) (fun _ _ => True) (fun _ => True)
    (fun _ : MemberWorld bcrypt.Hash => True) :=
  fun _ _ _ _ _ => trivial

variable (body) in
def Checked {Failure : Type} (start : MemberWorld bcrypt.Hash) (name : Str)
    (result : Except Failure Unit) (world : MemberWorld bcrypt.Hash) : Prop :=
  world.cluster = start.cluster ∧ (result = .ok () → Presented body name world)

theorem safe_checked {Failure : Type} {result : Except Failure Unit}
    (hchecked : Checked body start name result world) :
    RouteSafe server body start (Checked body start name) (.done result) world := by
  have hstable : Stable (memberMachine bcrypt) (fun _ _ => True) (Spared server body start)
      (Checked body start name result) :=
    fun _ _ _ _ hboth => ⟨hboth.1, fun hok => (hboth.2 hok).bindFirst⟩
  exact Prog.safe_done stable_spared hstable (spared_of_cluster hchecked.1) hchecked

theorem ensure_safe (salt : bcrypt.Salt) (name : Str) (hcluster : world.cluster = start.cluster) :
    RouteSafe server body start (Checked body start name)
      (ensure bcrypt salt (fun secret => askMember bcrypt (.getSecret secret))
        (fun secret hash => askMember bcrypt (.createSecret secret hash)) name body.nodePassword)
      world := by
  simp only [ensure]
  split
  · exact safe_checked ⟨hcluster, nofun⟩
  simp only [askMember, Prog.ask_bind]
  refine safe_quiet stable_true hcluster trivial ?_
  intro later hlater _ outcome
  obtain ⟨hsame, hfound⟩ :=
    getSecret_answer (name ++ nodePasswordSecretSuffix) outcome later
  rw [hsame]
  refine ⟨hlater, ?_⟩
  cases hanswer :
    (memberHandle (.getSecret (name ++ nodePasswordSecretSuffix)) outcome later).1 with
  | found hash =>
    rw [hanswer] at hfound
    exact safe_checked ⟨hlater, presented_of_verify hfound⟩
  | fault => exact safe_checked ⟨hlater, nofun⟩
  | notFound =>
    dsimp only
    cases hgenerate : bcrypt.generate body.nodePassword salt with
    | none => exact safe_checked ⟨hlater, nofun⟩
    | some hash =>
      dsimp only
      refine safe_quiet stable_true hlater trivial ?_
      intro last hlast _ fate
      obtain ⟨hkept, hcreated⟩ :=
        createSecret_answer (name ++ nodePasswordSecretSuffix) hash fate last
      refine ⟨hkept.trans hlast, ?_⟩
      cases hcreate : (memberHandle
        (.createSecret (name ++ nodePasswordSecretSuffix) hash) fate last).1 with
      | created =>
        refine safe_checked ⟨hkept.trans hlast, fun _ _ => ⟨hash, hcreated hcreate, ?_⟩⟩
        exact (bcrypt.compare_iff _ _ _ _ hgenerate).2 rfl
      | fault => exact safe_checked ⟨hkept.trans hlast, nofun⟩
      | alreadyExists =>
        dsimp only
        refine safe_quiet stable_true (hkept.trans hlast) trivial ?_
        intro final hfinal _ fate
        obtain ⟨hsame, hfound⟩ :=
          getSecret_answer (name ++ nodePasswordSecretSuffix) fate final
        rw [hsame]
        exact ⟨hfinal, safe_checked ⟨hfinal, presented_of_verify hfound⟩⟩

theorem bindMemberName_safe (salt : bcrypt.Salt) (name : Str)
    (hcluster : world.cluster = start.cluster) :
    RouteSafe server body start (Checked body start name)
      (bindMemberName bcrypt salt name body.nodePassword) world := by
  simp only [bindMemberName]
  split
  case isTrue hempty => exact safe_checked ⟨hcluster, fun _ hpassword => absurd hempty hpassword⟩
  split
  · exact safe_checked ⟨hcluster, nofun⟩
  apply Prog.Safe.bind (spared_of_cluster hcluster) (ensure_safe salt name hcluster)
  intro result world _ hchecked
  cases result with
  | ok value => exact safe_checked ⟨hchecked.1, fun _ => hchecked.2 rfl⟩
  | error failure =>
    cases failure <;> exact safe_checked ⟨hchecked.1, nofun⟩

/-! ### The membership step -/

theorem eq_of_id {cluster : Membership} {other : EtcdMember} (hmember : member ∈ cluster.members)
    (hother : other ∈ cluster.members) (hid : member.id = other.id) : member = other :=
  inj_on_of_nodup_map cluster.ids hmember hother hid

theorem remove_perm {cluster : Membership} {rest : List EtcdMember}
    (hperm : cluster.members.Perm (kept ++ member :: rest)) :
    (cluster.remove member.id).members.Perm (kept ++ rest) := by
  have hids : ((kept ++ member :: rest).map EtcdMember.id).Nodup :=
    (hperm.map EtcdMember.id).nodup_iff.1 cluster.ids
  rw [map_append, map_cons, nodup_middle, nodup_cons, ← map_append] at hids
  have hothers : ∀ other ∈ kept ++ rest, decide (other.id ≠ member.id) = true := by
    intro other hother
    apply decide_eq_true
    intro hid
    exact hids.1 (hid ▸ mem_map_of_mem hother)
  have hfilter : (kept ++ member :: rest).filter (fun other => decide (other.id ≠ member.id)) =
      kept ++ rest := by
    rw [filter_append, filter_cons_of_neg (by simp), ← filter_append]
    exact filter_eq_self.2 hothers
  exact hfilter ▸ hperm.filter _

/-- How far the loop over the members has come: the membership is what it keeps and has yet
to look at, and of the kept only the reused learner may be the joiner's. -/
structure Sorted (name : Str) (world : MemberWorld bcrypt.Hash) (rest kept : List EtcdMember)
    (reuse : Option EtcdMember) : Prop where
  members : world.cluster.members.Perm (kept ++ rest)
  reused : ∀ learner ∈ reuse, learner ∈ kept
  foreign : ∀ member ∈ kept, reuse = some member ∨ member.name ≠ name

theorem name_ne_of_foreign {peerURL : Str} (hforeign : foreign name peerURL member = true) :
    member.name ≠ name := by
  unfold foreign at hforeign
  rw [Bool.and_eq_true] at hforeign
  exact of_decide_eq_true hforeign.1

theorem removable_of_not_foreign (hself : body.name ≠ server.selfNodeName)
    (hforeign : foreign body.name body.peerURL member = false) :
    Removable server body member ∧ (member.name ≠ [] → member.name = body.name) := by
  unfold foreign at hforeign
  by_cases hname : member.name = body.name
  · exact ⟨⟨.inl hname, hname ▸ hself⟩, fun _ => hname⟩
  rw [decide_eq_true hname, Bool.true_and, Bool.not_eq_false', Bool.and_eq_true] at hforeign
  have hunnamed : member.name = [] := by
    have hunstarted := hforeign.1
    unfold EtcdMember.unstarted at hunstarted
    rw [Bool.and_eq_true] at hunstarted
    exact beq_iff_eq.1 hunstarted.1
  refine ⟨⟨.inr ⟨hforeign.1, of_decide_eq_true hforeign.2⟩, ?_⟩, fun hnamed =>
    absurd hunnamed hnamed⟩
  rw [hunnamed]
  exact server.self_canonical.ne_nil.symm

theorem Spared.remove (hspared : Spared server body start world)
    (hpresented : Presented body body.name world) (hself : body.name ≠ server.selfNodeName)
    (hmember : member ∈ world.cluster.members)
    (hforeign : foreign body.name body.peerURL member = false) :
    Spared server body start { world with cluster := world.cluster.remove member.id } := by
  refine ⟨?_, fun other hother => hspared.gained other (mem_of_mem_filter hother)⟩
  intro other hother hgone
  by_cases hbefore : other ∈ world.cluster.members
  · have hid : other.id = member.id := by
      by_contra hid
      exact hgone (mem_filter.2 ⟨hbefore, decide_eq_true hid⟩)
    obtain rfl := eq_of_id hbefore hmember hid
    obtain ⟨hremovable, hname⟩ := removable_of_not_foreign hself hforeign
    refine ⟨hremovable, fun hnamed => ?_⟩
    rw [hname hnamed]
    exact hpresented
  · exact hspared.removed other hother hbefore

theorem stable_sorted {rest : List EtcdMember} {reuse : Option EtcdMember} :
    Stable (memberMachine bcrypt) (fun _ _ => True) (Spared server body start)
      (fun world => Sorted name world rest kept reuse ∧ Presented body body.name world) :=
  fun _ _ _ _ hboth =>
    ⟨⟨hboth.1.members, hboth.1.reused, hboth.1.foreign⟩, hboth.2.bindFirst⟩

def SortedOut (body : EtcdMemberRequest)
    (result : MemberResult (List EtcdMember × Option EtcdMember))
    (world : MemberWorld bcrypt.Hash) : Prop :=
  match result with
  | .ok (kept, reuse) => Sorted body.name world [] kept reuse ∧ Presented body body.name world
  | .error refused => refused = .removeFailed

theorem sortMembers_safe (hself : body.name ≠ server.selfNodeName) :
    ∀ (rest kept : List EtcdMember) (reuse : Option EtcdMember) (world : MemberWorld bcrypt.Hash),
      Spared server body start world → Sorted body.name world rest kept reuse →
      Presented body body.name world →
      RouteSafe server body start (SortedOut body)
        (sortMembers bcrypt body.name body.peerURL rest kept reuse) world := by
  intro rest
  induction rest with
  | nil =>
    intro kept reuse world hspared hsorted hpresented
    rw [sortMembers]
    exact Prog.safe_done stable_spared stable_sorted hspared ⟨hsorted, hpresented⟩
  | cons member rest ih =>
    intro kept reuse world hspared hsorted hpresented
    have hshift : kept ++ member :: rest = kept ++ [member] ++ rest := by simp
    have hmembers : world.cluster.members.Perm (kept ++ [member] ++ rest) :=
      hshift ▸ hsorted.members
    rw [sortMembers]
    split
    case isTrue hforeign =>
        refine ih _ _ _ hspared ⟨hmembers, ?_, ?_⟩ hpresented
        · exact fun learner hlearner => mem_append_left _ (hsorted.reused learner hlearner)
        · exact forall_mem_append.2
            ⟨hsorted.foreign, forall_mem_singleton.2 (.inr (name_ne_of_foreign hforeign))⟩
    rename_i hown
    rw [Bool.not_eq_true] at hown
    split
    case isTrue hreuse =>
        rw [Bool.and_eq_true, isNone_iff_eq_none] at hreuse
        refine ih _ _ _ hspared ⟨hmembers, ?_, ?_⟩ hpresented
        · intro learner hlearner
          rw [← some.inj hlearner]
          exact mem_append_right _ mem_cons_self
        · intro other hother
          rcases mem_append.1 hother with hkept | hnew
          · have hother := hsorted.foreign other hkept
            rw [hreuse.1] at hother
            exact .inr (hother.resolve_left nofun)
          · rw [mem_singleton.1 hnew]
            exact .inl rfl
    refine Prog.safe_call stable_spared stable_sorted hspared ⟨hsorted, hpresented⟩ ?_
    intro later hspared hlater outcome _
    have hmember : member ∈ later.cluster.members := by
      rw [hlater.1.members.mem_iff]
      exact mem_append_right _ mem_cons_self
    have hremoved := hspared.remove hlater.2 hself hmember hown
    cases hfate : outcome.fate with
    | done =>
      simp only [memberMachine, memberHandle, hfate]
      refine ⟨hremoved, ih _ _ _ hremoved ?_ hlater.2⟩
      exact ⟨remove_perm hlater.1.members, hlater.1.reused, hlater.1.foreign⟩
    | lost =>
      simp only [memberMachine, memberHandle, hfate]
      exact ⟨hremoved, fun _ _ _ => rfl⟩
    | failed =>
      simp only [memberMachine, memberHandle, hfate]
      exact ⟨hspared, fun _ _ _ => rfl⟩

theorem Spared.add {id : ℕ} (hspared : Spared server body start world)
    (hnew : id ∉ world.cluster.members.map EtcdMember.id) :
    Spared server body start { world with cluster := world.cluster.add id body.peerURL hnew } := by
  refine ⟨?_, ?_⟩
  · intro member hmember hgone
    exact hspared.removed member hmember fun hbefore => hgone (mem_append_left _ hbefore)
  · intro member hmember
    rcases mem_append.1 hmember with hbefore | hlearner
    · exact hspared.gained member hbefore
    · exact .inr ⟨id, mem_singleton.1 hlearner⟩

def Answered (body : EtcdMemberRequest) (response : EtcdMemberResponse)
    (world : MemberWorld bcrypt.Hash) : Prop :=
  ∃ listed : List EtcdMember, listed.Perm world.cluster.members ∧
    response.initialCluster = initialCluster listed response.memberID body.name ∧
    (∃ joiner ∈ listed, joiner.id = response.memberID) ∧
    ∀ member ∈ listed, member.id ≠ response.memberID → member.name ≠ body.name

def Placed (body : EtcdMemberRequest) (result : MemberResult EtcdMemberResponse)
    (world : MemberWorld bcrypt.Hash) : Prop :=
  match result with
  | .ok response => Answered body response world
  | .error refused => refused.membership = true

theorem stable_placed (result : MemberResult EtcdMemberResponse) :
    Stable (memberMachine bcrypt) (fun _ _ => True) (Spared server body start)
      (Placed body result) := by
  intro world change _ _ hplaced
  cases result with
  | ok response | error refused => exact hplaced

theorem answered_reuse {reuse : EtcdMember} {acknowledged : Str}
    (hsorted : Sorted body.name world [] kept (some reuse)) :
    Answered body ⟨reuse.id, initialCluster kept reuse.id body.name, acknowledged⟩ world := by
  have hmembers : world.cluster.members.Perm kept := by simpa using hsorted.members
  refine ⟨kept, hmembers.symm, rfl, ⟨reuse, hsorted.reused reuse rfl, rfl⟩, ?_⟩
  intro member hmember hid
  rcases hsorted.foreign member hmember with hreuse | hname
  · exact absurd (congrArg EtcdMember.id (some.inj hreuse).symm) hid
  · exact hname

theorem answered_add {id : ℕ} {acknowledged : Str} {outcome : MemberOutcome}
    (hsorted : Sorted body.name world [] kept none)
    (hnew : id ∉ world.cluster.members.map EtcdMember.id) :
    Answered body
      ⟨id, initialCluster (outcome.listed (world.cluster.add id body.peerURL hnew).members) id
        body.name, acknowledged⟩
      { world with cluster := world.cluster.add id body.peerURL hnew } := by
  have hlisted := outcome.listed_perm (world.cluster.add id body.peerURL hnew).members
  have hmembers : world.cluster.members.Perm kept := by simpa using hsorted.members
  refine ⟨_, hlisted, rfl, ⟨learner id body.peerURL, ?_, rfl⟩, ?_⟩
  · rw [hlisted.mem_iff]
    exact mem_append_right _ mem_cons_self
  · intro member hmember hid
    rw [hlisted.mem_iff] at hmember
    rcases mem_append.1 hmember with hold | hlearner
    · exact (hsorted.foreign member (hmembers.mem_iff.1 hold)).resolve_left nofun
    · rw [mem_singleton.1 hlearner] at hid
      exact absurd rfl hid

theorem placeMember_safe (hself : body.name ≠ server.selfNodeName) (acknowledged : Str)
    {listed : List EtcdMember} (hspared : Spared server body start world)
    (hlisted : listed.Perm world.cluster.members) (hpresented : Presented body body.name world) :
    RouteSafe server body start (Placed body)
      (placeMember bcrypt body.name body.peerURL acknowledged listed) world := by
  have hsorted : Sorted body.name world listed [] none :=
    ⟨hlisted.symm, nofun, fun member hmember => by cases hmember⟩
  apply Prog.Safe.bind hspared
    (sortMembers_safe hself listed [] none world hspared hsorted hpresented)
  intro result world hspared hresult
  match result, hresult with
  | .error refused, hrefused =>
    refine Prog.safe_done stable_spared (stable_placed _) hspared ?_
    rw [Placed, (hrefused : refused = .removeFailed)]
    rfl
  | .ok (kept, some reuse), hsorted =>
    exact Prog.safe_done stable_spared (stable_placed _) hspared (answered_reuse hsorted.1)
  | .ok (kept, none), hsorted =>
    simp only [askMember, Prog.ask_bind]
    refine Prog.safe_call stable_spared stable_sorted hspared hsorted ?_
    intro later hspared hlater outcome _
    simp only [memberMachine, memberHandle]
    split
    case isFalse =>
        exact ⟨hspared, Prog.safe_done stable_spared (stable_placed _) hspared rfl⟩
    rename_i hnew
    have hgrown := hspared.add hnew
    cases outcome.fate with
    | done =>
      exact ⟨hgrown, Prog.safe_done stable_spared (stable_placed _) hgrown
        (answered_add hlater.1 hnew)⟩
    | lost =>
      exact ⟨hgrown, Prog.safe_done stable_spared (stable_placed _) hgrown rfl⟩
    | failed =>
      exact ⟨hspared, Prog.safe_done stable_spared (stable_placed _) hspared rfl⟩

/-! ### The whole route -/

def Settled (body : EtcdMemberRequest) (start : MemberWorld bcrypt.Hash)
    (result : MemberResult EtcdMemberResponse) (world : MemberWorld bcrypt.Hash) : Prop :=
  match result with
  | .ok response => Answered body response world
  | .error refused => refused.membership = false → world.cluster = start.cluster

theorem safe_refused {refused : MemberRefusal} (hcluster : world.cluster = start.cluster) :
    RouteSafe server body start (Settled body start) (.done (.error refused)) world :=
  safe_quiet_done hcluster fun _ hlater _ => hlater

theorem releaseMemberMesh_safe {alloc : Option MeshAllocation}
    {kept : MemberWorld bcrypt.Hash → Prop}
    (hstable : Stable (memberMachine bcrypt) (fun _ _ => True) (Spared server body start) kept)
    (hspared : Spared server body start world) (hkept : kept world) :
    RouteSafe server body start (fun _ world => kept world) (releaseMemberMesh bcrypt name alloc)
      world := by
  match alloc with
  | none => exact Prog.safe_done stable_spared hstable hspared hkept
  | some alloc =>
    simp only [releaseMemberMesh]
    split
    · simp only [askMember, Prog.ask_bind]
      refine Prog.safe_call stable_spared hstable hspared hkept ?_
      intro later hspared hlater outcome _
      exact ⟨hspared, Prog.safe_done stable_spared hstable hspared hlater⟩
    · exact Prog.safe_done stable_spared hstable hspared hkept

theorem changeMembership_safe (hself : body.name ≠ server.selfNodeName)
    (alloc : Option MeshAllocation) (hcluster : world.cluster = start.cluster)
    (hpresented : Presented body body.name world) :
    RouteSafe server body start (Settled body start)
      (changeMembership bcrypt body.name body.peerURL alloc) world := by
  have hsame : Stable (memberMachine bcrypt) (fun _ _ => True) (Spared server body start)
      (fun world => world.cluster = start.cluster) := fun _ _ _ _ hkept => hkept
  simp only [changeMembership, askMember, Prog.ask_bind]
  refine safe_quiet (stable_presented body.name) hcluster hpresented ?_
  intro later hlater hpresented outcome
  have hspared : Spared server body start later := spared_of_cluster hlater
  have hfailed : RouteSafe server body start (Settled body start)
      (do releaseMemberMesh bcrypt body.name alloc; pure (.error .listFailed)) later := by
    apply Prog.Safe.bind hspared (releaseMemberMesh_safe hsame hspared hlater)
    exact fun _ _ _ hkept => safe_refused hkept
  cases hfate : outcome.fate with
  | failed | lost =>
    simp only [memberHandle, hfate]
    exact ⟨hlater, hfailed⟩
  | done =>
    simp only [memberHandle, hfate]
    refine ⟨hlater, ?_⟩
    apply Prog.Safe.bind hspared
      (placeMember_safe hself _ hspared (outcome.listed_perm _) hpresented)
    intro result world hspared hplaced
    cases result with
    | ok response =>
      exact Prog.safe_done stable_spared (stable_placed (.ok response)) hspared hplaced
    | error refused =>
      apply Prog.Safe.bind hspared
        (releaseMemberMesh_safe (stable_placed (.error refused)) hspared hplaced)
      intro _ _ _ hplaced _ _ _ hmembership
      rw [(hplaced : refused.membership = true)] at hmembership
      cases hmembership

theorem joinMember_safe (hself : body.name ≠ server.selfNodeName)
    (hcluster : world.cluster = start.cluster) (hpresented : Presented body body.name world) :
    RouteSafe server body start (Settled body start)
      (joinMember bcrypt body.name body.peerURL body.meshClaim) world := by
  simp only [joinMember]
  cases body.meshClaim with
  | none => exact changeMembership_safe hself none hcluster hpresented
  | some claim =>
    simp only [reserveMemberMesh, askMember, Prog.ask_bind, Prog.call_bind]
    refine safe_quiet (stable_presented body.name) hcluster hpresented ?_
    intro later hlater hpresented outcome
    refine ⟨hlater, ?_⟩
    simp only [memberHandle]
    cases outcome.reserved with
    | ok alloc => exact changeMembership_safe hself (some alloc) hlater hpresented
    | error failure => exact safe_refused hlater

theorem authorizeServerRoute_safe (request : MemberHttpRequest)
    (hcluster : world.cluster = start.cluster) :
    RouteSafe server body start (fun _ world => world.cluster = start.cluster)
      (authorizeServerRoute bcrypt request) world := by
  have hdone : ∀ (result : MemberResult Unit) (world : MemberWorld bcrypt.Hash),
      world.cluster = start.cluster →
      RouteSafe server body start (fun _ world => world.cluster = start.cluster)
        (.done result) world :=
    fun result world hsame => safe_quiet_done hsame fun _ hlater => hlater
  simp only [authorizeServerRoute]
  split
  · exact hdone _ _ hcluster
  simp only [askMember, Prog.ask_bind]
  refine safe_quiet stable_true hcluster trivial ?_
  intro later hlater _ outcome
  refine ⟨hlater, ?_⟩
  split
  · exact hdone _ _ hlater
  split
  · exact hdone _ _ hlater
  refine safe_quiet stable_true hlater trivial ?_
  intro last hlast _ outcome
  refine ⟨hlast, ?_⟩
  split
  · exact hdone _ _ hlast
  · exact hdone _ _ hlast

theorem canonicalPeerUrl_eq {raw canon : Str} (hcanon : canonicalPeerUrl net raw = some canon) :
    canon = raw := by
  simp only [canonicalPeerUrl, bind_eq_bind, bind_eq_some_iff] at hcanon
  obtain ⟨url, -, hcanon⟩ := hcanon
  split_ifs at hcanon
  obtain ⟨addr, -, hcanon⟩ := bind_eq_some_iff.1 hcanon
  split_ifs at hcanon
  · obtain ⟨port, -, hcanon⟩ := bind_eq_some_iff.1 hcanon
    split_ifs at hcanon with hport hsame
    rw [← some.inj hcanon]
    exact not_not.1 hsame

theorem checkMemberRequest_spec {peerURL : Str}
    (hcheck : checkMemberRequest net server body = .ok (name, peerURL)) :
    name = body.name ∧ peerURL = body.peerURL ∧ body.name ≠ server.selfNodeName := by
  simp only [checkMemberRequest] at hcheck
  split at hcheck
  · cases hcheck
  rename_i requested hname
  split at hcheck
  · cases hcheck
  rename_i canon hcanon
  have hpair : (requested, canon) = (name, peerURL) := by
    split at hcheck
    · exact Except.ok.inj hcheck
    split at hcheck
    · cases hcheck
    · exact Except.ok.inj hcheck
  obtain ⟨rfl, rfl⟩ := Prod.mk.inj hpair
  simp only [memberName] at hname
  split at hname
  · cases hname
  rename_i canon' hcanon'
  split_ifs at hname with hspelling hself
  obtain rfl := Except.ok.inj hname
  rw [not_not] at hspelling
  refine ⟨hspelling, canonicalPeerUrl_eq hcanon, ?_⟩
  intro hsame
  apply hself
  have hnonempty := server.self_canonical.ne_nil
  simp [selfNameClaimed, hnonempty, hspelling.trans hsame]

theorem handleEtcdMember_safe {salt : bcrypt.Salt} {request : MemberHttpRequest}
    (hbody : request.body = some body) (hcluster : world.cluster = start.cluster) :
    RouteSafe server body start (Settled body start)
      (handleEtcdMember net bcrypt salt server request) world := by
  apply Prog.Safe.bind (spared_of_cluster hcluster) (authorizeServerRoute_safe request hcluster)
  intro result world _ hcluster
  cases result with
  | error refused => exact safe_refused hcluster
  | ok value =>
    simp only [hbody]
    cases hcheck : checkMemberRequest net server body with
    | error refused => exact safe_refused hcluster
    | ok checked =>
      obtain ⟨name, peerURL⟩ := checked
      obtain ⟨rfl, rfl, hself⟩ := checkMemberRequest_spec hcheck
      apply Prog.Safe.bind (spared_of_cluster hcluster)
        (bindMemberName_safe salt body.name hcluster)
      intro result world _ hchecked
      cases result with
      | error refused => exact safe_refused hchecked.1
      | ok value => exact joinMember_safe hself hchecked.1 (hchecked.2 rfl)

end Route

/-- What a request with the given body may have done at some moment:

* what has gone was registered under its name or was unstarted at its peer URL, and
  was not the serving server's own; what has come is a learner at that URL;
* with a password it has removed no member whose name is bound to another;
* refused ahead of the membership step, it has changed nothing;
* its answer lists the peer URLs of every member once, the joiner's alone under its
  name, and no two members under one name unless two have one or some name has the
  form invented for unstarted ones. -/
structure TouchesOnlyOwn {isDns1123Subdomain : Str → Bool}
    (server : MemberServer isDns1123Subdomain) (body : EtcdMemberRequest)
    (start finish : MemberWorld bcrypt.Hash)
    (program : MemberProg bcrypt.Hash (MemberResult EtcdMemberResponse)) : Prop where
  removed : ∀ member ∈ start.cluster.members, member ∉ finish.cluster.members →
    Removable server body member
  gained : ∀ member ∈ finish.cluster.members,
    member ∈ start.cluster.members ∨ ∃ id, member = learner id body.peerURL
  bound : body.nodePassword ≠ [] → ∀ member ∈ start.cluster.members, member.name ≠ [] →
    ∀ hash, finish.secrets (member.name ++ nodePasswordSecretSuffix) = some hash →
      bcrypt.compare hash body.nodePassword = false → member ∈ finish.cluster.members
  refused : ∀ refused : MemberRefusal, program = .done (.error refused) →
    refused.membership = false → finish.cluster = start.cluster
  answered : ∀ response : EtcdMemberResponse, program = .done (.ok response) →
    ∃ listed : List EtcdMember, listed.Perm finish.cluster.members ∧
      response.initialCluster = initialCluster listed response.memberID body.name ∧
      (clusterEntries listed response.memberID body.name).map Prod.snd =
        listed.flatMap EtcdMember.peerURLs ∧
      (∃ joiner ∈ listed, joiner.id = response.memberID ∧
        listedName response.memberID body.name joiner = body.name) ∧
      (∀ member ∈ listed, member.id ≠ response.memberID → member.name ≠ body.name) ∧
      ((∀ member ∈ listed, ∀ other ∈ listed, member.name = other.name →
          member.name = [] ∨ member = other) →
        (∀ member ∈ listed, ∀ name ∈ body.name :: listed.map EtcdMember.name,
          name ≠ "unstarted-".toList ++ hex member.id) →
        ∀ member ∈ listed, ∀ other ∈ listed,
          listedName response.memberID body.name member =
            listedName response.memberID body.name other → member = other)

theorem touchesOnlyOwn_of_safe {isDns1123Subdomain : Str → Bool}
    {server : MemberServer isDns1123Subdomain} {body : EtcdMemberRequest}
    {start finish : MemberWorld bcrypt.Hash}
    {program : MemberProg bcrypt.Hash (MemberResult EtcdMemberResponse)}
    (hspared : Spared server body start finish)
    (hrest : RouteSafe server body start (Settled body start) program finish) :
    TouchesOnlyOwn server body start finish program where
  removed := fun member hmember hgone => (hspared.removed member hmember hgone).1
  gained := hspared.gained
  bound := by
    intro hpassword member hmember hnamed hash hbound hcompare
    by_contra hgone
    obtain ⟨bound, hfound, haccepted⟩ :=
      (hspared.removed member hmember hgone).2 hnamed hpassword
    rw [hbound] at hfound
    rw [some.inj hfound, haccepted] at hcompare
    cases hcompare
  refused := by
    intro refused hprogram
    subst hprogram
    exact hrest.result hspared
  answered := by
    intro response hprogram
    subst hprogram
    obtain ⟨listed, hperm, hcluster, ⟨joiner, hjoiner, hid⟩, hnames⟩ :
      Answered body response finish := hrest.result hspared
    refine ⟨listed, hperm, hcluster, clusterEntries_urls _ _ _,
      ⟨joiner, hjoiner, hid, by rw [listedName, if_pos hid]⟩, hnames, ?_⟩
    intro hdistinct hinvented member hmember other hother hsame
    have hids : (listed.map EtcdMember.id).Nodup :=
      (hperm.map EtcdMember.id).nodup_iff.2 finish.cluster.ids
    exact listedName_injective hids hnames hdistinct hinvented hmember hother hsame

theorem handleEtcdMember_undecodable {isDns1123Subdomain : Str → Bool} {net : NetText}
    {salt : bcrypt.Salt} {server : MemberServer isDns1123Subdomain} {request : MemberHttpRequest}
    (hbody : request.body = none) :
    (handleEtcdMember net bcrypt salt server request).All (fun _ _ => True)
      (fun call => ∀ outcome world, (memberHandle call outcome world).2.cluster = world.cluster)
      (fun _ => True) := by
  have hfront : (authorizeServerRoute bcrypt request).All (fun _ _ => True)
      (fun call => ∀ outcome world, (memberHandle call outcome world).2.cluster = world.cluster)
      (fun _ => True) := by
    simp only [authorizeServerRoute]
    split
    · trivial
    simp only [askMember, Prog.ask_bind]
    refine ⟨fun _ _ => rfl, fun allowed _ => ?_⟩
    cases (allowed : Bool) with
    | false => trivial
    | true =>
      simp only [Bool.true_eq_false, if_false]
      split
      · trivial
      · refine ⟨fun _ _ => rfl, fun authorized _ => ?_⟩
        cases (authorized : Bool) <;> trivial
  apply hfront.bind
  intro result _
  cases result with
  | error refused => trivial
  | ok value =>
    simp only [hbody]
    trivial

/-- Whatever becomes of the calls and whatever other servers bind meanwhile, at
every moment of a request and after it. -/
theorem member_route_touches_only_own (isDns1123Subdomain : Str → Bool) (net : NetText)
    (bcrypt : Bcrypt) (salt : bcrypt.Salt) (server : MemberServer isDns1123Subdomain)
    (request : MemberHttpRequest) (start : MemberWorld bcrypt.Hash)
    (events : List (Event (Str × bcrypt.Hash) MemberOutcome)) :
    let moment := play (memberMachine bcrypt)
      (handleEtcdMember net bcrypt salt server request) start events
    (request.body = none → moment.2.cluster = start.cluster) ∧
      ∀ body, request.body = some body → TouchesOnlyOwn server body start moment.2 moment.1 := by
  have hevents : EventsMeet (memberMachine bcrypt) (fun _ _ => True) (fun _ _ _ => True)
      (handleEtcdMember net bcrypt salt server request) start events :=
    eventsMeet_of_forall _ _ _ (fun _ _ => trivial) (fun _ _ _ => trivial) _ _ _
  constructor
  · intro hbody
    have hstable : Stable (memberMachine bcrypt) (fun _ _ => True) (fun _ => True)
        (fun world => world.cluster = start.cluster) := fun _ _ _ _ hsame => hsame
    have hsafe : (handleEtcdMember net bcrypt salt server request).Safe (memberMachine bcrypt)
        (fun _ _ => True) (fun _ _ _ => True) (fun world => world.cluster = start.cluster)
        (fun _ _ => True) start :=
      (handleEtcdMember_undecodable hbody).safe (fun _ _ _ _ _ => trivial)
        (fun world call outcome hsame hquiet _ => (hquiet outcome world).trans hsame) start
    exact (hsafe.play hstable rfl hevents).1
  · intro body hbody
    have hsafe : RouteSafe server body start (Settled body start)
        (handleEtcdMember net bcrypt salt server request) start := handleEtcdMember_safe hbody rfl
    have hplay := hsafe.play stable_spared (spared_of_cluster rfl) hevents
    exact touchesOnlyOwn_of_safe hplay.1 hplay.2

/-! ### Requests that show what the route does not promise -/

def plainBcrypt : Bcrypt where
  Hash := Str
  Salt := Unit
  generate := fun password _ => some password
  compare := fun hash password => hash == password
  compare_iff := by
    intro password salt hash other hgenerate
    rw [← some.inj hgenerate, beq_iff_eq]
    exact eq_comm

def oneUrlNet : NetText where
  urlParse := fun raw =>
    if raw = "https://10.0.0.2:2380".toList then
      some ⟨"https".toList, false, [], [], [], [], "10.0.0.2".toList, "2380".toList⟩
    else none
  parseAddr := fun text =>
    if text = "10.0.0.2".toList then some ⟨[], false, false, text⟩ else none
  splitHostPort := fun _ => none
  atoi := fun text => if text = "2380".toList then some 2380 else none

def serverA : MemberServer oneLabel := ⟨"a".toList, rfl, false⟩

def memberRequest (name : Str) : MemberHttpRequest :=
  ⟨true, "token".toList, some ⟨name, "https://10.0.0.2:2380".toList, [], none⟩⟩

def started (id : ℕ) (name : String) : EtcdMember :=
  ⟨id, name.toList, ["https://peer".toList ++ hex id], ["https://client".toList], false⟩

def goesWell : Event (Str × Str) MemberOutcome :=
  .answer ⟨.done, true, .error .failed, 9, id⟩

/-- A server `a` alone. -/
def clusterA : MemberWorld Str := ⟨⟨[started 1 "a"], by decide⟩, fun _ => none⟩

theorem member_route_touches_only_own_at_join :
    TouchesOnlyOwn serverA ⟨"b".toList, "https://10.0.0.2:2380".toList, [], none⟩ clusterA
      (play (memberMachine plainBcrypt)
        (handleEtcdMember oneUrlNet plainBcrypt () serverA (memberRequest "b".toList)) clusterA
        (List.replicate 4 goesWell)).2
      (play (memberMachine plainBcrypt)
        (handleEtcdMember oneUrlNet plainBcrypt () serverA (memberRequest "b".toList)) clusterA
        (List.replicate 4 goesWell)).1 :=
  (member_route_touches_only_own oneLabel oneUrlNet plainBcrypt () serverA
    (memberRequest "b".toList)
    clusterA (List.replicate 4 goesWell)).2 _ rfl

/-- A request without a password removes a started member of a bound name, and
answers list two members under one name. -/
theorem member_route_compat_and_collision :
    (∃ start finish : MemberWorld Str,
      start.secrets ("b".toList ++ nodePasswordSecretSuffix) = some "secret".toList ∧
      plainBcrypt.compare "secret".toList [] = false ∧ started 2 "b" ∈ start.cluster.members ∧
      (play (memberMachine plainBcrypt)
        (handleEtcdMember oneUrlNet plainBcrypt () serverA (memberRequest "b".toList)) start
        (List.replicate 4 goesWell)).2 = finish ∧ started 2 "b" ∉ finish.cluster.members) ∧
    (∃ start : MemberWorld Str, ∃ response : EtcdMemberResponse,
      (play (memberMachine plainBcrypt)
        (handleEtcdMember oneUrlNet plainBcrypt () serverA (memberRequest "unstarted-5".toList))
          start
        (List.replicate 4 goesWell)).1 = .done (.ok response) ∧
      response.initialCluster =
        ("a=https://peer1,c=https://peer3,c=https://peer4,unstarted-5=https://peer5," ++
          "unstarted-5=https://10.0.0.2:2380").toList) := by
  constructor
  · refine ⟨⟨⟨[started 1 "a", started 2 "b"], by decide⟩, fun secret =>
      if secret = "b".toList ++ nodePasswordSecretSuffix then some "secret".toList else none⟩, _,
      by decide, by decide, by decide, rfl, ?_⟩
    decide
  · refine ⟨⟨⟨[started 1 "a", started 3 "c", started 4 "c",
      ⟨5, [], ["https://peer5".toList], [], true⟩], by decide⟩, fun _ => none⟩, _, rfl, ?_⟩
    decide

end K3sm.Bootstrap
