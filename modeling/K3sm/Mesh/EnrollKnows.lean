import K3sm.Core.Knowledge
import K3sm.Mesh.Enroll

/-!
# What mesh operations act on

An operation writes a `MeshPeer` because it was told that the range's claim is the node's, and
deletes a claim because it was told that the node has no peer at the range.  A server's claim
replaces the server row it finds because its list showed none that the claim would move or rekey.
-/

namespace K3sm.Mesh

open K3sm.Core

section Facts

variable {Name Key : Type}

def Fits (write : PeerWrite) (range : ℕ) (key : Key) (row : MeshRow Key) : Prop :=
  row.range = range ∧ (write = .memberRoute → row.publicKey = key)

instance [DecidableEq Key] (write : PeerWrite) (range : ℕ) (key : Key) (row : MeshRow Key) :
    Decidable (Fits write range key row) :=
  inferInstanceAs (Decidable (_ ∧ _))

def Kept (write : PeerWrite) (old new : MeshRow Key) : Prop :=
  write = .worker ∨ Fits write new.range new.publicKey old

instance [DecidableEq Key] (write : PeerWrite) (old new : MeshRow Key) :
    Decidable (Kept write old new) :=
  inferInstanceAs (Decidable (_ ∨ _))

/-- What an operation can have been told: of node ranges, of claims and their holders, of
peers that are not there, of server rows, and which object a version is of. -/
inductive MeshFact (Name Key : Type)
  | ranged (range : ℕ)
  | held (range : ℕ) (name : Name)
  | vacant (name : Name) (range : ℕ)
  | steady (name : Name) (write : PeerWrite) (range : ℕ) (key : Key)
  | claimSeen (range : ℕ) (holder : Name) (version : ℕ)
  | peerSeen (name : Name) (row : MeshRow Key) (version : ℕ)

def MeshFact.lasting : Set (MeshFact Name Key)
  | .claimSeen _ _ _ | .peerSeen _ _ _ => True
  | _ => False

def MeshFact.ownership : Set (MeshFact Name Key)
  | .steady _ _ _ _ => False
  | _ => True

def MeshFact.identity : Set (MeshFact Name Key)
  | .steady _ _ _ _ | .claimSeen _ _ _ | .peerSeen _ _ _ => True
  | _ => False

variable (ranges : ℕ)

def MeshFact.Holds [DecidableEq Name] (world : MeshWorld Name Key) : MeshFact Name Key → Prop
  | .ranged range => range < ranges
  | .held range name => ∃ version, world.claims.get range = some (name, version)
  | .vacant name range =>
    ∀ row version, world.peers.get name = some (row, version) → row.range ≠ range
  | .steady name write range key =>
    ∀ row version, world.peers.get name = some (row, version) → isServerPeer row = true →
      Fits write range key row
  | .claimSeen range holder version => world.claims.Seen range holder version
  | .peerSeen name row version => world.peers.Seen name row version

/-- What entitles the name to a peer at the range; no node range needs nothing. -/
def entitles (name : Name) (range : ℕ) : MeshFact Name Key :=
  if range < ranges then .held range name else .ranged range

def meshUses : MeshRequest Name Key → Set (MeshFact Name Key)
  | .createPeer name row => {entitles ranges name row.range}
  | .updatePeer name row current version write =>
    {fact | fact = entitles ranges name row.range ∨ fact = .peerSeen name current version ∨
      ¬ Kept write current row ∧ fact = .steady name write row.range row.publicKey}
  | .deleteClaim range holder version => {.vacant holder range, .claimSeen range holder version}
  | _ => ∅

def listTeaches (existing : List (Name × MeshRow Key)) : Set (MeshFact Name Key)
  | .ranged range => ∃ peer ∈ existing, peer.2.range = range
  | .vacant name _ => ∀ peer ∈ existing, peer.1 ≠ name
  | .steady name write range key =>
    (∀ peer ∈ existing, peer.1 ≠ name) ∨
      ∃ peer ∈ existing, peer.1 = name ∧ Fits write range key peer.2
  | _ => False

def meshLearns : (request : MeshRequest Name Key) → MeshAnswer request → Set (MeshFact Name Key)
  | .listPeers, some existing => listTeaches existing
  | .getPeer name, .found row version => {.peerSeen name row version}
  | .getPeer name, .absent => Set.range (.vacant name)
  | .deletePeer name _, .done => Set.range (.vacant name)
  | .deletePeer name _, .absent => Set.range (.vacant name)
  | .createClaim range holder, .done => {.held range holder, .vacant holder range}
  | .getClaim range, .found holder version =>
    {.held range holder, .claimSeen range holder version}
  | .listClaims, some claims =>
    {fact | ∃ claim ∈ claims, fact = .claimSeen claim.1 claim.2.1 claim.2.2}
  | _, _ => ∅

def meshLawful : MeshRequest Name Key → Prop
  | .updatePeer _ _ current _ write => refusesOverwrite write current = false
  | _ => True

def meshKnowledge : Knowledge (MeshRequest Name Key) MeshAnswer (MeshFact Name Key) where
  lawful := meshLawful
  uses := meshUses ranges
  learns := meshLearns

end Facts

section Operations

variable {Name Key : Type} {ranges : ℕ}
variable {held : Set (MeshFact Name Key)} {name : Name} {range : ℕ}

abbrev MeshKnows {Result : Type} (ranges : ℕ) (post : Result → Set (MeshFact Name Key) → Prop)
    (program : MeshProg Name Key Result) (held : Set (MeshFact Name Key)) : Prop :=
  program.Knows (meshKnowledge ranges) post held

theorem knows_free_call {Result : Type} {post : Result → Set (MeshFact Name Key) → Prop}
    {request : MeshRequest Name Key} {next : MeshAnswer request → MeshProg Name Key Result}
    (hlawful : meshLawful request) (huses : meshUses ranges request = ∅)
    (hnext : ∀ answer, MeshKnows ranges post (next answer) (held ∪ meshLearns request answer)) :
    MeshKnows ranges post (Prog.call request next) held :=
  ⟨hlawful, huses.trans_subset (Set.empty_subset _), hnext⟩

def Claimed (range : ℕ) (name : Name) (result : Option (Name × Bool))
    (held : Set (MeshFact Name Key)) : Prop :=
  ∀ holder created, result = some (holder, created) →
    .held range holder ∈ held ∧ (created = true → holder = name ∧ .vacant name range ∈ held)

theorem claimRange_knows (tries : ℕ) :
    MeshKnows ranges (Claimed range name) (claimRange range name tries) held := by
  induction tries generalizing held with
  | zero => exact nofun
  | succ tries ih =>
    simp only [claimRange, askCreateClaim, askGetClaim, Prog.ask_bind]
    refine knows_free_call trivial rfl fun answer => ?_
    cases answer with
    | done =>
      rintro holder created ⟨⟩
      exact ⟨.inr (.inl rfl), fun _ => ⟨rfl, .inr (.inr rfl)⟩⟩
    | taken =>
      refine knows_free_call trivial rfl fun answer => ?_
      cases answer with
      | found holder version =>
        rintro _ _ ⟨⟩
        exact ⟨.inr (.inl rfl), nofun⟩
      | absent => exact ih
      | failed => exact nofun
    | absent | conflict | failed => exact nofun

abbrev MeshSound {Result : Type} (ranges : ℕ) (program : MeshProg Name Key Result)
    (held : Set (MeshFact Name Key)) : Prop :=
  MeshKnows ranges (fun _ _ => True) program held

variable [DecidableEq Name]

theorem releaseClaim_knows (hvacant : .vacant name range ∈ held) :
    MeshSound ranges (releaseClaim range name : MeshProg Name Key Bool) held := by
  simp only [releaseClaim, askGetClaim, askDeleteClaim, Prog.ask_bind]
  refine knows_free_call trivial rfl fun answer => ?_
  cases answer with
  | absent | failed => trivial
  | found holder version =>
    dsimp only
    split
    case isTrue => trivial
    rename_i hholder
    rw [not_not.1 hholder]
    refine ⟨trivial, ?_, fun answer => ?_⟩
    · rintro fact (rfl | rfl)
      · exact .inl hvacant
      · exact .inr (.inr rfl)
    · cases answer <;> trivial

theorem claimLowest_knows (indices : List ℕ) :
    MeshKnows ranges
      (fun result held => ∀ range, result = some range → range ∈ indices ∧ .held range name ∈ held)
      (claimLowest name indices : MeshProg Name Key (Option ℕ)) held := by
  induction indices generalizing held with
  | nil => exact nofun
  | cons index rest ih =>
    refine (claimRange_knows 3).bind fun result later hclaimed _ => ?_
    cases result with
    | none => exact nofun
    | some won =>
      dsimp only
      split
      case isTrue hholder =>
        rintro range ⟨⟩
        exact ⟨List.mem_cons_self, hholder ▸ (hclaimed won.1 won.2 rfl).1⟩
      case isFalse =>
        refine ih.mono fun result held hlater range hresult => ?_
        exact (hlater range hresult).imp_left (List.mem_cons_of_mem _)

theorem claimLowestFreeIndex_knows (existing : List (Name × MeshRow Key)) :
    MeshKnows ranges
      (fun result held => ∀ range, result = some range → entitles ranges name range ∈ held)
      (claimLowestFreeIndex ranges name existing) held := by
  refine (claimLowest_knows _).mono fun result held hclaimed range hresult => ?_
  obtain ⟨hmem, hheld⟩ := hclaimed range hresult
  have hrange : range < ranges := List.mem_range.1 (List.mem_of_mem_filter hmem)
  rw [entitles, if_pos hrange]
  exact hheld

variable {existing : List (Name × MeshRow Key)} {request : MeshEnrollRequest Key}
  {write : PeerWrite} {id : ℕ}

omit [DecidableEq Name] in
theorem writePeer_knows {row : MeshRow Key} (hentitled : entitles ranges name row.range ∈ held)
    (hsteady : write ≠ .worker → .steady name write row.range row.publicKey ∈ held) :
    MeshSound ranges (writePeer name row write) held := by
  simp only [writePeer, askCreatePeer, askGetPeer, askUpdatePeer, Prog.ask_bind]
  refine ⟨trivial, ?_, fun answer => ?_⟩
  · rintro fact rfl
    exact hentitled
  cases answer with
  | taken =>
    refine knows_free_call trivial rfl fun answer => ?_
    cases answer with
    | found current version =>
      dsimp only
      split
      case isTrue => trivial
      rename_i hreplaced
      refine ⟨Bool.eq_false_iff.2 hreplaced, ?_, fun answer => ?_⟩
      · rintro fact (rfl | rfl | ⟨hmoved, rfl⟩)
        · exact .inl (.inl hentitled)
        · exact .inr rfl
        · exact .inl (.inl (hsteady fun hworker => hmoved (.inl hworker)))
      · cases answer <;> trivial
    | absent | failed => trivial
  | done | absent | conflict | failed => trivial

omit [DecidableEq Name] in
theorem enrollWrite_knows {own : Option (MeshRow Key)}
    (hentitled : entitles ranges name range ∈ held) :
    MeshSound ranges (enrollWrite name request id range own) held := by
  simp only [enrollWrite, askListPeers, Prog.ask_bind]
  split
  case isTrue => trivial
  refine (writePeer_knows hentitled nofun).bind fun written later _ _ => ?_
  cases written with
  | false => trivial
  | true =>
    refine knows_free_call trivial rfl fun answer => ?_
    cases answer <;> trivial

theorem mem_of_ownRow {own : MeshRow Key} (hown : ownRow name existing = some own) :
    (name, own) ∈ existing := by
  obtain ⟨peer, hlast, rfl⟩ := Option.map_eq_some_iff.1 hown
  obtain ⟨hmem, hname⟩ := List.mem_filter.1 (List.mem_of_getLast? hlast)
  rw [← of_decide_eq_true hname]
  exact hmem

theorem ne_of_ownRow_none (hown : ownRow name existing = none) :
    ∀ peer ∈ existing, peer.1 ≠ name := by
  have hempty := List.getLast?_eq_none_iff.1 (Option.map_eq_none_iff.1 hown)
  intro peer hpeer hname
  have hmem : peer ∈ existing.filter fun peer => decide (peer.1 = name) :=
    List.mem_filter.2 ⟨hpeer, decide_eq_true hname⟩
  rw [hempty] at hmem
  exact absurd hmem List.not_mem_nil

theorem enroll_knows : MeshSound ranges (enroll ranges name request id) held := by
  simp only [enroll, askListPeers, Prog.ask_bind]
  refine knows_free_call trivial rfl fun answer => ?_
  cases answer with
  | none => trivial
  | some existing =>
    dsimp only
    split
    case h_2 =>
      refine (claimLowestFreeIndex_knows existing).bind fun result later hclaimed _ => ?_
      cases result with
      | none => trivial
      | some range => exact enrollWrite_knows (hclaimed range rfl)
    rename_i own hown
    split_ifs with hserver hrange
    · trivial
    · apply enrollWrite_knows
      rw [entitles, if_neg (not_lt.2 hrange)]
      exact .inr ⟨_, mem_of_ownRow hown, rfl⟩
    refine (claimRange_knows 3).bind fun result later hclaimed _ => ?_
    cases result with
    | none => trivial
    | some won =>
      dsimp only
      split
      case isTrue => trivial
      rename_i hholder
      apply enrollWrite_knows
      rw [entitles, if_pos (not_le.1 hrange), ← not_not.1 hholder]
      exact (hclaimed won.1 won.2 rfl).1

theorem giveBack_knows {created : Bool} (hvacant : created = true → .vacant name range ∈ held) :
    MeshSound ranges (giveBack range name created : MeshProg Name Key MeshEnd) held := by
  unfold giveBack
  cases created with
  | false => trivial
  | true => exact (releaseClaim_knows (hvacant rfl)).bind fun _ _ _ _ => trivial

theorem serverWrite_knows {own : Option (MeshRow Key)} {created : Bool}
    (hentitled : entitles ranges name range ∈ held)
    (hsteady : .steady name write range request.publicKey ∈ held)
    (hvacant : created = true → .vacant name range ∈ held) :
    MeshSound ranges (serverWrite name range request write id own created) held := by
  unfold serverWrite
  split
  case isTrue => exact giveBack_knows hvacant
  refine (writePeer_knows hentitled fun _ => hsteady).bind fun written later _ hlater => ?_
  cases written with
  | true => trivial
  | false => exact giveBack_knows fun hcreated => hlater (hvacant hcreated)

theorem steady_of_listed [DecidableEq Key]
    (hallowed : ¬ (ownRow name existing).any (refusesClaim write request range) = true) :
    .steady name write range request.publicKey ∈ listTeaches existing := by
  cases hown : ownRow name existing with
  | none => exact .inl (ne_of_ownRow_none hown)
  | some own =>
    refine .inr ⟨(name, own), mem_of_ownRow hown, rfl, ?_⟩
    rw [hown] at hallowed
    simp only [Option.any_some, refusesClaim, Bool.or_eq_true, decide_eq_true_eq, not_or,
      not_and, not_not] at hallowed
    exact ⟨hallowed.1.2, hallowed.2⟩

variable [DecidableEq Key]

theorem claimServerRange_knows :
    MeshSound ranges (claimServerRange ranges name range request write id) held := by
  simp only [claimServerRange, askListPeers, Prog.ask_bind]
  split
  case isTrue => trivial
  rename_i hrange
  refine knows_free_call trivial rfl fun answer => ?_
  cases answer with
  | none => trivial
  | some existing =>
    dsimp only
    split_ifs with _ hallowed
    · trivial
    · trivial
    refine (claimRange_knows 3).bind fun result later hclaimed hlater => ?_
    cases result with
    | none => trivial
    | some won =>
      dsimp only
      split
      case isTrue => trivial
      rename_i hholder
      obtain ⟨hheld, hfresh⟩ := hclaimed won.1 won.2 rfl
      apply serverWrite_knows
      · rw [entitles, if_pos (not_le.1 hrange), ← not_not.1 hholder]
        exact hheld
      · exact hlater (.inr (steady_of_listed hallowed))
      · exact fun hcreated => (hfresh hcreated).2

theorem enrollSelf_knows : MeshSound ranges (enrollSelf ranges name range request id) held := by
  unfold enrollSelf
  refine claimServerRange_knows.bind fun ending later _ _ => ?_
  simp only [askListPeers, Prog.ask_bind]
  split
  case isFalse => trivial
  refine knows_free_call trivial rfl fun answer => ?_
  cases answer <;> trivial

omit [DecidableEq Key]

theorem releaseAllocatedClaim_knows {alloc : Allocation}
    (hvacant : ∀ range, .vacant name range ∈ held) :
    MeshSound ranges (releaseAllocatedClaim ranges name alloc : MeshProg Name Key MeshEnd)
      held := by
  unfold releaseAllocatedClaim
  split
  case h_1 => trivial
  rename_i range _
  split
  case isTrue => trivial
  case isFalse => exact (releaseClaim_knows (hvacant range)).bind fun _ _ _ _ => trivial

theorem releaseAllocation_knows {alloc : Allocation} :
    MeshSound ranges (releaseAllocation ranges name alloc : MeshProg Name Key MeshEnd) held := by
  simp only [releaseAllocation, askGetPeer, askDeletePeer, askListPeers, Prog.ask_bind]
  split
  case isTrue => trivial
  refine knows_free_call trivial rfl fun answer => ?_
  cases answer with
  | absent => exact releaseAllocatedClaim_knows fun range => .inr ⟨range, rfl⟩
  | failed => trivial
  | found current version =>
    dsimp only
    split
    case isTrue => trivial
    refine knows_free_call trivial rfl fun answer => ?_
    cases answer with
    | done =>
      refine knows_free_call trivial rfl fun answer => ?_
      cases answer with
      | none => trivial
      | some peers =>
        dsimp only
        split
        case isTrue => trivial
        exact releaseAllocatedClaim_knows fun range =>
          .inl (.inr ⟨range, rfl⟩)
    | taken | absent | conflict | failed => trivial

theorem deleteClaims_knows {claims : List (ℕ × Name × ℕ)}
    (hvacant : ∀ range, .vacant name range ∈ held)
    (hseen : ∀ claim ∈ claims, .claimSeen claim.1 claim.2.1 claim.2.2 ∈ held) :
    MeshSound ranges (deleteClaims name claims : MeshProg Name Key MeshEnd) held := by
  induction claims generalizing held with
  | nil => trivial
  | cons claim rest ih =>
    obtain ⟨range, holder, version⟩ := claim
    have hrest : ∀ claim ∈ rest, .claimSeen claim.1 claim.2.1 claim.2.2 ∈ held :=
      fun claim hclaim => hseen claim (List.mem_cons_of_mem _ hclaim)
    simp only [deleteClaims, askDeleteClaim, Prog.ask_bind]
    split
    case isTrue => exact ih hvacant hrest
    rename_i hholder
    refine ⟨trivial, ?_, fun answer => ?_⟩
    · rintro fact (rfl | rfl)
      · exact not_not.1 hholder ▸ hvacant range
      · exact hseen _ List.mem_cons_self
    · have hlater : ∀ more, MeshSound ranges (deleteClaims name rest) (held ∪ more) :=
        fun more => ih (fun range => .inl (hvacant range))
          fun claim hclaim => .inl (hrest claim hclaim)
      cases answer with
      | done | absent | conflict => exact hlater _
      | taken | failed => trivial

theorem releaseClaimsHeldBy_knows (hvacant : ∀ range, .vacant name range ∈ held) :
    MeshSound ranges (releaseClaimsHeldBy name : MeshProg Name Key MeshEnd) held := by
  simp only [releaseClaimsHeldBy, askListClaims, Prog.ask_bind]
  refine knows_free_call trivial rfl fun answer => ?_
  cases answer with
  | none => trivial
  | some claims =>
    exact deleteClaims_knows (fun range => .inl (hvacant range))
      fun claim hclaim => .inr ⟨claim, hclaim, rfl⟩

theorem deregister_knows : MeshSound ranges (deregister name : MeshProg Name Key MeshEnd) held := by
  simp only [deregister, askDeletePeer, Prog.ask_bind]
  refine knows_free_call trivial rfl fun answer => ?_
  cases answer with
  | done | absent => exact releaseClaimsHeldBy_knows fun range => .inr ⟨range, rfl⟩
  | taken | conflict | failed => trivial

omit [DecidableEq Name] in
theorem backfillEach_knows (existing : List (Name × MeshRow Key)) (order : List ℕ) :
    MeshSound ranges (backfillEach ranges existing order) held := by
  induction order generalizing held with
  | nil => trivial
  | cons range rest ih =>
    unfold backfillEach
    split
    case isTrue => exact ih
    split
    case h_1 =>
      exact (claimRange_knows 3).bind fun _ _ _ _ => ih.bind fun _ _ _ _ => trivial
    case h_2 => exact ih

omit [DecidableEq Name] in
theorem backfillClaims_knows {order : List ℕ} :
    MeshSound ranges (backfillClaims ranges order : MeshProg Name Key MeshEnd) held := by
  simp only [backfillClaims, askListPeers, Prog.ask_bind]
  refine knows_free_call trivial rfl fun answer => ?_
  cases answer with
  | none => trivial
  | some existing => exact backfillEach_knows existing order

theorem body_knows [DecidableEq Key] (job : MeshJob Name Key) :
    MeshSound ranges (job.body ranges) ∅ := by
  cases job with
  | enroll name request id => exact enroll_knows
  | enrollSelf name range request id => exact enrollSelf_knows
  | reserveServerMesh name range request id => exact claimServerRange_knows
  | releaseAllocation name alloc => exact releaseAllocation_knows
  | deregister name => exact deregister_knows
  | backfillClaims order => exact backfillClaims_knows

omit [DecidableEq Name] in
theorem not_relies_of_list {Result : Type} {fact : MeshFact Name Key}
    {rest : Option (List (Name × MeshRow Key)) → MeshProg Name Key Result}
    (hrest : ∀ answer, (rest answer).ended = true) :
    ¬ (Prog.call MeshRequest.listPeers rest : MeshProg Name Key Result).Relies
      (meshKnowledge ranges) fact := by
  rintro (hused | ⟨answer, -, hlater⟩)
  · exact hused
  have hended := hrest answer
  cases hprogram : rest answer with
  | done ending =>
    rw [hprogram] at hlater
    exact hlater
  | call request next =>
    rw [hprogram] at hended
    exact absurd hended nofun

end Operations

end K3sm.Mesh
