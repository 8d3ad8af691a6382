import K3sm.Mesh.EnrollWorld

/-!
# One owner of a range

A claim that a name holds already counts as won, so a release of the name can delete the claim
that another server's enroll of it was just told it holds; and a name's peer can come back under a
release that has found it gone.  Where no step does either, every peer's range is claimed by its
own name throughout.
-/

namespace K3sm.Mesh

open K3sm.Core

section Owners

variable {Name Key : Type} [DecidableEq Name] (ranges : ℕ)

/-- Each peer's range is a node range, claimed by its own name. -/
def Owned (world : MeshWorld Name Key) : Prop :=
  ∀ name row version, world.peers.get name = some (row, version) →
    row.range < ranges ∧ ∃ claim, world.claims.get row.range = some (name, claim)

/-- No two names hold one range, and no peer is in place without its range's claim. -/
def OneOwner (world : MeshWorld Name Key) : Prop :=
  (∀ name row version other otherRow otherVersion,
      world.peers.get name = some (row, version) →
      world.peers.get other = some (otherRow, otherVersion) →
      row.range = otherRow.range → name = other) ∧
    ∀ name row version, world.peers.get name = some (row, version) →
      world.claims.get row.range ≠ none

/-- The step deletes no claim under an operation about to write its peer, and writes no peer
under one that was told there is none and is about to delete the claim. -/
def Undisputed [DecidableEq Key]
    (pool : Pool (MeshRequest Name Key) MeshAnswer (MeshWorld Name Key) MeshEnd)
    (move : Move (MeshJob Name Key) CallFate) : Prop :=
  pool.Spares handle (fun _ _ => true) (MeshJob.body ranges) (meshKnowledge ranges)
    (MeshFact.Holds ranges) MeshFact.ownership move

variable {ranges} {world after : MeshWorld Name Key} {request : MeshRequest Name Key}

theorem Owned.oneOwner (howned : Owned ranges world) : OneOwner world := by
  constructor
  · intro name row version other otherRow otherVersion hrow hother hrange
    obtain ⟨-, claim, hclaim⟩ := howned name row version hrow
    obtain ⟨-, otherClaim, hotherClaim⟩ := howned other otherRow otherVersion hother
    rw [hrange, hotherClaim] at hclaim
    exact (Prod.mk.inj (Option.some.inj hclaim)).1.symm
  · intro name row version hrow
    obtain ⟨-, claim, hclaim⟩ := howned name row version hrow
    rw [hclaim]
    exact nofun

theorem claimed_of_entitles {name : Name} {range : ℕ}
    (hholds : (entitles ranges name range : MeshFact Name Key).Holds ranges world) :
    range < ranges ∧ ∃ claim, world.claims.get range = some (name, claim) := by
  unfold entitles at hholds
  split at hholds
  case isTrue hrange => exact ⟨hrange, hholds⟩
  case isFalse hrange => exact absurd hholds hrange

omit [DecidableEq Name] in
theorem entitles_ownership (name : Name) (range : ℕ) :
    (entitles ranges name range : MeshFact Name Key) ∈ MeshFact.ownership := by
  unfold entitles
  split <;> trivial

theorem Owned.put (howned : Owned ranges world) {name : Name} {row : MeshRow Key}
    (hentitled : (entitles ranges name row.range : MeshFact Name Key).Holds ranges world)
    (hpeers : after.peers = world.peers.put name row) (hclaims : after.claims = world.claims) :
    Owned ranges after := by
  intro other otherRow version hrow
  rw [hpeers] at hrow
  rw [hclaims]
  by_cases hother : other = name
  · rw [hother, Versioned.get_put_self] at hrow
    obtain ⟨rfl, -⟩ := Prod.mk.inj (Option.some.inj hrow)
    rw [hother]
    exact claimed_of_entitles hentitled
  · rw [Versioned.get_put_of_ne _ _ hother] at hrow
    exact howned other otherRow version hrow

theorem Owned.deleteClaim (howned : Owned ranges world) {range version : ℕ} {holder old : Name}
    (hold : world.claims.get range = some (old, version))
    (hvacant : (MeshFact.vacant holder range : MeshFact Name Key).Holds ranges world)
    (hseen : (MeshFact.claimSeen range holder version : MeshFact Name Key).Holds ranges world) :
    Owned ranges { world with claims := world.claims.remove range } := by
  intro name row peerVersion hrow
  obtain ⟨hrange, claim, hclaim⟩ := howned name row peerVersion hrow
  refine ⟨hrange, claim, ?_⟩
  have hother : row.range ≠ range := by
    intro hsame
    rw [hsame, hold] at hclaim
    have hname : holder = name :=
      (hseen.2 old hold).symm.trans (Prod.mk.inj (Option.some.inj hclaim)).1
    exact hvacant row peerVersion (hname ▸ hrow) hsame
  exact (Versioned.get_remove_of_ne _ hother).trans hclaim

theorem Owned.effect (howned : Owned ranges world) (heffect : MeshEffect world request after)
    (huses : ∀ fact ∈ MeshFact.ownership, fact ∈ meshUses ranges request →
      fact.Holds ranges world) : Owned ranges after := by
  cases heffect with
  | same => exact howned
  | createPeer name row _ =>
    exact howned.put (huses _ (entitles_ownership name row.range) rfl) rfl rfl
  | updatePeer name row current old version write _ =>
    exact howned.put (huses _ (entitles_ownership name row.range) (.inl rfl)) rfl rfl
  | deletePeer name version =>
    intro other row rowVersion hrow
    by_cases hother : other = name
    · rw [hother] at hrow
      exact absurd ((Versioned.get_remove_self world.peers name).symm.trans hrow) nofun
    · exact howned other row rowVersion
        ((Versioned.get_remove_of_ne world.peers hother).symm.trans hrow)
  | createClaim range holder hfree =>
    intro name row version hrow
    obtain ⟨hrange, claim, hclaim⟩ := howned name row version hrow
    refine ⟨hrange, claim, ?_⟩
    have hother : row.range ≠ range := by
      intro hsame
      rw [hsame, hfree] at hclaim
      exact absurd hclaim nofun
    exact (Versioned.get_put_of_ne _ holder hother).trans hclaim
  | deleteClaim range holder old version hold =>
    exact howned.deleteClaim hold (huses (.vacant holder range) trivial (.inl rfl))
      (huses (.claimSeen range holder version) trivial (.inr rfl))

theorem Taught.holds_ownership {fact : MeshFact Name Key} (htaught : Taught world after fact)
    (howned : Owned ranges world) (hkind : fact ∈ MeshFact.ownership) :
    fact.Holds ranges after := by
  cases htaught with
  | listed _ hsame hlisted =>
    rw [hsame]
    cases fact with
    | ranged range =>
      obtain ⟨⟨name, row⟩, hmem, rfl⟩ := hlisted
      obtain ⟨version, hrow⟩ := mem_listed.1 hmem
      exact (howned name row version hrow).1
    | vacant name range =>
      intro row version hrow
      exact absurd rfl (hlisted _ (mem_listed.2 ⟨version, hrow⟩))
    | steady name write range key => exact absurd hkind id
    | held range name | claimSeen range holder version
    | peerSeen name row version => exact absurd hlisted id
  | peerSeen name row version hsame hrow =>
    rw [hsame]
    exact Versioned.seen_of_get hrow
  | gone name range hgone =>
    intro row version hrow
    exact absurd (hgone.symm.trans hrow) nofun
  | claimed range holder version hclaimed => exact ⟨version, hclaimed⟩
  | unclaimed range holder hpeers hfree =>
    intro row version hrow hrange
    rw [hpeers] at hrow
    obtain ⟨-, claim, hclaim⟩ := howned holder row version hrow
    rw [hrange, hfree] at hclaim
    exact absurd hclaim nofun
  | claimSeen range holder version hsame hclaim =>
    rw [hsame]
    exact Versioned.seen_of_get hclaim

/-- A pod range has one owner in every run whose steps are undisputed, for any number of
enrollers and any order of their calls, errors and crashes included. -/
theorem range_has_one_owner [DecidableEq Key] {world : MeshWorld Name Key}
    (hworld : Owned ranges world) {moves : List (Move (MeshJob Name Key) CallFate)}
    (hmoves : EachStep (Undisputed ranges) (next ranges) ⟨world, []⟩ moves) :
    Always (fun pool => OneOwner pool.world) (next ranges) ⟨world, []⟩ moves := by
  have howned : Always (fun pool => Owned ranges pool.world) (next ranges) ⟨world, []⟩ moves := by
    refine Pool.always_relied ?_ body_knows ?_ hworld hmoves
    · intro request fate world howned fact hkind hlearned
      exact (taught_of_learns hlearned).holds_ownership howned hkind
    · intro request fate world howned _ huses
      exact howned.effect handle_effect huses
  exact howned.mono fun pool hpool => hpool.oneOwner

end Owners

/-! ## Joins beside each other -/

section Joins

variable {Name Key Result : Type} {ranges : ℕ} {held : Set Empty}

def MeshRequest.DeletesClaim : MeshRequest Name Key → Prop
  | .deleteClaim .. => True
  | _ => False

/-- A join may make every call but the one that deletes a claim. -/
def joinCalls : Knowledge (MeshRequest Name Key) MeshAnswer Empty where
  lawful request := ¬ request.DeletesClaim
  uses _ := ∅
  learns _ _ := ∅

abbrev Joins (program : MeshProg Name Key Result) (held : Set Empty) : Prop :=
  program.Knows joinCalls (fun _ _ => True) held

theorem joins_call {request : MeshRequest Name Key}
    {next : MeshAnswer request → MeshProg Name Key Result}
    (hrequest : ¬ request.DeletesClaim)
    (hnext : ∀ answer held, Joins (next answer) held) : Joins (Prog.call request next) held :=
  ⟨hrequest, Set.empty_subset _, fun answer => hnext answer _⟩

theorem Joins.not_vacant {program : MeshProg Name Key Result} (hjoins : Joins program held)
    (name : Name) (range : ℕ) : ¬ program.Relies (meshKnowledge ranges) (.vacant name range) := by
  induction program generalizing held with
  | done result => exact id
  | call request next ih =>
    rintro (hused | ⟨answer, -, hlater⟩)
    · cases request with
      | deleteClaim range holder version => exact hjoins.1 trivial
      | createPeer other row =>
        have hother : MeshFact.vacant name range = entitles ranges other row.range := hused
        unfold entitles at hother
        split at hother <;> cases hother
      | updatePeer other row current version write =>
        rcases hused with hother | hother | ⟨-, hother⟩
        · unfold entitles at hother
          split at hother <;> cases hother
        · cases hother
        · cases hother
      | _ => exact hused
    · exact ih answer (hjoins.2.2 answer) hlater

variable {name : Name} {range : ℕ}

theorem claimRange_joins (tries : ℕ) :
    Joins (claimRange range name tries : MeshProg Name Key _) held := by
  induction tries generalizing held with
  | zero => trivial
  | succ tries ih =>
    simp only [claimRange, askCreateClaim, askGetClaim, Prog.ask_bind]
    refine joins_call not_false fun answer held => ?_
    cases answer with
    | taken =>
      refine joins_call not_false fun answer held => ?_
      cases answer with
      | absent => exact ih
      | found holder version | failed => trivial
    | done | absent | conflict | failed => trivial

theorem writePeer_joins {row : MeshRow Key} {write : PeerWrite} :
    Joins (writePeer name row write) held := by
  simp only [writePeer, askCreatePeer, askGetPeer, askUpdatePeer, Prog.ask_bind]
  refine joins_call not_false fun answer held => ?_
  cases answer with
  | taken =>
    refine joins_call not_false fun answer held => ?_
    cases answer with
    | found current version =>
      dsimp only
      split
      case isTrue => trivial
      refine joins_call not_false fun answer held => ?_
      cases answer <;> trivial
    | absent | failed => trivial
  | done | absent | conflict | failed => trivial

variable {request : MeshEnrollRequest Key} {id : ℕ}

theorem enrollWrite_joins {own : Option (MeshRow Key)} :
    Joins (enrollWrite name request id range own) held := by
  simp only [enrollWrite, askListPeers, Prog.ask_bind]
  split
  case isTrue => trivial
  refine writePeer_joins.bind fun written later _ _ => ?_
  cases written with
  | false => trivial
  | true =>
    refine joins_call not_false fun answer held => ?_
    cases answer <;> trivial

variable [DecidableEq Name]

theorem MeshEffect.claims_kept {world after : MeshWorld Name Key} {request : MeshRequest Name Key}
    {claim : Name × ℕ} (heffect : MeshEffect world request after)
    (hrequest : ¬ request.DeletesClaim)
    (hclaim : world.claims.get range = some claim) : after.claims.get range = some claim := by
  cases heffect with
  | createClaim free holder hfree =>
    have hother : range ≠ free := by
      rintro rfl
      exact Option.some_ne_none _ (hclaim.symm.trans hfree)
    exact (Versioned.get_put_of_ne _ holder hother).trans hclaim
  | deleteClaim range holder old version => exact absurd trivial hrequest
  | _ => exact hclaim

theorem claimLowest_joins (indices : List ℕ) :
    Joins (claimLowest name indices : MeshProg Name Key _) held := by
  induction indices generalizing held with
  | nil => trivial
  | cons index rest ih =>
    refine (claimRange_joins 3).bind fun result later _ _ => ?_
    cases result with
    | none => trivial
    | some won =>
      dsimp only
      split
      · trivial
      · exact ih

theorem enroll_joins : Joins (enroll ranges name request id) held := by
  simp only [enroll, askListPeers, Prog.ask_bind]
  refine joins_call not_false fun answer held => ?_
  cases answer with
  | none => trivial
  | some existing =>
    dsimp only
    split
    case h_2 =>
      refine (claimLowest_joins _).bind fun result later _ _ => ?_
      cases result with
      | none => trivial
      | some range => exact enrollWrite_joins
    split_ifs
    · trivial
    · exact enrollWrite_joins
    refine (claimRange_joins 3).bind fun result later _ _ => ?_
    cases result with
    | none => trivial
    | some won =>
      dsimp only
      split
      · trivial
      · exact enrollWrite_joins

variable [DecidableEq Key]

abbrev JoinPool (Name Key : Type) :=
  Pool (MeshRequest Name Key) MeshAnswer (MeshWorld Name Key) MeshEnd

def Joining (pool : JoinPool Name Key) : Prop :=
  ∀ program ∈ pool.programs, ∃ held, Joins program held

def IsJoin : Move (MeshJob Name Key) CallFate → Prop
  | .start (.enroll _ _ _) => True
  | .start _ => False
  | .turn _ _ => True

variable {pool : JoinPool Name Key} {move : Move (MeshJob Name Key) CallFate}

/-- While only joins run, a step lets every claim stand. -/
theorem Joining.next (hjoining : Joining pool) (hmove : IsJoin move) :
    Joining (next ranges pool move) ∧ ∀ range claim, pool.world.claims.get range = some claim →
      (next ranges pool move).world.claims.get range = some claim := by
  cases move with
  | start job =>
    refine ⟨fun program hprogram => ?_, fun _ _ hclaim => hclaim⟩
    rcases List.mem_append.1 hprogram with hold | hnew
    · exact hjoining program hold
    · rw [List.mem_singleton.1 hnew]
      cases job with
      | enroll name request id => exact ⟨∅, enroll_joins⟩
      | _ => exact absurd hmove id
  | turn index fate =>
    unfold Mesh.next Pool.next
    dsimp only
    split
    case h_2 => exact ⟨hjoining, fun _ _ hclaim => hclaim⟩
    rename_i request rest hfound
    rw [if_pos rfl]
    obtain ⟨held, hcall⟩ := hjoining _ (List.mem_of_getElem? hfound)
    constructor
    · intro program hprogram
      rcases List.mem_or_eq_of_mem_set hprogram with hother | rfl
      · exact hjoining program hother
      · exact ⟨_, hcall.2.2 _⟩
    · intro range claim hclaim
      exact handle_effect.claims_kept hcall.1 hclaim

theorem Joining.undisputed (hjoining : Joining pool) (hmove : IsJoin move) :
    Undisputed ranges pool move := by
  obtain ⟨hafter, hclaims⟩ := @Joining.next _ _ ranges _ _ _ _ hjoining hmove
  intro program hprogram fact hkind hrelies hholds
  obtain ⟨held, hjoins⟩ := hafter program hprogram
  cases fact with
  | ranged range => exact hholds
  | held range name => exact hholds.imp fun version hheld => hclaims range _ hheld
  | vacant name range => exact absurd hrelies (hjoins.not_vacant name range)
  | steady name write range key => exact absurd hkind id
  | claimSeen range holder version
  | peerSeen name row version => exact next_lasts pool move trivial hholds

/-- However joins run beside each other, no step of theirs is disputed. -/
theorem undisputed_of_joins {moves : List (Move (MeshJob Name Key) CallFate)}
    (hmoves : ∀ move ∈ moves, IsJoin move) (hjoining : Joining pool) :
    EachStep (Undisputed ranges) (next ranges) pool moves := by
  induction moves generalizing pool with
  | nil => trivial
  | cons move moves ih =>
    obtain ⟨hmove, hrest⟩ := List.forall_mem_cons.1 hmoves
    exact ⟨hjoining.undisputed hmove, ih hrest (hjoining.next hmove).1⟩

end Joins

/-! ## Disputed ranges -/

def workerRow (range id : ℕ) : MeshRow ℕ where
  range := range
  publicKey := 7
  server := false
  enrollId := some id

def anyRequest : MeshEnrollRequest ℕ where
  publicKey := 7
  valid := true

def oneEnrolled : MeshWorld ℕ ℕ :=
  { noMesh ℕ ℕ with
    claims := (noMesh ℕ ℕ).claims.put 1 1
    peers := (noMesh ℕ ℕ).peers.put 1 (workerRow 1 0) }

/-- Two joins list no row and ask for the same range; the one that is told the other holds it
takes the next. -/
def racingJoins : List (Move (MeshJob ℕ ℕ) CallFate) :=
  .start (.enroll 1 anyRequest 1) :: .start (.enroll 2 anyRequest 2) ::
    turns [0, 1, 1, 0, 0, 1, 0, 0, 1, 0]

theorem range_has_one_owner_at_racingJoins :
    Always (fun pool => OneOwner pool.world) (next 4) ⟨noMesh ℕ ℕ, []⟩ racingJoins ∧
      (racingJoins.foldl (next 4) ⟨noMesh ℕ ℕ, []⟩).world.peers.get 1 = some (workerRow 2 1, 1) ∧
      (racingJoins.foldl (next 4) ⟨noMesh ℕ ℕ, []⟩).world.peers.get 2 =
        some (workerRow 1 2, 0) := by
  have howned : Owned 4 (noMesh ℕ ℕ) := fun _ _ _ hrow => absurd hrow nofun
  have hjoins : ∀ move ∈ racingJoins, IsJoin move := by
    simp [racingJoins, turns, IsJoin]
  have hidle : Joining (⟨noMesh ℕ ℕ, []⟩ : JoinPool ℕ ℕ) := fun _ hprogram => absurd hprogram nofun
  exact ⟨range_has_one_owner howned (undisputed_of_joins hjoins hidle), by decide +kernel⟩

/-- Node 1 joins again while it is deregistered elsewhere: its claim is deleted, node 2 is
enrolled at the range, and then the join is written. -/
def disputedRejoin : List (Move (MeshJob ℕ ℕ) CallFate) :=
  .start (.deregister 1) :: .start (.enroll 1 anyRequest 1) :: .start (.enroll 2 anyRequest 2) ::
    turns [0, 0, 1, 1, 1, 0, 2, 2, 2, 1]

/-- A rejoin that races a deregistration of its name ends in two owners of one range. -/
theorem range_can_have_two_owners :
    Owned 4 oneEnrolled ∧
      ¬ Always (fun pool => OneOwner pool.world) (next 4) ⟨oneEnrolled, []⟩ disputedRejoin := by
  constructor
  · intro name row version hrow
    by_cases hname : name = 1
    · rw [hname] at hrow ⊢
      obtain ⟨rfl, -⟩ := Prod.mk.inj
        (Option.some.inj ((Versioned.get_put_self _ 1 (workerRow 1 0)).symm.trans hrow))
      exact ⟨by decide, 0, Versioned.get_put_self _ 1 1⟩
    · exact absurd ((Versioned.get_put_of_ne (noMesh ℕ ℕ).peers _ hname).symm.trans hrow) nofun
  · intro halways
    have hfirst : (disputedRejoin.foldl (next 4) ⟨oneEnrolled, []⟩).world.peers.get 1 =
        some (workerRow 1 1, 2) := by decide +kernel
    have hsecond : (disputedRejoin.foldl (next 4) ⟨oneEnrolled, []⟩).world.peers.get 2 =
        some (workerRow 1 2, 1) := by decide +kernel
    exact absurd (halways.last.1 1 _ _ 2 _ _ hfirst hsecond rfl) (by decide)

end K3sm.Mesh
