import K3sm.Mesh.EnrollKnows

/-!
# Single calls

What a call can change, and that what its answer teaches is true right after it.
-/

namespace K3sm.Mesh

open K3sm.Core

section Worlds

variable {Name Key : Type} [DecidableEq Name]

/-- What a call that took effect did to the world. -/
inductive MeshEffect (world : MeshWorld Name Key) : MeshRequest Name Key → MeshWorld Name Key → Prop
  | same (request : MeshRequest Name Key) : MeshEffect world request world
  | createPeer (name : Name) (row : MeshRow Key) (hfree : world.peers.get name = none) :
      MeshEffect world (.createPeer name row) { world with peers := world.peers.put name row }
  | updatePeer (name : Name) (row current old : MeshRow Key) (version : ℕ) (write : PeerWrite)
      (hold : world.peers.get name = some (old, version)) :
      MeshEffect world (.updatePeer name row current version write)
        { world with
          peers := world.peers.put name row
          updates := { name := name, write := write, old := old, new := row } :: world.updates }
  | deletePeer (name : Name) (version : Option ℕ) :
      MeshEffect world (.deletePeer name version) { world with peers := world.peers.remove name }
  | createClaim (range : ℕ) (holder : Name) (hfree : world.claims.get range = none) :
      MeshEffect world (.createClaim range holder)
        { world with claims := world.claims.put range holder }
  | deleteClaim (range : ℕ) (holder old : Name) (version : ℕ)
      (hold : world.claims.get range = some (old, version)) :
      MeshEffect world (.deleteClaim range holder version)
        { world with claims := world.claims.remove range }

variable {request : MeshRequest Name Key} {fate : CallFate} {world after : MeshWorld Name Key}

theorem MeshEffect.fated {written : WriteAnswer × MeshWorld Name Key}
    (heffect : MeshEffect world request written.2) :
    MeshEffect world request (Mesh.fated fate written world).2 := by
  cases fate with
  | answered => exact heffect
  | lost => exact MeshEffect.same request
  | unanswered => exact heffect

theorem handle_effect : MeshEffect world request (handle request fate world).2 := by
  cases request with
  | listPeers | getPeer name => exact MeshEffect.same _
  | createPeer name row =>
    apply MeshEffect.fated
    rcases world.peers.create_cases name row with ⟨_, _, hcreate⟩ | ⟨hfree, hcreate⟩
    · rw [hcreate]
      exact MeshEffect.same _
    · rw [hcreate]
      exact MeshEffect.createPeer name row hfree
  | updatePeer name row current version write =>
    apply MeshEffect.fated
    unfold updatePeer withPeers
    rcases world.peers.update_cases name version row with ⟨hanswer, hsame⟩ | ⟨old, hold, hupdate⟩
    · dsimp only
      rw [hsame]
      split
      case h_1 hdone _ => exact absurd hdone hanswer
      case h_2 => exact MeshEffect.same _
    · rw [hupdate, hold]
      exact MeshEffect.updatePeer name row current old version write hold
  | deletePeer name version =>
    apply MeshEffect.fated
    rcases world.peers.delete_cases name version with
      ⟨_, hdelete⟩ | ⟨_, _, _, hdelete | ⟨_, hdelete⟩⟩
    · rw [hdelete]
      exact MeshEffect.same _
    · rw [hdelete]
      exact MeshEffect.same _
    · rw [hdelete]
      exact MeshEffect.deletePeer name version
  | createClaim range holder =>
    apply MeshEffect.fated
    rcases world.claims.create_cases range holder with ⟨_, _, hcreate⟩ | ⟨hfree, hcreate⟩
    · rw [hcreate]
      exact MeshEffect.same _
    · rw [hcreate]
      exact MeshEffect.createClaim range holder hfree
  | getClaim range => exact MeshEffect.same _
  | deleteClaim range holder version =>
    apply MeshEffect.fated
    rcases world.claims.delete_cases range (some version) with
      ⟨_, hdelete⟩ | ⟨old, current, hold, hdelete | ⟨hversion, hdelete⟩⟩
    · rw [hdelete]
      exact MeshEffect.same _
    · rw [hdelete]
      exact MeshEffect.same _
    · obtain rfl : version = current := by simpa using hversion
      rw [hdelete]
      exact MeshEffect.deleteClaim range holder old version hold
  | listClaims => exact MeshEffect.same _

theorem MeshEffect.grown_claims (heffect : MeshEffect world request after) :
    Versioned.Grown world.claims after.claims := by
  cases heffect with
  | createClaim range holder _ => exact Versioned.grown_put _ range holder
  | deleteClaim range _ _ _ _ => exact Versioned.grown_remove _ range
  | _ => exact Versioned.Grown.refl _

theorem MeshEffect.grown_peers (heffect : MeshEffect world request after) :
    Versioned.Grown world.peers after.peers := by
  cases heffect with
  | createPeer name row _ | updatePeer name row _ _ _ _ _ => exact Versioned.grown_put _ name row
  | deletePeer name _ => exact Versioned.grown_remove _ name
  | _ => exact Versioned.Grown.refl _

variable {fact : MeshFact Name Key} {name : Name} {ranges range : ℕ}

theorem MeshEffect.lasts (heffect : MeshEffect world request after)
    (hlasting : fact ∈ MeshFact.lasting) (hholds : fact.Holds ranges world) :
    fact.Holds ranges after := by
  cases fact with
  | claimSeen range holder version => exact heffect.grown_claims.seen hholds
  | peerSeen name row version => exact heffect.grown_peers.seen hholds
  | ranged range | held range name | vacant name range
  | steady name write range key => exact absurd hlasting id

theorem next_lasts [DecidableEq Key]
    (pool : Pool (MeshRequest Name Key) MeshAnswer (MeshWorld Name Key) MeshEnd)
    (move : Move (MeshJob Name Key) CallFate) (hlasting : fact ∈ MeshFact.lasting)
    (hholds : fact.Holds ranges pool.world) : fact.Holds ranges (next ranges pool move).world := by
  rcases pool.next_world handle (fun _ _ => true) (MeshJob.body ranges) move with
    hsame | ⟨request, fate, hcall⟩
  · exact hsame.symm ▸ hholds
  · exact hcall.symm ▸ handle_effect.lasts hlasting hholds

inductive Taught (world after : MeshWorld Name Key) : MeshFact Name Key → Prop
  | listed (fact : MeshFact Name Key) (hsame : after = world)
      (hlisted : fact ∈ listTeaches (world.peers.entries.map fun entry => (entry.1, entry.2.1))) :
      Taught world after fact
  | peerSeen (name : Name) (row : MeshRow Key) (version : ℕ) (hsame : after = world)
      (hrow : world.peers.get name = some (row, version)) :
      Taught world after (.peerSeen name row version)
  | gone (name : Name) (range : ℕ) (hgone : after.peers.get name = none) :
      Taught world after (.vacant name range)
  | claimed (range : ℕ) (holder : Name) (version : ℕ)
      (hclaimed : after.claims.get range = some (holder, version)) :
      Taught world after (.held range holder)
  | unclaimed (range : ℕ) (holder : Name) (hpeers : after.peers = world.peers)
      (hfree : world.claims.get range = none) : Taught world after (.vacant holder range)
  | claimSeen (range : ℕ) (holder : Name) (version : ℕ) (hsame : after = world)
      (hclaim : world.claims.get range = some (holder, version)) :
      Taught world after (.claimSeen range holder version)

theorem taught_getPeer
    (hlearned : fact ∈ meshLearns (.getPeer name) (readFated fate (world.peers.read name))) :
    Taught world world fact := by
  cases fate with
  | lost | unanswered => exact absurd hlearned id
  | answered =>
    unfold readFated Versioned.read at hlearned
    rcases hget : world.peers.get name with _ | ⟨row, version⟩
    · rw [hget] at hlearned
      obtain ⟨range, rfl⟩ := hlearned
      exact Taught.gone name range hget
    · rw [hget] at hlearned
      obtain rfl := hlearned
      exact Taught.peerSeen name row version rfl hget

theorem taught_deletePeer {version : Option ℕ}
    (hlearned : fact ∈ meshLearns (.deletePeer name version)
      (handle (.deletePeer name version) fate world).1) :
    Taught world (handle (.deletePeer name version) fate world).2 fact := by
  cases fate with
  | lost | unanswered => exact absurd hlearned id
  | answered =>
    change fact ∈ meshLearns (.deletePeer name version) (world.peers.delete name version).1
      at hlearned
    change Taught world { world with peers := (world.peers.delete name version).2 } fact
    rcases world.peers.delete_cases name version with
      ⟨hnone, hdelete⟩ | ⟨_, _, _, hdelete | ⟨_, hdelete⟩⟩
    · rw [hdelete] at hlearned ⊢
      obtain ⟨range, rfl⟩ := hlearned
      exact Taught.gone name range hnone
    · rw [hdelete] at hlearned
      exact absurd hlearned id
    · rw [hdelete] at hlearned ⊢
      obtain ⟨range, rfl⟩ := hlearned
      exact Taught.gone name range (Versioned.get_remove_self _ name)

theorem taught_createClaim {holder : Name} (hlearned : fact ∈ meshLearns (.createClaim range holder)
      (handle (.createClaim range holder) fate world).1) :
    Taught world (handle (.createClaim range holder) fate world).2 fact := by
  cases fate with
  | lost | unanswered => exact absurd hlearned id
  | answered =>
    change fact ∈ meshLearns (.createClaim range holder) (world.claims.create range holder).1
      at hlearned
    change Taught world { world with claims := (world.claims.create range holder).2 } fact
    rcases world.claims.create_cases range holder with ⟨_, _, hcreate⟩ | ⟨hfree, hcreate⟩
    · rw [hcreate] at hlearned
      exact absurd hlearned id
    · rw [hcreate] at hlearned ⊢
      rcases hlearned with rfl | rfl
      · exact Taught.claimed range holder _ (Versioned.get_put_self _ range holder)
      · exact Taught.unclaimed range holder rfl hfree

theorem taught_getClaim
    (hlearned : fact ∈ meshLearns (.getClaim range) (readFated fate (world.claims.read range))) :
    Taught world world fact := by
  cases fate with
  | lost | unanswered => exact absurd hlearned id
  | answered =>
    unfold readFated Versioned.read at hlearned
    rcases hget : world.claims.get range with _ | ⟨holder, version⟩
    · rw [hget] at hlearned
      exact absurd hlearned id
    · rw [hget] at hlearned
      rcases hlearned with rfl | rfl
      · exact Taught.claimed range holder version hget
      · exact Taught.claimSeen range holder version rfl hget

theorem taught_of_learns (hlearned : fact ∈ meshLearns request (handle request fate world).1) :
    Taught world (handle request fate world).2 fact := by
  cases request with
  | listPeers =>
    cases fate with
    | answered => exact Taught.listed fact rfl hlearned
    | lost | unanswered => exact absurd hlearned id
  | getPeer name => exact taught_getPeer hlearned
  | createPeer name row | updatePeer name row current version write => exact absurd hlearned id
  | deletePeer name version => exact taught_deletePeer hlearned
  | createClaim range holder => exact taught_createClaim hlearned
  | getClaim range => exact taught_getClaim hlearned
  | deleteClaim range holder version => exact absurd hlearned id
  | listClaims =>
    cases fate with
    | answered =>
      obtain ⟨claim, hclaim, rfl⟩ := hlearned
      exact Taught.claimSeen _ _ _ rfl (Versioned.mem_entries.1 hclaim)
    | lost | unanswered => exact absurd hlearned id

theorem mem_listed {row : MeshRow Key} :
    (name, row) ∈ world.peers.entries.map (fun entry => (entry.1, entry.2.1)) ↔
      ∃ version, world.peers.get name = some (row, version) := by
  rw [List.mem_map]
  constructor
  · rintro ⟨⟨_, _, version⟩, hentry, ⟨⟩⟩
    exact ⟨version, Versioned.mem_entries.1 hentry⟩
  · rintro ⟨version, hrow⟩
    exact ⟨(name, row, version), Versioned.mem_entries.2 hrow, rfl⟩

theorem steady_of_listTeaches {write : PeerWrite} {key : Key}
    (hlisted : .steady name write range key ∈
      listTeaches (world.peers.entries.map fun entry => (entry.1, entry.2.1))) :
    (MeshFact.steady name write range key).Holds ranges world := by
  intro row version hrow _
  have hmem := mem_listed.2 ⟨version, hrow⟩
  rcases hlisted with hnone | ⟨⟨_, listed⟩, hlisted, rfl, hfits⟩
  · exact absurd rfl (hnone _ hmem)
  obtain ⟨_, hother⟩ := mem_listed.1 hlisted
  obtain ⟨rfl, -⟩ := Prod.mk.inj (Option.some.inj (hother.symm.trans hrow))
  exact hfits

end Worlds

end K3sm.Mesh
