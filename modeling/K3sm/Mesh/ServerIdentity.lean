import K3sm.Mesh.EnrollWorld

/-!
# A server's mesh identity

`writePeer` decides on the row it reads back whether a path may replace it, so a worker never
replaces a server's row, nor a server a worker's.  That the row is at the range that the
server claims, and on the member route under its key, is decided on the list alone: a row
that another server writes in between is moved and rekeyed.
-/

namespace K3sm.Mesh

open K3sm.Core

section Identity

variable {Name Key : Type}

/-- No worker's enroll has changed a server's row, and no server's claim a worker's. -/
def KindsRespected (world : MeshWorld Name Key) : Prop :=
  ∀ update ∈ world.updates,
    (update.write = .worker → isServerPeer update.old = false) ∧
      (update.write ≠ .worker → isServerPeer update.old = true)

/-- No server's claim has moved a row, and none on the member route has changed its key. -/
def ServerRowsKept (world : MeshWorld Name Key) : Prop :=
  ∀ update ∈ world.updates, update.write ≠ .worker →
    update.new.range = update.old.range ∧
      (update.write = .memberRoute → update.new.publicKey = update.old.publicKey)

variable [DecidableEq Name] (ranges : ℕ)

/-- The step puts no server row of a name at another range, or under another key, than a
claim of the name wants that has listed the peers and has yet to replace the row. -/
def Undisturbed [DecidableEq Key]
    (pool : Pool (MeshRequest Name Key) MeshAnswer (MeshWorld Name Key) MeshEnd)
    (move : Move (MeshJob Name Key) CallFate) : Prop :=
  pool.Spares handle (fun _ _ => true) (MeshJob.body ranges) (meshKnowledge ranges)
    (MeshFact.Holds ranges) MeshFact.identity move

variable {ranges} {world after : MeshWorld Name Key} {request : MeshRequest Name Key}

omit [DecidableEq Name] in
theorem respects_of_replaces {write : PeerWrite} {row : MeshRow Key}
    (hreplaces : refusesOverwrite write row = false) :
    (write = .worker → isServerPeer row = false) ∧ (write ≠ .worker → isServerPeer row = true) := by
  cases write with
  | worker => exact ⟨fun _ => hreplaces, fun hother => absurd rfl hother⟩
  | enrollSelf | memberRoute => exact ⟨nofun, fun _ => by simpa [refusesOverwrite] using hreplaces⟩

theorem replaces_of_seen {name : Name} {current old : MeshRow Key} {version : ℕ}
    {write : PeerWrite} (hold : world.peers.get name = some (old, version))
    (hseen : (MeshFact.peerSeen name current version : MeshFact Name Key).Holds ranges world)
    (hlawful : refusesOverwrite write current = false) : refusesOverwrite write old = false :=
  hseen.2 old hold ▸ hlawful

theorem MeshEffect.updates_cases (heffect : MeshEffect world request after) :
    after.updates = world.updates ∨
      ∃ name row current old version write,
        request = .updatePeer name row current version write ∧
          world.peers.get name = some (old, version) ∧
          after.updates = { name := name, write := write, old := old, new := row } ::
            world.updates := by
  cases heffect with
  | updatePeer name row current old version write hold =>
    exact .inr ⟨name, row, current, old, version, write, rfl, hold, rfl⟩
  | _ => exact .inl rfl

theorem KindsRespected.effect (hrespected : KindsRespected world)
    (heffect : MeshEffect world request after) (hlawful : meshLawful request)
    (huses : ∀ fact ∈ MeshFact.lasting, fact ∈ meshUses ranges request → fact.Holds ranges world) :
    KindsRespected after := by
  intro update hupdate
  rcases heffect.updates_cases with
    hsame | ⟨name, row, current, old, version, write, rfl, hold, hmore⟩
  · exact hrespected update (hsame ▸ hupdate)
  rw [hmore] at hupdate
  rcases List.mem_cons.1 hupdate with rfl | hbefore
  · have hseen := huses (.peerSeen name current version) trivial (.inr (.inl rfl))
    exact respects_of_replaces (replaces_of_seen hold hseen hlawful)
  · exact hrespected update hbefore

theorem kept_of_steady {name : Name} {row current old : MeshRow Key} {version : ℕ}
    {write : PeerWrite} (hold : world.peers.get name = some (old, version))
    (hlawful : meshLawful (.updatePeer name row current version write))
    (huses : ∀ fact ∈ MeshFact.identity,
      fact ∈ meshUses ranges (.updatePeer name row current version write) →
      fact.Holds ranges world) : Kept write old row := by
  have hseen := huses (.peerSeen name current version) trivial (.inr (.inl rfl))
  by_cases hkept : Kept write current row
  · exact hseen.2 old hold ▸ hkept
  have hsteady := huses (.steady name write row.range row.publicKey) trivial
    (.inr (.inr ⟨hkept, rfl⟩))
  by_cases hworker : write = .worker
  · exact .inl hworker
  · have hserver := (respects_of_replaces (replaces_of_seen hold hseen hlawful)).2 hworker
    exact .inr (hsteady old version hold hserver)

theorem ServerRowsKept.effect (hkept : ServerRowsKept world)
    (heffect : MeshEffect world request after) (hlawful : meshLawful request)
    (huses : ∀ fact ∈ MeshFact.identity, fact ∈ meshUses ranges request → fact.Holds ranges world) :
    ServerRowsKept after := by
  intro update hupdate hserver
  rcases heffect.updates_cases with
    hsame | ⟨name, row, current, old, version, write, rfl, hold, hmore⟩
  · exact hkept update (hsame ▸ hupdate) hserver
  rw [hmore] at hupdate
  rcases List.mem_cons.1 hupdate with rfl | hbefore
  · rcases kept_of_steady hold hlawful huses with hworker | ⟨hrange, hkey⟩
    · exact absurd hworker hserver
    · exact ⟨hrange.symm, fun hroute => (hkey hroute).symm⟩
  · exact hkept update hbefore hserver

theorem Taught.holds_identity {fact : MeshFact Name Key} (htaught : Taught world after fact)
    (hkind : fact ∈ MeshFact.identity) : fact.Holds ranges after := by
  cases htaught with
  | listed _ hsame hlisted =>
    rw [hsame]
    cases fact with
    | steady name write range key => exact steady_of_listTeaches hlisted
    | claimSeen range holder version | peerSeen name row version => exact absurd hlisted id
    | ranged range | held range name | vacant name range => exact absurd hkind id
  | peerSeen name row version hsame hrow =>
    rw [hsame]
    exact Versioned.seen_of_get hrow
  | claimSeen range holder version hsame hclaim =>
    rw [hsame]
    exact Versioned.seen_of_get hclaim
  | gone name range _ | claimed range holder version _
  | unclaimed range holder _ _ => exact absurd hkind id

omit [DecidableEq Name] in
theorem identity_of_lasting {fact : MeshFact Name Key} (hlasting : fact ∈ MeshFact.lasting) :
    fact ∈ MeshFact.identity := by
  cases fact with
  | claimSeen range holder version | peerSeen name row version => trivial
  | ranged range | held range name | vacant name range
  | steady name write range key => exact absurd hlasting id

/-- An enroll leaves server rows alone and a server's claim those of workers; and where no
step disturbs the claim, no row is moved or, on the member route, rekeyed. -/
theorem server_identity_kept [DecidableEq Key] (hstart : world.updates = [])
    (moves : List (Move (MeshJob Name Key) CallFate)) :
    Always (fun pool => KindsRespected pool.world) (next ranges) ⟨world, []⟩ moves ∧
      (EachStep (Undisturbed ranges) (next ranges) ⟨world, []⟩ moves →
        Always (fun pool => ServerRowsKept pool.world) (next ranges) ⟨world, []⟩ moves) := by
  constructor
  · have hrespected : KindsRespected world := by
      rw [KindsRespected, hstart]
      exact nofun
    have hlast : ∀ request fate (world : MeshWorld Name Key), ∀ fact ∈ MeshFact.lasting,
        fact.Holds ranges world → fact.Holds ranges (handle request fate world).2 :=
      fun request fate world fact hlasting hholds => handle_effect.lasts hlasting hholds
    refine Pool.always_of_lasting hlast ?_ body_knows ?_ hrespected moves
    · intro request fate world _ fact hlasting hlearned
      exact (taught_of_learns hlearned).holds_identity (identity_of_lasting hlasting)
    · intro request fate world hrespected hlawful huses
      exact hrespected.effect handle_effect hlawful huses
  intro hmoves
  have hkept : ServerRowsKept world := by
    rw [ServerRowsKept, hstart]
    exact nofun
  refine Pool.always_relied ?_ body_knows ?_ hkept hmoves
  · intro request fate world _ fact hkind hlearned
    exact (taught_of_learns hlearned).holds_identity hkind
  · intro request fate world hkept hlawful huses
    exact hkept.effect handle_effect hlawful huses

variable [DecidableEq Key]
  {pool : Pool (MeshRequest Name Key) MeshAnswer (MeshWorld Name Key) MeshEnd}
  {move : Move (MeshJob Name Key) CallFate}

theorem undisturbed_of_same_peers
    (hpeers : (next ranges pool move).world.peers = pool.world.peers) :
    Undisturbed ranges pool move := by
  apply Pool.spares_of_lasting
  intro fact hkind hholds
  cases fact with
  | steady name write range key =>
    exact fun row version hrow => hholds row version (hpeers ▸ hrow)
  | claimSeen range holder version
  | peerSeen name row version => exact next_lasts pool move trivial hholds
  | ranged range | held range name | vacant name range => exact absurd hkind id

end Identity

/-! ## A row written behind the list -/

def keyed (key : ℕ) : MeshEnrollRequest ℕ where
  publicKey := key
  valid := true

def serverRestart : List (Move (MeshJob ℕ ℕ) CallFate) :=
  .start (.enrollSelf 1 2 (keyed 7) 1) :: turns [0, 0, 0, 0] ++
    .start (.enrollSelf 1 2 (keyed 8) 2) :: turns [1, 1, 1, 1, 1, 1, 1]

theorem server_identity_kept_at_serverRestart :
    (noMesh ℕ ℕ).updates = [] ∧ EachStep (Undisturbed 4) (next 4) ⟨noMesh ℕ ℕ, []⟩ serverRestart ∧
      Always (fun pool => ServerRowsKept pool.world) (next 4) ⟨noMesh ℕ ℕ, []⟩ serverRestart := by
  have hsteps : EachStep (Undisturbed 4) (next 4) ⟨noMesh ℕ ℕ, []⟩ serverRestart := by
    refine ⟨undisturbed_of_same_peers rfl, undisturbed_of_same_peers rfl,
      undisturbed_of_same_peers rfl, ?create, undisturbed_of_same_peers rfl,
      undisturbed_of_same_peers rfl, undisturbed_of_same_peers rfl, undisturbed_of_same_peers rfl,
      undisturbed_of_same_peers rfl, undisturbed_of_same_peers rfl, undisturbed_of_same_peers rfl,
      ?update, undisturbed_of_same_peers rfl, trivial⟩
    case create =>
      intro program hprogram fact _ hrelies
      obtain rfl := List.mem_singleton.1 hprogram
      exact absurd hrelies (not_relies_of_list fun answer => by cases answer <;> rfl)
    case update =>
      intro program hprogram fact _ hrelies
      rcases List.mem_pair.1 hprogram with rfl | rfl
      · exact absurd hrelies id
      · exact absurd hrelies (not_relies_of_list fun answer => by cases answer <;> rfl)
  exact ⟨rfl, hsteps, (server_identity_kept rfl serverRestart).2 hsteps⟩

/-- Two servers reserve for one name, the second after the list of the first. -/
def reservedTwice : List (Move (MeshJob ℕ ℕ) CallFate) :=
  .start (.reserveServerMesh 1 1 (keyed 7) 1) :: .start (.reserveServerMesh 1 2 (keyed 8) 2) ::
    turns [0, 0, 1, 1, 1, 0, 0, 0]

/-- The first reservation moves the row that the second has written, and changes its key. -/
theorem server_row_taken_over :
    ¬ Always (fun pool => ServerRowsKept pool.world) (next 4) ⟨noMesh ℕ ℕ, []⟩ reservedTwice := by
  intro halways
  have hupdates : (reservedTwice.foldl (next 4) ⟨noMesh ℕ ℕ, []⟩).world.updates =
      [{ name := 1
         write := .memberRoute
         old := { range := 2, publicKey := 8, server := true, enrollId := some 2 }
         new := { range := 1, publicKey := 7, server := true, enrollId := some 1 } }] := rfl
  have hkept := halways.last
  rw [ServerRowsKept, hupdates] at hkept
  exact absurd (hkept _ List.mem_cons_self (by decide)).1 (by decide)

end K3sm.Mesh
