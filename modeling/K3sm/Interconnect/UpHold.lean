import K3sm.Core.Filepath
import K3sm.Interconnect.CableLoops

/-!
# Up is held back

`resolve` computes the status of the interconnect from one look at the nodes and the status it
holds now.  A member is up only after it has been reachable for `upHold`, and the only memory of
how long that has been is the status of the call before: along a sequence of calls it has had a
mutual peer, outside any loop, at every call since one that some later call found at least
`upHold` back.
-/

namespace K3sm.Interconnect

open K3sm.Core
open K3sm.Core.Filepath (Str)

variable {Node Domain Address : Type*}

/-- `UpHold`, in nanoseconds. -/
def upHold : ℤ := 60 * 1000000000

inductive ParseError
  | unknownSchema
  | other
  deriving DecidableEq

inductive Reject
  | unknownSchema
  | invalid
  | unknownPeer
  | staleNode
  deriving DecidableEq

/-- The parser of reports and the addresses of the slots. -/
structure Apis (Node Domain Address : Type*) where
  parseInterconnectReport : Str → Except ParseError (Report Node Domain)
  /-- The node's address, none for an index that has no address. -/
  interconnectSlotAddress : ℤ → Option Address
  maxInterconnectNodeIndex : ℤ

structure NodeInput (Node : Type*) where
  name : Node
  index : ℤ
  fresh : Bool
  /-- Empty when the node has none. -/
  report : Str

inductive MemberState
  | down
  | up
  | loop
  deriving DecidableEq

/-- A member as the status shows it. -/
structure Member (Node Address : Type*) where
  node : Node
  index : ℤ
  state : MemberState
  speedGbps : ℤ
  address : Option Address
  reachablePeers : List Node
  lastTransition : Option ℤ
  segment : Str

/-- One call of `resolve` but for the status it is handed: the clock, the spec and the nodes
that exist, and the order in which the maps of this call are ranged over. -/
structure Call (Node Domain : Type*) where
  now : ℤ
  enabled : Bool
  excludedNodes : List Node
  nodes : List (NodeInput Node)
  nodup : (nodes.map (·.name)).Nodup
  ranging : Ranging Node Domain
  rangeUp : List Node → List Node
  rangeUp_perm : ∀ names, (rangeUp names).Perm names

structure Segment (Node : Type*) where
  id : Str
  nodes : List Node

structure Result (Node Address : Type*) where
  members : List (Member Node Address)
  segments : List (Segment Node)
  outOfRange : List Node
  duplicateIndex : List Node
  rejected : List (Node × Reject)
  desired : List Node
  hasPeer : Bool

section Resolve

attribute [local instance] UnionFind.lawfulBEq

variable [LinearOrder Node] [DecidableEq Domain]
variable (apis : Apis Node Domain Address) (call : Call Node Domain)
  (prev : List (Member Node Address))

def acceptReport (raw : Str) : Except Reject (Report Node Domain) :=
  match apis.parseInterconnectReport raw with
  | .error .unknownSchema => .error .unknownSchema
  | .error .other => .error .invalid
  | .ok report =>
    if report.reachablePeers.all fun peer => call.nodes.any fun node => node.name = peer then
      .ok report
    else .error .unknownPeer

def connected (report : Report Node Domain) : Bool :=
  report.peerDomainUUIDs ≠ []

def reportOf (node : NodeInput Node) : Option (Except Reject (Report Node Domain)) :=
  if node.report = [] then none
  else
    match acceptReport apis call node.report with
    | .error reason => some (.error reason)
    | .ok report => if node.fresh then some (.ok report) else some (.error .staleNode)

def acceptedRow (node : NodeInput Node) : Option (Node × Report Node Domain) :=
  match reportOf apis call node with
  | some (.ok report) => some (node.name, report)
  | _ => none

def rejectedRow (node : NodeInput Node) : Option (Node × Reject) :=
  match reportOf apis call node with
  | some (.error reason) => some (node.name, reason)
  | _ => none

omit [DecidableEq Domain] in
theorem acceptedRow_fst {node : NodeInput Node} {row : Node × Report Node Domain}
    (hrow : acceptedRow apis call node = some row) : row.1 = node.name := by
  rw [acceptedRow] at hrow
  split at hrow
  · rw [Option.some.injEq] at hrow
    rw [← hrow]
  · cases hrow

omit [DecidableEq Domain] in
theorem acceptedRows_nodup :
    ((call.nodes.filterMap (acceptedRow apis call)).map Prod.fst).Nodup := by
  refine call.nodup.sublist ?_
  induction call.nodes with
  | nil => exact List.Sublist.refl _
  | cons node nodes ih =>
    rw [List.filterMap_cons, List.map_cons]
    split
    case h_1 => exact ih.cons _
    rename_i row hrow
    rw [List.map_cons, acceptedRow_fst apis call hrow]
    exact ih.cons_cons _

def reports : Reports Node Domain :=
  ⟨call.nodes.filterMap (acceptedRow apis call), acceptedRows_nodup apis call⟩

/-- The member of a name in a status; the last one, had the status two. -/
def prevOf (name : Node) : Option (Member Node Address) :=
  prev.foldl (fun found member => if member.node = name then some member else found) none

def isListed (node : NodeInput Node) : Bool :=
  !(decide (node.name ∈ call.excludedNodes)) && !(decide (node.index < 0)) &&
    (((reports apis call).get? node.name).any connected || (prevOf prev node.name).isSome)

def names : List Node :=
  ((call.nodes.filter (isListed apis call prev)).map (·.name)).insertionSort (· ≤ ·)

def isMember (name : Node) : Bool :=
  decide (name ∈ names apis call prev)

def holders (index : ℤ) : List Node :=
  (call.nodes.filter fun node => node.index = index).map (·.name)

def dupIndex (node : NodeInput Node) : Bool :=
  0 ≤ node.index && 1 < (holders call node.index).length

def byName (name : Node) : Option (NodeInput Node) :=
  call.nodes.find? fun node => node.name = name

def inRange (name : Node) : Bool :=
  (byName call name).any fun node =>
    0 ≤ node.index && node.index ≤ apis.maxInterconnectNodeIndex && !dupIndex call node

def loops (name : Node) : Bool :=
  cableLoops call.ranging (reports apis call) (isMember apis call prev) name

/-- A member whose report may count toward mutual adjacency. -/
def usable (name : Node) : Bool :=
  ((reports apis call).get? name).isSome && isMember apis call prev name &&
    inRange apis call name && !loops apis call prev name

def reachableFrom (name : Node) : List Node :=
  (((reports apis call).get? name).map (·.reachablePeers)).getD []

def mutual_ (name : Node) : List Node :=
  if usable apis call prev name then
    ((reachableFrom apis call name).filter fun peer =>
      !(decide (peer = name)) && usable apis call prev peer &&
        decide (name ∈ reachableFrom apis call peer)).insertionSort (· ≤ ·)
  else []

def heldState (before : Option (Member Node Address)) (peers : List Node) :
    MemberState × Option ℤ :=
  match before with
  | none => (.down, some call.now)
  | some member =>
    let prevLoop := member.state = .loop
    let prevRaw := ¬ prevLoop ∧ member.reachablePeers ≠ []
    if ¬ (peers ≠ [] ↔ prevRaw) ∨ prevLoop then (.down, some call.now)
    else if peers ≠ [] ∧ member.state = .up then (.up, member.lastTransition)
    else if peers ≠ [] then
      match member.lastTransition with
      | some since =>
        if since + upHold ≤ call.now then (.up, some since) else (.down, some since)
      | none => (.down, some call.now)
    else (.down, member.lastTransition)

def loopSince (before : Option (Member Node Address)) : Option ℤ :=
  match before with
  | none => some call.now
  | some member => if member.state = .loop then member.lastTransition else some call.now

def memberAddress (node : NodeInput Node) : Option Address :=
  match apis.interconnectSlotAddress node.index with
  | none => none
  | some address => if dupIndex call node then none else some address

def memberOf (name : Node) : Member Node Address :=
  let before := prevOf prev name
  let peers := mutual_ apis call prev name
  let held := heldState call before peers
  let looped := loops apis call prev name
  { node := name
    -- the status holds the index as an int32
    index := Int.bmod (((byName call name).map NodeInput.index).getD 0) (2 ^ 32)
    state := if looped then .loop else held.1
    speedGbps := (((reports apis call).get? name).map (·.speedGbps)).getD 0
    address := (byName call name).bind (memberAddress apis call)
    reachablePeers := if looped then [] else peers
    lastTransition := if looped then loopSince call before else held.2
    segment := [] }

def rootsOf : UnionFind Node → List Node → List (Node × Node)
  | _, [] => []
  | forest, name :: rest =>
    let found := forest.find name
    (found.1, name) :: rootsOf found.2 rest

def upNames (members : List (Member Node Address)) : List Node :=
  (members.filter fun member => member.state = .up).map (·.node)

def upPairs (members : List (Member Node Address)) : List (Node × Node) :=
  (call.rangeUp (upNames members)).flatMap fun name =>
    (((prevOf members name).map (·.reachablePeers)).getD []).filterMap fun peer =>
      if peer ∈ upNames members then some (name, peer) else none

def startsNoLater : List Node → List Node → Bool
  | [], _ => true
  | _ :: _, [] => false
  | left :: _, right :: _ => left ≤ right

/-- The connected components of the members that are up, by their smallest name. -/
def components (members : List (Member Node Address)) : List (List Node) :=
  let rows := rootsOf (UnionFind.unions (upPairs call members)) (call.rangeUp (upNames members))
  let groups := (rows.map Prod.fst).dedup.map fun root =>
    ((rows.filter fun row => row.1 = root).map Prod.snd).insertionSort (· ≤ ·)
  groups.insertionSort fun left right => startsNoLater left right = true

def segmentId (position : ℕ) : Str :=
  "seg-".toList ++ (Nat.repr position).toList

def segments (members : List (Member Node Address)) : List (Segment Node) :=
  (components call members).zipIdx.map fun entry => ⟨segmentId entry.2, entry.1⟩

def setSegment (found : List (Segment Node)) (member : Member Node Address) : Member Node Address :=
  match found.find? fun segment => member.node ∈ segment.nodes with
  | none => member
  | some segment => { member with segment := segment.id }

def resolve : Result Node Address :=
  let members := (names apis call prev).map (memberOf apis call prev)
  let found := segments call members
  { members := members.map (setSegment found)
    segments := found
    outOfRange := (names apis call prev).filter fun name =>
      (byName call name).all fun node => apis.interconnectSlotAddress node.index = none
    duplicateIndex :=
      ((call.nodes.filter (dupIndex call)).map (·.name)).insertionSort (· ≤ ·)
    rejected := call.nodes.filterMap (rejectedRow apis call)
    desired := if call.enabled then
        (members.filter fun member => member.address.isSome && member.state ≠ .loop).map (·.node)
      else []
    hasPeer := (reports apis call).rows.any fun row => connected row.2 }

end Resolve

variable [LinearOrder Node] [DecidableEq Domain]

  {apis : Apis Node Domain Address} {call : Call Node Domain} {prev : List (Member Node Address)}
  {name : Node} {member before : Member Node Address}

@[simp]
theorem setSegment_node (found : List (Segment Node)) (member : Member Node Address) :
    (setSegment found member).node = member.node := by
  rw [setSegment]
  split <;> rfl

@[simp]
theorem setSegment_state (found : List (Segment Node)) (member : Member Node Address) :
    (setSegment found member).state = member.state := by
  rw [setSegment]
  split <;> rfl

@[simp]
theorem setSegment_reachablePeers (found : List (Segment Node)) (member : Member Node Address) :
    (setSegment found member).reachablePeers = member.reachablePeers := by
  rw [setSegment]
  split <;> rfl

@[simp]
theorem setSegment_lastTransition (found : List (Segment Node)) (member : Member Node Address) :
    (setSegment found member).lastTransition = member.lastTransition := by
  rw [setSegment]
  split <;> rfl

theorem mem_foldl_prevOf {members : List (Member Node Address)}
    {found : Option (Member Node Address)}
    (hfound : members.foldl (fun found member => if member.node = name then some member else found)
      found = some member) : found = some member ∨ member ∈ members ∧ member.node = name := by
  induction members generalizing found with
  | nil => exact .inl hfound
  | cons head tail ih =>
    rw [List.foldl_cons] at hfound
    rcases ih hfound with hhead | ⟨hmem, hname⟩
    · split_ifs at hhead with hname
      · rw [Option.some.injEq] at hhead
        exact .inr ⟨hhead ▸ List.mem_cons_self, hhead ▸ hname⟩
      · exact .inl hhead
    · exact .inr ⟨List.mem_cons_of_mem _ hmem, hname⟩

theorem prevOf_eq_some (hprev : prevOf prev name = some member) :
    member ∈ prev ∧ member.node = name := by
  rcases mem_foldl_prevOf hprev with hnone | hmem
  · cases hnone
  · exact hmem

def Member.Raw (member : Member Node Address) : Prop :=
  member.state ≠ .loop ∧ member.reachablePeers ≠ []

/-- A member with its condition met at one call: listed, so neither excluded nor dropped, in no
loop, and with a mutual peer. -/
structure HeldAt (apis : Apis Node Domain Address) (call : Call Node Domain)
    (prev : List (Member Node Address)) (name : Node) : Prop where
  listed : name ∈ names apis call prev
  unlooped : loops apis call prev name = false
  peer : mutual_ apis call prev name ≠ []

/-- How long a member has been reachable, as its status says after a call: it starts now or
goes on from the status before, and only a hold that is over makes it up. -/
inductive Continues (now : ℤ) (prev : List (Member Node Address)) (member : Member Node Address) :
    Prop
  | starts (hsince : member.lastTransition = some now) (hdown : member.state ≠ .up)
  | goesOn {before : Member Node Address} (hbefore : before ∈ prev)
      (hnode : before.node = member.node)
      (hraw : before.Raw) (hsince : member.lastTransition = before.lastTransition)
      (hup : member.state = .up → before.state = .up ∨
        ∃ since, before.lastTransition = some since ∧ since + upHold ≤ now)

omit [LinearOrder Node] [DecidableEq Domain] in
theorem heldState_up_peers {before : Option (Member Node Address)} {peers : List Node}
    (hup : (heldState call before peers).1 = .up) : peers ≠ [] := by
  rintro rfl
  cases before with
  | none => simp [heldState] at hup
  | some member =>
    simp only [heldState] at hup
    split_ifs at hup with hfirst hsecond hthird
    · exact hsecond.1 rfl
    · exact hthird rfl

theorem memberOf_raw (hraw : (memberOf apis call prev name).Raw) :
    loops apis call prev name = false ∧ mutual_ apis call prev name ≠ [] := by
  obtain ⟨hstate, hpeers⟩ := hraw
  cases hloop : loops apis call prev name with
  | true => simp [memberOf, hloop] at hstate
  | false => exact ⟨rfl, by simpa [memberOf, hloop] using hpeers⟩

theorem memberOf_up_raw (hup : (memberOf apis call prev name).state = .up) :
    (memberOf apis call prev name).Raw := by
  refine ⟨by simp [hup], ?_⟩
  cases hloop : loops apis call prev name with
  | true => simp [memberOf, hloop] at hup
  | false =>
    simp only [memberOf, hloop, Bool.false_eq_true, if_false] at hup ⊢
    exact heldState_up_peers hup

theorem memberOf_continues (hraw : (memberOf apis call prev name).Raw) :
    Continues call.now prev (memberOf apis call prev name) := by
  obtain ⟨hloop, hpeers⟩ := memberOf_raw hraw
  have hstate : (memberOf apis call prev name).state =
      (heldState call (prevOf prev name) (mutual_ apis call prev name)).1 := by
    simp [memberOf, hloop]
  have hlast : (memberOf apis call prev name).lastTransition =
      (heldState call (prevOf prev name) (mutual_ apis call prev name)).2 := by
    simp [memberOf, hloop]
  cases hprev : prevOf prev name with
  | none =>
    rw [hprev] at hstate hlast
    exact .starts hlast (by simp [hstate, heldState])
  | some before =>
    rw [hprev] at hstate hlast
    obtain ⟨hmem, hnode⟩ := prevOf_eq_some hprev
    by_cases hchanged : ¬ (mutual_ apis call prev name ≠ [] ↔
        ¬ before.state = .loop ∧ before.reachablePeers ≠ []) ∨ before.state = .loop
    · simp only [heldState, if_pos hchanged] at hstate hlast
      exact .starts hlast (by simp [hstate])
    have hbefore : before.Raw := by
      rw [not_or, not_not] at hchanged
      exact hchanged.1.1 hpeers
    by_cases hup : before.state = .up
    · simp only [heldState, if_neg hchanged, if_pos (And.intro hpeers hup)] at hstate hlast
      exact .goesOn hmem hnode hbefore hlast fun _ => .inl hup
    simp only [heldState, if_neg hchanged, if_neg (not_and_of_not_right _ hup),
      if_pos hpeers] at hstate hlast
    cases hsince : before.lastTransition with
    | none =>
      simp only [hsince] at hstate hlast
      exact .starts hlast (by simp [hstate])
    | some since =>
      simp only [hsince] at hstate hlast
      by_cases hover : since + upHold ≤ call.now
      · simp only [if_pos hover] at hstate hlast
        exact .goesOn hmem hnode hbefore (hlast.trans hsince.symm) fun _ =>
          .inr ⟨since, hsince, hover⟩
      · simp only [if_neg hover] at hstate hlast
        refine .goesOn hmem hnode hbefore (hlast.trans hsince.symm) fun hnow => ?_
        rw [hstate] at hnow
        cases hnow

theorem resolve_member (hmember : member ∈ (resolve apis call prev).members) :
    member.node ∈ names apis call prev ∧ (member.state = .up → member.Raw) ∧
      (member.Raw → HeldAt apis call prev member.node ∧ Continues call.now prev member) := by
  obtain ⟨plain, hplain, rfl⟩ := List.mem_map.1 hmember
  obtain ⟨name, hname, rfl⟩ := List.mem_map.1 hplain
  have hkeep : ∀ found : List (Segment Node),
      (setSegment found (memberOf apis call prev name)).Raw →
        (memberOf apis call prev name).Raw := by
    intro found hraw
    simpa [Member.Raw] using hraw
  refine ⟨by simpa [memberOf] using hname, fun hup => ?_, fun hraw => ?_⟩
  · rw [setSegment_state] at hup
    simpa [Member.Raw] using memberOf_up_raw hup
  · obtain ⟨hloop, hpeers⟩ := memberOf_raw (hkeep _ hraw)
    refine ⟨by simpa [memberOf] using HeldAt.mk hname hloop hpeers, ?_⟩
    cases memberOf_continues (hkeep _ hraw) with
    | starts hsince hdown => exact .starts (by simpa using hsince) (by simpa using hdown)
    | goesOn hbefore hnode hold hsince hup =>
      exact .goesOn hbefore (by simpa using hnode) hold (by simpa using hsince) (by simpa using hup)

section Calls

variable (apis : Apis Node Domain Address) (calls : ℕ → Call Node Domain)

def status : ℕ → List (Member Node Address)
  | 0 => []
  | count + 1 => (resolve apis (calls count) (status count)).members

/-- A pass publishes the node as up. -/
def UpAt (count : ℕ) (name : Node) : Prop :=
  ∃ member ∈ (resolve apis (calls count) (status apis calls count)).members,
    member.node = name ∧ member.state = .up

/-- At this call the member is listed, so neither excluded nor dropped, is in no loop and has a
mutual peer. -/
def Held (count : ℕ) (name : Node) : Prop :=
  HeldAt apis (calls count) (status apis calls count) name

/-- The member has held at every call from one to another, both included. -/
def HeldFrom (first last : ℕ) (name : Node) : Prop :=
  ∀ count, first ≤ count → count ≤ last → Held apis calls count name

/-- The hold has passed between the two calls. -/
def Ahead (first last : ℕ) : Prop :=
  first < last ∧ (calls first).now + upHold ≤ (calls last).now

variable {apis calls}

structure Remembers (apis : Apis Node Domain Address) (calls : ℕ → Call Node Domain) (last : ℕ)
    (member : Member Node Address) : Prop where
  since : ∃ first ≤ last, member.lastTransition = some (calls first).now ∧
    HeldFrom apis calls first last member.node ∧
    (member.state = .up → ∃ middle ≤ last, Ahead calls first middle)

theorem HeldFrom.succ {first last : ℕ} (hheld : HeldFrom apis calls first last name)
    (hlast : Held apis calls (last + 1) name) : HeldFrom apis calls first (last + 1) name := by
  intro count hfirst hle
  rcases Nat.lt_or_ge last count with hlt | hle
  · have heq : count = last + 1 := by omega
    exact heq ▸ hlast
  · exact hheld count hfirst hle

theorem remembers (last : ℕ) {member : Member Node Address}
    (hmember : member ∈ (resolve apis (calls last) (status apis calls last)).members)
    (hraw : member.Raw) : Remembers apis calls last member := by
  induction last generalizing member with
  | zero =>
    obtain ⟨hheld, hcontinues⟩ := (resolve_member hmember).2.2 hraw
    cases hcontinues with
    | starts hsince hdown =>
      refine ⟨0, le_refl 0, hsince, fun count hfirst hle => ?_, fun hup => absurd hup hdown⟩
      exact Nat.le_zero.1 hle ▸ hheld
    | goesOn hbefore => cases hbefore
  | succ last ih =>
    obtain ⟨hheld, hcontinues⟩ := (resolve_member hmember).2.2 hraw
    cases hcontinues with
    | starts hsince hdown =>
      refine ⟨last + 1, le_refl _, hsince, fun count hfirst hle => ?_, fun hup => absurd hup hdown⟩
      exact Nat.le_antisymm hle hfirst ▸ hheld
    | goesOn hbefore hnode hold hsince hup =>
      obtain ⟨first, hfirst, hthen, hsteady, hwasUp⟩ := ih hbefore hold
      refine ⟨first, by omega, hsince.trans hthen, (hnode ▸ hsteady).succ hheld, fun hnow => ?_⟩
      rcases hup hnow with hwas | ⟨since, hmatch, hover⟩
      · obtain ⟨middle, hmiddle, hahead⟩ := hwasUp hwas
        exact ⟨middle, by omega, hahead⟩
      · rw [hthen, Option.some.injEq] at hmatch
        exact ⟨last + 1, le_refl _, by omega, hmatch ▸ hover⟩

/-- A member that is up has had a mutual peer, outside any loop, at every call from one to this
one, among them one at least `upHold` after the first. -/
theorem up_held_back (apis : Apis Node Domain Address) (calls : ℕ → Call Node Domain) (last : ℕ)
    (name : Node) :
    (UpAt apis calls last name → ∃ first middle, middle ≤ last ∧ Ahead calls first middle ∧
        HeldFrom apis calls first last name) ∧
      ((∀ count, (calls count).now ≤ (calls (count + 1)).now) → UpAt apis calls last name →
        ∃ first, Ahead calls first last ∧ HeldFrom apis calls first last name) ∧
      (¬ Held apis calls last name → ¬ UpAt apis calls last name) := by
  have hearned : UpAt apis calls last name → ∃ first middle, middle ≤ last ∧
      Ahead calls first middle ∧ HeldFrom apis calls first last name := by
    rintro ⟨member, hmember, rfl, hup⟩
    obtain ⟨first, -, -, hheld, hahead⟩ :=
      (remembers last hmember ((resolve_member hmember).2.1 hup)).since
    obtain ⟨middle, hmiddle, hover⟩ := hahead hup
    exact ⟨first, middle, hmiddle, hover, hheld⟩
  refine ⟨hearned, fun hclock hup => ?_, fun hlost hup => hlost ?_⟩
  · obtain ⟨first, middle, hmiddle, ⟨hlt, hover⟩, hheld⟩ := hearned hup
    have hmono : (calls middle).now ≤ (calls last).now := monotone_nat_of_le_succ hclock hmiddle
    exact ⟨first, ⟨by omega, by omega⟩, hheld⟩
  · obtain ⟨first, middle, hmiddle, ⟨hlt, -⟩, hheld⟩ := hearned hup
    exact hheld last (by omega) (le_refl last)

end Calls

/-! ## A clock that is set back

Two cabled nodes that reach each other are looked at 0 s, 60 s and 10 s after the start. -/

def leftReport : Str :=
  ("\x7b\"schema\":1,\"carrier\":true,\"localDomainUUIDs\":[\"A1\"]," ++
    "\"peerDomainUUIDs\":[\"B1\"],\"reachablePeers\":[\"b\"]\x7d").toList

def rightReport : Str :=
  ("\x7b\"schema\":1,\"carrier\":true,\"localDomainUUIDs\":[\"B1\"]," ++
    "\"peerDomainUUIDs\":[\"A1\"],\"reachablePeers\":[\"a\"]\x7d").toList

/-- Node 0 stands for `a` and node 1 for `b`, domain 0 for `A1` and domain 1 for `B1`. -/
def pairApis : Apis ℕ ℕ ℤ where
  parseInterconnectReport raw :=
    if raw = leftReport then .ok ⟨[0], [1], [1], 0⟩
    else if raw = rightReport then .ok ⟨[1], [0], [0], 0⟩
    else .error .other
  interconnectSlotAddress index := if 0 ≤ index ∧ index ≤ 30 then some index else none
  maxInterconnectNodeIndex := 30

def pairCall (seconds : ℤ) : Call ℕ ℕ where
  now := seconds * 1000000000
  enabled := true
  excludedNodes := []
  nodes := [⟨0, 0, true, leftReport⟩, ⟨1, 1, true, rightReport⟩]
  nodup := by decide
  ranging := inOrder
  rangeUp := id
  rangeUp_perm := List.Perm.refl

def pairCalls : ℕ → Call ℕ ℕ
  | 0 => pairCall 0
  | 1 => pairCall 60
  | _ => pairCall 10

theorem pair_up_held_back :
    UpAt pairApis pairCalls 1 0 ∧ ∃ first middle, middle ≤ 1 ∧ Ahead pairCalls first middle ∧
      HeldFrom pairApis pairCalls first 1 0 := by
  have hup : UpAt pairApis pairCalls 1 0 := by
    rw [UpAt]
    decide +kernel
  exact ⟨hup, (up_held_back pairApis pairCalls 1 0).1 hup⟩

theorem pair_up_before_hold :
    UpAt pairApis pairCalls 2 0 ∧ ¬ ∃ first, Ahead pairCalls first 2 ∧
      HeldFrom pairApis pairCalls first 2 0 := by
  constructor
  · rw [UpAt]
    decide +kernel
  · rintro ⟨first, ⟨hlt, hover⟩, -⟩
    have hfirst : first = 0 ∨ first = 1 := by omega
    rcases hfirst with rfl | rfl
    · exact absurd hover (by decide)
    · exact absurd hover (by decide)

end K3sm.Interconnect
