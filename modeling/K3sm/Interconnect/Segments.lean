import K3sm.Interconnect.UpHold

/-!
# Loops and segments in the graph

The marks are what counting the edges and the vertices of a component gives, and the segments
are the components of the members that are up, however the maps are ranged over.
-/

namespace K3sm.Interconnect

open K3sm.Core SimpleGraph List Option
open K3sm.Core.Filepath (Str)

variable {Node Domain Address : Type*} [LinearOrder Node] [DecidableEq Domain]

section Marks

variable {ranging : Ranging Node Domain} {reports : Reports Node Domain} {isMember : Node → Bool}
  {name : Node}

/-- A cable reported twice from both ends, somewhere in a node's component. -/
def Doubled (ranging : Ranging Node Domain) (reports : Reports Node Domain)
    (isMember : Node → Bool) (name : Node) : Prop :=
  ∃ left right, Confirmed ranging reports isMember left right ∧
    (confirmedGraph ranging reports isMember).Reachable name left ∧
    2 ≤ min (seen ranging reports isMember left right) (seen ranging reports isMember right left)

/-- The component has as many edges as nodes, so it holds a loop. -/
def Crowded (graph : SimpleGraph Node) (name : Node) : Prop :=
  Nat.card (near graph name) ≤ Nat.card (graph.induce (near graph name)).edgeSet

theorem finite_near : Finite (near (confirmedGraph ranging reports isMember) name) := by
  refine Set.Finite.subset (finite_toSet (name :: memberNames reports isMember)) ?_
  rintro vertex ⟨walk⟩
  cases hback : walk.reverse with
  | nil => exact mem_cons_self
  | cons hadj _ => exact mem_cons_of_mem _ (Confirmed.mem_memberNames hadj)

theorem looped_iff_counts :
    Looped ranging reports isMember name ↔ Doubled ranging reports isMember name ∨
      Crowded (confirmedGraph ranging reports isMember) name := by
  rw [Crowded, card_near_le_iff finite_near]
  rfl

theorem Looped.confirmed (hlooped : Looped ranging reports isMember name) :
    ∃ other, Confirmed ranging reports isMember name other := by
  have hfirst : ∀ left right, (confirmedGraph ranging reports isMember).Reachable name left →
      Confirmed ranging reports isMember left right →
      ∃ other, Confirmed ranging reports isMember name other := by
    rintro left right ⟨walk⟩ hconfirmed
    cases walk with
    | nil => exact ⟨right, hconfirmed⟩
    | cons hadj _ => exact ⟨_, hadj⟩
  rcases hlooped with ⟨left, right, hconfirmed, hreach, -⟩ | ⟨base, walk, hreach, hcycle⟩
  · exact hfirst left right hreach hconfirmed
  cases walk with
  | nil => exact absurd rfl hcycle.ne_nil
  | cons hadj _ => exact hfirst base _ hreach hadj

theorem cableLoops_counts (name : Node) :
    cableLoops ranging reports isMember name = true ↔
      Crowded (confirmedGraph ranging reports isMember) name ∨
        Doubled ranging reports isMember name ∨ ¬ (peerEntries reports isMember name).Nodup := by
  rw [cableLoops_iff, and_iff_right_of_imp Looped.confirmed, looped_iff_counts]
  tauto

theorem seen_order_free (one two : Ranging Node Domain) :
    seen one reports isMember = seen two reports isMember := by
  classical
  funext name other
  rw [seen_eq, seen_eq]

/-- The orders in which the maps are ranged over do not show in the marks. -/
theorem cableLoops_order_free (one two : Ranging Node Domain) (name : Node) :
    cableLoops one reports isMember name = cableLoops two reports isMember name := by
  have hconfirmed : confirmedGraph one reports isMember = confirmedGraph two reports isMember := by
    ext left right
    simp only [confirmedGraph, Confirmed, seen_order_free one two]
  have hdoubled : Doubled one reports isMember name ↔ Doubled two reports isMember name := by
    simp only [Doubled, Confirmed, hconfirmed, seen_order_free one two]
  rw [Bool.eq_iff_iff, cableLoops_counts, cableLoops_counts, hconfirmed, hdoubled]

end Marks

variable {apis : Apis Node Domain Address} {call : Call Node Domain}
  {prev : List (Member Node Address)} {left right name : Node}

/-- Two members that may be trusted report each other as reachable. -/
structure MutualPeers (apis : Apis Node Domain Address) (call : Call Node Domain)
    (prev : List (Member Node Address)) (left right : Node) : Prop where
  ne : left ≠ right
  usable_left : usable apis call prev left = true
  usable_right : usable apis call prev right = true
  forth : right ∈ reachableFrom apis call left
  back : left ∈ reachableFrom apis call right

theorem MutualPeers.symm (hmutual : MutualPeers apis call prev left right) :
    MutualPeers apis call prev right left :=
  ⟨hmutual.ne.symm, hmutual.usable_right, hmutual.usable_left, hmutual.back, hmutual.forth⟩

theorem mem_mutual : right ∈ mutual_ apis call prev left ↔
    MutualPeers apis call prev left right := by
  rw [mutual_]
  split
  case isFalse husable =>
    exact iff_of_false (not_mem_nil) fun hmutual => husable hmutual.usable_left
  rename_i husable
  simp only [mem_insertionSort, mem_filter, Bool.and_eq_true, Bool.not_eq_true',
    decide_eq_false_iff_not, decide_eq_true_eq]
  constructor
  · rintro ⟨hforth, ⟨hne, hright⟩, hback⟩
    exact ⟨Ne.symm hne, husable, hright, hforth, hback⟩
  · intro hmutual
    exact ⟨hmutual.forth, ⟨hmutual.ne.symm, hmutual.usable_right⟩, hmutual.back⟩

theorem memberOf_reachablePeers (name : Node) :
    (memberOf apis call prev name).reachablePeers = mutual_ apis call prev name := by
  simp only [memberOf]
  split
  case isFalse => rfl
  case isTrue hloop => simp [mutual_, usable, hloop]

/-- The members that are up, as nodes of the graph of mutual reachability. -/
def upGraph (apis : Apis Node Domain Address) (call : Call Node Domain)
    (prev : List (Member Node Address)) : SimpleGraph Node where
  Adj left right := left ∈ upNames (resolve apis call prev).members ∧
    right ∈ upNames (resolve apis call prev).members ∧ MutualPeers apis call prev left right
  symm := ⟨fun _ _ hadj => ⟨hadj.2.1, hadj.1, hadj.2.2.symm⟩⟩
  loopless := ⟨fun _ hadj => hadj.2.2.ne rfl⟩

section Components

variable (apis call prev)

abbrev plain : List (Member Node Address) := (names apis call prev).map (memberOf apis call prev)

theorem upNames_resolve : upNames (resolve apis call prev).members =
    upNames (plain apis call prev) := by
  simp only [upNames, resolve, List.filter_map, List.map_map, Function.comp_def, setSegment_state,
    setSegment_node]

omit [DecidableEq Domain] in
theorem names_nodup : (names apis call prev).Nodup := by
  rw [names, List.Perm.nodup_iff (perm_insertionSort _ _)]
  exact call.nodup.sublist (filter_sublist.map _)

theorem mem_upNames : name ∈ upNames (plain apis call prev) ↔
    name ∈ names apis call prev ∧ (memberOf apis call prev name).state = .up := by
  simp only [upNames, plain, List.filter_map, List.map_map, Function.comp_def, List.mem_map,
    mem_filter, decide_eq_true_eq]
  constructor
  · rintro ⟨other, hother, rfl⟩
    exact hother
  · exact fun hname => ⟨name, hname, rfl⟩

theorem upNames_nodup : (upNames (plain apis call prev)).Nodup := by
  have hnames : (plain apis call prev).map (·.node) = names apis call prev := by
    rw [plain, List.map_map]
    exact map_id _
  exact (hnames ▸ names_nodup apis call prev).sublist (filter_sublist.map _)

variable {apis call prev} in
theorem prevOf_plain (hname : name ∈ names apis call prev) :
    prevOf (plain apis call prev) name = some (memberOf apis call prev name) := by
  have hgeneral : ∀ (names : List Node) (found : Option (Member Node Address)), name ∈ names →
      (names.map (memberOf apis call prev)).foldl
        (fun found member => if member.node = name then some member else found) found =
          some (memberOf apis call prev name) := by
    intro names
    induction names using List.reverseRecOn with
    | nil => exact fun _ hmem => (not_mem_nil hmem).elim
    | append_singleton names last ih =>
      intro found hmem
      rw [map_append, foldl_append]
      by_cases heq : last = name
      · subst heq
        exact if_pos rfl
      · have hbefore : name ∈ names := by simpa [Ne.symm heq] using hmem
        exact (if_neg heq).trans (ih found hbefore)
  exact hgeneral _ _ hname

theorem pairGraph_upPairs : pairGraph (upPairs call (plain apis call prev)) =
    upGraph apis call prev := by
  have hpeers : ∀ name ∈ upNames (plain apis call prev),
      (((prevOf (plain apis call prev) name).map (·.reachablePeers)).getD []) =
        mutual_ apis call prev name := by
    intro name hname
    rw [prevOf_plain ((mem_upNames apis call prev).1 hname).1]
    exact memberOf_reachablePeers name
  have hpair : ∀ left right, (left, right) ∈ upPairs call (plain apis call prev) ↔
      (upGraph apis call prev).Adj left right := by
    intro left right
    simp only [upPairs, upGraph, upNames_resolve, mem_flatMap, mem_filterMap,
      (call.rangeUp_perm _).mem_iff, ite_none_right_eq_some, some.injEq,
      Prod.mk.injEq]
    constructor
    · rintro ⟨name, hname, peer, hmem, hup, rfl, rfl⟩
      exact ⟨hname, hup, mem_mutual.1 (hpeers name hname ▸ hmem)⟩
    · rintro ⟨hleft, hright, hmutual⟩
      exact ⟨left, hleft, right, (hpeers left hleft).symm ▸ mem_mutual.2 hmutual, hright, rfl, rfl⟩
  ext left right
  rw [pairGraph_adj]
  constructor
  · rintro ⟨⟨⟨one, two⟩, hmem, hedge⟩, -⟩
    have hadj := (hpair one two).1 hmem
    rcases Sym2.eq_iff.1 hedge with ⟨rfl, rfl⟩ | ⟨rfl, rfl⟩
    · exact hadj
    · exact hadj.symm
  · exact fun hadj => ⟨⟨(left, right), (hpair left right).2 hadj, rfl⟩, hadj.ne⟩

omit [DecidableEq Domain] in
theorem rootsOf_eq {forest : UnionFind Node} (hordered : forest.Ordered) (names : List Node) :
    rootsOf forest names = names.map fun name => ((forest.find name).1, name) := by
  have hgeneral : ∀ (names : List Node) (later : UnionFind Node), forest.Searched later →
      rootsOf later names = names.map fun name => ((forest.find name).1, name) := by
    intro names
    induction names with
    | nil => exact fun _ _ => rfl
    | cons name names ih =>
      intro later hsearched
      obtain ⟨hroot, hlater⟩ := hsearched.find hordered name
      rw [rootsOf, map_cons, ih _ hlater, hroot]
  exact hgeneral names forest ⟨hordered, fun _ _ hleads => hleads⟩

def rootOf (name : Node) : Node :=
  ((UnionFind.unions (upPairs call (plain apis call prev))).find name).1

theorem rootOf_eq_iff : rootOf apis call prev left = rootOf apis call prev right ↔
    (upGraph apis call prev).Reachable left right := by
  rw [rootOf, rootOf, find_unions_eq_iff, pairGraph_upPairs]

def groupOf (root : Node) : List Node :=
  ((call.rangeUp (upNames (plain apis call prev))).filter fun name =>
    rootOf apis call prev name = root).insertionSort (· ≤ ·)

theorem mem_groupOf {root : Node} : name ∈ groupOf apis call prev root ↔
    name ∈ upNames (plain apis call prev) ∧ rootOf apis call prev name = root := by
  rw [groupOf, mem_insertionSort, mem_filter, (call.rangeUp_perm _).mem_iff,
    decide_eq_true_eq]

def rootsFound : List Node :=
  ((call.rangeUp (upNames (plain apis call prev))).map (rootOf apis call prev)).dedup

theorem components_perm : (components call (plain apis call prev)).Perm
    ((rootsFound apis call prev).map (groupOf apis call prev)) := by
  rw [components, rootsOf_eq (UnionFind.ordered_unions _)]
  refine (List.perm_insertionSort _ _).trans (List.Perm.of_eq ?_)
  rw [List.map_map]
  refine map_congr_left fun root _ => ?_
  rw [List.filter_map, List.map_map]
  exact congrArg (List.insertionSort (· ≤ ·)) (map_id _)

/-- The nodes of a component of the members that are up, smallest first. -/
structure IsComponent (nodes : List Node) : Prop where
  ordered : nodes.Pairwise (· < ·)
  nonempty : nodes ≠ []
  whole : ∀ name ∈ nodes, ∀ other, other ∈ nodes ↔
    other ∈ upNames (resolve apis call prev).members ∧ (upGraph apis call prev).Reachable name other

theorem isComponent_of_mem {nodes : List Node}
    (hnodes : nodes ∈ components call (plain apis call prev)) :
    IsComponent apis call prev nodes := by
  obtain ⟨root, hroot, rfl⟩ := mem_map.1 ((components_perm apis call prev).mem_iff.1 hnodes)
  obtain ⟨first, hfirst, rfl⟩ := mem_map.1 (mem_dedup.1 hroot)
  have hup := (call.rangeUp_perm _).mem_iff.1 hfirst
  constructor
  · have hnodup : (groupOf apis call prev (rootOf apis call prev first)).Nodup := by
      rw [groupOf, List.Perm.nodup_iff (perm_insertionSort _ _)]
      exact ((call.rangeUp_perm _).nodup_iff.2 (upNames_nodup apis call prev)).filter _
    exact (pairwise_insertionSort (· ≤ ·) _).imp₂ (fun _ _ => lt_of_le_of_ne) hnodup
  · exact ne_nil_of_mem ((mem_groupOf apis call prev).2 ⟨hup, rfl⟩)
  · intro name hname other
    rw [mem_groupOf] at hname ⊢
    rw [upNames_resolve, ← rootOf_eq_iff, ← hname.2, eq_comm (a := rootOf apis call prev name)]

theorem exists_component (hname : name ∈ upNames (plain apis call prev)) :
    ∃ nodes ∈ components call (plain apis call prev), name ∈ nodes := by
  refine ⟨groupOf apis call prev (rootOf apis call prev name), ?_,
    (mem_groupOf apis call prev).2 ⟨hname, rfl⟩⟩
  refine (components_perm apis call prev).mem_iff.2 (mem_map_of_mem (mem_dedup.2 ?_))
  exact mem_map_of_mem ((call.rangeUp_perm _).mem_iff.2 hname)

theorem components_disjoint : (components call (plain apis call prev)).Pairwise List.Disjoint := by
  rw [(components_perm apis call prev).pairwise_iff fun hdisjoint => hdisjoint.symm, pairwise_map]
  refine (nodup_dedup _).imp fun hne name hleft hright => hne ?_
  exact ((mem_groupOf apis call prev).1 hleft).2.symm.trans
    ((mem_groupOf apis call prev).1 hright).2

def Before (left right : List Node) : Prop :=
  ∀ one ∈ left.head?, ∀ two ∈ right.head?, one < two

theorem components_ordered : (components call (plain apis call prev)).Pairwise Before := by
  have hsorted : (components call (plain apis call prev)).Pairwise
      fun left right => startsNoLater left right = true := by
    have htotal : Std.Total fun left right : List Node => startsNoLater left right = true := by
      refine ⟨fun left right => ?_⟩
      cases left <;> cases right <;> simp [startsNoLater, le_total]
    have htrans : IsTrans (List Node) fun left right => startsNoLater left right = true := by
      refine ⟨fun left middle right => ?_⟩
      cases left <;> cases middle <;> cases right <;> simp [startsNoLater]
      exact le_trans
    exact pairwise_insertionSort _ _
  refine (hsorted.and (components_disjoint apis call prev)).imp ?_
  rintro left right ⟨hle, hdisjoint⟩ one hone two htwo
  obtain ⟨ones, rfl⟩ := List.head?_eq_some_iff.1 hone
  obtain ⟨twos, rfl⟩ := List.head?_eq_some_iff.1 htwo
  refine lt_of_le_of_ne (by simpa [startsNoLater] using hle) ?_
  rintro rfl
  exact hdisjoint mem_cons_self mem_cons_self

end Components

/-- The segments of a result: numbered by their smallest member, each a component of the members
that are up, and every such member told the one it is in. -/
structure Segmented (apis : Apis Node Domain Address) (call : Call Node Domain)
    (prev : List (Member Node Address)) (result : Result Node Address) : Prop where
  numbered : ∀ position segment, result.segments[position]? = some segment →
    segment.id = segmentId position
  ordered : result.segments.Pairwise fun left right => Before left.nodes right.nodes
  component : ∀ segment ∈ result.segments, IsComponent apis call prev segment.nodes
  up : ∀ member ∈ result.members, member.state = .up → ∃ segment ∈ result.segments,
    member.node ∈ segment.nodes ∧ member.segment = segment.id ∧
      ∀ other ∈ result.segments, member.node ∈ other.nodes → other = segment
  rest : ∀ member ∈ result.members, member.state ≠ .up → member.segment = []

omit [DecidableEq Domain] in
theorem nodes_segments (call : Call Node Domain) (members : List (Member Node Address)) :
    (segments call members).map (·.nodes) = components call members := by
  rw [segments, List.map_map]
  exact List.zipIdx_map_fst _ _

theorem resolve_segmented (apis : Apis Node Domain Address) (call : Call Node Domain)
    (prev : List (Member Node Address)) : Segmented apis call prev (resolve apis call prev) := by
  have hnodes := nodes_segments call (plain apis call prev)
  have hcomponent : ∀ segment ∈ segments call (plain apis call prev),
      segment.nodes ∈ components call (plain apis call prev) :=
    fun segment hsegment => hnodes ▸ mem_map_of_mem hsegment
  have hpart : (segments call (plain apis call prev)).Pairwise
      fun left right => left.nodes.Disjoint right.nodes :=
    pairwise_map.1 (hnodes ▸ components_disjoint apis call prev)
  have halone : ∀ left ∈ segments call (plain apis call prev),
      ∀ right ∈ segments call (plain apis call prev), ∀ name, name ∈ left.nodes →
        name ∈ right.nodes → left = right := by
    intro left hleft right hright name hin hinToo
    by_contra hne
    have : Std.Symm fun left right : Segment Node => left.nodes.Disjoint right.nodes :=
      ⟨fun _ _ hdisjoint => hdisjoint.symm⟩
    exact hpart.forall hleft hright hne hin hinToo
  constructor
  case numbered =>
    intro position segment hsegment
    simp only [resolve, segments, List.getElem?_map, List.getElem?_zipIdx, Option.map_map,
      Option.map_eq_some_iff] at hsegment
    obtain ⟨nodes, -, rfl⟩ := hsegment
    simp
  case ordered => exact pairwise_map.1 (hnodes ▸ components_ordered apis call prev)
  case component =>
    exact fun segment hsegment => isComponent_of_mem apis call prev (hcomponent segment hsegment)
  case up =>
    intro member hmember hup
    obtain ⟨before, hbefore, rfl⟩ := mem_map.1 hmember
    rw [setSegment_state] at hup
    obtain ⟨nodes, hmem, hin⟩ := exists_component apis call prev
      (mem_map.2 ⟨before, mem_filter.2 ⟨hbefore, decide_eq_true hup⟩, rfl⟩)
    rw [← hnodes] at hmem
    obtain ⟨segment, hsegment, rfl⟩ := mem_map.1 hmem
    refine ⟨segment, hsegment, by simpa using hin, ?_, fun other hother hinOther => ?_⟩
    · rw [setSegment]
      cases hfind : (segments call (plain apis call prev)).find?
          fun segment => before.node ∈ segment.nodes with
      | none => exact absurd hin (by simpa using List.find?_eq_none.1 hfind segment hsegment)
      | some found =>
        have hfound := mem_of_find?_eq_some hfind
        rw [halone found hfound segment hsegment before.node
          (by simpa using List.find?_some hfind) hin]
    · exact halone other hother segment hsegment before.node (by simpa using hinOther) hin
  intro member hmember hdown
  obtain ⟨before, hbefore, rfl⟩ := mem_map.1 hmember
  rw [setSegment_state] at hdown
  obtain ⟨name, hname, rfl⟩ := mem_map.1 hbefore
  have hnone : (segments call (plain apis call prev)).find?
      (fun segment => (memberOf apis call prev name).node ∈ segment.nodes) = none := by
    refine List.find?_eq_none.2 fun segment hsegment hin => hdown ?_
    have hcomp := isComponent_of_mem apis call prev (hcomponent segment hsegment)
    have hin : name ∈ segment.nodes := of_decide_eq_true hin
    have hup := ((hcomp.whole name hin name).1 hin).1
    rw [upNames_resolve] at hup
    exact ((mem_upNames apis call prev).1 hup).2
  rw [setSegment, hnone]
  rfl

/-- Loops, segments and peers are those of the cables that both ends report. -/
theorem loops_and_segments (apis : Apis Node Domain Address) (call : Call Node Domain)
    (prev : List (Member Node Address)) :
    (∀ (ranging : Ranging Node Domain) (reports : Reports Node Domain)
      (isMember : Node → Bool) name,
      cableLoops ranging reports isMember name = true ↔
        Crowded (confirmedGraph ranging reports isMember) name ∨
          Doubled ranging reports isMember name ∨ ¬ (peerEntries reports isMember name).Nodup) ∧
      Segmented apis call prev (resolve apis call prev) ∧
      (∀ left ∈ (resolve apis call prev).members, ∀ right ∈ (resolve apis call prev).members,
        (right.node ∈ left.reachablePeers ↔ MutualPeers apis call prev left.node right.node) ∧
        (right.node ∈ left.reachablePeers ↔ left.node ∈ right.reachablePeers)) := by
  have hpeers : ∀ left ∈ (resolve apis call prev).members, ∀ name,
      name ∈ left.reachablePeers ↔ MutualPeers apis call prev left.node name := by
    intro left hleft name
    obtain ⟨before, hbefore, rfl⟩ := mem_map.1 hleft
    obtain ⟨other, hother, rfl⟩ := mem_map.1 hbefore
    rw [setSegment_reachablePeers, setSegment_node, memberOf_reachablePeers, mem_mutual]
    rfl
  refine ⟨fun _ _ _ name => cableLoops_counts name, resolve_segmented apis call prev, ?_⟩
  intro left hleft right hright
  refine ⟨hpeers left hleft right.node, ?_⟩
  rw [hpeers left hleft, hpeers right hright]
  exact ⟨MutualPeers.symm, MutualPeers.symm⟩

/-! ## A segment whose number changes

Two cabled pairs, `a` with `b` and `c` with `d`; nodes and domains are numbered. -/

def cabledReport (own far peer : String) : Str :=
  ("\x7b\"schema\":1,\"carrier\":true,\"localDomainUUIDs\":[\"" ++ own ++
    "\"],\"peerDomainUUIDs\":[\"" ++ far ++ "\"],\"reachablePeers\":[\"" ++ peer ++
      "\"]\x7d").toList

def pairsApis : Apis ℕ ℕ ℤ where
  parseInterconnectReport raw :=
    if raw = cabledReport "A1" "B1" "b" then .ok ⟨[0], [1], [1], 0⟩
    else if raw = cabledReport "B1" "A1" "a" then .ok ⟨[1], [0], [0], 0⟩
    else if raw = cabledReport "C1" "D1" "d" then .ok ⟨[2], [3], [3], 0⟩
    else if raw = cabledReport "D1" "C1" "c" then .ok ⟨[3], [2], [2], 0⟩
    else .error .other
  interconnectSlotAddress index := if 0 ≤ index ∧ index ≤ 30 then some index else none
  maxInterconnectNodeIndex := 30

def secondPair : List (NodeInput ℕ) :=
  [⟨2, 2, true, cabledReport "C1" "D1" "d"⟩, ⟨3, 3, true, cabledReport "D1" "C1" "c"⟩]

def bothPairs : List (NodeInput ℕ) :=
  [⟨0, 0, true, cabledReport "A1" "B1" "b"⟩, ⟨1, 1, true, cabledReport "B1" "A1" "a"⟩] ++ secondPair

def pairsCall (nodes : List (NodeInput ℕ)) (hnodup : (nodes.map (·.name)).Nodup) : Call ℕ ℕ :=
  { pairCall 0 with nodes := nodes, nodup := hnodup }

def pairsBefore : List (Member ℕ ℤ) :=
  [(0, 1), (1, 0), (2, 3), (3, 2)].map fun entry =>
    ⟨entry.1, entry.1, .up, 0, some entry.1, [entry.2], some 0, []⟩

/-- The number of a segment is not told by its smallest member. -/
theorem segment_renumbered :
    ¬ ∃ naming : ℕ → Str, ∀ (call : Call ℕ ℕ) (prev : List (Member ℕ ℤ)),
      ∀ segment ∈ (resolve pairsApis call prev).segments, ∀ first ∈ segment.nodes.head?,
        segment.id = naming first := by
  rintro ⟨naming, hnaming⟩
  have hboth := hnaming (pairsCall bothPairs (by decide)) pairsBefore
  have hsecond := hnaming (pairsCall secondPair (by decide)) pairsBefore
  have hnumberOne : (resolve pairsApis (pairsCall bothPairs (by decide))
      pairsBefore).segments[1]?.map (fun segment => (segment.id, segment.nodes)) =
        some (segmentId 1, [2, 3]) := by decide +kernel
  have hnumberZero : (resolve pairsApis (pairsCall secondPair (by decide))
      pairsBefore).segments[0]?.map (fun segment => (segment.id, segment.nodes)) =
        some (segmentId 0, [2, 3]) := by decide +kernel
  obtain ⟨one, hone, hpair⟩ := map_eq_some_iff.1 hnumberOne
  obtain ⟨zero, hzero, hpair'⟩ := map_eq_some_iff.1 hnumberZero
  have hfirst := hboth one (mem_of_getElem? hone) 2 (by rw [(Prod.mk.inj hpair).2]; rfl)
  have hfirst' := hsecond zero (mem_of_getElem? hzero) 2 (by rw [(Prod.mk.inj hpair').2]; rfl)
  rw [(Prod.mk.inj hpair).1] at hfirst
  rw [(Prod.mk.inj hpair').1] at hfirst'
  exact absurd (hfirst.trans hfirst'.symm) (by decide +kernel)

end K3sm.Interconnect
