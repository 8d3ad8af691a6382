import K3sm.Interconnect.CableLoops

/-!
# Cables and what is reported of them

The cables that are really there join domains of Macs, of cluster members and of others.
With no cycle and no doubled cable among them and every member but one reporting what it
sees, a loop can only be marked through the one that does not.
-/

namespace K3sm.Interconnect

open K3sm.Core SimpleGraph

variable {Node Domain : Type*}

/-- The Macs as they are cabled in fact. -/
structure Cabling (Node Domain : Type*) where
  /-- The Mac a domain is of. -/
  host : Domain → Option Node
  cables : List (Domain × Domain)
  hosted : ∀ cable ∈ cables, host cable.1 ≠ none ∧ host cable.2 ≠ none

namespace Cabling

variable (cabling : Cabling Node Domain)

def joins (cable : Domain × Domain) : Sym2 (Option Node) :=
  s(cabling.host cable.1, cabling.host cable.2)

def graph : SimpleGraph Node where
  Adj left right := left ≠ right ∧
    ∃ cable ∈ cabling.cables, cabling.joins cable = s(some left, some right)
  symm := ⟨fun _ _ hadj => ⟨hadj.1.symm, Sym2.eq_swap ▸ hadj.2⟩⟩
  loopless := ⟨fun _ hadj => hadj.1 rfl⟩

/-- No cycle, no cable from a Mac to itself, and no two cables between two Macs. -/
structure Loopless : Prop where
  acyclic : cabling.graph.IsAcyclic
  apart : ∀ cable ∈ cabling.cables, cabling.host cable.1 ≠ cabling.host cable.2
  single : (cabling.cables.map cabling.joins).Nodup

variable [DecidableEq Node]

def far (mac : Node) : List Domain :=
  cabling.cables.filterMap fun cable =>
    if cabling.host cable.1 = some mac then some cable.2
    else if cabling.host cable.2 = some mac then some cable.1
    else none

structure Truthful (mac : Node) (report : Report Node Domain) : Prop where
  locals : ∀ domain, domain ∈ report.localDomainUUIDs ↔ cabling.host domain = some mac
  peers : report.peerDomainUUIDs.Perm (cabling.far mac)

variable {cabling} {mac : Node}

theorem joins_far {cable : Domain × Domain} {domain : Domain}
    (hfar : (if cabling.host cable.1 = some mac then some cable.2
      else if cabling.host cable.2 = some mac then some cable.1 else none) = some domain) :
    s(some mac, cabling.host domain) = cabling.joins cable := by
  split_ifs at hfar with hfirst hsecond
  · rw [joins, hfirst, Option.some.inj hfar]
  · rw [joins, hsecond, Option.some.inj hfar, Sym2.eq_swap]

theorem map_far_sublist :
    ((cabling.far mac).map fun domain => s(some mac, cabling.host domain)).Sublist
      (cabling.cables.map cabling.joins) := by
  rw [far]
  induction cabling.cables with
  | nil => exact List.Sublist.refl _
  | cons cable cables ih =>
    rw [List.filterMap_cons, List.map_cons]
    split
    case h_1 => exact ih.cons _
    rename_i domain hfar
    rw [List.map_cons, joins_far hfar]
    exact ih.cons_cons _

theorem Loopless.hosts_nodup (hloopless : cabling.Loopless) (mac : Node) :
    ((cabling.far mac).map cabling.host).Nodup := by
  have hjoins : ((cabling.far mac).map fun domain => s(some mac, cabling.host domain)).Nodup :=
    hloopless.single.sublist map_far_sublist
  have hcomp : (fun domain => s(some mac, cabling.host domain)) =
      (fun other => s(some mac, other)) ∘ cabling.host := rfl
  rw [hcomp, ← List.map_map] at hjoins
  exact hjoins.of_map

theorem adj_of_mem_far {domain : Domain} {other : Node} (hne : mac ≠ other)
    (hmem : domain ∈ cabling.far mac) (hhost : cabling.host domain = some other) :
    cabling.graph.Adj mac other := by
  obtain ⟨cable, hcable, hfar⟩ := List.mem_filterMap.1 hmem
  exact ⟨hne, cable, hcable, hhost ▸ (joins_far hfar).symm⟩

end Cabling

section Liar

variable [LinearOrder Node] [DecidableEq Domain] {cabling : Cabling Node Domain}
  {ranging : Ranging Node Domain} {reports : Reports Node Domain} {isMember : Node → Bool}
  {liar : Node}

/-- Every member but the liar reports what it is cabled to. -/
def HonestBut (cabling : Cabling Node Domain) (reports : Reports Node Domain)
    (isMember : Node → Bool) (liar : Node) : Prop :=
  ∀ row ∈ reports.rows, isMember row.1 = true → row.1 ≠ liar → cabling.Truthful row.1 row.2

/-- An honest member that no cable confirmed by both ends joins to the liar. -/
structure Innocent (ranging : Ranging Node Domain) (reports : Reports Node Domain)
    (isMember : Node → Bool) (liar name : Node) : Prop where
  member : isMember name = true
  honest : name ≠ liar
  cabled : ∀ other, Confirmed ranging reports isMember name other → other ≠ liar

omit [DecidableEq Domain] in
theorem HonestBut.host_of_names (hhonest : HonestBut cabling reports isMember liar) {other : Node}
    {domain : Domain} (hother : other ≠ liar) (hnames : Names reports isMember other domain) :
    cabling.host domain = some other := by
  obtain ⟨hmember, report, hrow, hlocal⟩ := (hnames other).2 rfl
  exact ((hhonest (other, report) hrow hmember hother).locals domain).1 hlocal

omit [DecidableEq Domain] in
theorem HonestBut.peers_perm (hhonest : HonestBut cabling reports isMember liar) {name : Node}
    (hname : name ≠ liar) :
    peerEntries reports isMember name = [] ∨
      (peerEntries reports isMember name).Perm (cabling.far name) := by
  rw [peerEntries]
  by_cases hmember : isMember name = true
  swap
  · exact .inl (if_neg hmember)
  rw [if_pos hmember]
  cases hget : reports.get? name with
  | none => exact .inl rfl
  | some report =>
    exact .inr (hhonest (name, report) (Reports.get?_eq_some.1 hget) hmember hname).peers

omit [DecidableEq Domain] in
theorem HonestBut.peers_hosts_nodup (hhonest : HonestBut cabling reports isMember liar)
    (hloopless : cabling.Loopless) {name : Node} (hname : name ≠ liar) :
    ((peerEntries reports isMember name).map cabling.host).Nodup := by
  rcases hhonest.peers_perm hname with hnone | hperm
  · rw [hnone]
    exact List.nodup_nil
  · exact (hperm.map _).nodup_iff.2 (hloopless.hosts_nodup name)

section

variable (hhonest : HonestBut cabling reports isMember liar)

include hhonest

theorem HonestBut.seen_le_one (hloopless : cabling.Loopless) {name other : Node}
    (hname : name ≠ liar) (hother : other ≠ liar) :
    seen ranging reports isMember name other ≤ 1 := by
  classical
  rw [seen_eq]
  calc (peerEntries reports isMember name).countP
        (fun domain => decide (Names reports isMember other domain) && !decide (other = name))
      ≤ (peerEntries reports isMember name).countP
          (fun domain => cabling.host domain == some other) := by
        refine List.countP_mono_left fun domain _ hnames => ?_
        rw [Bool.and_eq_true, decide_eq_true_eq] at hnames
        exact beq_iff_eq.2 (hhonest.host_of_names hother hnames.1)
    _ = ((peerEntries reports isMember name).map cabling.host).count (some other) := by
        rw [List.count, List.countP_map]
        rfl
    _ ≤ 1 := List.nodup_iff_count_le_one.1 (hhonest.peers_hosts_nodup hloopless hname) _

theorem HonestBut.adj_of_confirmed {left right : Node} (hleft : left ≠ liar) (hright : right ≠ liar)
    (hconfirmed : Confirmed ranging reports isMember left right) :
    cabling.graph.Adj left right := by
  obtain ⟨domain, hentry, hnames, hne⟩ := seen_pos_iff.1 hconfirmed.1
  have hhost := hhonest.host_of_names hright hnames
  rcases hhonest.peers_perm hleft with hnone | hperm
  · rw [hnone] at hentry
    cases hentry
  · exact Cabling.adj_of_mem_far hne.symm (hperm.mem_iff.1 hentry) hhost

theorem HonestBut.without_acyclic (hloopless : cabling.Loopless) :
    (without (confirmedGraph ranging reports isMember) liar).IsAcyclic :=
  hloopless.acyclic.anti fun _ _ hadj => hhonest.adj_of_confirmed hadj.2.1 hadj.2.2 hadj.1

end

/-- The liar has at most one confirmed cable, and that a single one, into every group of honest
members that confirmed cables connect. -/
structure SingleInto (ranging : Ranging Node Domain) (reports : Reports Node Domain)
    (isMember : Node → Bool) (liar : Node) : Prop where
  single : ∀ other, min (seen ranging reports isMember liar other)
    (seen ranging reports isMember other liar) ≤ 1
  groups : ∀ left right, Confirmed ranging reports isMember liar left →
    Confirmed ranging reports isMember liar right →
    (without (confirmedGraph ranging reports isMember) liar).Reachable left right → left = right

/-- Every honest member the liar is connected to it is cabled to. -/
def AllDirect (ranging : Ranging Node Domain) (reports : Reports Node Domain)
    (isMember : Node → Bool) (liar : Node) : Prop :=
  ∀ name, name ≠ liar → (confirmedGraph ranging reports isMember).Reachable liar name →
    Confirmed ranging reports isMember liar name

theorem HonestBut.looped_iff (hhonest : HonestBut cabling reports isMember liar)
    (hloopless : cabling.Loopless) (name : Node) :
    Looped ranging reports isMember name ↔
      (confirmedGraph ranging reports isMember).Reachable liar name ∧
        ¬ SingleInto ranging reports isMember liar := by
  have hacyclic : (without (confirmedGraph ranging reports isMember) liar).IsAcyclic :=
    hhonest.without_acyclic hloopless
  rw [Looped, cycleNear_iff hacyclic]
  constructor
  · rintro (⟨left, right, hconfirmed, hreach, htwo⟩ | ⟨hreach, left, right, hleft, hright,
      hne, hjoined⟩)
    · have hends : left = liar ∨ right = liar := by
        by_contra hneither
        obtain ⟨hleft, hright⟩ := not_or.1 hneither
        have hone : seen ranging reports isMember left right ≤ 1 :=
          hhonest.seen_le_one hloopless hleft hright
        omega
      have hadj : (confirmedGraph ranging reports isMember).Adj left right := hconfirmed
      rcases hends with rfl | rfl
      · refine ⟨hreach.symm, fun hsingle => ?_⟩
        have := hsingle.single right
        omega
      · refine ⟨(hreach.trans hadj.reachable).symm, fun hsingle => ?_⟩
        have := hsingle.single left
        rw [min_comm] at this
        omega
    · exact ⟨hreach, fun hsingle => hne (hsingle.groups left right hleft hright hjoined)⟩
  rintro ⟨hreach, hnot⟩
  by_cases hdoubled : ∃ other, 2 ≤ min (seen ranging reports isMember liar other)
      (seen ranging reports isMember other liar)
  · obtain ⟨other, htwo⟩ := hdoubled
    exact .inl ⟨liar, other, ⟨by omega, by omega⟩, hreach.symm, htwo⟩
  · refine .inr ⟨hreach, ?_⟩
    by_contra hnone
    refine hnot ⟨fun other => ?_, fun left right hleft hright hjoined => ?_⟩
    · by_contra hmore
      exact hdoubled ⟨other, by omega⟩
    · by_contra hne
      exact hnone ⟨left, right, hleft, hright, hne, hjoined⟩

/-- No honest member with honest neighbours is marked, exactly when the liar has at most one
confirmed cable into each honest group, or a cable to every member of its component. -/
theorem innocent_unmarked_iff (cabling : Cabling Node Domain) (ranging : Ranging Node Domain)
    (reports : Reports Node Domain) (isMember : Node → Bool) (liar : Node)
    (hloopless : cabling.Loopless) (hhonest : HonestBut cabling reports isMember liar) :
    (∀ name, Innocent ranging reports isMember liar name →
        cableLoops ranging reports isMember name = false) ↔
      SingleInto ranging reports isMember liar ∨ AllDirect ranging reports isMember liar := by
  constructor
  · intro hunmarked
    rw [or_iff_not_imp_left]
    intro hnot name hname hreach
    by_contra hindirect
    -- a member the liar reaches and is not cabled to is innocent, and it is marked
    obtain ⟨other, hconfirmed⟩ : ∃ other, Confirmed ranging reports isMember name other := by
      obtain ⟨walk⟩ := hreach.symm
      cases walk with
      | nil => exact absurd rfl hname
      | cons hadj _ => exact ⟨_, hadj⟩
    have hmember : isMember name = true := by
      obtain ⟨_, hentry, -, -⟩ := seen_pos_iff.1 hconfirmed.1
      exact (mem_peerEntries.1 hentry).1
    have hinnocent : Innocent ranging reports isMember liar name := by
      refine ⟨hmember, hname, fun other hother heq => ?_⟩
      exact hindirect (heq ▸ hother.symm)
    have hmarked : cableLoops ranging reports isMember name = true :=
      (cableLoops_iff name).2
        (.inr ⟨⟨other, hconfirmed⟩, (hhonest.looped_iff hloopless name).2 ⟨hreach, hnot⟩⟩)
    rw [hunmarked name hinnocent] at hmarked
    cases hmarked
  intro hcase name hinnocent
  rw [← Bool.not_eq_true, cableLoops_iff]
  rintro (hrepeated | ⟨-, hlooped⟩)
  · exact hrepeated (hhonest.peers_hosts_nodup hloopless hinnocent.honest).of_map
  obtain ⟨hreach, hnot⟩ := (hhonest.looped_iff hloopless name).1 hlooped
  rcases hcase with hsingle | hdirect
  · exact hnot hsingle
  · exact hinnocent.cabled liar (hdirect name hinnocent.honest hreach).symm rfl

end Liar

/-! ## A liar that takes over the domains of strangers

Node 0 has one cable, to node 1, and node 1 has two more to the Macs 5 and 6, which are not
in the cluster.  Node 2 has none and claims the two domains of the strangers. -/

def borrowedCabling : Cabling ℕ ℕ where
  host domain :=
    if domain = 0 then some 0
    else if domain = 1 ∨ domain = 2 ∨ domain = 3 then some 1
    else if domain = 5 then some 5
    else if domain = 6 then some 6
    else none
  cables := [(0, 1), (2, 5), (3, 6)]
  hosted := by decide

def borrowedReports : Reports ℕ ℕ where
  rows := [(0, ⟨[0], [1], [1], 40⟩), (1, ⟨[1, 2, 3], [0, 5, 6], [0], 40⟩),
    (2, ⟨[5, 6], [2, 3], [], 40⟩)]
  nodup := by decide

theorem borrowed_adj {left right : ℕ} (hadj : (without borrowedCabling.graph 1).Adj left right) :
    False := by
  obtain ⟨⟨-, cable, hcable, hjoins⟩, hleft, hright⟩ := hadj
  have hall : ∀ cable ∈ borrowedCabling.cables, some 1 ∈ borrowedCabling.joins cable := by decide
  have hone := hall cable hcable
  rw [hjoins, Sym2.mem_iff, Option.some.injEq, Option.some.injEq] at hone
  omega

theorem borrowed_loopless : borrowedCabling.Loopless where
  acyclic := by
    intro base walk hcycle
    have hedgeless : (without borrowedCabling.graph 1).IsAcyclic := by
      intro start other hother
      cases other with
      | nil => exact Walk.not_isCycle_nil hother
      | cons hadj _ => exact borrowed_adj hadj
    have hmem := centre_mem_support_of_isCycle hedgeless hcycle
    obtain ⟨left, right, -, -, hne, ⟨other⟩⟩ := exists_neighbours_of_isCycle (hcycle.rotate hmem)
    cases other with
    | nil => exact hne rfl
    | cons hadj _ => exact borrowed_adj hadj
  apart := by decide
  single := by decide

theorem borrowed_honest : HonestBut borrowedCabling borrowedReports (fun _ => true) 2 := by
  intro row hrow _ hliar
  simp only [borrowedReports, List.mem_cons, List.not_mem_nil, or_false] at hrow
  rcases hrow with rfl | rfl | rfl
  · refine ⟨fun domain => ?_, by decide⟩
    simp only [borrowedCabling]
    grind
  · refine ⟨fun domain => ?_, by decide⟩
    simp only [borrowedCabling]
    grind
  · exact absurd rfl hliar

theorem borrowed_innocent : Innocent inOrder borrowedReports (fun _ => true) 2 0 := by
  refine ⟨rfl, by decide, ?_⟩
  rintro other hconfirmed rfl
  exact absurd hconfirmed.1 (by decide)

theorem borrowed_innocent_unmarked_iff :
    borrowedCabling.Loopless ∧ HonestBut borrowedCabling borrowedReports (fun _ => true) 2 ∧
      ((∀ name, Innocent inOrder borrowedReports (fun _ => true) 2 name →
          cableLoops inOrder borrowedReports (fun _ => true) name = false) ↔
        SingleInto inOrder borrowedReports (fun _ => true) 2 ∨
          AllDirect inOrder borrowedReports (fun _ => true) 2) :=
  ⟨borrowed_loopless, borrowed_honest,
    innocent_unmarked_iff borrowedCabling inOrder borrowedReports
      (fun _ => true) 2 borrowed_loopless
      borrowed_honest⟩

theorem borrowed_domains_mark_innocent :
    borrowedCabling.Loopless ∧ HonestBut borrowedCabling borrowedReports (fun _ => true) 2 ∧
      ¬ ∀ name, Innocent inOrder borrowedReports (fun _ => true) 2 name →
        cableLoops inOrder borrowedReports (fun _ => true) name = false := by
  refine ⟨borrowed_loopless, borrowed_honest, fun hunmarked => ?_⟩
  have hmarked : cableLoops inOrder borrowedReports (fun _ => true) 0 = true := by decide
  rw [hunmarked 0 borrowed_innocent] at hmarked
  cases hmarked

end K3sm.Interconnect
