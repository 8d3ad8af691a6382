import Mathlib.Data.Finset.Sort
import Mathlib.Data.List.Chain
import Mathlib.Data.List.Rotate
import K3sm.Core.Orderings

/-!
# The rings of an up-link graph

A cycle is reported from its smallest node on and in one of its two directions.  Rotations
have one form that starts there, and of the two directions one has the smaller second node.
-/

namespace K3sm.Mlx

open List K3sm.Core

variable {Name : Type}

section Names

variable {first : Name} {rest other : List Name}

theorem ends_ne {second last : Name} (hnodup : rest.Nodup) (hlength : 2 ≤ rest.length)
    (hsecond : second ∈ rest.head?) (hlast : last ∈ rest.getLast?) : second ≠ last := by
  obtain _ | ⟨next, _ | ⟨third, more⟩⟩ := rest
  · cases hsecond
  · simp at hlength
  cases hsecond
  rw [getLast?_cons_cons] at hlast
  rintro rfl
  exact (nodup_cons.1 hnodup).1 (mem_of_getLast? hlast)

/-- A rotation that starts at the same node moves nothing. -/
theorem eq_of_rotated (hnodup : (first :: rest).Nodup)
    (hrotated : first :: other ~r first :: rest) :
    other = rest := by
  obtain ⟨places, hplaces⟩ := hrotated.symm
  rw [rotate_eq_drop_append_take_mod] at hplaces
  have hsplit := take_append_drop (places % (first :: rest).length) (first :: rest)
  generalize take (places % (first :: rest).length) (first :: rest) = front at hplaces hsplit
  generalize drop (places % (first :: rest).length) (first :: rest) = back at hplaces hsplit
  obtain _ | ⟨least, front⟩ := front
  · simp_all
  obtain _ | ⟨again, back⟩ := back
  · simp_all
  obtain ⟨-, rfl⟩ := cons.inj hsplit
  obtain ⟨rfl, -⟩ := cons.inj hplaces
  exact absurd (mem_append_right _ mem_cons_self) (nodup_cons.1 hnodup).1

theorem hops_all {relation : Name → Name → Prop} (names : List Name) (last : Name) :
    (∀ hop ∈ names.zip (names.tail ++ [last]), relation hop.1 hop.2) ↔
      (names ++ [last]).IsChain relation := by
  induction names with
  | nil => simp
  | cons name rest ih =>
    cases rest with
    | nil => simp
    | cons next rest =>
      simp only [cons_append, tail_cons, zip_cons_cons, forall_mem_cons, isChain_cons_cons] at ih ⊢
      rw [ih]

theorem exists_of_chain {relation : Name → Name → Prop} {names : List Name} {last : Name}
    (hchain : (names ++ [last]).IsChain relation) : ∀ name ∈ names, ∃ next, relation name next := by
  induction names with
  | nil => simp
  | cons name rest ih =>
    cases rest with
    | nil => simpa using ⟨last, (isChain_cons_cons.1 hchain).1⟩
    | cons next rest =>
      obtain ⟨hnext, hrest⟩ := isChain_cons_cons.1 hchain
      exact forall_mem_cons.2 ⟨⟨next, hnext⟩, ih hrest⟩

end Names

variable [LinearOrder Name]

structure Edge where
  localRDMA : String
  peerRDMA : String

def Edge.rdma (edge : Edge) : Bool := edge.localRDMA != "" && edge.peerRDMA != ""

/-- The cables of each Mac, by the Mac at the other end. -/
structure Graph (Name : Type) where
  edges : List (Name × List (Name × Edge))

namespace Graph

variable (graph : Graph Name)

def link (node peer : Name) : Option Edge := (graph.edges.lookup node).bind (List.lookup peer)

def edge (node peer : Name) : Option Edge :=
  if (graph.link peer node).isSome then graph.link node peer else none

def connected (node peer : Name) (requireRDMA : Bool) : Bool :=
  match graph.edge node peer with
  | none => false
  | some edge => !requireRDMA || (edge.rdma && (graph.link peer node).any Edge.rdma)

def nodes : List Name :=
  (graph.edges.flatMap fun entry => entry.1 :: entry.2.map Prod.fst).toFinset.sort

/-- Each node with the next, and the last with the first. -/
def hops (cycle : List Name) : List (Name × Name) := cycle.zip (cycle.rotate 1)

def descends (rest : List Name) : Bool :=
  match rest.head?, rest.getLast? with
  | some first, some last => decide (last < first)
  | _, _ => false

def ringsOf (n : ℕ) : List Name → List (List Name)
  | [] => []
  | first :: others =>
    ((Orderings.permutations others).filter fun rest => !(decide (2 < n) && descends rest) &&
      (hops (first :: rest)).all fun hop => graph.connected hop.1 hop.2 false).map (first :: ·)

/-- Every ring of so many Macs, each in one spelling, in order. -/
def ring (n : ℕ) : List (List Name) :=
  if n < 2 then []
  else ((Orderings.combinations graph.nodes n).flatMap (graph.ringsOf n)).insertionSort (· ≤ ·)

def Linked (node peer : Name) : Prop :=
  (graph.link node peer).isSome = true ∧ (graph.link peer node).isSome = true

/-- A closed tour of cables through so many different Macs. -/
structure IsCycle (n : ℕ) (cycle : List Name) : Prop where
  length : cycle.length = n
  nodup : cycle.Nodup
  linked : (cycle ++ cycle.take 1).IsChain graph.Linked

end Graph

/-- The smallest node is first, and the second is smaller than the last. -/
structure Canonical (n : ℕ) (cycle : List Name) : Prop where
  least : ∀ first ∈ cycle.head?, ∀ name ∈ cycle, first ≤ name
  ascends : 2 < n → ∀ second ∈ cycle.tail.head?, ∀ last ∈ cycle.tail.getLast?, second < last

section Cycles

variable {graph : Graph Name} {n : ℕ} {cycle other rest : List Name} {first : Name}

theorem connected_iff {node peer : Name} :
    graph.connected node peer false = true ↔ graph.Linked node peer := by
  unfold Graph.connected Graph.edge Graph.Linked
  cases graph.link node peer <;> cases graph.link peer node <;> simp

theorem linked_symm {node peer : Name} (hlinked : graph.Linked node peer) :
    graph.Linked peer node := hlinked.symm

theorem Graph.Linked.mem_nodes {node peer : Name} (hlinked : graph.Linked node peer) :
    node ∈ graph.nodes := by
  obtain ⟨edge, hedge⟩ := Option.isSome_iff_exists.1 hlinked.1
  obtain ⟨peers, hpeers, -⟩ := Option.bind_eq_some_iff.1 hedge
  rw [Graph.nodes, Finset.mem_sort, mem_toFinset, mem_flatMap]
  obtain ⟨before, after, hsplit, -⟩ := lookup_eq_some_iff.1 hpeers
  exact ⟨(node, peers), by simp [hsplit], by simp⟩

theorem descends_eq_false : Graph.descends rest = false ↔
    ∀ second ∈ rest.head?, ∀ last ∈ rest.getLast?, second ≤ last := by
  unfold Graph.descends
  cases rest.head? <;> cases rest.getLast? <;> simp

theorem mem_ringsOf {set : List Name} (hset : set.Pairwise (· < ·)) (hlength : set.length = n)
    (hn : 2 ≤ n) : cycle ∈ graph.ringsOf n set ↔
      cycle.Perm set ∧ graph.IsCycle n cycle ∧ Canonical n cycle := by
  obtain _ | ⟨first, others⟩ := set
  · simp at hlength
    omega
  obtain ⟨hfirst, hothers⟩ := pairwise_cons.1 hset
  have hvisited : ∀ rest, rest ∈ Orderings.permutations others ↔ rest.Perm others := fun rest => by
    rw [(Orderings.permutations_perm (hothers.imp ne_of_lt)).mem_iff, mem_permutations]
  have hhops : ∀ rest, ((Graph.hops (first :: rest)).all fun hop =>
      graph.connected hop.1 hop.2 false) = true ↔
        (first :: rest ++ [first]).IsChain graph.Linked := fun rest => by
    rw [Graph.hops, rotate_cons_succ, rotate_zero, ← hops_all, all_eq_true]
    exact forall₂_congr fun _ _ => connected_iff
  have hmin : ∀ name ∈ first :: others, first ≤ name :=
    forall_mem_cons.2 ⟨le_rfl, fun name hname => (hfirst name hname).le⟩
  simp only [Graph.ringsOf, mem_map, mem_filter, hvisited, Bool.and_eq_true, hhops]
  constructor
  · rintro ⟨rest, ⟨hrest, hdirection, hchain⟩, rfl⟩
    have hperm := hrest.cons first
    have hnodup : (first :: rest).Nodup := hperm.nodup_iff.2 (hset.imp ne_of_lt)
    refine ⟨hperm, ⟨hperm.length_eq.trans hlength, hnodup, hchain⟩, ?_, ?_⟩
    · rintro least ⟨⟩ name hname
      exact hmin name (hperm.mem_iff.1 hname)
    intro hmore second hsecond last hlast
    rw [Bool.not_eq_true', decide_eq_true hmore, Bool.true_and, descends_eq_false] at hdirection
    have hlonger : 2 ≤ rest.length := by
      have := hperm.length_eq.trans hlength
      simp at this
      omega
    exact lt_of_le_of_ne (hdirection second hsecond last hlast)
      (ends_ne (nodup_cons.1 hnodup).2 hlonger hsecond hlast)
  rintro ⟨hperm, hcycle, hcanonical⟩
  obtain _ | ⟨least, rest⟩ := cycle
  · cases hperm.length_eq
  obtain rfl : least = first := le_antisymm (hcanonical.least _ rfl _ (hperm.mem_iff.2 (by simp)))
    (hmin _ (hperm.mem_iff.1 (by simp)))
  refine ⟨rest, ⟨hperm.cons_inv, ?_, hcycle.linked⟩, rfl⟩
  rw [Bool.not_eq_true', Bool.and_eq_false_iff, decide_eq_false_iff_not]
  by_cases hmore : 2 < n
  · right
    rw [descends_eq_false]
    exact fun second hsecond last hlast => (hcanonical.ascends hmore second hsecond last hlast).le
  · exact .inl hmore

theorem pairwise_nodes : graph.nodes.Pairwise (· < ·) := (Finset.sortedLT_sort _).pairwise

theorem mem_ring (hn : 2 ≤ n) :
    cycle ∈ graph.ring n ↔ graph.IsCycle n cycle ∧ Canonical n cycle := by
  rw [Graph.ring, if_neg (by omega), (perm_insertionSort _ _).mem_iff, mem_flatMap]
  constructor
  · rintro ⟨set, hset, hcycle⟩
    rw [(Orderings.combinations_perm _ _).mem_iff, mem_sublistsLen] at hset
    exact ((mem_ringsOf (pairwise_nodes.sublist hset.1) hset.2 hn).1 hcycle).2
  rintro ⟨hcycle, hcanonical⟩
  -- the cycle's nodes in the order of the graph's
  have hmem : ∀ name ∈ cycle, name ∈ graph.nodes := by
    intro name hname
    obtain _ | ⟨first, rest⟩ := cycle
    · cases hname
    obtain ⟨next, hnext⟩ := exists_of_chain hcycle.linked name hname
    exact hnext.mem_nodes
  have hperm : cycle.Perm (graph.nodes.filter (· ∈ cycle)) := by
    rw [perm_ext_iff_of_nodup hcycle.nodup ((pairwise_nodes.imp ne_of_lt).filter _)]
    intro name
    simpa using hmem name
  have hlength := hperm.length_eq.symm.trans hcycle.length
  refine ⟨_, ?_, (mem_ringsOf (pairwise_nodes.filter _) hlength hn).2 ⟨hperm, hcycle, hcanonical⟩⟩
  rw [(Orderings.combinations_perm _ _).mem_iff, mem_sublistsLen]
  exact ⟨filter_sublist, hlength⟩

theorem sorted_ring (hn : 2 ≤ n) : (graph.ring n).Pairwise (· < ·) := by
  have hsets : ∀ set ∈ Orderings.combinations graph.nodes n,
      set.Pairwise (· < ·) ∧ set.length = n := by
    intro set hset
    rw [(Orderings.combinations_perm _ _).mem_iff, mem_sublistsLen] at hset
    exact ⟨pairwise_nodes.sublist hset.1, hset.2⟩
  have hnodup : ((Orderings.combinations graph.nodes n).flatMap (graph.ringsOf n)).Nodup := by
    refine nodup_flatMap.2 ⟨?_, ?_⟩
    · rintro (_ | ⟨first, others⟩) hset
      · exact nodup_nil
      have hothers := (pairwise_cons.1 (hsets _ hset).1).2.imp ne_of_lt
      refine Nodup.map cons_injective (Nodup.filter _ ?_)
      exact (Orderings.permutations_perm hothers).nodup_iff.2 (nodup_permutations _ hothers)
    refine Pairwise.imp_of_mem ?_ ((Orderings.combinations_perm _ _).nodup_iff.2
      (nodup_sublistsLen n (pairwise_nodes.imp ne_of_lt)))
    intro left right hleft hright hne cycle hcycle hother
    obtain ⟨hleft, hlength⟩ := hsets _ hleft
    obtain ⟨hright, hlength'⟩ := hsets _ hright
    have hperm := ((mem_ringsOf hleft hlength hn).1 hcycle).1.symm.trans
      ((mem_ringsOf hright hlength' hn).1 hother).1
    exact hne (hperm.eq_of_pairwise (fun _ _ _ _ hlt hgt => absurd hlt hgt.asymm) hleft hright)
  rw [Graph.ring, if_neg (by omega)]
  refine ((pairwise_insertionSort _ _).and ((perm_insertionSort _ _).nodup_iff.2 hnodup)).imp ?_
  exact fun hboth => lt_of_le_of_ne hboth.1 hboth.2

theorem IsCycle.rotated (hcycle : graph.IsCycle n cycle) (hrotated : other ~r cycle) :
    graph.IsCycle n other := by
  obtain ⟨places, rfl⟩ := hrotated.symm
  refine ⟨by simp [hcycle.length], nodup_rotate.2 hcycle.nodup, ?_⟩
  rw [rotate_eq_drop_append_take_mod]
  have hlinked := hcycle.linked
  rw [← take_append_drop (places % cycle.length) cycle] at hlinked
  generalize take (places % cycle.length) cycle = front at hlinked ⊢
  generalize drop (places % cycle.length) cycle = back at hlinked ⊢
  obtain _ | ⟨first, front⟩ := front
  · simpa using hlinked
  obtain _ | ⟨next, back⟩ := back
  · simpa using hlinked
  -- the two halves meet at the two nodes that a start is chosen from
  simp only [cons_append, take_succ_cons, take_zero, append_assoc] at hlinked ⊢
  rw [← cons_append, isChain_split] at hlinked ⊢
  exact ⟨by simpa using hlinked.2, by simpa using hlinked.1⟩

theorem IsCycle.reversed (hcycle : graph.IsCycle n (first :: rest)) :
    graph.IsCycle n (first :: rest.reverse) := by
  refine ⟨by simpa using hcycle.length, by simpa using hcycle.nodup, ?_⟩
  have hlinked : (first :: rest ++ [first]).reverse.IsChain graph.Linked :=
    isChain_reverse.2 (hcycle.linked.imp fun _ _ => linked_symm)
  simpa using hlinked

/-- The smallest node's rotation, in one direction or the other. -/
theorem exists_canonical (hn : 2 ≤ n) (hcycle : graph.IsCycle n cycle) :
    ∃ found, graph.IsCycle n found ∧ Canonical n found ∧
    (found ~r cycle ∨ found ~r cycle.reverse) := by
  have hfull : cycle ≠ [] := by
    rintro rfl
    have := hcycle.length
    simp at this
    omega
  obtain ⟨first, hfirst, hleast⟩ :=
    cycle.toFinset.exists_min_image id ((toFinset_nonempty_iff _).2 hfull)
  obtain ⟨front, back, rfl⟩ := append_of_mem (mem_toFinset.1 hfirst)
  have hrotated : first :: (back ++ front) ~r front ++ first :: back := by
    simpa using (@isRotated_append _ front (first :: back)).symm
  have hstarts := IsCycle.rotated hcycle hrotated
  have hmin : ∀ name ∈ back ++ front, first ≤ name := by
    intro name hname
    exact hleast name (mem_toFinset.2 (by simp at hname ⊢; tauto))
  generalize hrest : back ++ front = rest at hrotated hstarts hmin
  by_cases hascends : 2 < n → ∀ second ∈ rest.head?, ∀ last ∈ rest.getLast?, second < last
  · refine ⟨_, hstarts, ⟨?_, hascends⟩, .inl hrotated⟩
    rintro least ⟨⟩ name hname
    exact (mem_cons.1 hname).elim (fun hsame => hsame ▸ le_rfl) (hmin name)
  push Not at hascends
  obtain ⟨hmore, second, hsecond, last, hlast, hle⟩ := hascends
  have hlonger : 2 ≤ rest.length := by
    have := hstarts.length
    simp at this
    omega
  have hne := ends_ne (nodup_cons.1 hstarts.nodup).2 hlonger hsecond hlast
  refine ⟨_, IsCycle.reversed hstarts, ⟨?_, ?_⟩, .inr ?_⟩
  · rintro least ⟨⟩ name hname
    exact (mem_cons.1 hname).elim (fun hsame => hsame ▸ le_rfl)
      fun hname => hmin name (mem_reverse.1 hname)
  · intro _ start hstart final hfinal
    rw [tail_cons, head?_reverse] at hstart
    rw [tail_cons, getLast?_reverse] at hfinal
    rw [Option.mem_unique hstart hlast, Option.mem_unique hfinal hsecond]
    exact lt_of_le_of_ne hle hne.symm
  · refine IsRotated.trans ?_ hrotated.reverse
    simpa using (@isRotated_append _ rest.reverse [first]).symm

theorem canonical_unique (hn : 2 ≤ n) (hcycle : graph.IsCycle n cycle)
    (hcanonical : Canonical n cycle)
    (hother : Canonical n other) (hsame : other ~r cycle ∨ other ~r cycle.reverse) :
    other = cycle := by
  have hperm : other.Perm cycle :=
    hsame.elim IsRotated.perm fun hreversed => hreversed.perm.trans (reverse_perm _)
  obtain _ | ⟨first, rest⟩ := cycle
  · exact hperm.eq_nil
  obtain _ | ⟨least, others⟩ := other
  · cases hperm.length_eq
  obtain rfl : least = first := le_antisymm (hother.least _ rfl _ (hperm.mem_iff.2 mem_cons_self))
    (hcanonical.least _ rfl _ (hperm.mem_iff.1 mem_cons_self))
  rcases hsame with hrotated | hreversed
  · rw [eq_of_rotated hcycle.nodup hrotated]
  have hmirrored : others = rest.reverse := by
    refine eq_of_rotated (by simpa using hcycle.nodup) (hreversed.trans ?_)
    simpa using @isRotated_append _ rest.reverse [least]
  obtain _ | ⟨second, more⟩ := rest
  · rw [hmirrored]
    rfl
  by_cases hmore : 2 < n
  · -- the last node of one direction is the second of the other
    subst hmirrored
    obtain ⟨last, hlast⟩ := Option.isSome_iff_exists.1 (getLast?_isSome.2 (cons_ne_nil second more))
    have hforth := hcanonical.ascends hmore second rfl last hlast
    have hback := hother.ascends hmore last (head?_reverse.trans hlast) second (by simp)
    exact absurd hforth hback.asymm
  · have hlength := hcycle.length
    obtain rfl : more = [] := by
      rw [← length_eq_zero_iff]
      simp at hlength
      omega
    rw [hmirrored]
    rfl

end Cycles

/-- `ring` lists the canonical cycles in order, each cycle has one of them, and the orderings
it is searched in are all there. -/
theorem ring_exact (graph : Graph Name) (n : ℕ) (hn : 2 ≤ n) :
    (graph.ring n).Pairwise (· < ·) ∧
      (∀ cycle, cycle ∈ graph.ring n ↔ graph.IsCycle n cycle ∧ Canonical n cycle) ∧
      (∀ cycle, graph.IsCycle n cycle →
        ∃! found, found ∈ graph.ring n ∧ (found ~r cycle ∨ found ~r cycle.reverse)) ∧
      ∀ items order : List Name, order.Perm items → order ∈ Orderings.permutations items := by
  refine ⟨sorted_ring hn, fun _ => mem_ring hn, ?_, fun _ _ => Orderings.mem_permutations⟩
  intro cycle hcycle
  obtain ⟨found, hfound, hcanonical, hsame⟩ := exists_canonical hn hcycle
  refine ⟨found, ⟨(mem_ring hn).2 ⟨hfound, hcanonical⟩, hsame⟩, ?_⟩
  rintro other ⟨hother, hagain⟩
  refine canonical_unique hn hfound hcanonical ((mem_ring hn).1 hother).2 ?_
  rcases hagain with hagain | hagain <;> rcases hsame with hsame | hsame
  · exact .inl (hagain.trans hsame.symm)
  · exact .inr (hagain.trans (by simpa using hsame.symm.reverse))
  · exact .inr (hagain.trans hsame.symm.reverse)
  · exact .inl (hagain.trans hsame.symm)

def triangle : Graph ℕ where
  edges :=
    [(0, [(1, ⟨"", ""⟩), (2, ⟨"", ""⟩)]), (1, [(0, ⟨"", ""⟩), (2, ⟨"", ""⟩)]),
      (2, [(0, ⟨"", ""⟩), (1, ⟨"", ""⟩)])]

theorem ring_exact_triangle : [0, 1, 2] ∈ triangle.ring 3 := by
  refine ((ring_exact triangle 3 (by decide)).2.1 _).2 ⟨⟨rfl, by decide, ?_⟩, ?_, ?_⟩
  · exact .cons_cons ⟨rfl, rfl⟩ (.cons_cons ⟨rfl, rfl⟩ (.cons_cons ⟨rfl, rfl⟩ (.singleton _)))
  · simp
  · simp

end K3sm.Mlx
