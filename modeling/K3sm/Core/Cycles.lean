import K3sm.Core.UnionFind

/-!
# Cycles and counting

A connected graph holds a cycle exactly when it has at least as many edges as vertices.
Here the graph is a list of pairs, so the count can be compared with the count a program
makes, and the second half says where the cycles of a graph are when it has none away from
one vertex.
-/

namespace K3sm.Core

open SimpleGraph List

variable {Vertex : Type*} {graph : SimpleGraph Vertex} {centre start : Vertex}

def CycleNear (graph : SimpleGraph Vertex) (start : Vertex) : Prop :=
  ∃ (base : Vertex) (walk : graph.Walk base base), graph.Reachable start base ∧ walk.IsCycle

def near (graph : SimpleGraph Vertex) (start : Vertex) : Set Vertex :=
  {vertex | graph.Reachable start vertex}

theorem induce_near_isAcyclic_iff :
    (graph.induce (near graph start)).IsAcyclic ↔ ¬ CycleNear graph start := by
  classical
  constructor
  · rintro hacyclic ⟨base, walk, hreach, hcycle⟩
    have hinside : ∀ vertex ∈ walk.support, vertex ∈ near graph start := by
      intro vertex hvertex
      exact hreach.trans ⟨walk.takeUntil vertex hvertex⟩
    rw [← walk.map_induce hinside] at hcycle
    exact hacyclic (walk.induce _ hinside) hcycle.of_map
  · intro hnone base walk hcycle
    refine hnone ⟨base, walk.map (Embedding.induce _).toHom, base.2, ?_⟩
    exact (Walk.isCycle_map_iff_of_injective Subtype.val_injective).2 hcycle

theorem induce_near_connected : (graph.induce (near graph start)).Connected := by
  have hstart : start ∈ near graph start := Reachable.refl start
  refine (connected_iff_exists_forall_reachable _).2 ⟨⟨start, hstart⟩, ?_⟩
  rintro ⟨vertex, walk⟩
  classical
  obtain ⟨walk⟩ := walk
  have hinside : ∀ other ∈ walk.support, other ∈ near graph start :=
    fun other hother => ⟨walk.takeUntil other hother⟩
  exact ⟨walk.induce _ hinside⟩

def pairGraph (pairs : List (Vertex × Vertex)) : SimpleGraph Vertex :=
  fromEdgeSet {edge | ∃ pair ∈ pairs, s(pair.1, pair.2) = edge}

structure SimplePairs (pairs : List (Vertex × Vertex)) : Prop where
  ne : ∀ pair ∈ pairs, pair.1 ≠ pair.2
  nodup : (pairs.map fun pair => s(pair.1, pair.2)).Nodup

variable {pairs : List (Vertex × Vertex)}

theorem pairGraph_adj {left right : Vertex} :
    (pairGraph pairs).Adj left right ↔
      (∃ pair ∈ pairs, s(pair.1, pair.2) = s(left, right)) ∧ left ≠ right :=
  fromEdgeSet_adj _

theorem SimplePairs.adj (hsimple : SimplePairs pairs) {pair : Vertex × Vertex}
    (hpair : pair ∈ pairs) : (pairGraph pairs).Adj pair.1 pair.2 :=
  pairGraph_adj.2 ⟨⟨pair, hpair, rfl⟩, hsimple.ne pair hpair⟩

def ends (pairs : List (Vertex × Vertex)) : List Vertex :=
  pairs.flatMap fun pair => [pair.1, pair.2]

theorem mem_ends {vertex : Vertex} :
    vertex ∈ ends pairs ↔ ∃ pair ∈ pairs, vertex = pair.1 ∨ vertex = pair.2 := by
  simp [ends]

section Count

variable {mine : Vertex × Vertex → Bool}
  (hmine : ∀ pair ∈ pairs, mine pair = true ↔ (pairGraph pairs).Reachable start pair.1)

include hmine

theorem ends_mine (hsimple : SimplePairs pairs) (hstart : start ∈ ends pairs) (vertex : Vertex) :
    vertex ∈ ends (pairs.filter mine) ↔ vertex ∈ near (pairGraph pairs) start := by
  have hpick : ∀ pair ∈ pairs, ∀ vertex, (vertex = pair.1 ∨ vertex = pair.2) →
      (pairGraph pairs).Reachable vertex pair.1 := by
    rintro pair hpair vertex (rfl | rfl)
    · exact Reachable.refl _
    · exact (hsimple.adj hpair).symm.reachable
  constructor
  · intro hvertex
    obtain ⟨pair, hpair, hend⟩ := mem_ends.1 hvertex
    obtain ⟨hmem, hin⟩ := mem_filter.1 hpair
    exact ((hmine pair hmem).1 hin).trans (hpick pair hmem vertex hend).symm
  intro hnear
  -- a vertex of the component is the end of some pair, and the pair is of the component
  obtain ⟨pair, hmem, hend⟩ : ∃ pair ∈ pairs, vertex = pair.1 ∨ vertex = pair.2 := by
    obtain ⟨walk⟩ := hnear
    cases hback : walk.reverse with
    | nil => exact mem_ends.1 hstart
    | cons hadj _ =>
      obtain ⟨⟨pair, hmem, hedge⟩, -⟩ := pairGraph_adj.1 hadj
      refine ⟨pair, hmem, ?_⟩
      rcases Sym2.eq_iff.1 hedge with ⟨hfirst, -⟩ | ⟨-, hsecond⟩
      · exact .inl hfirst.symm
      · exact .inr hsecond.symm
  refine mem_ends.2 ⟨pair, mem_filter.2 ⟨hmem, ?_⟩, hend⟩
  exact (hmine pair hmem).2 (hnear.trans (hpick pair hmem vertex hend))

theorem card_near [DecidableEq Vertex] (hsimple : SimplePairs pairs) (hstart : start ∈ ends pairs) :
    Nat.card (near (pairGraph pairs) start) = (ends (pairs.filter mine)).toFinset.card := by
  have hset : near (pairGraph pairs) start = ↑(ends (pairs.filter mine)).toFinset := by
    ext vertex
    rw [← ends_mine hmine hsimple hstart vertex, Finset.mem_coe, mem_toFinset]
  rw [hset, Nat.card_coe_set_eq, Set.ncard_coe_finset]

theorem card_edges_near (hsimple : SimplePairs pairs) :
    Nat.card ((pairGraph pairs).induce (near (pairGraph pairs) start)).edgeSet =
      (pairs.filter mine).length := by
  classical
  have himage : Sym2.map Subtype.val ''
      ((pairGraph pairs).induce (near (pairGraph pairs) start)).edgeSet =
        ↑((pairs.filter mine).map fun pair => s(pair.1, pair.2)).toFinset := by
    ext edge
    rw [Finset.mem_coe, mem_toFinset, mem_map]
    constructor
    · rintro ⟨inner, hinner, rfl⟩
      induction inner with
      | _ left right =>
        obtain ⟨⟨pair, hmem, hedge⟩, -⟩ :=
          pairGraph_adj.1 (show (pairGraph pairs).Adj left right from hinner)
        refine ⟨pair, mem_filter.2 ⟨hmem, ?_⟩, hedge⟩
        rw [hmine pair hmem]
        rcases Sym2.eq_iff.1 hedge with ⟨hfirst, -⟩ | ⟨hfirst, -⟩
        · exact hfirst ▸ left.2
        · exact hfirst ▸ right.2
    · rintro ⟨pair, hpair, rfl⟩
      obtain ⟨hmem, hin⟩ := mem_filter.1 hpair
      have hfirst := (hmine pair hmem).1 hin
      have hadj := hsimple.adj hmem
      refine ⟨s(⟨pair.1, hfirst⟩, ⟨pair.2, hfirst.trans hadj.reachable⟩), hadj, rfl⟩
  have hnodup : ((pairs.filter mine).map fun pair => s(pair.1, pair.2)).Nodup :=
    hsimple.nodup.sublist (filter_sublist.map _)
  calc Nat.card ((pairGraph pairs).induce (near (pairGraph pairs) start)).edgeSet
      = ((pairGraph pairs).induce (near (pairGraph pairs) start)).edgeSet.ncard :=
        Nat.card_coe_set_eq _
    _ = (Sym2.map Subtype.val ''
      ((pairGraph pairs).induce (near (pairGraph pairs) start)).edgeSet).ncard :=
        (Set.ncard_image_of_injective _ (Sym2.map.injective Subtype.val_injective)).symm
    _ = ((pairs.filter mine).map fun pair => s(pair.1, pair.2)).toFinset.card := by
        rw [himage, Set.ncard_coe_finset]
    _ = (pairs.filter mine).length := by
        rw [toFinset_card_of_nodup hnodup, length_map]

omit hmine in
theorem card_near_le_iff (hfinite : Finite (near graph start)) :
    Nat.card (near graph start) ≤ Nat.card (graph.induce (near graph start)).edgeSet ↔
      CycleNear graph start := by
  have hconnected : (graph.induce (near graph start)).Connected := induce_near_connected
  have hbound := hconnected.card_vert_le_card_edgeSet_add_one
  have htree := isTree_iff_connected_and_card (G := graph.induce (near graph start))
  have hacyclic : (graph.induce (near graph start)).IsAcyclic ↔ ¬ CycleNear graph start :=
    induce_near_isAcyclic_iff
  constructor
  · intro hle
    by_contra hnone
    have := (htree.1 ⟨hconnected, hacyclic.2 hnone⟩).2
    omega
  · intro hcycle
    by_contra hlt
    have hcount : Nat.card (graph.induce (near graph start)).edgeSet + 1 =
        Nat.card (near graph start) := by
      omega
    exact hacyclic.1 (htree.2 ⟨hconnected, hcount⟩).isAcyclic hcycle

theorem card_ends_le_iff [DecidableEq Vertex] (hsimple : SimplePairs pairs)
    (hstart : start ∈ ends pairs) :
    (ends (pairs.filter mine)).toFinset.card ≤ (pairs.filter mine).length ↔
      CycleNear (pairGraph pairs) start := by
  have hvertices := card_near hmine hsimple hstart
  have hedges := card_edges_near hmine hsimple
  have hfinite : Finite (near (pairGraph pairs) start) := by
    refine Nat.finite_of_card_ne_zero ?_
    rw [hvertices, Finset.card_ne_zero]
    exact ⟨start, mem_toFinset.2 ((ends_mine hmine hsimple hstart start).2 (Reachable.refl start))⟩
  rw [← card_near_le_iff hfinite, hvertices, hedges]

end Count

theorem find_unions_eq_iff [LinearOrder Vertex] (pairs : List (Vertex × Vertex))
    (left right : Vertex) :
    ((UnionFind.unions pairs).find left).1 = ((UnionFind.unions pairs).find right).1 ↔
      (pairGraph pairs).Reachable left right := by
  have hordered := UnionFind.ordered_unions pairs
  rw [← UnionFind.same_iff_find hordered]
  constructor
  · intro hsame
    refine UnionFind.same_unions_imp (reachable_is_equivalence _) (fun pair hpair => ?_) hsame
    by_cases heq : pair.1 = pair.2
    · exact heq ▸ Reachable.refl _
    · exact Adj.reachable (pairGraph_adj.2 ⟨⟨pair, hpair, rfl⟩, heq⟩)
  rintro ⟨walk⟩
  induction walk with
  | nil => exact hordered.same_refl _
  | cons hadj _ ih =>
    refine UnionFind.Same.trans ?_ ih
    obtain ⟨⟨pair, hpair, hedge⟩, -⟩ := pairGraph_adj.1 hadj
    have hsame := UnionFind.same_unions hpair
    rcases Sym2.eq_iff.1 hedge with ⟨hfirst, hsecond⟩ | ⟨hfirst, hsecond⟩
    · rw [← hfirst, ← hsecond]
      exact hsame
    · rw [← hfirst, ← hsecond]
      exact hsame.symm

/-! ## One vertex with all the cycles -/

def without (graph : SimpleGraph Vertex) (centre : Vertex) : SimpleGraph Vertex where
  Adj left right := graph.Adj left right ∧ left ≠ centre ∧ right ≠ centre
  symm := ⟨fun _ _ hadj => ⟨hadj.1.symm, hadj.2.2, hadj.2.1⟩⟩
  loopless := ⟨fun _ hadj => graph.loopless.irrefl _ hadj.1⟩

theorem without_le : without graph centre ≤ graph := fun _ _ hadj => hadj.1

theorem edges_without {left right : Vertex} (walk : graph.Walk left right)
    (havoid : centre ∉ walk.support) :
    ∀ edge ∈ walk.edges, edge ∈ (without graph centre).edgeSet := by
  intro edge hedge
  induction edge with
  | _ first second =>
    refine ⟨walk.adj_of_mem_edges hedge, ?_, ?_⟩
    · rintro rfl
      exact havoid (walk.fst_mem_support_of_mem_edges hedge)
    · rintro rfl
      exact havoid (walk.snd_mem_support_of_mem_edges hedge)

theorem centre_mem_support_of_isCycle (hacyclic : (without graph centre).IsAcyclic)
    {base : Vertex} {walk : graph.Walk base base} (hcycle : walk.IsCycle) :
    centre ∈ walk.support := by
  by_contra havoid
  exact hacyclic _ (hcycle.transfer (edges_without walk havoid))

theorem exists_neighbours_of_isCycle {walk : graph.Walk centre centre} (hcycle : walk.IsCycle) :
    ∃ left right, graph.Adj centre left ∧ graph.Adj centre right ∧ left ≠ right ∧
      (without graph centre).Reachable left right := by
  cases walk with
  | nil => exact absurd hcycle Walk.not_isCycle_nil
  | @cons _ left _ hleft rest =>
    rw [Walk.cons_isCycle_iff] at hcycle
    obtain ⟨hpath, hedge⟩ := hcycle
    cases hback : rest.reverse with
    | nil => exact absurd hleft (graph.loopless.irrefl _)
    | @cons _ right _ hright front =>
      have hpath' : (Walk.cons hright front).IsPath := hback ▸ hpath.reverse
      have havoid : centre ∉ front.support := ((Walk.cons_isPath_iff _ _).1 hpath').2
      refine ⟨left, right, hleft, hright, ?_, ?_⟩
      · rintro rfl
        refine hedge ?_
        rw [← mem_reverse, ← Walk.edges_reverse, hback]
        exact mem_cons_self
      · exact ⟨(front.transfer _ (edges_without front havoid)).reverse⟩

theorem exists_isCycle_of_neighbours {left right : Vertex} (hleft : graph.Adj centre left)
    (hright : graph.Adj centre right) (hne : left ≠ right)
    (hreach : (without graph centre).Reachable left right) :
    ∃ walk : graph.Walk centre centre, walk.IsCycle := by
  classical
  obtain ⟨path, hpath⟩ := hreach.exists_isPath
  have havoid : centre ∉ path.support := by
    intro hmem
    have hnotnil : ¬ path.Nil := fun hnil => hne hnil.eq
    obtain ⟨other, hadj⟩ : ∃ other, (without graph centre).Adj centre other := by
      by_cases hstart : centre = left
      · exact absurd hleft (hstart ▸ graph.loopless.irrefl _)
      have hlast := (path.takeUntil centre hmem).reverse
      cases hlast with
      | nil => exact absurd rfl hstart
      | cons hadj _ => exact ⟨_, hadj⟩
    exact hadj.2.1 rfl
  let lifted := path.mapLe without_le
  have hlifted : lifted.IsPath := hpath.mapLe without_le
  have hsupport : lifted.support = path.support := Walk.support_mapLe_eq_support without_le path
  have hclosed : (lifted.concat hright.symm).IsPath := by
    refine hlifted.concat ?_ hright.symm
    rw [hsupport]
    exact havoid
  refine ⟨.cons hleft (lifted.concat hright.symm), (Walk.cons_isCycle_iff _ _).2 ⟨hclosed, ?_⟩⟩
  rw [Walk.edges_concat, concat_eq_append, mem_append, mem_singleton]
  rintro (hedge | hedge)
  · exact havoid (hsupport ▸ lifted.fst_mem_support_of_mem_edges hedge)
  rw [Sym2.eq_iff] at hedge
  rcases hedge with ⟨rfl, -⟩ | ⟨-, hsame⟩
  · exact absurd hright (graph.loopless.irrefl _)
  · exact hne hsame

/-- A graph without cycles away from its centre has a cycle near a vertex exactly when that is
connected to the centre and two of its neighbours are connected without it. -/
theorem cycleNear_iff (hacyclic : (without graph centre).IsAcyclic) :
    CycleNear graph start ↔ graph.Reachable centre start ∧
      ∃ left right, graph.Adj centre left ∧ graph.Adj centre right ∧ left ≠ right ∧
        (without graph centre).Reachable left right := by
  classical
  constructor
  · rintro ⟨base, walk, hreach, hcycle⟩
    have hmem := centre_mem_support_of_isCycle hacyclic hcycle
    have hcentre : graph.Reachable base centre := ⟨walk.takeUntil centre hmem⟩
    exact ⟨(hreach.trans hcentre).symm, exists_neighbours_of_isCycle (hcycle.rotate hmem)⟩
  · rintro ⟨hreach, left, right, hleft, hright, hne, hjoined⟩
    obtain ⟨walk, hcycle⟩ := exists_isCycle_of_neighbours hleft hright hne hjoined
    exact ⟨centre, walk, hreach.symm, hcycle⟩

end K3sm.Core
