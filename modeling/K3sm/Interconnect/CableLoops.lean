import K3sm.Core.Cycles

/-!
# Loops in the cable graph

Every node reports the Thunderbolt domains of its own ports and the domains it sees across its
cables.  A cable counts only when both ends report it, and `cableLoops` marks the members whose
part of the confirmed graph holds a doubled cable or a cycle.
-/

namespace K3sm.Interconnect

open K3sm.Core SimpleGraph List Function

variable {Node Domain : Type*}

structure Report (Node Domain : Type*) where
  localDomainUUIDs : List Domain
  /-- One entry for every connected port. -/
  peerDomainUUIDs : List Domain
  reachablePeers : List Node
  speedGbps : ℤ

/-- The accepted reports, one for each node. -/
structure Reports (Node Domain : Type*) where
  rows : List (Node × Report Node Domain)
  nodup : (rows.map Prod.fst).Nodup

variable [LinearOrder Node] [DecidableEq Domain]

attribute [local instance] UnionFind.lawfulBEq

def Reports.get? (reports : Reports Node Domain) (name : Node) : Option (Report Node Domain) :=
  (reports.rows.find? fun row => row.1 = name).map Prod.snd

/-- The orders in which Go ranges over the three maps. -/
structure Ranging (Node Domain : Type*) where
  claims : List (Node × Report Node Domain) → List (Node × Report Node Domain)
  unions : List ((Node × Node) × ℕ) → List ((Node × Node) × ℕ)
  tallies : List ((Node × Node) × ℕ) → List ((Node × Node) × ℕ)
  claims_perm : ∀ rows, (claims rows).Perm rows
  unions_perm : ∀ rows, (unions rows).Perm rows
  tallies_perm : ∀ rows, (tallies rows).Perm rows

def inOrder : Ranging ℕ ℕ where
  claims := id
  unions := id
  tallies := id
  claims_perm := List.Perm.refl
  unions_perm := List.Perm.refl
  tallies_perm := List.Perm.refl

structure Claims (Node Domain : Type*) where
  owner : Domain → Option Node
  ambiguous : Domain → Bool

def Claims.claim (claims : Claims Node Domain) (entry : Node × Domain) : Claims Node Domain where
  owner := update claims.owner entry.2 (some entry.1)
  ambiguous :=
    match claims.owner entry.2 with
    | none => claims.ambiguous
    | some holder =>
      if holder = entry.1 then claims.ambiguous
      else update claims.ambiguous entry.2 true

/-- What the members claim as their own, in the order they are asked. -/
def claimed (isMember : Node → Bool) (rows : List (Node × Report Node Domain)) :
    List (Node × Domain) :=
  (rows.filter fun row => isMember row.1).flatMap fun row =>
    row.2.localDomainUUIDs.map fun domain => (row.1, domain)

def claimsOf (entries : List (Node × Domain)) : Claims Node Domain :=
  entries.foldl Claims.claim ⟨fun _ => none, fun _ => false⟩

section Loops

variable (ranging : Ranging Node Domain) (reports : Reports Node Domain) (isMember : Node → Bool)

def claims : Claims Node Domain :=
  claimsOf (claimed isMember (ranging.claims reports.rows))

/-- The peer domains that a member reports. -/
def peerEntries (name : Node) : List Domain :=
  if isMember name then ((reports.get? name).map (·.peerDomainUUIDs)).getD [] else []

def seen (name other : Node) : ℕ :=
  (peerEntries reports isMember name).countP fun domain =>
    (claims ranging reports isMember).owner domain = some other &&
      !(claims ranging reports isMember).ambiguous domain && !(decide (other = name))

def memberNames : List Node :=
  (reports.rows.filter fun row => isMember row.1).map Prod.fst

/-- The confirmed cables with their multiplicity, each from its smaller end. -/
def counts : List ((Node × Node) × ℕ) :=
  (memberNames reports isMember ×ˢ memberNames reports isMember).filterMap fun pair =>
    let count := seen ranging reports isMember pair.1 pair.2
    let back := seen ranging reports isMember pair.2 pair.1
    if count = 0 ∨ back = 0 ∨ pair.2 < pair.1 then none else some (pair, min count back)

def tally : UnionFind Node → List ((Node × Node) × ℕ) → List (Node × (Node × Node) × ℕ)
  | _, [] => []
  | forest, cable :: cables =>
    let found := forest.find cable.1.1
    (found.1, cable) :: tally found.2 cables

def group (rows : List (Node × (Node × Node) × ℕ)) (root : Node) : List ((Node × Node) × ℕ) :=
  (rows.filter fun row => row.1 = root).map Prod.snd

/-- A doubled cable, or at least as many cables as vertices. -/
def loopy (cables : List ((Node × Node) × ℕ)) : Bool :=
  cables.any (fun cable => 2 ≤ cable.2) || (ends (cables.map Prod.fst)).dedup.length ≤ cables.length

/-- The node's component has more cables than a tree. -/
def cableLoops (name : Node) : Bool :=
  let cables := counts ranging reports isMember
  let forest := UnionFind.unions ((ranging.unions cables).map Prod.fst)
  let rows := tally forest (ranging.tallies cables)
  !decide (peerEntries reports isMember name).Nodup ||
    rows.any fun row =>
      loopy (group rows row.1) && decide (name ∈ ends ((group rows row.1).map Prod.fst))

end Loops

structure Claims.Fit (claims : Claims Node Domain) (entries : List (Node × Domain)) : Prop where
  mem : ∀ domain name, claims.owner domain = some name → (name, domain) ∈ entries
  none : ∀ domain, claims.owner domain = none → ∀ name, (name, domain) ∉ entries
  ambiguous : ∀ domain, claims.ambiguous domain = true ↔
    ∃ left right, left ≠ right ∧ (left, domain) ∈ entries ∧ (right, domain) ∈ entries

theorem Claims.Fit.claim {claims : Claims Node Domain} {entries : List (Node × Domain)}
    (hfit : claims.Fit entries) (entry : Node × Domain) :
    (claims.claim entry).Fit (entries ++ [entry]) := by
  obtain ⟨name, domain⟩ := entry
  refine ⟨?_, ?_, ?_⟩
  · intro other holder howner
    by_cases hother : other = domain
    · simp only [Claims.claim, hother, update_self, Option.some.injEq] at howner
      simp [hother, howner]
    · simp only [Claims.claim, update_of_ne hother] at howner
      exact mem_append_left _ (hfit.mem other holder howner)
  · intro other howner holder hmem
    by_cases hother : other = domain
    · simp [Claims.claim, hother] at howner
    simp only [Claims.claim, update_of_ne hother] at howner
    rcases mem_append.1 hmem with hold | hnew
    · exact hfit.none other howner holder hold
    · simp only [mem_singleton, Prod.mk.injEq] at hnew
      exact hother hnew.2
  intro other
  by_cases hother : other = domain
  swap
  · have hsame : (claims.claim (name, domain)).ambiguous other = claims.ambiguous other := by
      simp only [Claims.claim]
      cases claims.owner domain with
      | none => rfl
      | some holder =>
        by_cases hholder : holder = name
        · simp [hholder]
        · simp [hholder, update_of_ne hother]
    rw [hsame, hfit.ambiguous other]
    simp [hother]
  subst hother
  -- the domain claimed: its former claims are those of its owner, unless it was ambiguous
  cases howner : claims.owner other with
  | none =>
    have hnone := hfit.none other howner
    have hold : claims.ambiguous other = false := by
      rw [← Bool.not_eq_true, hfit.ambiguous other]
      rintro ⟨left, -, -, hleft, -⟩
      exact hnone left hleft
    simp only [Claims.claim, howner, hold, Bool.false_eq_true, false_iff]
    rintro ⟨left, right, hne, hleft, hright⟩
    simp only [mem_append, hnone, mem_singleton, Prod.mk.injEq, and_true,
      false_or] at hleft hright
    exact hne (hleft.trans hright.symm)
  | some holder =>
    have hholder := hfit.mem other holder howner
    by_cases hsame : holder = name
    · subst hsame
      simp only [Claims.claim, howner, if_true]
      rw [hfit.ambiguous other]
      constructor
      · rintro ⟨left, right, hne, hleft, hright⟩
        exact ⟨left, right, hne, mem_append_left _ hleft, mem_append_left _ hright⟩
      · rintro ⟨left, right, hne, hleft, hright⟩
        simp only [mem_append, mem_singleton, Prod.mk.injEq, and_true] at hleft hright
        refine ⟨left, right, hne, ?_, ?_⟩
        · exact hleft.elim id fun heq => heq ▸ hholder
        · exact hright.elim id fun heq => heq ▸ hholder
    · simp only [Claims.claim, howner, if_neg hsame, update_self, true_iff]
      exact ⟨holder, name, hsame, mem_append_left _ hholder, by simp⟩

theorem claimsOf_fit (entries : List (Node × Domain)) : (claimsOf entries).Fit entries := by
  induction entries using List.reverseRecOn with
  | nil => exact ⟨by simp [claimsOf], by simp, by simp [claimsOf]⟩
  | append_singleton entries entry ih =>
    rw [claimsOf, foldl_append]
    exact ih.claim entry

omit [DecidableEq Domain] in
theorem Claims.Fit.trusted_iff {claims : Claims Node Domain} {entries : List (Node × Domain)}
    (hfit : claims.Fit entries) {domain : Domain} {name : Node} :
    claims.owner domain = some name ∧ claims.ambiguous domain = false ↔
      (name, domain) ∈ entries ∧ ∀ other, (other, domain) ∈ entries → other = name := by
  constructor
  · rintro ⟨howner, hclear⟩
    refine ⟨hfit.mem domain name howner, fun other hother => ?_⟩
    by_contra hne
    have hambiguous := (hfit.ambiguous domain).2
      ⟨other, name, hne, hother, hfit.mem domain name howner⟩
    rw [hclear] at hambiguous
    cases hambiguous
  rintro ⟨hmem, hunique⟩
  constructor
  · cases howner : claims.owner domain with
    | none => exact absurd hmem (hfit.none domain howner name)
    | some holder => rw [hunique holder (hfit.mem domain holder howner)]
  · rw [← Bool.not_eq_true, hfit.ambiguous domain]
    rintro ⟨left, right, hne, hleft, hright⟩
    exact hne ((hunique left hleft).trans (hunique right hright).symm)

section Confirmed

variable {ranging : Ranging Node Domain} {reports : Reports Node Domain} {isMember : Node → Bool}

omit [DecidableEq Domain] in
theorem Reports.get?_eq_some {name : Node} {report : Report Node Domain} :
    reports.get? name = some report ↔ (name, report) ∈ reports.rows := by
  have hnodup := reports.nodup
  rw [Reports.get?, Option.map_eq_some_iff]
  constructor
  · rintro ⟨⟨first, second⟩, hfound, rfl⟩
    have hname : first = name := by simpa using List.find?_some hfound
    exact hname ▸ mem_of_find?_eq_some hfound
  intro hmem
  refine ⟨(name, report), ?_, rfl⟩
  cases hfind : reports.rows.find? fun row => row.1 = name with
  | none =>
    have hmiss := List.find?_eq_none.1 hfind (name, report) hmem
    simp at hmiss
  | some row =>
    have hname : row.1 = name := by simpa using List.find?_some hfind
    rw [inj_on_of_nodup_map hnodup (mem_of_find?_eq_some hfind) hmem hname]

omit [LinearOrder Node] [DecidableEq Domain] in
theorem mem_claimed {name : Node} {domain : Domain} :
    (name, domain) ∈ claimed isMember (ranging.claims reports.rows) ↔
      isMember name = true ∧ ∃ report, (name, report) ∈ reports.rows ∧
        domain ∈ report.localDomainUUIDs := by
  simp only [claimed, mem_flatMap, mem_filter, (ranging.claims_perm reports.rows).mem_iff,
    mem_map, Prod.mk.injEq]
  constructor
  · rintro ⟨⟨first, report⟩, ⟨hrow, hmember⟩, entry, hentry, rfl, rfl⟩
    exact ⟨hmember, report, hrow, hentry⟩
  · rintro ⟨hmember, report, hrow, hentry⟩
    exact ⟨(name, report), ⟨hrow, hmember⟩, domain, hentry, rfl, rfl⟩

omit [DecidableEq Domain] in
theorem mem_peerEntries {name : Node} {domain : Domain} :
    domain ∈ peerEntries reports isMember name ↔
      isMember name = true ∧ ∃ report, (name, report) ∈ reports.rows ∧
        domain ∈ report.peerDomainUUIDs := by
  rw [peerEntries]
  by_cases hmember : isMember name = true
  swap
  · simp [hmember]
  rw [if_pos hmember]
  cases hget : reports.get? name with
  | none =>
    simp only [Option.map_none, Option.getD_none, not_mem_nil, hmember, true_and, false_iff]
    rintro ⟨report, hrow, -⟩
    rw [Reports.get?_eq_some.2 hrow] at hget
    cases hget
  | some report =>
    have hrow := Reports.get?_eq_some.1 hget
    simp only [Option.map_some, Option.getD_some, hmember, true_and]
    constructor
    · exact fun hentry => ⟨report, hrow, hentry⟩
    rintro ⟨other, hother, hentry⟩
    have heq := Reports.get?_eq_some.2 hother
    rw [hget, Option.some.injEq] at heq
    exact heq ▸ hentry

def Names (reports : Reports Node Domain) (isMember : Node → Bool) (other : Node)
    (domain : Domain) : Prop :=
  ∀ name, (isMember name = true ∧ ∃ report, (name, report) ∈ reports.rows ∧
    domain ∈ report.localDomainUUIDs) ↔ name = other

theorem seen_eq {name other : Node} [DecidablePred (Names reports isMember other)] :
    seen ranging reports isMember name other =
      (peerEntries reports isMember name).countP fun domain =>
        decide (Names reports isMember other domain) && !decide (other = name) := by
  have hfit := claimsOf_fit (claimed isMember (ranging.claims reports.rows))
  refine countP_congr fun domain _ => ?_
  simp only [Bool.and_eq_true, decide_eq_true_eq, Bool.not_eq_true', decide_eq_false_iff_not]
  refine and_congr_left fun _ => ?_
  have htrusted : (claims ranging reports isMember).owner domain = some other ∧
      (claims ranging reports isMember).ambiguous domain = false ↔ _ := hfit.trusted_iff
  rw [htrusted]
  simp only [mem_claimed, Names]
  constructor
  · rintro ⟨hown, hunique⟩ name
    exact ⟨hunique name, fun heq => heq ▸ hown⟩
  · intro hnames
    exact ⟨(hnames other).2 rfl, fun name => (hnames name).1⟩

theorem seen_pos_iff {name other : Node} :
    0 < seen ranging reports isMember name other ↔
      ∃ domain ∈ peerEntries reports isMember name, Names reports isMember other domain ∧
        other ≠ name := by
  classical
  rw [seen_eq, countP_pos_iff]
  simp

def Confirmed (ranging : Ranging Node Domain) (reports : Reports Node Domain)
    (isMember : Node → Bool) (left right : Node) : Prop :=
  0 < seen ranging reports isMember left right ∧ 0 < seen ranging reports isMember right left

theorem Confirmed.ne {left right : Node}
    (hconfirmed : Confirmed ranging reports isMember left right) :
    left ≠ right := by
  obtain ⟨_, _, _, hne⟩ := seen_pos_iff.1 hconfirmed.1
  exact hne.symm

theorem Confirmed.symm {left right : Node}
    (hconfirmed : Confirmed ranging reports isMember left right) :
    Confirmed ranging reports isMember right left :=
  ⟨hconfirmed.2, hconfirmed.1⟩

theorem Confirmed.mem_memberNames {left right : Node}
    (hconfirmed : Confirmed ranging reports isMember left right) :
    left ∈ memberNames reports isMember := by
  obtain ⟨_, hentry, -, -⟩ := seen_pos_iff.1 hconfirmed.1
  obtain ⟨hmember, report, hrow, -⟩ := mem_peerEntries.1 hentry
  exact mem_map.2 ⟨(left, report), mem_filter.2 ⟨hrow, hmember⟩, rfl⟩

theorem mem_counts {pair : Node × Node} {count : ℕ} :
    (pair, count) ∈ counts ranging reports isMember ↔
      Confirmed ranging reports isMember pair.1 pair.2 ∧ pair.1 < pair.2 ∧
        count = min (seen ranging reports isMember pair.1 pair.2)
          (seen ranging reports isMember pair.2 pair.1) := by
  simp only [counts, mem_filterMap, Option.ite_none_left_eq_some,
    Option.some.injEq, Prod.mk.injEq, not_or, not_lt]
  constructor
  · rintro ⟨other, -, ⟨hcount, hback, hle⟩, rfl, rfl⟩
    have hconfirmed : Confirmed ranging reports isMember other.1 other.2 :=
      ⟨Nat.pos_of_ne_zero hcount, Nat.pos_of_ne_zero hback⟩
    exact ⟨hconfirmed, lt_of_le_of_ne hle hconfirmed.ne, rfl⟩
  · rintro ⟨hconfirmed, hlt, rfl⟩
    exact ⟨pair,
      mem_product.2 ⟨hconfirmed.mem_memberNames, hconfirmed.symm.mem_memberNames⟩,
      ⟨hconfirmed.1.ne', hconfirmed.2.ne', hlt.le⟩, rfl, rfl⟩

omit [LinearOrder Node] [DecidableEq Domain] in
theorem memberNames_nodup : (memberNames reports isMember).Nodup :=
  reports.nodup.sublist (filter_sublist.map _)

theorem counts_simple : SimplePairs ((counts ranging reports isMember).map Prod.fst) where
  ne := by
    intro pair hpair
    obtain ⟨⟨pair, count⟩, hmem, rfl⟩ := mem_map.1 hpair
    exact (mem_counts.1 hmem).1.ne
  nodup := by
    have hproduct : (memberNames reports isMember ×ˢ memberNames reports isMember).Nodup :=
      memberNames_nodup.product memberNames_nodup
    have hpairs : ((counts ranging reports isMember).map Prod.fst).Nodup := by
      rw [counts, map_filterMap]
      refine hproduct.filterMap fun one two pair hone htwo => ?_
      simp only [Option.mem_def, Option.map_eq_some_iff, Option.ite_none_left_eq_some,
        Option.some.injEq] at hone htwo
      obtain ⟨_, ⟨-, rfl⟩, rfl⟩ := hone
      obtain ⟨_, ⟨-, rfl⟩, htwo⟩ := htwo
      exact htwo.symm
    refine (nodup_map_iff_inj_on hpairs).2 fun one hone two htwo hedge => ?_
    obtain ⟨⟨one, _⟩, honemem, rfl⟩ := mem_map.1 hone
    obtain ⟨⟨two, _⟩, htwomem, rfl⟩ := mem_map.1 htwo
    have honelt := (mem_counts.1 honemem).2.1
    have htwolt := (mem_counts.1 htwomem).2.1
    -- both pairs stand with their smaller end first
    rcases Sym2.eq_iff.1 hedge with ⟨hfirst, hsecond⟩ | ⟨hfirst, hsecond⟩
    · exact Prod.ext hfirst hsecond
    dsimp only at honelt htwolt hfirst hsecond
    rw [hfirst, hsecond] at honelt
    exact absurd htwolt honelt.asymm

/-- The nodes, joined where both ends report the cable. -/
def confirmedGraph (ranging : Ranging Node Domain) (reports : Reports Node Domain)
    (isMember : Node → Bool) : SimpleGraph Node where
  Adj := Confirmed ranging reports isMember
  symm := ⟨fun _ _ hconfirmed => hconfirmed.symm⟩
  loopless := ⟨fun _ hconfirmed => hconfirmed.ne rfl⟩

theorem pairGraph_counts {cables : List ((Node × Node) × ℕ)}
    (hperm : cables.Perm (counts ranging reports isMember)) :
    pairGraph (cables.map Prod.fst) = confirmedGraph ranging reports isMember := by
  ext left right
  rw [pairGraph_adj]
  constructor
  · rintro ⟨⟨pair, hpair, hedge⟩, -⟩
    obtain ⟨⟨pair, count⟩, hmem, rfl⟩ := mem_map.1 hpair
    have hconfirmed := (mem_counts.1 (hperm.mem_iff.1 hmem)).1
    rcases Sym2.eq_iff.1 hedge with ⟨rfl, rfl⟩ | ⟨rfl, rfl⟩
    · exact hconfirmed
    · exact hconfirmed.symm
  intro hconfirmed
  have hconfirmed : Confirmed ranging reports isMember left right := hconfirmed
  refine ⟨?_, hconfirmed.ne⟩
  rcases lt_or_gt_of_ne hconfirmed.ne with hlt | hlt
  · exact ⟨(left, right),
      mem_map.2 ⟨_, hperm.mem_iff.2 (mem_counts.2 ⟨hconfirmed, hlt, rfl⟩), rfl⟩, rfl⟩
  · exact ⟨(right, left),
      mem_map.2 ⟨_, hperm.mem_iff.2 (mem_counts.2 ⟨hconfirmed.symm, hlt, rfl⟩), rfl⟩,
      Sym2.eq_swap⟩

omit [DecidableEq Domain] in
theorem tally_eq {forest : UnionFind Node} (hordered : forest.Ordered)
    (cables : List ((Node × Node) × ℕ)) :
    tally forest cables = cables.map fun cable => ((forest.find cable.1.1).1, cable) := by
  have hgeneral : ∀ (cables : List ((Node × Node) × ℕ)) (later : UnionFind Node),
      forest.Searched later → tally later cables = cables.map fun cable =>
        ((forest.find cable.1.1).1, cable) := by
    intro cables
    induction cables with
    | nil => exact fun _ _ => rfl
    | cons cable cables ih =>
      intro later hsearched
      obtain ⟨hroot, hlater⟩ := hsearched.find hordered cable.1.1
      rw [tally, map_cons, ih _ hlater, hroot]
  exact hgeneral cables forest ⟨hordered, fun _ _ hleads => hleads⟩

theorem find_eq_iff {cables : List ((Node × Node) × ℕ)}
    (hperm : cables.Perm (counts ranging reports isMember)) {left right : Node} :
    ((UnionFind.unions (cables.map Prod.fst)).find left).1 =
        ((UnionFind.unions (cables.map Prod.fst)).find right).1 ↔
      (confirmedGraph ranging reports isMember).Reachable left right := by
  rw [find_unions_eq_iff, pairGraph_counts hperm]

def Looped (ranging : Ranging Node Domain) (reports : Reports Node Domain)
    (isMember : Node → Bool) (name : Node) : Prop :=
  (∃ left right, Confirmed ranging reports isMember left right ∧
      (confirmedGraph ranging reports isMember).Reachable name left ∧
      2 ≤ min (seen ranging reports isMember left right)
        (seen ranging reports isMember right left)) ∨
    CycleNear (confirmedGraph ranging reports isMember) name

omit [DecidableEq Domain] in
theorem group_tally (forest : UnionFind Node) (hordered : forest.Ordered)
    (cables : List ((Node × Node) × ℕ)) (root : Node) :
    group (tally forest cables) root =
      cables.filter fun cable => (forest.find cable.1.1).1 = root := by
  rw [group, tally_eq hordered, List.filter_map, List.map_map]
  exact List.map_id _

section Group

variable {cables unionCables : List ((Node × Node) × ℕ)} {name root : Node}

theorem mem_group_iff {cable : (Node × Node) × ℕ}
    (hunions : unionCables.Perm (counts ranging reports isMember))
    (hroot : ((UnionFind.unions (unionCables.map Prod.fst)).find name).1 = root) :
    cable ∈ group (tally (UnionFind.unions (unionCables.map Prod.fst)) cables) root ↔
      cable ∈ cables ∧ (confirmedGraph ranging reports isMember).Reachable name cable.1.1 := by
  rw [group_tally _ (UnionFind.ordered_unions _), mem_filter, decide_eq_true_eq,
    ← find_eq_iff hunions, hroot, eq_comm (a := root)]

theorem loopy_group_iff (hperm : cables.Perm (counts ranging reports isMember))
    (hunions : unionCables.Perm (counts ranging reports isMember))
    (hroot : ((UnionFind.unions (unionCables.map Prod.fst)).find name).1 = root)
    (hname : name ∈ ends (cables.map Prod.fst)) :
    loopy (group (tally (UnionFind.unions (unionCables.map Prod.fst)) cables) root) = true ↔
      Looped ranging reports isMember name := by
  have hsimple : SimplePairs (cables.map Prod.fst) := by
    have hcounts : SimplePairs ((counts ranging reports isMember).map Prod.fst) := counts_simple
    refine ⟨fun pair hpair => hcounts.ne pair ((hperm.map _).mem_iff.1 hpair), ?_⟩
    exact ((hperm.map _).map _).nodup_iff.2 hcounts.nodup
  have hmine : ∀ pair ∈ cables.map Prod.fst,
      decide (((UnionFind.unions (unionCables.map Prod.fst)).find pair.1).1 = root) = true ↔
        (pairGraph (cables.map Prod.fst)).Reachable name pair.1 := by
    intro pair _
    rw [pairGraph_counts hperm, decide_eq_true_eq, ← find_eq_iff hunions, hroot, eq_comm]
  have hcount := card_ends_le_iff hmine hsimple hname
  rw [pairGraph_counts hperm, card_toFinset] at hcount
  rw [loopy, Bool.or_eq_true, decide_eq_true_eq, any_eq_true, Looped]
  refine or_congr ?_ ?_
  · simp only [mem_group_iff hunions hroot, decide_eq_true_eq]
    constructor
    · rintro ⟨⟨pair, count⟩, ⟨hmem, hreach⟩, htwo⟩
      obtain ⟨hconfirmed, -, rfl⟩ := mem_counts.1 (hperm.mem_iff.1 hmem)
      exact ⟨pair.1, pair.2, hconfirmed, hreach, htwo⟩
    rintro ⟨left, right, hconfirmed, hreach, htwo⟩
    rcases lt_or_gt_of_ne hconfirmed.ne with hlt | hlt
    · exact ⟨((left, right), _),
        ⟨hperm.mem_iff.2 (mem_counts.2 ⟨hconfirmed, hlt, rfl⟩), hreach⟩, htwo⟩
    · have hadj : (confirmedGraph ranging reports isMember).Adj left right := hconfirmed
      refine ⟨((right, left), _), ⟨hperm.mem_iff.2 (mem_counts.2 ⟨hconfirmed.symm, hlt, rfl⟩),
        hreach.trans hadj.reachable⟩, ?_⟩
      rw [min_comm]
      exact htwo
  · rw [← hcount, group_tally _ (UnionFind.ordered_unions _), filter_map, length_map]
    rfl

omit [DecidableEq Domain] in
theorem group_root_of_mem_ends
    (hunions : ∀ pair ∈ cables.map Prod.fst,
      ((UnionFind.unions (unionCables.map Prod.fst)).find pair.1).1 =
        ((UnionFind.unions (unionCables.map Prod.fst)).find pair.2).1)
    (hname : name ∈ ends ((group (tally (UnionFind.unions (unionCables.map Prod.fst)) cables)
      root).map Prod.fst)) :
    ((UnionFind.unions (unionCables.map Prod.fst)).find name).1 = root ∧
      name ∈ ends (cables.map Prod.fst) := by
  rw [group_tally _ (UnionFind.ordered_unions _), mem_ends] at hname
  obtain ⟨pair, hpair, hend⟩ := hname
  obtain ⟨cable, hcable, rfl⟩ := mem_map.1 hpair
  obtain ⟨hmem, hroot⟩ := mem_filter.1 hcable
  rw [decide_eq_true_eq] at hroot
  have hin : cable.1 ∈ cables.map Prod.fst := mem_map_of_mem hmem
  refine ⟨?_, mem_ends.2 ⟨cable.1, hin, hend⟩⟩
  rcases hend with rfl | rfl
  · exact hroot
  · exact (hunions cable.1 hin).symm.trans hroot

end Group

/-- The members that are marked: those with a repeated peer entry, and those cabled to a
component with a doubled cable or a cycle. -/
theorem cableLoops_iff (name : Node) :
    cableLoops ranging reports isMember name = true ↔
      ¬ (peerEntries reports isMember name).Nodup ∨
        (∃ other, Confirmed ranging reports isMember name other) ∧
          Looped ranging reports isMember name := by
  have hperm := ranging.tallies_perm (counts ranging reports isMember)
  have hunions := ranging.unions_perm (counts ranging reports isMember)
  have hends : name ∈ ends ((ranging.tallies (counts ranging reports isMember)).map Prod.fst) ↔
      ∃ other, Confirmed ranging reports isMember name other := by
    rw [mem_ends]
    constructor
    · rintro ⟨pair, hpair, hend⟩
      obtain ⟨⟨pair, count⟩, hmem, rfl⟩ := mem_map.1 hpair
      have hconfirmed := (mem_counts.1 (hperm.mem_iff.1 hmem)).1
      rcases hend with rfl | rfl
      · exact ⟨_, hconfirmed⟩
      · exact ⟨_, hconfirmed.symm⟩
    · rintro ⟨other, hconfirmed⟩
      rcases lt_or_gt_of_ne hconfirmed.ne with hlt | hlt
      · exact ⟨(name, other),
          mem_map.2 ⟨_, hperm.mem_iff.2 (mem_counts.2 ⟨hconfirmed, hlt, rfl⟩), rfl⟩, .inl rfl⟩
      · exact ⟨(other, name),
          mem_map.2 ⟨_, hperm.mem_iff.2 (mem_counts.2 ⟨hconfirmed.symm, hlt, rfl⟩), rfl⟩,
          .inr rfl⟩
  have hroots : ∀ pair ∈ (ranging.tallies (counts ranging reports isMember)).map Prod.fst,
      ((UnionFind.unions ((ranging.unions (counts ranging reports isMember)).map Prod.fst)).find
          pair.1).1 =
        ((UnionFind.unions ((ranging.unions (counts ranging reports isMember)).map Prod.fst)).find
          pair.2).1 := by
    intro pair hpair
    obtain ⟨⟨pair, count⟩, hmem, rfl⟩ := mem_map.1 hpair
    have hadj : (confirmedGraph ranging reports isMember).Adj pair.1 pair.2 :=
      (mem_counts.1 (hperm.mem_iff.1 hmem)).1
    exact (find_eq_iff hunions).2 hadj.reachable
  rw [cableLoops, Bool.or_eq_true, Bool.not_eq_true', decide_eq_false_iff_not, any_eq_true]
  refine or_congr Iff.rfl ?_
  simp only [Bool.and_eq_true, decide_eq_true_eq]
  constructor
  · rintro ⟨row, -, hloopy, hname⟩
    obtain ⟨hroot, hend⟩ := group_root_of_mem_ends hroots hname
    exact ⟨hends.1 hend, (loopy_group_iff hperm hunions hroot hend).1 hloopy⟩
  rintro ⟨hconfirmed, hlooped⟩
  have hend := hends.2 hconfirmed
  obtain ⟨pair, hpair, hside⟩ := mem_ends.1 hend
  obtain ⟨cable, hcable, rfl⟩ := mem_map.1 hpair
  have hside' : ((UnionFind.unions ((ranging.unions
      (counts ranging reports isMember)).map Prod.fst)).find cable.1.1).1 =
      ((UnionFind.unions ((ranging.unions (counts ranging reports isMember)).map
        Prod.fst)).find name).1 := by
    rcases hside with rfl | rfl
    · rfl
    · exact hroots cable.1 hpair
  refine ⟨(_, cable), ?_, (loopy_group_iff hperm hunions rfl hend).2 hlooped, ?_⟩
  · rw [tally_eq (UnionFind.ordered_unions _), mem_map]
    exact ⟨cable, hcable, congrArg (·, cable) hside'⟩
  · refine mem_ends.2 ⟨cable.1, mem_map_of_mem ?_, hside⟩
    exact (mem_group_iff hunions rfl).2 ⟨hcable, (find_eq_iff hunions).1 hside'.symm⟩

end Confirmed

end K3sm.Interconnect
