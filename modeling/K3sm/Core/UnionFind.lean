import Mathlib

/-!
# Disjoint sets

A disjoint-set forest over ordered elements.  `find` follows the parents to the root and points
the elements on its way straight at it; `union` makes the smaller of two roots the parent of the
larger one, so parents never increase and every search ends.
-/

namespace K3sm.Core

open Function

/-- A forest of sets, each element leading to its parent. -/
structure UnionFind (Element : Type*) where
  parent : Element → Option Element
  /-- The elements that have a parent, in the order they were first seen. -/
  keys : List Element

namespace UnionFind

variable {Element : Type*} [LinearOrder Element]

theorem lawfulBEq : LawfulBEq Element := inferInstance

attribute [local instance] lawfulBEq

def empty : UnionFind Element := ⟨fun _ => none, []⟩

def point (forest : UnionFind Element) (element above : Element) : UnionFind Element where
  parent := update forest.parent element (some above)
  keys := if element ∈ forest.keys then forest.keys else forest.keys ++ [element]

/-- The root of an element and the forest with the way to it shortened. -/
def findWithin : ℕ → UnionFind Element → Element → Element × UnionFind Element
  | 0, forest, element => (element, forest)
  | fuel + 1, forest, element =>
    match forest.parent element with
    | none => (element, forest.point element element)
    | some above =>
      if above = element then (element, forest)
      else
        let found := findWithin fuel forest above
        (found.1, found.2.point element found.1)

/-- Parents decrease, so no search is longer than the number of elements seen. -/
def find (forest : UnionFind Element) (element : Element) : Element × UnionFind Element :=
  findWithin (forest.keys.length + 1) forest element

def union (forest : UnionFind Element) (left right : Element) : UnionFind Element :=
  let foundLeft := forest.find left
  let foundRight := foundLeft.2.find right
  if foundLeft.1 = foundRight.1 then foundRight.2
  else if foundRight.1 < foundLeft.1 then foundRight.2.point foundLeft.1 foundRight.1
  else foundRight.2.point foundRight.1 foundLeft.1

def unions (pairs : List (Element × Element)) : UnionFind Element :=
  pairs.foldl (fun forest pair => forest.union pair.1 pair.2) empty

variable {forest : UnionFind Element} {element above root : Element}

def up (forest : UnionFind Element) (element : Element) : Element :=
  (forest.parent element).getD element

inductive Leads (forest : UnionFind Element) : Element → Element → Prop
  | root {element : Element} : forest.up element = element → Leads forest element element
  | step {element root : Element} : forest.up element ≠ element →
      Leads forest (forest.up element) root → Leads forest element root

variable {other end_ left right one two : Element}

omit [LinearOrder Element] in
theorem Leads.unique (hleads : forest.Leads element root) (hother : forest.Leads element other) :
    root = other := by
  induction hleads with
  | root hup =>
    cases hother with
    | root => rfl
    | step hne => exact absurd hup hne
  | step hne _ ih =>
    cases hother with
    | root hup => exact absurd hup hne
    | step _ hrest => exact ih hrest

omit [LinearOrder Element] in
theorem Leads.up_root (hleads : forest.Leads element root) : forest.up root = root := by
  induction hleads with
  | root hup => exact hup
  | step _ _ ih => exact ih

@[simp]
theorem up_point_self : (forest.point element above).up element = above := by
  simp [up, point]

theorem up_point_of_ne (hne : other ≠ element) :
    (forest.point element above).up other = forest.up other := by
  simp [up, point, update_of_ne hne]

structure Ordered (forest : UnionFind Element) : Prop where
  keys_iff : ∀ element, element ∈ forest.keys ↔ forest.parent element ≠ none
  parent_le : ∀ element above, forest.parent element = some above → above ≤ element
  parent_mem : ∀ element above, forest.parent element = some above → above ∈ forest.keys

theorem ordered_empty : (empty : UnionFind Element).Ordered where
  keys_iff := by simp [empty]
  parent_le := by simp [empty]
  parent_mem := by simp [empty]

theorem mem_keys_point :
    other ∈ (forest.point element above).keys ↔ other ∈ forest.keys ∨ other = element := by
  simp only [point]
  split
  case isFalse => simp
  rename_i hmem
  constructor
  · exact .inl
  rintro (hkey | rfl)
  · exact hkey
  · exact hmem

theorem Ordered.point (hordered : forest.Ordered) (hle : above ≤ element)
    (hmem : above ∈ forest.keys ∨ above = element) : (forest.point element above).Ordered where
  keys_iff := by
    intro other
    rw [mem_keys_point]
    by_cases hother : other = element
    · simp [hother, UnionFind.point]
    · simp [hother, UnionFind.point, hordered.keys_iff]
  parent_le := by
    intro other parent hparent
    by_cases hother : other = element
    · simp only [UnionFind.point, hother, update_self, Option.some.injEq] at hparent
      rw [hother, ← hparent]
      exact hle
    · simp only [UnionFind.point, update_of_ne hother] at hparent
      exact hordered.parent_le other parent hparent
  parent_mem := by
    intro other parent hparent
    rw [mem_keys_point]
    by_cases hother : other = element
    · simp only [UnionFind.point, hother, update_self, Option.some.injEq] at hparent
      exact hparent ▸ hmem
    · simp only [UnionFind.point, update_of_ne hother] at hparent
      exact .inl (hordered.parent_mem other parent hparent)

theorem Leads.point_root (hleads : forest.Leads other end_) (hroot : forest.Leads element root)
    (hne : forest.up element ≠ element) : (forest.point element root).Leads other end_ := by
  have hrootne : root ≠ element := fun heq => hne (heq ▸ hroot.up_root)
  have hfixed : (forest.point element root).up root = root := by
    rw [up_point_of_ne hrootne]
    exact hroot.up_root
  induction hleads with
  | @root start hup =>
    have hstart : start ≠ element := fun heq => hne (heq ▸ hup)
    refine .root ?_
    rw [up_point_of_ne hstart]
    exact hup
  | @step start stop hstep hrest ih =>
    by_cases hstart : start = element
    · subst hstart
      rw [← hroot.unique (.step hstep hrest)]
      refine .step ?_ ?_
      · rw [up_point_self]
        exact hrootne
      · rw [up_point_self]
        exact .root hfixed
    · refine .step ?_ ?_
      · rw [up_point_of_ne hstart]
        exact hstep
      · rw [up_point_of_ne hstart]
        exact ih

theorem Leads.point_self (hleads : forest.Leads other end_) (hup : forest.up element = element) :
    (forest.point element element).Leads other end_ := by
  induction hleads with
  | @root start hfixed =>
    refine .root ?_
    by_cases hstart : start = element
    · rw [hstart, up_point_self]
    · rw [up_point_of_ne hstart]
      exact hfixed
  | @step start stop hstep _ ih =>
    have hstart : start ≠ element := fun heq => hstep (heq ▸ hup)
    refine .step ?_ ?_
    · rw [up_point_of_ne hstart]
      exact hstep
    · rw [up_point_of_ne hstart]
      exact ih

structure Found (forest : UnionFind Element) (element : Element)
    (found : Element × UnionFind Element) : Prop where
  leads : forest.Leads element found.1
  ordered : found.2.Ordered
  kept : ∀ other root, forest.Leads other root → found.2.Leads other root
  keys : forest.keys ⊆ found.2.keys
  root_mem : found.1 ∈ found.2.keys
  root_le : found.1 ≤ element

def below (forest : UnionFind Element) (element : Element) : ℕ :=
  (forest.keys.filter (· < element)).length

theorem Ordered.below_lt (hordered : forest.Ordered)
    (hparent : forest.parent element = some above) (hne : above ≠ element) :
    forest.below above < forest.below element := by
  have hlt : above < element := lt_of_le_of_ne (hordered.parent_le element above hparent) hne
  have hmem : above ∈ forest.keys := hordered.parent_mem element above hparent
  have hsub : forest.keys.filter (· < above) =
      (forest.keys.filter (· < element)).filter (· < above) := by
    rw [List.filter_filter]
    refine List.filter_congr fun key _ => ?_
    by_cases hkey : key < above
    · simp [hkey, hkey.trans hlt]
    · simp [hkey]
  rw [below, hsub, below]
  refine List.length_filter_lt_length_iff_exists.2 ⟨above, ?_, ?_⟩
  · exact List.mem_filter.2 ⟨hmem, decide_eq_true hlt⟩
  · simp

theorem findWithin_found (hordered : forest.Ordered) (fuel : ℕ) (element : Element)
    (hfuel : forest.below element < fuel) :
    Found forest element (findWithin fuel forest element) := by
  induction fuel generalizing element with
  | zero => exact absurd hfuel (Nat.not_lt_zero _)
  | succ fuel ih =>
    rw [findWithin]
    cases hparent : forest.parent element with
    | none =>
      have hup : forest.up element = element := by simp [up, hparent]
      refine ⟨.root hup, hordered.point le_rfl (.inr rfl), ?_, ?_, ?_, le_rfl⟩
      · exact fun _ _ hleads => hleads.point_self hup
      · intro key hkey
        exact mem_keys_point.2 (.inl hkey)
      · exact mem_keys_point.2 (.inr rfl)
    | some above =>
      have hup : forest.up element = above := by simp [up, hparent]
      dsimp only
      split
      case isTrue heq =>
        refine ⟨.root (hup.trans heq), hordered, fun _ _ hleads => hleads, fun _ hkey => hkey, ?_,
          le_rfl⟩
        exact (hordered.keys_iff element).2 (by simp [hparent])
      rename_i hne
      have hlt := hordered.below_lt hparent hne
      obtain ⟨hleads, hord, hkept, hkeys, hmem, hle⟩ := ih above (by omega)
      have hne' : forest.up element ≠ element := hup ▸ hne
      have hlead : forest.Leads element (findWithin fuel forest above).1 :=
        .step hne' (hup.symm ▸ hleads)
      have hle' : (findWithin fuel forest above).1 ≤ element :=
        hle.trans (hordered.parent_le element above hparent)
      have hnew := hkept element _ hlead
      have hmoved : (findWithin fuel forest above).2.up element ≠ element := by
        intro hfixed
        have heq := hnew.unique (.root hfixed)
        exact hne (le_antisymm (hordered.parent_le element above hparent) (heq ▸ hle))
      refine ⟨hlead, hord.point hle' (.inl hmem), ?_, ?_, ?_, hle'⟩
      · intro other root hother
        exact (hkept other root hother).point_root hnew hmoved
      · intro key hkey
        exact mem_keys_point.2 (.inl (hkeys hkey))
      · exact mem_keys_point.2 (.inl hmem)

theorem find_found (hordered : forest.Ordered) (element : Element) :
    Found forest element (forest.find element) :=
  findWithin_found hordered _ element (Nat.lt_succ_of_le (List.length_filter_le _ _))

structure Searched (forest later : UnionFind Element) : Prop where
  ordered : later.Ordered
  kept : ∀ other root, forest.Leads other root → later.Leads other root

theorem Searched.find {later : UnionFind Element} (hsearched : forest.Searched later)
    (hordered : forest.Ordered) (element : Element) :
    (later.find element).1 = (forest.find element).1 ∧ forest.Searched (later.find element).2 := by
  have hfound := find_found hsearched.ordered element
  refine ⟨?_, hfound.ordered, fun other root hleads => ?_⟩
  · exact hfound.leads.unique (hsearched.kept _ _ (find_found hordered element).leads)
  · exact hfound.kept other root (hsearched.kept other root hleads)

theorem Ordered.exists_leads (hordered : forest.Ordered) (element : Element) :
    ∃ root, forest.Leads element root :=
  ⟨_, (find_found hordered element).leads⟩

def Same (forest : UnionFind Element) (left right : Element) : Prop :=
  ∃ root, forest.Leads left root ∧ forest.Leads right root

theorem same_iff_find (hordered : forest.Ordered) (left right : Element) :
    forest.Same left right ↔ (forest.find left).1 = (forest.find right).1 := by
  have hleft := (find_found hordered left).leads
  have hright := (find_found hordered right).leads
  constructor
  · rintro ⟨root, hone, htwo⟩
    rw [hleft.unique hone, hright.unique htwo]
  · intro heq
    exact ⟨_, hleft, heq ▸ hright⟩

omit [LinearOrder Element] in
theorem Same.symm (hsame : forest.Same left right) : forest.Same right left := by
  obtain ⟨root, hleft, hright⟩ := hsame
  exact ⟨root, hright, hleft⟩

omit [LinearOrder Element] in
theorem Same.trans {middle : Element} (hfirst : forest.Same left middle)
    (hsecond : forest.Same middle right) : forest.Same left right := by
  obtain ⟨root, hleft, hmiddle⟩ := hfirst
  obtain ⟨other, hmiddle', hright⟩ := hsecond
  exact ⟨root, hleft, hmiddle.unique hmiddle' ▸ hright⟩

theorem Ordered.same_refl (hordered : forest.Ordered) (element : Element) :
    forest.Same element element := by
  obtain ⟨root, hleads⟩ := hordered.exists_leads element
  exact ⟨root, hleads, hleads⟩

theorem Leads.point_other {large small : Element} (hleads : forest.Leads other end_)
    (hlarge : forest.up large = large) (hsmall : forest.up small = small) (hne : small ≠ large) :
    (forest.point large small).Leads other (if end_ = large then small else end_) := by
  have hfixed : (forest.point large small).up small = small := by
    rw [up_point_of_ne hne]
    exact hsmall
  induction hleads with
  | @root start hup =>
    by_cases hstart : start = large
    · rw [if_pos hstart, hstart]
      refine .step ?_ ?_
      · rw [up_point_self]
        exact hne
      · rw [up_point_self]
        exact .root hfixed
    · rw [if_neg hstart]
      refine .root ?_
      rw [up_point_of_ne hstart]
      exact hup
  | @step start stop hstep _ ih =>
    have hstart : start ≠ large := fun heq => hstep (heq ▸ hlarge)
    refine .step ?_ ?_
    · rw [up_point_of_ne hstart]
      exact hstep
    · rw [up_point_of_ne hstart]
      exact ih

structure United (forest : UnionFind Element) (left right : Element)
    (united : UnionFind Element) : Prop where
  ordered : united.Ordered
  leads : ∃ leftRoot rightRoot root, forest.Leads left leftRoot ∧ forest.Leads right rightRoot ∧
    (root = leftRoot ∨ root = rightRoot) ∧
    ∀ other end_, forest.Leads other end_ →
      united.Leads other (if end_ = leftRoot ∨ end_ = rightRoot then root else end_)

theorem union_united (hordered : forest.Ordered) (left right : Element) :
    United forest left right (forest.union left right) := by
  obtain ⟨hleft, hord, hkept, -, -, -⟩ := find_found hordered left
  obtain ⟨hright, hord', hkept', hkeys', hmem', -⟩ := find_found hord right
  have hmem := hkeys' (find_found hordered left).root_mem
  obtain ⟨rightRoot, hrightRoot⟩ := hordered.exists_leads right
  have hrightEq := hright.unique (hkept right rightRoot hrightRoot)
  have hleftUp := (hkept' _ _ (hkept _ _ hleft)).up_root
  have hrightUp := (hkept' _ _ hright).up_root
  rw [union]
  set foundLeft := forest.find left with hfoundLeft
  set foundRight := foundLeft.2.find right with hfoundRight
  by_cases heq : foundLeft.1 = foundRight.1
  · rw [if_pos heq]
    refine ⟨hord', foundLeft.1, rightRoot, foundLeft.1, hleft, hrightRoot, .inl rfl, ?_⟩
    intro other end_ hother
    have hnew := hkept' _ _ (hkept _ _ hother)
    by_cases hend : end_ = foundLeft.1 ∨ end_ = rightRoot
    · rw [if_pos hend]
      rcases hend with rfl | rfl
      · exact hnew
      · rw [heq, hrightEq]
        exact hnew
    · rw [if_neg hend]
      exact hnew
  rw [if_neg heq]
  by_cases hlt : foundRight.1 < foundLeft.1
  · rw [if_pos hlt]
    refine ⟨hord'.point hlt.le (.inl hmem'), foundLeft.1, rightRoot, rightRoot, hleft, hrightRoot,
      .inr rfl, ?_⟩
    intro other end_ hother
    have hends : (if end_ = foundLeft.1 ∨ end_ = rightRoot then rightRoot else end_) =
        if end_ = foundLeft.1 then foundRight.1 else end_ := by
      grind
    rw [hends]
    exact (hkept' _ _ (hkept _ _ hother)).point_other hleftUp hrightUp hlt.ne
  rw [if_neg hlt]
  have hlt' : foundLeft.1 < foundRight.1 := lt_of_le_of_ne (not_lt.1 hlt) heq
  refine ⟨hord'.point hlt'.le (.inl hmem), foundLeft.1, rightRoot, foundLeft.1, hleft, hrightRoot,
    .inl rfl, ?_⟩
  intro other end_ hother
  have hends : (if end_ = foundLeft.1 ∨ end_ = rightRoot then foundLeft.1 else end_) =
      if end_ = foundRight.1 then foundLeft.1 else end_ := by
    grind
  rw [hends]
  exact (hkept' _ _ (hkept _ _ hother)).point_other hrightUp hleftUp hlt'.ne

theorem Same.union (hsame : forest.Same one two) (hordered : forest.Ordered) :
    (forest.union left right).Same one two := by
  obtain ⟨-, leftRoot, rightRoot, root, -, -, -, hleads⟩ := union_united hordered left right
  obtain ⟨end_, hone, htwo⟩ := hsame
  exact ⟨_, hleads one end_ hone, hleads two end_ htwo⟩

theorem same_union (hordered : forest.Ordered) (left right : Element) :
    (forest.union left right).Same left right := by
  obtain ⟨-, leftRoot, rightRoot, root, hleft, hright, -, hleads⟩ :=
    union_united hordered left right
  have hone := hleads left leftRoot hleft
  have htwo := hleads right rightRoot hright
  rw [if_pos (.inl rfl)] at hone
  rw [if_pos (.inr rfl)] at htwo
  exact ⟨root, hone, htwo⟩

theorem same_union_imp {rel : Element → Element → Prop} (hrel : Equivalence rel)
    (hordered : forest.Ordered) (hclasses : ∀ one two, forest.Same one two → rel one two)
    (hpair : rel left right) (hsame : (forest.union left right).Same one two) : rel one two := by
  obtain ⟨-, leftRoot, rightRoot, root, hleft, hright, hroot, hleads⟩ :=
    union_united hordered left right
  -- an element that leads to one of the two roots is in relation to both arguments
  have hnear : ∀ {other end_ : Element}, forest.Leads other end_ →
      (end_ = leftRoot ∨ end_ = rightRoot) → rel other left := by
    rintro other end_ hother (rfl | rfl)
    · exact hclasses other left ⟨_, hother, hleft⟩
    · exact hrel.trans (hclasses other right ⟨_, hother, hright⟩) (hrel.symm hpair)
  obtain ⟨end_, hone, htwo⟩ := hsame
  obtain ⟨first, hfirst⟩ := hordered.exists_leads one
  obtain ⟨second, hsecond⟩ := hordered.exists_leads two
  have hends : (if first = leftRoot ∨ first = rightRoot then root else first) =
      if second = leftRoot ∨ second = rightRoot then root else second :=
    ((hleads one first hfirst).unique hone).trans ((hleads two second hsecond).unique htwo).symm
  split_ifs at hends with hin hin' hin'
  · exact hrel.trans (hnear hfirst hin) (hrel.symm (hnear hsecond hin'))
  · exact absurd (hends ▸ hroot) hin'
  · exact absurd (hends ▸ hroot) hin
  · exact hclasses one two ⟨_, hfirst, hends ▸ hsecond⟩

theorem ordered_foldl (pairs : List (Element × Element)) (hordered : forest.Ordered) :
    (pairs.foldl (fun forest pair => forest.union pair.1 pair.2) forest).Ordered := by
  induction pairs generalizing forest with
  | nil => exact hordered
  | cons pair pairs ih => exact ih (union_united hordered pair.1 pair.2).ordered

theorem ordered_unions (pairs : List (Element × Element)) : (unions pairs).Ordered :=
  ordered_foldl pairs ordered_empty

theorem same_foldl (pairs : List (Element × Element)) (hordered : forest.Ordered)
    (hsame : forest.Same one two) :
    (pairs.foldl (fun forest pair => forest.union pair.1 pair.2) forest).Same one two := by
  induction pairs generalizing forest with
  | nil => exact hsame
  | cons pair pairs ih =>
    exact ih (union_united hordered pair.1 pair.2).ordered (hsame.union hordered)

theorem same_unions {pairs : List (Element × Element)} {pair : Element × Element}
    (hpair : pair ∈ pairs) : (unions pairs).Same pair.1 pair.2 := by
  obtain ⟨before, after, rfl⟩ := List.append_of_mem hpair
  rw [unions, List.foldl_append, List.foldl_cons]
  have hordered : (before.foldl (fun forest pair => forest.union pair.1 pair.2) empty).Ordered :=
    ordered_foldl before ordered_empty
  exact same_foldl after (union_united hordered pair.1 pair.2).ordered
    (same_union hordered pair.1 pair.2)

omit [LinearOrder Element] in
theorem leads_empty {root : Element} (hleads : (empty : UnionFind Element).Leads element root) :
    root = element := by
  cases hleads with
  | root => rfl
  | step hne => exact absurd rfl hne

theorem same_unions_imp {rel : Element → Element → Prop} (hrel : Equivalence rel)
    {pairs : List (Element × Element)} (hpairs : ∀ pair ∈ pairs, rel pair.1 pair.2)
    (hsame : (unions pairs).Same one two) : rel one two := by
  have hgeneral : ∀ (pairs : List (Element × Element)) (forest : UnionFind Element),
      forest.Ordered → (∀ one two, forest.Same one two → rel one two) →
      (∀ pair ∈ pairs, rel pair.1 pair.2) → ∀ one two,
      (pairs.foldl (fun forest pair => forest.union pair.1 pair.2) forest).Same one two →
      rel one two := by
    intro pairs
    induction pairs with
    | nil => exact fun _ _ hclasses _ one two hsame => hclasses one two hsame
    | cons pair pairs ih =>
      intro forest hordered hclasses hpairs
      rw [List.forall_mem_cons] at hpairs
      exact ih _ (union_united hordered pair.1 pair.2).ordered
        (fun one two hsame => same_union_imp hrel hordered hclasses hpairs.1 hsame) hpairs.2
  refine hgeneral pairs empty ordered_empty ?_ hpairs one two hsame
  rintro left right ⟨root, hleft, hright⟩
  rw [← leads_empty hleft, ← leads_empty hright]
  exact hrel.refl root

end UnionFind

end K3sm.Core
