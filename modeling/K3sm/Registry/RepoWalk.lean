import K3sm.Core.Paging
import K3sm.Registry.Names

/-!
# Walking the repositories in order

`WalkRepositories` goes through the store's directories in the order of the names they map to and
calls back for each repository after a cursor.  A directory is visited twice: as a repository, at
its name, and as the place of the names below it, at its name followed by a slash.
-/

namespace K3sm.Registry.Listing

open K3sm.Core K3sm.Core.Filepath K3sm.Registry.Ref List

/-- The store's directories.  `subdirs` are those in the directory of the names starting with
`front`; `isRepo` says that a name's directory holds a layout. -/
structure Tree where
  subdirs : Str → List Str
  isRepo : Str → Bool
  plain : ∀ front, ∀ base ∈ subdirs front, base ≠ [] ∧ '/' ∉ base
  nodup : ∀ front, (subdirs front).Nodup

section Walk

variable (withName : WithName) (tree : Tree)

def accepts (name : Str) : Bool := (parseName withName name).isOk

def entries (front : Str) : List Str :=
  (tree.subdirs front).filter fun base =>
    base != blobsDir && base.head? != some '.' && base.head? != some '_' &&
      accepts withName (front ++ base)

/-- A place in the order of names: a directory's own, or that of the names below it. -/
structure WalkStep where
  key : Str
  subtree : Bool
  deriving DecidableEq

def walkSteps (front : Str) : List WalkStep :=
  ((entries withName tree front).flatMap fun base =>
    [⟨front ++ base, false⟩, ⟨front ++ base ++ ['/'], true⟩]).insertionSort
      fun left right => left.key ≤ right.key

/-- `walkRepos`.  A name has at most `maxNameLength` bytes, which bounds how deep the
walk goes. -/
def walkRepos {State : Type} (callback : State → Str → State × Bool) (after : Str) :
    ℕ → Str → State → State × Bool
  | 0, _, state => (state, true)
  | depth + 1, front, state =>
    runUntil (fun state (step : WalkStep) =>
      if step.subtree = false then
        if after < step.key ∧ tree.isRepo step.key = true then callback state step.key
        else (state, true)
      else if step.key < after ∧ ¬ step.key <+: after then (state, true)
      else walkRepos callback after depth step.key state)
    state (walkSteps withName tree front)

def walkRepositories {State : Type} (callback : State → Str → State × Bool) (after : Str)
    (state : State) : State :=
  (walkRepos withName tree callback after (maxNameLength + 1) [] state).1

/-- The names that lie under a front of the tree. -/
inductive Below : Str → Str → Prop
  | here {front base : Str} : base ∈ entries withName tree front → Below front (front ++ base)
  | down {front base name : Str} : base ∈ entries withName tree front →
      Below (front ++ base ++ ['/']) name → Below front name

def walkNames (after : Str) : ℕ → Str → List Str
  | 0, _ => []
  | depth + 1, front =>
    (walkSteps withName tree front).flatMap fun step =>
      if step.subtree = false then
        if after < step.key ∧ tree.isRepo step.key = true then [step.key] else []
      else if step.key < after ∧ ¬ step.key <+: after then []
      else walkNames after depth step.key

end Walk

theorem append_le (front more : Str) : front ≤ front ++ more := by
  apply not_lt.1
  induction front with
  | nil => simp
  | cons char front ih => simpa [cons_lt_cons_iff] using ih

/-- A name that is greater than another, and does not start with it, is greater than
whatever starts with it. -/
theorem append_lt_of_lt {left right : Str} (hlt : left < right) (hnotFront : ¬ left <+: right)
    (more : Str) : left ++ more < right := by
  induction left generalizing right with
  | nil => exact absurd (List.nil_prefix) hnotFront
  | cons char left ih =>
    cases right with
    | nil => exact absurd hlt (by simp)
    | cons other right =>
      rw [cons_lt_cons_iff] at hlt
      rw [cons_append, cons_lt_cons_iff]
      rcases hlt with hchar | ⟨rfl, hrest⟩
      · exact .inl hchar
      · refine .inr ⟨rfl, ih hrest fun hfront => hnotFront ?_⟩
        exact cons_prefix_cons.2 ⟨rfl, hfront⟩

section Walk

variable {withName : WithName} {tree : Tree} {front base name after : Str}

theorem runUntil_walkNames {State : Type} (callback : State → Str → State × Bool) (after : Str)
    (depth : ℕ) (front : Str) (state : State) :
    walkRepos withName tree callback after depth front state =
      runUntil callback state (walkNames withName tree after depth front) := by
  induction depth generalizing front state with
  | zero => rfl
  | succ depth ih =>
    rw [walkRepos, walkNames]
    apply runUntil_flatMap
    intro state step
    split_ifs
    · rw [runUntil]
      rcases callback state step.key with ⟨next, _ | _⟩ <;> rfl
    · rfl
    · rfl
    · exact ih step.key state

theorem mem_walkSteps {step : WalkStep} : step ∈ walkSteps withName tree front ↔
    ∃ base ∈ entries withName tree front,
      step = ⟨front ++ base, false⟩ ∨ step = ⟨front ++ base ++ ['/'], true⟩ := by
  simp [walkSteps]

theorem entry_plain (hbase : base ∈ entries withName tree front) : base ≠ [] ∧ '/' ∉ base :=
  tree.plain front base (mem_of_mem_filter hbase)

theorem key_not_start (front : Str) {other : Str} (hbase : '/' ∉ base) (hother : '/' ∉ other)
    (hne : base ≠ other)
    {tail : Str} (htail : tail = [] ∨ tail = ['/']) :
    ¬ (front ++ base ++ ['/']) <+: (front ++ other ++ tail) := by
  rw [append_assoc, append_assoc, prefix_append_right_inj]
  rintro ⟨rest, hrest⟩
  rw [append_assoc, singleton_append] at hrest
  rcases htail with rfl | rfl
  · apply hother
    rw [← append_nil other, ← hrest]
    simp
  · -- the first slash ends the base on either side
    have hsplit := congrArg splitSlash hrest
    rw [splitSlash, splitSlash, splitOn_append_cons_self_of_not_mem hbase,
      splitOn_append_cons_self_of_not_mem hother] at hsplit
    exact hne (List.cons.inj hsplit).1

theorem walkSteps_pairwise (front : Str) : (walkSteps withName tree front).Pairwise
    fun left right => left.key ≤ right.key ∧ left ≠ right := by
  have hnodup : (walkSteps withName tree front).Nodup := by
    apply (perm_insertionSort _ _).nodup_iff.2
    rw [nodup_flatMap]
    constructor
    · intro base _
      simp
    · refine ((tree.nodup front).filter _).imp ?_
      intro left right hne
      simp [Function.onFun, hne.symm]
  have hsorted : (walkSteps withName tree front).Pairwise fun left right =>
      left.key ≤ right.key := pairwise_insertionSort _ _
  exact hsorted.and hnodup

theorem lt_of_steps {left right : WalkStep} (hleft : left ∈ walkSteps withName tree front)
    (hright : right ∈ walkSteps withName tree front) (hle : left.key ≤ right.key)
    (hne : left ≠ right) (more : Str) (hmore : left.subtree = false → more = []) :
    left.key ++ more < right.key := by
  obtain ⟨base, hbase, hleft⟩ := mem_walkSteps.1 hleft
  obtain ⟨other, hother, hright⟩ := mem_walkSteps.1 hright
  have hslash := (entry_plain hbase).2
  have hslash' := (entry_plain hother).2
  have hkey : left.key ≠ right.key := by
    intro hsame
    apply hne
    rcases hleft with rfl | rfl <;> rcases hright with rfl | rfl
    · rw [append_cancel_left hsame]
    · rw [append_assoc] at hsame
      rw [append_cancel_left hsame] at hslash
      simp at hslash
    · rw [append_assoc] at hsame
      rw [← append_cancel_left hsame] at hslash'
      simp at hslash'
    · rw [append_assoc, append_assoc] at hsame
      rw [append_cancel_right (append_cancel_left hsame)]
  have hlt := lt_of_le_of_ne hle hkey
  rcases hleft with rfl | rfl
  · rw [hmore rfl, append_nil]
    exact hlt
  apply append_lt_of_lt hlt
  by_cases hsame : base = other
  · -- of one directory, only its own place comes before the names below it
    subst hsame
    rcases hright with rfl | rfl
    · exact absurd hle (not_le.2 (lt_of_le_of_ne (append_le _ _) hkey.symm))
    · exact absurd rfl hne
  · rcases hright with rfl | rfl
    · simpa using key_not_start front hslash hslash' hsame (.inl rfl)
    · exact key_not_start front hslash hslash' hsame (.inr rfl)

theorem start_of_mem_walkNames {depth : ℕ}
    (hname : name ∈ walkNames withName tree after depth front) :
    front <+: name := by
  induction depth generalizing front with
  | zero => cases hname
  | succ depth ih =>
    rw [walkNames] at hname
    obtain ⟨step, hstep, hname⟩ := mem_flatMap.1 hname
    obtain ⟨base, -, hplace⟩ := mem_walkSteps.1 hstep
    have hkey : front <+: step.key := by
      rcases hplace with rfl | rfl
      · exact prefix_append _ _
      · exact ⟨base ++ ['/'], by simp⟩
    split_ifs at hname
    · rw [mem_singleton.1 hname]
      exact hkey
    · cases hname
    · cases hname
    · exact hkey.trans (ih hname)

/-- What lies at a place starts with its key, and is its key when the place is a
directory's own. -/
theorem mem_at_step {depth : ℕ} {step : WalkStep}
    (hname : name ∈ (if step.subtree = false then
        if after < step.key ∧ tree.isRepo step.key = true then [step.key] else []
      else if step.key < after ∧ ¬ step.key <+: after then []
      else walkNames withName tree after depth step.key)) :
    ∃ more, name = step.key ++ more ∧ (step.subtree = false → more = []) := by
  split_ifs at hname with hown hafter hskip
  · exact ⟨[], by simpa using hname, fun _ => rfl⟩
  · cases hname
  · cases hname
  · obtain ⟨more, hmore⟩ := start_of_mem_walkNames hname
    exact ⟨more, hmore.symm, fun htrue => absurd htrue hown⟩

theorem walkNames_pairwise (depth : ℕ) (front : Str) :
    (walkNames withName tree after depth front).Pairwise (· < ·) := by
  induction depth generalizing front with
  | zero => exact List.Pairwise.nil
  | succ depth ih =>
    rw [walkNames, pairwise_flatMap]
    constructor
    · intro step _
      split_ifs
      · exact pairwise_singleton _ _
      · exact List.Pairwise.nil
      · exact List.Pairwise.nil
      · exact ih step.key
    · refine (walkSteps_pairwise front).imp_of_mem ?_
      rintro left right hleft hright ⟨hle, hne⟩ name hname other hother
      obtain ⟨more, rfl, hmore⟩ := mem_at_step hname
      obtain ⟨more', rfl, -⟩ := mem_at_step hother
      exact (lt_of_steps hleft hright hle hne more hmore).trans_le (append_le _ _)

theorem length_of_accepts (haccepts : accepts withName name = true) :
    name.length ≤ maxNameLength := by
  unfold accepts parseName at haccepts
  split at haccepts
  · cases haccepts
  · rename_i hlength
    exact not_lt.1 fun hlong => hlength (.inr hlong)

theorem Below.accepted (hbelow : Below withName tree front name) :
    accepts withName name = true := by
  induction hbelow with
  | here hbase =>
    have hfilter := (mem_filter.1 hbase).2
    simp only [Bool.and_eq_true] at hfilter
    exact hfilter.2
  | down _ _ ih => exact ih

theorem Below.longer (hbelow : Below withName tree front name) :
    front <+: name ∧ front.length < name.length := by
  induction hbelow with
  | @here front base hbase =>
    refine ⟨prefix_append _ _, ?_⟩
    have hpositive := length_pos_iff.2 (entry_plain hbase).1
    rw [length_append]
    omega
  | @down front base name hbase _ ih =>
    have hstart : front <+: front ++ base ++ ['/'] := ⟨base ++ ['/'], by simp⟩
    refine ⟨hstart.trans ih.1, ?_⟩
    have hlonger := ih.2
    simp only [length_append, length_singleton] at hlonger
    omega

theorem mem_walkNames_iff {depth : ℕ} (hdepth : maxNameLength < front.length + depth) :
    name ∈ walkNames withName tree after depth front ↔
      Below withName tree front name ∧ tree.isRepo name = true ∧ after < name := by
  induction depth generalizing front with
  | zero =>
    simp only [walkNames, not_mem_nil, false_iff]
    rintro ⟨hbelow, -⟩
    have hlength := length_of_accepts hbelow.accepted
    have hlonger := hbelow.longer.2
    omega
  | succ depth ih =>
    have hdeeper : ∀ base, base ∈ entries withName tree front →
        maxNameLength < (front ++ base ++ ['/']).length + depth := by
      intro base _
      simp only [length_append, length_singleton]
      omega
    rw [walkNames, mem_flatMap]
    constructor
    · rintro ⟨step, hstep, hname⟩
      obtain ⟨base, hbase, rfl | rfl⟩ := mem_walkSteps.1 hstep
      · simp only [if_true] at hname
        split_ifs at hname with hfound
        · rw [mem_singleton.1 hname]
          exact ⟨Below.here hbase, hfound.2, hfound.1⟩
        · cases hname
      · simp only [Bool.true_eq_false, if_false] at hname
        split_ifs at hname
        · cases hname
        · obtain ⟨hbelow, hrest⟩ := (ih (hdeeper base hbase)).1 hname
          exact ⟨Below.down hbase hbelow, hrest⟩
    rintro ⟨hbelow, hrepo, hafter⟩
    cases hbelow with
    | @here _ base hbase =>
      refine ⟨⟨front ++ base, false⟩, mem_walkSteps.2 ⟨base, hbase, .inl rfl⟩, ?_⟩
      simp [hrepo, hafter]
    | @down _ base _ hbase hbelow =>
      refine ⟨⟨front ++ base ++ ['/'], true⟩, mem_walkSteps.2 ⟨base, hbase, .inr rfl⟩, ?_⟩
      have hvisited : ¬ (front ++ base ++ ['/'] < after ∧
          ¬ (front ++ base ++ ['/']) <+: after) := by
        rintro ⟨hlt, hstart⟩
        obtain ⟨more, rfl⟩ := hbelow.longer.1
        exact absurd hafter (append_lt_of_lt hlt hstart more).asymm
      rw [if_neg (by simp), if_neg hvisited]
      exact (ih (hdeeper base hbase)).2 ⟨hbelow, hrepo, hafter⟩

end Walk

def repositories (withName : WithName) (tree : Tree) : List Str :=
  walkNames withName tree [] (maxNameLength + 1) []

theorem repositories_pairwise (withName : WithName) (tree : Tree) :
    (repositories withName tree).Pairwise (· < ·) :=
  walkNames_pairwise _ _

theorem mem_repositories {withName : WithName} {tree : Tree} {name : Str} :
    name ∈ repositories withName tree ↔ Below withName tree [] name ∧ tree.isRepo name = true := by
  rw [repositories, mem_walkNames_iff (by simp)]
  constructor
  · rintro ⟨hbelow, hrepo, -⟩
    exact ⟨hbelow, hrepo⟩
  · rintro ⟨hbelow, hrepo⟩
    refine ⟨hbelow, hrepo, ?_⟩
    cases name with
    | nil => exact absurd hbelow.longer.2 (by simp)
    | cons char name => simp

theorem walkRepositories_eq (withName : WithName) (tree : Tree) {State : Type}
    (callback : State → Str → State × Bool) (after : Str) (state : State) :
    walkRepositories withName tree callback after state =
      (runUntil callback state
        ((repositories withName tree).filter fun name => after < name)).1 := by
  have hnames : walkNames withName tree after (maxNameLength + 1) [] =
      (repositories withName tree).filter fun name => after < name := by
    apply eq_of_pairwise_lt (walkNames_pairwise _ _) ((repositories_pairwise _ _).filter _)
    intro name
    rw [mem_filter, mem_repositories, mem_walkNames_iff (by simp), decide_eq_true_eq, and_assoc]
  rw [walkRepositories, runUntil_walkNames, hnames]

end K3sm.Registry.Listing
