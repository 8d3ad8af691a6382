import K3sm.Registry.RepoWalk

/-!
# The full listing of the repositories

`Repositories` walks every directory of the store, gathers the repositories in the order it
comes to them and sorts their names.  The walk from a cursor takes the directories in the
order of names and leaves out the subtrees before the cursor, and agrees with what the full
listing has after it.
-/

namespace K3sm.Registry.Store

open K3sm.Core K3sm.Core.Filepath K3sm.Registry.Ref K3sm.Registry.Listing List

section Listing

variable (withName : WithName) (tree : Tree)

/-- `filepath.WalkDir` with the callback of `Repositories`: a directory's entries by name,
each with what lies below it. -/
def walkDir : ℕ → Str → List Str
  | 0, _ => []
  | depth + 1, front =>
    ((tree.subdirs front).insertionSort (· ≤ ·)).flatMap fun base =>
      if base = blobsDir ∨ base.head? = some '.' ∨ base.head? = some '_' then []
      else if accepts withName (front ++ base) = false then []
      else
        (if tree.isRepo (front ++ base) then [front ++ base] else []) ++
          walkDir depth (front ++ base ++ ['/'])

/-- `Repositories`.  A name has at most `maxNameLength` bytes, so no directory that is not
skipped lies deeper. -/
def repositories : List Str :=
  (walkDir withName tree (maxNameLength + 1) []).insertionSort (· ≤ ·)

end Listing

variable {withName : WithName} {tree : Tree} {front base name : Str} {depth : ℕ}

theorem mem_walkDir_succ :
    name ∈ walkDir withName tree (depth + 1) front ↔
      ∃ base ∈ entries withName tree front,
        name = front ++ base ∧ tree.isRepo name = true ∨
          name ∈ walkDir withName tree depth (front ++ base ++ ['/']) := by
  rw [walkDir, mem_flatMap]
  constructor
  · rintro ⟨base, hbase, hname⟩
    split_ifs at hname with hskip haccept hrepo
    · cases hname
    · cases hname
    all_goals
      have hentry : base ∈ entries withName tree front := by
        refine mem_filter.2 ⟨(mem_insertionSort _).1 hbase, ?_⟩
        simpa [and_assoc, not_or] using And.intro hskip haccept
      refine ⟨base, hentry, ?_⟩
    · rcases mem_append.1 hname with hown | hbelow
      · obtain rfl := mem_singleton.1 hown
        exact .inl ⟨rfl, hrepo⟩
      · exact .inr hbelow
    · exact .inr hname
  rintro ⟨base, hentry, hname⟩
  obtain ⟨hbase, hwanted⟩ := mem_filter.1 hentry
  refine ⟨base, (mem_insertionSort _).2 hbase, ?_⟩
  have hskip : ¬ (base = blobsDir ∨ base.head? = some '.' ∨ base.head? = some '_') ∧
      ¬ accepts withName (front ++ base) = false := by
    simpa [and_assoc, not_or] using hwanted
  rw [if_neg hskip.1, if_neg hskip.2]
  apply mem_append.2
  rcases hname with ⟨rfl, hrepo⟩ | hbelow
  · rw [if_pos hrepo]
    exact .inl (mem_singleton_self _)
  · exact .inr hbelow

theorem mem_walkDir_iff (hdepth : maxNameLength < front.length + depth) :
    name ∈ walkDir withName tree depth front ↔
      Below withName tree front name ∧ tree.isRepo name = true := by
  induction depth generalizing front with
  | zero =>
    simp only [walkDir, not_mem_nil, false_iff]
    rintro ⟨hbelow, -⟩
    have hlength := length_of_accepts hbelow.accepted
    have hlonger := hbelow.longer.2
    omega
  | succ depth ih =>
    have hdeeper : ∀ base : Str, maxNameLength < (front ++ base ++ ['/']).length + depth := by
      intro base
      simp only [length_append, length_singleton]
      omega
    rw [mem_walkDir_succ]
    constructor
    · rintro ⟨base, hbase, ⟨rfl, hrepo⟩ | hname⟩
      · exact ⟨Below.here hbase, hrepo⟩
      · obtain ⟨hbelow, hrepo⟩ := (ih (hdeeper base)).1 hname
        exact ⟨Below.down hbase hbelow, hrepo⟩
    · rintro ⟨hbelow, hrepo⟩
      cases hbelow with
      | @here _ base hbase => exact ⟨base, hbase, .inl ⟨rfl, hrepo⟩⟩
      | @down _ base _ hbase hbelow =>
        exact ⟨base, hbase, .inr ((ih (hdeeper base)).2 ⟨hbelow, hrepo⟩)⟩

theorem start_of_mem_walkDir (hname : name ∈ walkDir withName tree depth front) :
    front <+: name := by
  induction depth generalizing front with
  | zero => cases hname
  | succ depth ih =>
    obtain ⟨base, -, ⟨rfl, -⟩ | hbelow⟩ := mem_walkDir_succ.1 hname
    · exact prefix_append _ _
    · rw [append_assoc] at hbelow
      exact (prefix_append _ _).trans (ih hbelow)

def entryOf (front name : Str) : Str := (name.drop front.length).takeWhile (· != '/')

theorem entryOf_own (hbase : '/' ∉ base) : entryOf front (front ++ base) = base := by
  unfold entryOf
  rw [drop_left, takeWhile_eq_self_iff]
  intro char hchar
  simpa using fun hslash : char = '/' => hbase (hslash ▸ hchar)

theorem entryOf_below (hbase : '/' ∉ base) (hname : (front ++ base ++ ['/']) <+: name) :
    entryOf front name = base := by
  obtain ⟨more, rfl⟩ := hname
  unfold entryOf
  rw [append_assoc, append_assoc, drop_left,
    takeWhile_append_of_pos, singleton_append, takeWhile_cons_of_neg,
    append_nil]
  · simp
  · intro char hchar
    simpa using fun hslash : char = '/' => hbase (hslash ▸ hchar)

theorem nodup_walkDir (depth : ℕ) (front : Str) : (walkDir withName tree depth front).Nodup := by
  induction depth generalizing front with
  | zero => exact nodup_nil
  | succ depth ih =>
    have hplain : ∀ base ∈ (tree.subdirs front).insertionSort (· ≤ ·), '/' ∉ base :=
      fun base hbase => (tree.plain front base ((mem_insertionSort _).1 hbase)).2
    rw [walkDir, nodup_flatMap]
    constructor
    · intro base hbase
      split_ifs
      · exact nodup_nil
      · exact nodup_nil
      · refine nodup_cons.2 ⟨fun hbelow => ?_, ih _⟩
        have hshort := (start_of_mem_walkDir hbelow).length_le
        simp only [length_append, length_singleton] at hshort
        omega
      · exact ih _
    have hnodup : ((tree.subdirs front).insertionSort (· ≤ ·)).Nodup :=
      (perm_insertionSort _ _).nodup_iff.2 (tree.nodup front)
    refine hnodup.imp_of_mem ?_
    intro base other hbase hother hne name hname hname'
    apply hne
    have hentry : ∀ base ∈ (tree.subdirs front).insertionSort (· ≤ ·),
        name ∈ (if base = blobsDir ∨ base.head? = some '.' ∨ base.head? = some '_' then []
          else if accepts withName (front ++ base) = false then []
          else (if tree.isRepo (front ++ base) then [front ++ base] else []) ++
            walkDir withName tree depth (front ++ base ++ ['/'])) →
        entryOf front name = base := by
      intro base hbase hname
      split_ifs at hname
      · cases hname
      · cases hname
      · rcases mem_append.1 hname with hown | hbelow
        · rw [mem_singleton.1 hown]
          exact entryOf_own (hplain base hbase)
        · exact entryOf_below (hplain base hbase) (start_of_mem_walkDir hbelow)
      · exact entryOf_below (hplain base hbase) (start_of_mem_walkDir hname)
    exact (hentry base hbase hname).symm.trans (hentry other hother hname')

theorem pairwise_repositories (withName : WithName) (tree : Tree) :
    (repositories withName tree).Pairwise (· < ·) := by
  have hsorted : (repositories withName tree).Pairwise (· ≤ ·) := pairwise_insertionSort _ _
  have hnodup : (repositories withName tree).Nodup :=
    (perm_insertionSort _ _).nodup_iff.2 (nodup_walkDir _ _)
  exact (hsorted.and hnodup).imp fun hboth => lt_of_le_of_ne hboth.1 hboth.2

theorem mem_repositories_iff :
    name ∈ repositories withName tree ↔ Below withName tree [] name ∧ tree.isRepo name = true := by
  rw [repositories, mem_insertionSort]
  exact mem_walkDir_iff (by simp)

theorem repositories_eq (withName : WithName) (tree : Tree) :
    repositories withName tree = Listing.repositories withName tree := by
  apply eq_of_pairwise_lt (pairwise_repositories withName tree)
    (repositories_pairwise withName tree)
  intro name
  rw [mem_repositories_iff, mem_repositories]

/-- A walk from a cursor calls back for the names of the full listing after it, in order and
each once, until the callback says to stop, and skips no directory with one below. -/
theorem walk_agrees_with_repositories (withName : WithName) (tree : Tree) {State : Type}
    (callback : State → Str → State × Bool) (after : Str) (state : State) :
    walkRepositories withName tree callback after state =
        (runUntil callback state ((repositories withName tree).filter fun name => after < name)).1 ∧
      (repositories withName tree).Pairwise (· < ·) ∧
      ∀ key : Str, key < after ∧ ¬ key <+: after →
        ∀ name ∈ repositories withName tree, key <+: name → ¬ after < name := by
  refine ⟨?_, pairwise_repositories withName tree, ?_⟩
  · rw [repositories_eq]
    exact walkRepositories_eq withName tree callback after state
  · rintro key ⟨hbefore, hstart⟩ name - ⟨more, rfl⟩
    exact (append_lt_of_lt hbefore hstart more).asymm

end K3sm.Registry.Store
