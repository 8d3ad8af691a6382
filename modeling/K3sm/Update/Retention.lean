import K3sm.Version.Release

/-!
# The versions that running pods use

A prune spares the version directories that the paths of running pods lie in.  A path is compared
with the versions directory without regard to letter case, as the volume may do; but the version in
it has to pass the grammar of version names first, in the spelling of the path.  A text is a list
of bytes here, each of them a character.
-/

namespace K3sm.Update.Layout

open K3sm.Core.Filepath K3sm.Version List

/-- `releaseVersion`: what `semverCore` matches, with dotted identifiers for metadata. -/
def isReleaseVersion (name : Str) : Bool :=
  (findSemverCore name).any fun groups => (dotted groups.metadata).all isIdentifier

def isUnknownVersion (name : Str) : Bool :=
  name.take 8 == "unknown-".toList && name.length == 20 &&
    (name.drop 8).all fun char => char.isDigit || ('a' ≤ char && char ≤ 'f')

def maxVersionLen : ℕ := 128

def validateVersion (name : Str) : Bool :=
  name != [] && decide (name.length ≤ maxVersionLen) &&
    (isReleaseVersion name || isUnknownVersion name)

inductive KeepReason
  | current
  | previous
  | staging
  | inUse
  deriving DecidableEq

structure Retained where
  current : Str
  previous : Str
  staged : Str
  inUse : List Str

def Retained.reasons (retained : Retained) (ver : Str) : List KeepReason :=
  if ver = [] then []
  else
    (if ver = retained.current then [.current] else []) ++
      (if ver = retained.previous then [.previous] else []) ++
      (if ver = retained.staged then [.staging] else []) ++
      if ver ∈ retained.inUse then [.inUse] else []

structure PrunePlan where
  remove : List Str
  keep : List (Str × List KeepReason)

/-- Versions without a reason to stay are removed. -/
def planPrune (present : List Str) (retained : Retained) : PrunePlan :=
  let valid := (present.insertionSort (· ≤ ·)).dedup.filter validateVersion
  { remove := valid.filter fun ver => retained.reasons ver = []
    keep := (valid.filter fun ver => retained.reasons ver ≠ []).map fun ver =>
      (ver, retained.reasons ver) }

/-- `strings.EqualFold`: it ignores the case of ASCII letters, and of others. -/
structure EqualFold where
  same : Str → Str → Bool
  ascii : ∀ left right, left.map Char.toLower = right.map Char.toLower → same left right = true

inductive Unresolved
  | versionsDir
  | path (path : Str)
  | listing (path : Str)
  | version (path ver : Str)
  deriving DecidableEq

section PodVersions

variable (fold : EqualFold) (eval : Str → Option Str) (list : Str → Option (List Str))

/-- The version that a resolved path spells, when the path is inside the directory. -/
def versionPart (dir resolved : Str) : Option Str :=
  let lead := clean dir ++ ['/']
  let resolved := clean resolved
  if resolved.length ≤ lead.length || !fold.same (resolved.take lead.length) lead then none
  else some ((resolved.drop lead.length).takeWhile (· ≠ '/'))

/-- The loop of `PodVersions` for one path; the directory is listed once. -/
def podVersion (dir path : Str) : List Str × List Unresolved :=
  if isAbs path = false then ([], [])
  else
    match eval path with
    | none => ([], [.path path])
    | some resolved =>
      match versionPart fold dir resolved with
      | none => ([], [])
      | some ver =>
        if validateVersion ver = false then ([], [])
        else
          match list dir with
          | none => ([], [.listing path])
          | some names =>
            let matched := names.filter fun name => fold.same name ver && validateVersion name
            (matched, if matched = [] then [.version path ver] else [])

/-- The versions that the pods' paths lead into. -/
def podVersions (versionsDir : Str) (paths : List Str) : List Str × List Unresolved :=
  match eval versionsDir with
  | none => ([], [.versionsDir])
  | some dir =>
    let found := paths.map (podVersion fold eval list dir)
    (((found.flatMap Prod.fst).insertionSort (· ≤ ·)).dedup, found.flatMap Prod.snd)

end PodVersions

inductive Volume
  | exact
  | ignoringCase

def Volume.same : Volume → Str → Str → Prop
  | .exact => Eq
  | .ignoringCase => fun left right => left.map Char.toLower = right.map Char.toLower

/-- A resolved path is a version directory, or is inside it, and spells its name in this way. -/
def LiesIn (volume : Volume) (dir resolved ver name : Str) : Prop :=
  ∃ front rest, clean resolved = front ++ '/' :: (ver ++ rest) ∧ '/' ∉ ver ∧
    (rest = [] ∨ ∃ more, rest = '/' :: more) ∧
    volume.same front (if clean dir = ['/'] then [] else clean dir) ∧ volume.same ver name

/-- A path that the code counts for a version. -/
def Counts (fold : EqualFold) (eval : Str → Option Str) (dir path name : Str) : Prop :=
  isAbs path = true ∧ ∃ resolved ver, eval path = some resolved ∧
    versionPart fold dir resolved = some ver ∧ validateVersion ver = true ∧
      fold.same name ver = true

section Spared

variable {fold : EqualFold} {eval : Str → Option Str} {list : Str → Option (List Str)}
  {dir versionsDir name path : Str} {paths present : List Str} {retained : Retained}

theorem mem_remove : name ∈ (planPrune present retained).remove ↔
    name ∈ present ∧ validateVersion name = true ∧ name ≠ retained.current ∧
      name ≠ retained.previous ∧ name ≠ retained.staged ∧ name ∉ retained.inUse := by
  have hnonempty : validateVersion name = true → name ≠ [] := by
    rintro hvalid rfl
    cases hvalid
  have hreasons : name ≠ [] → (retained.reasons name = [] ↔ name ≠ retained.current ∧
      name ≠ retained.previous ∧ name ≠ retained.staged ∧ name ∉ retained.inUse) := by
    intro hname
    rw [Retained.reasons, if_neg hname]
    split_ifs <;> simp_all
  simp only [planPrune, mem_filter, mem_dedup, mem_insertionSort, decide_eq_true_eq]
  constructor
  · rintro ⟨⟨hmem, hvalid⟩, hnone⟩
    exact ⟨hmem, hvalid, (hreasons (hnonempty hvalid)).1 hnone⟩
  · rintro ⟨hmem, hvalid, hnone⟩
    exact ⟨⟨hmem, hvalid⟩, (hreasons (hnonempty hvalid)).2 hnone⟩

theorem counts_of_mem (hdir : eval versionsDir = some dir)
    (hmem : name ∈ (podVersions fold eval list versionsDir paths).1) :
    ∃ path ∈ paths, Counts fold eval dir path name := by
  simp only [podVersions, hdir, mem_dedup, mem_insertionSort, mem_flatMap, mem_map] at hmem
  obtain ⟨_, ⟨path, hpath, rfl⟩, hfound⟩ := hmem
  refine ⟨path, hpath, ?_⟩
  unfold podVersion at hfound
  split at hfound
  · cases hfound
  rename_i habs
  split at hfound
  · cases hfound
  rename_i resolved heval
  split at hfound
  · cases hfound
  rename_i ver hpart
  split at hfound
  · cases hfound
  rename_i hver
  split at hfound
  · cases hfound
  simp only [mem_filter, Bool.and_eq_true] at hfound
  exact ⟨by simpa using habs, resolved, ver, heval, hpart, by simpa using hver, hfound.2.1⟩

theorem mem_of_counts (hdir : eval versionsDir = some dir)
    (hlist : ∀ names, list dir = some names → names = present)
    (hok : (podVersions fold eval list versionsDir paths).2 = []) (hpath : path ∈ paths)
    (hcounts : Counts fold eval dir path name) (hpresent : name ∈ present)
    (hvalid : validateVersion name = true) :
    name ∈ (podVersions fold eval list versionsDir paths).1 := by
  obtain ⟨habs, resolved, ver, heval, hpart, hver, hsame⟩ := hcounts
  simp only [podVersions, hdir, flatMap_map, flatMap_eq_nil_iff] at hok
  have hresolves := hok path hpath
  simp only [podVersions, hdir, mem_dedup, mem_insertionSort, flatMap_map, mem_flatMap]
  refine ⟨path, hpath, ?_⟩
  cases hnames : list dir with
  | none => simp [podVersion, habs, heval, hpart, hver, hnames] at hresolves
  | some names =>
    rw [← hlist names hnames] at hpresent
    simp [podVersion, habs, heval, hpart, hver, hnames, hpresent, hsame, hvalid]

theorem Volume.same_lower {volume : Volume} {left right : Str} (hsame : volume.same left right) :
    left.map Char.toLower = right.map Char.toLower := by
  cases volume with
  | exact => rw [show left = right from hsame]
  | ignoringCase => exact hsame

theorem versionPart_of_liesIn (fold : EqualFold) {volume : Volume} {resolved ver : Str}
    (hroot : clean dir ≠ ['/']) (hvalid : validateVersion name = true)
    (hlies : LiesIn volume dir resolved ver name) :
    versionPart fold dir resolved = some ver ∧ fold.same name ver = true := by
  obtain ⟨front, rest, hclean, hver, hrest, hfront, hname⟩ := hlies
  rw [if_neg hroot] at hfront
  replace hfront := Volume.same_lower hfront
  replace hname := Volume.same_lower hname
  have hlength : front.length = (clean dir).length := by simpa using congrArg length hfront
  have hnonempty : ver ≠ [] := by
    rintro rfl
    have hnil : name = [] := by simpa using hname.symm
    rw [hnil] at hvalid
    cases hvalid
  have htake : (clean resolved).take (clean dir ++ ['/']).length = front ++ ['/'] := by
    rw [hclean, length_append, ← hlength]
    simp [take_append]
  have hdrop : (clean resolved).drop (clean dir ++ ['/']).length = ver ++ rest := by
    rw [hclean, length_append, ← hlength]
    simp [drop_append]
  have hwhile : (ver ++ rest).takeWhile (· ≠ '/') = ver := by
    have hall : ∀ char ∈ ver, decide (char ≠ '/') = true := by
      intro char hchar
      simpa using fun heq : char = '/' => hver (heq ▸ hchar)
    rw [takeWhile_append_of_pos hall]
    rcases hrest with rfl | ⟨more, rfl⟩ <;> simp
  have hlong : ¬ (clean resolved).length ≤ (clean dir ++ ['/']).length := by
    have := length_pos_iff.2 hnonempty
    rw [hclean, length_append, length_append, length_cons, length_append, length_singleton]
    omega
  have hsame : fold.same (front ++ ['/']) (clean dir ++ ['/']) = true :=
    fold.ascii _ _ (by rw [map_append, map_append, hfront])
  refine ⟨?_, fold.ascii _ _ hname.symm⟩
  simp only [versionPart, htake, hdrop, hwhile, hsame]
  rw [if_neg (by simpa using hlong)]

end Spared

/-- One of the paths lies in the version directory, and spells its name in this way. -/
def Spells (volume : Volume) (eval : Str → Option Str) (dir : Str) (paths : List Str)
    (ver name : Str) : Prop :=
  ∃ path ∈ paths, isAbs path = true ∧
    ∃ resolved, eval path = some resolved ∧ LiesIn volume dir resolved ver name

/-- No version directory that one of the paths lies in is removed. -/
def Spares (volume : Volume) (eval : Str → Option Str) (dir : Str) (paths : List Str)
    (plan : PrunePlan) : Prop :=
  ∀ ver, ∀ name ∈ plan.remove, ¬ Spells volume eval dir paths ver name

/-- A version directory that a path lies in is spelled as the grammar has it, and is not below the
root itself; or it is current, previous or staged, or some path counts for it. -/
def SpelledWell (fold : EqualFold) (volume : Volume) (eval : Str → Option Str) (dir : Str)
    (paths present : List Str) (current previous staged : Str) : Prop :=
  ∀ ver, ∀ name ∈ present, validateVersion name = true → Spells volume eval dir paths ver name →
    (clean dir ≠ ['/'] ∧ validateVersion ver = true) ∨
      name = current ∨ name = previous ∨ name = staged ∨
      ∃ path ∈ paths, Counts fold eval dir path name

/-- The versions in use are spared exactly where planner and volume agree on their spelling.
-/
theorem in_use_spared_iff (fold : EqualFold) (volume : Volume) (eval : Str → Option Str)
    (list : Str → Option (List Str)) (versionsDir dir : Str) (paths present : List Str)
    (current previous staged : Str) (hdir : eval versionsDir = some dir)
    (hlist : ∀ names, list dir = some names → names = present)
    (hok : (podVersions fold eval list versionsDir paths).2 = []) :
    Spares volume eval dir paths (planPrune present ⟨current, previous, staged,
        (podVersions fold eval list versionsDir paths).1⟩) ↔
      SpelledWell fold volume eval dir paths present current previous staged := by
  constructor
  · intro hspares ver name hpresent hvalid hspells
    by_contra hnot
    simp only [not_or] at hnot
    obtain ⟨-, hcurrent, hprevious, hstaged, hcounted⟩ := hnot
    exact hspares ver name (mem_remove.2 ⟨hpresent, hvalid, hcurrent, hprevious, hstaged,
      fun hmem => hcounted (counts_of_mem hdir hmem)⟩) hspells
  intro hspelled ver name hremove hspells
  obtain ⟨hpresent, hvalid, hcurrent, hprevious, hstaged, hunused⟩ := mem_remove.1 hremove
  obtain ⟨path, hpath, hcounts⟩ : ∃ path ∈ paths, Counts fold eval dir path name := by
    rcases hspelled ver name hpresent hvalid hspells with
      ⟨hroot, hver⟩ | hequal | hequal | hequal | hcounted
    · obtain ⟨path, hpath, habs, resolved, heval, hlies⟩ := hspells
      obtain ⟨hpart, hsame⟩ := versionPart_of_liesIn fold hroot hvalid hlies
      exact ⟨path, hpath, habs, resolved, ver, heval, hpart, hver, hsame⟩
    · exact absurd hequal hcurrent
    · exact absurd hequal hprevious
    · exact absurd hequal hstaged
    · exact hcounted
  exact hunused (mem_of_counts hdir hlist hok hpath hcounts hpresent hvalid)

def lowerFold : EqualFold where
  same left right := left.map Char.toLower == right.map Char.toLower
  ascii left right hsame := by simpa using hsame

def demoDir : Str := "/k/versions".toList

def demoPaths : List Str := ["/k/Versions/0.3.0-RC1/bin".toList]

def demoNames : List Str := ["0.3.0-rc1".toList]

theorem respelled_candidate_spared : Spares .ignoringCase some demoDir demoPaths
    (planPrune demoNames ⟨[], [], [],
      (podVersions lowerFold some (fun _ => some demoNames) demoDir demoPaths).1⟩) := by
  refine (in_use_spared_iff lowerFold .ignoringCase some (fun _ => some demoNames) demoDir demoDir
    demoPaths demoNames [] [] [] rfl (fun _ hnames => (Option.some.inj hnames).symm)
    (by decide +kernel)).2 fun ver name hname _ _ => ?_
  refine .inr (.inr (.inr (.inr ⟨_, mem_singleton_self _, rfl, _, "0.3.0-RC1".toList, rfl, ?_⟩)))
  rw [mem_singleton.1 hname]
  decide +kernel

/-- The capital letter is no version to the grammar, but the same directory to the volume. -/
theorem capital_version_pruned : ∃ dir path name : Str,
    podVersions lowerFold some (fun _ => some [name]) dir [path] = ([], []) ∧
      ¬ Spares .ignoringCase some dir [path] (planPrune [name] ⟨[], [], [],
        (podVersions lowerFold some (fun _ => some [name]) dir [path]).1⟩) := by
  refine ⟨demoDir, "/k/versions/V0.3.0/bin".toList, "v0.3.0".toList, ?_, ?_⟩
  · decide +kernel
  intro hspares
  refine hspares "V0.3.0".toList "v0.3.0".toList (by decide +kernel)
    ⟨_, mem_singleton_self _, rfl, _, rfl, demoDir, "/bin".toList, ?_⟩
  refine ⟨by decide +kernel, by decide, .inr ⟨_, rfl⟩, ?_, ?_⟩
  all_goals
    simp only [Volume.same]
    decide +kernel

end K3sm.Update.Layout
