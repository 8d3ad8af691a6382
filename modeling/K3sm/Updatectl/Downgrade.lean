import K3sm.Version.Release

/-!
# Two orders of releases

The controller refuses a downgrade by an order of its own, and everyone else orders releases by
the order of the version package.  The controller's parser reads more than releases: builds of
untagged commits, numbers with leading zeros and prereleases of any spelling.
-/

namespace K3sm.Updatectl

open K3sm.Core K3sm.Core.Filepath K3sm.Core.Precedence

def Semver.version (semver : Semver) : Precedence.Version Str :=
  ⟨semver.major, semver.minor, semver.patch, semver.pre⟩

def smallCore (release : Version.Semver) : Bool :=
  decide (release.major < 2 ^ 63) && decide (release.minor < 2 ^ 63) &&
    decide (release.patch < 2 ^ 63)

/-- Two releases with small cores are told apart by their cores, or by identifiers that
both orders decide alike.  Other releases do not go down. -/
def OrdersAlike (from' target : Str) : Prop :=
  match Version.parseRelease from', Version.parseRelease target with
  | some from', some target =>
    if smallCore from' = true ∧ smallCore target = true then
      core target.version from'.version = .eq →
        DecidedAlike atoi Version.uintNumber target.pre from'.pre
    else ¬ Below Version.uintNumber target.version from'.version
  | _, _ => ∀ source ∈ parseSemver from', ∀ goal ∈ parseSemver target,
      ¬ Below atoi goal.version source.version

instance (from' target : Str) : Decidable (OrdersAlike from' target) := by
  unfold OrdersAlike
  split <;> infer_instance

theorem comparePre_eq (lefts rights : List Str) :
    comparePre lefts rights = identifiers atoi lefts rights := by
  induction lefts generalizing rights with
  | nil => cases rights <;> rfl
  | cons left lefts ih =>
    cases rights with
    | nil => rfl
    | cons right rights =>
      have hident : comparePreID left right = identifier atoi left right := rfl
      simp only [comparePre, identifiers, hident, ih]
      cases identifier atoi left right <;> rfl

theorem compareSemver_eq (left right : Semver) :
    compareSemver left right = precedence atoi left.version right.version := by
  unfold compareSemver precedence core
  simp only [Semver.version]
  cases compare left.major right.major <;> cases compare left.minor right.minor <;>
    cases compare left.patch right.patch <;> simp only [Ordering.then]
  cases hleft : left.pre <;> cases hright : right.pre <;>
    simp [prerelease, comparePre_eq]

theorem isDowngrade_iff (from' target : Str) :
    isDowngrade from' target = true ↔ ∃ source ∈ parseSemver from', ∃ goal ∈ parseSemver target,
      Below atoi goal.version source.version := by
  unfold isDowngrade Below
  cases parseSemver from' <;> cases parseSemver target <;> simp [compareSemver_eq]

theorem compareReleases_lt_iff (target from' : Str) :
    Version.compareReleases target from' = some .lt ↔
      ∃ source ∈ Version.parseRelease from', ∃ goal ∈ Version.parseRelease target,
        Below Version.uintNumber goal.version source.version := by
  unfold Version.compareReleases Below
  cases Version.parseRelease from' <;> cases Version.parseRelease target <;>
    simp [Version.compareSemver_eq]

section Parsers

variable {text : Str} {groups : Version.Groups}

theorem atoi_of_digits (hnonempty : text ≠ []) (hdigits : text.all Char.isDigit = true) :
    atoi text = if Nat.ofDigitChars 10 text 0 < 2 ^ 63 then
      some (Nat.ofDigitChars 10 text 0 : ℤ) else none := by
  cases text with
  | nil => exact absurd rfl hnonempty
  | cons first rest =>
    have hfirst : first.isDigit = true := by
      simp only [List.all_cons, Bool.and_eq_true] at hdigits
      exact hdigits.1
    have hminus : first ≠ '-' := by
      rintro rfl
      cases hfirst
    have hplus : first ≠ '+' := by
      rintro rfl
      cases hfirst
    unfold atoi
    split
    rename_i negative digits hsign
    have hsame : negative = false ∧ digits = first :: rest := by
      split at hsign <;> simp_all
    obtain ⟨rfl, rfl⟩ := hsame
    rw [if_neg (by simp [hdigits])]
    simp only [Bool.false_eq_true, if_false]
    have hbound : (-2 ^ 63 ≤ (Nat.ofDigitChars 10 (first :: rest) 0 : ℤ) ∧
        (Nat.ofDigitChars 10 (first :: rest) 0 : ℤ) < 2 ^ 63) ↔
        Nat.ofDigitChars 10 (first :: rest) 0 < 2 ^ 63 := by
      omega
    simp only [hbound]

theorem coreNumber_numeral (hnumeral : Version.isNumeral text = true) :
    coreNumber text = if Nat.ofDigitChars 10 text 0 < 2 ^ 63 then
      some (Nat.ofDigitChars 10 text 0 : ℤ) else none := by
  obtain ⟨hnonempty, hdigits⟩ := Version.isNumeral_digits hnumeral
  unfold coreNumber
  rw [atoi_of_digits hnonempty hdigits]
  split_ifs with hsmall
  · simp
  · rfl

theorem coreNumber_parseUint (hnumeral : Version.isNumeral text = true) {value : ℕ}
    (hvalue : Version.parseUint text = some value) :
    coreNumber text = if value < 2 ^ 63 then some (value : ℤ) else none := by
  rw [coreNumber_numeral hnumeral]
  unfold Version.parseUint at hvalue
  split_ifs at hvalue
  cases hvalue
  rfl

theorem findSemverCore_parts (hfound : Version.findSemverCore text = some groups) :
    (cut '-' (cut '+' (trimStart 'v' text)).1).1.splitOn '.' =
        [groups.major, groups.minor, groups.patch] ∧
      (cut '-' (cut '+' (trimStart 'v' text)).1).2 = groups.pre ∧ groups.pre ≠ some [] := by
  unfold Version.findSemverCore at hfound
  simp only at hfound
  split at hfound
  case h_2 => cases hfound
  rename_i major minor patch hcore
  split_ifs at hfound with hparts
  cases hfound
  refine ⟨hcore, rfl, fun hempty => ?_⟩
  simp only at hempty
  simp [hempty, Version.isIdentifier] at hparts

theorem parseSemver_groups (hfound : Version.findSemverCore text = some groups) :
    parseSemver text = do
      let major ← coreNumber groups.major
      let minor ← coreNumber groups.minor
      let patch ← coreNumber groups.patch
      return ⟨major, minor, patch, Version.dotted groups.pre⟩ := by
  obtain ⟨hcore, hpre, hnonempty⟩ := findSemverCore_parts hfound
  unfold parseSemver
  simp only [hcore, hpre]
  cases hgroups : groups.pre with
  | none => rfl
  | some pre =>
    cases pre with
    | nil => exact absurd hgroups hnonempty
    | cons first rest => rfl

/-- The controller reads a release with a small core as the release it is, and one with a
larger core not at all. -/
theorem parseSemver_release {release : Version.Semver}
    (hrelease : Version.parseRelease text = some release) :
    (parseSemver text).map Semver.version =
      if smallCore release = true then some release.version else none := by
  obtain ⟨groups, hfound, hmajor, hminor, hpatch, hpre⟩ :=
    Version.parseVersion_groups (Version.parseRelease_version hrelease)
  have hgroups := ((Version.findSemverCore_iff text groups).1 hfound).1
  rw [parseSemver_groups hfound, coreNumber_parseUint hgroups.major hmajor,
    coreNumber_parseUint hgroups.minor hminor, coreNumber_parseUint hgroups.patch hpatch]
  unfold smallCore Version.Semver.version
  rw [hpre]
  generalize 2 ^ 63 = bound
  by_cases hmajor : release.major < bound <;> by_cases hminor : release.minor < bound <;>
    by_cases hpatch : release.patch < bound <;> simp [hmajor, hminor, hpatch, Semver.version]

theorem parseSemver_small {release : Version.Semver}
    (hrelease : Version.parseRelease text = some release) (hsmall : smallCore release = true) :
    ∃ semver, parseSemver text = some semver ∧ semver.version = release.version := by
  have hparsed := parseSemver_release hrelease
  rw [if_pos hsmall] at hparsed
  exact Option.map_eq_some_iff.1 hparsed

theorem parseSemver_large {release : Version.Semver}
    (hrelease : Version.parseRelease text = some release) (hlarge : smallCore release ≠ true) :
    parseSemver text = none := by
  have hparsed := parseSemver_release hrelease
  rw [if_neg hlarge] at hparsed
  exact Option.map_eq_none_iff.1 hparsed

end Parsers

section Agree

variable {from' target : Str}

theorem not_compareReleases (hnone : Version.parseRelease from' = none ∨
    Version.parseRelease target = none) : Version.compareReleases target from' ≠ some .lt := by
  rw [Ne, compareReleases_lt_iff]
  rcases hnone with hnone | hnone <;> simp [hnone]

theorem not_isDowngrade (hnone : parseSemver from' = none ∨ parseSemver target = none) :
    isDowngrade from' target ≠ true := by
  rw [Ne, isDowngrade_iff]
  rcases hnone with hnone | hnone <;> simp [hnone]

theorem agree_iff_of_none (hnone : Version.parseRelease from' = none ∨
    Version.parseRelease target = none) :
    (isDowngrade from' target = true ↔ Version.compareReleases target from' = some .lt) ↔
      ∀ source ∈ parseSemver from', ∀ goal ∈ parseSemver target,
        ¬ Below atoi goal.version source.version := by
  rw [iff_false_right (not_compareReleases hnone), isDowngrade_iff]
  simp

theorem agree_iff_of_releases {source goal : Version.Semver}
    (hsource : Version.parseRelease from' = some source)
    (hgoal : Version.parseRelease target = some goal) :
    (isDowngrade from' target = true ↔ Version.compareReleases target from' = some .lt) ↔
      if smallCore source = true ∧ smallCore goal = true then
        core goal.version source.version = .eq →
          DecidedAlike atoi Version.uintNumber goal.pre source.pre
      else ¬ Below Version.uintNumber goal.version source.version := by
  have horder : Version.compareReleases target from' = some .lt ↔
      Below Version.uintNumber goal.version source.version := by
    rw [compareReleases_lt_iff]
    simp [hsource, hgoal]
  rw [horder]
  split_ifs with hsmall
  · obtain ⟨source', hparsed, hsame⟩ := parseSemver_small hsource hsmall.1
    obtain ⟨goal', hparsed', hsame'⟩ := parseSemver_small hgoal hsmall.2
    have hdowngrade : isDowngrade from' target = true ↔ Below atoi goal.version source.version := by
      rw [isDowngrade_iff, ← hsame, ← hsame']
      simp [hparsed, hparsed']
    rw [hdowngrade]
    exact below_alike_iff atoi Version.uintNumber goal.version source.version
  · have hnone : parseSemver from' = none ∨ parseSemver target = none := by
      by_cases hsource' : smallCore source = true
      · exact .inr (parseSemver_large hgoal fun hgoal' => hsmall ⟨hsource', hgoal'⟩)
      · exact .inl (parseSemver_large hsource hsource')
    exact iff_false_left (not_isDowngrade hnone)

end Agree

def pseudoVersion : Str :=
  ['v', '0', '.', '1', '.', '8', '-', '0', '.', '2', '0', '2', '6', '1', '0', '1', '5', '1', '2',
    '0', '0', '0', '0', '-', '0', '1', '2', '3', '4', '5', '6', '7', '8', '9', 'a', 'b']

end K3sm.Updatectl
