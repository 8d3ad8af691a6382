import K3sm.Core.Precedence
import K3sm.Updatectl.Version

/-!
# Release versions

The comparison that every reader of a release channel uses.  A version is read by a regular
expression; a build of an untagged commit, which carries a time and a revision among its
prerelease identifiers, is a version and not a release.  Section 11 of semver takes every
identifier of digits for a number, the comparison one that fits 64 bits.
-/

namespace K3sm.Version

open K3sm.Core K3sm.Core.Filepath List

/-- `0|[1-9]\d*`. -/
def isNumeral : Str → Bool
  | ['0'] => true
  | first :: rest => first.isDigit && first != '0' && rest.all Char.isDigit
  | [] => false

def isIdentifierChar (char : Char) : Bool := char.isAlphanum || char == '-'

/-- `[0-9A-Za-z-]+`. -/
def isIdentifier (text : Str) : Bool := text != [] && text.all isIdentifierChar

/-- `[0-9A-Za-z.-]+`. -/
def isMetadata (text : Str) : Bool :=
  text != [] && text.all fun char => isIdentifierChar char || char == '.'

/-- What the groups of `semverCore` match. -/
structure Groups where
  major : Str
  minor : Str
  patch : Str
  pre : Option Str
  metadata : Option Str
  deriving DecidableEq

structure Groups.WellFormed (groups : Groups) : Prop where
  major : isNumeral groups.major = true
  minor : isNumeral groups.minor = true
  patch : isNumeral groups.patch = true
  pre : ∀ pre ∈ groups.pre, ∃ idents : List Str, idents ≠ [] ∧
    (∀ ident ∈ idents, isIdentifier ident = true) ∧ pre = ['.'].intercalate idents
  metadata : ∀ metadata ∈ groups.metadata, isMetadata metadata = true

def Groups.text (groups : Groups) : Str :=
  groups.major ++ '.' :: groups.minor ++ '.' :: groups.patch ++ behind '-' groups.pre ++
    behind '+' groups.metadata

def Matches (text : Str) (groups : Groups) : Prop :=
  groups.WellFormed ∧ (text = groups.text ∨ text = 'v' :: groups.text)

def findSemverCore (text : Str) : Option Groups :=
  let (version, metadata) := cut '+' (trimStart 'v' text)
  let (core, pre) := cut '-' version
  match core.splitOn '.' with
  | [major, minor, patch] =>
    if isNumeral major && isNumeral minor && isNumeral patch &&
        pre.all (fun pre => (pre.splitOn '.').all isIdentifier) && metadata.all isMetadata then
      some ⟨major, minor, patch, pre, metadata⟩
    else none
  | _ => none

/-- `strconv.ParseUint` in base 10 into 64 bits. -/
def parseUint (text : Str) : Option ℕ :=
  if text = [] ∨ text.all Char.isDigit = false then none
  else if Nat.ofDigitChars 10 text 0 < 2 ^ 64 then some (Nat.ofDigitChars 10 text 0) else none

/-- `\d{14}-[0-9a-f]{12}`. -/
def isPseudo (ident : Str) : Bool :=
  ident.length == 27 && (ident.take 14).all Char.isDigit && (ident.drop 14).head? == some '-' &&
    (ident.drop 15).all fun char => char.isDigit || ('a' ≤ char && char ≤ 'f')

structure Semver where
  major : ℕ
  minor : ℕ
  patch : ℕ
  pre : List Str
  metadata : List Str
  untagged : Bool
  deriving DecidableEq

def dotted : Option Str → List Str
  | none => []
  | some text => text.splitOn '.'

def parseVersion (text : Str) : Option Semver := do
  let groups ← findSemverCore text
  let major ← parseUint groups.major
  let minor ← parseUint groups.minor
  let patch ← parseUint groups.patch
  return {
    major
    minor
    patch
    pre := dotted groups.pre
    metadata := dotted groups.metadata
    -- the timestamp and revision match as a whole dotted identifier
    untagged := (dotted groups.pre).any isPseudo }

def parseRelease (text : Str) : Option Semver :=
  match parseVersion text with
  | none => none
  | some version => if version.untagged then none else some version

def compareIdent (left right : Str) : Ordering :=
  match parseUint left, parseUint right with
  | some left, some right => compare left right
  | some _, none => .lt
  | none, some _ => .gt
  | none, none => compare left right

/-- The loop of `comparePre` and what it falls through to. -/
def compareIdents : List Str → List Str → Ordering
  | [], [] => .eq
  | [], _ :: _ => .lt
  | _ :: _, [] => .gt
  | left :: lefts, right :: rights =>
    match compareIdent left right with
    | .eq => compareIdents lefts rights
    | other => other

/-- `comparePre`: none sorts after any. -/
def comparePre : List Str → List Str → Ordering
  | [], [] => .eq
  | [], _ :: _ => .gt
  | _ :: _, [] => .lt
  | lefts, rights => compareIdents lefts rights

def compareSemver (left right : Semver) : Ordering :=
  if left.major ≠ right.major then if left.major < right.major then .lt else .gt
  else if left.minor ≠ right.minor then if left.minor < right.minor then .lt else .gt
  else if left.patch ≠ right.patch then if left.patch < right.patch then .lt else .gt
  else comparePre left.pre right.pre

/-- `CompareReleases`, with no order where it answers not ok. -/
def compareReleases (left right : Str) : Option Ordering :=
  match parseRelease left, parseRelease right with
  | some left, some right => some (compareSemver left right)
  | _, _ => none

section Grammar

variable {lead : Char} {text front : Str} {back : Option Str} {groups : Groups}

theorem isNumeral_digits (hnumeral : isNumeral text = true) :
    text ≠ [] ∧ text.all Char.isDigit = true := by
  unfold isNumeral at hnumeral
  split at hnumeral
  · exact ⟨by simp, by decide⟩
  · simp only [Bool.and_eq_true] at hnumeral
    exact ⟨by simp, by simp [hnumeral.1.1, hnumeral.2]⟩
  · cases hnumeral

theorem not_mem_numeral (hnumeral : isNumeral text = true) (hlead : lead.isDigit = false) :
    lead ∉ text := by
  intro hmem
  have hdigit := all_eq_true.1 (isNumeral_digits hnumeral).2 lead hmem
  rw [hlead] at hdigit
  cases hdigit

theorem not_mem_identifier {ident : Str} (hident : isIdentifier ident = true)
    (hlead : isIdentifierChar lead = false) : lead ∉ ident := by
  intro hmem
  unfold isIdentifier at hident
  have hchar := all_eq_true.1 (Bool.and_eq_true_iff.1 hident).2 lead hmem
  rw [hlead] at hchar
  cases hchar

theorem splitOn_identifiers {pre : Str} :
    (pre.splitOn '.').all isIdentifier = true ↔ ∃ idents : List Str, idents ≠ [] ∧
      (∀ ident ∈ idents, isIdentifier ident = true) ∧ pre = ['.'].intercalate idents := by
  rw [all_eq_true]
  constructor
  · intro hall
    exact ⟨pre.splitOn '.', splitOn_ne_nil _ _, hall, (intercalate_splitOn '.').symm⟩
  · rintro ⟨idents, hidents, hall, rfl⟩
    rw [splitOn_intercalate '.'
      (fun ident hident => not_mem_identifier (hall ident hident) (by decide)) hidents]
    exact hall

theorem trimStart_cases (lead : Char) (text : Str) :
    text = trimStart lead text ∨ text = lead :: trimStart lead text := by
  cases text with
  | nil => exact .inl rfl
  | cons first rest =>
    simp only [trimStart]
    split_ifs with hfirst
    · exact .inr (by rw [hfirst])
    · exact .inl rfl

theorem splitOn_core {major minor patch : Str} (hmajor : isNumeral major = true)
    (hminor : isNumeral minor = true) (hpatch : isNumeral patch = true) :
    (major ++ '.' :: minor ++ '.' :: patch).splitOn '.' = [major, minor, patch] := by
  rw [append_assoc, cons_append,
    splitOn_append_cons_self_of_not_mem (not_mem_numeral hmajor (by decide)),
    splitOn_append_cons_self_of_not_mem (not_mem_numeral hminor (by decide)),
    splitOn_eq_singleton (not_mem_numeral hpatch (by decide))]

theorem Groups.WellFormed.plus_not_mem (hgroups : groups.WellFormed) :
    '+' ∉ groups.major ++ '.' :: groups.minor ++ '.' :: groups.patch ++ behind '-' groups.pre := by
  have hmajor := not_mem_numeral hgroups.major (show '+'.isDigit = false by decide)
  have hminor := not_mem_numeral hgroups.minor (show '+'.isDigit = false by decide)
  have hpatch := not_mem_numeral hgroups.patch (show '+'.isDigit = false by decide)
  have hpre : '+' ∉ behind '-' groups.pre := by
    cases hsome : groups.pre with
    | none => simp [behind]
    | some pre =>
      obtain ⟨idents, -, hidents, rfl⟩ := hgroups.pre pre hsome
      simp only [behind, mem_cons, not_or]
      refine ⟨by decide, fun hmem => ?_⟩
      rcases mem_intercalate hmem with hdot | ⟨ident, hident, hmem⟩
      · exact absurd hdot (by decide)
      · exact not_mem_identifier (hidents ident hident) (by decide) hmem
  simp only [mem_append, mem_cons, not_or]
  exact ⟨⟨⟨hmajor, by decide, hminor⟩, by decide, hpatch⟩, hpre⟩

theorem findSemverCore_text (hgroups : groups.WellFormed) (rest : Str)
    (hrest : trimStart 'v' rest = groups.text) : findSemverCore rest = some groups := by
  have hminus : '-' ∉ groups.major ++ '.' :: groups.minor ++ '.' :: groups.patch := by
    have hmajor := not_mem_numeral hgroups.major (show '-'.isDigit = false by decide)
    have hminor := not_mem_numeral hgroups.minor (show '-'.isDigit = false by decide)
    have hpatch := not_mem_numeral hgroups.patch (show '-'.isDigit = false by decide)
    simp only [mem_append, mem_cons, not_or]
    exact ⟨⟨hmajor, by decide, hminor⟩, by decide, hpatch⟩
  have hpre : groups.pre.all (fun pre => (pre.splitOn '.').all isIdentifier) = true := by
    rw [Option.all_eq_true]
    exact fun pre hsome => splitOn_identifiers.2 (hgroups.pre pre hsome)
  have hmetadata : groups.metadata.all isMetadata = true := by
    rw [Option.all_eq_true]
    exact hgroups.metadata
  unfold findSemverCore
  rw [hrest, Groups.text, cut_behind hgroups.plus_not_mem]
  simp only
  rw [cut_behind hminus]
  simp only
  rw [splitOn_core hgroups.major hgroups.minor hgroups.patch]
  simp [hgroups.major, hgroups.minor, hgroups.patch, hpre, hmetadata]

theorem trimStart_text (hgroups : groups.WellFormed) : trimStart 'v' groups.text = groups.text := by
  obtain ⟨hnonempty, hdigits⟩ := isNumeral_digits hgroups.major
  unfold Groups.text
  cases hmajor : groups.major with
  | nil => exact absurd hmajor hnonempty
  | cons first rest =>
    have hfirst : first ≠ 'v' := by
      rintro rfl
      rw [hmajor] at hdigits
      simp at hdigits
    simp [trimStart, hfirst]

theorem findSemverCore_iff (text : Str) (groups : Groups) :
    findSemverCore text = some groups ↔ Matches text groups := by
  constructor
  · intro hfound
    unfold findSemverCore at hfound
    simp only at hfound
    split at hfound
    · rename_i major minor patch hcore
      split_ifs at hfound with hparts
      simp only [Bool.and_eq_true, Option.all_eq_true] at hparts
      obtain ⟨⟨⟨⟨hmajor, hminor⟩, hpatch⟩, hpre⟩, hmetadata⟩ := hparts
      cases hfound
      refine ⟨⟨hmajor, hminor, hpatch, fun pre hsome => splitOn_identifiers.1 (hpre pre hsome),
        hmetadata⟩, ?_⟩
      have hcoreText : (cut '-' (cut '+' (trimStart 'v' text)).1).1 =
          major ++ '.' :: minor ++ '.' :: patch := by
        have hjoined : ['.'].intercalate
            ((cut '-' (cut '+' (trimStart 'v' text)).1).1.splitOn '.') = _ :=
          intercalate_splitOn '.'
        rw [hcore] at hjoined
        rw [← hjoined]
        simp [List.intercalate]
      have htext : trimStart 'v' text = Groups.text ⟨major, minor, patch,
          (cut '-' (cut '+' (trimStart 'v' text)).1).2, (cut '+' (trimStart 'v' text)).2⟩ := by
        rw [Groups.text, ← hcoreText, behind_cut, behind_cut]
      rw [← htext]
      exact trimStart_cases 'v' text
    · cases hfound
  · rintro ⟨hgroups, rfl | rfl⟩
    · exact findSemverCore_text hgroups _ (trimStart_text hgroups)
    · exact findSemverCore_text hgroups _ rfl

end Grammar
theorem parseVersion_groups {text : Str} {version : Semver}
    (hversion : parseVersion text = some version) :
    ∃ groups, findSemverCore text = some groups ∧ parseUint groups.major = some version.major ∧
      parseUint groups.minor = some version.minor ∧ parseUint groups.patch = some version.patch ∧
      version.pre = dotted groups.pre := by
  unfold parseVersion at hversion
  simp only [Option.bind_eq_bind, Option.bind_eq_some_iff, Option.pure_def,
    Option.some.injEq] at hversion
  obtain ⟨groups, hfound, major, hmajor, minor, hminor, patch, hpatch, rfl⟩ := hversion
  exact ⟨groups, hfound, hmajor, hminor, hpatch, rfl⟩

theorem parseRelease_version {text : Str} {release : Semver}
    (hrelease : parseRelease text = some release) : parseVersion text = some release := by
  unfold parseRelease at hrelease
  split at hrelease
  · cases hrelease
  rename_i hversion
  split_ifs at hrelease
  rw [hversion, hrelease]

/-- An identifier as a number, as `compareIdent` reads it. -/
def uintNumber (ident : Str) : Option ℤ := (parseUint ident).map fun value => (value : ℤ)

def Semver.version (semver : Semver) : Precedence.Version Str :=
  ⟨semver.major, semver.minor, semver.patch, semver.pre⟩

theorem compare_natCast (left right : ℕ) : compare (left : ℤ) (right : ℤ) = compare left right := by
  simp only [compare, compareOfLessAndEq, Nat.cast_lt, Nat.cast_inj]

theorem compareIdent_eq (left right : Str) :
    compareIdent left right = Precedence.identifier uintNumber left right := by
  unfold compareIdent Precedence.identifier uintNumber
  cases parseUint left <;> cases parseUint right <;> simp [compare_natCast]

theorem compareIdents_eq (lefts rights : List Str) :
    compareIdents lefts rights = Precedence.identifiers uintNumber lefts rights := by
  induction lefts generalizing rights with
  | nil => cases rights <;> rfl
  | cons left lefts ih =>
    cases rights with
    | nil => rfl
    | cons right rights =>
      simp only [compareIdents, Precedence.identifiers, compareIdent_eq, ih]
      cases Precedence.identifier uintNumber left right <;> rfl

theorem comparePre_eq (lefts rights : List Str) :
    comparePre lefts rights = Precedence.prerelease uintNumber lefts rights := by
  cases lefts with
  | nil => cases rights <;> rfl
  | cons left lefts =>
    cases rights with
    | nil => rfl
    | cons right rights => exact compareIdents_eq _ _

theorem compare_of_ne {left right : ℕ} (hne : left ≠ right) :
    compare left right = if left < right then .lt else .gt := by
  simp [compare, compareOfLessAndEq, hne]

theorem compareSemver_eq (left right : Semver) :
    compareSemver left right = Precedence.precedence uintNumber left.version right.version := by
  unfold compareSemver Precedence.precedence Precedence.core
  simp only [Semver.version, compare_natCast]
  split_ifs with hmajor _ hminor _ hpatch _ <;>
    simp_all [compare_of_ne, Ordering.then, comparePre_eq]

open K3sm.Core.Precedence

/-- `CompareBuild`: the order, and the core of a build of an untagged commit. -/
def compareBuild (build release : Str) : Option (Ordering × Str) :=
  match parseVersion build, parseRelease release with
  | some build, some release =>
    if build.metadata.contains "dirty".toList ||
        (build.untagged && build.pre.contains "dirty".toList) then none
    else
      some (compareSemver build release, if build.untagged then
        s!"{build.major}.{build.minor}.{build.patch}".toList else [])
  | _, _ => none

/-- An identifier as a number, as semver reads it. -/
def digitsNumber (ident : Str) : Option ℤ :=
  if ident = [] ∨ ident.all Char.isDigit = false then none
  else some (Nat.ofDigitChars 10 ident 0)

def Groups.version (groups : Groups) : Precedence.Version Str :=
  ⟨Nat.ofDigitChars 10 groups.major 0, Nat.ofDigitChars 10 groups.minor 0,
    Nat.ofDigitChars 10 groups.patch 0, dotted groups.pre⟩

/-- The order that semver gives the versions with these texts. -/
def SemverOrder (left right : Str) (order : Ordering) : Prop :=
  ∀ leftGroups rightGroups, Matches left leftGroups → Matches right rightGroups →
    order = precedence digitsNumber leftGroups.version rightGroups.version

/-- One of the two is a number of more than 64 bits, the other is one as well or is no number, and
the order of the texts is not theirs. -/
def Misread (left right : Str) : Prop :=
  match digitsNumber left, digitsNumber right with
  | some leftNumber, some rightNumber => 2 ^ 64 ≤ leftNumber ∧ 2 ^ 64 ≤ rightNumber ∧
      compare left right ≠ compare leftNumber rightNumber
  | some leftNumber, none => 2 ^ 64 ≤ leftNumber ∧ compare left right ≠ .lt
  | none, some rightNumber => 2 ^ 64 ≤ rightNumber ∧ compare left right ≠ .gt
  | none, none => False

/-- The first identifiers that differ are not misread, or are equal numbers whose leading zeros
order them as the identifiers after them do. -/
def Told : List Str → List Str → Prop
  | left :: lefts, right :: rights =>
    (Misread left right → identifier digitsNumber left right = .eq ∧
      compare left right = identifiers digitsNumber lefts rights) ∧
    (¬ Misread left right → identifier digitsNumber left right = .eq → Told lefts rights)
  | _, _ => True

/-- Between releases of one core no misread identifier changes the order. -/
def Readable (left right : Str) : Prop :=
  ∀ leftGroups rightGroups, Matches left leftGroups → Matches right rightGroups →
    core leftGroups.version rightGroups.version = .eq →
      Told (dotted leftGroups.pre) (dotted rightGroups.pre)

theorem number_cases (ident : Str) :
    (digitsNumber ident = none ∧ uintNumber ident = none) ∨
      ∃ number, digitsNumber ident = some number ∧
        (number < 2 ^ 64 ∧ uintNumber ident = some number ∨
          2 ^ 64 ≤ number ∧ uintNumber ident = none) := by
  unfold uintNumber parseUint digitsNumber
  split_ifs with hdigits hshort
  · exact .inl ⟨rfl, rfl⟩
  · exact .inr ⟨_, rfl, .inl ⟨by exact_mod_cast hshort, rfl⟩⟩
  · exact .inr ⟨_, rfl, .inr ⟨by exact_mod_cast not_lt.1 hshort, rfl⟩⟩

theorem identifier_uintNumber (left right : Str) :
    (Misread left right → identifier uintNumber left right = compare left right ∧
      compare left right ≠ .eq ∧ compare left right ≠ identifier digitsNumber left right) ∧
    (¬ Misread left right →
      identifier uintNumber left right = identifier digitsNumber left right) := by
  have hsame : compare left right = .eq → left = right := Std.LawfulEqOrd.eq_of_compare
  have hbelow : ∀ {left right : ℤ}, left < 2 ^ 64 → 2 ^ 64 ≤ right → compare left right = .lt :=
    fun hleft hright => compare_lt_iff_lt.2 (hleft.trans_le hright)
  have habove : ∀ {left right : ℤ}, 2 ^ 64 ≤ left → right < 2 ^ 64 → compare left right = .gt :=
    fun hleft hright => compare_gt_iff_gt.2 (hright.trans_le hleft)
  unfold Misread identifier
  rcases number_cases left with
    ⟨hleft, hleftText⟩ | ⟨leftNumber, hleft, ⟨_, hleftText⟩ | ⟨_, hleftText⟩⟩ <;>
    rcases number_cases right with
      ⟨hright, hrightText⟩ | ⟨rightNumber, hright, ⟨_, hrightText⟩ | ⟨_, hrightText⟩⟩ <;>
    simp only [hleft, hright, hleftText, hrightText]
  all_goals grind

theorem identifiers_eq_iff (lefts rights : List Str) :
    identifiers uintNumber lefts rights = identifiers digitsNumber lefts rights ↔
      Told lefts rights := by
  induction lefts generalizing rights with
  | nil => cases rights <;> simp [identifiers, Told]
  | cons left lefts ih =>
    cases rights with
    | nil => simp [identifiers, Told]
    | cons right rights =>
      obtain ⟨hmisread, hread⟩ := identifier_uintNumber left right
      rw [identifiers, identifiers, Told]
      by_cases hwrong : Misread left right
      · obtain ⟨htext, hne, hdiffers⟩ := hmisread hwrong
        rw [htext]
        cases hspec : identifier digitsNumber left right <;>
          cases htold : compare left right <;> simp_all
      · rw [hread hwrong]
        cases hspec : identifier digitsNumber left right <;> simp [hwrong, ih]

theorem precedence_eq_iff (left right : Precedence.Version Str) :
    precedence uintNumber left right = precedence digitsNumber left right ↔
      (core left right = .eq → Told left.pre right.pre) := by
  have hpre : prerelease uintNumber left.pre right.pre =
    prerelease digitsNumber left.pre right.pre ↔
      Told left.pre right.pre := by
    cases left.pre with
    | nil => cases right.pre <;> simp [prerelease, Told]
    | cons first rest =>
      cases right.pre with
      | nil => simp [prerelease, Told]
      | cons other others => exact identifiers_eq_iff _ _
  unfold precedence
  cases core left right <;> simp [hpre]

theorem parseVersion_matches {text : Str} {version : Semver}
    (hversion : parseVersion text = some version) :
    ∃ groups, version.version = groups.version ∧ ∀ other, Matches text other ↔ other = groups := by
  obtain ⟨groups, hfound, hmajor, hminor, hpatch, hpre⟩ := parseVersion_groups hversion
  have hvalue : ∀ {digits : Str} {number : ℕ}, parseUint digits = some number →
      number = Nat.ofDigitChars 10 digits 0 := by
    intro digits number hparse
    unfold parseUint at hparse
    split_ifs at hparse
    exact (Option.some.inj hparse).symm
  refine ⟨groups, ?_, fun other => ?_⟩
  · rw [Semver.version, Groups.version, hvalue hmajor, hvalue hminor, hvalue hpatch, hpre]
  · rw [← findSemverCore_iff, hfound, Option.some.injEq, eq_comm]

theorem semverOrder_iff {left right : Str} {leftVersion rightVersion : Semver}
    (hleft : parseVersion left = some leftVersion)
    (hright : parseVersion right = some rightVersion) :
    SemverOrder left right (compareSemver leftVersion rightVersion) ↔ Readable left right := by
  obtain ⟨leftGroups, hleftVersion, hleftMatches⟩ := parseVersion_matches hleft
  obtain ⟨rightGroups, hrightVersion, hrightMatches⟩ := parseVersion_matches hright
  simp only [SemverOrder, Readable, hleftMatches, hrightMatches, forall_eq_apply_imp_iff, forall_eq]
  rw [compareSemver_eq, hleftVersion, hrightVersion]
  exact precedence_eq_iff _ _

/-- Both comparisons follow semver exactly where the cores differ or the identifiers are not
misread. -/
theorem releases_ordered_as_semver (left right : Str) (order : Ordering) (untaggedOf : Str) :
    (compareReleases left right = some order →
      (SemverOrder left right order ↔ Readable left right)) ∧
    (compareBuild left right = some (order, untaggedOf) →
      (SemverOrder left right order ↔ Readable left right)) := by
  constructor
  · intro horder
    unfold compareReleases at horder
    split at horder
    · rename_i leftVersion rightVersion hleft hright
      cases horder
      exact semverOrder_iff (parseRelease_version hleft) (parseRelease_version hright)
    · cases horder
  · intro horder
    unfold compareBuild at horder
    split at horder
    · rename_i buildVersion releaseVersion hbuild hrelease
      split_ifs at horder
      all_goals cases horder; exact semverOrder_iff hbuild (parseRelease_version hrelease)
    · cases horder

/-- Of two numbers of more than 64 bits the longer one comes first. -/
theorem long_identifiers_misordered :
    ∃ left right, compareReleases left right = some .lt ∧ (compareBuild left right).isSome ∧
      ¬ SemverOrder left right .lt := by
  refine ⟨"1.0.0-100000000000000000000".toList,
    "1.0.0-99999999999999999999".toList, by decide +kernel,
    by decide +kernel, fun horder => ?_⟩
  have hbelow := horder
    ⟨['1'], ['0'], ['0'], some "100000000000000000000".toList, none⟩
    ⟨['1'], ['0'], ['0'], some "99999999999999999999".toList, none⟩
    ((findSemverCore_iff _ _).1 (by decide +kernel))
      ((findSemverCore_iff _ _).1 (by decide +kernel))
  exact absurd hbelow (by decide +kernel)

section NodeVersion

open K3sm.Updatectl
  (afterMarker buildMetadata fromRelease metadataChar nodeRelease nodeVersionMarker
  onTarget)

variable {kube version tag text front back : Str}

def sanitizeBuildMetadata (text : Str) : Str := buildMetadata text

/-- `Info.NodeVersion`, of the build's `KubeVersion`, `Version` and `Dirty`. -/
def nodeVersion (kube version : Str) (dirty : Bool) : Str :=
  (if kube.head? = some 'v' then kube else 'v' :: kube) ++ nodeVersionMarker ++
    sanitizeBuildMetadata (if dirty then version ++ "+dirty".toList else version)

/-- A text that semver build metadata may be. -/
def InMetadata (text : Str) : Prop := ∀ char ∈ text, metadataChar char = char

theorem afterMarker_append (hfront : '+' ∉ front) (back : Str) :
    afterMarker nodeVersionMarker (front ++ nodeVersionMarker ++ back) = some back := by
  induction front with
  | nil => simp [afterMarker, nodeVersionMarker]
  | cons char front ih =>
    rw [List.mem_cons, not_or] at hfront
    have hnot : nodeVersionMarker.isPrefixOf
        (char :: (front ++ nodeVersionMarker ++ back)) = false := by
      simp [nodeVersionMarker, List.isPrefixOf, hfront.1]
    rw [List.cons_append, List.cons_append, afterMarker, hnot]
    exact ih hfront.2

theorem InMetadata.sanitize (htext : InMetadata text) :
    buildMetadata text = trimStart 'v' text := by
  have hrest : ∀ char ∈ trimStart 'v' text, metadataChar char = char := by
    intro char hchar
    refine htext char ?_
    rcases trimStart_cases 'v' text with hsame | hsame <;> rw [hsame] <;> simp [hchar]
  exact (List.map_congr_left hrest).trans (List.map_id' _)

theorem trimStart_append (hback : back.head? ≠ some 'v') :
    trimStart 'v' (front ++ back) = trimStart 'v' front ++ back := by
  cases front with
  | nil => cases back <;> simp_all [trimStart]
  | cons char front => simp only [List.cons_append, trimStart]; split <;> rfl

/-- What a build reports of itself: its version, marked when the tree was dirty. -/
def builtAs (version : Str) (dirty : Bool) : Str :=
  trimStart 'v' version ++ if dirty then ".dirty".toList else []

theorem nodeRelease_nodeVersion (hkube : '+' ∉ kube) (hversion : InMetadata version)
    (dirty : Bool) :
    nodeRelease (nodeVersion kube version dirty) = builtAs version dirty := by
  have hfront : '+' ∉ if kube.head? = some 'v' then kube else 'v' :: kube := by
    split <;> simp [hkube]
  have hplain := hversion.sanitize
  rw [buildMetadata] at hplain
  rw [nodeRelease, nodeVersion, afterMarker_append hfront, Option.getD_some, builtAs]
  cases dirty with
  | false => simp [sanitizeBuildMetadata, buildMetadata, hplain]
  | true =>
    simp only [if_true, sanitizeBuildMetadata, buildMetadata]
    rw [trimStart_append (by decide), List.map_append, hplain]
    rfl

/-- A node is on target for the release it was built as, and for no other. -/
theorem node_on_release_it_was_built_as (hkube : '+' ∉ kube) (hversion : InMetadata version)
    (dirty : Bool) :
    (∀ tag, InMetadata tag → (onTarget (nodeVersion kube version dirty) tag = true ↔
      trimStart 'v' tag ≠ [] ∧ trimStart 'v' tag = builtAs version dirty)) ∧
    (builtAs version dirty ≠ [] →
      fromRelease (nodeVersion kube version dirty) = 'v' :: builtAs version dirty) := by
  have hrelease := nodeRelease_nodeVersion hkube hversion dirty
  refine ⟨fun tag htag => ?_, fun hbuilt => ?_⟩
  · rw [onTarget, hrelease, htag.sanitize, Bool.and_eq_true, bne_iff_ne, beq_iff_eq]
    exact ⟨fun ⟨hsome, hsame⟩ => ⟨hsame ▸ hsome, hsame.symm⟩,
      fun ⟨hsome, hsame⟩ => ⟨hsame ▸ hsome, hsame.symm⟩⟩
  · rw [fromRelease, hrelease, if_neg hbuilt]

theorem node_on_release_one :
    onTarget (nodeVersion ['1', '.', '3'] ['v', '2'] false) ['v', '2'] = true :=
  ((node_on_release_it_was_built_as (by decide) (by simp [InMetadata, metadataChar]) false).1 _
    (by simp [InMetadata, metadataChar])).2 (by decide)

end NodeVersion

end K3sm.Version
