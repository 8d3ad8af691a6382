import K3sm.Core.Text

/-!
# Releases

A node reports its kubelet version, in which the release it runs stands after a marker; a release
tag stands there without its leading v and with every other character turned into one the version
grammar has.
-/

namespace K3sm.Updatectl

open K3sm.Core K3sm.Core.Filepath

def nodeVersionMarker : Str := ['+', 'k', '3', 's', 'm', '.']

def metadataChar (char : Char) : Char :=
  if char.isAlphanum || char == '.' || char == '-' then char
  else if char == '+' then '.' else '-'

/-- `buildMetadata`: the k3sm part of a node's version for a tag. -/
def buildMetadata (tag : Str) : Str := (trimStart 'v' tag).map metadataChar

def afterMarker (marker : Str) : Str → Option Str
  | [] => if marker = [] then some [] else none
  | char :: rest =>
    if marker.isPrefixOf (char :: rest) then some ((char :: rest).drop marker.length)
    else afterMarker marker rest

def nodeRelease (kubeletVersion : Str) : Str :=
  (afterMarker nodeVersionMarker kubeletVersion).getD []

def onTarget (kubeletVersion tag : Str) : Bool :=
  nodeRelease kubeletVersion != [] && nodeRelease kubeletVersion == buildMetadata tag

def fromRelease (kubeletVersion : Str) : Str :=
  if nodeRelease kubeletVersion = [] then kubeletVersion else 'v' :: nodeRelease kubeletVersion

/-- `strconv.Atoi` into a 64-bit int. -/
def atoi (text : Str) : Option ℤ :=
  let (negative, digits) := match text with
    | '-' :: rest => (true, rest)
    | '+' :: rest => (false, rest)
    | rest => (false, rest)
  if digits = [] ∨ digits.all Char.isDigit = false then none
  else
    let magnitude : ℤ := Nat.ofDigitChars 10 digits 0
    let value := if negative then -magnitude else magnitude
    if -2 ^ 63 ≤ value ∧ value < 2 ^ 63 then some value else none

structure Semver where
  major : ℤ
  minor : ℤ
  patch : ℤ
  pre : List Str
  deriving DecidableEq

def coreNumber (text : Str) : Option ℤ :=
  match atoi text with
  | none => none
  | some value => if value < 0 then none else some value

def parseSemver (text : Str) : Option Semver :=
  let (core, pre) := cut '-' (cut '+' (trimStart 'v' text)).1
  match core.splitOn '.' with
  | [major, minor, patch] => do
    let major ← coreNumber major
    let minor ← coreNumber minor
    let patch ← coreNumber patch
    match pre with
    | none => return ⟨major, minor, patch, []⟩
    | some [] => none
    | some pre => return ⟨major, minor, patch, pre.splitOn '.'⟩
  | _ => none

/-- `comparePreID`: numbers by value and below other identifiers, those by spelling. -/
def comparePreID (left right : Str) : Ordering :=
  match atoi left, atoi right with
  | some left, some right => compare left right
  | some _, none => .lt
  | none, some _ => .gt
  | none, none => compare left right

/-- The identifiers in turn, and then the shorter list first. -/
def comparePre : List Str → List Str → Ordering
  | [], [] => .eq
  | [], _ :: _ => .lt
  | _ :: _, [] => .gt
  | left :: lefts, right :: rights =>
    match comparePreID left right with
    | .eq => comparePre lefts rights
    | other => other

/-- `compareSemver`: a release outranks its prereleases. -/
def compareSemver (left right : Semver) : Ordering :=
  match compare left.major right.major, compare left.minor right.minor,
      compare left.patch right.patch with
  | .eq, .eq, .eq =>
    match left.pre, right.pre with
    | [], [] => .eq
    | [], _ :: _ => .gt
    | _ :: _, [] => .lt
    | lefts, rights => comparePre lefts rights
  | .eq, .eq, other => other
  | .eq, other, _ => other
  | other, _, _ => other

/-- `isDowngrade`: a release that does not parse is never called one. -/
def isDowngrade (from' target : Str) : Bool :=
  match parseSemver from', parseSemver target with
  | some from', some target => compareSemver target from' == .lt
  | _, _ => false

/-- `validTag`: safe as a part of a URL path. -/
def validTag (tag : Str) : Bool :=
  tag != [] && tag.head? != some '-' &&
    tag.all fun char => char.isAlphanum || char == '.' || char == '+' || char == '_' || char == '-'

def isSHA256Hex (text : Str) : Bool :=
  text.length == 64 && text.all fun char => char.isDigit || ('a' ≤ char && char ≤ 'f')

end K3sm.Updatectl
