import Mathlib

/-!
# Version precedence

A version is a core of three numbers and a list of prerelease identifiers.  Cores are
ordered first, a version without identifiers outranks one with, and identifiers are
ordered in turn.  Which identifiers count as numbers is a parameter: two orders that
differ only there are compared with one another.
-/

namespace K3sm.Core.Precedence

/-- Three numbers and the identifiers of a pre-release. -/
structure Version (Ident : Type*) where
  major : ℤ
  minor : ℤ
  patch : ℤ
  pre : List Ident

section Order

variable {Ident : Type*} [Ord Ident] (number : Ident → Option ℤ)

/-- Numbers by value and below other identifiers, those in their own order. -/
def identifier (left right : Ident) : Ordering :=
  match number left, number right with
  | some left, some right => compare left right
  | some _, none => .lt
  | none, some _ => .gt
  | none, none => compare left right

/-- The identifiers in turn, and then the shorter list first. -/
def identifiers : List Ident → List Ident → Ordering
  | [], [] => .eq
  | [], _ :: _ => .lt
  | _ :: _, [] => .gt
  | left :: lefts, right :: rights => (identifier number left right).then (identifiers lefts rights)

/-- A version without identifiers outranks its prereleases. -/
def prerelease : List Ident → List Ident → Ordering
  | [], [] => .eq
  | [], _ :: _ => .gt
  | _ :: _, [] => .lt
  | lefts, rights => identifiers number lefts rights

def core (left right : Version Ident) : Ordering :=
  ((compare left.major right.major).then (compare left.minor right.minor)).then
    (compare left.patch right.patch)

def precedence (left right : Version Ident) : Ordering :=
  (core left right).then (prerelease number left.pre right.pre)

/-- The left version comes before the right one. -/
def Below (left right : Version Ident) : Prop := precedence number left right = .lt

instance (left right : Version Ident) : Decidable (Below number left right) :=
  inferInstanceAs (Decidable (_ = _))

end Order

section Readings

variable {Ident : Type*} [Ord Ident] (number other : Ident → Option ℤ)

/-- The first identifiers that either reading tells apart are told apart alike, or what
comes after them makes up for it. -/
def DecidedAlike : List Ident → List Ident → Prop
  | left :: lefts, right :: rights =>
    match identifier number left right, identifier other left right with
    | .eq, .eq => DecidedAlike lefts rights
    | .eq, told => identifiers number lefts rights = .lt ↔ told = .lt
    | told, .eq => told = .lt ↔ identifiers other lefts rights = .lt
    | told, told' => told = .lt ↔ told' = .lt
  | _, _ => True

instance DecidedAlike.decidable :
    (lefts rights : List Ident) → Decidable (DecidedAlike number other lefts rights)
  | [], _ => .isTrue trivial
  | _ :: _, [] => .isTrue trivial
  | left :: lefts, right :: rights => by
      have := DecidedAlike.decidable lefts rights
      unfold DecidedAlike
      split <;> infer_instance

theorem identifiers_alike_iff (lefts rights : List Ident) :
    (identifiers number lefts rights = .lt ↔ identifiers other lefts rights = .lt) ↔
      DecidedAlike number other lefts rights := by
  induction lefts generalizing rights with
  | nil => cases rights <;> simp [identifiers, DecidedAlike]
  | cons left lefts ih =>
    cases rights with
    | nil => simp [identifiers, DecidedAlike]
    | cons right rights =>
      simp only [identifiers, DecidedAlike]
      cases identifier number left right <;> cases identifier other left right <;>
        simp [Ordering.then, ih]

theorem prerelease_alike_iff (lefts rights : List Ident) :
    (prerelease number lefts rights = .lt ↔ prerelease other lefts rights = .lt) ↔
      DecidedAlike number other lefts rights := by
  cases lefts with
  | nil => cases rights <;> simp [prerelease, DecidedAlike]
  | cons left lefts =>
    cases rights with
    | nil => simp [prerelease, DecidedAlike]
    | cons right rights => exact identifiers_alike_iff number other _ _

theorem below_alike_iff (left right : Version Ident) :
    (Below number left right ↔ Below other left right) ↔
      (core left right = .eq → DecidedAlike number other left.pre right.pre) := by
  unfold Below precedence
  cases core left right with
  | lt => simp [Ordering.then]
  | eq => simpa [Ordering.then] using prerelease_alike_iff number other left.pre right.pre
  | gt => simp [Ordering.then]

end Readings

end K3sm.Core.Precedence
