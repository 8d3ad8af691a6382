import Mathlib

/-!
# Descriptors and the rows of index.json

The strings a registry compares are kept as what `ref.ParseDigest` makes of
them: a canonical sha256 or sha512 digest, or any other text.  An index row is
a descriptor with its `org.opencontainers.image.ref.name` annotation (the tag)
set apart from the other annotations.
-/

namespace K3sm.Registry

/-- A string, split by what `ref.ParseDigest` accepts. -/
inductive Text where
  | sha256 (encoded : ℕ)
  | sha512 (encoded : ℕ)
  | plain (text : String)
  deriving DecidableEq

/-- `digest.Digest` is a string type: a descriptor may carry any text. -/
abbrev Digest := Text

/-- `ref.ParseDigest` accepts canonical sha256 and sha512 digests only. -/
def parseDigest : Text → Option Digest
  | .plain _ => none
  | digest => some digest

/-- Where a digest stands in the order of its strings: by algorithm, then by hex. -/
def digestRank : Digest → ℕ ×ₗ ℕ
  | .sha256 encoded => toLex (0, encoded)
  | .sha512 encoded => toLex (1, encoded)
  | .plain _ => toLex (2, 0)

/-- The part of `ispec.Descriptor` the registry reads. -/
structure Descriptor where
  mediaType : Text
  digest : Digest
  size : ℤ
  deriving DecidableEq

/-- One element of index.json's `manifests`. -/
structure Row extends Descriptor where
  refName : Option String
  annotations : List (String × String)
  deriving DecidableEq

/-- Whether the row carries the ref-name annotation at all. -/
def Row.tagged (row : Row) : Bool := row.refName.isSome

/-- `Annotations[ref.name] == tag`, where a missing annotation reads as the
empty string. -/
def Row.hasTag (row : Row) (tag : String) : Bool := row.refName.getD "" == tag

def tagRow (desc : Descriptor) (tag : String) : Row :=
  { desc with refName := some tag, annotations := [] }

def untaggedRow (row : Row) : Row := { row with refName := none }

/-- The row `tag` is on leaves it: dropped when the digest has a row that does
not carry the tag, else kept in place without its tag. -/
def dropTag (rows : List Row) (tag : String) : List Row :=
  match rows.findIdx? (·.hasTag tag) with
  | none => rows
  | some index =>
    match rows[index]? with
    | none => rows
    | some old =>
      if rows.any fun row => row.digest == old.digest && !row.hasTag tag then
        rows.eraseIdx index
      else rows.set index (untaggedRow old)

/-- A tagged PUT.  The flag says whether the rows changed. -/
def putTagged (rows : List Row) (desc : Descriptor) (tag : String) : List Row × Bool :=
  if rows.any fun row => row.hasTag tag && row.digest == desc.digest &&
      row.mediaType == desc.mediaType then
    (rows, false)
  else
    ((dropTag rows tag).filter (fun row =>
      !(row.digest == desc.digest && !row.tagged)) ++ [tagRow desc tag], true)

def putUntagged (rows : List Row) (desc : Descriptor) : List Row × Bool :=
  if rows.any (·.digest == desc.digest) then (rows, false)
  else (rows ++ [{ desc with refName := none, annotations := [] }], true)

/-- A tag delete of the row at `index`.  `keep` says whether a manifest losing
its last row gets an untagged one; `none` is an error that deletes nothing. -/
def deleteTagRow (rows : List Row) (index : ℕ) (keep : Row → Option Bool) : Option (List Row) :=
  match rows[index]? with
  | none => none
  | some old =>
    let rest := rows.eraseIdx index
    if rest.any (·.digest == old.digest) then some rest
    else match keep old with
      | none => none
      | some true => some (rest ++ [untaggedRow old])
      | some false => some rest

/-- `DeleteTagChecked`'s change, once `check` has passed. -/
def deleteTag (rows : List Row) (tag : String) (keep : Row → Option Bool) : Option (List Row) :=
  match rows.findIdx? (·.hasTag tag) with
  | none => none
  | some index => deleteTagRow rows index keep

def deleteDigest (rows : List Row) (digest : Digest) : Option (List Row) :=
  if rows.any (·.digest == digest) then
    some (rows.filter (·.digest != digest))
  else none

end K3sm.Registry
