import K3sm.Core.Filepath

/-!
# Glob patterns

Shell patterns as `filepath.Match` reads them, and `filepath.Glob` over a listing of the
file system's directories.  A pattern is scanned from left to right into tokens; what is
left unclosed makes it malformed.
-/

namespace K3sm.Core.Glob

open K3sm.Core.Filepath

/-- One element of a glob pattern. -/
inductive Token
  | star
  | any
  | charClass (negated : Bool) (ranges : List (Char × Char))
  | lit (char : Char)
  deriving DecidableEq

/-- Where a scan stands: between tokens, after a backslash, or inside a bracket. -/
inductive Scan
  | plain
  | escape
  | opened
  | item (negated : Bool) (ranges : List (Char × Char))
  | itemEscape (negated : Bool) (ranges : List (Char × Char))
  | low (negated : Bool) (ranges : List (Char × Char)) (lo : Char)
  | high (negated : Bool) (ranges : List (Char × Char)) (lo : Char)
  | highEscape (negated : Bool) (ranges : List (Char × Char)) (lo : Char)
  deriving DecidableEq

/-- One character where a range or the closing bracket may stand; a class has at least
one range. -/
def scanItem (negated : Bool) (ranges : List (Char × Char)) (char : Char) :
    Option (Scan × List Token) :=
  if char = ']' then
    if ranges = [] then none else some (.plain, [.charClass negated ranges])
  else if char = '-' then none
  else if char = '\\' then some (.itemEscape negated ranges, [])
  else some (.low negated ranges char, [])

def scanStep : Scan → Char → Option (Scan × List Token)
  | .plain, char =>
    if char = '*' then some (.plain, [.star])
    else if char = '?' then some (.plain, [.any])
    else if char = '[' then some (.opened, [])
    else if char = '\\' then some (.escape, [])
    else some (.plain, [.lit char])
  | .escape, char => some (.plain, [.lit char])
  | .opened, char => if char = '^' then some (.item true [], []) else scanItem false [] char
  | .item negated ranges, char => scanItem negated ranges char
  | .itemEscape negated ranges, char => some (.low negated ranges char, [])
  | .low negated ranges lo, char =>
    if char = '-' then some (.high negated ranges lo, [])
    else scanItem negated (ranges ++ [(lo, lo)]) char
  | .high negated ranges lo, char =>
    if char = '-' ∨ char = ']' then none
    else if char = '\\' then some (.highEscape negated ranges lo, [])
    else some (.item negated (ranges ++ [(lo, char)]), [])
  | .highEscape negated ranges lo, char => some (.item negated (ranges ++ [(lo, char)]), [])

def scan : Scan → Str → Option (List Token)
  | .plain, [] => some []
  | _, [] => none
  | state, char :: rest => do
    let (next, tokens) ← scanStep state char
    let more ← scan next rest
    pure (tokens ++ more)

/-- What is left of a name behind a star, which stops at a slash. -/
def starTails : Str → List Str
  | [] => [[]]
  | char :: rest => (char :: rest) :: if char = '/' then [] else starTails rest

def inClass (ranges : List (Char × Char)) (char : Char) : Bool :=
  ranges.any fun range => decide (range.1 ≤ char) && decide (char ≤ range.2)

def matchTokens : List Token → Str → Bool
  | [], name => name.isEmpty
  | .star :: rest, name => (starTails name).any (matchTokens rest)
  | .any :: rest, name =>
    match name with
    | [] => false
    | char :: tail => char != '/' && matchTokens rest tail
  | .charClass negated ranges :: rest, name =>
    match name with
    | [] => false
    | char :: tail => inClass ranges char != negated && matchTokens rest tail
  | .lit wanted :: rest, name =>
    match name with
    | [] => false
    | char :: tail => char == wanted && matchTokens rest tail

def wellFormed (pattern : Str) : Bool := (scan .plain pattern).isSome

/-- `filepath.Match`; a malformed pattern matches nothing. -/
def matchName (pattern name : Str) : Bool :=
  match scan .plain pattern with
  | none => false
  | some tokens => matchTokens tokens name

def isMagic (char : Char) : Bool := char == '*' || char == '?' || char == '[' || char == '\\'

def hasMeta (part : Str) : Bool := part.any isMagic

abbrev DirPath := List Str

section Listing

variable (names : DirPath → List Str)

/-- The directories a path names as a pattern, by the names each directory lists.  Parts
ahead of the first wildcard are taken as they are. -/
def globDirs : DirPath → List DirPath
  | [] => [[]]
  | part :: parents =>
    if (part :: parents).any hasMeta then
      (globDirs parents).flatMap fun dir =>
        ((names dir).filter (matchName part)).map fun name => name :: dir
    else [part :: parents]

/-- `filepath.Glob` of a directory and a file pattern with a wildcard; none for a
malformed pattern. -/
def glob (dir : DirPath) (file : Str) : Option (List DirPath) :=
  if (file :: dir).all wellFormed then
    some ((globDirs names dir).flatMap fun found =>
      ((names found).filter (matchName file)).map fun name => name :: found)
  else none

end Listing

theorem scanStep_of_plain {char : Char} (hplain : isMagic char = false) :
    scanStep .plain char = some (.plain, [.lit char]) := by
  simp only [isMagic, Bool.or_eq_false_iff, beq_eq_false_iff_ne] at hplain
  simp [scanStep, hplain]

theorem scan_append {head : Str} (hplain : hasMeta head = false) (tail : Str) :
    scan .plain (head ++ tail) = (scan .plain tail).map (head.map Token.lit ++ ·) := by
  induction head with
  | nil => simp
  | cons char rest ih =>
    simp only [hasMeta, List.any_cons, Bool.or_eq_false_iff] at hplain
    cases htail : scan .plain tail <;>
      simp [scan, scanStep_of_plain hplain.1, ih hplain.2, htail]

theorem scan_of_plain {part : Str} (hplain : hasMeta part = false) :
    scan .plain part = some (part.map .lit) := by
  simpa [scan] using scan_append hplain []

theorem length_of_mem_globDirs {names : DirPath → List Str} {path found : DirPath}
    (hfound : found ∈ globDirs names path) : found.length = path.length := by
  induction path generalizing found with
  | nil => simp_all [globDirs]
  | cons part parents ih =>
    unfold globDirs at hfound
    split at hfound
    · simp only [List.mem_flatMap, List.mem_map] at hfound
      obtain ⟨dir, hdir, name, _, rfl⟩ := hfound
      simp [ih hdir]
    · simp_all

theorem globDirs_congr {left right : DirPath → List Str} {path : DirPath}
    (hsame : ∀ dir : DirPath, dir.length < path.length → left dir = right dir) :
    globDirs left path = globDirs right path := by
  induction path with
  | nil => rfl
  | cons part parents ih =>
    have hparents : globDirs left parents = globDirs right parents :=
      ih fun dir hdir => hsame dir (by simp; omega)
    unfold globDirs
    rw [hparents]
    split
    · apply List.flatMap_congr
      intro dir hdir
      rw [hsame dir (by simp [length_of_mem_globDirs hdir])]
    · rfl

/-! ## A star between two literals -/

theorem starTails_append {head tail : Str} (hhead : '/' ∉ head) :
    tail ∈ starTails (head ++ tail) := by
  induction head with
  | nil => cases tail <;> simp [starTails]
  | cons char rest ih =>
    have hchar : char ≠ '/' := fun heq => hhead (by simp [heq])
    have hrest : '/' ∉ rest := fun hmem => hhead (by simp [hmem])
    simp [starTails, hchar, ih hrest]

theorem matchTokens_lits (part : Str) (rest : List Token) (tail : Str) :
    matchTokens (part.map .lit ++ rest) (part ++ tail) = matchTokens rest tail := by
  induction part with
  | nil => rfl
  | cons char part ih => simp [matchTokens, ih]

theorem matchName_star {head last middle : Str} (hhead : hasMeta head = false)
    (hlast : hasMeta last = false) (hmiddle : '/' ∉ middle) :
    matchName (head ++ '*' :: last) (head ++ (middle ++ last)) = true := by
  have hscan : scan .plain (head ++ '*' :: last) =
      some (head.map .lit ++ .star :: last.map .lit) := by
    simp [scan_append hhead, scan, scanStep, scan_of_plain hlast]
  have hend : matchTokens (last.map .lit) last = true := by
    have hlits := matchTokens_lits last [] []
    simpa [matchTokens] using hlits
  simp only [matchName, hscan, matchTokens_lits, matchTokens, List.any_eq_true]
  exact ⟨last, starTails_append hmiddle, hend⟩

end K3sm.Core.Glob
