import K3sm.Core.Filepath

/-!
# Repository names and the paths they map to

A repository's directory is the store root followed by the components of its name.
`ParseName` refuses the components that would let one repository's directory be
read as a part of another's layout, or of the files in the root.  The grammar of
names is the reference library's and is taken as a parameter.
-/

namespace K3sm.Registry.Ref

open K3sm.Core.Filepath List

def layoutFile : Str := ['o', 'c', 'i', '-', 'l', 'a', 'y', 'o', 'u', 't']

def indexFile : Str := ['i', 'n', 'd', 'e', 'x', '.', 'j', 's', 'o', 'n']

def blobsDir : Str := ['b', 'l', 'o', 'b', 's']

def uploadsDir : Str := ['.', 'u', 'p', 'l', 'o', 'a', 'd', 's']

def tempsDir : Str := ['.', 't', 'e', 'm', 'p', 's']

/-- `reference.WithName`: the domain and the path of the name it parses. -/
abbrev WithName := Str → Option (Str × Str)

def isAlphanumeric (char : Char) : Bool :=
  ('a' ≤ char && char ≤ 'z') || ('0' ≤ char && char ≤ '9')

/-- What the reference library's grammar says of a path it accepts: lowercase
components, each with an alphanumeric at either end. -/
def PathGrammar (withName : WithName) : Prop :=
  ∀ name domain path, withName name = some (domain, path) → ∀ component ∈ splitSlash path,
    component.head?.any isAlphanumeric = true ∧ component.getLast?.any isAlphanumeric = true ∧
      ∀ char ∈ component, char.isUpper = false

/-- `reference.RepositoryNameTotalLengthMax`. -/
def maxNameLength : ℕ := 255

def layoutWords : List Str :=
  [blobsDir, indexFile, layoutFile, uploadsDir]

/-- cache.db, meta.db, config.json, htpasswd and push-credential.json. -/
def rootWords : List Str :=
  [['c', 'a', 'c', 'h', 'e', '.', 'd', 'b'],
    ['m', 'e', 't', 'a', '.', 'd', 'b'],
    ['c', 'o', 'n', 'f', 'i', 'g', '.', 'j', 's', 'o', 'n'],
    ['h', 't', 'p', 'a', 's', 's', 'w', 'd'],
    ['p', 'u', 's', 'h', '-', 'c', 'r', 'e', 'd', 'e', 'n', 't', 'i', 'a', 'l', '.', 'j', 's',
      'o', 'n']]

def anchorDomain : Str := ['l', 'o', 'c', 'a', 'l', 'h', 'o', 's', 't']

def nameByte (char : Char) : Bool :=
  ('a' ≤ char && char ≤ 'z') || ('0' ≤ char && char ≤ '9') || char == '.' || char == '_' ||
    char == '-' || char == '/'

def reservedComponent (component : Str) : Bool :=
  layoutWords.contains component || component.head? == some '.'

/-- `ErrInvalidName` and `ErrReservedName`, with what they say. -/
inductive NameError where
  | invalidLength (length : ℕ)
  | invalidGrammar (name : Str)
  | invalidByte (char : Char) (name : Str)
  | reservedComponent (component name : Str)
  | reservedRootFile (name : Str)
  deriving DecidableEq

/-- A name is one that `reference` leaves as it is. -/
def parseName (withName : WithName) (name : Str) : Except NameError Str :=
  if name = [] ∨ maxNameLength < name.length then .error (.invalidLength name.length)
  else if withName (anchorDomain ++ '/' :: name) ≠ some (anchorDomain, name) then
    .error (.invalidGrammar name)
  else match name.find? (!nameByte ·) with
    | some char => .error (.invalidByte char name)
    | none =>
      match (splitSlash name).find? reservedComponent with
      | some component => .error (.reservedComponent component name)
      | none =>
        if (splitSlash name).head?.any rootWords.contains then
          .error (.reservedRootFile name)
        else .ok name

inductive PathError where
  | empty
  | outsideRoot (path : Str)
  | name (cause : NameError)
  deriving DecidableEq

def dir (root name : Str) : Except PathError Str :=
  if name = [] then .error .empty
  else
    let path := join (clean root :: splitSlash name)
    if within (clean root) path then .ok path else .error (.outsideRoot path)

def nameFromDir (withName : WithName) (root path : Str) : Except PathError Str :=
  if within (clean root) (clean path) then
    match rel (clean root) (clean path) with
    | none => .error (.outsideRoot path)
    | some way => (parseName withName way).mapError .name
  else .error (.outsideRoot (clean path))

inductive Algorithm where
  | sha256
  | sha512
  deriving DecidableEq

def Algorithm.text : Algorithm → Str
  | .sha256 => ['s', 'h', 'a', '2', '5', '6']
  | .sha512 => ['s', 'h', 'a', '5', '1', '2']

def Algorithm.hexLength : Algorithm → ℕ
  | .sha256 => 64
  | .sha512 => 128

def isLowerHex (char : Char) : Bool :=
  ('0' ≤ char && char ≤ '9') || ('a' ≤ char && char ≤ 'f')

structure Encoded (algorithm : Algorithm) where
  text : Str
  length : text.length = algorithm.hexLength
  hex : ∀ char ∈ text, isLowerHex char = true

def parseUploadID (id : Str) : Bool :=
  id.length == 36 && id.zipIdx.all fun (char, index) =>
    if index ∈ [8, 13, 18, 23] then char == '-' else isLowerHex char

structure UploadID where
  text : Str
  valid : parseUploadID text = true

def maxTagLength : ℕ := 128

def tagFirst (char : Char) : Bool := char.isAlphanum || char == '_'

/-- What `reference.WithTag` takes, as `ParseTag`'s comment has it. -/
def tagGrammar (text : Str) : Bool :=
  text.head?.any tagFirst && text.all fun char => tagFirst char || char == '.' || char == '-'

def parseTag (withTag : Str → Bool) (text : Str) : Bool :=
  text != [] && text.length ≤ maxTagLength && withTag text

def Algorithm.spells (algorithm : Algorithm) (text : Str) : Bool :=
  (algorithm.text ++ [':']).isPrefixOf text &&
    (text.drop (algorithm.text.length + 1)).length == algorithm.hexLength &&
    (text.drop (algorithm.text.length + 1)).all isLowerHex

/-- What go-digest takes, as `ParseDigest`'s comment has it: sha256 and sha512 in their
canonical form. -/
def parseDigest (text : Str) : Bool := Algorithm.sha256.spells text || Algorithm.sha512.spells text

inductive Reference where
  | tag (text : Str)
  | digest (text : Str)
  deriving DecidableEq

def parseReference (text : Str) : Option Reference :=
  if text.contains ':' then if parseDigest text then some (.digest text) else none
  else if parseTag tagGrammar text then some (.tag text) else none

/-- A directory of the layout that holds what the store writes. -/
inductive Area where
  | blobs
  | uploads
  | temps
  deriving DecidableEq

def Area.text : Area → Str
  | .blobs => blobsDir
  | .uploads => uploadsDir
  | .temps => tempsDir

def tempPrefix : Str := ['.', 't', 'm', 'p', '-']

/-- The paths the store uses inside a repository: its directory, and what is in
it. -/
inductive LayoutPath where
  | directory
  | ociLayout
  | index
  | area (kind : Area)
  | blob (algorithm : Algorithm) (encoded : Encoded algorithm)
  | upload (id : UploadID)
  | temp (id : UploadID)
  | blobTemp (algorithm : Algorithm) (id : UploadID)

def LayoutPath.elements : LayoutPath → List Str
  | .directory => []
  | .ociLayout => [layoutFile]
  | .index => [indexFile]
  | .area kind => [kind.text]
  | .blob algorithm encoded => [Area.blobs.text, algorithm.text, encoded.text]
  | .upload id => [Area.uploads.text, id.text]
  | .temp id => [Area.temps.text, tempPrefix ++ id.text]
  | .blobTemp algorithm id => [Area.blobs.text, algorithm.text, tempPrefix ++ id.text]

/-- `Store.path`, apart from its look for symlinks. -/
def layoutPath (repository : Str) (path : LayoutPath) : Str := join (repository :: path.elements)

/-- `IDFile`: .k3sm-store-id. -/
def idFile : Str := ['.', 'k', '3', 's', 'm', '-', 's', 't', 'o', 'r', 'e', '-', 'i', 'd']

inductive RootFile where
  | word (text : Str) (listed : text ∈ rootWords)
  | storeID
  | storeIDTemp (id : UploadID)

def RootFile.text : RootFile → Str
  | .word text _ => text
  | .storeID => idFile
  | .storeIDTemp id => idFile ++ tempPrefix ++ id.text

def foldCase (path : Str) : Str := path.map Char.toLower

section Accepted

variable {withName : WithName} {name : Str}

theorem parseName_accepts (hname : parseName withName name = .ok name) :
    name ≠ [] ∧ withName (anchorDomain ++ '/' :: name) = some (anchorDomain, name) ∧
      (∀ char ∈ name, nameByte char = true) ∧
      (∀ component ∈ splitSlash name, reservedComponent component = false) ∧
      (splitSlash name).head?.any rootWords.contains = false := by
  unfold parseName at hname
  split at hname
  · cases hname
  rename_i hlength
  split at hname
  · cases hname
  rename_i hgrammar
  split at hname
  · cases hname
  rename_i hbytes
  split at hname
  · cases hname
  rename_i hcomponents
  split at hname
  · cases hname
  rename_i hroot
  rw [List.find?_eq_none] at hbytes hcomponents
  refine ⟨fun hempty => hlength (.inl hempty), not_not.1 hgrammar, ?_, ?_, ?_⟩
  · intro char hchar
    simpa using hbytes char hchar
  · intro component hcomponent
    simpa using hcomponents component hcomponent
  · simpa using hroot

theorem proper_component (hgrammar : PathGrammar withName)
    (hname : parseName withName name = .ok name) :
    ∀ component ∈ splitSlash name, Proper component := by
  intro component hcomponent
  have hparsed := (parseName_accepts hname).2.1
  have hfirst := (hgrammar _ _ _ hparsed component hcomponent).1
  -- the first byte is alphanumeric, so the component is neither empty nor made of dots
  constructor
  · rintro rfl
    cases hfirst
  · rintro rfl
    exact absurd hfirst (by decide)
  · rintro rfl
    exact absurd hfirst (by decide)
  · exact not_mem_of_mem_splitOn hcomponent

theorem mem_of_mem_component {component : Str} {char : Char}
    (hcomponent : component ∈ splitSlash name) (hchar : char ∈ component) : char ∈ name := by
  rw [← joinSlash_splitSlash name]
  exact mem_joinSlash_of_mem hcomponent hchar

theorem toLower_of_nameByte {char : Char} (hbyte : nameByte char = true) : char.toLower = char := by
  apply Char.toLower_eq_of_not_isUpper
  intro hupper
  have hA : 'A'.val.toNat = 65 := rfl
  have hZ : 'Z'.val.toNat = 90 := rfl
  have ha : 'a'.val.toNat = 97 := rfl
  have h9 : '9'.val.toNat = 57 := rfl
  simp only [Char.isUpper, ge_iff_le, decide_eq_true_eq, UInt32.le_iff_toNat_le] at hupper
  simp only [nameByte, Bool.or_eq_true, Bool.and_eq_true, decide_eq_true_eq, Char.le_def,
    UInt32.le_iff_toNat_le, beq_iff_eq] at hbyte
  rcases hbyte with ((((hletter | hdigit) | rfl) | rfl) | rfl) | rfl
  · omega
  · omega
  all_goals exact absurd hupper (by decide)

theorem foldCase_eq_self {text : Str} (hbytes : ∀ char ∈ text, nameByte char = true) :
    foldCase text = text := by
  have hsame : ∀ char ∈ text, char.toLower = id char :=
    fun char hchar => toLower_of_nameByte (hbytes char hchar)
  rw [foldCase, map_congr_left hsame, map_id]

theorem foldCase_component (hname : parseName withName name = .ok name) :
    ∀ component ∈ splitSlash name, foldCase component = component := by
  intro component hcomponent
  apply foldCase_eq_self
  intro char hchar
  exact (parseName_accepts hname).2.2.1 char (mem_of_mem_component hcomponent hchar)

end Accepted

def Word (text : Str) : Prop :=
  2 < text.length ∧ (text.all fun char => nameByte char && char != '/') = true

instance (text : Str) : Decidable (Word text) := inferInstanceAs (Decidable (_ ∧ _))

theorem word_iff {text : Str} :
    Word text ↔ 2 < text.length ∧ ∀ char ∈ text, nameByte char = true ∧ char ≠ '/' := by
  simp [Word, all_eq_true]

theorem Word.proper {text : Str} (hword : Word text) : Proper text where
  nonempty := by
    rintro rfl
    exact absurd hword.1 (by decide)
  not_dot := by
    rintro rfl
    exact absurd hword.1 (by decide)
  not_dotDot := by
    rintro rfl
    exact absurd hword.1 (by decide)
  no_slash := fun hslash => ((word_iff.1 hword).2 '/' hslash).2 rfl

theorem Word.foldCase {text : Str} (hword : Word text) : foldCase text = text :=
  foldCase_eq_self fun char hchar => ((word_iff.1 hword).2 char hchar).1

theorem Word.append {front back : Str} (hfront : Word front) (hback : Word back) :
    Word (front ++ back) := by
  rw [word_iff] at hfront hback ⊢
  constructor
  · rw [length_append]
    exact Nat.lt_add_right _ hfront.1
  · exact forall_mem_append.2 ⟨hfront.2, hback.2⟩

theorem nameByte_of_lowerHex {char : Char} (hhex : isLowerHex char = true) :
    nameByte char = true ∧ char ≠ '/' := by
  constructor
  · simp only [isLowerHex, nameByte, Bool.or_eq_true, Bool.and_eq_true, decide_eq_true_eq]
      at hhex ⊢
    rcases hhex with hdigit | ⟨hlow, hhigh⟩
    · exact .inl (.inl (.inl (.inl (.inr hdigit))))
    · exact .inl (.inl (.inl (.inl (.inl ⟨hlow, hhigh.trans (by decide)⟩))))
  · rintro rfl
    exact absurd hhex (by decide)

theorem Encoded.word {algorithm : Algorithm} (encoded : Encoded algorithm) : Word encoded.text := by
  rw [word_iff]
  constructor
  · rw [encoded.length]
    cases algorithm <;> decide
  · exact fun char hchar => nameByte_of_lowerHex (encoded.hex char hchar)

theorem UploadID.word (id : UploadID) : Word id.text := by
  have hvalid := id.valid
  simp only [parseUploadID, Bool.and_eq_true, beq_iff_eq, all_eq_true] at hvalid
  rw [word_iff]
  constructor
  · rw [hvalid.1]
    decide
  intro char hchar
  obtain ⟨index, hindex, rfl⟩ := mem_iff_getElem.1 hchar
  have hat := hvalid.2 (id.text[index], index) (mem_zipIdx_iff_getElem?.2 (by simp))
  dsimp only at hat
  split at hat
  · rw [beq_iff_eq.1 hat]
    decide
  · exact nameByte_of_lowerHex hat

theorem word_area (kind : Area) : Word kind.text := by
  cases kind <;> decide

theorem word_algorithm (algorithm : Algorithm) : Word algorithm.text := by
  cases algorithm <;> decide

theorem word_tempPrefix : Word tempPrefix := by decide

theorem LayoutPath.word (path : LayoutPath) : ∀ element ∈ path.elements, Word element := by
  cases path with
  | directory => exact nofun
  | ociLayout => simpa [LayoutPath.elements] using (by decide : Word layoutFile)
  | index => simpa [LayoutPath.elements] using (by decide : Word indexFile)
  | area kind => simpa [LayoutPath.elements] using word_area kind
  | blob algorithm encoded =>
    simpa [LayoutPath.elements] using
      ⟨word_area .blobs, word_algorithm algorithm, encoded.word⟩
  | upload id => simpa [LayoutPath.elements] using ⟨word_area .uploads, id.word⟩
  | temp id =>
    simpa [LayoutPath.elements] using ⟨word_area .temps, word_tempPrefix.append id.word⟩
  | blobTemp algorithm id =>
    simpa [LayoutPath.elements] using
      ⟨word_area .blobs, word_algorithm algorithm, word_tempPrefix.append id.word⟩

theorem reserved_area (kind : Area) : reservedComponent kind.text = true := by
  cases kind <;> decide

theorem LayoutPath.reserved (path : LayoutPath) {first : Str} {rest : List Str}
    (helements : path.elements = first :: rest) : reservedComponent first = true := by
  cases path <;>
    simp only [LayoutPath.elements, List.cons.injEq, reduceCtorEq] at helements <;>
    rw [← helements.1]
  case ociLayout => decide
  case index => decide
  all_goals exact reserved_area _

theorem RootFile.text_word (file : RootFile) : Word file.text := by
  cases file with
  | word text hlisted =>
    have hall : ∀ text ∈ rootWords, Word text := by decide
    exact hall text hlisted
  | storeID => decide
  | storeIDTemp id =>
    have hfront : Word (idFile ++ tempPrefix) := by decide
    exact hfront.append id.word

/-! ## Distinct repositories -/

/-- What keeps one repository, `left` at `leftDir`, apart from another and from the
root's own files. -/
structure Apart (withName : WithName) (root left leftDir rightDir : Str) : Prop where
  differ : ∀ leftPath rightPath, foldCase (layoutPath leftDir leftPath) ≠
    foldCase (layoutPath rightDir rightPath)
  outside : ∀ kind : Area, within (join [leftDir, kind.text]) rightDir = false ∧
    within (join [rightDir, kind.text]) leftDir = false
  notRootFile : ∀ (path : LayoutPath) (file : RootFile),
    foldCase (layoutPath leftDir path) ≠ foldCase (join [clean root, file.text])
  returns : nameFromDir withName root leftDir = .ok left
  below : ∀ path, within root (layoutPath leftDir path) = true

section Apart

variable {withName : WithName} {root left right name : Str}

theorem toLower_eq_iff {char target : Char} (htarget : target.isAlpha = false) :
    char.toLower = target ↔ char = target := by
  constructor
  · intro heq
    have halpha := Char.isAlpha_toLower_eq_isAlpha char
    rw [heq, htarget] at halpha
    have hupper : ¬ char.isUpper = true := by
      intro hupper
      simp [Char.isAlpha, hupper] at halpha
    rwa [Char.toLower_eq_of_not_isUpper hupper] at heq
  · rintro rfl
    apply Char.toLower_eq_of_not_isUpper
    intro hupper
    simp [Char.isAlpha, hupper] at htarget

/-- Paths below one root that a case-insensitive volume cannot tell apart are the
same, when their parts have no case to fold. -/
theorem parts_eq_of_foldCase {base : Str} {lefts rights : List Str} (hbase : base ≠ [])
    (hlefts : ∀ part ∈ lefts, Proper part ∧ foldCase part = part)
    (hrights : ∀ part ∈ rights, Proper part ∧ foldCase part = part)
    (hfold : foldCase (join (base :: lefts)) = foldCase (join (base :: rights))) :
    lefts = rights := by
  have hparts := map_parts_of_fold (fun _ => toLower_eq_iff (by decide))
    (fun _ => toLower_eq_iff (by decide)) hbase (fun part hpart => (hlefts part hpart).1)
    (fun part hpart => (hrights part hpart).1) hfold
  have hleft : lefts.map foldCase = lefts := by
    rw [map_congr_left (g := id) fun part hpart => (hlefts part hpart).2, map_id]
  have hright : rights.map foldCase = rights := by
    rw [map_congr_left (g := id) fun part hpart => (hrights part hpart).2, map_id]
  calc
    lefts = lefts.map foldCase := hleft.symm
    _ = rights.map foldCase := hparts
    _ = rights := hright

section

variable (hgrammar : PathGrammar withName) (hname : parseName withName name = .ok name)

include hgrammar hname

theorem dir_eq : dir root name = .ok (join (clean root :: splitSlash name)) := by
  have hproper := proper_component hgrammar hname
  have hroot := clean_ne_nil root
  have hwithin : within (clean root) (join (clean root :: splitSlash name)) = true :=
    within_of_parts (isAbs_join hroot hproper).symm (parts_join hroot hproper) hproper
  rw [dir, if_neg (parseName_accepts hname).1]
  simp only [hwithin, if_true]

theorem proper_elements (path : LayoutPath) :
    ∀ part ∈ splitSlash name ++ path.elements, Proper part ∧ foldCase part = part := by
  intro part hpart
  rcases mem_append.1 hpart with hcomponent | helement
  · exact ⟨proper_component hgrammar hname part hcomponent,
      foldCase_component hname part hcomponent⟩
  · exact ⟨(path.word part helement).proper, (path.word part helement).foldCase⟩

theorem layoutPath_eq (path : LayoutPath) :
    layoutPath (join (clean root :: splitSlash name)) path =
      join (clean root :: (splitSlash name ++ path.elements)) :=
  join_join (clean_ne_nil root) (proper_component hgrammar hname)
    fun part hpart => (path.word part hpart).proper

end

/-- Components that are not reserved, followed by a path of the layout, are found
again in the whole. -/
theorem components_eq {lefts rights : List Str} {leftPath rightPath : LayoutPath}
    (hlefts : ∀ component ∈ lefts, reservedComponent component = false)
    (hrights : ∀ component ∈ rights, reservedComponent component = false)
    (heq : lefts ++ leftPath.elements = rights ++ rightPath.elements) : lefts = rights := by
  rcases append_eq_append_iff.1 heq with ⟨more, hrest, hpath⟩ | ⟨more, hrest, hpath⟩
  · cases more with
    | nil => rw [hrest, append_nil]
    | cons first more =>
      have hfirst := hrights first (by simp [hrest])
      rw [leftPath.reserved hpath] at hfirst
      cases hfirst
  · cases more with
    | nil => rw [hrest, append_nil]
    | cons first more =>
      have hfirst := hlefts first (by simp [hrest])
      rw [rightPath.reserved hpath] at hfirst
      cases hfirst

theorem rootFile_ne_component (hname : parseName withName name = .ok name) (file : RootFile) :
    (splitSlash name).head? ≠ some file.text := by
  obtain ⟨-, -, -, hreserved, hroot⟩ := parseName_accepts hname
  intro hhead
  rw [hhead] at hroot
  have hfree := hreserved file.text (mem_of_head? hhead)
  cases file with
  | word text hlisted => simp [RootFile.text, hlisted] at hroot
  | storeID => exact absurd hfree (by decide)
  | storeIDTemp id => simp [RootFile.text, reservedComponent, idFile] at hfree

theorem nameFromDir_dir (hgrammar : PathGrammar withName)
    (hname : parseName withName name = .ok name) :
    nameFromDir withName root (join (clean root :: splitSlash name)) = .ok name := by
  have hproper := proper_component hgrammar hname
  have hroot := clean_ne_nil root
  have habs := (isAbs_join hroot hproper).symm
  have hparts := parts_join hroot hproper
  have hway : render false (splitSlash name) = name := by
    rw [render, if_neg Bool.false_ne_true, if_neg (splitSlash_ne_nil _), joinSlash_splitSlash]
  rw [nameFromDir, clean_join hroot hproper, if_pos (within_of_parts habs hparts hproper),
    rel_of_parts habs hparts, hway]
  simp only [hname]
  rfl

theorem outside_area (hgrammar : PathGrammar withName)
    (hleft : parseName withName left = .ok left) (hright : parseName withName right = .ok right)
    (kind : Area) :
    within (join [join (clean root :: splitSlash left), kind.text])
      (join (clean root :: splitSlash right)) = false := by
  rw [Bool.eq_false_iff]
  intro hinside
  have hroot := clean_ne_nil root
  have hfront := (parts_of_within hinside).2
  have harea : layoutPath (join (clean root :: splitSlash left)) (.area kind) =
      join [join (clean root :: splitSlash left), kind.text] := rfl
  rw [← harea, layoutPath_eq hgrammar hleft,
    parts_join hroot fun part hpart => (proper_elements hgrammar hleft _ part hpart).1,
    parts_join hroot (proper_component hgrammar hright), prefix_append_right_inj] at hfront
  have hkind := (parseName_accepts hright).2.2.2.1 kind.text
    (hfront.subset (by simp [LayoutPath.elements]))
  rw [reserved_area] at hkind
  cases hkind

/-- No repository's files lie in another's directory. -/
theorem repositories_apart (hgrammar : PathGrammar withName)
    (hleft : parseName withName left = .ok left) (hright : parseName withName right = .ok right)
    (hne : left ≠ right) : ∃ leftDir rightDir, dir root left = .ok leftDir ∧
      dir root right = .ok rightDir ∧ Apart withName root left leftDir rightDir := by
  refine ⟨_, _, dir_eq hgrammar hleft, dir_eq hgrammar hright, ?_⟩
  have hroot := clean_ne_nil root
  have hcomponents : splitSlash left ≠ splitSlash right := by
    intro heq
    apply hne
    rw [← joinSlash_splitSlash left, heq, joinSlash_splitSlash]
  have hlefts := (parseName_accepts hleft).2.2.2.1
  have hrights := (parseName_accepts hright).2.2.2.1
  constructor
  case differ =>
    intro leftPath rightPath hfold
    rw [layoutPath_eq hgrammar hleft, layoutPath_eq hgrammar hright] at hfold
    exact hcomponents (components_eq hlefts hrights (parts_eq_of_foldCase hroot
      (proper_elements hgrammar hleft leftPath) (proper_elements hgrammar hright rightPath) hfold))
  case outside =>
    exact fun kind => ⟨outside_area hgrammar hleft hright kind,
      outside_area hgrammar hright hleft kind⟩
  case returns => exact nameFromDir_dir hgrammar hleft
  case below =>
    intro path
    have hproper : ∀ part ∈ splitSlash left ++ path.elements, Proper part :=
      fun part hpart => (proper_elements hgrammar hleft path part hpart).1
    rw [layoutPath_eq hgrammar hleft]
    apply within_of_parts _ _ hproper
    · rw [isAbs_join hroot hproper, isAbs_clean]
    · rw [parts_join hroot hproper, parts_clean]
  intro path file hfold
  rw [layoutPath_eq hgrammar hleft] at hfold
  have hfile : ∀ part ∈ [file.text], Proper part ∧ foldCase part = part := by
    simpa using ⟨file.text_word.proper, file.text_word.foldCase⟩
  have hparts := parts_eq_of_foldCase hroot (proper_elements hgrammar hleft path) hfile hfold
  apply rootFile_ne_component hleft file
  cases hsplit : splitSlash left with
  | nil => exact absurd hsplit (splitSlash_ne_nil _)
  | cons first rest =>
    rw [hsplit, cons_append] at hparts
    rw [(List.cons.inj hparts).1]
    rfl

end Apart

/-! ## A nested repository -/

/-- A component of lowercase letters, digits and separators with an alphanumeric at
either end. -/
def componentAccepted (component : Str) : Bool :=
  component.head?.any isAlphanumeric && component.getLast?.any isAlphanumeric &&
    component.all fun char => isAlphanumeric char || char == '.' || char == '_' || char == '-'

def demoWithName : WithName := fun name =>
  match splitSlash name with
  | domain :: components =>
    if components ≠ [] ∧ components.all componentAccepted = true then
      some (domain, joinSlash components)
    else none
  | [] => none

theorem demo_pathGrammar : PathGrammar demoWithName := by
  intro name domain path hparsed component hcomponent
  unfold demoWithName at hparsed
  split at hparsed
  · rename_i first components hsplit
    split at hparsed
    · rename_i haccepted
      cases hparsed
      have hslash : ∀ part ∈ components, '/' ∉ part := by
        intro part hpart
        exact not_mem_of_mem_splitOn (hsplit ▸ mem_cons_of_mem _ hpart)
      rw [splitSlash_joinSlash hslash haccepted.1] at hcomponent
      have hone := all_eq_true.1 haccepted.2 component hcomponent
      simp only [componentAccepted, Bool.and_eq_true, all_eq_true] at hone
      refine ⟨hone.1.1, hone.1.2, fun char hchar => ?_⟩
      have hbyte : nameByte char = true := by
        have hchars := hone.2 char hchar
        simp only [isAlphanumeric, nameByte, Bool.or_eq_true] at hchars ⊢
        tauto
      have hlower := Char.isUpper_toLower_eq_false char
      rwa [toLower_of_nameByte hbyte] at hlower
    · cases hparsed
  · cases hparsed

/-- The repository app and the repository app/web below it, under the root
`/oci`. -/
theorem demo_repositories_apart :
    ∃ leftDir rightDir, dir ['/', 'o', 'c', 'i'] ['a', 'p', 'p'] = .ok leftDir ∧
      dir ['/', 'o', 'c', 'i'] ['a', 'p', 'p', '/', 'w', 'e', 'b'] = .ok rightDir ∧
      Apart demoWithName ['/', 'o', 'c', 'i'] ['a', 'p', 'p'] leftDir rightDir :=
  repositories_apart demo_pathGrammar (by decide) (by decide) (by decide)

end K3sm.Registry.Ref
