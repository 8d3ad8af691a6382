import K3sm.Registry.Names
import K3sm.Registry.PruneRace
import K3sm.Registry.PutRows
import K3sm.Registry.Referrers

/-!
# A manifest PUT and the reads after it

`putManifest` checks a body, writes it as a blob and records it: under the tag or the digest of
its reference, and then under every tag of the query, by the sha256 digest and in a call of its
own.  A read takes the first row it finds and checks the blob against it, so a 201 holds exactly
when the first rows that the request leaves have the digest and the size it acknowledged.
-/

namespace K3sm.Registry.Put

open K3sm.Core List
open K3sm.Registry.Prune (Ref descriptorOf putRow)
open K3sm.Registry.Gc (maxManifestSize)
open K3sm.Registry.RowShape (rowsOf mem_rowsOf hasTag_iff dropTag_cases putTagged_keeps_digest)

variable {Bytes : Type}

/-- A repository: the rows of its index and its blob files, by the digest they lie under. -/
structure State (Bytes : Type) where
  rows : List Row
  blobs : Digest → Option Bytes

/-- A PUT.  `mediaType` is what the Content-Type parses to. -/
structure Request (Bytes : Type) where
  reference : Ref
  tags : List String
  mediaType : Option Text
  body : Bytes

/-- What is decided elsewhere: the gate, the quota, and whether each write goes through. -/
structure Answers where
  allowed : Bool
  admits : Bool
  writes : List Bool

/-- A created manifest: the state after the last write, `Docker-Content-Digest` and `OCI-Tag`. -/
structure Created (Bytes : Type) where
  state : State Bytes
  digest : Digest
  tags : List String

/-- `writeBlob`: a good copy that is there stays, any other is replaced. -/
def writeBlob (codec : Codec Bytes) (blobs : Digest → Option Bytes) (digest : Digest)
    (body : Bytes) :
    Digest → Option Bytes :=
  Function.update blobs digest <|
    match blobs digest with
    | none => some body
    | some old => if codec.hashesTo old digest then some old else some body

def blobsPresent (blobs : Digest → Option Bytes) (needs : List Digest) : Bool :=
  needs.all fun digest => (blobs digest).isSome

def putManifestChecked (codec : Codec Bytes) (needs : List Digest) (state : State Bytes)
    (reference : Ref) (mediaType : Text) (body : Bytes) : Option (State Bytes × Descriptor) :=
  if mediaType = .plain "" then none
  else match descriptorOf codec mediaType body reference with
    | none => none
    | some desc =>
      let blobs := writeBlob codec state.blobs desc.digest body
      if blobsPresent blobs needs then some (⟨putRow state.rows desc reference, blobs⟩, desc)
      else none

def resolve (rows : List Row) : Ref → Option Row
  | .digest digest => rows.find? (·.digest == digest)
  | .tag tag => rows.find? (·.hasTag tag)

/-- What a GET of the reference is answered. -/
def manifest (codec : Codec Bytes) (state : State Bytes) (reference : Ref) :
    Option (Digest × Bytes) :=
  match resolve state.rows reference with
  | none => none
  | some row =>
    if row.size < 0 ∨ (maxManifestSize : ℤ) < row.size then none
    else match state.blobs row.digest with
      | none => none
      | some body =>
        if (codec.len body : ℤ) ≠ row.size ∨ codec.hashesTo body row.digest = false then none
        else some (row.digest, body)

def maxQueryTags : ℕ := 46

def parseTag (tag : String) : Bool := Registry.Ref.parseTag Registry.Ref.tagGrammar tag.toList

def parseReference : Ref → Bool
  | .digest digest => (parseDigest digest).isSome
  | .tag tag => parseTag tag

def isTag : Ref → Bool
  | .digest _ => false
  | .tag _ => true

def bodyMatches (codec : Codec Bytes) (body : Bytes) : Ref → Bool
  | .digest digest => codec.hashesTo body digest
  | .tag _ => true

/-- The tags of the query, each recorded by a call of its own. -/
def putTags (codec : Codec Bytes) (needs : List Digest) (mediaType : Text) (body : Bytes) :
    List Bool → State Bytes → List String → Option (State Bytes)
  | _, state, [] => some state
  | writes, state, tag :: tags =>
    if writes.headD false then
      match putManifestChecked codec needs state (.tag tag) mediaType body with
      | none => none
      | some (state, _) => putTags codec needs mediaType body writes.tail state tags
    else none

def putChecked (codec : Codec Bytes) (answers : Answers) (state : State Bytes)
    (request : Request Bytes) (mediaType : Text) (checked : CheckedManifest) :
    Option (Created Bytes) :=
  if blobsPresent state.blobs checked.needs = false then none
  else if checked.artifactType ≠ .plain "" ∧ answers.admits = false then none
  else if answers.writes.headD false = false then none
  else match putManifestChecked codec checked.needs state request.reference mediaType
    request.body with
    | none => none
    | some (written, desc) =>
      (putTags codec checked.needs mediaType request.body answers.writes.tail written
        request.tags).map fun state => ⟨state, desc.digest, request.tags⟩

/-- The PUT handler, from the checks to the rows written. -/
def putManifest (codec : Codec Bytes) (answers : Answers) (state : State Bytes)
    (request : Request Bytes) : Option (Created Bytes) :=
  if answers.allowed = false then none
  else if parseReference request.reference = false then none
  else if request.tags ≠ [] ∧ isTag request.reference = true then none
  else if maxQueryTags < request.tags.length then none
  else if request.tags.all parseTag = false then none
  else match request.mediaType with
    | none => none
    | some mediaType =>
      if Listing.manifestTypes mediaType = false then none
      else if maxManifestSize < codec.len request.body then none
      else if bodyMatches codec request.body request.reference = false then none
      else match checkManifest codec mediaType request.body with
        | .error _ => none
        | .ok checked => putChecked codec answers state request mediaType checked

/-- The references that a created PUT answers for. -/
def acknowledged (request : Request Bytes) (created : Created Bytes) : List Ref :=
  request.reference :: created.tags.map .tag

def canonical (codec : Codec Bytes) (mediaType : Text) (body : Bytes) : Descriptor :=
  ⟨mediaType, .sha256 (codec.sha256 body), codec.len body⟩

def HeadFits (size : ℤ) (rows : List Row) : Prop := ∀ row ∈ rows.head?, row.size = size

instance (size : ℤ) (rows : List Row) : Decidable (HeadFits size rows) :=
  inferInstanceAs (Decidable (∀ row ∈ rows.head?, row.size = size))

/-- The rows that carry the tag, but one it is moved off: if there is one, its first has the
digest and the size, and if there is none the tag's own digest is that one. -/
def TagLands (rows : List Row) (desc : Descriptor) (digest : Digest) (tag : String) : Prop :=
  match (if names rows desc tag then rows.filter (·.hasTag tag)
    else (rows.filter (·.hasTag tag)).tail).head? with
  | none => digest = desc.digest
  | some row => row.digest = digest ∧ row.size = desc.size

/-- The rows of the digest that a PUT of it leaves.  A moved tag takes its first row away,
under another digest only if that has a row without the tag. -/
def staying (rows : List Row) (desc : Descriptor) (digest : Digest)
    (tags : List String) : List Row :=
  if digest = desc.digest then
    if moved rows desc tags = ∅ then rowsOf rows digest
    else (dropFirsts Row.refName (moved rows desc tags) rows).filter fun row =>
      row.digest == digest && row.tagged
  else
    rowsOf (dropFirsts Row.refName ((moved rows desc tags).filter fun tag =>
      ∃ row ∈ rows, row.digest = digest ∧ row.hasTag tag = false) rows) digest

/-- The first rows that stay are of the body that is put. -/
def Lands (codec : Codec Bytes) (state : State Bytes) (request : Request Bytes) : Prop :=
  let desc := canonical codec (request.mediaType.getD (.plain "")) request.body
  match request.reference with
  | .tag tag => TagLands state.rows desc desc.digest tag
  | .digest digest =>
    (∀ tag ∈ request.tags, TagLands state.rows desc digest tag) ∧
      HeadFits desc.size (staying state.rows desc digest request.tags)

section Rows

variable {rows more : List Row} {desc : Descriptor} {digest : Digest} {tag : String}
  {tags : List String} {size : ℤ}

def Found (rows : List Row) (reference : Ref) (digest : Digest) (size : ℤ) : Prop :=
  ∃ row, resolve rows reference = some row ∧ row.digest = digest ∧ row.size = size

theorem headFits_append (hmore : ∀ row ∈ more, row.size = size) :
    HeadFits size (rows ++ more) ↔ HeadFits size rows := by
  cases rows with
  | cons row rows => rfl
  | nil =>
    refine ⟨fun _ row hrow => absurd hrow (Option.not_mem_none row), fun _ row hrow => ?_⟩
    exact hmore row (mem_of_mem_head? hrow)

theorem headFits_map {left right : List Row}
    (hsame : left.map (fun row => row.size) = right.map fun row => row.size) :
    HeadFits size left ↔ HeadFits size right := by
  cases left with
  | nil =>
    cases right with
    | nil => rfl
    | cons row right => cases hsame
  | cons row left =>
    cases right with
    | nil => cases hsame
    | cons other right =>
      have hhead : row.size = other.size := (List.cons.inj hsame).1
      simp [HeadFits, hhead]

theorem head_of_names (hnames : names rows desc tag = true) :
    ∃ row, (rows.filter (·.hasTag tag)).head? = some row := by
  rw [names_eq_any, any_eq_true] at hnames
  obtain ⟨row, hrow, -⟩ := hnames
  cases hown : rows.filter (·.hasTag tag) with
  | nil =>
    rw [hown] at hrow
    cases hrow
  | cons first rest => exact ⟨first, rfl⟩

theorem found_tag_iff (htags : ∀ tag ∈ tags, tag ≠ "") (htag : tag ∈ tags) :
    Found (putAll rows desc tags) (.tag tag) digest desc.size ↔ TagLands rows desc digest tag := by
  unfold Found TagLands
  simp only [resolve]
  rw [← List.head?_filter, tagRows_putAll htags (htags tag htag)]
  cases hnames : names rows desc tag with
  | true =>
    have hfree : tag ∉ moved rows desc tags := by simp [mem_moved, hnames]
    obtain ⟨row, hrow⟩ := head_of_names hnames
    rw [if_neg hfree, if_pos rfl, hrow]
    simp
  | false =>
    rw [if_pos (mem_moved.2 ⟨htag, hnames⟩), if_neg Bool.false_ne_true]
    cases hrest : (rows.filter (·.hasTag tag)).tail with
    | nil => simp [tagRow, eq_comm]
    | cons row rest => simp

section

variable (hmore : ∀ row ∈ more, row.refName = none) (htag : tag ≠ "")

include hmore htag

theorem tagRows_append : (rows ++ more).filter (·.hasTag tag) = rows.filter (·.hasTag tag) := by
  have hnone : more.filter (·.hasTag tag) = [] := by
    rw [filter_eq_nil_iff]
    intro row hrow
    simp [hasTag_eq htag, hmore row hrow]
  rw [filter_append, hnone, append_nil]

theorem names_append : names (rows ++ more) desc tag = names rows desc tag := by
  rw [names_eq_any, tagRows_append hmore htag, ← names_eq_any]

theorem tagLands_append :
    TagLands (rows ++ more) desc digest tag ↔ TagLands rows desc digest tag := by
  rw [TagLands, names_append hmore htag, tagRows_append hmore htag, TagLands]

end

theorem resolve_digest (rows : List Row) (digest : Digest) :
    resolve rows (.digest digest) = (rowsOf rows digest).head? := by
  rw [rowsOf, List.head?_filter, resolve]
  congr 1

theorem found_digest_iff (hrow : ∃ row ∈ rows, row.digest = digest) :
    Found rows (.digest digest) digest size ↔ HeadFits size (rowsOf rows digest) := by
  obtain ⟨row, hin, hdigest⟩ := hrow
  have hmem : row ∈ rowsOf rows digest := mem_rowsOf.2 ⟨hin, hdigest⟩
  unfold Found
  rw [resolve_digest]
  cases hown : rowsOf rows digest with
  | nil =>
    rw [hown] at hmem
    cases hmem
  | cons first rest =>
    have hfirst : first.digest = digest := (mem_rowsOf.1 (hown ▸ mem_cons_self)).2
    simp [HeadFits, hfirst]

theorem putAll_keeps_digest (hrow : ∃ row ∈ rows, row.digest = digest) (desc : Descriptor)
    (tags : List String) : ∃ row ∈ putAll rows desc tags, row.digest = digest := by
  induction tags using List.reverseRecOn with
  | nil => exact hrow
  | append_singleton tags tag ih =>
    rw [putAll_append]
    exact putTagged_keeps_digest ih

theorem tagged_putAll (htags : ∀ tag ∈ tags, tag ≠ "") (hmoved : moved rows desc tags ≠ ∅) :
    ∀ row ∈ putAll rows desc tags, row.digest = desc.digest → row.tagged = true := by
  induction tags using List.reverseRecOn with
  | nil => exact absurd rfl hmoved
  | append_singleton tags tag ih =>
    have hbefore : ∀ tag ∈ tags, tag ≠ "" := fun tag htag => htags tag (mem_append_left _ htag)
    have htag : tag ≠ "" := htags tag (mem_append_right _ (mem_singleton_self tag))
    rw [putAll_append]
    cases hnames : names (putAll rows desc tags) desc tag with
    | true =>
      rw [putTagged_of_names hnames]
      rw [moved_append_of_named hbefore htag hnames] at hmoved
      exact ih hbefore hmoved
    | false =>
      rw [putTagged_of_not_names hnames]
      intro row hrow hdigest
      rcases mem_append.1 hrow with hkept | hnew
      · simpa [hdigest] using (mem_filter.1 hkept).2
      · rw [mem_singleton.1 hnew]
        rfl

theorem headFits_own (htags : ∀ tag ∈ tags, tag ≠ "") :
    HeadFits desc.size (rowsOf (putAll rows desc tags) desc.digest) ↔
      HeadFits desc.size (staying rows desc desc.digest tags) := by
  rw [staying, if_pos rfl]
  split
  case isTrue hnone =>
    rw [putAll_of_none htags hnone]
  rename_i hsome
  have htagged := tagged_putAll htags hsome
  have hview : ∃ more, ((putAll rows desc tags).filter fun row =>
        row.digest == desc.digest && row.tagged) =
      ((dropFirsts Row.refName (moved rows desc tags) rows).filter fun row =>
        row.digest == desc.digest && row.tagged) ++ more ∧
      ∀ row ∈ more, ∃ tag, row = tagRow desc tag := by
    apply filter_putAll htags
    · intro earlier tag later _ _ _ old _ _
      simp [untaggedRow, Row.tagged]
    · exact fun row hrow _ => (Bool.and_eq_true_iff.1 hrow).2
  obtain ⟨more, hmore, hgood⟩ := hview
  have hown : rowsOf (putAll rows desc tags) desc.digest =
      (putAll rows desc tags).filter fun row => row.digest == desc.digest && row.tagged := by
    apply filter_congr
    intro row hrow
    by_cases hdigest : row.digest = desc.digest
    · simp [hdigest, htagged row hrow hdigest]
    · simp [hdigest]
  rw [hown, hmore, headFits_append]
  intro row hrow
  obtain ⟨tag, rfl⟩ := hgood row hrow
  rfl

/-! ## Another digest -/

theorem TagLands.second (hlands : TagLands rows desc digest tag) (hother : digest ≠ desc.digest)
    (hmoved : tag ∈ moved rows desc tags) :
    ∃ row, (rows.filter (·.hasTag tag)).tail.head? = some row ∧ row.digest = digest := by
  rw [TagLands, (mem_moved.1 hmoved).2, if_neg Bool.false_ne_true] at hlands
  cases hsecond : (rows.filter (·.hasTag tag)).tail.head? with
  | none =>
    rw [hsecond] at hlands
    exact absurd hlands hother
  | some row =>
    rw [hsecond] at hlands
    exact ⟨row, rfl, hlands.1⟩

theorem mem_of_second {row : Row} (hsecond : (rows.filter (·.hasTag tag)).tail.head? = some row) :
    row ∈ rows.filter (·.hasTag tag) :=
  mem_of_mem_tail (mem_of_mem_head? hsecond)

theorem sizes_putTagged (hother : digest ≠ desc.digest)
    (hall : ∀ row ∈ rows, row.digest = digest → row.hasTag tag = true) :
    (rowsOf (putTagged rows desc tag).1 digest).map (fun row => row.size) =
      (rowsOf rows digest).map fun row => row.size := by
  cases hnames : names rows desc tag with
  | true => rw [putTagged_of_names hnames]
  | false =>
    have hlast : (tagRow desc tag).digest ≠ digest := Ne.symm hother
    have hdrop : rowsOf (putTagged rows desc tag).1 digest = rowsOf (dropTag rows tag) digest := by
      rw [putTagged_of_not_names hnames, rowsOf, filter_append, filter_filter,
        filter_cons_of_neg (by simpa using hlast), filter_nil, append_nil]
      apply filter_congr
      intro row _
      by_cases hdigest : row.digest = digest
      · simp [hdigest, hother]
      · simp [hdigest]
    rw [hdrop]
    rcases dropTag_cases rows tag with ⟨hsame, -⟩ | ⟨left, old, right, hrows, -, -, hcases⟩
    · rw [hsame]
    rcases hcases with ⟨⟨row, hrow, hdigest, hfree⟩, herased⟩ | ⟨-, hset⟩
    · have hold : old.digest ≠ digest := by
        intro hsame
        rw [hall row hrow (hdigest.trans hsame)] at hfree
        cases hfree
      rw [herased, hrows]
      simp [rowsOf, hold]
    · rw [hset, hrows]
      by_cases hold : old.digest = digest
      · simp [rowsOf, untaggedRow, hold]
      · simp [rowsOf, untaggedRow, hold]

theorem headFits_other (htags : ∀ tag ∈ tags, tag ≠ "") (hother : digest ≠ desc.digest)
    (hlands : ∀ tag ∈ tags, TagLands rows desc digest tag) :
    HeadFits desc.size (rowsOf (putAll rows desc tags) digest) ↔
      HeadFits desc.size (staying rows desc digest tags) := by
  rw [staying, if_neg hother]
  have hsecond : ∀ tag ∈ moved rows desc tags,
      ∃ row, (rows.filter (·.hasTag tag)).tail.head? = some row ∧ row.digest = digest :=
    fun tag htag => (hlands tag (mem_moved.1 htag).1).second hother htag
  by_cases hevery : ∃ only ∈ moved rows desc tags, ∀ row ∈ rows, row.digest = digest →
    row.hasTag only = true
  · -- one tag on all rows of the digest: a second moved tag would have a row of it without
    obtain ⟨only, honly, hall⟩ := hevery
    have hone : ∀ tag ∈ moved rows desc tags, tag = only := by
      intro tag htag
      obtain ⟨row, hrow, hdigest⟩ := hsecond tag htag
      obtain ⟨hin, hhas⟩ := mem_filter.1 (mem_of_second hrow)
      have htagged := (hasTag_iff (htags tag (mem_moved.1 htag).1)).1 hhas
      have hsame := (hasTag_iff (htags only (mem_moved.1 honly).1)).1 (hall row hin hdigest)
      rw [htagged] at hsame
      exact Option.some.inj hsame
    have hnone : ((moved rows desc tags).filter fun tag =>
        ∃ row ∈ rows, row.digest = digest ∧ row.hasTag tag = false) = ∅ := by
      rw [Finset.filter_eq_empty_iff]
      rintro tag htag ⟨row, hin, hdigest, hfree⟩
      rw [hone tag htag, hall row hin hdigest] at hfree
      cases hfree
    rw [hnone, dropFirsts_empty, putAll_of_one htags hone, if_pos honly]
    exact headFits_map (sizes_putTagged hother hall)
  rw [not_exists] at hevery
  have hfree : ∀ tag ∈ moved rows desc tags,
      ∃ row ∈ rows, row.digest = digest ∧ row.hasTag tag = false := by
    intro tag htag
    by_contra hnone
    apply hevery tag
    refine ⟨htag, fun row hin hdigest => ?_⟩
    by_contra hhas
    exact hnone ⟨row, hin, hdigest, by simpa using hhas⟩
  have hview : ∃ more, ((putAll rows desc tags).filter fun row => row.digest = digest) =
      ((dropFirsts Row.refName (moved rows desc tags) rows).filter fun row =>
        row.digest = digest) ++ more ∧ ∀ row ∈ more, ∃ tag, row = tagRow desc tag := by
    apply filter_putAll htags
    · intro earlier tag later hsplit hmoved hstill old hold hall
      have hearlier : ∀ other ∈ earlier, other ≠ "" := fun other hmem =>
        htags other (hsplit ▸ mem_append_left _ hmem)
      have htag : tag ≠ "" := htags tag (mem_moved.1 hmoved).1
      by_contra hseen
      have hdigest : old.digest = digest := by
        rw [Bool.not_eq_false, decide_eq_true_iff] at hseen
        exact hseen
      rw [hdigest] at hall
      -- the digest has a row without the tag: at first by the case, later where another landed
      obtain ⟨row, hin, hrow, hlacks⟩ : ∃ row ∈ putAll rows desc earlier,
          row.digest = digest ∧ row.hasTag tag = false := by
        by_cases hfirst : moved rows desc earlier = ∅
        · rw [putAll_of_none hearlier hfirst]
          exact hfree tag hmoved
        obtain ⟨before, hbefore⟩ := Finset.nonempty_iff_ne_empty.2 hfirst
        have hin : before ∈ moved rows desc tags := by
          rw [mem_moved] at hbefore ⊢
          exact ⟨hsplit ▸ mem_append_left _ hbefore.1, hbefore.2⟩
        obtain ⟨row, hrow, hlanded⟩ := hsecond before hin
        have hmem : row ∈ (putAll rows desc earlier).filter (·.hasTag before) := by
          rw [tagRows_putAll hearlier (hearlier before (mem_moved.1 hbefore).1), if_pos hbefore]
          exact mem_append_left _ (mem_of_mem_head? hrow)
        obtain ⟨hrows, hhas⟩ := mem_filter.1 hmem
        refine ⟨row, hrows, hlanded, ?_⟩
        rw [hasTag_eq htag, (hasTag_iff (hearlier before (mem_moved.1 hbefore).1)).1 hhas]
        have hne : before ≠ tag := fun hsame => hstill (hsame ▸ hbefore)
        simpa using hne
      rw [hall row hin hrow] at hlacks
      cases hlacks
    · intro row hrow hdigest
      have hsame : row.digest = digest := by simpa using hrow
      exact absurd (hsame.symm.trans hdigest) hother
  obtain ⟨more, hmore, hgood⟩ := hview
  rw [Finset.filter_true_of_mem hfree, rowsOf, hmore, headFits_append, rowsOf]
  intro row hrow
  obtain ⟨tag, rfl⟩ := hgood row hrow
  rfl

theorem mem_dropFirsts {labels : Finset String} {row : Row}
    (hrow : row ∈ dropFirsts Row.refName labels rows) : row ∈ rows :=
  (dropFirsts_sublist labels rows).subset hrow

theorem mem_staying {row : Row} (hrow : row ∈ staying rows desc digest tags) :
    row ∈ rows ∧ row.digest = digest := by
  unfold staying at hrow
  split at hrow
  · split at hrow
    · exact mem_rowsOf.1 hrow
    · obtain ⟨hin, hown⟩ := mem_filter.1 hrow
      exact ⟨mem_dropFirsts hin, by simpa using (Bool.and_eq_true_iff.1 hown).1⟩
  · obtain ⟨hin, hdigest⟩ := mem_rowsOf.1 hrow
    exact ⟨mem_dropFirsts hin, hdigest⟩

theorem headFits_staying (hfits : ∀ row ∈ rows, row.digest = digest → row.size = size) :
    HeadFits size (staying rows desc digest tags) := by
  intro row hrow
  obtain ⟨hin, hdigest⟩ := mem_staying (mem_of_mem_head? hrow)
  exact hfits row hin hdigest

theorem headFits_putAll (htags : ∀ tag ∈ tags, tag ≠ "")
    (hlands : ∀ tag ∈ tags, TagLands rows desc digest tag) :
    HeadFits desc.size (rowsOf (putAll rows desc tags) digest) ↔
      HeadFits desc.size (staying rows desc digest tags) := by
  by_cases hown : digest = desc.digest
  · rw [hown]
    exact headFits_own htags
  · exact headFits_other htags hown hlands

theorem found_reference_iff {own : Descriptor} (htags : ∀ tag ∈ tags, tag ≠ "")
    (hlands : ∀ tag ∈ tags, TagLands rows desc own.digest tag) (hsize : own.size = desc.size) :
    Found (putAll (putUntagged rows own).1 desc tags) (.digest own.digest) own.digest desc.size ↔
      HeadFits desc.size (staying rows desc own.digest tags) := by
  unfold putUntagged
  split
  case isTrue hany =>
    simp only [any_eq_true, beq_iff_eq] at hany
    rw [found_digest_iff (putAll_keeps_digest hany desc tags), headFits_putAll htags hlands]
  rename_i hnone
  simp only [any_eq_true, beq_iff_eq, not_exists, not_and] at hnone
  -- the only row of the digest is the new one
  have hunlabelled : ∀ row ∈ [({ own with refName := none, annotations := [] } : Row)],
      row.refName = none := by
    intro row hrow
    rw [mem_singleton.1 hrow]
  have hnew : ∀ row ∈ rows ++ [({ own with refName := none, annotations := [] } : Row)],
      row.digest = own.digest → row.size = desc.size := by
    intro row hrow hdigest
    rcases mem_append.1 hrow with hbefore | hlast
    · exact absurd hdigest (hnone row hbefore)
    · rw [mem_singleton.1 hlast]
      exact hsize
  have hlanded : ∀ tag ∈ tags, TagLands
      (rows ++ [({ own with refName := none, annotations := [] } : Row)]) desc own.digest tag :=
    fun tag htag => (tagLands_append hunlabelled (htags tag htag)).2 (hlands tag htag)
  have hrow : ∃ row ∈ rows ++ [({ own with refName := none, annotations := [] } : Row)],
      row.digest = own.digest :=
    ⟨_, mem_append_right _ (mem_singleton_self _), rfl⟩
  rw [found_digest_iff (putAll_keeps_digest hrow desc tags), headFits_putAll htags hlanded]
  refine iff_of_true (headFits_staying hnew) (headFits_staying ?_)
  exact fun row hin hdigest => absurd hdigest (hnone row hin)

end Rows

section Blobs

variable {codec : Codec Bytes} {blobs : Digest → Option Bytes} {digest other : Digest}
  {body : Bytes}
  {mediaType : Text} {needs : List Digest}

theorem writeBlob_self (hhash : codec.hashesTo body digest = true) :
    writeBlob codec blobs digest body digest = some body := by
  rw [writeBlob, Function.update_self]
  split
  · rfl
  rename_i old _
  split
  · rename_i hold
    rw [codec.hashesTo_unique hold hhash]
  · rfl

theorem writeBlob_keeps (hhash : codec.hashesTo body digest = true)
    (hstored : blobs digest = some body) : writeBlob codec blobs other body digest = some body := by
  by_cases hsame : digest = other
  · rw [← hsame, writeBlob_self hhash]
  · rw [writeBlob, Function.update_of_ne hsame, hstored]

theorem putManifestChecked_cases {state after : State Bytes} {reference : Ref} {desc : Descriptor}
    (hput : putManifestChecked codec needs state reference mediaType body = some (after, desc)) :
    descriptorOf codec mediaType body reference = some desc ∧
      after.rows = putRow state.rows desc reference ∧
      after.blobs = writeBlob codec state.blobs desc.digest body := by
  unfold putManifestChecked at hput
  split at hput
  · cases hput
  split at hput
  · cases hput
  rename_i found hfound
  dsimp only at hput
  split at hput
  · cases hput
    exact ⟨hfound, rfl, rfl⟩
  · cases hput

theorem putTags_cases {writes : List Bool} {state after : State Bytes} {tags : List String}
    (hput : putTags codec needs mediaType body writes state tags = some after) :
    after.rows = putAll state.rows (canonical codec mediaType body) tags ∧
      ∀ digest, codec.hashesTo body digest = true → state.blobs digest = some body →
        after.blobs digest = some body := by
  induction tags generalizing writes state with
  | nil =>
    cases hput
    exact ⟨rfl, fun _ _ hstored => hstored⟩
  | cons tag tags ih =>
    unfold putTags at hput
    split at hput
    · split at hput
      · cases hput
      rename_i middle desc hchecked
      obtain ⟨hdesc, hrows, hblobs⟩ := putManifestChecked_cases hchecked
      obtain ⟨hafter, hkept⟩ := ih hput
      cases hdesc
      refine ⟨?_, fun digest hhash hstored => hkept digest hhash ?_⟩
      · rw [hafter, hrows]
        rfl
      · rw [hblobs]
        exact writeBlob_keeps hhash hstored
    · cases hput

theorem manifest_iff {state : State Bytes} {reference : Ref}
    (hsmall : codec.len body ≤ maxManifestSize)
    (hhash : codec.hashesTo body digest = true) (hstored : state.blobs digest = some body) :
    manifest codec state reference = some (digest, body) ↔
      Found state.rows reference digest (codec.len body) := by
  unfold manifest Found
  cases hrow : resolve state.rows reference with
  | none => simp
  | some row =>
    have hcap : (codec.len body : ℤ) ≤ maxManifestSize := by exact_mod_cast hsmall
    constructor
    · intro hread
      dsimp only at hread
      split at hread
      · cases hread
      split at hread
      · cases hread
      rename_i file hfile
      split at hread
      · cases hread
      rename_i hgood
      rw [not_or, not_not] at hgood
      cases hread
      exact ⟨row, rfl, rfl, hgood.1.symm⟩
    rintro ⟨found, hfound, hdigest, hsize⟩
    cases hfound
    have hin : ¬ (row.size < 0 ∨ (maxManifestSize : ℤ) < row.size) := by omega
    have hchecked : ¬ ((codec.len body : ℤ) ≠ row.size ∨
        codec.hashesTo body row.digest = false) := by
      rw [hdigest, hhash, hsize]
      simp
    simp only [if_neg hin, hdigest, hstored]
    rw [← hdigest, if_neg hchecked]

end Blobs

section Created

variable {codec : Codec Bytes} {answers : Answers} {state : State Bytes} {request : Request Bytes}
  {created : Created Bytes}

theorem ne_empty_of_parseTag {tag : String} (hparses : parseTag tag = true) : tag ≠ "" := by
  rintro rfl
  cases hparses

theorem putChecked_cases {mediaType : Text} {checked : CheckedManifest}
    (hcreated : putChecked codec answers state request mediaType checked = some created) :
    ∃ desc, descriptorOf codec mediaType request.body request.reference = some desc ∧
      created.digest = desc.digest ∧ created.tags = request.tags ∧
      created.state.rows = putAll (putRow state.rows desc request.reference)
        (canonical codec mediaType request.body) request.tags ∧
      (codec.hashesTo request.body desc.digest = true →
        created.state.blobs desc.digest = some request.body) := by
  unfold putChecked at hcreated
  split at hcreated
  · cases hcreated
  split at hcreated
  · cases hcreated
  split at hcreated
  · cases hcreated
  split at hcreated
  · cases hcreated
  rename_i written desc hput
  obtain ⟨after, hafter, rfl⟩ := Option.map_eq_some_iff.1 hcreated
  obtain ⟨hdesc, hrows, hblobs⟩ := putManifestChecked_cases hput
  obtain ⟨hall, hkept⟩ := putTags_cases hafter
  refine ⟨desc, hdesc, rfl, rfl, ?_, fun hhash => hkept desc.digest hhash ?_⟩
  · rw [hall, hrows]
  · rw [hblobs]
    exact writeBlob_self hhash

theorem putManifest_cases (hcreated : putManifest codec answers state request = some created) :
    ∃ mediaType, request.mediaType = some mediaType ∧
      codec.len request.body ≤ maxManifestSize ∧ parseReference request.reference = true ∧
      (∀ tag ∈ request.tags, tag ≠ "") ∧ (isTag request.reference = true → request.tags = []) ∧
      ∃ checked, putChecked codec answers state request mediaType checked = some created := by
  unfold putManifest at hcreated
  split at hcreated
  · cases hcreated
  split at hcreated
  · cases hcreated
  rename_i hparses
  split at hcreated
  · cases hcreated
  rename_i halone
  split at hcreated
  · cases hcreated
  split at hcreated
  · cases hcreated
  rename_i htags
  split at hcreated
  · cases hcreated
  rename_i mediaType htype
  split at hcreated
  · cases hcreated
  split at hcreated
  · cases hcreated
  rename_i hsmall
  split at hcreated
  · cases hcreated
  split at hcreated
  · cases hcreated
  rename_i checked _
  refine ⟨mediaType, htype, not_lt.1 hsmall, by simpa using hparses, ?_, ?_, checked, hcreated⟩
  · rw [Bool.not_eq_false, all_eq_true] at htags
    exact fun tag htag => ne_empty_of_parseTag (htags tag htag)
  · intro htag
    by_contra hsome
    exact halone ⟨hsome, htag⟩

/-- An answer of 201 holds of every reference it acknowledges exactly when the first rows the
request leaves are of its body. -/
theorem created_resolves_iff (codec : Codec Bytes) (answers : Answers) (state : State Bytes)
    (request : Request Bytes) (created : Created Bytes)
    (hcreated : putManifest codec answers state request = some created) :
    (∀ reference ∈ acknowledged request created,
      manifest codec created.state reference = some (created.digest, request.body)) ↔
      Lands codec state request := by
  obtain ⟨mediaType, htype, hsmall, hparses, htags, halone, checked, hchecked⟩ :=
    putManifest_cases hcreated
  obtain ⟨desc, hdesc, hdigest, hacknowledged, hrows, hblobs⟩ := putChecked_cases hchecked
  unfold Lands acknowledged
  rw [htype, hacknowledged, Option.getD_some]
  cases hreference : request.reference with
  | tag tag =>
    rw [hreference] at hdesc hparses halone hrows
    have hnone := halone rfl
    rw [hnone] at hrows ⊢
    have hsame : desc = canonical codec mediaType request.body := (Option.some.inj hdesc).symm
    have hhash : codec.hashesTo request.body desc.digest = true := by
      rw [hsame]
      exact beq_self_eq_true _
    have hone : ∀ other ∈ [tag], other ≠ "" := by
      intro other hother
      rw [mem_singleton.1 hother]
      exact ne_empty_of_parseTag hparses
    have hput : created.state.rows =
        putAll state.rows (canonical codec mediaType request.body) [tag] := by
      rw [hrows, hsame]
      rfl
    simp only [map_nil, mem_singleton, forall_eq]
    rw [hdigest, manifest_iff hsmall hhash (hblobs hhash), hput, hsame]
    exact found_tag_iff hone (mem_singleton_self tag)
  | digest digest =>
    rw [hreference] at hdesc hrows
    dsimp only [descriptorOf] at hdesc
    split_ifs at hdesc with hhash
    cases hdesc
    have hread : ∀ reference, manifest codec created.state reference =
        some (created.digest, request.body) ↔
        Found created.state.rows reference digest (codec.len request.body) := by
      intro reference
      rw [hdigest]
      exact manifest_iff hsmall hhash (hblobs hhash)
    simp only [forall_mem_cons, forall_mem_map, hread, hrows]
    -- the tags decide first: the digest's rows are followed only where they all land
    have hfree : ∀ tag ∈ request.tags,
        (Found (putAll
          (putRow state.rows ⟨mediaType, digest, codec.len request.body⟩ (.digest digest))
          (canonical codec mediaType request.body) request.tags) (.tag tag) digest
          (codec.len request.body) ↔
        TagLands state.rows (canonical codec mediaType request.body) digest tag) := by
      intro tag htag
      obtain ⟨more, hmore, hunlabelled⟩ := putUntagged_append state.rows
        ⟨mediaType, digest, codec.len request.body⟩
      rw [← tagLands_append hunlabelled (htags tag htag), ← hmore]
      exact found_tag_iff htags htag
    rw [and_comm]
    have hall := forall₂_congr hfree
    rw [hall]
    apply and_congr_right
    intro hlands
    have hown : digest = (⟨mediaType, digest, codec.len request.body⟩ : Descriptor).digest := rfl
    rw [hown] at hlands ⊢
    exact found_reference_iff htags hlands rfl

/-! ## In an index of the store's own -/

theorem tagLands_of_one {rows : List Row} {desc : Descriptor} {digest : Digest} {tag : String}
    (hone : (rows.filter (·.hasTag tag)).length ≤ 1)
    (hsizes : ∀ row ∈ rows, row.digest = desc.digest → row.size = desc.size) :
    TagLands rows desc digest tag ↔ digest = desc.digest := by
  unfold TagLands
  cases hnames : names rows desc tag with
  | false =>
    have hnone : (rows.filter (·.hasTag tag)).tail = [] := by
      rw [← length_eq_zero_iff, length_tail]
      omega
    rw [if_neg Bool.false_ne_true, hnone]
    rfl
  | true =>
    obtain ⟨row, hrow⟩ := head_of_names hnames
    have hown : rows.filter (·.hasTag tag) = [row] := by
      obtain ⟨rest, hrest⟩ := head?_eq_some_iff.1 hrow
      rw [hrest, length_cons] at hone
      rw [hrest, length_eq_zero_iff.1 (by omega : rest.length = 0)]
    have hdigest : row.digest = desc.digest := by
      rw [names_eq_any, hown] at hnames
      simp only [any_cons, any_nil, Bool.or_false, Bool.and_eq_true, beq_iff_eq] at hnames
      exact hnames.1
    have hmem : row ∈ rows := (mem_filter.1 (hown ▸ mem_singleton_self row)).1
    rw [if_pos rfl, hown]
    simp [hdigest, hsizes row hmem hdigest, eq_comm]

/-- Where no two rows carry one tag and the sizes are those of the bodies, only a sha512 digest
with tags to write does not land. -/
theorem lands_iff (hcreated : putManifest codec answers state request = some created)
    (hone : ∀ tag, (state.rows.filter (·.hasTag tag)).length ≤ 1)
    (hsizes : ∀ row ∈ state.rows, codec.hashesTo request.body row.digest = true →
      row.size = codec.len request.body) :
    Lands codec state request ↔ ∀ digest, request.reference = .digest digest →
      request.tags ≠ [] → digest = .sha256 (codec.sha256 request.body) := by
  obtain ⟨mediaType, htype, -, -, -, -, checked, hchecked⟩ := putManifest_cases hcreated
  obtain ⟨desc, hdesc, -⟩ := putChecked_cases hchecked
  have hlands : ∀ digest tag,
      TagLands state.rows (canonical codec mediaType request.body) digest tag ↔
        digest = .sha256 (codec.sha256 request.body) := by
    intro digest tag
    refine tagLands_of_one (hone tag) fun row hrow hdigest => hsizes row hrow ?_
    rw [hdigest]
    exact beq_self_eq_true _
  unfold Lands
  rw [htype, Option.getD_some]
  cases hreference : request.reference with
  | tag tag =>
    refine iff_of_true ((hlands _ tag).2 rfl) ?_
    intro digest hdigest
    cases hdigest
  | digest digest =>
    rw [hreference] at hdesc
    dsimp only [descriptorOf] at hdesc
    split_ifs at hdesc with hhash
    have hfits : ∀ row ∈ state.rows, row.digest = digest →
        row.size = (canonical codec mediaType request.body).size :=
      fun row hrow hdigest => hsizes row hrow (hdigest ▸ hhash)
    simp only [hlands, Ref.digest.injEq, forall_eq']
    rw [and_iff_left (headFits_staying hfits)]
    constructor
    · intro hall hsome
      obtain ⟨tag, htag⟩ := exists_mem_of_ne_nil _ hsome
      exact hall tag htag
    · exact fun hsame tag htag => hsame (ne_nil_of_mem htag)

end Created

/-- Bodies are numbered, and zero is an index of no manifests. -/
def indexCodec : Codec ℕ where
  len := fun _ => 80
  json := fun
    | 0 => some (.obj [(.schemaVersion, .int 2), (.mediaType, .str mediaTypeImageIndex),
        (.manifests, .arr [])])
    | _ => none
  tokens := fun _ => [mediaTypeImageIndex]
  sha256 := id
  sha512 := id
  sha256_injective := Function.injective_id
  sha512_injective := Function.injective_id
  artifactType := fun artifact config => if artifact = .plain "" then config else artifact

def emptyState : State ℕ := ⟨[], fun _ => none⟩

def taggedPut (digest : Digest) : Request ℕ where
  reference := .digest digest
  tags := ["v1"]
  mediaType := some mediaTypeImageIndex
  body := 0

def goesThrough : Answers := ⟨true, true, [true, true]⟩

theorem sha256_put_resolves :
    ∃ created, putManifest indexCodec goesThrough emptyState (taggedPut (.sha256 0)) =
      some created ∧
      ∀ reference ∈ acknowledged (taggedPut (.sha256 0)) created,
        manifest indexCodec created.state reference = some (created.digest, 0) := by
  refine ⟨_, rfl, ?_⟩
  apply (created_resolves_iff indexCodec goesThrough emptyState (taggedPut (.sha256 0)) _ rfl).2
  refine ⟨?_, by decide⟩
  intro tag htag
  rw [mem_singleton.1 htag]
  rfl

/-- The tag is recorded under the sha256 digest, and the answer says sha512. -/
theorem sha512_put_does_not_resolve :
    ¬∀ (state : State ℕ) (request : Request ℕ) (created : Created ℕ),
      putManifest indexCodec goesThrough state request = some created →
      ∀ reference ∈ acknowledged request created,
        manifest indexCodec created.state reference = some (created.digest, request.body) := by
  intro hresolves
  have htag := hresolves emptyState (taggedPut (.sha512 0)) _ rfl (.tag "v1") (by decide)
  have hread : manifest indexCodec
      ⟨putAll [⟨⟨mediaTypeImageIndex, .sha512 0, 80⟩, none, []⟩]
        (canonical indexCodec mediaTypeImageIndex 0) ["v1"],
        writeBlob indexCodec (writeBlob indexCodec (fun _ => none) (.sha512 0) 0) (.sha256 0) 0⟩
      (.tag "v1") = some (.sha256 0, 0) := by
    decide
  cases hread.symm.trans htag

end K3sm.Registry.Put
