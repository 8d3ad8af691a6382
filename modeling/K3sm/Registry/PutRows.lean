import K3sm.Core.Firsts
import K3sm.Registry.RowShape

/-!
# The rows after a series of tagged PUTs

One body is put under several tags.  A tag that has a row of the body already is left alone, any
other moves off the first row that carries it.
-/

namespace K3sm.Registry.Put

open K3sm.Core List
open K3sm.Registry.RowShape (hasTag_iff dropTag_cases rowsOf)

variable {rows : List Row} {desc : Descriptor} {tag other : String} {tags : List String}
  {view : Row → Bool}

def names (rows : List Row) (desc : Descriptor) (tag : String) : Bool :=
  rows.any fun row => row.hasTag tag && row.digest == desc.digest && row.mediaType == desc.mediaType

def putAll (rows : List Row) (desc : Descriptor) (tags : List String) : List Row :=
  tags.foldl (fun rows tag => (putTagged rows desc tag).1) rows

def moved (rows : List Row) (desc : Descriptor) (tags : List String) : Finset String :=
  tags.toFinset.filter fun tag => names rows desc tag = false

theorem mem_moved : tag ∈ moved rows desc tags ↔ tag ∈ tags ∧ names rows desc tag = false := by
  simp [moved]

theorem hasTag_eq (htag : tag ≠ "") (row : Row) : row.hasTag tag = (row.refName == some tag) := by
  rw [Bool.eq_iff_iff, hasTag_iff htag, beq_iff_eq]

theorem tagged_of_hasTag (htag : tag ≠ "") {row : Row} (hrow : row.hasTag tag = true) :
    row.tagged = true := by
  rw [Row.tagged, (hasTag_iff htag).1 hrow]
  rfl

theorem tagRow_hasTag (desc : Descriptor) (tag other : String) :
    (tagRow desc tag).hasTag other = (tag == other) := rfl

theorem untaggedRow_hasTag (htag : tag ≠ "") (row : Row) :
    (untaggedRow row).hasTag tag = false := by
  rw [hasTag_eq htag]
  rfl

theorem hasTag_of_first {first : Row} (hfirst : rows.find? (·.hasTag tag) = some first) :
    first.hasTag tag = true := by
  have hseen := List.find?_some hfirst
  exact hseen

theorem filter_dropTag
    (hview : ∀ old, rows.find? (·.hasTag tag) = some old →
      (∀ other ∈ rows, other.digest = old.digest → other.hasTag tag = true) →
      view (untaggedRow old) = false) :
    (dropTag rows tag).filter view = (rows.eraseP (·.hasTag tag)).filter view := by
  rcases dropTag_cases rows tag with ⟨hsame, hnone⟩ | ⟨left, old, right, hrows, hold, hleft, hcases⟩
  · rw [hsame, eraseP_of_forall_not fun row hrow => by simp [hnone row hrow]]
  have hfree : ∀ row ∈ left, ¬ row.hasTag tag = true := fun row hrow => by simp [hleft row hrow]
  have herase : rows.eraseP (·.hasTag tag) = left ++ right := by
    rw [hrows, eraseP_append_right _ hfree, eraseP_cons, hold]
    rfl
  rw [herase]
  rcases hcases with ⟨-, herased⟩ | ⟨hlast, hset⟩
  · rw [herased]
  have hfirst : rows.find? (·.hasTag tag) = some old := by
    rw [hrows, List.find?_append, List.find?_eq_none.2 hfree, List.find?_cons, hold]
    rfl
  rw [hset, filter_append, filter_append, filter_cons_of_neg (by simp [hview old hfirst hlast])]

theorem putTagged_of_names (hnames : names rows desc tag = true) :
    (putTagged rows desc tag).1 = rows := by
  unfold names at hnames
  rw [putTagged, if_pos hnames]

theorem putTagged_of_not_names (hnames : names rows desc tag = false) :
    (putTagged rows desc tag).1 = (dropTag rows tag).filter
      (fun row => !(row.digest == desc.digest && !row.tagged)) ++ [tagRow desc tag] := by
  unfold names at hnames
  rw [putTagged, if_neg (by simp [hnames])]

theorem filter_putTagged (hnames : names rows desc tag = false)
    (hview : ∀ old, rows.find? (·.hasTag tag) = some old →
      (∀ other ∈ rows, other.digest = old.digest → other.hasTag tag = true) →
      view (untaggedRow old) = false)
    (hown : ∀ row, view row = true → row.digest = desc.digest → row.tagged = true) :
    (putTagged rows desc tag).1.filter view =
      (rows.eraseP (·.hasTag tag)).filter view ++ [tagRow desc tag].filter view := by
  rw [putTagged_of_not_names hnames, filter_append, filter_filter, ← filter_dropTag hview]
  congr 1
  apply filter_congr
  intro row _
  cases hrow : view row with
  | false => rfl
  | true =>
    rw [Bool.true_and, Bool.not_eq_true', Bool.and_eq_false_iff]
    by_cases hdigest : row.digest = desc.digest
    · exact .inr (by simp [hown row hrow hdigest])
    · exact .inl (by simpa using hdigest)

theorem names_eq_any (rows : List Row) (desc : Descriptor) (tag : String) :
    names rows desc tag = (rows.filter (·.hasTag tag)).any fun row =>
      row.digest == desc.digest && row.mediaType == desc.mediaType := by
  rw [names, any_filter]
  simp only [Bool.and_assoc]

theorem tagRows_putTagged (htag : tag ≠ "") (hother : other ≠ "") :
    (putTagged rows desc tag).1.filter (·.hasTag other) =
      if other = tag ∧ names rows desc tag = false then
        (rows.filter (·.hasTag other)).tail ++ [tagRow desc other]
      else rows.filter (·.hasTag other) := by
  cases hnames : names rows desc tag with
  | true => simp [putTagged_of_names hnames]
  | false =>
    rw [filter_putTagged hnames (fun old _ _ => untaggedRow_hasTag hother old)
      (fun row hrow _ => tagged_of_hasTag hother hrow)]
    by_cases hsame : other = tag
    · subst hsame
      rw [if_pos ⟨rfl, rfl⟩, filter_cons_of_pos (by simp [tagRow_hasTag]), filter_nil]
      congr 1
      cases hfirst : rows.find? (·.hasTag other) with
      | none =>
        have hnone : rows.filter (·.hasTag other) = [] := by
          rw [filter_eq_nil_iff]
          exact List.find?_eq_none.1 hfirst
        rw [filter_eraseP_of_unseen (by simp [hfirst]), hnone]
        rfl
      | some first =>
        have hseen := hasTag_of_first hfirst
        rw [filter_eraseP_of_seen hfirst hseen]
        have hhead : (rows.filter (·.hasTag other)).head? = some first := by
          rw [List.head?_filter, hfirst]
        obtain ⟨rest, hrest⟩ := List.head?_eq_some_iff.1 hhead
        rw [hrest, eraseP_cons, hseen]
        rfl
    have hunseen : ∀ first, rows.find? (·.hasTag tag) = some first →
        first.hasTag other = false := by
      intro first hfirst
      rw [hasTag_eq hother, (hasTag_iff htag).1 (hasTag_of_first hfirst)]
      simpa using Ne.symm hsame
    rw [if_neg (fun hboth => hsame hboth.1), filter_eraseP_of_unseen hunseen,
      filter_cons_of_neg (by simpa [tagRow_hasTag] using Ne.symm hsame), filter_nil,
      append_nil]

theorem putUntagged_append (rows : List Row) (desc : Descriptor) :
    ∃ more, (putUntagged rows desc).1 = rows ++ more ∧ ∀ row ∈ more, row.refName = none := by
  unfold putUntagged
  split
  · exact ⟨[], (append_nil rows).symm, fun row hrow => absurd hrow not_mem_nil⟩
  · refine ⟨_, rfl, fun row hrow => ?_⟩
    rw [mem_singleton.1 hrow]

theorem putAll_append (rows : List Row) (desc : Descriptor) (tags : List String) (tag : String) :
    putAll rows desc (tags ++ [tag]) = (putTagged (putAll rows desc tags) desc tag).1 := by
  rw [putAll, foldl_append]
  rfl

theorem moved_append_of_names (hnames : names rows desc tag = true) :
    moved rows desc (tags ++ [tag]) = moved rows desc tags := by
  ext other
  simp only [mem_moved, mem_append, mem_singleton]
  constructor
  · rintro ⟨hmem | rfl, hfree⟩
    · exact ⟨hmem, hfree⟩
    · rw [hnames] at hfree
      cases hfree
  · exact fun ⟨hmem, hfree⟩ => ⟨.inl hmem, hfree⟩

theorem moved_append (hnames : names rows desc tag = false) :
    moved rows desc (tags ++ [tag]) = insert tag (moved rows desc tags) := by
  ext other
  simp only [mem_moved, Finset.mem_insert, mem_append, mem_singleton]
  constructor
  · rintro ⟨hmem | rfl, hfree⟩
    · exact .inr ⟨hmem, hfree⟩
    · exact .inl rfl
  · rintro (rfl | ⟨hmem, hfree⟩)
    · exact ⟨.inr rfl, hnames⟩
    · exact ⟨.inl hmem, hfree⟩

section

variable (htags : ∀ tag ∈ tags, tag ≠ "")

include htags

theorem tagRows_putAll (hother : other ≠ "") :
    (putAll rows desc tags).filter (·.hasTag other) =
      if other ∈ moved rows desc tags then (rows.filter (·.hasTag other)).tail ++
        [tagRow desc other]
      else rows.filter (·.hasTag other) := by
  induction tags using List.reverseRecOn with
  | nil => simp [putAll, moved]
  | append_singleton tags tag ih =>
    have ih := ih fun tag htag => htags tag (mem_append_left _ htag)
    have htag : tag ≠ "" := htags tag (mem_append_right _ (mem_singleton_self tag))
    rw [putAll_append, tagRows_putTagged htag hother]
    by_cases hsame : other = tag
    · subst hsame
      -- a tag that has been moved once has a row of the manifest from then on
      by_cases hbefore : other ∈ moved rows desc tags
      · have hnames : names (putAll rows desc tags) desc other = true := by
          rw [names_eq_any, ih, if_pos hbefore]
          simp [tagRow]
        have hafter : other ∈ moved rows desc (tags ++ [other]) := by
          rw [moved_append (mem_moved.1 hbefore).2]
          exact Finset.mem_insert_self _ _
        rw [if_neg (by simp [hnames]), ih, if_pos hbefore, if_pos hafter]
      rw [if_neg hbefore] at ih
      have hnames : names (putAll rows desc tags) desc other = names rows desc other := by
        rw [names_eq_any, ih, ← names_eq_any]
      rw [hnames, ih]
      cases hcase : names rows desc other with
      | true => rw [if_neg (by simp), moved_append_of_names hcase, if_neg hbefore]
      | false =>
        rw [if_pos ⟨rfl, rfl⟩, moved_append hcase, if_pos (Finset.mem_insert_self _ _)]
    · have hmoved : other ∈ moved rows desc (tags ++ [tag]) ↔ other ∈ moved rows desc tags := by
        simp only [mem_moved, mem_append, mem_singleton, hsame, or_false]
      rw [if_neg (fun hboth => hsame hboth.1), ih]
      simp only [hmoved]

theorem names_putAll (hother : other ≠ "") :
    names (putAll rows desc tags) desc other = false ↔
      names rows desc other = false ∧ other ∉ moved rows desc tags := by
  rw [names_eq_any, tagRows_putAll htags hother]
  split
  case isTrue hmoved => simp [tagRow, hmoved]
  rename_i hfree
  rw [← names_eq_any]
  simp [hfree]

theorem moved_append_of_named (htag : tag ≠ "")
    (hnames : names (putAll rows desc tags) desc tag = true) :
    moved rows desc (tags ++ [tag]) = moved rows desc tags := by
  cases hcase : names rows desc tag with
  | true => exact moved_append_of_names hcase
  | false =>
    have hin : tag ∈ moved rows desc tags := by
      by_contra hfree
      have hnone := (names_putAll htags htag).2 ⟨hcase, hfree⟩
      rw [hnames] at hnone
      cases hnone
    rw [moved_append hcase, Finset.insert_eq_of_mem hin]

theorem putAll_of_one {only : String} (hone : ∀ tag ∈ moved rows desc tags, tag = only) :
    putAll rows desc tags =
      if only ∈ moved rows desc tags then (putTagged rows desc only).1 else rows := by
  induction tags using List.reverseRecOn with
  | nil => simp [putAll, moved]
  | append_singleton tags tag ih =>
    have hbefore : ∀ tag ∈ tags, tag ≠ "" := fun tag htag => htags tag (mem_append_left _ htag)
    have htag : tag ≠ "" := htags tag (mem_append_right _ (mem_singleton_self tag))
    have ih := ih hbefore fun other hother => hone other <| by
      rw [mem_moved] at hother ⊢
      exact ⟨mem_append_left _ hother.1, hother.2⟩
    rw [putAll_append]
    cases hnames : names (putAll rows desc tags) desc tag with
    | true => rw [putTagged_of_names hnames, moved_append_of_named hbefore htag hnames, ih]
    | false =>
      obtain ⟨hcase, hfree⟩ := (names_putAll hbefore htag).1 hnames
      have hmem : tag ∈ moved rows desc (tags ++ [tag]) := by
        rw [moved_append hcase]
        exact Finset.mem_insert_self _ _
      have honly := hone tag hmem
      subst honly
      rw [if_pos hmem, ih, if_neg hfree]

theorem putAll_of_none (hnone : moved rows desc tags = ∅) : putAll rows desc tags = rows := by
  have hone : putAll rows desc tags =
      if "" ∈ moved rows desc tags then (putTagged rows desc "").1 else rows :=
    putAll_of_one htags (by simp [hnone])
  rwa [hnone, if_neg (Finset.notMem_empty _)] at hone

theorem first_putAll (hother : other ≠ "") (hfree : other ∉ moved rows desc tags) :
    (putAll rows desc tags).find? (·.hasTag other) = rows.find? (·.hasTag other) := by
  rw [← List.head?_filter, ← List.head?_filter, tagRows_putAll htags hother, if_neg hfree]

end

theorem first_dropFirsts (hother : other ≠ "") {labels : Finset String} (hfree : other ∉ labels) :
    (dropFirsts Row.refName labels rows).find? (·.hasTag other) = rows.find? (·.hasTag other) := by
  simp only [hasTag_eq hother]
  exact find?_dropFirsts hfree rows

/-- A view that shows no untagged row of the manifest, nor one that a tag of the series leaves
untagged, loses exactly the rows the tags moved off. -/
theorem filter_putAll (htags : ∀ tag ∈ tags, tag ≠ "")
    (hview : ∀ earlier tag later, tags = earlier ++ tag :: later →
      tag ∈ moved rows desc tags → tag ∉ moved rows desc earlier →
      ∀ old, rows.find? (·.hasTag tag) = some old →
      (∀ other ∈ putAll rows desc earlier, other.digest = old.digest → other.hasTag tag = true) →
      view (untaggedRow old) = false)
    (hown : ∀ row, view row = true → row.digest = desc.digest → row.tagged = true) :
    ∃ more, (putAll rows desc tags).filter view =
        (dropFirsts Row.refName (moved rows desc tags) rows).filter view ++ more ∧
      ∀ row ∈ more, ∃ tag, row = tagRow desc tag := by
  induction tags using List.reverseRecOn with
  | nil => exact ⟨[], by simp [putAll, moved]⟩
  | append_singleton tags tag ih =>
    have hbefore : ∀ tag ∈ tags, tag ≠ "" := fun tag htag => htags tag (mem_append_left _ htag)
    have htag : tag ≠ "" := htags tag (mem_append_right _ (mem_singleton_self tag))
    obtain ⟨more, hmore, hgood⟩ := ih hbefore fun earlier later rest hsplit hmoved hfree => by
      refine hview earlier later (rest ++ [tag]) (by rw [hsplit]; simp) ?_ hfree
      rw [mem_moved] at hmoved ⊢
      exact ⟨mem_append_left _ hmoved.1, hmoved.2⟩
    rw [putAll_append]
    cases hnames : names (putAll rows desc tags) desc tag with
    | true =>
      rw [putTagged_of_names hnames, moved_append_of_named hbefore htag hnames]
      exact ⟨more, hmore, hgood⟩
    | false =>
      obtain ⟨hcase, hfree⟩ := (names_putAll hbefore htag).1 hnames
      have hfirst := first_putAll hbefore htag hfree
      have hmem : tag ∈ moved rows desc (tags ++ [tag]) := by
        rw [moved_append hcase]
        exact Finset.mem_insert_self _ _
      rw [filter_putTagged hnames (fun old hold =>
        hview tags tag [] rfl hmem hfree old (hfirst ▸ hold))
        hown]
      refine ⟨more ++ [tagRow desc tag].filter view, ?_, ?_⟩
      · rw [← append_assoc]
        congr 1
        rw [moved_append hcase, dropFirsts_insert hfree]
        simp only [← hasTag_eq htag]
        have hdropped : (dropFirsts Row.refName (moved rows desc tags) rows).find? (·.hasTag tag) =
            rows.find? (·.hasTag tag) := first_dropFirsts htag hfree
        cases hold : rows.find? (·.hasTag tag) with
        | none =>
          rw [filter_eraseP_of_unseen (by simp [hfirst, hold]),
            filter_eraseP_of_unseen (by simp [hdropped, hold]), hmore]
        | some old =>
          cases hseen : view old with
          | true =>
            rw [filter_eraseP_of_seen (hfirst.trans hold) hseen,
              filter_eraseP_of_seen (hdropped.trans hold) hseen, hmore]
            refine eraseP_append_left (p := fun row : Row => row.hasTag tag)
              (hasTag_of_first hold) _ ?_
            exact mem_filter.2 ⟨mem_of_find?_eq_some (hdropped.trans hold), hseen⟩
          | false =>
            rw [filter_eraseP_of_unseen, filter_eraseP_of_unseen, hmore]
            · intro first hfound
              rw [hdropped, hold] at hfound
              cases hfound
              exact hseen
            · intro first hfound
              rw [hfirst, hold] at hfound
              cases hfound
              exact hseen
      · intro row hrow
        rcases mem_append.1 hrow with hbefore | hnew
        · exact hgood row hbefore
        · exact ⟨tag, mem_singleton.1 (mem_of_mem_filter hnew)⟩

end K3sm.Registry.Put
