import K3sm.Registry.Sweep

/-!
# The shape of index.json

Two rows of an index never carry one tag, and two rows of one digest both carry a tag: a
digest has no row, one untagged row, or tagged rows only.  Both are facts about pairs of
rows, so a change that drops rows keeps them, and one that adds a row has to agree with
the rows that are left.
-/

namespace K3sm.Registry.RowShape

open List

/-- A write of index.json by the store. -/
inductive Change where
  | put (desc : Descriptor) (tag : String)
  | deleteTag (tag : String) (keep : Row → Option Bool)
  | deleteDigest (digest : Digest)
  | collect (plan : Gc.Plan)

/-- The rows after a change.  `PutManifestChecked` takes a reference without a tag for a PUT
by digest; a delete that fails leaves the rows. -/
def Change.apply (rows : List Row) : Change → List Row
  | .put desc tag => if tag ≠ "" then (putTagged rows desc tag).1 else (putUntagged rows desc).1
  | .deleteTag tag keep => (Registry.deleteTag rows tag keep).getD rows
  | .deleteDigest digest => (Registry.deleteDigest rows digest).getD rows
  | .collect plan => plan.remaining rows

def Agree (left right : Row) : Prop :=
  (left.refName = right.refName → left.refName = none) ∧
    (left.digest = right.digest → left.tagged = true ∧ right.tagged = true)

def Shaped (rows : List Row) : Prop := rows.Pairwise Agree

theorem Agree.symm {left right : Row} (hagree : Agree left right) : Agree right left := by
  refine ⟨?_, ?_⟩
  · intro hsame
    rw [hsame]
    exact hagree.1 hsame.symm
  · intro hsame
    exact (hagree.2 hsame.symm).symm

variable {desc : Descriptor} {digest : Digest} {rows left changed : List Row} {row : Row}
  {keep : Row → Option Bool} {tag : String}

theorem Shaped.perm (hshaped : Shaped rows) (hperm : rows.Perm left) : Shaped left :=
  (hperm.pairwise_iff Agree.symm).1 hshaped

theorem Shaped.sublist (hshaped : Shaped rows) (hsublist : left.Sublist rows) : Shaped left :=
  List.Pairwise.sublist hsublist hshaped

theorem Shaped.append (hshaped : Shaped rows) (hagree : ∀ other ∈ rows, Agree other row) :
    Shaped (rows ++ [row]) := by
  refine pairwise_append.2 ⟨hshaped, pairwise_singleton _ _, ?_⟩
  intro other hother any hany
  rw [mem_singleton.1 hany]
  exact hagree other hother

theorem Shaped.middle {right : List Row} (hshaped : Shaped (left ++ row :: right)) :
    ∀ other ∈ left ++ right, Agree row other :=
  (pairwise_cons.1 (hshaped.perm perm_middle)).1

theorem Shaped.replace {right : List Row} {new : Row} (hshaped : Shaped (left ++ row :: right))
    (hagree : ∀ other ∈ left ++ right, Agree new other) : Shaped (left ++ new :: right) := by
  have hrest := (pairwise_cons.1 (hshaped.perm perm_middle)).2
  exact Shaped.perm (pairwise_cons.2 ⟨hagree, hrest⟩) perm_middle.symm

theorem hasTag_iff (htag : tag ≠ "") : row.hasTag tag = true ↔ row.refName = some tag := by
  cases hname : row.refName with
  | none => simp [Row.hasTag, hname, htag.symm]
  | some name => simp [Row.hasTag, hname]

theorem findIdx_split {test : Row → Bool} {index : ℕ} (hfind : rows.findIdx? test = some index) :
    ∃ left old right, rows = left ++ old :: right ∧ test old = true ∧
      (∀ row ∈ left, test row = false) ∧ rows[index]? = some old ∧
      rows.eraseIdx index = left ++ right ∧
      ∀ new, rows.set index new = left ++ new :: right := by
  obtain ⟨hlt, htest, hbefore⟩ := List.findIdx?_eq_some_iff_getElem.1 hfind
  refine ⟨rows.take index, rows[index], rows.drop (index + 1), ?_, htest, ?_,
    List.getElem?_eq_getElem hlt, eraseIdx_eq_take_drop_succ .., ?_⟩
  · rw [getElem_cons_drop, take_append_drop]
  · intro row hrow
    obtain ⟨earlier, hearlier, rfl⟩ := mem_take_iff_getElem.1 hrow
    exact Bool.eq_false_iff.2 (hbefore earlier (lt_of_lt_of_le hearlier (min_le_left _ _)))
  · intro new
    rw [set_eq_take_append_cons_drop, if_pos hlt]

theorem dropTag_cases (rows : List Row) (tag : String) :
    (dropTag rows tag = rows ∧ ∀ row ∈ rows, row.hasTag tag = false) ∨
      ∃ left old right, rows = left ++ old :: right ∧ old.hasTag tag = true ∧
        (∀ row ∈ left, row.hasTag tag = false) ∧
        ((∃ other ∈ rows, other.digest = old.digest ∧ other.hasTag tag = false) ∧
            dropTag rows tag = left ++ right ∨
          (∀ other ∈ rows, other.digest = old.digest → other.hasTag tag = true) ∧
            dropTag rows tag = left ++ untaggedRow old :: right) := by
  unfold dropTag
  cases hfind : rows.findIdx? (·.hasTag tag) with
  | none =>
    exact .inl ⟨rfl, List.findIdx?_eq_none_iff.1 hfind⟩
  | some index =>
    obtain ⟨left, old, right, hrows, htag, hleft, hget, herase, hset⟩ := findIdx_split hfind
    refine .inr ⟨left, old, right, hrows, htag, hleft, ?_⟩
    simp only [hget, herase, hset]
    split
    case isTrue hany =>
        simp only [any_eq_true, Bool.and_eq_true, beq_iff_eq, Bool.not_eq_true'] at hany
        obtain ⟨other, hother, hdigest, hother'⟩ := hany
        exact .inl ⟨⟨other, hother, hdigest, hother'⟩, rfl⟩
    rename_i hany
    refine .inr ⟨?_, rfl⟩
    intro other hother hdigest
    cases htagged : other.hasTag tag with
    | true => rfl
    | false =>
      refine absurd (any_eq_true.2 ⟨other, hother, ?_⟩) hany
      simp [hdigest, htagged]

theorem Shaped.dropTag (hshaped : Shaped rows) (htag : tag ≠ "") :
    Shaped (dropTag rows tag) ∧ ∀ row ∈ dropTag rows tag, row.refName ≠ some tag := by
  rcases dropTag_cases rows tag with ⟨hsame, hnone⟩ | ⟨left, old, right, rfl, hold, -, hcases⟩
  · rw [hsame]
    refine ⟨hshaped, fun row hrow hname => ?_⟩
    rw [← hasTag_iff htag, hnone row hrow] at hname
    cases hname
  rw [hasTag_iff htag] at hold
  -- The tag was on this row alone.
  have hrest : ∀ row ∈ left ++ right, row.refName ≠ some tag := by
    intro row hrow hname
    have hnone := (hshaped.middle row hrow).1 (hold.trans hname.symm)
    rw [hold] at hnone
    cases hnone
  rcases hcases with ⟨_, herased⟩ | ⟨hlast, hset⟩
  · rw [herased]
    exact ⟨hshaped.sublist (List.Sublist.append_left (sublist_cons_self _ _) _), hrest⟩
  rw [hset]
  refine ⟨hshaped.replace ?_, ?_⟩
  · intro other hother
    refine ⟨fun _ => rfl, fun hdigest => ?_⟩
    -- No other row has the digest, since it would carry the tag.
    have hmem : other ∈ left ++ old :: right := by
      rw [perm_middle.mem_iff]
      exact mem_cons_of_mem _ hother
    have htagged := hlast other hmem hdigest.symm
    rw [hasTag_iff htag] at htagged
    exact absurd htagged (hrest other hother)
  · intro row hrow
    rcases mem_cons.1 (perm_middle.mem_iff.1 hrow) with rfl | hrow
    · exact (Option.some_ne_none tag).symm
    · exact hrest row hrow

theorem Shaped.putTagged (hshaped : Shaped rows) (htag : tag ≠ "") :
    Shaped (putTagged rows desc tag).1 := by
  unfold Registry.putTagged
  split
  case isTrue => exact hshaped
  obtain ⟨hdropped, hnone⟩ := hshaped.dropTag htag
  refine (hdropped.sublist filter_sublist).append ?_
  intro other hother
  obtain ⟨hmem, hkept⟩ := mem_filter.1 hother
  refine ⟨fun hname => absurd hname (hnone other hmem), fun hdigest => ⟨?_, rfl⟩⟩
  have hsame : other.digest = desc.digest := hdigest
  simpa [hsame] using hkept

theorem Shaped.putUntagged (hshaped : Shaped rows) : Shaped (putUntagged rows desc).1 := by
  unfold Registry.putUntagged
  split
  case isTrue => exact hshaped
  rename_i hany
  refine hshaped.append ?_
  intro other hother
  refine ⟨fun hname => hname, fun hdigest => ?_⟩
  refine absurd (any_eq_true.2 ⟨other, hother, ?_⟩) hany
  exact beq_iff_eq.2 hdigest

theorem deleteTag_cases (hdelete : deleteTag rows tag keep = some changed) :
    ∃ left old right, rows = left ++ old :: right ∧ old.hasTag tag = true ∧
      ((∃ other ∈ left ++ right, other.digest = old.digest) ∧ changed = left ++ right ∨
        (∀ other ∈ left ++ right, other.digest ≠ old.digest) ∧
          (keep old = some true ∧ changed = left ++ right ++ [untaggedRow old] ∨
            keep old = some false ∧ changed = left ++ right)) := by
  unfold deleteTag at hdelete
  split at hdelete
  case h_1 => cases hdelete
  rename_i index hfind
  obtain ⟨left, old, right, hrows, htag, -, hget, herase, _⟩ := findIdx_split hfind
  refine ⟨left, old, right, hrows, htag, ?_⟩
  simp only [deleteTagRow, hget, herase] at hdelete
  split at hdelete
  case isTrue hany =>
      cases hdelete
      simp only [any_eq_true, beq_iff_eq] at hany
      exact .inl ⟨hany, rfl⟩
  rename_i hany
  refine .inr ⟨?_, ?_⟩
  · intro other hother hdigest
    exact hany (any_eq_true.2 ⟨other, hother, beq_iff_eq.2 hdigest⟩)
  split at hdelete
  case h_1 => cases hdelete
  case h_2 hkeep =>
      cases hdelete
      exact .inl ⟨hkeep, rfl⟩
  case h_3 hkeep =>
      cases hdelete
      exact .inr ⟨hkeep, rfl⟩

theorem Shaped.deleteTag (hshaped : Shaped rows)
    (hdelete : deleteTag rows tag keep = some changed) :
    Shaped changed := by
  obtain ⟨left, old, right, rfl, _, hcases⟩ := deleteTag_cases hdelete
  have hrest : Shaped (left ++ right) :=
    hshaped.sublist (List.Sublist.append_left (sublist_cons_self _ _) _)
  rcases hcases with ⟨_, rfl⟩ | ⟨halone, ⟨_, rfl⟩ | ⟨_, rfl⟩⟩
  · exact hrest
  · refine hrest.append ?_
    intro other hother
    exact ⟨fun hname => hname, fun hdigest => absurd hdigest (halone other hother)⟩
  · exact hrest

theorem Shaped.apply (hshaped : Shaped rows) (change : Change) : Shaped (change.apply rows) := by
  cases change with
  | put desc tag =>
    simp only [Change.apply]
    split
    case isTrue htag => exact hshaped.putTagged htag
    case isFalse => exact hshaped.putUntagged
  | deleteTag tag keep =>
    simp only [Change.apply]
    cases hdelete : Registry.deleteTag rows tag keep with
    | none => exact hshaped
    | some changed => exact hshaped.deleteTag hdelete
  | deleteDigest digest =>
    simp only [Change.apply, Registry.deleteDigest]
    split
    · exact hshaped.sublist filter_sublist
    · exact hshaped
  | collect plan => exact hshaped.sublist filter_sublist

def rowsAfter (changes : List Change) : List Row := changes.foldl Change.apply []

theorem shaped_of_changes (changes : List Change) : Shaped (rowsAfter changes) := by
  have hgeneral : ∀ rows, Shaped rows → Shaped (changes.foldl Change.apply rows) := by
    induction changes with
    | nil => exact fun rows hshaped => hshaped
    | cons change changes ih => exact fun rows hshaped => ih _ (hshaped.apply change)
  exact hgeneral [] List.Pairwise.nil

/-! ## What the shape says of a tag and of a digest -/

def rowsOf (rows : List Row) (digest : Digest) : List Row := rows.filter (·.digest = digest)

theorem mem_rowsOf : row ∈ rowsOf rows digest ↔ row ∈ rows ∧ row.digest = digest := by
  simp [rowsOf]

theorem Shaped.tag_once (hshaped : Shaped rows) (tag : String) :
    (rows.filter (·.refName = some tag)).length ≤ 1 := by
  have hfiltered : Shaped (rows.filter (·.refName = some tag)) :=
    hshaped.sublist filter_sublist
  have hnames : ∀ row ∈ rows.filter (·.refName = some tag), row.refName = some tag := by
    intro row hrow
    simpa using (mem_filter.1 hrow).2
  generalize rows.filter (·.refName = some tag) = tagged at hfiltered hnames
  match tagged with
  | [] => exact Nat.zero_le _
  | [_] => exact le_rfl
  | first :: second :: rest =>
    have hfirst := hnames first mem_cons_self
    have hsecond := hnames second (mem_cons_of_mem _ mem_cons_self)
    have hagree := (pairwise_cons.1 hfiltered).1 second mem_cons_self
    have hnone := hagree.1 (hfirst.trans hsecond.symm)
    rw [hfirst] at hnone
    cases hnone

theorem Shaped.digest_rows (hshaped : Shaped rows) (digest : Digest) :
    rowsOf rows digest = [] ∨ (∃ row, rowsOf rows digest = [row] ∧ row.tagged = false) ∨
      rowsOf rows digest ≠ [] ∧ ∀ row ∈ rowsOf rows digest, row.tagged = true := by
  have hfiltered : Shaped (rowsOf rows digest) := hshaped.sublist filter_sublist
  have hdigests : ∀ row ∈ rowsOf rows digest, row.digest = digest :=
    fun row hrow => (mem_rowsOf.1 hrow).2
  generalize rowsOf rows digest = own at hfiltered hdigests
  match own with
  | [] => exact .inl rfl
  | [row] =>
    cases htagged : row.tagged with
    | false => exact .inr (.inl ⟨row, rfl, htagged⟩)
    | true =>
      refine .inr (.inr ⟨cons_ne_nil _ _, ?_⟩)
      intro other hother
      rw [mem_singleton.1 hother]
      exact htagged
  | first :: second :: rest =>
    -- Each row has another beside it, and the two agree.
    have hfirst : ∀ row ∈ second :: rest, first.tagged = true ∧ row.tagged = true := by
      intro row hrow
      refine ((pairwise_cons.1 hfiltered).1 row hrow).2 ?_
      exact (hdigests first mem_cons_self).trans (hdigests row (mem_cons_of_mem _ hrow)).symm
    refine .inr (.inr ⟨cons_ne_nil _ _, ?_⟩)
    intro row hrow
    rcases mem_cons.1 hrow with rfl | hrest
    · exact (hfirst second mem_cons_self).1
    · exact (hfirst row hrest).2

theorem dropTag_keeps_digest (tag : String) (hrow : ∃ row ∈ rows, row.digest = digest) :
    ∃ row ∈ dropTag rows tag, row.digest = digest := by
  rcases dropTag_cases rows tag with ⟨hsame, _⟩ | ⟨left, old, right, rfl, hold, -, hcases⟩
  · rwa [hsame]
  obtain ⟨row, hmem, hdigest⟩ := hrow
  rcases hcases with ⟨⟨other, hother, hsame, huntagged⟩, herased⟩ | ⟨_, hset⟩
  · rw [herased]
    rcases mem_cons.1 (perm_middle.mem_iff.1 hmem) with rfl | hrest
    · rcases mem_cons.1 (perm_middle.mem_iff.1 hother) with rfl | hrest
      · rw [hold] at huntagged
        cases huntagged
      · exact ⟨other, hrest, hsame.trans hdigest⟩
    · exact ⟨row, hrest, hdigest⟩
  · rw [hset]
    rcases mem_cons.1 (perm_middle.mem_iff.1 hmem) with rfl | hrest
    · exact ⟨untaggedRow row, perm_middle.mem_iff.2 mem_cons_self, hdigest⟩
    · exact ⟨row, perm_middle.mem_iff.2 (mem_cons_of_mem _ hrest), hdigest⟩

theorem putTagged_keeps_digest (hrow : ∃ row ∈ rows, row.digest = digest) :
    ∃ row ∈ (putTagged rows desc tag).1, row.digest = digest := by
  unfold putTagged
  split
  case isTrue => exact hrow
  by_cases hsame : digest = desc.digest
  · exact ⟨tagRow desc tag, mem_append_right _ mem_cons_self, hsame.symm⟩
  obtain ⟨row, hmem, hdigest⟩ := dropTag_keeps_digest tag hrow
  refine ⟨row, mem_append_left _ (mem_filter.2 ⟨hmem, ?_⟩), hdigest⟩
  simp [hdigest, hsame]

theorem deleteTag_keeps_digest (hdelete : deleteTag rows tag keep = some changed)
    (hkeep : ∀ row ∈ rows, row.hasTag tag = true → keep row ≠ some false)
    (hrow : ∃ row ∈ rows, row.digest = digest) : ∃ row ∈ changed, row.digest = digest := by
  obtain ⟨left, old, right, rfl, hold, hcases⟩ := deleteTag_cases hdelete
  obtain ⟨row, hmem, hdigest⟩ := hrow
  have hmiddle : old ∈ left ++ old :: right :=
    perm_middle.mem_iff.2 mem_cons_self
  rcases hcases with ⟨⟨other, hother, hsame⟩, rfl⟩ | ⟨_, ⟨_, rfl⟩ | ⟨hfalse, _⟩⟩
  · rcases mem_cons.1 (perm_middle.mem_iff.1 hmem) with rfl | hrest
    · exact ⟨other, hother, hsame.trans hdigest⟩
    · exact ⟨row, hrest, hdigest⟩
  · rcases mem_cons.1 (perm_middle.mem_iff.1 hmem) with rfl | hrest
    · exact ⟨untaggedRow row, mem_append_right _ mem_cons_self, hdigest⟩
    · exact ⟨row, mem_append_left _ hrest, hdigest⟩
  · exact absurd hfalse (hkeep old hmiddle hold)

theorem rowsOf_dropTag (hother : ∀ row ∈ rows, row.hasTag tag = true → row.digest ≠ digest) :
    rowsOf (dropTag rows tag) digest = rowsOf rows digest := by
  rcases dropTag_cases rows tag with ⟨hsame, _⟩ | ⟨left, old, right, rfl, hold, -, hcases⟩
  · rw [hsame]
  have hne : old.digest ≠ digest :=
    hother old (perm_middle.mem_iff.2 mem_cons_self) hold
  have huntagged : (untaggedRow old).digest ≠ digest := hne
  rcases hcases with ⟨_, herased⟩ | ⟨_, hset⟩
  · rw [herased]
    simp [rowsOf, hne]
  · rw [hset]
    simp [rowsOf, hne, huntagged]

theorem rowsOf_putTagged (hnew : digest ≠ desc.digest)
    (hold : ∀ row ∈ rows, row.hasTag tag = true → row.digest ≠ digest) :
    rowsOf (putTagged rows desc tag).1 digest = rowsOf rows digest := by
  unfold putTagged
  split
  case isTrue => rfl
  have hrow : (tagRow desc tag).digest ≠ digest := hnew.symm
  have hkept : ∀ row : Row, row.digest = digest →
      (!(row.digest == desc.digest && !row.tagged)) = true := by
    intro row hdigest
    simp [hdigest, hnew]
  calc rowsOf ((dropTag rows tag).filter (fun row =>
          !(row.digest == desc.digest && !row.tagged)) ++ [tagRow desc tag]) digest
      = rowsOf ((dropTag rows tag).filter fun row =>
          !(row.digest == desc.digest && !row.tagged)) digest := by
        simp [rowsOf, hrow]
    _ = rowsOf (dropTag rows tag) digest := by
        rw [rowsOf, rowsOf, filter_filter]
        refine filter_congr ?_
        intro row _
        by_cases hdigest : row.digest = digest
        · rw [hkept row hdigest, Bool.and_true]
        · simp [hdigest]
    _ = rowsOf rows digest := rowsOf_dropTag hold

/-- After any changes of an empty index, no tag is on two rows and every digest has no row,
one untagged row, or tagged rows only; and no tagged PUT or tag delete that keeps the
manifest takes the last row of a digest. -/
theorem rows_shape_of_changes (changes : List Change) :
    (∀ tag, ((rowsAfter changes).filter (·.refName = some tag)).length ≤ 1) ∧
    (∀ digest, rowsOf (rowsAfter changes) digest = [] ∨
      (∃ row, rowsOf (rowsAfter changes) digest = [row] ∧ row.tagged = false) ∨
      rowsOf (rowsAfter changes) digest ≠ [] ∧
        ∀ row ∈ rowsOf (rowsAfter changes) digest, row.tagged = true) ∧
    (∀ desc tag, tag ≠ "" →
      (∀ digest, (∃ row ∈ rowsAfter changes, row.digest = digest) →
        ∃ row ∈ (Change.put desc tag).apply (rowsAfter changes), row.digest = digest) ∧
      ∀ digest, digest ≠ desc.digest →
        (∀ row ∈ rowsAfter changes, row.refName = some tag → row.digest ≠ digest) →
        rowsOf ((Change.put desc tag).apply (rowsAfter changes)) digest =
          rowsOf (rowsAfter changes) digest) ∧
    ∀ tag keep, (∀ row ∈ rowsAfter changes, row.hasTag tag = true → keep row ≠ some false) →
      ∀ digest, (∃ row ∈ rowsAfter changes, row.digest = digest) →
        ∃ row ∈ (Change.deleteTag tag keep).apply (rowsAfter changes), row.digest = digest := by
  have hshaped := shaped_of_changes changes
  refine ⟨hshaped.tag_once, hshaped.digest_rows, ?_, ?_⟩
  · intro desc tag htag
    simp only [Change.apply, if_pos htag]
    refine ⟨fun digest hrow => putTagged_keeps_digest hrow, fun digest hnew hold => ?_⟩
    exact rowsOf_putTagged hnew fun row hrow htagged =>
      hold row hrow ((hasTag_iff htag).1 htagged)
  · intro tag keep hkeep digest hrow
    simp only [Change.apply]
    cases hdelete : Registry.deleteTag (rowsAfter changes) tag keep with
    | none => exact hrow
    | some changed => exact deleteTag_keeps_digest hdelete hkeep hrow

end K3sm.Registry.RowShape
