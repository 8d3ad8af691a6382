import K3sm.Registry.Manifest
import K3sm.Registry.RowRecord

/-!
# What the row writes do to the rows

A write changes index.json in one rename, so a write that stopped anywhere has left
the old rows or the changed ones.  The rows it leaves are of digests and media types
that were there before, apart from the row a PUT writes.
-/

namespace K3sm.Registry.RowRecord

open K3sm.Core List

variable {desc : Descriptor} {rows changed : List Row} {row : Row} {tag : String} {write : Write}

theorem updateIndex_stops_cases {env : Env} {files left : Files}
    (hleft : left ∈ (updateIndex env files write).stops files) :
    left.index = files.index ∨ ∃ rows changed, files.index = some rows ∧
      write.change rows = some changed ∧ left.index = some changed := by
  unfold updateIndex at hleft
  split at hleft
  case h_1 => exact .inl (by rw [Script.mem_stops_nil.1 hleft])
  rename_i rows hindex
  split at hleft
  case h_1 => exact .inl (by rw [Script.mem_stops_nil.1 hleft])
  rename_i changed hchange
  rcases writeIndex_stops_index hleft with hsame | hnew
  · exact .inl hsame
  · exact .inr ⟨rows, changed, hindex, hchange, hnew⟩

theorem updateIndex_complete {env : Env} {files : Files} {stop : ℕ}
    (hindex : files.index = some rows) (hchange : write.change rows = some changed)
    (hsize : env.indexLen changed ≤ maxIndexLen)
    (hstop : (updateIndex env files write).length ≤ stop) :
    ((updateIndex env files write).stopAfter stop files).index = some changed := by
  simp only [updateIndex, hindex, hchange] at hstop ⊢
  rcases writeIndex_cases env files changed rows.length with
    ⟨hlong, -⟩ | hscript | ⟨count, hscript | hscript⟩
  · exact absurd hlong (not_lt.2 hsize)
  all_goals
    rw [hscript] at hstop ⊢
    simp only [renameIndex, writeRowCount, Script.stopAfter_replaceFile,
      Script.stopAfter_replaceFile_replaceFile]
    simp only [renameIndex, writeRowCount, Script.replaceFile, length_append,
      length_cons, length_nil] at hstop
  · rw [if_neg (by omega)]
  · rw [if_neg (by omega), if_neg (by omega)]
  · rw [if_neg (by omega), if_neg (by omega)]

theorem initLocked_finish_rows (env : Env) (files : Files) :
    ((initLocked env files).finish files).index.getD [] = files.index.getD [] := by
  have hstops := Script.finish_mem_stops (initLocked env files) files
  unfold initLocked at hstops ⊢
  split at hstops
  case h_1 => rw [Script.mem_stops_nil.1 hstops]
  rename_i hindex
  rcases writeIndex_stops_index hstops with hsame | hempty
  · rw [hsame]
  · rw [hempty, hindex]
    rfl

def Write.Puts (write : Write) (desc : Descriptor) : Prop :=
  (∃ tag, write = .putTagged desc tag) ∨ write = .putUntagged desc

theorem putTagged_changed (hchange : (Write.putTagged desc tag).change rows = some changed) :
    changed = (dropTag rows tag).filter (fun row => !(row.digest == desc.digest && !row.tagged)) ++
      [tagRow desc tag] := by
  simp only [Write.change, putTagged] at hchange
  split at hchange <;> split at hchange <;> simp_all

theorem putTagged_unchanged (hchange : (Write.putTagged desc tag).change rows = none) :
    ∃ row ∈ rows, row.digest = desc.digest ∧ row.mediaType = desc.mediaType := by
  simp only [Write.change, putTagged] at hchange
  split at hchange
  case isFalse => simp at hchange
  rename_i hany
  simp only [any_eq_true, Bool.and_eq_true, beq_iff_eq] at hany
  obtain ⟨row, hrow, ⟨-, hdigest⟩, hmedia⟩ := hany
  exact ⟨row, hrow, hdigest, hmedia⟩

theorem putUntagged_changed (hchange : (Write.putUntagged desc).change rows = some changed) :
    changed = rows ++ [{ desc with refName := none, annotations := [] }] := by
  simp only [Write.change, putUntagged] at hchange
  split at hchange <;> split at hchange <;> simp_all

theorem putUntagged_unchanged (hchange : (Write.putUntagged desc).change rows = none) :
    ∃ row ∈ rows, row.digest = desc.digest := by
  simp only [Write.change, putUntagged] at hchange
  split at hchange
  case isTrue hany => simpa using hany
  case isFalse => simp at hchange

def HasKind (rows : List Row) (row : Row) : Prop :=
  ∃ old ∈ rows, old.digest = row.digest ∧ old.mediaType = row.mediaType

theorem HasKind.of_mem (hrow : row ∈ rows) : HasKind rows row :=
  ⟨row, hrow, rfl, rfl⟩

theorem hasKind_dropTag (hrow : row ∈ dropTag rows tag) : HasKind rows row := by
  unfold dropTag at hrow
  split at hrow
  · exact .of_mem hrow
  rename_i index _
  split at hrow
  · exact .of_mem hrow
  rename_i old hold
  split at hrow
  · exact .of_mem (mem_of_mem_eraseIdx hrow)
  rcases mem_or_eq_of_mem_set hrow with hrow | rfl
  · exact .of_mem hrow
  · exact ⟨old, mem_of_getElem? hold, rfl, rfl⟩

theorem hasKind_change (hchange : write.change rows = some changed) (hrow : row ∈ changed) :
    HasKind rows row ∨ ∃ desc : Descriptor, row.digest = desc.digest ∧
      row.mediaType = desc.mediaType ∧ write.Puts desc := by
  cases write with
  | putTagged desc tag =>
    rw [putTagged_changed hchange] at hrow
    rcases mem_append.1 hrow with hrow | hrow
    · exact .inl (hasKind_dropTag (mem_of_mem_filter hrow))
    · rw [mem_singleton.1 hrow]
      exact .inr ⟨desc, rfl, rfl, .inl ⟨tag, rfl⟩⟩
  | putUntagged desc =>
    rw [putUntagged_changed hchange] at hrow
    rcases mem_append.1 hrow with hrow | hrow
    · exact .inl (.of_mem hrow)
    · rw [mem_singleton.1 hrow]
      exact .inr ⟨desc, rfl, rfl, .inr rfl⟩
  | deleteTag tag keep =>
    left
    simp only [Write.change, deleteTag] at hchange
    split at hchange
    · cases hchange
    unfold deleteTagRow at hchange
    split at hchange
    · cases hchange
    rename_i old hold
    dsimp only at hchange
    split at hchange
    · cases hchange
      exact .of_mem (mem_of_mem_eraseIdx hrow)
    split at hchange
    · cases hchange
    · cases hchange
      rcases mem_append.1 hrow with hrow | hrow
      · exact .of_mem (mem_of_mem_eraseIdx hrow)
      · rw [mem_singleton.1 hrow]
        exact ⟨old, mem_of_getElem? hold, rfl, rfl⟩
    · cases hchange
      exact .of_mem (mem_of_mem_eraseIdx hrow)
  | deleteDigest digest =>
    left
    simp only [Write.change, deleteDigest] at hchange
    split at hchange
    · cases hchange
      exact .of_mem (mem_of_mem_filter hrow)
    · cases hchange

theorem perm_cons_eraseIdx {Element : Type*} {list : List Element} {index : ℕ}
    {element : Element} (helement : list[index]? = some element) :
    list.Perm (element :: list.eraseIdx index) := by
  obtain ⟨hlt, rfl⟩ := List.getElem?_eq_some_iff.1 helement
  exact (getElem_cons_eraseIdx_perm hlt).symm

/-- The digest has a row of the kind, an index or an image manifest. -/
def HasRow (rows : List Row) (digest : Digest) (index : Bool) : Prop :=
  ∃ row ∈ rows, row.digest = digest ∧ isIndexType row.mediaType = index

def KindsAgree (rows : List Row) : Prop :=
  ∀ row ∈ rows, ∀ other ∈ rows, row.digest = other.digest →
    isIndexType row.mediaType = isIndexType other.mediaType

theorem HasRow.dropTag {digest : Digest} {index : Bool} (hrow : HasRow rows digest index)
    (hkinds : KindsAgree rows) : HasRow (dropTag rows tag) digest index := by
  obtain ⟨row, hmem, hdigest, hkind⟩ := hrow
  unfold Registry.dropTag
  split
  · exact ⟨row, hmem, hdigest, hkind⟩
  rename_i position hfind
  split
  · exact ⟨row, hmem, hdigest, hkind⟩
  rename_i old hold
  have hperm := perm_cons_eraseIdx hold
  split
  case isFalse =>
    have hlt := (List.getElem?_eq_some_iff.1 hold).1
    have hset := (set_perm_cons_eraseIdx hlt (untaggedRow old))
    rcases mem_cons.1 (hperm.mem_iff.1 hmem) with rfl | hrest
    · exact ⟨untaggedRow row, hset.mem_iff.2 mem_cons_self, hdigest, hkind⟩
    · exact ⟨row, hset.mem_iff.2 (mem_cons_of_mem _ hrest), hdigest, hkind⟩
  rename_i hany
  rcases mem_cons.1 (hperm.mem_iff.1 hmem) with rfl | hrest
  · -- the row goes, since the digest has another
    simp only [any_eq_true, Bool.and_eq_true, beq_iff_eq] at hany
    obtain ⟨other, hother, hsame, huntagged⟩ := hany
    have htagged : row.hasTag tag = true := by
      obtain ⟨hlt, hget⟩ := List.getElem?_eq_some_iff.1 hold
      have hholds := (List.findIdx?_eq_some_iff_getElem.1 hfind).2.1
      rwa [hget] at hholds
    have hne : other ≠ row := by
      rintro rfl
      simp [htagged] at huntagged
    have hrest := (mem_cons.1 (hperm.mem_iff.1 hother)).resolve_left hne
    exact ⟨other, hrest, hsame.trans hdigest, (hkinds other hother row hmem hsame).trans hkind⟩
  · exact ⟨row, hrest, hdigest, hkind⟩

theorem HasRow.change {digest : Digest} {index : Bool} (hrow : HasRow rows digest index)
    (hkinds : KindsAgree rows) (hdesc : ∀ row ∈ rows, row.digest = desc.digest →
      isIndexType row.mediaType = isIndexType desc.mediaType) (hputs : write.Puts desc)
    (hchange : write.change rows = some changed) : HasRow changed digest index := by
  obtain ⟨row, hmem, hdigest, hkind⟩ := hrow
  rcases hputs with ⟨tag, rfl⟩ | rfl
  · rw [putTagged_changed hchange]
    by_cases hsame : digest = desc.digest
    · refine ⟨tagRow desc tag, mem_append_right _ mem_cons_self, hsame.symm, ?_⟩
      exact (hdesc row hmem (hdigest.trans hsame)).symm.trans hkind
    · have hdropped : HasRow (Registry.dropTag rows tag) digest index :=
        HasRow.dropTag ⟨row, hmem, hdigest, hkind⟩ hkinds
      obtain ⟨left, hleft, hdigest', hkind'⟩ := hdropped
      refine ⟨left, mem_append_left _ (mem_filter.2 ⟨hleft, ?_⟩), hdigest', hkind'⟩
      have hne : left.digest ≠ desc.digest := fun heq => hsame (hdigest'.symm.trans heq)
      simp [hne]
  · rw [putUntagged_changed hchange]
    exact ⟨row, mem_append_left _ hmem, hdigest, hkind⟩

theorem hasRow_changed (hputs : write.Puts desc) (hchange : write.change rows = some changed) :
    HasRow changed desc.digest (isIndexType desc.mediaType) := by
  rcases hputs with ⟨tag, rfl⟩ | rfl
  · rw [putTagged_changed hchange]
    exact ⟨tagRow desc tag, mem_append_right _ mem_cons_self, rfl, rfl⟩
  · rw [putUntagged_changed hchange]
    exact ⟨{ desc with refName := none, annotations := [] },
      mem_append_right _ mem_cons_self, rfl, rfl⟩

theorem hasRow_unchanged (hdesc : ∀ row ∈ rows, row.digest = desc.digest →
      isIndexType row.mediaType = isIndexType desc.mediaType) (hputs : write.Puts desc)
    (hchange : write.change rows = none) :
    HasRow rows desc.digest (isIndexType desc.mediaType) := by
  rcases hputs with ⟨tag, rfl⟩ | rfl
  · obtain ⟨row, hrow, hdigest, -⟩ := putTagged_unchanged hchange
    exact ⟨row, hrow, hdigest, hdesc row hrow hdigest⟩
  · obtain ⟨row, hrow, hdigest⟩ := putUntagged_unchanged hchange
    exact ⟨row, hrow, hdigest, hdesc row hrow hdigest⟩

end K3sm.Registry.RowRecord
