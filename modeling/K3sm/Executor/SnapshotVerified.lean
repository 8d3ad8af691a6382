import K3sm.Executor.SnapshotSave

/-!
# A final name means a verified snapshot

A save writes only files it made itself and that have no final name, as long as it finds
its own files under its staging names.  So nothing changes a file between its verification
and its rename, nor after.
-/

namespace K3sm.Executor

open K3sm.Core List Function

variable {formats : SnapshotFormats} {index other : ℕ} {request : SaveRequest}
variable {volume before after : SnapshotVolume} {file : ℕ}

/-- The save made the file, and no final name is on it. -/
structure SnapshotVolume.Mine (volume : SnapshotVolume) (index file : ℕ) : Prop where
  made : file < volume.fresh
  creator : volume.creator file = index
  unnamed : ∀ final ∈ volume.finals, final.file ≠ file

/-- A save may make files, write to its own while no final name is on them, and put a final
name on one of its own that holds what the name promises. -/
structure VolumeStep (formats : SnapshotFormats) (index : ℕ) (before after : SnapshotVolume) :
    Prop where
  fresh_le : before.fresh ≤ after.fresh
  creator_eq : ∀ file < before.fresh, after.creator file = before.creator file
  content_eq : ∀ file < before.fresh, ¬before.Mine index file →
    after.content file = before.content file
  finals : ∀ final ∈ after.finals, final ∈ before.finals ∨
    final.file < after.fresh ∧ after.creator final.file = index ∧ final.Holds formats after

/-- Behind every final name is what the name promises. -/
structure SnapshotVolume.Sealed (formats : SnapshotFormats) (volume : SnapshotVolume) : Prop where
  made : ∀ final ∈ volume.finals, final.file < volume.fresh
  holds : ∀ final ∈ volume.finals, final.Holds formats volume

theorem FinalSnapshot.Holds.congr {final : FinalSnapshot} (hholds : final.Holds formats before)
    (hcontent : after.content final.file = before.content final.file) :
    final.Holds formats after := by
  obtain ⟨image, hseen, hchecks, hcarries⟩ := hholds
  refine ⟨image, hseen, hchecks, ?_⟩
  rw [hcontent]
  exact hcarries

theorem volumeStep_refl : VolumeStep formats index volume volume where
  fresh_le := le_refl _
  creator_eq _ _ := rfl
  content_eq _ _ _ := rfl
  finals _ hfinal := .inl hfinal

theorem volumeStep_unlink (name : Filepath.Str) :
    VolumeStep formats index volume (volume.unlink name) where
  fresh_le := le_refl _
  creator_eq _ _ := rfl
  content_eq _ _ _ := rfl
  finals _ hfinal := .inl hfinal

theorem volumeStep_create (name : Filepath.Str) :
    VolumeStep formats index volume (volume.create index name) where
  fresh_le := Nat.le_succ _
  creator_eq _ hfile := update_of_ne (Nat.ne_of_lt hfile) _ _
  content_eq _ hfile _ := Disk.create_content_of_ne (Nat.ne_of_lt hfile)
  finals _ hfinal := .inl hfinal

variable {bytes image read : Bytes} {kind : DatastoreKind} {seen : List Bytes} {stage : SaveStage}
  {own archive size : ℕ}

theorem content_rewrite_of_ne (hother : other ≠ file) :
    (volume.rewrite file bytes).content other = volume.content other := by
  unfold SnapshotVolume.rewrite SnapshotVolume.content
  rw [Disk.write_content_of_ne hother, Disk.truncate_content_of_ne hother]

theorem content_append_of_ne (hother : other ≠ file) :
    (volume.append file bytes).content other = volume.content other :=
  Disk.write_content_of_ne hother bytes

theorem volumeStep_rewrite (hmine : volume.Mine index file) :
    VolumeStep formats index volume (volume.rewrite file bytes) where
  fresh_le := le_refl _
  creator_eq _ _ := rfl
  content_eq _ _ hother := content_rewrite_of_ne fun hsame => hother (hsame ▸ hmine)
  finals _ hfinal := .inl hfinal

theorem volumeStep_append (hmine : volume.Mine index file) :
    VolumeStep formats index volume (volume.append file bytes) where
  fresh_le := le_refl _
  creator_eq _ _ := rfl
  content_eq _ _ hother := content_append_of_ne fun hsame => hother (hsame ▸ hmine)
  finals _ hfinal := .inl hfinal

theorem content_rename {source : Filepath.Str} :
    (volume.rename source file request seen).content = volume.content :=
  Disk.rename_content _ _ _

theorem volumeStep_rename {source : Filepath.Str} (hmine : volume.Mine index file)
    (hholds : FinalSnapshot.Holds formats volume ⟨file, request, seen⟩) :
    VolumeStep formats index volume (volume.rename source file request seen) where
  fresh_le := le_refl _
  creator_eq _ _ := rfl
  content_eq _ _ _ := congrFun content_rename _
  finals final hfinal := by
    obtain hfinal | hfinal := mem_append.1 hfinal
    · exact .inl hfinal
    rw [mem_singleton] at hfinal
    subst hfinal
    exact .inr ⟨hmine.made, hmine.creator, hholds.congr (congrFun content_rename _)⟩

theorem mine_fresh (hsealed : volume.Sealed formats) (name : Filepath.Str) :
    (volume.create index name).Mine index volume.fresh where
  made := Nat.lt_succ_self _
  creator := update_self _ _ _
  unnamed final hfinal := Nat.ne_of_lt (hsealed.made final hfinal)

theorem SnapshotVolume.Mine.create (hmine : volume.Mine index file) (name : Filepath.Str) :
    (volume.create index name).Mine index file where
  made := Nat.lt_succ_of_lt hmine.made
  creator := by
    change update volume.creator volume.fresh index file = index
    rw [update_of_ne (Nat.ne_of_lt hmine.made), hmine.creator]
  unnamed := hmine.unnamed

theorem SnapshotVolume.Mine.frame (hmine : before.Mine other file)
    (hstep : VolumeStep formats index before after) (hother : other ≠ index) :
    after.Mine other file ∧ after.content file = before.content file := by
  have hforeign : ¬before.Mine index file := by
    intro hindex
    exact hother (hmine.creator.symm.trans hindex.creator)
  refine ⟨⟨?_, ?_, ?_⟩, hstep.content_eq file hmine.made hforeign⟩
  · exact Nat.lt_of_lt_of_le hmine.made hstep.fresh_le
  · rw [hstep.creator_eq file hmine.made, hmine.creator]
  intro final hfinal hsame
  obtain hold | ⟨-, hcreator, -⟩ := hstep.finals final hfinal
  · exact hmine.unnamed final hold hsame
  · rw [hsame, hstep.creator_eq file hmine.made, hmine.creator] at hcreator
    exact hother hcreator

theorem SnapshotVolume.Sealed.step (hsealed : before.Sealed formats)
    (hstep : VolumeStep formats index before after) : after.Sealed formats := by
  constructor
  · intro final hfinal
    obtain hold | ⟨hmade, -⟩ := hstep.finals final hfinal
    · exact Nat.lt_of_lt_of_le (hsealed.made final hold) hstep.fresh_le
    · exact hmade
  · intro final hfinal
    obtain hold | ⟨-, -, hholds⟩ := hstep.finals final hfinal
    · apply (hsealed.holds final hold).congr
      apply hstep.content_eq _ (hsealed.made final hold)
      exact fun hmine => hmine.unnamed final hold rfl
    · exact hholds

/-- The checks made so far read the image as it is, and accepted it. -/
structure Passed (formats : SnapshotFormats) (kind : DatastoreKind) (image : Bytes)
    (seen : List Bytes) : Prop where
  seen_eq : ∀ read ∈ seen, read = image
  accepted : ∀ check ∈ (formats.checks kind).take seen.length, check image = true

/-- No check of the kind is left to make. -/
structure Verified (formats : SnapshotFormats) (kind : DatastoreKind) (image : Bytes)
    (seen : List Bytes) : Prop extends Passed formats kind image seen where
  complete : (formats.checks kind).length ≤ seen.length

theorem Verified.checks (hverified : Verified formats kind image seen) :
    ∀ check ∈ formats.checks kind, check image = true := by
  have haccepted := hverified.accepted
  rwa [take_of_length_le hverified.complete] at haccepted

theorem Passed.append {check : Bytes → Bool} (hpassed : Passed formats kind image seen)
    (hcheck : (formats.checks kind)[seen.length]? = some check) (himage : check image = true) :
    Passed formats kind image (seen ++ [image]) := by
  obtain ⟨hseen, haccepted⟩ := hpassed
  constructor
  · intro read hread
    obtain hread | hread := mem_append.1 hread
    · exact hseen read hread
    · exact mem_singleton.1 hread
  · rw [length_append, length_singleton, take_add_one, hcheck]
    intro any hany
    obtain hany | hany := mem_append.1 hany
    · exact haccepted any hany
    · rw [mem_singleton.1 hany]
      exact himage

/-- What a save that stands at a stage has seen of its own file. -/
def Good (formats : SnapshotFormats) (volume : SnapshotVolume) (index : ℕ)
    (request : SaveRequest) : SaveStage → Prop
  | .fill own | .journal own | .journaling own => volume.Mine index own
  | .check own seen =>
    volume.Mine index own ∧ Passed formats request.kind (volume.content own) seen
  | .reading own file seen read =>
    file = own ∧ volume.Mine index own ∧
      Passed formats request.kind (volume.content own) seen ∧ read <+: volume.content own
  | .restrict own seen =>
    volume.Mine index own ∧ Verified formats request.kind (volume.content own) seen
  | .install own seen =>
    request.compress = false ∧ volume.Mine index own ∧
      Verified formats request.kind (volume.content own) seen
  | .pack own seen | .stat own seen | .clearArchive own _ seen | .createArchive own _ seen =>
    request.compress = true ∧ volume.Mine index own ∧
      Verified formats request.kind (volume.content own) seen
  | .packing plain _ archive seen read written =>
    request.compress = true ∧ volume.Mine index plain ∧
      Verified formats request.kind (volume.content plain) seen ∧
      read <+: volume.content plain ∧ volume.Mine index archive ∧
      volume.content archive = written ∧ plain ≠ archive
  | .reopen archive _ seen packed | .inflating archive _ _ seen packed _
  | .installArchive archive seen packed =>
    request.compress = true ∧ volume.Mine index archive ∧
      Verified formats request.kind packed seen ∧
      formats.inflate (volume.content archive) = some packed
  | _ => True

theorem Good.frame (hgood : Good formats before other request stage)
    (hstep : VolumeStep formats index before after) (hother : other ≠ index) :
    Good formats after other request stage := by
  cases stage with
  | fill own | journal own | journaling own =>
    exact (SnapshotVolume.Mine.frame hgood hstep hother).1
  | check own seen =>
    obtain ⟨hmine, hcontent⟩ := hgood.1.frame hstep hother
    exact ⟨hmine, hcontent ▸ hgood.2⟩
  | reading own file seen read =>
    obtain ⟨hfile, hmine, hpassed, hread⟩ := hgood
    obtain ⟨hmine, hcontent⟩ := hmine.frame hstep hother
    exact ⟨hfile, hmine, hcontent ▸ hpassed, hcontent ▸ hread⟩
  | restrict own seen =>
    obtain ⟨hmine, hcontent⟩ := hgood.1.frame hstep hother
    exact ⟨hmine, hcontent ▸ hgood.2⟩
  | install own seen | pack own seen | stat own seen | clearArchive own size seen
  | createArchive own size seen =>
    obtain ⟨hmine, hcontent⟩ := hgood.2.1.frame hstep hother
    exact ⟨hgood.1, hmine, hcontent ▸ hgood.2.2⟩
  | packing plain size archive seen read written =>
    obtain ⟨hcompress, hplain, hverified, hread, harchive, hwritten, hne⟩ := hgood
    obtain ⟨hplain, hsame⟩ := hplain.frame hstep hother
    obtain ⟨harchive, hcontent⟩ := harchive.frame hstep hother
    exact ⟨hcompress, hplain, hsame ▸ hverified, hsame ▸ hread, harchive,
      hcontent.trans hwritten, hne⟩
  | reopen archive size seen packed | inflating archive file size seen packed read
  | installArchive archive seen packed =>
    obtain ⟨hcompress, harchive, hverified, hinflate⟩ := hgood
    obtain ⟨harchive, hcontent⟩ := harchive.frame hstep hother
    exact ⟨hcompress, harchive, hverified, hcontent ▸ hinflate⟩
  | clear | create | discardArchive | discard | ended => trivial

/-- The step is one that a save may take, and leaves it at a stage it has earned. -/
def StepGood (formats : SnapshotFormats) (index : ℕ) (request : SaveRequest)
    (volume : SnapshotVolume) (result : SnapshotVolume × SaveStage) : Prop :=
  VolumeStep formats index volume result.1 ∧ Good formats result.1 index request result.2

theorem stepGood_stay (hgood : Good formats volume index request stage) :
    StepGood formats index request volume (volume, stage) :=
  ⟨volumeStep_refl, hgood⟩

theorem stepGood_discard : StepGood formats index request volume (volume, .discard) :=
  ⟨volumeStep_refl, trivial⟩

theorem stepGood_discardArchive : StepGood formats index request volume (volume, .discardArchive) :=
  ⟨volumeStep_refl, trivial⟩

theorem good_afterCheck (hmine : volume.Mine index own)
    (hpassed : Passed formats request.kind (volume.content own) seen) :
    Good formats volume index request (afterCheck formats request own seen) := by
  unfold afterCheck
  split
  case isTrue => exact ⟨hmine, hpassed⟩
  case isFalse hlength => exact ⟨hmine, hpassed, Nat.le_of_not_lt hlength⟩

theorem passed_nil : Passed formats kind image [] where
  seen_eq _ hread := nomatch hread
  accepted _ hcheck := nomatch hcheck

theorem readOn_within (count : ℕ) (hread : read <+: volume.content file) :
    volume.readOn file read count <+: volume.content file := by
  obtain ⟨rest, hrest⟩ := hread
  unfold SnapshotVolume.readOn
  rw [← hrest, drop_left, prefix_append_right_inj]
  exact take_prefix count rest

theorem eq_of_atEnd (hend : volume.atEnd file read = true) (hread : read <+: volume.content file) :
    read = volume.content file :=
  hread.eq_of_length_le (of_decide_eq_true hend)

theorem stepGood_create (hsealed : volume.Sealed formats)
    (hfinds : FindsOwn volume request .create) :
    StepGood formats index request volume (createStaging index request volume) := by
  unfold createStaging
  split
  case h_1 => exact ⟨volumeStep_create _, mine_fresh hsealed _⟩
  case h_3 => exact ⟨volumeStep_refl, trivial⟩
  rename_i file hfile hkind
  rw [if_neg (hfinds hkind file hfile)]
  exact stepGood_discard

theorem SnapshotVolume.Mine.rewrite (hmine : volume.Mine index file) :
    (volume.rewrite file bytes).Mine index file :=
  ⟨hmine.made, hmine.creator, hmine.unnamed⟩

theorem SnapshotVolume.Mine.append {written : ℕ} (hmine : volume.Mine index file) :
    (volume.append written bytes).Mine index file :=
  ⟨hmine.made, hmine.creator, hmine.unnamed⟩

theorem stepGood_fill (hmine : volume.Mine index own) (move : SaveMove) :
    StepGood formats index request volume (fillStaging formats request volume own move) := by
  cases move with
  | write bytes =>
    simp only [fillStaging]
    split
    · exact ⟨volumeStep_rewrite hmine, hmine.rewrite⟩
    · exact ⟨volumeStep_append hmine, hmine.append⟩
  | ok =>
    simp only [fillStaging]
    split
    · exact stepGood_stay hmine
    · exact stepGood_stay (good_afterCheck hmine passed_nil)
  | fail => exact stepGood_discard
  | read count => exact stepGood_stay hmine

theorem stepGood_journal (hsealed : volume.Sealed formats) (hmine : volume.Mine index own)
    (hfinds : volume.Finds request.tmp own) :
    StepGood formats index request volume (openJournal index request volume) := by
  unfold openJournal
  split
  case h_2 => exact ⟨volumeStep_create _, mine_fresh hsealed _⟩
  rename_i file hfile
  rw [hfinds file hfile]
  exact stepGood_stay hmine

theorem good_judge (hmine : volume.Mine index own)
    (hpassed : Passed formats request.kind (volume.content own) seen) :
    Good formats volume index request (judge formats request own seen (volume.content own)) := by
  unfold judge
  split
  case h_2 => trivial
  rename_i check hcheck
  split
  case isTrue haccepted => exact good_afterCheck hmine (hpassed.append hcheck haccepted)
  case isFalse => trivial

theorem stepGood_install (hgood : Good formats volume index request (.install own seen)) :
    StepGood formats index request volume (volume.rename request.tmp own request seen, .ended) := by
  obtain ⟨hplain, hmine, hverified⟩ := hgood
  refine ⟨volumeStep_rename hmine ⟨volume.content own, hverified.seen_eq, hverified.checks, ?_⟩,
    trivial⟩
  rw [hplain]
  rfl

theorem stepGood_installArchive {packed : Bytes}
    (hgood : Good formats volume index request (.installArchive archive seen packed)) :
    StepGood formats index request volume
      (volume.rename request.archive archive request seen, .discard) := by
  obtain ⟨hcompress, hmine, hverified, hinflate⟩ := hgood
  refine ⟨volumeStep_rename hmine ⟨packed, hverified.seen_eq, hverified.checks, ?_⟩, trivial⟩
  rw [hcompress]
  exact hinflate

theorem good_readBack {packed : Bytes}
    (hgood : Good formats volume index request (.installArchive archive seen packed)) :
    Good formats volume index request (readBack formats archive size seen packed read) := by
  unfold readBack
  split
  · split
    · exact hgood
    · trivial
  · trivial

theorem stepGood_createArchive {plain : ℕ} (hsealed : volume.Sealed formats)
    (hgood : Good formats volume index request (.createArchive plain size seen)) :
    StepGood formats index request volume (volume.create index request.archive,
      .packing plain size volume.fresh seen [] []) := by
  obtain ⟨hcompress, hmine, hverified⟩ := hgood
  have hsame : (volume.create index request.archive).content plain = volume.content plain :=
    Disk.create_content_of_ne (Nat.ne_of_lt hmine.made)
  have hempty : (volume.create index request.archive).content volume.fresh = [] :=
    update_self _ _ _
  exact ⟨volumeStep_create _, hcompress, hmine.create _, hsame ▸ hverified,
    nil_prefix, mine_fresh hsealed _, hempty, Nat.ne_of_lt hmine.made⟩

theorem stepGood_packing {plain : ℕ} {written : Bytes}
    (hgood : Good formats volume index request (.packing plain size archive seen read written))
    (move : SaveMove) :
    StepGood formats index request volume (packStep formats index request volume
      (.packing plain size archive seen read written) move) := by
  obtain ⟨hcompress, hplain, hverified, hread, harchive, hwritten, hne⟩ := hgood
  cases move with
  | read count =>
    exact stepGood_stay ⟨hcompress, hplain, hverified, readOn_within count hread, harchive,
      hwritten, hne⟩
  | write bytes =>
    have hsame : (volume.append archive bytes).content plain = volume.content plain :=
      content_append_of_ne hne
    have hmore : (volume.append archive bytes).content archive = written ++ bytes := by
      rw [← hwritten]
      exact Disk.write_content_self _ _ _
    exact ⟨volumeStep_append harchive, hcompress, hplain.append, hsame ▸ hverified,
      hsame ▸ hread, harchive.append, hmore, hne⟩
  | ok =>
    simp only [packStep]
    split
    case isTrue hclosed =>
      have hall := eq_of_atEnd hclosed.1 hread
      subst hall
      exact stepGood_stay ⟨hcompress, harchive, hverified, hwritten ▸ hclosed.2⟩
    case isFalse =>
      exact stepGood_stay ⟨hcompress, hplain, hverified, hread, harchive, hwritten, hne⟩
  | fail => exact stepGood_discardArchive

theorem stepGood_saveStep {move : SaveMove} (hsealed : volume.Sealed formats)
    (hgood : Good formats volume index request stage)
    (hfinds : move = .ok → FindsOwn volume request stage) :
    StepGood formats index request volume (saveStep formats index request volume stage move) := by
  cases stage with
  | clear =>
    cases move with
    | ok => exact ⟨volumeStep_unlink _, trivial⟩
    | fail => exact stepGood_stay trivial
    | write bytes | read count => exact stepGood_stay hgood
  | create =>
    cases move with
    | ok => exact stepGood_create hsealed (hfinds rfl)
    | fail =>
      simp only [saveStep]
      split
      · exact stepGood_discard
      · exact stepGood_stay trivial
    | write bytes | read count => exact stepGood_stay hgood
  | fill own => exact stepGood_fill hgood move
  | journal own =>
    cases move with
    | ok => exact stepGood_journal hsealed hgood (hfinds rfl)
    | fail => exact stepGood_discard
    | write bytes | read count => exact stepGood_stay hgood
  | journaling own =>
    cases move with
    | write bytes =>
      exact ⟨volumeStep_rewrite hgood, SnapshotVolume.Mine.rewrite hgood⟩
    | ok => exact stepGood_stay (good_afterCheck hgood passed_nil)
    | fail => exact stepGood_discard
    | read count => exact stepGood_stay hgood
  | check own seen =>
    cases move with
    | ok =>
      simp only [saveStep]
      split
      case h_1 file hfile =>
        exact stepGood_stay ⟨hfinds rfl file hfile, hgood.1, hgood.2, nil_prefix⟩
      case h_2 => exact stepGood_discard
    | fail => exact stepGood_discard
    | write bytes | read count => exact stepGood_stay hgood
  | reading own file seen read =>
    obtain ⟨hfile, hmine, hpassed, hread⟩ := hgood
    subst hfile
    cases move with
    | read count => exact stepGood_stay ⟨rfl, hmine, hpassed, readOn_within count hread⟩
    | ok =>
      simp only [saveStep]
      split
      case isFalse => exact stepGood_stay ⟨rfl, hmine, hpassed, hread⟩
      rename_i hend
      rw [eq_of_atEnd hend hread]
      exact stepGood_stay (good_judge hmine hpassed)
    | fail => exact stepGood_discard
    | write bytes => exact stepGood_stay ⟨rfl, hmine, hpassed, hread⟩
  | restrict own seen =>
    cases move with
    | ok =>
      simp only [saveStep]
      split
      case h_1 => exact stepGood_discard
      case h_2 hcompress => exact stepGood_stay ⟨hcompress, hgood⟩
      case h_3 hcompress => exact stepGood_stay ⟨hcompress, hgood⟩
    | fail => exact stepGood_discard
    | write bytes | read count => exact stepGood_stay hgood
  | install own seen =>
    cases move with
    | ok =>
      simp only [saveStep]
      split
      case h_2 => exact stepGood_discard
      rename_i file hfile
      rw [hfinds rfl file hfile]
      exact stepGood_install hgood
    | fail => exact stepGood_discard
    | write bytes | read count => exact stepGood_stay hgood
  | pack own seen =>
    cases move with
    | ok =>
      simp only [saveStep]
      split
      case h_2 => exact stepGood_discard
      rename_i file hfile
      rw [hfinds rfl file hfile]
      exact stepGood_stay hgood
    | fail => exact stepGood_discard
    | write bytes | read count => exact stepGood_stay hgood
  | stat plain seen =>
    cases move with
    | ok => exact stepGood_stay hgood
    | fail => exact stepGood_discard
    | write bytes | read count => exact stepGood_stay hgood
  | clearArchive plain size seen =>
    cases move with
    | ok =>
      obtain ⟨hcompress, hmine, hverified⟩ := hgood
      exact ⟨volumeStep_unlink _, hcompress, ⟨hmine.made, hmine.creator, hmine.unnamed⟩, hverified⟩
    | fail => exact stepGood_discard
    | write bytes | read count => exact stepGood_stay hgood
  | createArchive plain size seen =>
    cases move with
    | ok =>
      simp only [saveStep, packStep]
      split
      case h_1 => exact stepGood_createArchive hsealed hgood
      case h_2 => exact stepGood_discard
    | fail => exact stepGood_discard
    | write bytes | read count => exact stepGood_stay hgood
  | packing plain size archive seen read written => exact stepGood_packing hgood move
  | reopen archive size seen packed =>
    cases move with
    | ok =>
      simp only [saveStep, packStep]
      split
      case h_1 => exact stepGood_stay hgood
      case h_2 => exact stepGood_discardArchive
    | fail => exact stepGood_discardArchive
    | write bytes | read count => exact stepGood_stay hgood
  | inflating archive file size seen packed read =>
    cases move with
    | read count => exact stepGood_stay hgood
    | ok =>
      simp only [saveStep, packStep]
      split
      · exact stepGood_stay (good_readBack hgood)
      · exact stepGood_stay hgood
    | fail => exact stepGood_discardArchive
    | write bytes => exact stepGood_stay hgood
  | installArchive archive seen packed =>
    cases move with
    | ok =>
      simp only [saveStep, packStep]
      split
      case h_2 => exact stepGood_discardArchive
      rename_i file hfile
      rw [hfinds rfl file hfile]
      exact stepGood_installArchive hgood
    | fail => exact stepGood_discardArchive
    | write bytes | read count => exact stepGood_stay hgood
  | discardArchive | discard => exact ⟨volumeStep_unlink _, trivial⟩
  | ended => cases move <;> exact stepGood_stay hgood

namespace Saves

/-- The invariant of saves beside each other. -/
structure Sound (formats : SnapshotFormats) (saves : Saves) : Prop where
  named : saves.volume.Sealed formats
  each : ∀ index request stage, saves.saves[index]? = some (request, stage) →
    Good formats saves.volume index request stage

variable {saves : Saves}

theorem sound_start (disk : Disk Filepath.Str UInt8) (fresh : ℕ) :
    (start disk fresh).Sound formats where
  named := ⟨nofun, nofun⟩
  each := nofun

theorem Sound.move {stage : SaveStage} (hsound : saves.Sound formats)
    (hlength : index < saves.saves.length)
    (hstep : StepGood formats index request saves.volume (after, stage)) :
    Sound formats ⟨after, saves.saves.set index (request, stage)⟩ where
  named := hsound.named.step hstep.1
  each := by
    intro other saved reached hother
    by_cases hsame : other = index
    · subst hsame
      rw [List.getElem?_set_self hlength] at hother
      obtain ⟨rfl, rfl⟩ := Prod.mk.inj (Option.some.inj hother)
      exact hstep.2
    · rw [List.getElem?_set_ne (Ne.symm hsame)] at hother
      exact (hsound.each other saved reached hother).frame hstep.1 hsame

theorem Sound.removed (hsound : saves.Sound formats) (name : Filepath.Str) :
    Sound formats { saves with volume := saves.volume.unlink name } where
  named := ⟨hsound.named.made, hsound.named.holds⟩
  each := by
    intro index request stage hstage
    have hstep : VolumeStep formats (index + 1) saves.volume (saves.volume.unlink name) :=
      volumeStep_unlink name
    exact (hsound.each index request stage hstage).frame hstep (Nat.ne_of_lt (Nat.lt_succ_self _))

theorem Sound.next {event : SaveEvent} (hsound : saves.Sound formats)
    (hfinds : saves.EachFindsOwn event) : (saves.next formats event).Sound formats := by
  cases event with
  | begins request =>
    refine ⟨hsound.named, ?_⟩
    intro index saved stage hstage
    change (saves.saves ++ [(request, .clear)])[index]? = some (saved, stage) at hstage
    rw [List.getElem?_append] at hstage
    split at hstage
    · exact hsound.each index saved stage hstage
    rw [List.getElem?_singleton] at hstage
    split at hstage
    · obtain ⟨-, rfl⟩ := Prod.mk.inj (Option.some.inj hstage)
      trivial
    · cases hstage
  | turn index move =>
    simp only [Saves.next]
    split
    case h_2 => exact hsound
    rename_i request stage hstage
    have hlength := (List.getElem?_eq_some_iff.1 hstage).1
    apply hsound.move hlength
    apply stepGood_saveStep hsound.named (hsound.each index request stage hstage)
    intro hok
    subst hok
    exact hfinds (request, stage) hstage
  | killed index =>
    simp only [Saves.next]
    split
    case h_2 => exact hsound
    rename_i request stage hstage
    have hlength := (List.getElem?_eq_some_iff.1 hstage).1
    exact hsound.move hlength (stepGood_stay trivial)
  | removed name => exact hsound.removed name

/-- A snapshot under its final name is verified: in every history of saves, on any disk, in
which every save finds its own files under its staging names. -/
theorem final_name_means_verified (formats : SnapshotFormats) (disk : Disk Filepath.Str UInt8)
    (fresh : ℕ) (events : List SaveEvent)
    (hfinds : EachStep EachFindsOwn (next formats) (start disk fresh) events) :
    Always (AllVerified formats) (next formats) (start disk fresh) events := by
  have hsound : Always (Sound formats) (next formats) (start disk fresh) events :=
    always_of_eachStep (fun _ _ hsound hmeets => hsound.next hmeets) (sound_start disk fresh) hfinds
  exact hsound.mono fun _ hsound => hsound.named.holds

/-- A format in which the last byte of a complete image is zero, and an archive is its
member behind a mark. -/
def markedFormats : SnapshotFormats where
  checks
    | .kine => [fun image => image.getLast? == some 0]
    | .etcd => [fun image => image.getLast? == some 0, fun image => image.head? == some 1]
  inflate
    | 80 :: member => some member
    | _ => none

def succeeds (index : ℕ) (times : ℕ) : List SaveEvent :=
  List.replicate times (.turn index .ok)

def sideBySide : List SaveEvent :=
  List.flatten [
    [.begins ⟨.kine, "/a.db".toList, false⟩, .begins ⟨.etcd, "/b.zip".toList, true⟩],
    succeeds 0 2, succeeds 1 2, [.turn 0 (.write [7, 0]), .turn 1 (.write [1])],
    succeeds 0 2, [.turn 0 (.write [8, 0]), .turn 1 (.write [0])], succeeds 0 2, succeeds 1 2,
    [.turn 0 (.read 9), .turn 1 (.read 1), .turn 1 (.read 9)], succeeds 0 3, succeeds 1 2,
    [.turn 1 (.read 9)], succeeds 1 6, [.turn 1 (.read 9), .turn 1 (.write [80])],
    [.turn 1 (.write [1, 0])], succeeds 1 2, [.turn 1 (.read 9)], succeeds 1 3]

theorem sideBySide_verified :
    ((sideBySide.foldl (next markedFormats) (start .empty 0)).volume.finals.map
      (fun final => final.request.out)) = ["/a.db".toList, "/b.zip".toList] ∧
    Always (AllVerified markedFormats) (next markedFormats) (start .empty 0) sideBySide :=
  ⟨by decide +kernel, final_name_means_verified markedFormats .empty 0 sideBySide
    (by decide +kernel)⟩

/-- Two saves of one destination: the second clears the staging name and begins its own file
there while the first stands before its rename. -/
def sameDestination : List SaveEvent :=
  List.flatten [
    [.begins ⟨.etcd, "/s.db".toList, false⟩, .begins ⟨.etcd, "/s.db".toList, false⟩],
    succeeds 0 2, [.turn 0 (.write [1, 0])], succeeds 0 2, [.turn 0 (.read 9)],
    succeeds 0 2, [.turn 0 (.read 9)], succeeds 0 2, succeeds 1 2, [.turn 1 (.write [1])],
    succeeds 0 1]

/-- The first save installs the beginning of the second one's file, which no verification
read. -/
theorem sameDestination_installs_unverified :
    ¬Always (AllVerified markedFormats) (next markedFormats) (start .empty 0) sameDestination := by
  intro halways
  have hlast := halways.last
  have hnamed : (⟨1, ⟨.etcd, "/s.db".toList, false⟩, [[1, 0], [1, 0]]⟩ : FinalSnapshot) ∈
      (sameDestination.foldl (next markedFormats) (start .empty 0)).volume.finals := by
    decide +kernel
  have hcontent : (sameDestination.foldl (next markedFormats)
      (start .empty 0)).volume.content 1 ≠ [1, 0] := by decide +kernel
  generalize sameDestination.foldl (next markedFormats) (start .empty 0) = saves at *
  obtain ⟨image, hseen, -, hcarries⟩ := hlast _ hnamed
  exact hcontent (hcarries.trans (hseen [1, 0] mem_cons_self).symm)

end Saves

end K3sm.Executor
