import K3sm.Registry.PlanFailure

/-!
# A plan and the order of the rows

What the keep rules reach does not depend on the order of the rows, so neither does a plan
that is made.  Whether one is made does, for a missing body with a tagged and an untagged row:
the first of the two decides.
-/

namespace K3sm.Registry.Gc

open K3sm.Core

/-- The same store and index with the rows in another order. -/
def PlanInput.reorder (input : PlanInput) (rows : List Row) : PlanInput :=
  { input with rows := rows }

def Plans (input : PlanInput) (plan : Plan) : Prop := ∃ steps, makePlan input steps = .ok plan

def Fails (input : PlanInput) : Prop :=
  ∃ steps error, makePlan input steps = .error error ∧ error ≠ .outOfSteps

/-- The same plan: the rows to reap are a set, the rest is listed as the contents are. -/
structure Plan.Same (plan other : Plan) : Prop where
  rows : ∀ digest, digest ∈ plan.rows ↔ digest ∈ other.rows
  blobs : plan.blobs = other.blobs
  sessions : plan.sessions = other.sessions
  committed : plan.committed = other.committed
  temps : plan.temps = other.temps
  emptyRepo : plan.emptyRepo = other.emptyRepo

def SameOutcome (input other : PlanInput) : Prop :=
  (Fails input ∧ Fails other) ∨ ∃ plan plan', Plans input plan ∧ Plans other plan' ∧ plan.Same plan'

/-- Every order of the rows gives the same plan, or fails too. -/
def OrderFree (input : PlanInput) : Prop :=
  ∀ rows, rows.Perm input.rows → SameOutcome input (input.reorder rows) ∧
    ∀ row ∈ input.rows, row.tagged = true → Missing input row.digest → Fails (input.reorder rows)

/-- A missing body with a tagged row and an untagged one. -/
def Torn (input : PlanInput) (digest : Digest) : Prop :=
  Missing input digest ∧ (∃ row ∈ input.rows, row.digest = digest ∧ row.tagged = true) ∧
    ∃ row ∈ input.rows, row.digest = digest ∧ row.tagged = false

section Reorder

variable {input : PlanInput} {rows : List Row} {kept : Set Digest}

section

variable (hperm : rows.Perm input.rows)

include hperm

theorem hasRow_reorder : (input.reorder rows).hasRow = input.hasRow := by
  funext digest
  rw [Bool.eq_iff_iff, hasRow_iff, hasRow_iff]
  simp only [PlanInput.reorder, hperm.mem_iff]

theorem overCap_reorder : (input.reorder rows).overCap = input.overCap := by
  funext digest
  rw [PlanInput.overCap, hasRow_reorder hperm]
  rfl

theorem readable_reorder : Readable (input.reorder rows) = Readable input := by
  funext digest refs
  rw [Readable, overCap_reorder hperm]
  rfl

theorem unparsable_reorder : Unparsable (input.reorder rows) = Unparsable input := by
  funext digest named
  rw [Unparsable, overCap_reorder hperm, hasRow_reorder hperm]
  rfl

theorem unverifiable_reorder : Unverifiable (input.reorder rows) = Unverifiable input := by
  funext digest
  rw [Unverifiable, overCap_reorder hperm, hasRow_reorder hperm]
  rfl

theorem namesChild_reorder : NamesChild (input.reorder rows) = NamesChild input := by
  funext manifest child
  rw [NamesChild, readable_reorder hperm, NamesChild]

theorem namesScanned_reorder : NamesScanned (input.reorder rows) = NamesScanned input := by
  funext manifest digest
  rw [NamesScanned, unparsable_reorder hperm, NamesScanned]

theorem referenced_reorder : Referenced (input.reorder rows) = Referenced input := by
  funext kept blob
  unfold Referenced Names
  rw [readable_reorder hperm, namesChild_reorder hperm, namesScanned_reorder hperm]

end

theorem KeepClosed.reorder (hperm : rows.Perm input.rows)
    (hclosed : KeepClosed input (Unverifiable input) kept) :
    KeepClosed (input.reorder rows) (Unverifiable (input.reorder rows)) kept where
  outright row hrow := hclosed.outright row (hperm.mem_iff.1 hrow)
  child := by
    rw [namesChild_reorder hperm]
    exact hclosed.child
  scanned := by
    rw [namesScanned_reorder hperm, unverifiable_reorder hperm]
    exact hclosed.scanned
  referrer row hrow subject := by
    rw [referenced_reorder hperm]
    exact hclosed.referrer row (hperm.mem_iff.1 hrow) subject

theorem keepClosed_reorder (hperm : rows.Perm input.rows) :
    KeepClosed (input.reorder rows) (Unverifiable (input.reorder rows)) kept ↔
      KeepClosed input (Unverifiable input) kept :=
  ⟨@KeepClosed.reorder (input.reorder rows) input.rows kept hperm.symm, .reorder hperm⟩

theorem forced_reorder (hperm : rows.Perm input.rows) {digest : Digest} :
    Forced (input.reorder rows) digest ↔ Forced input digest := by
  simp only [Forced, keepClosed_reorder hperm]

theorem Fatal.reorder (hperm : rows.Perm input.rows) {digest : Digest}
    (hfatal : Fatal input digest) :
    Fatal (input.reorder rows) digest := by
  rw [Fatal, overCap_reorder hperm, unparsable_reorder hperm]
  exact hfatal

theorem Doomed.reorder (hperm : rows.Perm input.rows) (hdoomed : Doomed input) :
    Doomed (input.reorder rows) := by
  cases hdoomed with
  | row row hrow error hfate => exact .row row (hperm.mem_iff.2 hrow) error hfate
  | kept digest hforced hfatal =>
    exact .kept digest ((forced_reorder hperm).2 hforced) (hfatal.reorder hperm)
  | tagged row hrow hmissing hall =>
    exact .tagged row (hperm.mem_iff.2 hrow) hmissing fun other hother =>
      hall other (hperm.mem_iff.1 hother)

theorem Doomed.of_reorder (hperm : rows.Perm input.rows) (hdoomed : Doomed (input.reorder rows)) :
    Doomed input :=
  @Doomed.reorder (input.reorder rows) input.rows hperm.symm hdoomed

theorem WalkedInv.reapsRow_iff {walked : Walked} (hinv : WalkedInv input walked) {row : Row}
    (hrow : row ∈ input.rows) :
    walked.reapsRow row = true ↔ row.tagged = false ∧ row.digest ∉ walked.keepSet := by
  simp only [Walked.reapsRow, Bool.and_eq_true, Bool.not_eq_true', decide_eq_true_eq]
  constructor
  · rintro ⟨⟨huntagged, -⟩, hfree⟩
    exact ⟨huntagged, hfree⟩
  · rintro ⟨huntagged, hfree⟩
    have hgoes := (hinv.rows row hrow).resolve_left hfree
    exact ⟨⟨huntagged, hgoes.2.1⟩, hfree⟩

theorem plans_same (hperm : rows.Perm input.rows) {plan plan' : Plan} (hplan : Plans input plan)
    (hplan' : Plans (input.reorder rows) plan') : plan.Same plan' := by
  obtain ⟨steps, hplan⟩ := hplan
  obtain ⟨steps', hplan'⟩ := hplan'
  obtain ⟨walked, hwalk, rfl⟩ := makePlan_eq_ok hplan
  obtain ⟨walked', hwalk', rfl⟩ := makePlan_eq_ok hplan'
  have hinv := walkPlan_inv hwalk
  have hinv' := walkPlan_inv hwalk'
  have hkept : walked'.keepSet = walked.keepSet := by
    have hleast := hinv'.isLeast
    simp only [keepClosed_reorder hperm] at hleast
    exact hleast.unique hinv.isLeast
  have hreferenced : ∀ digest, digest ∈ walked'.walk.referenced ↔
      digest ∈ walked.walk.referenced := by
    intro digest
    rw [hinv'.referenced_iff, hinv.referenced_iff, hkept, referenced_reorder hperm]
  have hblobs : input.contents.blobs.filter (walked.reapsBlob input) =
      input.contents.blobs.filter (walked'.reapsBlob (input.reorder rows)) := by
    apply List.filter_congr
    intro blob _
    simp only [Walked.reapsBlob, hreferenced]
    rfl
  have hrows : (input.rows.filter walked.reapsRow).length =
      (rows.filter walked'.reapsRow).length := by
    have hsame : input.rows.filter walked.reapsRow = input.rows.filter walked'.reapsRow := by
      apply List.filter_congr
      intro row hrow
      rw [Bool.eq_iff_iff, hinv.reapsRow_iff hrow, hinv'.reapsRow_iff (hperm.mem_iff.2 hrow), hkept]
    rw [hsame]
    exact (hperm.symm.filter _).length_eq
  constructor
  case rows =>
    intro digest
    rw [hinv.mem_plan_rows, hinv'.mem_plan_rows, hkept]
    simp only [PlanInput.reorder, hperm.mem_iff]
  case blobs => exact congrArg (List.map Blob.digest) hblobs
  case sessions => rfl
  case committed => rfl
  case temps => rfl
  case emptyRepo =>
    simp only [Walked.plan]
    rw [hblobs, hrows, ← hperm.length_eq]
    rfl

end Reorder

section Outcomes

variable {input : PlanInput} {rows : List Row}

theorem fails_iff (hfinite : {digest | HasBody input digest}.Finite) :
    Fails input ↔ Doomed input ∨ ∃ digest, TaggedFirst input digest := by
  constructor
  · rintro ⟨steps, error, hplan, hsteps⟩
    exact fails_only hplan hsteps
  · intro hbad
    obtain ⟨steps, henough⟩ := makePlan_enough hfinite
    cases hplan : makePlan input steps with
    | ok plan => exact (no_plan_of_fails hbad hplan).elim
    | error error => exact ⟨steps, error, hplan, fun hout => henough (hout ▸ hplan)⟩

theorem finite_reorder (hfinite : {digest | HasBody input digest}.Finite) (rows : List Row) :
    {digest | HasBody (input.reorder rows) digest}.Finite :=
  hfinite

theorem Plans.not_fails {plan : Plan} (hplan : Plans input plan) : ¬ Fails input := by
  rintro ⟨steps, error, hfails, hsteps⟩
  obtain ⟨enough, hplan⟩ := hplan
  exact no_plan_of_fails (fails_only hfails hsteps) hplan

theorem plans_or_fails (hfinite : {digest | HasBody input digest}.Finite) :
    Fails input ∨ ∃ plan, Plans input plan := by
  obtain ⟨steps, henough⟩ := makePlan_enough hfinite
  cases hplan : makePlan input steps with
  | ok plan => exact .inr ⟨plan, steps, hplan⟩
  | error error => exact .inl ⟨steps, error, hplan, fun hout => henough (hout ▸ hplan)⟩

theorem TaggedFirst.doomed {digest : Digest} (hfirst : TaggedFirst input digest)
    (hwhole : ¬ Torn input digest) : Doomed input := by
  obtain ⟨hmissing, row, hrow, htagged⟩ := hfirst
  obtain ⟨hin, rfl⟩ := mem_of_firstRow hrow
  refine .tagged row hin hmissing ?_
  intro other hother hdigest
  by_contra huntagged
  exact hwhole ⟨hmissing, ⟨row, hin, rfl, htagged⟩, other, hother,
    hdigest, by simpa using huntagged⟩

theorem Torn.of_reorder (hperm : rows.Perm input.rows) {digest : Digest}
    (htorn : Torn (input.reorder rows) digest) : Torn input digest := by
  obtain ⟨hmissing, ⟨row, hrow, htagged⟩, other, hother, huntagged⟩ := htorn
  exact ⟨hmissing, ⟨row, hperm.mem_iff.1 hrow, htagged⟩, other, hperm.mem_iff.1 hother, huntagged⟩

theorem fails_reorder_iff (hfinite : {digest | HasBody input digest}.Finite)
    (hperm : rows.Perm input.rows) (hwhole : ∀ digest, ¬ Torn input digest) :
    Fails (input.reorder rows) ↔ Doomed input := by
  rw [fails_iff (finite_reorder hfinite rows)]
  constructor
  · rintro (hdoomed | ⟨digest, hfirst⟩)
    · exact hdoomed.of_reorder hperm
    · have hdoomed := hfirst.doomed fun htorn => hwhole digest (htorn.of_reorder hperm)
      exact hdoomed.of_reorder hperm
  · exact fun hdoomed => .inl (hdoomed.reorder hperm)

def untaggedFirst (rows : List Row) : List Row :=
  rows.filter (!·.tagged) ++ rows.filter (·.tagged)

theorem untaggedFirst_perm (rows : List Row) : (untaggedFirst rows).Perm rows := by
  have hperm := List.filter_append_perm (fun row : Row => !row.tagged) rows
  simpa [untaggedFirst] using hperm

theorem firstRow_untaggedFirst {digest : Digest} {row other : Row}
    (hfirst : firstRow (untaggedFirst rows) digest = some row) (htagged : row.tagged = true)
    (hother : other ∈ rows) (hdigest : other.digest = digest) : other.tagged = true := by
  by_contra huntagged
  have hmem : other ∈ rows.filter (!·.tagged) :=
    List.mem_filter.2 ⟨hother, by simpa using huntagged⟩
  obtain ⟨found, hfound⟩ := firstRow_isSome hmem hdigest
  have hsame : firstRow (untaggedFirst rows) digest = some found := by
    rw [firstRow, untaggedFirst, List.find?_append,
      show (rows.filter (!·.tagged)).find? _ = _ from hfound]
    rfl
  rw [hfirst] at hsame
  cases hsame
  have hout := (List.mem_filter.1 (mem_of_firstRow hfound).1).2
  simp [htagged] at hout

/-- The outcome is free of the order of the rows exactly when no missing body has both a tagged
and an untagged row, or the plan is doomed in every order. -/
theorem makePlan_order_free_iff (input : PlanInput)
    (hfinite : {digest | HasBody input digest}.Finite) :
    OrderFree input ↔ (∀ digest, ¬ Torn input digest) ∨ Doomed input := by
  constructor
  · intro hfree
    by_contra hcondition
    rw [not_or, not_forall_not] at hcondition
    obtain ⟨⟨digest, hmissing, ⟨row, hrow, hdigest, htagged⟩, -⟩, hdoomed⟩ := hcondition
    have hperm := untaggedFirst_perm input.rows
    have hfails := (hfree _ hperm).2 row hrow htagged (hdigest ▸ hmissing)
    rcases (fails_iff (finite_reorder hfinite _)).1 hfails with
      hdoomed' | ⟨other, hlost, first, hfirst, hfirstTagged⟩
    · exact hdoomed (hdoomed'.of_reorder hperm)
    obtain ⟨hin, rfl⟩ := mem_of_firstRow hfirst
    exact hdoomed (.tagged first (hperm.mem_iff.1 hin) hlost fun other hother hsame =>
      firstRow_untaggedFirst hfirst hfirstTagged hother hsame)
  rintro (hwhole | hdoomed) rows hperm
  · have hfails := fails_reorder_iff hfinite hperm hwhole
    have hhere : Fails input ↔ Doomed input := fails_reorder_iff hfinite (.refl _) hwhole
    constructor
    · by_cases hdoomed : Doomed input
      · exact .inl ⟨hhere.2 hdoomed, hfails.2 hdoomed⟩
      obtain ⟨plan, hplan⟩ := (plans_or_fails hfinite).resolve_left (hdoomed ∘ hhere.1)
      obtain ⟨plan', hplan'⟩ :=
        (plans_or_fails (finite_reorder hfinite rows)).resolve_left (hdoomed ∘ hfails.1)
      exact .inr ⟨plan, plan', hplan, hplan', plans_same hperm hplan hplan'⟩
    · intro row hrow htagged hmissing
      rw [hfails]
      refine .tagged row hrow hmissing ?_
      intro other hother hdigest
      by_contra huntagged
      exact hwhole row.digest ⟨hmissing, ⟨row, hrow, rfl, htagged⟩, other, hother, hdigest,
        by simpa using huntagged⟩
  · have hfails : Fails (input.reorder rows) :=
      (fails_iff (finite_reorder hfinite rows)).2 (.inl (hdoomed.reorder hperm))
    exact ⟨.inl ⟨(fails_iff hfinite).2 (.inl hdoomed), hfails⟩, fun _ _ _ _ => hfails⟩

end Outcomes

/-! ## The order that decides -/

/-- A store without a blob, whose index has a tagged row and then an untagged one of the same
digest. -/
def tornInput : PlanInput where
  rows := [tagRow ⟨mediaTypeImageManifest, .sha256 0, 1⟩ "v1",
    untaggedRow (tagRow ⟨mediaTypeImageManifest, .sha256 0, 1⟩ "v1")]
  contents :=
    { blobs := []
      temps := []
      sessions := []
      unknown := 0
      indexModTime := 0
      blobs_nodup := by decide
      blobs_parse := by decide }
  cutoff := 10
  retention := fun _ => 0
  artifactType := fun _ => .plain ""
  refsOf := fun _ => .error .blobUnknown

/-- In this order the plan fails, in the other it is made. -/
theorem tornInput_depends :
    ∃ rows, rows.Perm tornInput.rows ∧ {digest | HasBody tornInput digest}.Finite ∧
      Fails tornInput ∧ (∃ plan, Plans (tornInput.reorder rows) plan) ∧ ¬ OrderFree tornInput := by
  have hplans : ∃ plan, Plans (tornInput.reorder tornInput.rows.reverse) plan := ⟨_, 4, rfl⟩
  refine ⟨tornInput.rows.reverse, List.reverse_perm _, ?_, ⟨4, _, rfl, nofun⟩, hplans, ?_⟩
  · convert Set.finite_empty
    ext digest
    simp [HasBody, tornInput]
  · intro hfree
    obtain ⟨plan, hplan⟩ := hplans
    exact hplan.not_fails ((hfree _ (List.reverse_perm _)).2 _ List.mem_cons_self rfl rfl)

/-- An index with a tagged row and an untagged one, the image it names, untagged, and an image
that nothing names; `layer` is the first image's. -/
def wholeInput : PlanInput where
  rows := [tagRow ⟨mediaTypeImageIndex, .sha256 0, 1⟩ "v1",
    untaggedRow (tagRow ⟨mediaTypeImageIndex, .sha256 0, 1⟩ "v1"),
    untaggedRow (tagRow ⟨mediaTypeImageManifest, .sha256 1, 1⟩ "v1"),
    untaggedRow (tagRow ⟨mediaTypeImageManifest, .sha256 3, 1⟩ "v1")]
  contents :=
    { blobs := [⟨.sha256 0, 1, 0⟩, ⟨.sha256 1, 1, 0⟩, ⟨.sha256 2, 1, 0⟩, ⟨.sha256 3, 1, 0⟩]
      temps := []
      sessions := []
      unknown := 0
      indexModTime := 0
      blobs_nodup := by decide
      blobs_parse := by decide }
  cutoff := 10
  retention := fun _ => 0
  artifactType := fun _ => .plain ""
  refsOf := fun digest =>
    if digest = .sha256 0 then
      .ok { Refs.zero with
        schemaVersion := 2, mediaType := mediaTypeImageIndex
        manifests := some ⟨[⟨mediaTypeImageManifest, .sha256 1, 1⟩], 1⟩ }
    else if digest = .sha256 1 then
      .ok { Refs.zero with
        schemaVersion := 2, mediaType := mediaTypeImageManifest
        layers := some ⟨[⟨.plain "layer", .sha256 2, 1⟩], 1⟩ }
    else if digest = .sha256 2 then .error (.unparsed .notJson [])
    else if digest = .sha256 3 then
      .ok { Refs.zero with schemaVersion := 2, mediaType := mediaTypeImageManifest }
    else .error .blobUnknown

/-- Every order of the rows reaps the image that nothing names, and it alone. -/
theorem wholeInput_order_free :
    {digest | HasBody wholeInput digest}.Finite ∧ OrderFree wholeInput ∧
      ∃ plan, Plans wholeInput plan ∧ plan.rows = [.sha256 3] ∧ plan.blobs = [.sha256 3] := by
  have hfinite : {digest | HasBody wholeInput digest}.Finite := by
    refine (Set.toFinite {.sha256 0, .sha256 1, .sha256 2, .sha256 3}).subset fun digest hbody => ?_
    by_contra hout
    simp only [Set.mem_insert_iff, Set.mem_singleton_iff, not_or] at hout
    simp [HasBody, wholeInput, hout] at hbody
  refine ⟨hfinite, (makePlan_order_free_iff wholeInput hfinite).2 (.inl ?_), _, ⟨4, rfl⟩, rfl, rfl⟩
  rintro digest ⟨hmissing, ⟨row, hrow, rfl, -⟩, -⟩
  have hbody : ∀ row ∈ wholeInput.rows, ∃ refs, wholeInput.refsOf row.digest = .ok refs := by
    simp [wholeInput, tagRow, untaggedRow]
  obtain ⟨refs, hrefs⟩ := hbody row hrow
  rw [Missing, hrefs] at hmissing
  cases hmissing

end K3sm.Registry.Gc
