import K3sm.Registry.KeepSet

/-!
# Planning again from less

A plan depends on a repository only through the rows that stay, the blobs it references and the
bodies it reads.  When a second listing agrees with the first on those, with rows the first plan
reaps left out, the second plan makes the same walk.
-/

namespace K3sm.Registry.Gc

open K3sm.Core List

def PlanInput.young (input : PlanInput) (digest : Digest) : Bool :=
  ((input.mtime digest).map fun time => !input.old time).getD false

/-- `second` agrees with `first` on everything the finished walk `done` of
`first` rests on.  Untagged rows outside `stays` are left out. -/
structure Agrees (first second : PlanInput) (stays : Digest → Bool) (done : Walk) :
    Prop where
  rows : second.rows = first.rows.filter fun row => row.tagged || stays row.digest
  kept : ∀ digest ∈ done.kept, stays digest = true
  refsOf : ∀ digest ∈ done.read, (digest ∈ done.referenced ∨ stays digest = true) →
    second.refsOf digest = first.refsOf digest
  mtime : ∀ digest, (digest ∈ done.referenced ∨ stays digest = true) →
    second.mtime digest = first.mtime digest
  size : ∀ digest, (digest ∈ done.referenced ∨ stays digest = true) →
    second.size digest = first.size digest
  young : ∀ digest, second.young digest = first.young digest
  cutoff : second.cutoff = first.cutoff
  retention : second.retention = first.retention
  artifactType : second.artifactType = first.artifactType

def Walk.withRead (walk : Walk) (read : List Digest) : Walk := { walk with read := read }

section WithRead

variable (walk : Walk) (read : List Digest)

@[simp]
theorem enqueue_withRead (item : Item) :
    (walk.withRead read).enqueue item = (walk.enqueue item).withRead read := by
  by_cases hqueued : item ∈ walk.queued <;> simp [Walk.enqueue, Walk.withRead, hqueued]

@[simp]
theorem refer_withRead (digests : List Digest) :
    (walk.withRead read).refer digests = (walk.refer digests).withRead read := rfl

@[simp]
theorem keep_withRead (digest : Digest) :
    (walk.withRead read).keep digest = (walk.keep digest).withRead read := rfl

@[simp]
theorem noteRead_withRead (digest : Digest) :
    (walk.withRead read).noteRead digest = walk.withRead (digest :: read) := rfl

theorem foldl_withRead {Value : Type} {step : Walk → Value → Walk}
    (hstep : ∀ walk value, step (walk.withRead read) value = (step walk value).withRead read)
    (values : List Value) :
    values.foldl step (walk.withRead read) = (values.foldl step walk).withRead read := by
  induction values generalizing walk with
  | nil => rfl
  | cons value values ih =>
    rw [foldl_cons, hstep, ih, foldl_cons]

@[simp]
theorem follow_withRead (refs : Refs) :
    (walk.withRead read).follow refs = (walk.follow refs).withRead read := by
  rw [Walk.follow, refer_withRead]
  apply foldl_withRead
  intro walk child
  rw [refer_withRead, enqueue_withRead]

end WithRead

section Agree

variable {first second : PlanInput} {stays : Digest → Bool} {done : Walk}

variable {digest : Digest} {left right : Gathered} {item : Item} {input : PlanInput} {row : Row}
  {after : Walk} {steps : ℕ}

theorem Agrees.hasRow (hagrees : Agrees first second stays done) (hstays : stays digest = true) :
    second.hasRow digest = first.hasRow digest := by
  rw [PlanInput.hasRow, PlanInput.hasRow, hagrees.rows, any_filter]
  congr 1
  funext row
  by_cases hsame : row.digest = digest <;> simp [hsame, hstays]

theorem Agrees.hasRow_false (hagrees : Agrees first second stays done)
    (hnone : first.hasRow digest = false) : second.hasRow digest = false := by
  rw [PlanInput.hasRow, any_eq_false] at hnone ⊢
  intro row hrow
  rw [hagrees.rows] at hrow
  exact hnone row (mem_of_mem_filter hrow)

theorem scanOne_agree {walk : Walk} (read : List Digest)
    (hmtime : second.mtime digest = first.mtime digest) :
    Walk.scanOne second (walk.withRead read) digest =
      (walk.scanOne first digest).withRead read := by
  simp only [Walk.scanOne, refer_withRead, enqueue_withRead, hmtime]
  exact (apply_ite (Walk.withRead · read) _ _ _).symm

theorem scan_agree {walk : Walk} {named : List Digest} (read : List Digest)
    (hmtime : ∀ digest ∈ named, second.mtime digest = first.mtime digest) :
    named.foldl (Walk.scanOne second) (walk.withRead read) =
      (named.foldl (Walk.scanOne first) walk).withRead read := by
  induction named generalizing walk with
  | nil => rfl
  | cons digest named ih =>
    rw [foldl_cons, scanOne_agree read (hmtime digest mem_cons_self), ih, foldl_cons]
    exact fun other hother => hmtime other (mem_cons_of_mem _ hother)

/-- The walk has come no further than the other. -/
structure Within (walk done : Walk) : Prop where
  kept : walk.kept ⊆ done.kept
  referenced : walk.referenced ⊆ done.referenced
  read : walk.read ⊆ done.read

theorem Visits.referenced {walk : Walk} (hvisits : Visits input walk item after)
    (hnew : item.digest ∉ walk.kept) : item.digest ∈ after.referenced := by
  cases hvisits with
  | again hkept => exact absurd hkept hnew
  | tooLarge hcap => exact mem_cons_self
  | followed hrefs => exact (extends_follow _ _).grows.referenced mem_cons_self
  | spared hscanned hbad | missing hcap hmissing hoptional => exact mem_cons_self
  | scanned hnamed => exact (extends_scan input _ _).grows.referenced mem_cons_self

theorem Visits.read {walk : Walk} (hvisits : Visits input walk item after)
    (hnew : item.digest ∉ walk.kept) (hcap : input.overCap item.digest = false) :
    item.digest ∈ after.read := by
  cases hvisits with
  | again hkept => exact absurd hkept hnew
  | tooLarge hlarge => simp [hlarge] at hcap
  | followed hrefs => exact (extends_follow _ _).grows.read mem_cons_self
  | spared hscanned hbad | missing hcap hmissing hoptional => exact mem_cons_self
  | scanned hnamed => exact (extends_scan input _ _).grows.read mem_cons_self

theorem Agrees.visited (hagrees : Agrees first second stays done) {walk : Walk}
    (hvisits : Visits first walk item after) (hwithin : Within after done)
    (hnew : item.digest ∉ walk.kept) :
    second.hasRow item.digest = first.hasRow item.digest ∧
      second.overCap item.digest = first.overCap item.digest ∧
      (first.overCap item.digest = false →
        second.refsOf item.digest = first.refsOf item.digest) := by
  have hreferenced := hwithin.referenced (hvisits.referenced hnew)
  have hrow : second.hasRow item.digest = first.hasRow item.digest := by
    rcases hvisits.done with hkept | ⟨-, hnone, -⟩
    · exact hagrees.hasRow (hagrees.kept _ (hwithin.kept hkept))
    · rw [hnone, hagrees.hasRow_false hnone]
  refine ⟨hrow, ?_, fun hcap => ?_⟩
  · rw [PlanInput.overCap, PlanInput.overCap, hrow, hagrees.size _ (.inl hreferenced)]
  · exact hagrees.refsOf _ (hwithin.read (hvisits.read hnew hcap)) (.inl hreferenced)

theorem visit_agree (hagrees : Agrees first second stays done) {walk : Walk}
    (hvisit : visit first walk item = .ok after) (hwithin : Within after done)
    (read : List Digest) :
    ∃ read', visit second (walk.withRead read) item = .ok (after.withRead read') := by
  by_cases hkept : item.digest ∈ walk.kept
  · have hsame : after = walk := by simpa [visit, hkept] using hvisit.symm
    exact ⟨read, by simp [visit, Walk.withRead, hkept, hsame]⟩
  have hnew : item.digest ∉ (walk.withRead read).kept := hkept
  obtain ⟨hrow, hcap, hrefs⟩ := hagrees.visited (visit_cases hvisit) hwithin hkept
  simp only [visit, if_neg hkept, if_neg hnew, hcap, hrow] at hvisit ⊢
  cases hlarge : first.overCap item.digest with
  | true =>
    simp only [hlarge, if_true, Except.ok.injEq] at hvisit ⊢
    exact ⟨read, by rw [← hvisit]; rfl⟩
  | false =>
    simp only [hlarge, Bool.false_eq_true, if_false, hrefs hlarge] at hvisit ⊢
    refine ⟨item.digest :: read, ?_⟩
    split at hvisit
    case h_1 refs hread =>
      rw [← Except.ok.inj hvisit]
      exact congrArg Except.ok (follow_withRead
        (((walk.refer [item.digest]).noteRead item.digest).keep item.digest)
        (item.digest :: read) refs)
    case h_2 size hread =>
      split at hvisit
      case isFalse => cases hvisit
      rename_i hspared
      rw [← Except.ok.inj hvisit]
      exact if_pos hspared
    case h_3 hread =>
      split at hvisit
      case isTrue => cases hvisit
      rename_i hoptional
      rw [← Except.ok.inj hvisit]
      exact if_neg hoptional
    case h_5 => cases hvisit
    rename_i cause named hread
    split_ifs at hvisit with hoptional
    have hafter := Except.ok.inj hvisit
    have hscan := extends_scan first
      (((walk.refer [item.digest]).noteRead item.digest).keep item.digest) named
    have hmtime : ∀ digest ∈ named, second.mtime digest = first.mtime digest := by
      intro digest hdigest
      apply hagrees.mtime
      left
      apply hwithin.referenced
      rw [← hafter]
      exact (hscan.referenced digest).2 (.inr ⟨digest, hdigest, rfl⟩)
    rw [← hafter]
    refine (if_neg hoptional).trans (congrArg Except.ok ?_)
    exact @scan_agree first second
      (((walk.refer [item.digest]).noteRead item.digest).keep item.digest)
      named (item.digest :: read) hmtime

/-! ## The same loops -/

theorem Within.refl (walk : Walk) : Within walk walk :=
  ⟨List.Subset.refl _, List.Subset.refl _, List.Subset.refl _⟩

theorem Within.trans {walk middle done : Walk} (hfirst : Within walk middle)
    (hsecond : Within middle done) : Within walk done :=
  ⟨List.Subset.trans hfirst.kept hsecond.kept,
    List.Subset.trans hfirst.referenced hsecond.referenced,
    List.Subset.trans hfirst.read hsecond.read⟩

theorem Grows.within {walk : Walk} (hgrows : Grows walk after) : Within walk after :=
  ⟨hgrows.kept, hgrows.referenced, hgrows.read⟩

theorem walkQueue_within {walk : Walk} (hwalk : walkQueue input steps walk = .ok after) :
    Within walk after := by
  induction steps generalizing walk with
  | zero =>
    rcases walkQueue_cases hwalk with ⟨-, rfl⟩ | ⟨_, _, _, _, _, hsteps, _⟩
    · exact Within.refl _
    · cases hsteps
  | succ steps ih =>
    rcases walkQueue_cases hwalk with
      ⟨-, rfl⟩ | ⟨item, rest, fewer, next, hqueue, hsteps, hvisit, hrest⟩
    · exact Within.refl _
    cases hsteps
    have htaken : Within walk next := by
      have hgrows := (visit_cases hvisit).grows
      exact ⟨hgrows.kept, hgrows.referenced, hgrows.read⟩
    exact htaken.trans (ih hrest)

theorem walkQueue_agree (hagrees : Agrees first second stays done) {walk : Walk}
    (hwalk : walkQueue first steps walk = .ok after) (hwithin : Within after done)
    (read : List Digest) :
    ∃ read', walkQueue second steps (walk.withRead read) = .ok (after.withRead read') := by
  induction steps generalizing walk read with
  | zero =>
    rcases walkQueue_cases hwalk with ⟨hqueue, rfl⟩ | ⟨_, _, _, _, _, hsteps, _⟩
    · exact ⟨read, walkQueue_nil 0 hqueue⟩
    · cases hsteps
  | succ steps ih =>
    rcases walkQueue_cases hwalk with
      ⟨hqueue, rfl⟩ | ⟨item, rest, fewer, next, hqueue, hsteps, hvisit, hrest⟩
    · exact ⟨read, walkQueue_nil _ hqueue⟩
    cases hsteps
    have hnext : Within next done := (walkQueue_within hrest).trans hwithin
    obtain ⟨middle, hmiddle⟩ := visit_agree hagrees hvisit hnext read
    obtain ⟨read', hread'⟩ := ih hrest middle
    refine ⟨read', ?_⟩
    rw [walkQueue_succ steps (show (walk.withRead read).queue = item :: rest from hqueue)]
    exact bind_eq_ok_iff.2 ⟨_, hmiddle, hread'⟩

theorem within_noteRow (input : PlanInput) (walk : Walk) (row : Row) :
    Within walk (walk.noteRow input row) := by
  unfold Walk.noteRow
  split
  · exact (grows_noteRead walk row.digest).within
  · exact Within.refl walk

theorem withRead_noteRow (input : PlanInput) (walk : Walk) (row : Row) (read : List Digest) :
    ∃ read', (walk.withRead read).noteRow input row = (walk.noteRow first row).withRead read' := by
  unfold Walk.noteRow
  split <;> split
  · exact ⟨row.digest :: read, rfl⟩
  · exact ⟨row.digest :: read, rfl⟩
  · exact ⟨read, rfl⟩
  · exact ⟨read, rfl⟩

theorem gatherRow_within {before after : Gathered}
    (hgather : gatherRow input before row = .ok after) :
    Within before.walk after.walk ∧ (rowRead input row = true → row.digest ∈ after.walk.read) := by
  obtain ⟨fate, -, rfl⟩ := gatherRow_cases hgather
  have hnoted := within_noteRow input before.walk row
  have hread : rowRead input row = true → row.digest ∈ (before.walk.noteRow input row).read := by
    intro hrow
    rw [Walk.noteRow, if_pos hrow]
    exact mem_cons_self
  cases fate with
  | enqueue required =>
    have hgrows := (extends_enqueue (before.walk.noteRow input row)
      ⟨row.digest, required, false⟩).grows
    exact ⟨hnoted.trans hgrows.within, fun hrow => hgrows.read (hread hrow)⟩
  | candidate | referrer subject => exact ⟨hnoted, hread⟩

theorem gather_within {rows : List Row} {before after : Gathered}
    (hgather : rows.foldlM (gatherRow input) before = .ok after) :
    Within before.walk after.walk := by
  induction rows generalizing before with
  | nil =>
    rw [foldlM_nil, pure_eq_ok_iff] at hgather
    rw [hgather]
    exact Within.refl _
  | cons row rows ih =>
    rw [foldlM_cons, bind_eq_ok_iff] at hgather
    obtain ⟨next, hnext, hrest⟩ := hgather
    exact (gatherRow_within hnext).1.trans (ih hrest)

theorem Agrees.rowFate (hagrees : Agrees first second stays done)
    (hstays : (row.tagged || stays row.digest) = true)
    (hread : rowRead first row = true → row.digest ∈ done.read) :
    rowFate second row = rowFate first row := by
  unfold Gc.rowFate
  cases htagged : row.tagged with
  | true => rfl
  | false =>
    have hstays : stays row.digest = true := by simpa [htagged] using hstays
    have hmtime := hagrees.mtime row.digest (.inr hstays)
    simp only [Bool.false_eq_true, if_false, hmtime]
    cases htime : first.mtime row.digest with
    | none => rfl
    | some time =>
      have hold : second.old time = first.old time := by
        simp [PlanInput.old, hagrees.cutoff]
      simp only [hold]
      cases hpast : first.old time with
      | false => rfl
      | true =>
        have hrefs := hagrees.refsOf row.digest
          (hread (by simp [rowRead, htagged, htime, hpast])) (.inr hstays)
        have hretained : ∀ refs, second.retained refs time = first.retained refs time := by
          intro refs
          simp [PlanInput.retained, hagrees.retention, hagrees.artifactType, hagrees.cutoff]
        simp only [hrefs, hretained]

def GatheredAlike (stays : Digest → Bool) (left right : Gathered) : Prop :=
  (∃ read, right.walk = left.walk.withRead read) ∧
    right.referrers = left.referrers.filter fun referrer => stays referrer.digest

theorem gatherRow_agree (hagrees : Agrees first second stays done) {next : Gathered}
    (hgather : gatherRow first left row = .ok next) (hwithin : Within next.walk done)
    (hstays : (row.tagged || stays row.digest) = true) (halike : GatheredAlike stays left right) :
    ∃ after, gatherRow second right row = .ok after ∧ GatheredAlike stays next after := by
  have hfate : rowFate second row = rowFate first row :=
    hagrees.rowFate hstays fun hrow => hwithin.read ((gatherRow_within hgather).2 hrow)
  obtain ⟨fate, hfirst, rfl⟩ := gatherRow_cases hgather
  obtain ⟨⟨read, hwalk⟩, hreferrers⟩ := halike
  obtain ⟨read', hnoted⟩ := @withRead_noteRow first second left.walk row read
  refine ⟨right.place second row fate, ?_, ?_⟩
  · exact bind_eq_ok_iff.2 ⟨fate, hfate.trans hfirst, rfl⟩
  cases fate with
  | enqueue required =>
    refine ⟨⟨read', ?_⟩, hreferrers⟩
    simp only [Gathered.place, hwalk, hnoted, enqueue_withRead]
  | candidate =>
    refine ⟨⟨read', ?_⟩, hreferrers⟩
    simp only [Gathered.place, hwalk, hnoted]
  | referrer subject =>
    refine ⟨⟨read', ?_⟩, ?_⟩
    · simp only [Gathered.place, hwalk, hnoted]
    have huntagged : row.tagged = false := by
      have his := rowFate_cases hfirst
      cases his with
      | referrer hsubject => simpa using fun htagged => hsubject.1 (.inl htagged)
    have hdigest : stays row.digest = true := by simpa [huntagged] using hstays
    simp [Gathered.place, hreferrers, hdigest]

theorem gatherRow_skip {next : Gathered} (hgather : gatherRow first left row = .ok next)
    (hleaves : (row.tagged || stays row.digest) = false)
    (hreaped : ∀ required, rowFate first row ≠ .ok (.enqueue required))
    (halike : GatheredAlike stays left right) : GatheredAlike stays next right := by
  obtain ⟨fate, hfirst, rfl⟩ := gatherRow_cases hgather
  obtain ⟨⟨read, hwalk⟩, hreferrers⟩ := halike
  have hnoted : right.walk = (left.walk.noteRow first row).withRead read := by
    rw [hwalk, Walk.noteRow]
    split <;> rfl
  cases fate with
  | enqueue required => exact absurd hfirst (hreaped required)
  | candidate => exact ⟨⟨read, hnoted⟩, hreferrers⟩
  | referrer subject =>
    have hdigest : stays row.digest = false := (Bool.or_eq_false_iff.1 hleaves).2
    exact ⟨⟨read, hnoted⟩, by simp [Gathered.place, hreferrers, hdigest]⟩

theorem gatherRows_agree (hagrees : Agrees first second stays done) {rows : List Row}
    {finish : Gathered} (hgather : rows.foldlM (gatherRow first) left = .ok finish)
    (hwithin : Within finish.walk done)
    (hreaped : ∀ row ∈ rows, (row.tagged || stays row.digest) = false →
      ∀ required, rowFate first row ≠ .ok (.enqueue required))
    (halike : GatheredAlike stays left right) :
    ∃ after, (rows.filter fun row => row.tagged || stays row.digest).foldlM
        (gatherRow second) right = .ok after ∧ GatheredAlike stays finish after := by
  induction rows generalizing left right with
  | nil =>
    rw [foldlM_nil, pure_eq_ok_iff] at hgather
    exact ⟨right, rfl, hgather ▸ halike⟩
  | cons row rows ih =>
    rw [foldlM_cons, bind_eq_ok_iff] at hgather
    obtain ⟨next, hnext, hrest⟩ := hgather
    have hrows := fun other hother => hreaped other (mem_cons_of_mem row hother)
    cases hstays : (row.tagged || stays row.digest) with
    | true =>
      obtain ⟨middle, hmiddle, halike⟩ := gatherRow_agree hagrees hnext
        ((gather_within hrest).trans hwithin) hstays halike
      obtain ⟨after, hafter, hfinish⟩ := ih hrest hrows halike
      refine ⟨after, ?_, hfinish⟩
      rw [filter_cons, if_pos hstays, foldlM_cons]
      exact bind_eq_ok_iff.2 ⟨middle, hmiddle, hafter⟩
    | false =>
      have hskip := gatherRow_skip hnext hstays (hreaped row mem_cons_self hstays) halike
      obtain ⟨after, hafter, hfinish⟩ := ih hrest hrows hskip
      refine ⟨after, ?_, hfinish⟩
      rw [filter_cons, if_neg (by simp [hstays])]
      exact hafter

theorem live_agree (hagrees : Agrees first second stays done) (walk : Walk)
    (read : List Digest) (subject : Digest) :
    live second (walk.withRead read) subject = live first walk subject := by
  have hyoung := hagrees.young subject
  unfold PlanInput.young at hyoung
  unfold live
  rw [hyoung]
  rfl

theorem live_within {walk : Walk} {subject : Digest} (hwithin : Within walk after)
    (hdead : live input after subject = false) : live input walk subject = false := by
  simp only [live, Bool.or_eq_false_iff, decide_eq_false_iff_not] at hdead ⊢
  exact ⟨⟨fun hkept => hdead.1.1 (hwithin.kept hkept),
    fun hreferenced => hdead.1.2 (hwithin.referenced hreferenced)⟩, hdead.2⟩

theorem joinAll_withRead (walk : Walk) (joining : List Referrer) (read : List Digest) :
    joining.foldl (fun walk referrer => walk.enqueue ⟨referrer.digest, true, false⟩)
        (walk.withRead read) =
      (joining.foldl (fun walk referrer => walk.enqueue ⟨referrer.digest, true, false⟩)
        walk).withRead read :=
  foldl_withRead walk read (fun walk referrer =>
    enqueue_withRead walk read ⟨referrer.digest, true, false⟩) joining

theorem joinAll_within (walk : Walk) (joining : List Referrer) :
    Within walk (joining.foldl (fun walk referrer =>
      walk.enqueue ⟨referrer.digest, true, false⟩) walk) :=
  (extends_foldl walk.kept (fun walk (referrer : Referrer) _ =>
    extends_enqueue walk ⟨referrer.digest, true, false⟩) joining rfl).grows.within

theorem settle_succ (input : PlanInput) (steps rounds : ℕ) (walk : Walk)
    (referrers : List Referrer) :
    settle input steps (rounds + 1) walk referrers =
      walkQueue input steps walk >>= fun walked =>
        if (referrers.filter fun referrer =>
            !live input walked referrer.subject).length = referrers.length then
          pure (walked, referrers)
        else
          settle input steps rounds
            ((referrers.filter fun referrer => live input walked referrer.subject).foldl
              (fun walk referrer => walk.enqueue ⟨referrer.digest, true, false⟩) walked)
            (referrers.filter fun referrer => !live input walked referrer.subject) := rfl

theorem settle_within {rounds : ℕ} {walk : Walk} {referrers orphans : List Referrer}
    (hsettle : settle input steps rounds walk referrers = .ok (after, orphans)) :
    Within walk after := by
  induction rounds generalizing walk referrers with
  | zero => cases hsettle
  | succ rounds ih =>
    rw [settle_succ, bind_eq_ok_iff] at hsettle
    obtain ⟨walked, hwalk, hsettle⟩ := hsettle
    have hwalked := walkQueue_within hwalk
    split at hsettle
    · cases pure_eq_ok_iff.1 hsettle
      exact hwalked
    · exact hwalked.trans ((joinAll_within _ _).trans (ih hsettle))

theorem settle_agree (hagrees : Agrees first second stays done) {rounds : ℕ} {walk : Walk}
    {referrers orphans : List Referrer}
    (hsettle : settle first steps rounds walk referrers = .ok (done, orphans))
    (hdead : ∀ referrer ∈ referrers, stays referrer.digest = false →
      live first done referrer.subject = false) (read : List Digest) :
    ∃ read' orphans', settle second steps rounds (walk.withRead read)
      (referrers.filter fun referrer => stays referrer.digest) =
        .ok (done.withRead read', orphans') := by
  induction rounds generalizing walk referrers read with
  | zero => cases hsettle
  | succ rounds ih =>
    rw [settle_succ, bind_eq_ok_iff] at hsettle
    obtain ⟨walked, hwalk, hsettle⟩ := hsettle
    have hwalked : Within walked done := by
      split at hsettle
      · cases pure_eq_ok_iff.1 hsettle
        exact Within.refl _
      · exact (joinAll_within _ _).trans (settle_within hsettle)
    obtain ⟨middle, hmiddle⟩ := walkQueue_agree hagrees hwalk hwalked read
    -- a referrer that is left out is not live in this round either
    have hnot : ∀ referrer ∈ referrers, stays referrer.digest = false →
        live first walked referrer.subject = false := by
      intro referrer hreferrer hleaves
      exact live_within hwalked (hdead referrer hreferrer hleaves)
    have hjoining : (referrers.filter fun referrer => stays referrer.digest).filter
        (fun referrer => live second (walked.withRead middle) referrer.subject) =
        referrers.filter fun referrer => live first walked referrer.subject := by
      rw [filter_filter]
      apply filter_congr
      intro referrer hreferrer
      rw [live_agree hagrees]
      cases hstays : stays referrer.digest with
      | true => simp
      | false => simp [hnot referrer hreferrer hstays]
    have hrest : (referrers.filter fun referrer => stays referrer.digest).filter
        (fun referrer => !live second (walked.withRead middle) referrer.subject) =
        (referrers.filter fun referrer => !live first walked referrer.subject).filter
          fun referrer => stays referrer.digest := by
      rw [filter_filter, filter_filter]
      apply filter_congr
      intro referrer _
      rw [live_agree hagrees, Bool.and_comm]
    have hended : ((referrers.filter fun referrer => stays referrer.digest).filter
        (fun referrer => !live second (walked.withRead middle) referrer.subject)).length =
          (referrers.filter fun referrer => stays referrer.digest).length ↔
        (referrers.filter fun referrer =>
          !live first walked referrer.subject).length = referrers.length := by
      rw [length_filter_eq_length_iff, length_filter_eq_length_iff]
      constructor
      · intro hall referrer hreferrer
        cases hstays : stays referrer.digest with
        | true =>
          have hone := hall referrer (mem_filter.2 ⟨hreferrer, hstays⟩)
          rwa [live_agree hagrees] at hone
        | false => simp [hnot referrer hreferrer hstays]
      · intro hall referrer hreferrer
        rw [live_agree hagrees]
        exact hall referrer (mem_of_mem_filter hreferrer)
    split at hsettle
    case isTrue hnone =>
      cases pure_eq_ok_iff.1 hsettle
      refine ⟨middle, orphans.filter fun referrer => stays referrer.digest, ?_⟩
      rw [settle_succ]
      exact bind_eq_ok_iff.2 ⟨_, hmiddle, if_pos (hended.2 hnone)⟩
    rename_i hsome
    obtain ⟨read', orphans', hlater⟩ := ih hsettle
      (fun referrer hreferrer => hdead referrer (mem_of_mem_filter hreferrer)) middle
    refine ⟨read', orphans', ?_⟩
    rw [settle_succ]
    refine bind_eq_ok_iff.2 ⟨_, hmiddle, ?_⟩
    rw [if_neg (fun hnone => hsome (hended.1 hnone)), hjoining, hrest, joinAll_withRead]
    exact hlater

theorem walkPlan_agree {walked : Walked} (hwalk : walkPlan first steps = .ok walked)
    (hagrees : Agrees first second stays walked.walk) :
    ∃ walked', walkPlan second steps = .ok walked' ∧ walked'.walk.kept = walked.walk.kept ∧
      walked'.walk.referenced = walked.walk.referenced := by
  have hinv := walkPlan_inv hwalk
  unfold walkPlan at hwalk
  rw [bind_eq_ok_iff] at hwalk
  obtain ⟨gathered, hgather, hwalk⟩ := hwalk
  rw [bind_eq_ok_iff] at hwalk
  obtain ⟨⟨walk, orphans⟩, hsettle, hwalk⟩ := hwalk
  rw [pure_eq_ok_iff] at hwalk
  subst hwalk
  have hgathered := gather_inv hgather
  obtain ⟨hdoneInv, hempty, hqueued, hplaced, horphans⟩ :=
    settle_inv hgathered.walk hgathered.referrers hsettle
  have hreaped : ∀ row ∈ first.rows, (row.tagged || stays row.digest) = false →
      ∀ required, rowFate first row ≠ .ok (.enqueue required) := by
    intro row hrow hleaves required hfate
    have his := rowFate_cases hfate
    cases his with
    | outright hkept =>
      have hstays := hagrees.kept _ (hinv.closed.outright row hrow hkept)
      simp [hstays] at hleaves
  have hdead : ∀ referrer ∈ gathered.referrers, stays referrer.digest = false →
      live first walk referrer.subject = false := by
    intro referrer hreferrer hleaves
    rcases hplaced referrer hreferrer with horphan | hjoined
    · exact horphans referrer horphan
    · have hstays := hagrees.kept _ (kept_of_queued hdoneInv hempty hjoined)
      simp [hstays] at hleaves
  obtain ⟨after, hafter, ⟨read, hstart⟩, hreferrers⟩ := gatherRows_agree hagrees hgather
    (settle_within hsettle) hreaped
    (show GatheredAlike stays ⟨Walk.start, [], []⟩ ⟨Walk.start, [], []⟩ from
      ⟨⟨[], rfl⟩, rfl⟩)
  obtain ⟨read', orphans', hsettled⟩ := settle_agree hagrees hsettle hdead read
  refine ⟨⟨walk.withRead read', after.candidates ++ orphans'.map Referrer.digest⟩, ?_, rfl, rfl⟩
  unfold walkPlan
  refine bind_eq_ok_iff.2 ⟨after, ?_, ?_⟩
  · rw [gather, hagrees.rows]
    exact hafter
  · rw [hstart, hreferrers]
    exact bind_eq_ok_iff.2 ⟨_, hsettled, rfl⟩

end Agree

end K3sm.Registry.Gc
