import K3sm.Registry.KeepSet

/-!
# When a plan fails

A plan fails on what the keep rules reach and cannot follow, which no order of the rows changes,
and on a tagged row without a body.  The second is decided by the first item of the digest in the
queue, and that is the first row of the digest in the index.
-/

namespace K3sm.Registry.Gc

open K3sm.Core List Option

def Appends (good : Item → Prop) (before after : Walk) : Prop :=
  ∃ more, after.queue = before.queue ++ more ∧ after.queued = more.reverse ++ before.queued ∧
    (∀ item ∈ more, good item) ∧ (before.queued.Nodup → after.queued.Nodup)

section Appends

variable {good better : Item → Prop} {input : PlanInput} {before walk after : Walk} {item : Item}

theorem Appends.refl (walk : Walk) : Appends good walk walk :=
  ⟨[], by simp⟩

theorem Appends.of_eq (hqueue : after.queue = walk.queue) (hqueued : after.queued = walk.queued) :
    Appends good walk after :=
  ⟨[], by simp [hqueue, hqueued]⟩

theorem Appends.trans (hfirst : Appends good before walk) (hsecond : Appends good walk after) :
    Appends good before after := by
  obtain ⟨more, hqueue, hqueued, hgood, hnodup⟩ := hfirst
  obtain ⟨others, hqueue', hqueued', hgood', hnodup'⟩ := hsecond
  refine ⟨more ++ others, ?_, ?_, ?_, hnodup' ∘ hnodup⟩
  · rw [hqueue', hqueue, append_assoc]
  · rw [hqueued', hqueued, reverse_append, append_assoc]
  · intro item hitem
    exact (mem_append.1 hitem).elim (hgood item) (hgood' item)

theorem appends_enqueue (walk : Walk) (hitem : good item) :
    Appends good walk (walk.enqueue item) := by
  unfold Walk.enqueue
  split
  case isTrue => exact .refl walk
  rename_i hnew
  refine ⟨[item], rfl, rfl, ?_, fun hnodup => nodup_cons.2 ⟨hnew, hnodup⟩⟩
  intro other hother
  rwa [mem_singleton.1 hother]

theorem appends_foldl {Value : Type} {step : Walk → Value → Walk} {values : List Value}
    (hstep : ∀ walk, ∀ value ∈ values, Appends good walk (step walk value)) (walk : Walk) :
    Appends good walk (values.foldl step walk) := by
  induction values generalizing walk with
  | nil => exact .refl walk
  | cons value values ih =>
    have hhead := hstep walk value mem_cons_self
    exact hhead.trans (ih (fun walk value hvalue => hstep walk value (mem_cons_of_mem _ hvalue)) _)

def NamedBy (input : PlanInput) (digest : Digest) : Prop :=
  ∃ manifest, NamesChild input manifest digest ∨ NamesScanned input manifest digest

def Found (input : PlanInput) (item : Item) : Prop :=
  item.required = false ∧ NamedBy input item.digest

theorem Visits.appends (hvisits : Visits input walk item after) :
    Appends (Found input) walk after := by
  cases hvisits with
  | again | tooLarge | spared | missing => exact .of_eq rfl rfl
  | followed hrefs =>
    rename_i refs
    apply Appends.trans (Appends.of_eq rfl rfl)
    apply appends_foldl
    intro walk child hchild
    apply Appends.trans (Appends.of_eq rfl rfl)
    exact appends_enqueue _ ⟨rfl, item.digest, .inl ⟨refs, hrefs, hchild⟩⟩
  | scanned hnamed =>
    rename_i named
    apply Appends.trans (Appends.of_eq rfl rfl)
    apply appends_foldl
    intro walk found hfound
    unfold Walk.scanOne
    dsimp only
    split
    · apply Appends.trans (Appends.of_eq rfl rfl)
      exact appends_enqueue _ ⟨rfl, item.digest, .inr ⟨named, hnamed, hfound⟩⟩
    · exact .of_eq rfl rfl

theorem appends_joinAll (walk : Walk) (joining : List Referrer) :
    Appends (fun item => item.required = true ∧ ∃ referrer ∈ joining, item.digest = referrer.digest)
      walk (joining.foldl (fun walk referrer =>
        walk.enqueue ⟨referrer.digest, true, false⟩) walk) :=
  appends_foldl (fun walk referrer hreferrer =>
    appends_enqueue walk ⟨rfl, referrer, hreferrer, rfl⟩) walk

end Appends

section Loops

variable {input : PlanInput} {inv : Walk → Prop} {walk after : Walk} {error : PlanError}

def KeptByVisits (input : PlanInput) (inv : Walk → Prop) : Prop :=
  ∀ walk item rest after, inv walk → walk.queue = item :: rest →
    Visits input { walk with queue := rest } item after → inv after

def VisitFails (input : PlanInput) (inv : Walk → Prop) (error : PlanError) : Prop :=
  ∃ walk item rest, inv walk ∧ walk.queue = item :: rest ∧
    visit input { walk with queue := rest } item = .error error

theorem walkQueue_ok {steps : ℕ} (hkeeps : KeptByVisits input inv) (hinv : inv walk)
    (hwalk : walkQueue input steps walk = .ok after) : inv after ∧ after.queue = [] := by
  induction steps generalizing walk with
  | zero =>
    rcases walkQueue_cases hwalk with ⟨hqueue, rfl⟩ | ⟨_, _, _, _, _, hsteps, _⟩
    · exact ⟨hinv, hqueue⟩
    · cases hsteps
  | succ steps ih =>
    rcases walkQueue_cases hwalk with
      ⟨hqueue, rfl⟩ | ⟨item, rest, fewer, next, hqueue, hsteps, hvisit, hrest⟩
    · exact ⟨hinv, hqueue⟩
    · cases hsteps
      exact ih (hkeeps walk item rest next hinv hqueue (visit_cases hvisit)) hrest

theorem walkQueue_error {steps : ℕ} (hkeeps : KeptByVisits input inv) (hinv : inv walk)
    (hwalk : walkQueue input steps walk = .error error) :
    error = .outOfSteps ∨ VisitFails input inv error := by
  induction steps generalizing walk with
  | zero =>
    cases hqueue : walk.queue with
    | nil =>
      rw [walkQueue_nil 0 hqueue] at hwalk
      cases hwalk
    | cons item rest =>
      rw [walkQueue_zero hqueue] at hwalk
      cases hwalk
      exact .inl rfl
  | succ steps ih =>
    cases hqueue : walk.queue with
    | nil =>
      rw [walkQueue_nil _ hqueue] at hwalk
      cases hwalk
    | cons item rest =>
      rw [walkQueue_succ steps hqueue, bind_eq_error_iff] at hwalk
      rcases hwalk with hfails | ⟨next, hvisit, hrest⟩
      · exact .inr ⟨walk, item, rest, hinv, hqueue, hfails⟩
      · exact ih (hkeeps walk item rest next hinv hqueue (visit_cases hvisit)) hrest

theorem settle_error {good : Referrer → Prop} {steps rounds : ℕ} {referrers : List Referrer}
    (hkeeps : KeptByVisits input inv)
    (hjoin : ∀ walk (joining : List Referrer), inv walk →
      (∀ referrer ∈ joining, good referrer ∧ live input walk referrer.subject = true) →
      inv (joining.foldl (fun walk referrer => walk.enqueue ⟨referrer.digest, true, false⟩) walk))
    (hinv : inv walk) (hgood : ∀ referrer ∈ referrers, good referrer)
    (hsettle : settle input steps rounds walk referrers = .error error) :
    error = .outOfSteps ∨ VisitFails input inv error := by
  induction rounds generalizing walk referrers with
  | zero =>
    cases hsettle
    exact .inl rfl
  | succ rounds ih =>
    unfold settle at hsettle
    rw [bind_eq_error_iff] at hsettle
    rcases hsettle with hfails | ⟨walked, hwalk, hsettle⟩
    · exact walkQueue_error hkeeps hinv hfails
    obtain ⟨hwalked, -⟩ := walkQueue_ok hkeeps hinv hwalk
    dsimp only at hsettle
    split at hsettle
    case isTrue => cases hsettle
    refine ih (hjoin walked _ hwalked ?_) ?_ hsettle
    · intro referrer hreferrer
      obtain ⟨hmem, hlive⟩ := mem_filter.1 hreferrer
      exact ⟨hgood referrer hmem, hlive⟩
    · exact fun referrer hreferrer => hgood referrer (mem_of_mem_filter hreferrer)

theorem settle_walks {steps rounds : ℕ} {referrers orphans : List Referrer}
    (hsettle : settle input steps rounds walk referrers = .ok (after, orphans)) :
    ∃ walked, walkQueue input steps walk = .ok walked := by
  cases rounds with
  | zero => cases hsettle
  | succ rounds =>
    unfold settle at hsettle
    rw [bind_eq_ok_iff] at hsettle
    obtain ⟨walked, hwalk, -⟩ := hsettle
    exact ⟨walked, hwalk⟩

end Loops

/-! ## What no visit gets past -/

def Fatal (input : PlanInput) (digest : Digest) : Prop :=
  input.overCap digest = false ∧ ∃ cause, input.refsOf digest = .error cause ∧
    cause ≠ .blobUnknown ∧ ∀ named, ¬ Unparsable input digest named

/-- Every set closed under the keep rules has the manifest. -/
def Forced (input : PlanInput) (digest : Digest) : Prop :=
  ∀ kept, KeepClosed input (Unverifiable input) kept → digest ∈ kept

section Failing

variable {input : PlanInput} {walk : Walk} {item : Item} {error : PlanError}

theorem planError_ne_outOfSteps (what : Followed) (cause : ReadError) :
    planError what cause ≠ .outOfSteps := by
  cases cause <;> nofun

/-- A visit fails on a body that is not over the cap and was not answered, unless the scan
found it and it has no row, or on a missing body that is required. -/
theorem visit_error (hvisit : visit input walk item = .error error) :
    item.digest ∉ walk.kept ∧ input.overCap item.digest = false ∧
      ∃ cause, input.refsOf item.digest = .error cause ∧
        error = planError (.manifest item.digest) cause ∧
        (cause = .blobUnknown → item.required = true) ∧
        (∀ named, Unparsable input item.digest named → item.required = true) ∧
        (Unverifiable input item.digest → item.scanned = false) := by
  unfold visit at hvisit
  split at hvisit
  case isTrue => cases hvisit
  rename_i hnew
  split at hvisit
  case isTrue => cases hvisit
  rename_i hcap
  refine ⟨hnew, by simpa using hcap, ?_⟩
  split at hvisit
  case h_1 => cases hvisit
  case h_2 size hrefs =>
    split at hvisit
    case isTrue => cases hvisit
    rename_i hnamed
    refine ⟨_, hrefs, (Except.error.inj hvisit).symm, nofun, ?_, ?_⟩
    · rintro named ⟨-, -, cause, hother⟩
      rw [hrefs] at hother
      cases hother
    · rintro ⟨hrow, -⟩
      simpa [hrow] using hnamed
  case h_3 hrefs =>
    split at hvisit
    case isFalse => cases hvisit
    rename_i hrequired
    refine ⟨_, hrefs, (Except.error.inj hvisit).symm, fun _ => hrequired, fun _ _ => hrequired, ?_⟩
    rintro ⟨-, -, size, hother⟩
    rw [hrefs] at hother
    cases hother
  case h_4 cause named hrefs =>
    split at hvisit
    case isFalse => cases hvisit
    rename_i hrow
    refine ⟨_, hrefs, (Except.error.inj hvisit).symm, nofun, ?_, ?_⟩
    · rintro others ⟨hnone, -⟩
      simpa [hnone] using hrow
    · rintro ⟨-, -, size, hother⟩
      rw [hrefs] at hother
      cases hother
  rename_i cause hverified hmissing hparsed hrefs
  refine ⟨cause, hrefs, (Except.error.inj hvisit).symm, ?_, ?_, ?_⟩
  · intro hcause
    exact absurd hcause hmissing
  · rintro named ⟨-, -, other, hother⟩
    rw [hrefs] at hother
    cases hother
    exact absurd rfl (hparsed other named)
  · rintro ⟨-, -, size, hother⟩
    rw [hrefs] at hother
    cases hother
    exact absurd rfl (hverified size)

theorem visit_ne_outOfSteps : visit input walk item ≠ .error .outOfSteps := by
  intro hout
  obtain ⟨-, -, cause, -, hnames, -⟩ := visit_error hout
  exact planError_ne_outOfSteps _ _ hnames.symm

theorem rowFate_ne_outOfSteps {row : Row} : rowFate input row ≠ .error .outOfSteps := by
  intro hout
  unfold rowFate at hout
  split_ifs at hout
  split at hout
  case h_1 => cases hout
  split_ifs at hout
  split at hout
  case h_1 => exact planError_ne_outOfSteps _ _ (Except.error.inj hout)
  split at hout
  case isTrue => cases hout
  split at hout
  case h_1 => cases hout
  case h_2 => split at hout <;> cases hout

end Failing

/-- The first item of the digest in the queue. -/
def Walk.first (walk : Walk) (digest : Digest) : Option Item :=
  walk.queue.find? (·.digest == digest)

def firstRow (rows : List Row) (digest : Digest) : Option Row :=
  rows.find? (·.digest == digest)

def Missing (input : PlanInput) (digest : Digest) : Prop :=
  input.refsOf digest = .error .blobUnknown

section First

variable {input : PlanInput} {walk after : Walk} {item found : Item} {digest : Digest}
  {rest : List Item} {good : Item → Prop}

theorem Appends.first (happends : Appends good walk after)
    (hfirst : walk.first digest = some found) :
    after.first digest = some found := by
  obtain ⟨more, hqueue, -⟩ := happends
  rw [Walk.first, hqueue, List.find?_append, show walk.queue.find? _ = _ from hfirst]
  rfl

theorem first_head (hqueue : walk.queue = item :: rest) (hdigest : item.digest = digest) :
    walk.first digest = some item := by
  rw [Walk.first, hqueue, List.find?_cons_of_pos]
  simpa using hdigest

theorem first_tail (hqueue : walk.queue = item :: rest) (hother : item.digest ≠ digest) :
    ({ walk with queue := rest } : Walk).first digest = walk.first digest := by
  rw [Walk.first, Walk.first, hqueue, List.find?_cons_of_neg]
  simpa using hother

theorem Visits.not_mem_kept (hvisits : Visits input walk item after) (hother : item.digest ≠ digest)
    (hnew : digest ∉ walk.kept) : digest ∉ after.kept := by
  rcases hvisits.kept with hkept | hkept
  · rwa [hkept]
  · rw [hkept, mem_cons, not_or]
    exact ⟨hother.symm, hnew⟩

theorem Visits.missing_optional (hvisits : Visits input walk item after)
    (hmissing : Missing input item.digest) (hrow : input.hasRow item.digest = true)
    (hnew : item.digest ∉ walk.kept) : item.required = false := by
  cases hvisits with
  | again hkept => exact absurd hkept hnew
  | tooLarge hcap => simp [PlanInput.overCap, hrow] at hcap
  | followed hrefs =>
    have := hmissing.symm.trans hrefs.2
    cases this
  | spared hscanned hbad => exact absurd hbad.1 (by simp [hrow])
  | missing hcap hmissing hoptional => exact hoptional
  | scanned hnamed => exact absurd hnamed.1 (by simp [hrow])

def RequiredFirst (digest : Digest) (walk : Walk) : Prop :=
  digest ∉ walk.kept ∧ ∃ first, walk.first digest = some first ∧ first.required = true

def OptionalFirst (digest : Digest) (walk : Walk) : Prop :=
  digest ∈ walk.kept ∨ ∃ first, walk.first digest = some first ∧ first.required = false

theorem requiredFirst_kept (hmissing : Missing input digest) (hrow : input.hasRow digest = true) :
    KeptByVisits input (RequiredFirst digest) := by
  rintro walk item rest after ⟨hnew, first, hfirst, hrequired⟩ hqueue hvisits
  by_cases hdigest : item.digest = digest
  · -- the visit of this item would have failed
    subst hdigest
    have hoptional := hvisits.missing_optional hmissing hrow hnew
    rw [first_head hqueue rfl] at hfirst
    cases hfirst
    rw [hrequired] at hoptional
    cases hoptional
  · rw [← first_tail hqueue hdigest] at hfirst
    exact ⟨hvisits.not_mem_kept hdigest hnew, first, hvisits.appends.first hfirst, hrequired⟩

theorem optionalFirst_kept (hmissing : Missing input digest) :
    KeptByVisits input (OptionalFirst digest) := by
  rintro walk item rest after (hkept | ⟨first, hfirst, hoptional⟩) hqueue hvisits
  · exact .inl (hvisits.grows.kept hkept)
  by_cases hdigest : item.digest = digest
  · subst hdigest
    refine .inl (hvisits.done.resolve_right ?_)
    rintro ⟨-, -, -, size, hbad⟩
    have := hmissing.symm.trans hbad
    cases this
  · rw [← first_tail hqueue hdigest] at hfirst
    exact .inr ⟨first, hvisits.appends.first hfirst, hoptional⟩

theorem OptionalFirst.head (hfirst : OptionalFirst digest walk) (hqueue : walk.queue = item :: rest)
    (hdigest : item.digest = digest) (hnew : digest ∉ walk.kept) : item.required = false := by
  obtain ⟨first, hfirst, hoptional⟩ := hfirst.resolve_left hnew
  rw [first_head hqueue hdigest] at hfirst
  cases hfirst
  exact hoptional

theorem OptionalFirst.appends (hfirst : OptionalFirst digest walk)
    (happends : Appends good walk after)
    (hkept : after.kept = walk.kept) : OptionalFirst digest after := by
  rcases hfirst with hbefore | ⟨first, hfirst, hoptional⟩
  · exact .inl (hkept ▸ hbefore)
  · exact .inr ⟨first, happends.first hfirst, hoptional⟩

end First

section RowLoop

variable {input : PlanInput} {gathered : Gathered} {digest : Digest}

theorem find?_digest_singleton (item : Item) (digest : Digest) :
    [item].find? (·.digest == digest) = if item.digest = digest then some item else none := by
  by_cases hdigest : item.digest = digest
  · simp [hdigest]
  · simp [hdigest]

theorem first_enqueue {walk : Walk} (hqueued : walk.queued = walk.queue.reverse) (item : Item)
    (digest : Digest) :
    (walk.enqueue item).first digest =
      (walk.first digest).or (if item.digest = digest then some item else none) := by
  unfold Walk.enqueue
  split
  case isFalse => rw [Walk.first, List.find?_append, find?_digest_singleton, Walk.first]
  rename_i hbefore
  rw [hqueued, mem_reverse] at hbefore
  split
  case isFalse => rw [or_none]
  rename_i hdigest
  have hsome : (walk.first digest).isSome := by
    rw [Walk.first, List.find?_isSome]
    exact ⟨item, hbefore, by simpa using hdigest⟩
  rw [or_of_isSome hsome]

theorem rowFate_missing {row : Row} {fate : RowFate} (hmissing : Missing input row.digest)
    (hfate : rowFate input row = .ok fate) : fate = .enqueue row.tagged := by
  unfold rowFate at hfate
  split at hfate
  case isTrue htagged =>
    cases hfate
    rw [htagged]
  rename_i huntagged
  have huntagged : row.tagged = false := by simpa using huntagged
  rw [huntagged]
  split at hfate
  case h_1 =>
    cases hfate
    rfl
  rename_i time htime
  split at hfate
  case isTrue =>
    cases hfate
    rfl
  case isFalse =>
    rw [show input.refsOf row.digest = _ from hmissing] at hfate
    cases hfate

/-- What the row loop leaves: nothing kept, every item in the queue and with a row of its
digest, and for each missing body its first row's tag on its first item. -/
structure RowsQueued (input : PlanInput) (rows : List Row) (gathered : Gathered) : Prop where
  fates : ∀ row ∈ rows, ∃ fate, rowFate input row = .ok fate
  kept : gathered.walk.kept = []
  nodup : gathered.walk.queued.Nodup
  queued : gathered.walk.queued = gathered.walk.queue.reverse
  row : ∀ item ∈ gathered.walk.queue, ∃ row ∈ rows, row.digest = item.digest
  referrers : gathered.referrers.length ≤ rows.length
  first : ∀ digest, Missing input digest →
    (gathered.walk.first digest).map Item.required = (firstRow rows digest).map Row.tagged

theorem firstRow_append (rows : List Row) (row : Row) (digest : Digest) :
    firstRow (rows ++ [row]) digest =
      (firstRow rows digest).or (if row.digest = digest then some row else none) := by
  rw [firstRow, List.find?_append, firstRow]
  by_cases hdigest : row.digest = digest
  · simp [hdigest]
  · simp [hdigest]

theorem kept_noteRow (walk : Walk) (row : Row) : (walk.noteRow input row).kept = walk.kept := by
  unfold Walk.noteRow
  split <;> rfl

theorem queue_noteRow (walk : Walk) (row : Row) : (walk.noteRow input row).queue = walk.queue := by
  unfold Walk.noteRow
  split <;> rfl

theorem kept_enqueue (walk : Walk) (item : Item) : (walk.enqueue item).kept = walk.kept :=
  (extends_enqueue walk item).kept

theorem RowsQueued.aside {rows : List Row} {row : Row} {candidates : List Digest}
    {referrers : List Referrer} (hqueued : RowsQueued input rows gathered)
    (hfate : ∃ fate, rowFate input row = .ok fate) (hread : ¬ Missing input row.digest)
    (hmore : referrers.length ≤ gathered.referrers.length + 1) :
    RowsQueued input (rows ++ [row]) ⟨gathered.walk.noteRow input row, candidates, referrers⟩ where
  fates := forall_mem_append.2 ⟨hqueued.fates, forall_mem_singleton.2 hfate⟩
  kept := by rw [kept_noteRow, hqueued.kept]
  nodup := by rw [queued_noteRow]; exact hqueued.nodup
  queued := by rw [queued_noteRow, queue_noteRow]; exact hqueued.queued
  row := by
    intro item hitem
    rw [queue_noteRow] at hitem
    obtain ⟨other, hother, hdigest⟩ := hqueued.row item hitem
    exact ⟨other, mem_append_left _ hother, hdigest⟩
  referrers := by
    rw [length_append, length_singleton]
    exact hmore.trans (Nat.add_le_add_right hqueued.referrers 1)
  first := by
    intro digest hmissing
    have hother : row.digest ≠ digest := fun hsame => hread (hsame ▸ hmissing)
    rw [firstRow_append, if_neg hother, or_none, ← hqueued.first digest hmissing, Walk.first,
      queue_noteRow, Walk.first]

theorem RowsQueued.enqueue {rows : List Row} {row : Row} {required : Bool}
    (hqueued : RowsQueued input rows gathered) (hfate : ∃ fate, rowFate input row = .ok fate)
    (htag : Missing input row.digest → required = row.tagged) :
    RowsQueued input (rows ++ [row])
      { gathered with
        walk := (gathered.walk.noteRow input row).enqueue ⟨row.digest, required, false⟩ } := by
  have hnoted : (gathered.walk.noteRow input row).queued =
      (gathered.walk.noteRow input row).queue.reverse := by
    rw [queued_noteRow, queue_noteRow]
    exact hqueued.queued
  have happends : Appends (fun item => item.digest = row.digest) (gathered.walk.noteRow input row)
      ((gathered.walk.noteRow input row).enqueue ⟨row.digest, required, false⟩) :=
    appends_enqueue _ rfl
  obtain ⟨more, hmore, hlast, hgood, hnodup⟩ := happends
  constructor
  case fates =>
    exact forall_mem_append.2 ⟨hqueued.fates, forall_mem_singleton.2 hfate⟩
  case kept => rw [kept_enqueue, kept_noteRow, hqueued.kept]
  case nodup =>
    apply hnodup
    rw [queued_noteRow]
    exact hqueued.nodup
  case queued => rw [hlast, hmore, hnoted, reverse_append]
  case row =>
    intro item hitem
    rw [hmore, queue_noteRow] at hitem
    rcases mem_append.1 hitem with hbefore | hthis
    · obtain ⟨other, hother, hdigest⟩ := hqueued.row item hbefore
      exact ⟨other, mem_append_left _ hother, hdigest⟩
    · exact ⟨row, mem_append_right _ (mem_singleton_self row), (hgood item hthis).symm⟩
  case referrers =>
    rw [length_append]
    exact hqueued.referrers.trans (Nat.le_add_right _ _)
  intro digest hmissing
  have hbefore := hqueued.first digest hmissing
  rw [first_enqueue hnoted, firstRow_append, map_or, map_or, ← hbefore]
  congr 1
  · rw [Walk.first, queue_noteRow, Walk.first]
  by_cases hdigest : row.digest = digest
  · rw [if_pos hdigest, if_pos hdigest, map_some, map_some, htag (hdigest ▸ hmissing)]
  · rw [if_neg hdigest, if_neg hdigest, map_none, map_none]

theorem gather_rowsQueued (hgather : gather input = .ok gathered) :
    RowsQueued input input.rows gathered := by
  refine foldlM_invariant ?_ ⟨by simp, rfl, by simp [Walk.start], rfl, by simp [Walk.start],
    by simp, fun _ _ => rfl⟩ hgather
  intro rows row before after _ hqueued hstep
  obtain ⟨fate, hfate, rfl⟩ := gatherRow_cases hstep
  have hread : ∀ {fate}, rowFate input row = .ok fate → fate ≠ .enqueue row.tagged →
      ¬ Missing input row.digest :=
    fun hfate hother hmissing => hother (rowFate_missing hmissing hfate)
  cases fate with
  | enqueue required =>
    refine hqueued.enqueue ⟨_, hfate⟩ fun hmissing => ?_
    have hsame := rowFate_missing hmissing hfate
    cases hsame
    rfl
  | candidate =>
    exact hqueued.aside ⟨_, hfate⟩ (hread hfate (fun hfalse => by cases hfalse)) (Nat.le_succ _)
  | referrer subject =>
    refine hqueued.aside ⟨_, hfate⟩ (hread hfate (fun hfalse => by cases hfalse)) ?_
    rw [length_append, length_singleton]

end RowLoop

theorem makePlan_error {input : PlanInput} {steps : ℕ} {error : PlanError}
    (hplan : makePlan input steps = .error error) :
    (∃ row ∈ input.rows, rowFate input row = .error error) ∨
      ∃ gathered, gather input = .ok gathered ∧
        settle input steps steps gathered.walk gathered.referrers = .error error := by
  have hwalk : walkPlan input steps = .error error := by
    unfold makePlan at hplan
    cases hwalk : walkPlan input steps with
    | ok walked => simp [hwalk, Except.map] at hplan
    | error cause =>
      rw [hwalk] at hplan
      exact congrArg Except.error (Except.error.inj hplan)
  unfold walkPlan at hwalk
  rw [bind_eq_error_iff] at hwalk
  rcases hwalk with hgather | ⟨gathered, hgather, hwalk⟩
  · obtain ⟨before, row, hrow, hfails⟩ := foldlM_error hgather
    unfold gatherRow at hfails
    rw [bind_eq_error_iff] at hfails
    rcases hfails with hfate | ⟨fate, -, hnever⟩
    · exact .inl ⟨row, hrow, hfate⟩
    · cases hnever
  · rw [bind_eq_error_iff] at hwalk
    rcases hwalk with hsettle | ⟨result, -, hnever⟩
    · exact .inr ⟨gathered, hgather, hsettle⟩
    · cases hnever

/-- What fails the plan in every order of the rows: an old row with an unreadable body, a kept
manifest that cannot be followed, or a missing body with tagged rows only. -/
inductive Doomed (input : PlanInput) : Prop
  | row (row : Row) (hrow : row ∈ input.rows) (error : PlanError)
      (hfate : rowFate input row = .error error)
  | kept (digest : Digest) (hforced : Forced input digest) (hfatal : Fatal input digest)
  | tagged (row : Row) (hrow : row ∈ input.rows) (hmissing : Missing input row.digest)
      (hall : ∀ other ∈ input.rows, other.digest = row.digest → other.tagged = true)

def TaggedFirst (input : PlanInput) (digest : Digest) : Prop :=
  Missing input digest ∧ ∃ row, firstRow input.rows digest = some row ∧ row.tagged = true

/-- What holds between two visits: the walk's invariant, that only a digest with a row is
required, and a missing body with an untagged first row is kept before that. -/
structure Steady (input : PlanInput) (walk : Walk) : Prop where
  inv : WalkInv input walk
  required : ∀ item ∈ walk.queue, item.required = true → input.hasRow item.digest = true
  first : ∀ digest, Missing input digest →
    (∃ row, firstRow input.rows digest = some row ∧ row.tagged = false) → OptionalFirst digest walk

section Characterised

variable {input : PlanInput} {walk : Walk} {error : PlanError} {steps : ℕ}

theorem hasRow_iff {digest : Digest} :
    input.hasRow digest = true ↔ ∃ row ∈ input.rows, row.digest = digest := by
  simp [PlanInput.hasRow]

theorem firstRow_isSome {rows : List Row} {digest : Digest} {row : Row} (hrow : row ∈ rows)
    (hdigest : row.digest = digest) : ∃ first, firstRow rows digest = some first := by
  apply isSome_iff_exists.1
  rw [firstRow, List.find?_isSome]
  exact ⟨row, hrow, by simpa using hdigest⟩

theorem mem_of_firstRow {rows : List Row} {digest : Digest} {row : Row}
    (hfirst : firstRow rows digest = some row) : row ∈ rows ∧ row.digest = digest :=
  ⟨mem_of_find?_eq_some hfirst, by simpa using List.find?_some hfirst⟩

theorem steady_kept : KeptByVisits input (Steady input) := by
  intro walk item rest after hsteady hqueue hvisits
  constructor
  case inv => exact hsteady.inv.visit hqueue hvisits
  case required =>
    intro other hother hrequired
    obtain ⟨more, hmore, -, hgood, -⟩ := hvisits.appends
    rw [hmore] at hother
    rcases mem_append.1 hother with hbefore | hnew
    · exact hsteady.required other (hqueue ▸ mem_cons_of_mem _ hbefore) hrequired
    · rw [(hgood other hnew).1] at hrequired
      cases hrequired
  case first =>
    intro digest hmissing hfirst
    exact optionalFirst_kept hmissing walk item rest after (hsteady.first digest hmissing hfirst)
      hqueue hvisits

theorem steady_joinAll {joining : List Referrer} (hsteady : Steady input walk)
    (hjoining : ∀ referrer ∈ joining, (∃ row ∈ input.rows, row.digest = referrer.digest ∧
      IsReferrer input row referrer.subject) ∧ live input walk referrer.subject = true) :
    Steady input (joining.foldl (fun walk referrer =>
      walk.enqueue ⟨referrer.digest, true, false⟩) walk) := by
  have happends := appends_joinAll walk joining
  constructor
  case inv =>
    refine joinAll_inv hsteady.inv ?_
    intro referrer hreferrer kept hclosed
    obtain ⟨⟨row, hrow, hdigest, hrefers⟩, hlive⟩ := hjoining referrer hreferrer
    rw [← hdigest]
    exact live_referrer_mem hclosed (hsteady.inv.sound kept hclosed) hrow hrefers hlive
  case required =>
    intro item hitem hrequired
    obtain ⟨more, hmore, -, hgood, -⟩ := happends
    rw [hmore] at hitem
    rcases mem_append.1 hitem with hbefore | hnew
    · exact hsteady.required item hbefore hrequired
    obtain ⟨-, referrer, hreferrer, hdigest⟩ := hgood item hnew
    obtain ⟨⟨row, hrow, hsame, -⟩, -⟩ := hjoining referrer hreferrer
    exact hasRow_iff.2 ⟨row, hrow, hsame.trans hdigest.symm⟩
  case first =>
    intro digest hmissing hfirst
    refine (hsteady.first digest hmissing hfirst).appends happends ?_
    exact (extends_foldl walk.kept (fun walk (referrer : Referrer) _ =>
      extends_enqueue walk ⟨referrer.digest, true, false⟩) joining rfl).kept

theorem steady_gather {gathered : Gathered} (hgather : gather input = .ok gathered) :
    Steady input gathered.walk := by
  have hqueued := gather_rowsQueued hgather
  constructor
  case inv => exact (gather_inv hgather).walk
  case required =>
    intro item hitem _
    exact hasRow_iff.2 (hqueued.row item hitem)
  case first =>
    rintro digest hmissing ⟨row, hrow, huntagged⟩
    have hfirst := hqueued.first digest hmissing
    rw [hrow, map_some, huntagged] at hfirst
    obtain ⟨first, hsome, hoptional⟩ := map_eq_some_iff.1 hfirst
    exact .inr ⟨first, hsome, hoptional⟩

/-- A visit that fails has reached a manifest the rules keep and cannot follow, or a missing
body whose first row is tagged. -/
theorem Steady.visit_fails (hfails : VisitFails input (Steady input) error) :
    Doomed input ∨ ∃ digest, TaggedFirst input digest := by
  obtain ⟨walk, item, rest, hsteady, hqueue, hvisit⟩ := hfails
  obtain ⟨hnew, hcap, cause, hrefs, -, hmissing, hparsed, hverified⟩ := visit_error hvisit
  have hmem : item ∈ walk.queue := hqueue ▸ mem_cons_self
  have hrow := hsteady.required item hmem
  by_cases hcause : cause = .blobUnknown
  · subst hcause
    obtain ⟨row, hin, hdigest⟩ := hasRow_iff.1 (hrow (hmissing rfl))
    obtain ⟨first, hfirst⟩ := firstRow_isSome hin hdigest
    refine .inr ⟨item.digest, hrefs, first, hfirst, ?_⟩
    by_contra huntagged
    have hoptional :=
      (hsteady.first item.digest hrefs ⟨first, hfirst, by simpa using huntagged⟩).head
      hqueue rfl hnew
    rw [hmissing rfl] at hoptional
    cases hoptional
  refine .inl (.kept item.digest ?_ ⟨hcap, cause, hrefs, hcause, ?_⟩)
  · intro kept hclosed
    have hsound := (hsteady.inv.sound kept hclosed).queue item hmem
    by_cases hbad : Unverifiable input item.digest
    · refine hsound.resolve_right ?_
      rintro ⟨hscanned, -⟩
      rw [hverified hbad] at hscanned
      cases hscanned
    · exact hsound.mem hclosed hbad
  · intro named hnamed
    have hnone := hnamed.1
    rw [hrow (hparsed named hnamed)] at hnone
    cases hnone

theorem fails_only (hplan : makePlan input steps = .error error) (hsteps : error ≠ .outOfSteps) :
    Doomed input ∨ ∃ digest, TaggedFirst input digest := by
  rcases makePlan_error hplan with ⟨row, hrow, hfate⟩ | ⟨gathered, hgather, hsettle⟩
  · exact .inl (.row row hrow error hfate)
  have hsettled := settle_error steady_kept (fun _ _ => steady_joinAll) (steady_gather hgather)
    (gather_inv hgather).referrers hsettle
  exact Steady.visit_fails (hsettled.resolve_left hsteps)

theorem no_plan_of_fails (hfails : Doomed input ∨ ∃ digest, TaggedFirst input digest)
    {plan : Plan} (hplan : makePlan input steps = .ok plan) : False := by
  obtain ⟨walked, hwalk, -⟩ := makePlan_eq_ok hplan
  have hinv := walkPlan_inv hwalk
  unfold walkPlan at hwalk
  rw [bind_eq_ok_iff] at hwalk
  obtain ⟨gathered, hgather, hwalk⟩ := hwalk
  rw [bind_eq_ok_iff] at hwalk
  obtain ⟨⟨walk, orphans⟩, hsettle, -⟩ := hwalk
  have hqueued := gather_rowsQueued hgather
  -- a missing body whose first row is tagged stops the first walk of the queue
  have htagged : ∀ digest, ¬ TaggedFirst input digest := by
    rintro digest ⟨hmissing, row, hfirst, htagged⟩
    obtain ⟨hin, hdigest⟩ := mem_of_firstRow hfirst
    obtain ⟨walked, hwalks⟩ := settle_walks hsettle
    have hbefore : RequiredFirst digest gathered.walk := by
      have hitem := hqueued.first digest hmissing
      rw [hfirst, map_some, htagged] at hitem
      obtain ⟨first, hsome, hrequired⟩ := map_eq_some_iff.1 hitem
      refine ⟨?_, first, hsome, hrequired⟩
      rw [hqueued.kept]
      exact not_mem_nil
    obtain ⟨⟨-, first, hsome, -⟩, hempty⟩ := walkQueue_ok
      (requiredFirst_kept hmissing (hasRow_iff.2 ⟨row, hin, hdigest⟩)) hbefore hwalks
    rw [Walk.first, hempty] at hsome
    cases hsome
  rcases hfails with hdoomed | ⟨digest, hfirst⟩
  · cases hdoomed with
    | row row hrow error hfate =>
      obtain ⟨fate, hok⟩ := hqueued.fates row hrow
      rw [hfate] at hok
      cases hok
    | kept digest hforced hfatal =>
      have hkept : digest ∈ walked.walk.kept := hforced _ hinv.closed
      obtain ⟨hcap, cause, hrefs, hpresent, hparsed⟩ := hfatal
      rcases (hinv.walk.complete.kept digest hkept).answered hcap with
        ⟨refs, hread⟩ | hmissing | ⟨named, hnamed⟩
      · rw [hrefs] at hread
        cases hread
      · rw [hrefs] at hmissing
        exact hpresent (Except.error.inj hmissing)
      · exact hparsed named hnamed
    | tagged row hrow hmissing hall =>
      obtain ⟨first, hfirst⟩ := firstRow_isSome hrow rfl
      obtain ⟨hin, hdigest⟩ := mem_of_firstRow hfirst
      exact htagged row.digest ⟨hmissing, first, hfirst, hall first hin hdigest⟩
  · exact htagged digest hfirst

end Characterised

/-- `refsOf` reads a body under this name. -/
def HasBody (input : PlanInput) (digest : Digest) : Prop :=
  (∃ refs, input.refsOf digest = .ok refs) ∨
    ∃ cause named, input.refsOf digest = .error (.unparsed cause named)

def Comes (input : PlanInput) (item : Item) : Prop :=
  input.hasRow item.digest = true ∨ NamedBy input item.digest

structure Bounded (items : Finset Item) (walk : Walk) : Prop where
  nodup : walk.queued.Nodup
  subset : ∀ item ∈ walk.queued, item ∈ items

def Walk.left (items : Finset Item) (walk : Walk) : ℕ :=
  items.card - walk.queued.length + walk.queue.length

section Enough

variable {input : PlanInput} {items : Finset Item} {walk after : Walk}

theorem finite_comes (hfinite : {digest | HasBody input digest}.Finite) :
    {item | Comes input item}.Finite := by
  have hrows : {digest | input.hasRow digest = true}.Finite := by
    apply (input.rows.map (·.digest)).toFinset.finite_toSet.subset
    intro digest hrow
    obtain ⟨row, hin, rfl⟩ := hasRow_iff.1 hrow
    simpa using ⟨row, hin, rfl⟩
  -- what one body names is a list, and finitely many bodies are read
  have hnamed : {digest | NamedBy input digest}.Finite := by
    let names (manifest : Digest) : List Digest :=
      match input.refsOf manifest with
      | .ok refs => refs.children
      | .error (.unparsed _ named) => named
      | .error _ => []
    apply (hfinite.biUnion fun manifest _ => (names manifest).toFinset.finite_toSet).subset
    rintro digest ⟨manifest, ⟨refs, ⟨-, hrefs⟩, hchild⟩ | ⟨named, ⟨-, -, cause, hrefs⟩, hfound⟩⟩
    · refine Set.mem_biUnion (show HasBody input manifest from .inl ⟨refs, hrefs⟩) ?_
      simpa [names, hrefs] using hchild
    · refine Set.mem_biUnion (show HasBody input manifest from .inr ⟨cause, named, hrefs⟩) ?_
      simpa [names, hrefs] using hfound
  have hpairs := (hrows.union hnamed).prod (Set.finite_univ : (Set.univ : Set (Bool × Bool)).Finite)
  apply (hpairs.image fun pair => (⟨pair.1, pair.2.1, pair.2.2⟩ : Item)).subset
  intro item hitem
  exact ⟨(item.digest, item.required, item.scanned), ⟨hitem, trivial⟩, rfl⟩

theorem Bounded.length_le (hbounded : Bounded items walk) : walk.queued.length ≤ items.card := by
  rw [← toFinset_card_of_nodup hbounded.nodup]
  apply Finset.card_le_card
  intro item hitem
  exact hbounded.subset item (mem_toFinset.1 hitem)

theorem Appends.bounded {good : Item → Prop} (happends : Appends good walk after)
    (hgood : ∀ item, good item → item ∈ items) (hbounded : Bounded items walk) :
    Bounded items after ∧ after.left items = walk.left items := by
  obtain ⟨more, hqueue, hqueued, hmore, hnodup⟩ := happends
  have hafter : Bounded items after := by
    refine ⟨hnodup hbounded.nodup, ?_⟩
    intro item hitem
    rw [hqueued] at hitem
    rcases mem_append.1 hitem with hnew | hbefore
    · exact hgood item (hmore item (mem_reverse.1 hnew))
    · exact hbounded.subset item hbefore
  refine ⟨hafter, ?_⟩
  have hle := hafter.length_le
  rw [hqueued, length_append, length_reverse] at hle
  rw [Walk.left, Walk.left, hqueue, hqueued, length_append, length_append, length_reverse]
  omega

theorem walkQueue_enough {steps : ℕ} (hitems : ∀ item, Comes input item → item ∈ items)
    (hbounded : Bounded items walk) (hsteps : walk.left items ≤ steps) :
    walkQueue input steps walk ≠ .error .outOfSteps ∧
      ∀ after, walkQueue input steps walk = .ok after →
        Bounded items after ∧ after.left items ≤ walk.left items := by
  induction steps generalizing walk with
  | zero =>
    have hqueue : walk.queue = [] := by
      rw [Walk.left] at hsteps
      exact eq_nil_of_length_eq_zero (by omega)
    rw [walkQueue_nil 0 hqueue]
    refine ⟨nofun, fun after hafter => ?_⟩
    cases hafter
    exact ⟨hbounded, le_refl _⟩
  | succ steps ih =>
    cases hqueue : walk.queue with
    | nil =>
      rw [walkQueue_nil _ hqueue]
      refine ⟨nofun, fun after hafter => ?_⟩
      cases hafter
      exact ⟨hbounded, le_refl _⟩
    | cons item rest =>
      rw [walkQueue_succ steps hqueue]
      have htaken : Bounded items { walk with queue := rest } := ⟨hbounded.nodup, hbounded.subset⟩
      have hleft : walk.left items = Walk.left items { walk with queue := rest } + 1 := by
        rw [Walk.left, hqueue, length_cons, ← Nat.add_assoc]
        rfl
      cases hvisit : visit input { walk with queue := rest } item with
      | error error =>
        refine ⟨fun hout => ?_, fun _ hok => by cases hok⟩
        exact visit_ne_outOfSteps (hvisit.trans hout)
      | ok next =>
        obtain ⟨hnext, hsame⟩ := (visit_cases hvisit).appends.bounded
          (fun item hfound => hitems item (.inr hfound.2)) htaken
        obtain ⟨henough, hafter⟩ := ih hnext (by omega)
        refine ⟨henough, fun after hok => ?_⟩
        obtain ⟨hbound, hle⟩ := hafter after hok
        exact ⟨hbound, by omega⟩

theorem settle_enough {steps rounds : ℕ} {referrers : List Referrer}
    (hitems : ∀ item, Comes input item → item ∈ items) (hbounded : Bounded items walk)
    (hreferrers : ∀ referrer ∈ referrers, input.hasRow referrer.digest = true)
    (hsteps : walk.left items ≤ steps) (hrounds : referrers.length < rounds) :
    settle input steps rounds walk referrers ≠ .error .outOfSteps := by
  induction rounds generalizing walk referrers with
  | zero => exact absurd hrounds (Nat.not_lt_zero _)
  | succ rounds ih =>
    obtain ⟨henough, hwalks⟩ := walkQueue_enough hitems hbounded hsteps
    unfold settle
    intro hout
    rw [bind_eq_error_iff] at hout
    rcases hout with hout | ⟨walked, hwalked, hout⟩
    · exact henough hout
    obtain ⟨hbound, hle⟩ := hwalks walked hwalked
    dsimp only at hout
    split at hout
    case isTrue => cases hout
    rename_i hjoined
    have hjoining : ∀ item : Item, (item.required = true ∧ ∃ referrer ∈ referrers.filter
        (fun referrer => live input walked referrer.subject),
          item.digest = referrer.digest) → item ∈ items := by
      rintro item ⟨-, referrer, hreferrer, hdigest⟩
      apply hitems
      left
      rw [hdigest]
      exact hreferrers referrer (mem_of_mem_filter hreferrer)
    obtain ⟨hjoins, hsame⟩ := (appends_joinAll walked _).bounded hjoining hbound
    refine ih hjoins ?_ (by omega) ?_ hout
    · exact fun referrer hreferrer => hreferrers referrer (mem_of_mem_filter hreferrer)
    have hfewer := length_filter_le (fun referrer => !live input walked referrer.subject)
      referrers
    omega

theorem makePlan_enough (hfinite : {digest | HasBody input digest}.Finite) :
    ∃ steps, makePlan input steps ≠ .error .outOfSteps := by
  have hitems : ∀ item, Comes input item → item ∈ (finite_comes hfinite).toFinset :=
    fun item hcomes => (finite_comes hfinite).mem_toFinset.2 hcomes
  refine ⟨(finite_comes hfinite).toFinset.card + input.rows.length + 1, ?_⟩
  intro hout
  rcases makePlan_error hout with ⟨row, -, hfate⟩ | ⟨gathered, hgather, hsettle⟩
  · exact rowFate_ne_outOfSteps hfate
  have hqueued := gather_rowsQueued hgather
  have hcomes : ∀ item ∈ gathered.walk.queued, item ∈ (finite_comes hfinite).toFinset := by
    intro item hitem
    rw [hqueued.queued, mem_reverse] at hitem
    exact hitems item (.inl (hasRow_iff.2 (hqueued.row item hitem)))
  have hbounded : Bounded (finite_comes hfinite).toFinset gathered.walk := ⟨hqueued.nodup, hcomes⟩
  refine settle_enough hitems hbounded ?_ ?_ ?_ hsettle
  · intro referrer hreferrer
    obtain ⟨row, hrow, hdigest, -⟩ := (gather_inv hgather).referrers referrer hreferrer
    exact hasRow_iff.2 ⟨row, hrow, hdigest⟩
  · have hle := hbounded.length_le
    rw [hqueued.queued, length_reverse] at hle
    rw [Walk.left, hqueued.queued, length_reverse]
    omega
  · have hfew := hqueued.referrers
    omega

end Enough

end K3sm.Registry.Gc
