import K3sm.Registry.Plan

/-!
# What a plan keeps

The rules a plan keeps manifests by are monotone, so there is a least set closed
under them.  The walk computes it: everything it keeps is forced by the rules,
and when its queue is empty no rule is left to apply.  The blobs and rows a plan
reaps are then read off that set.
-/

namespace K3sm.Registry.Gc

open K3sm.Core List

section Rules

variable (input : PlanInput)

def Readable (digest : Digest) (refs : Refs) : Prop :=
  input.overCap digest = false ∧ input.refsOf digest = .ok refs

/-- A row-less body that verifies but that the strict read refuses. -/
def Unparsable (digest : Digest) (named : List Digest) : Prop :=
  input.hasRow digest = false ∧ input.overCap digest = false ∧
    ∃ cause, input.refsOf digest = .error (.unparsed cause named)

/-- No row has the body's size to check it against. -/
def Unverifiable (digest : Digest) : Prop :=
  input.hasRow digest = false ∧ input.overCap digest = false ∧
    ∃ size, input.refsOf digest = .error (.unverified size)

def Stored (digest : Digest) : Prop := (input.mtime digest).isSome

def Young (digest : Digest) : Prop :=
  ∃ time, input.mtime digest = some time ∧ input.cutoff < time

def NamesChild (manifest child : Digest) : Prop :=
  ∃ refs, Readable input manifest refs ∧ child ∈ refs.children

/-- The digest is found in the body of the manifest, which does not parse. -/
def NamesScanned (manifest digest : Digest) : Prop :=
  ∃ named, Unparsable input manifest named ∧ digest ∈ named

def Names (manifest blob : Digest) : Prop :=
  (∃ refs, Readable input manifest refs ∧ blob ∈ refs.blobs) ∨
    NamesChild input manifest blob ∨ NamesScanned input manifest blob

/-- The blob is kept or named by a kept manifest. -/
def Referenced (kept : Set Digest) (blob : Digest) : Prop :=
  blob ∈ kept ∨ ∃ manifest ∈ kept, Names input manifest blob

/-- A row that is kept whatever else is: tagged, or untagged with no body,
young, held by a retention class, or carrying a subject that is no digest. -/
def KeptOutright (row : Row) : Prop :=
  row.tagged = true ∨ ¬ Stored input row.digest ∨ Young input row.digest ∨
    ∃ refs time, input.mtime row.digest = some time ∧
      input.refsOf row.digest = .ok refs ∧
      (input.retained refs time = true ∨
        ∃ subject, refs.subject = some subject ∧ parseDigest subject.digest = none)

/-- An untagged row past the grace, held by no class, whose subject parses. -/
def IsReferrer (row : Row) (subject : Digest) : Prop :=
  ¬ KeptOutright input row ∧ ∃ refs desc, input.refsOf row.digest = .ok refs ∧
    refs.subject = some desc ∧ parseDigest desc.digest = some subject

/-- The keep rules.  `spared` are the scanned digests the scan rule leaves
out. -/
structure KeepClosed (spared : Digest → Prop) (kept : Set Digest) : Prop where
  outright : ∀ row ∈ input.rows, KeptOutright input row → row.digest ∈ kept
  child : ∀ manifest ∈ kept, ∀ child, NamesChild input manifest child → child ∈ kept
  scanned : ∀ manifest ∈ kept, ∀ digest, NamesScanned input manifest digest →
    Stored input digest → ¬ spared digest → digest ∈ kept
  referrer : ∀ row ∈ input.rows, ∀ subject, IsReferrer input row subject →
    (Referenced input kept subject ∨ Young input subject) → row.digest ∈ kept

end Rules

structure Extends (before after : Walk) (named : Set Digest) (items : Set Item) :
    Prop where
  kept : after.kept = before.kept
  read : after.read = before.read
  referenced : ∀ digest, digest ∈ after.referenced ↔ digest ∈ before.referenced ∨ digest ∈ named
  queued : ∀ item, item ∈ after.queued ↔ item ∈ before.queued ∨ item ∈ items
  stays : ∀ item ∈ before.queue, item ∈ after.queue
  comes : ∀ item ∈ after.queue, item ∈ before.queue ∨ item ∈ items
  fresh : ∀ item ∈ after.queued, item ∈ before.queued ∨ item ∈ after.queue

theorem Extends.refl (walk : Walk) : Extends walk walk ∅ ∅ where
  kept := rfl
  read := rfl
  referenced := by simp
  queued := by simp
  stays := fun _ hitem => hitem
  comes := fun _ hitem => .inl hitem
  fresh := fun _ hitem => .inl hitem

theorem Extends.trans {first second third : Walk} {named named' : Set Digest}
    {items items' : Set Item} (hfirst : Extends first second named items)
    (hsecond : Extends second third named' items') :
    Extends first third (named ∪ named') (items ∪ items') where
  kept := hsecond.kept.trans hfirst.kept
  read := hsecond.read.trans hfirst.read
  referenced := by
    intro digest
    rw [hsecond.referenced, hfirst.referenced, Set.mem_union, or_assoc]
  queued := by
    intro item
    rw [hsecond.queued, hfirst.queued, Set.mem_union, or_assoc]
  stays := fun item hitem => hsecond.stays item (hfirst.stays item hitem)
  comes := by
    intro item hitem
    rcases hsecond.comes item hitem with hmiddle | hnew
    · rcases hfirst.comes item hmiddle with hold | hnew
      · exact .inl hold
      · exact .inr (.inl hnew)
    · exact .inr (.inr hnew)
  fresh := by
    intro item hitem
    rcases hsecond.fresh item hitem with hmiddle | hqueue
    · rcases hfirst.fresh item hmiddle with hold | hqueue
      · exact .inl hold
      · exact .inr (hsecond.stays item hqueue)
    · exact .inr hqueue

theorem extends_enqueue (walk : Walk) (item : Item) :
    Extends walk (walk.enqueue item) ∅ {item} := by
  by_cases hqueued : item ∈ walk.queued
  · have hsame : walk.enqueue item = walk := if_pos hqueued
    rw [hsame]
    refine { Extends.refl walk with queued := ?_, comes := ?_ }
    · intro other
      constructor
      · exact .inl
      rintro (hother | rfl)
      · exact hother
      · exact hqueued
    · exact fun other hother => .inl hother
  have hnew : walk.enqueue item =
      { walk with queued := item :: walk.queued, queue := walk.queue ++ [item] } :=
    if_neg hqueued
  rw [hnew]
  exact
    { kept := rfl
      read := rfl
      referenced := by simp
      queued := by simp [or_comm]
      stays := fun other hother => mem_append_left _ hother
      comes := by simp
      fresh := by
        intro other hother
        rcases mem_cons.1 hother with rfl | hother
        · exact .inr (by simp)
        · exact .inl hother }

theorem extends_refer (walk : Walk) (digests : List Digest) :
    Extends walk (walk.refer digests) {digest | digest ∈ digests} ∅ :=
  { Extends.refl walk with referenced := by simp [Walk.refer, or_comm] }

/-- A fold of extensions extends by the union, as long as each step's effect
depends on the walk only through what it keeps. -/
theorem extends_foldl {Value : Type} {step : Walk → Value → Walk}
    {named : Value → Set Digest} {items : Value → Set Item} (kept : List Digest)
    (hstep : ∀ walk value, walk.kept = kept →
      Extends walk (step walk value) (named value) (items value))
    (values : List Value) {walk : Walk} (hkept : walk.kept = kept) :
    Extends walk (values.foldl step walk) {digest | ∃ value ∈ values, digest ∈ named value}
      {item | ∃ value ∈ values, item ∈ items value} := by
  induction values generalizing walk with
  | nil => simpa using Extends.refl walk
  | cons value values ih =>
    have hhead := hstep walk value hkept
    have hall := hhead.trans (ih (hhead.kept.trans hkept))
    have hnamed : {digest | ∃ other ∈ value :: values, digest ∈ named other} =
        named value ∪ {digest | ∃ other ∈ values, digest ∈ named other} := by
      ext digest
      simp
    have hitems : {item | ∃ other ∈ value :: values, item ∈ items other} =
        items value ∪ {item | ∃ other ∈ values, item ∈ items other} := by
      ext item
      simp
    rw [hnamed, hitems]
    exact hall

theorem extends_referEnqueue (walk : Walk) (item : Item) :
    Extends walk ((walk.refer [item.digest]).enqueue item) {item.digest} {item} := by
  have hboth := (extends_refer walk [item.digest]).trans
    (extends_enqueue (walk.refer [item.digest]) item)
  simpa using hboth

/-- Following a readable body references its config, its layers and its
children, and queues the children. -/
theorem extends_follow (walk : Walk) (refs : Refs) :
    Extends walk (walk.follow refs) {digest | digest ∈ refs.blobs ∨ digest ∈ refs.children}
      {item | ∃ child ∈ refs.children, item = ⟨child, false, false⟩} := by
  have hchildren : Extends (walk.refer refs.blobs) (walk.follow refs)
      {digest | ∃ child ∈ refs.children, digest ∈ ({child} : Set Digest)}
      {item | ∃ child ∈ refs.children, item ∈ ({⟨child, false, false⟩} : Set Item)} :=
    extends_foldl walk.kept
      (fun walk child _ => extends_referEnqueue walk ⟨child, false, false⟩)
      refs.children rfl
  have hboth := (extends_refer walk refs.blobs).trans hchildren
  have hnamed : {digest | digest ∈ refs.blobs} ∪
      {digest | ∃ child ∈ refs.children, digest ∈ ({child} : Set Digest)} =
      {digest | digest ∈ refs.blobs ∨ digest ∈ refs.children} := by
    ext digest
    simp
  rw [hnamed, Set.empty_union] at hboth
  exact hboth

def scanItems (input : PlanInput) (kept : List Digest) (digest : Digest) : Set Item :=
  {item | item = ⟨digest, false, true⟩ ∧ Stored input digest ∧ digest ∉ kept}

theorem extends_scanOne (input : PlanInput) (walk : Walk) (digest : Digest) :
    Extends walk (walk.scanOne input digest) {digest} (scanItems input walk.kept digest) := by
  by_cases hstored : Stored input digest ∧ digest ∉ walk.kept
  · have hqueues : walk.scanOne input digest =
        (walk.refer [digest]).enqueue ⟨digest, false, true⟩ := if_pos hstored
    have hitems : scanItems input walk.kept digest = {⟨digest, false, true⟩} := by
      ext item
      simp [scanItems, hstored]
    rw [hqueues, hitems]
    exact extends_referEnqueue walk ⟨digest, false, true⟩
  · have hrefers : walk.scanOne input digest = walk.refer [digest] := if_neg hstored
    have hitems : scanItems input walk.kept digest = ∅ := by
      ext item
      simp only [scanItems, Set.mem_ofPred_eq, Set.mem_empty_iff_false, iff_false]
      exact fun hitem => hstored hitem.2
    rw [hrefers, hitems]
    simpa using extends_refer walk [digest]

theorem extends_scan (input : PlanInput) (walk : Walk) (named : List Digest) :
    Extends walk (named.foldl (Walk.scanOne input) walk)
      {digest | ∃ found ∈ named, digest ∈ ({found} : Set Digest)}
      {item | ∃ found ∈ named, item ∈ scanItems input walk.kept found} :=
  extends_foldl walk.kept
    (fun walk digest hkept => hkept ▸ extends_scanOne input walk digest) named rfl

inductive Visits (input : PlanInput) (before : Walk) (item : Item) : Walk → Prop
  | again (hkept : item.digest ∈ before.kept) : Visits input before item before
  | tooLarge (hcap : input.overCap item.digest = true) :
      Visits input before item ((before.refer [item.digest]).keep item.digest)
  | followed {refs : Refs} (hrefs : Readable input item.digest refs) :
      Visits input before item
        ((((before.refer [item.digest]).noteRead item.digest).keep item.digest).follow refs)
  | spared (hscanned : item.scanned = true) (hbad : Unverifiable input item.digest) :
      Visits input before item ((before.refer [item.digest]).noteRead item.digest)
  | missing (hcap : input.overCap item.digest = false)
      (hmissing : input.refsOf item.digest = .error .blobUnknown)
      (hoptional : item.required = false) :
      Visits input before item
        (((before.refer [item.digest]).noteRead item.digest).keep item.digest)
  | scanned {named : List Digest} (hnamed : Unparsable input item.digest named) :
      Visits input before item
        (named.foldl (Walk.scanOne input)
          (((before.refer [item.digest]).noteRead item.digest).keep item.digest))

theorem visit_cases {input : PlanInput} {before after : Walk} {item : Item}
    (hvisit : visit input before item = .ok after) : Visits input before item after := by
  unfold visit at hvisit
  split at hvisit
  case isTrue hkept =>
    cases hvisit
    exact .again hkept
  rename_i hnew
  split at hvisit
  case isTrue hcap =>
    cases hvisit
    exact .tooLarge hcap
  rename_i hcap
  have hcap : input.overCap item.digest = false := by simpa using hcap
  split at hvisit
  case h_1 refs hrefs =>
    cases hvisit
    exact .followed ⟨hcap, hrefs⟩
  case h_2 size hrefs =>
    split at hvisit
    case isFalse => cases hvisit
    rename_i hscanned
    cases hvisit
    exact .spared hscanned.1 ⟨hscanned.2, hcap, size, hrefs⟩
  case h_3 hrefs =>
    split at hvisit
    case isTrue => cases hvisit
    rename_i hoptional
    cases hvisit
    exact .missing hcap hrefs (by simpa using hoptional)
  case h_4 cause named hrefs =>
    split at hvisit
    case isTrue => cases hvisit
    rename_i hoptional
    cases hvisit
    exact .scanned ⟨by simpa using (not_or.1 hoptional).2, hcap, cause, hrefs⟩
  case h_5 => cases hvisit

/-! ## The walk keeps only what the rules keep -/

/-- Why an item may be in the queue of a walk that keeps nothing outside
`kept`: a rule keeps it, or the scan of a kept body found it. -/
def ItemSound (input : PlanInput) (kept : Set Digest) (item : Item) : Prop :=
  item.digest ∈ kept ∨
    (item.scanned = true ∧ Stored input item.digest ∧
      ∃ manifest ∈ kept, NamesScanned input manifest item.digest)

/-- The invariant of the walk: what it keeps is to be kept. -/
structure Sound (input : PlanInput) (closed : Set Digest) (walk : Walk) : Prop where
  kept : ∀ digest ∈ walk.kept, digest ∈ closed
  referenced : ∀ digest ∈ walk.referenced, Referenced input closed digest
  queue : ∀ item ∈ walk.queue, ItemSound input closed item

section Sound

variable {input : PlanInput} {kept : Set Digest} {walk after : Walk}

theorem ItemSound.referenced {item : Item} (hitem : ItemSound input kept item) :
    Referenced input kept item.digest := by
  rcases hitem with hkept | ⟨-, -, manifest, hmanifest, hnames⟩
  · exact .inl hkept
  · exact .inr ⟨manifest, hmanifest, .inr (.inr hnames)⟩

theorem ItemSound.mem (hclosed : KeepClosed input (Unverifiable input) kept)
    {item : Item} (hitem : ItemSound input kept item)
    (hverified : ¬ Unverifiable input item.digest) : item.digest ∈ kept := by
  rcases hitem with hkept | ⟨-, hstored, manifest, hmanifest, hnames⟩
  · exact hkept
  · exact hclosed.scanned manifest hmanifest _ hnames hstored hverified

theorem Sound.refer {digests : List Digest} (hsound : Sound input kept walk)
    (hdigests : ∀ digest ∈ digests, Referenced input kept digest) :
    Sound input kept (walk.refer digests) :=
  { hsound with
    referenced := fun digest hdigest =>
      (mem_append.1 hdigest).elim (hdigests digest) (hsound.referenced digest) }

theorem Sound.noteRead (hsound : Sound input kept walk) (digest : Digest) :
    Sound input kept (walk.noteRead digest) :=
  { kept := hsound.kept, referenced := hsound.referenced, queue := hsound.queue }

theorem Sound.keep {digest : Digest} (hsound : Sound input kept walk)
    (hdigest : digest ∈ kept) : Sound input kept (walk.keep digest) :=
  { hsound with
    kept := by
      intro other hother
      rcases mem_cons.1 hother with rfl | hother
      · exact hdigest
      · exact hsound.kept other hother }

theorem Sound.extends {named : Set Digest} {items : Set Item}
    (hsound : Sound input kept walk) (hextends : Extends walk after named items)
    (hnamed : ∀ digest ∈ named, Referenced input kept digest)
    (hitems : ∀ item ∈ items, ItemSound input kept item) : Sound input kept after where
  kept := by
    rw [hextends.kept]
    exact hsound.kept
  referenced := fun digest hdigest =>
    ((hextends.referenced digest).1 hdigest).elim (hsound.referenced digest) (hnamed digest)
  queue := fun item hitem =>
    (hextends.comes item hitem).elim (hsound.queue item) (hitems item)

theorem Sound.visits (hclosed : KeepClosed input (Unverifiable input) kept)
    {item : Item} (hsound : Sound input kept walk) (hitem : ItemSound input kept item)
    (hvisits : Visits input walk item after) : Sound input kept after := by
  have hrefer : Sound input kept (walk.refer [item.digest]) :=
    hsound.refer (by simpa using hitem.referenced)
  cases hvisits with
  | again hkept => exact hsound
  | tooLarge hcap =>
    refine hrefer.keep (hitem.mem hclosed ?_)
    rintro ⟨-, hsmall, -⟩
    simp [hcap] at hsmall
  | followed hrefs =>
    rename_i refs
    have hmem : item.digest ∈ kept := by
      refine hitem.mem hclosed ?_
      rintro ⟨-, -, size, hbad⟩
      simp [hrefs.2] at hbad
    refine ((hrefer.noteRead _).keep hmem).extends (extends_follow _ refs) ?_ ?_
    · rintro digest (hblob | hchild)
      · exact .inr ⟨_, hmem, .inl ⟨refs, hrefs, hblob⟩⟩
      · exact .inr ⟨_, hmem, .inr (.inl ⟨refs, hrefs, hchild⟩)⟩
    · rintro other ⟨child, hchild, rfl⟩
      exact .inl (hclosed.child _ hmem child ⟨refs, hrefs, hchild⟩)
  | spared hscanned hbad => exact hrefer.noteRead _
  | missing hcap hmissing hoptional =>
    refine (hrefer.noteRead _).keep (hitem.mem hclosed ?_)
    rintro ⟨-, -, size, hbad⟩
    simp [hmissing] at hbad
  | scanned hnamed =>
    rename_i named
    have hmem : item.digest ∈ kept := by
      refine hitem.mem hclosed ?_
      rintro ⟨-, -, size, hbad⟩
      obtain ⟨-, -, cause, hread⟩ := hnamed
      simp [hread] at hbad
    refine ((hrefer.noteRead _).keep hmem).extends (extends_scan input _ named) ?_ ?_
    · rintro digest ⟨found, hfound, rfl⟩
      exact .inr ⟨_, hmem, .inr (.inr ⟨named, hnamed, hfound⟩)⟩
    · rintro other ⟨found, hfound, rfl, hstored, -⟩
      exact .inr ⟨rfl, hstored, _, hmem, named, hnamed, hfound⟩

end Sound

def ItemDone (input : PlanInput) (walk : Walk) (item : Item) : Prop :=
  item.digest ∈ walk.kept ∨ (item.scanned = true ∧ Unverifiable input item.digest)

structure Settled (input : PlanInput) (walk : Walk) (digest : Digest) : Prop where
  referenced : digest ∈ walk.referenced
  read : input.overCap digest = false → digest ∈ walk.read
  answered : input.overCap digest = false →
    (∃ refs, input.refsOf digest = .ok refs) ∨
      input.refsOf digest = .error .blobUnknown ∨ ∃ named, Unparsable input digest named
  blobs : ∀ refs, Readable input digest refs → ∀ blob ∈ refs.blobs, blob ∈ walk.referenced
  children : ∀ child, NamesChild input digest child →
    child ∈ walk.referenced ∧ ⟨child, false, false⟩ ∈ walk.queued
  scanned : ∀ found, NamesScanned input digest found → found ∈ walk.referenced ∧
    (Stored input found → found ∈ walk.kept ∨ ⟨found, false, true⟩ ∈ walk.queued)

structure Complete (input : PlanInput) (pending : Set Item) (walk : Walk) : Prop where
  kept : ∀ digest ∈ walk.kept, Settled input walk digest
  queued : ∀ item ∈ walk.queued, item ∈ walk.queue ∨ item ∈ pending ∨ ItemDone input walk item

structure Grows (before after : Walk) : Prop where
  kept : before.kept ⊆ after.kept
  referenced : before.referenced ⊆ after.referenced
  read : before.read ⊆ after.read
  queued : before.queued ⊆ after.queued
  queue : before.queue ⊆ after.queue
  fresh : ∀ item ∈ after.queued, item ∈ before.queued ∨ item ∈ after.queue

section Complete

variable {input : PlanInput} {first walk after : Walk} {item : Item} {pending : Set Item}

theorem Grows.trans (hfirst : Grows first walk) (hsecond : Grows walk after) :
    Grows first after where
  kept := List.Subset.trans hfirst.kept hsecond.kept
  referenced := List.Subset.trans hfirst.referenced hsecond.referenced
  read := List.Subset.trans hfirst.read hsecond.read
  queued := List.Subset.trans hfirst.queued hsecond.queued
  queue := List.Subset.trans hfirst.queue hsecond.queue
  fresh := by
    intro item hitem
    rcases hsecond.fresh item hitem with hmiddle | hqueue
    · rcases hfirst.fresh item hmiddle with hold | hqueue
      · exact .inl hold
      · exact .inr (hsecond.queue hqueue)
    · exact .inr hqueue

theorem Extends.grows {named : Set Digest} {items : Set Item}
    (hextends : Extends walk after named items) : Grows walk after where
  kept := by rw [hextends.kept]; exact List.Subset.refl _
  referenced := fun digest hdigest => (hextends.referenced digest).2 (.inl hdigest)
  read := by rw [hextends.read]; exact List.Subset.refl _
  queued := fun item hitem => (hextends.queued item).2 (.inl hitem)
  queue := hextends.stays
  fresh := hextends.fresh

theorem grows_noteRead (walk : Walk) (digest : Digest) : Grows walk (walk.noteRead digest) :=
  { (Extends.refl walk).grows with read := subset_cons_self _ _ }

theorem grows_keep (walk : Walk) (digest : Digest) : Grows walk (walk.keep digest) :=
  { (Extends.refl walk).grows with kept := subset_cons_self _ _ }

theorem grows_readAndKeep (walk : Walk) (digest : Digest) :
    Grows walk (((walk.refer [digest]).noteRead digest).keep digest) :=
  (extends_refer walk [digest]).grows.trans ((grows_noteRead _ digest).trans (grows_keep _ digest))

variable {digest : Digest}

theorem Settled.grows (hgrows : Grows walk after) (hsettled : Settled input walk digest) :
    Settled input after digest where
  referenced := hgrows.referenced hsettled.referenced
  read := fun hcap => hgrows.read (hsettled.read hcap)
  answered := hsettled.answered
  blobs := fun refs hrefs blob hblob => hgrows.referenced (hsettled.blobs refs hrefs blob hblob)
  children := fun child hchild =>
    ⟨hgrows.referenced (hsettled.children child hchild).1,
      hgrows.queued (hsettled.children child hchild).2⟩
  scanned := fun found hfound =>
    ⟨hgrows.referenced (hsettled.scanned found hfound).1,
      fun hstored => ((hsettled.scanned found hfound).2 hstored).imp
        (fun hkept => hgrows.kept hkept) (fun hqueued => hgrows.queued hqueued)⟩

theorem Visits.grows (hvisits : Visits input walk item after) : Grows walk after := by
  cases hvisits with
  | again hkept => exact (Extends.refl walk).grows
  | tooLarge hcap => exact (extends_refer walk _).grows.trans (grows_keep _ _)
  | followed hrefs => exact (grows_readAndKeep walk _).trans (extends_follow _ _).grows
  | spared hscanned hbad => exact (extends_refer walk _).grows.trans (grows_noteRead _ _)
  | missing hcap hmissing hoptional => exact grows_readAndKeep walk _
  | scanned hnamed => exact (grows_readAndKeep walk _).trans (extends_scan input _ _).grows

theorem Visits.kept (hvisits : Visits input walk item after) :
    after.kept = walk.kept ∨ after.kept = item.digest :: walk.kept := by
  cases hvisits with
  | again hkept => exact .inl rfl
  | tooLarge hcap => exact .inr rfl
  | followed hrefs => exact .inr (extends_follow _ _).kept
  | spared hscanned hbad => exact .inl rfl
  | missing hcap hmissing hoptional => exact .inr rfl
  | scanned hnamed => exact .inr (extends_scan input _ _).kept

theorem Visits.done (hvisits : Visits input walk item after) : ItemDone input after item := by
  cases hvisits with
  | again hkept => exact .inl hkept
  | tooLarge hcap => exact .inl mem_cons_self
  | followed hrefs => exact .inl ((extends_follow _ _).grows.kept mem_cons_self)
  | spared hscanned hbad => exact .inr ⟨hscanned, hbad⟩
  | missing hcap hmissing hoptional => exact .inl mem_cons_self
  | scanned hnamed => exact .inl ((extends_scan input _ _).grows.kept mem_cons_self)

theorem Settled.of_followed {refs : Refs} {before after : Walk} (hrefs : Readable input digest refs)
    (hreferenced : digest ∈ before.referenced) (hread : digest ∈ before.read)
    (hextends : Extends before after {found | found ∈ refs.blobs ∨ found ∈ refs.children}
      {item | ∃ child ∈ refs.children, item = ⟨child, false, false⟩}) :
    Settled input after digest := by
  have hunique : ∀ other, Readable input digest other → other = refs := by
    intro other hother
    exact Except.ok.inj (hother.2.symm.trans hrefs.2)
  refine ⟨hextends.grows.referenced hreferenced, fun _ => hextends.grows.read hread,
    fun _ => .inl ⟨refs, hrefs.2⟩, ?_, ?_, ?_⟩
  · intro other hother blob hblob
    rw [hunique other hother] at hblob
    exact (hextends.referenced blob).2 (.inr (.inl hblob))
  · rintro child ⟨other, hother, hchild⟩
    rw [hunique other hother] at hchild
    exact ⟨(hextends.referenced child).2 (.inr (.inr hchild)),
      (hextends.queued _).2 (.inr ⟨child, hchild, rfl⟩)⟩
  · rintro found ⟨named, ⟨-, -, cause, hbad⟩, -⟩
    simp [hrefs.2] at hbad

theorem Settled.of_scanned {named : List Digest} {before after : Walk}
    (hnamed : Unparsable input digest named) (hreferenced : digest ∈ before.referenced)
    (hread : digest ∈ before.read) (hextends : Extends before after
      {other | ∃ found ∈ named, other ∈ ({found} : Set Digest)}
      {item | ∃ found ∈ named, item ∈ scanItems input before.kept found}) :
    Settled input after digest := by
  obtain ⟨cause, hrefs⟩ := hnamed.2.2
  refine ⟨hextends.grows.referenced hreferenced, fun _ => hextends.grows.read hread,
    fun _ => .inr (.inr ⟨named, hnamed⟩), ?_, ?_, ?_⟩
  · rintro refs ⟨-, hother⟩
    simp [hrefs] at hother
  · rintro child ⟨refs, ⟨-, hother⟩, -⟩
    simp [hrefs] at hother
  rintro found ⟨others, ⟨-, -, cause', hothers⟩, hfound⟩
  have hsame : others = named := by
    have herror := Except.error.inj (hothers.symm.trans hrefs)
    exact (ReadError.unparsed.inj herror).2
  rw [hsame] at hfound
  refine ⟨(hextends.referenced found).2 (.inr ⟨found, hfound, rfl⟩), fun hstored => ?_⟩
  by_cases hkept : found ∈ before.kept
  · exact .inl (hextends.grows.kept hkept)
  · exact .inr ((hextends.queued _).2 (.inr ⟨found, hfound, rfl, hstored, hkept⟩))

theorem Settled.of_missing (hmissing : input.refsOf digest = .error .blobUnknown)
    (hreferenced : digest ∈ walk.referenced) (hread : digest ∈ walk.read) :
    Settled input walk digest := by
  refine ⟨hreferenced, fun _ => hread, fun _ => .inr (.inl hmissing), ?_, ?_, ?_⟩
  · rintro refs ⟨-, hother⟩
    simp [hmissing] at hother
  · rintro child ⟨refs, ⟨-, hother⟩, -⟩
    simp [hmissing] at hother
  · rintro found ⟨named, ⟨-, -, cause, hother⟩, -⟩
    simp [hmissing] at hother

theorem Settled.of_tooLarge (hcap : input.overCap digest = true)
    (hreferenced : digest ∈ walk.referenced) : Settled input walk digest := by
  refine ⟨hreferenced, ?_, ?_, ?_, ?_, ?_⟩
  · simp [hcap]
  · simp [hcap]
  · rintro refs ⟨hsmall, -⟩
    simp [hcap] at hsmall
  · rintro child ⟨refs, ⟨hsmall, -⟩, -⟩
    simp [hcap] at hsmall
  · rintro found ⟨named, ⟨-, hsmall, -⟩, -⟩
    simp [hcap] at hsmall

theorem Visits.settled (hvisits : Visits input walk item after)
    (hcomplete : Complete input pending walk) (hkept : item.digest ∈ after.kept) :
    Settled input after item.digest := by
  cases hvisits with
  | again hbefore => exact hcomplete.kept _ hbefore
  | tooLarge hcap => exact .of_tooLarge hcap mem_cons_self
  | followed hrefs =>
    exact .of_followed hrefs mem_cons_self mem_cons_self (extends_follow _ _)
  | spared hscanned hbad =>
    exact (hcomplete.kept _ hkept).grows ((extends_refer walk _).grows.trans (grows_noteRead _ _))
  | missing hcap hmissing hoptional =>
    exact .of_missing hmissing mem_cons_self mem_cons_self
  | scanned hnamed =>
    exact .of_scanned hnamed mem_cons_self mem_cons_self (extends_scan input _ _)

theorem Complete.visits (hcomplete : Complete input {item} walk)
    (hvisits : Visits input walk item after) : Complete input ∅ after where
  kept := by
    intro digest hdigest
    by_cases hbefore : digest ∈ walk.kept
    · exact (hcomplete.kept digest hbefore).grows hvisits.grows
    have hsame : digest = item.digest := by
      rcases hvisits.kept with hkept | hkept
      · exact absurd (hkept ▸ hdigest) hbefore
      · rw [hkept] at hdigest
        exact (mem_cons.1 hdigest).resolve_right hbefore
    rw [hsame] at hdigest ⊢
    exact hvisits.settled hcomplete hdigest
  queued := by
    intro other hother
    rcases hvisits.grows.fresh other hother with hbefore | hqueue
    · rcases hcomplete.queued other hbefore with hqueue | hpending | hdone
      · exact .inl (hvisits.grows.queue hqueue)
      · rw [Set.mem_singleton_iff.1 hpending]
        exact .inr (.inr hvisits.done)
      · exact .inr (.inr (hdone.imp (fun hkept => hvisits.grows.kept hkept) id))
    · exact .inl hqueue

end Complete

def Answered (input : PlanInput) (digest : Digest) : Prop :=
  (∃ refs, input.refsOf digest = .ok refs) ∨ input.refsOf digest = .error .blobUnknown ∨
    (∃ cause named, input.refsOf digest = .error (.unparsed cause named)) ∨
    ∃ size, input.refsOf digest = .error (.unverified size)

/-- What holds of a walk between two visits: the rules force all it has, none is
left out but for the queue, and every body it asked for was answered. -/
structure WalkInv (input : PlanInput) (walk : Walk) : Prop where
  sound : ∀ kept, KeepClosed input (Unverifiable input) kept → Sound input kept walk
  complete : Complete input ∅ walk
  answered : ∀ digest ∈ walk.read, Answered input digest

section Walk

variable {input : PlanInput} {walk after : Walk}

theorem WalkInv.enqueue (hinv : WalkInv input walk) {item : Item}
    (hitem : ∀ kept, KeepClosed input (Unverifiable input) kept → Sound input kept walk →
      item.digest ∈ kept) : WalkInv input (walk.enqueue item) where
  sound := fun kept hclosed =>
    (hinv.sound kept hclosed).extends (extends_enqueue walk item) (by simp)
      (fun other hother => Set.mem_singleton_iff.1 hother ▸
        .inl (hitem kept hclosed (hinv.sound kept hclosed)))
  complete :=
    have hextends := extends_enqueue walk item
    { kept := fun digest hdigest =>
        (hinv.complete.kept digest (hextends.kept ▸ hdigest)).grows hextends.grows
      queued := by
        intro other hother
        rcases hextends.fresh other hother with hbefore | hqueue
        · rcases hinv.complete.queued other hbefore with hqueue | hpending | hdone
          · exact .inl (hextends.stays other hqueue)
          · exact absurd hpending (Set.notMem_empty other)
          · exact .inr (.inr (hdone.imp (fun hkept => hextends.grows.kept hkept) id))
        · exact .inl hqueue }
  answered := fun digest hdigest =>
    hinv.answered digest ((extends_enqueue walk item).read ▸ hdigest)

theorem WalkInv.noteRead (hinv : WalkInv input walk) {digest : Digest}
    (hanswered : Answered input digest) : WalkInv input (walk.noteRead digest) where
  sound := fun kept hclosed => (hinv.sound kept hclosed).noteRead digest
  complete :=
    { kept := fun other hother =>
        (hinv.complete.kept other hother).grows (grows_noteRead walk digest)
      queued := hinv.complete.queued }
  answered := by
    exact forall_mem_cons.2 ⟨hanswered, hinv.answered⟩

theorem Visits.answered {item : Item} (hvisits : Visits input walk item after)
    (hbefore : ∀ digest ∈ walk.read, Answered input digest) :
    ∀ digest ∈ after.read, Answered input digest := by
  have hread : ∀ {middle : Walk}, Answered input item.digest →
      middle.read = item.digest :: walk.read → ∀ digest ∈ middle.read, Answered input digest := by
    intro middle hitem hmiddle digest hdigest
    rw [hmiddle] at hdigest
    rcases mem_cons.1 hdigest with rfl | hdigest
    · exact hitem
    · exact hbefore digest hdigest
  cases hvisits with
  | again hkept | tooLarge hcap => exact hbefore
  | followed hrefs => exact hread (.inl ⟨_, hrefs.2⟩) (extends_follow _ _).read
  | spared hscanned hbad => exact hread (.inr (.inr (.inr hbad.2.2))) rfl
  | missing hcap hmissing hoptional => exact hread (.inr (.inl hmissing)) rfl
  | scanned hnamed =>
    obtain ⟨cause, hnamed⟩ := hnamed.2.2
    exact hread (.inr (.inr (.inl ⟨cause, _, hnamed⟩))) (extends_scan input _ _).read

theorem walkQueue_nil (steps : ℕ) (hqueue : walk.queue = []) :
    walkQueue input steps walk = .ok walk := by
  unfold walkQueue
  rw [hqueue]

variable {rest : List Item}

theorem walkQueue_zero {item : Item} (hqueue : walk.queue = item :: rest) :
    walkQueue input 0 walk = .error .outOfSteps := by
  unfold walkQueue
  rw [hqueue]

theorem walkQueue_succ {item : Item} (steps : ℕ) (hqueue : walk.queue = item :: rest) :
    walkQueue input (steps + 1) walk =
      visit input { walk with queue := rest } item >>= walkQueue input steps := by
  rw [walkQueue, hqueue]

theorem walkQueue_cases {steps : ℕ} (hwalk : walkQueue input steps walk = .ok after) :
    (walk.queue = [] ∧ after = walk) ∨
      ∃ item rest fewer next, walk.queue = item :: rest ∧ steps = fewer + 1 ∧
        visit input { walk with queue := rest } item = .ok next ∧
        walkQueue input fewer next = .ok after := by
  cases hqueue : walk.queue with
  | nil =>
    rw [walkQueue_nil steps hqueue] at hwalk
    exact .inl ⟨rfl, (Except.ok.inj hwalk).symm⟩
  | cons item rest =>
    cases steps with
    | zero =>
      rw [walkQueue_zero hqueue] at hwalk
      cases hwalk
    | succ fewer =>
      rw [walkQueue_succ fewer hqueue, bind_eq_ok_iff] at hwalk
      obtain ⟨next, hvisit, hrest⟩ := hwalk
      exact .inr ⟨item, rest, fewer, next, rfl, rfl, hvisit, hrest⟩

theorem Complete.take {item : Item} (hcomplete : Complete input ∅ walk)
    (hqueue : walk.queue = item :: rest) : Complete input {item} { walk with queue := rest } := by
  refine ⟨fun digest hdigest => ?_, fun other hother => ?_⟩
  · have hsettled := hcomplete.kept digest hdigest
    exact ⟨hsettled.referenced, hsettled.read, hsettled.answered, hsettled.blobs,
      hsettled.children, hsettled.scanned⟩
  · rcases hcomplete.queued other hother with hmem | hpending | hdone
    · rw [hqueue] at hmem
      exact (mem_cons.1 hmem).elim (fun hsame => .inr (.inl hsame)) .inl
    · exact absurd hpending (Set.notMem_empty other)
    · exact .inr (.inr hdone)

theorem Sound.take {kept : Set Digest} {item : Item} (hsound : Sound input kept walk)
    (hqueue : walk.queue = item :: rest) :
    Sound input kept { walk with queue := rest } ∧ ItemSound input kept item := by
  have hqueued : ∀ other ∈ item :: rest, ItemSound input kept other := hqueue ▸ hsound.queue
  exact ⟨⟨hsound.kept, hsound.referenced,
    fun other hother => hqueued other (mem_cons_of_mem _ hother)⟩,
    hqueued item mem_cons_self⟩

theorem WalkInv.visit {item : Item} (hinv : WalkInv input walk) (hqueue : walk.queue = item :: rest)
    (hvisits : Visits input { walk with queue := rest } item after) : WalkInv input after where
  sound := by
    intro kept hclosed
    obtain ⟨htaken, hitem⟩ := (hinv.sound kept hclosed).take hqueue
    exact htaken.visits hclosed hitem hvisits
  complete := (hinv.complete.take hqueue).visits hvisits
  answered := hvisits.answered hinv.answered

theorem WalkInv.walkQueue {steps : ℕ} (hinv : WalkInv input walk)
    (hwalk : walkQueue input steps walk = .ok after) :
    WalkInv input after ∧ after.queue = [] ∧ walk.queued ⊆ after.queued := by
  induction steps generalizing walk with
  | zero =>
    rcases walkQueue_cases hwalk with ⟨hqueue, rfl⟩ | ⟨_, _, _, _, _, hsteps, _⟩
    · exact ⟨hinv, hqueue, List.Subset.refl _⟩
    · cases hsteps
  | succ steps ih =>
    rcases walkQueue_cases hwalk with
      ⟨hqueue, rfl⟩ | ⟨item, rest, fewer, next, hqueue, hsteps, hvisit, hrest⟩
    · exact ⟨hinv, hqueue, List.Subset.refl _⟩
    cases hsteps
    have hvisits := visit_cases hvisit
    obtain ⟨hafter, hempty, hsubset⟩ := ih (hinv.visit hqueue hvisits) hrest
    exact ⟨hafter, hempty, List.Subset.trans hvisits.grows.queued hsubset⟩

theorem WalkInv.start : WalkInv input Walk.start where
  sound := fun kept _ => ⟨by simp [Walk.start], by simp [Walk.start], by simp [Walk.start]⟩
  complete := ⟨by simp [Walk.start], by simp [Walk.start]⟩
  answered := by simp [Walk.start]

end Walk

inductive RowIs (input : PlanInput) (row : Row) : RowFate → Prop
  | outright {required : Bool} (hkept : KeptOutright input row) :
      RowIs input row (.enqueue required)
  | candidate (hkept : ¬ KeptOutright input row)
      (hsubject : ∀ subject, ¬ IsReferrer input row subject)
      (hrefs : ∃ refs, input.refsOf row.digest = .ok refs) : RowIs input row .candidate
  | referrer {subject : Digest} (hsubject : IsReferrer input row subject) :
      RowIs input row (.referrer subject)

variable {row : Row} {fate : RowFate} {steps : ℕ}

theorem rowFate_cases {input : PlanInput} (hfate : rowFate input row = .ok fate) :
    RowIs input row fate := by
  unfold rowFate at hfate
  split at hfate
  case isTrue htagged =>
    cases hfate
    exact .outright (.inl htagged)
  rename_i htagged
  split at hfate
  case h_1 hmissing =>
    cases hfate
    exact .outright (.inr (.inl (by simp [Stored, hmissing])))
  rename_i time htime
  split at hfate
  case isTrue hyoung =>
    cases hfate
    refine .outright (.inr (.inr (.inl ⟨time, htime, ?_⟩)))
    simpa [PlanInput.old] using hyoung
  rename_i hold
  split at hfate
  case h_1 => cases hfate
  rename_i refs hrefs
  have hnot : ∀ kind : input.retained refs time = false ∧
      (∀ subject, refs.subject = some subject → parseDigest subject.digest ≠ none),
      ¬ KeptOutright input row := by
    rintro ⟨hclass, hparses⟩ (hrow | hrow | ⟨other, hother, hyoung⟩ |
      ⟨refs', time', htime', hrefs', hheld⟩)
    · exact htagged hrow
    · simp [Stored, htime] at hrow
    · rw [htime] at hother
      cases hother
      have hpast : time ≤ input.cutoff := by simpa [PlanInput.old] using hold
      exact absurd hyoung (not_lt.2 hpast)
    · rw [htime] at htime'
      rw [hrefs] at hrefs'
      cases htime'
      cases hrefs'
      rcases hheld with hheld | ⟨subject, hsubject, hnone⟩
      · simp [hclass] at hheld
      · exact hparses subject hsubject hnone
  split at hfate
  case isTrue hclass =>
    cases hfate
    exact .outright (.inr (.inr (.inr ⟨refs, time, htime, hrefs, .inl hclass⟩)))
  rename_i hclass
  have hclass : input.retained refs time = false := by simpa using hclass
  split at hfate
  case h_1 hsubject =>
    cases hfate
    refine .candidate (hnot ⟨hclass, by simp [hsubject]⟩) ?_ ⟨refs, hrefs⟩
    rintro subject ⟨-, refs', desc, hrefs', hdesc, -⟩
    rw [hrefs] at hrefs'
    cases hrefs'
    simp [hsubject] at hdesc
  rename_i desc hsubject
  split at hfate
  case h_1 hnone =>
    cases hfate
    exact .outright (.inr (.inr (.inr
      ⟨refs, time, htime, hrefs, .inr ⟨desc, hsubject, hnone⟩⟩)))
  case h_2 parsed hparsed =>
    cases hfate
    refine .referrer ⟨hnot ⟨hclass, ?_⟩, refs, desc, hrefs, hsubject, hparsed⟩
    intro other hother
    rw [hsubject] at hother
    cases hother
    simp [hparsed]

def Placed (gathered : Gathered) (row : Row) : RowFate → Prop
  | .enqueue required => ⟨row.digest, required, false⟩ ∈ gathered.walk.queued
  | .candidate => row.digest ∈ gathered.candidates
  | .referrer subject => ⟨row.digest, subject⟩ ∈ gathered.referrers

structure GatherInv (input : PlanInput) (rows : List Row) (gathered : Gathered) : Prop where
  walk : WalkInv input gathered.walk
  rows : ∀ row ∈ rows, ∃ fate, RowIs input row fate ∧ Placed gathered row fate
  referrers : ∀ referrer ∈ gathered.referrers, ∃ row ∈ input.rows,
    row.digest = referrer.digest ∧ IsReferrer input row referrer.subject

theorem gatherRow_cases {input : PlanInput} {before after : Gathered}
    (hgather : gatherRow input before row = .ok after) :
    ∃ fate, rowFate input row = .ok fate ∧ after = before.place input row fate := by
  unfold gatherRow at hgather
  rw [bind_eq_ok_iff] at hgather
  obtain ⟨fate, hfate, hplace⟩ := hgather
  exact ⟨fate, hfate, (pure_eq_ok_iff.1 hplace).symm⟩

@[simp]
theorem queued_noteRow (input : PlanInput) (walk : Walk) (row : Row) :
    (walk.noteRow input row).queued = walk.queued := by
  unfold Walk.noteRow
  split <;> rfl

theorem rowRead_answered {input : PlanInput} (hfate : rowFate input row = .ok fate)
    (hread : rowRead input row = true) : Answered input row.digest := by
  simp only [rowRead, Bool.and_eq_true, Bool.not_eq_true'] at hread
  obtain ⟨huntagged, hold⟩ := hread
  cases htime : input.mtime row.digest with
  | none => simp [htime] at hold
  | some time =>
    have hold : input.old time = true := by simpa [htime] using hold
    unfold rowFate at hfate
    simp only [huntagged, htime, hold] at hfate
    cases hrefs : input.refsOf row.digest with
    | ok refs => exact .inl ⟨refs, hrefs⟩
    | error cause => simp [hrefs] at hfate

theorem WalkInv.noteRow {input : PlanInput} {walk : Walk} (hinv : WalkInv input walk)
    (hfate : rowFate input row = .ok fate) : WalkInv input (walk.noteRow input row) := by
  unfold Walk.noteRow
  split
  case isTrue hread => exact hinv.noteRead (rowRead_answered hfate hread)
  case isFalse => exact hinv

theorem placed_place (input : PlanInput) (gathered : Gathered) (row other : Row)
    (fate fate' : RowFate) (hplaced : Placed gathered other fate' ∨ other = row ∧ fate' = fate) :
    Placed (gathered.place input row fate) other fate' := by
  have hqueued : ∀ item, item ∈ gathered.walk.queued →
      item ∈ (gathered.walk.noteRow input row).queued := by simp
  rcases hplaced with hplaced | ⟨rfl, rfl⟩
  · cases fate with
    | enqueue required =>
      cases fate' with
      | enqueue required' =>
        exact ((extends_enqueue _ _).queued _).2 (.inl (hqueued _ hplaced))
      | candidate | referrer subject => exact hplaced
    | candidate =>
      cases fate' with
      | enqueue required' => exact hqueued _ hplaced
      | candidate => exact mem_cons_of_mem _ hplaced
      | referrer subject => exact hplaced
    | referrer subject =>
      cases fate' with
      | enqueue required' => exact hqueued _ hplaced
      | candidate => exact hplaced
      | referrer subject' => exact mem_append_left _ hplaced
  · cases fate' with
    | enqueue required => exact ((extends_enqueue _ _).queued _).2 (.inr rfl)
    | candidate => exact mem_cons_self
    | referrer subject => exact mem_append_right _ (mem_singleton_self _)

theorem gatherRow_inv {input : PlanInput} {rows : List Row} {before after : Gathered}
    (hrow : row ∈ input.rows) (hinv : GatherInv input rows before)
    (hgather : gatherRow input before row = .ok after) : GatherInv input (rows ++ [row]) after := by
  obtain ⟨fate, hfate, rfl⟩ := gatherRow_cases hgather
  have his := rowFate_cases hfate
  have hplaced : ∀ other ∈ rows ++ [row], ∃ fate', RowIs input other fate' ∧
      Placed (before.place input row fate) other fate' := by
    intro other hother
    rcases mem_append.1 hother with hother | hother
    · obtain ⟨fate', his', hold⟩ := hinv.rows other hother
      exact ⟨fate', his', placed_place input before row other fate fate' (.inl hold)⟩
    · have hsame := mem_singleton.1 hother
      exact ⟨fate, hsame ▸ his, placed_place input before row other fate fate (.inr ⟨hsame, rfl⟩)⟩
  have hnoted := hinv.walk.noteRow hfate
  cases his with
  | outright hkept =>
    exact ⟨hnoted.enqueue fun kept hclosed _ => hclosed.outright row hrow hkept, hplaced,
      hinv.referrers⟩
  | candidate hkept hsubject hrefs => exact ⟨hnoted, hplaced, hinv.referrers⟩
  | referrer hsubject =>
    refine ⟨hnoted, hplaced, fun referrer hreferrer => ?_⟩
    rcases mem_append.1 hreferrer with hreferrer | hreferrer
    · exact hinv.referrers referrer hreferrer
    · rw [mem_singleton.1 hreferrer]
      exact ⟨row, hrow, rfl, hsubject⟩

theorem gather_inv {input : PlanInput} {gathered : Gathered}
    (hgather : gather input = .ok gathered) : GatherInv input input.rows gathered :=
  foldlM_invariant
    (fun _ _ _ _ hrow hinv hstep => gatherRow_inv hrow hinv hstep)
    ⟨WalkInv.start, by simp, by simp⟩ hgather

theorem live_referrer_mem {input : PlanInput} {walk : Walk} {kept : Set Digest} {subject : Digest}
    (hclosed : KeepClosed input (Unverifiable input) kept) (hsound : Sound input kept walk)
    (hrow : row ∈ input.rows) (hreferrer : IsReferrer input row subject)
    (hlive : live input walk subject = true) : row.digest ∈ kept := by
  refine hclosed.referrer row hrow subject hreferrer ?_
  simp only [live, Bool.or_eq_true, decide_eq_true_eq] at hlive
  rcases hlive with (hkept | hreferenced) | hyoung
  · exact .inl (.inl (hsound.kept _ hkept))
  · exact .inl (hsound.referenced _ hreferenced)
  right
  cases htime : input.mtime subject with
  | none => simp [htime] at hyoung
  | some time =>
    refine ⟨time, htime, ?_⟩
    simpa [htime, PlanInput.old] using hyoung

theorem joinAll_inv {input : PlanInput} {walk : Walk} {joining : List Referrer}
    (hinv : WalkInv input walk)
    (hjoining : ∀ referrer ∈ joining, ∀ kept, KeepClosed input (Unverifiable input) kept →
      referrer.digest ∈ kept) :
    WalkInv input (joining.foldl (fun walk referrer =>
      walk.enqueue ⟨referrer.digest, true, false⟩) walk) := by
  induction joining generalizing walk with
  | nil => exact hinv
  | cons referrer joining ih =>
    refine ih (hinv.enqueue fun kept hclosed _ =>
      hjoining referrer mem_cons_self kept hclosed) ?_
    exact fun other hother => hjoining other (mem_cons_of_mem _ hother)

theorem queued_joinAll (walk : Walk) (joining : List Referrer) (item : Item) :
    item ∈ (joining.foldl (fun walk referrer =>
      walk.enqueue ⟨referrer.digest, true, false⟩) walk).queued ↔
      item ∈ walk.queued ∨ ∃ referrer ∈ joining, item = ⟨referrer.digest, true, false⟩ :=
  (extends_foldl walk.kept
    (fun walk (referrer : Referrer) _ =>
      extends_enqueue walk ⟨referrer.digest, true, false⟩) joining rfl).queued item

/-- The referrer loop ends with every referrer either queued, because its
subject was live, or left over with a subject that is not. -/
theorem settle_inv {input : PlanInput} {rounds : ℕ} {walk after : Walk}
    {referrers orphans : List Referrer} (hinv : WalkInv input walk)
    (hreferrers : ∀ referrer ∈ referrers, ∃ row ∈ input.rows,
      row.digest = referrer.digest ∧ IsReferrer input row referrer.subject)
    (hsettle : settle input steps rounds walk referrers = .ok (after, orphans)) :
    WalkInv input after ∧ after.queue = [] ∧ walk.queued ⊆ after.queued ∧
      (∀ referrer ∈ referrers, referrer ∈ orphans ∨ ⟨referrer.digest, true, false⟩ ∈ after.queued) ∧
      ∀ orphan ∈ orphans, live input after orphan.subject = false := by
  induction rounds generalizing walk referrers with
  | zero => simp [settle] at hsettle
  | succ rounds ih =>
    unfold settle at hsettle
    rw [bind_eq_ok_iff] at hsettle
    obtain ⟨walked, hwalk, hsettle⟩ := hsettle
    obtain ⟨hwalked, hempty, hsubset⟩ := hinv.walkQueue hwalk
    dsimp only at hsettle
    split at hsettle
    case isTrue hnone =>
      rw [pure_eq_ok_iff] at hsettle
      cases hsettle
      refine ⟨hwalked, hempty, hsubset, fun referrer hreferrer => .inl hreferrer, ?_⟩
      intro orphan horphan
      have hall := length_filter_eq_length_iff.1 hnone orphan horphan
      simpa using hall
    rename_i hsome
    -- the ones that joined are queued from here on
    have hjoined : WalkInv input ((referrers.filter fun referrer =>
        live input walked referrer.subject).foldl (fun walk referrer =>
          walk.enqueue ⟨referrer.digest, true, false⟩) walked) := by
      refine joinAll_inv hwalked ?_
      intro referrer hreferrer kept hclosed
      obtain ⟨hmem, hlive⟩ := mem_filter.1 hreferrer
      obtain ⟨row, hrow, hdigest, hrefers⟩ := hreferrers referrer hmem
      rw [← hdigest]
      exact live_referrer_mem hclosed (hwalked.sound kept hclosed) hrow hrefers hlive
    obtain ⟨hafter, hdone, hqueued, hplaced, horphans⟩ := ih hjoined
      (fun referrer hreferrer => hreferrers referrer (mem_of_mem_filter hreferrer))
      hsettle
    refine ⟨hafter, hdone, ?_, ?_, horphans⟩
    · intro item hitem
      exact hqueued ((queued_joinAll _ _ _).2 (.inl (hsubset hitem)))
    · intro referrer hreferrer
      by_cases hlive : live input walked referrer.subject = true
      · right
        apply hqueued
        exact (queued_joinAll _ _ _).2 (.inr ⟨referrer, mem_filter.2 ⟨hreferrer, hlive⟩, rfl⟩)
      · exact hplaced referrer (mem_filter.2 ⟨hreferrer, by simpa using hlive⟩)

/-! ## What a plan keeps and reaps -/

structure WalkedInv (input : PlanInput) (walked : Walked) : Prop where
  walk : WalkInv input walked.walk
  empty : walked.walk.queue = []
  rows : ∀ row ∈ input.rows, row.digest ∈ walked.walk.kept ∨
    (¬ KeptOutright input row ∧ row.digest ∈ walked.candidates ∧
      (∀ subject, IsReferrer input row subject → live input walked.walk subject = false) ∧
      ∃ refs, input.refsOf row.digest = .ok refs)

theorem IsReferrer.unique {input : PlanInput} {first second : Digest}
    (hfirst : IsReferrer input row first) (hsecond : IsReferrer input row second) :
    first = second := by
  obtain ⟨-, refs, desc, hrefs, hdesc, hparse⟩ := hfirst
  obtain ⟨-, refs', desc', hrefs', hdesc', hparse'⟩ := hsecond
  rw [hrefs] at hrefs'
  cases hrefs'
  rw [hdesc] at hdesc'
  cases hdesc'
  exact Option.some.inj (hparse.symm.trans hparse')

theorem kept_of_queued {input : PlanInput} {walk : Walk} {digest : Digest} {required : Bool}
    (hinv : WalkInv input walk) (hempty : walk.queue = [])
    (hqueued : ⟨digest, required, false⟩ ∈ walk.queued) : digest ∈ walk.kept := by
  rcases hinv.complete.queued _ hqueued with hmem | hpending | hdone
  · simp [hempty] at hmem
  · exact absurd hpending (Set.notMem_empty _)
  · exact hdone.resolve_right (by simp)

theorem walkPlan_inv {input : PlanInput} {walked : Walked}
    (hwalk : walkPlan input steps = .ok walked) : WalkedInv input walked := by
  unfold walkPlan at hwalk
  rw [bind_eq_ok_iff] at hwalk
  obtain ⟨gathered, hgather, hwalk⟩ := hwalk
  rw [bind_eq_ok_iff] at hwalk
  obtain ⟨⟨walk, orphans⟩, hsettle, hwalk⟩ := hwalk
  rw [pure_eq_ok_iff] at hwalk
  subst hwalk
  have hgathered := gather_inv hgather
  obtain ⟨hinv, hempty, hqueued, hplaced, horphans⟩ :=
    settle_inv hgathered.walk hgathered.referrers hsettle
  refine ⟨hinv, hempty, fun row hrow => ?_⟩
  obtain ⟨fate, his, hwhere⟩ := hgathered.rows row hrow
  cases his with
  | outright hkept => exact .inl (kept_of_queued hinv hempty (hqueued hwhere))
  | candidate hkept hsubject hrefs =>
    exact .inr ⟨hkept, mem_append_left _ hwhere,
      fun subject hrefers => absurd hrefers (hsubject subject), hrefs⟩
  | referrer hsubject =>
    rename_i subject
    rcases hplaced _ hwhere with horphan | hjoined
    · obtain ⟨refs, -, hrefs, -⟩ := hsubject.2
      refine .inr ⟨hsubject.1, mem_append_right _ (mem_map.2 ⟨_, horphan, rfl⟩), ?_, refs, hrefs⟩
      intro other hother
      rw [← hsubject.unique hother]
      exact horphans _ horphan
    · exact .inl (kept_of_queued hinv hempty hjoined)

theorem makePlan_eq_ok {input : PlanInput} {plan : Plan} (hplan : makePlan input steps = .ok plan) :
    ∃ walked, walkPlan input steps = .ok walked ∧ walked.plan input = plan := by
  unfold makePlan at hplan
  cases hwalk : walkPlan input steps with
  | error error => simp [hwalk, Except.map] at hplan
  | ok walked =>
    rw [hwalk] at hplan
    exact ⟨walked, rfl, Except.ok.inj hplan⟩

section Results

variable {input : PlanInput} {walked : Walked}

def Walked.keepSet (walked : Walked) : Set Digest := {digest | digest ∈ walked.walk.kept}

theorem WalkedInv.referenced_of (hinv : WalkedInv input walked) {blob : Digest}
    (hblob : Referenced input walked.keepSet blob) : blob ∈ walked.walk.referenced := by
  rcases hblob with hkept | ⟨manifest, hmanifest, ⟨refs, hrefs, hmem⟩ | hchild | hscanned⟩
  · exact (hinv.walk.complete.kept blob hkept).referenced
  · exact (hinv.walk.complete.kept manifest hmanifest).blobs refs hrefs blob hmem
  · exact ((hinv.walk.complete.kept manifest hmanifest).children blob hchild).1
  · exact ((hinv.walk.complete.kept manifest hmanifest).scanned blob hscanned).1

theorem WalkedInv.closed (hinv : WalkedInv input walked) :
    KeepClosed input (Unverifiable input) walked.keepSet where
  outright := fun row hrow hkept =>
    (hinv.rows row hrow).resolve_right (fun hgoes => hgoes.1 hkept)
  child := fun manifest hmanifest child hchild =>
    kept_of_queued hinv.walk hinv.empty
      ((hinv.walk.complete.kept manifest hmanifest).children child hchild).2
  scanned := by
    intro manifest hmanifest digest hnames hstored hverified
    have hsettled := hinv.walk.complete.kept manifest hmanifest
    rcases (hsettled.scanned digest hnames).2 hstored with hkept | hqueued
    · exact hkept
    rcases hinv.walk.complete.queued _ hqueued with hmem | hpending | hdone
    · simp [hinv.empty] at hmem
    · exact absurd hpending (Set.notMem_empty _)
    · exact hdone.resolve_right (fun hbad => hverified hbad.2)
  referrer := by
    intro row hrow subject hrefers hlive
    refine (hinv.rows row hrow).resolve_right ?_
    rintro ⟨-, -, hdead, -⟩
    have hfalse := hdead subject hrefers
    simp only [live, Bool.or_eq_false_iff, decide_eq_false_iff_not] at hfalse
    rcases hlive with hreferenced | ⟨time, htime, hyoung⟩
    · exact hfalse.1.2 (hinv.referenced_of hreferenced)
    have hold := hfalse.2
    simp only [htime, Option.map_some, Option.getD_some, Bool.not_eq_false', PlanInput.old,
      decide_eq_true_eq] at hold
    exact absurd hyoung (not_lt.2 hold)

theorem WalkedInv.isLeast (hinv : WalkedInv input walked) :
    IsLeast {kept | KeepClosed input (Unverifiable input) kept} walked.keepSet :=
  ⟨hinv.closed, fun kept hclosed digest hdigest =>
    (hinv.walk.sound kept hclosed).kept digest hdigest⟩

theorem WalkedInv.referenced_iff (hinv : WalkedInv input walked) (blob : Digest) :
    blob ∈ walked.walk.referenced ↔ Referenced input walked.keepSet blob :=
  ⟨(hinv.walk.sound _ hinv.closed).referenced blob, hinv.referenced_of⟩

theorem mem_plan_blobs (digest : Digest) :
    digest ∈ (walked.plan input).blobs ↔ ∃ blob ∈ input.contents.blobs,
      blob.digest = digest ∧ blob.modTime ≤ input.cutoff ∧ digest ∉ walked.walk.referenced := by
  simp only [Walked.plan, mem_map, mem_filter, Walked.reapsBlob, PlanInput.old,
    Bool.and_eq_true, decide_eq_true_eq]
  constructor
  · rintro ⟨blob, ⟨hblob, hfree, hold⟩, rfl⟩
    exact ⟨blob, hblob, rfl, hold, hfree⟩
  · rintro ⟨blob, hblob, rfl, hold, hfree⟩
    exact ⟨blob, ⟨hblob, hfree, hold⟩, rfl⟩

theorem WalkedInv.mem_plan_rows (hinv : WalkedInv input walked) (digest : Digest) :
    digest ∈ (walked.plan input).rows ↔ ∃ row ∈ input.rows,
      row.digest = digest ∧ row.tagged = false ∧ digest ∉ walked.keepSet := by
  simp only [Walked.plan, mem_map, mem_filter, Walked.reapsRow, Bool.and_eq_true,
    Bool.not_eq_true', decide_eq_true_eq]
  constructor
  · rintro ⟨row, ⟨hrow, ⟨huntagged, -⟩, hfree⟩, rfl⟩
    exact ⟨row, hrow, rfl, huntagged, hfree⟩
  · rintro ⟨row, hrow, rfl, huntagged, hfree⟩
    have hgoes := (hinv.rows row hrow).resolve_left hfree
    exact ⟨row, ⟨hrow, ⟨huntagged, hgoes.2.1⟩, hfree⟩, rfl⟩

/-- A plan keeps the least set of manifests closed under the rules, and reaps exactly
the old blobs no kept manifest is or names and the untagged rows it does not keep. -/
theorem makePlan_keeps_least {steps : ℕ} {plan : Plan} (hplan : makePlan input steps = .ok plan) :
    ∃ walked, walkPlan input steps = .ok walked ∧
      IsLeast {kept | KeepClosed input (Unverifiable input) kept} walked.keepSet ∧
      (∀ digest, digest ∈ plan.blobs ↔ ∃ blob ∈ input.contents.blobs,
        blob.digest = digest ∧ blob.modTime ≤ input.cutoff ∧
          ¬ Referenced input walked.keepSet digest) ∧
      ∀ digest, digest ∈ plan.rows ↔ ∃ row ∈ input.rows,
        row.digest = digest ∧ row.tagged = false ∧ digest ∉ walked.keepSet := by
  obtain ⟨walked, hwalk, rfl⟩ := makePlan_eq_ok hplan
  have hinv := walkPlan_inv hwalk
  refine ⟨walked, hwalk, hinv.isLeast, fun digest => ?_, hinv.mem_plan_rows⟩
  rw [mem_plan_blobs, hinv.referenced_iff]

end Results

/-- A tagged index names a row-less child that is no manifest; the child's body
mentions a stored blob whose bytes do not hash to its name. -/
def damagedInput : PlanInput where
  rows := [tagRow ⟨mediaTypeImageIndex, .sha256 0, 1⟩ "v1"]
  contents :=
    { blobs := [⟨.sha256 0, 1, 0⟩, ⟨.sha256 1, 1, 0⟩, ⟨.sha256 2, 1, 0⟩]
      temps := []
      sessions := []
      unknown := 0
      indexModTime := 0
      blobs_nodup := by decide
      blobs_parse := by decide }
  cutoff := 10
  retention := fun _ => 0
  artifactType := fun _ => .plain ""
  refsOf := fun digest =>
    if digest = .sha256 0 then
      .ok { Refs.zero with
        schemaVersion := 2, mediaType := mediaTypeImageIndex
        manifests := some ⟨[⟨mediaTypeImageManifest, .sha256 1, 1⟩], 1⟩ }
    else if digest = .sha256 1 then .error (.unparsed .notJson [.sha256 2])
    else if digest = .sha256 2 then .error (.unverified 1)
    else .error .blobUnknown

theorem damagedInput_kept : ∃ walked, walkPlan damagedInput 4 = .ok walked ∧
    walked.walk.kept = [.sha256 1, .sha256 0] :=
  ⟨_, rfl, rfl⟩

/-- The plan leaves the damaged blob unvisited, so what it keeps is not closed
under a scan rule without exceptions. -/
theorem damaged_scan_not_least :
    ∃ walked, walkPlan damagedInput 4 = .ok walked ∧
      ¬ IsLeast {kept | KeepClosed damagedInput (fun _ => False) kept} walked.keepSet := by
  obtain ⟨walked, hwalk, hkept⟩ := damagedInput_kept
  refine ⟨walked, hwalk, fun hleast => ?_⟩
  have hchild : (.sha256 1 : Digest) ∈ walked.keepSet := by
    simp [Walked.keepSet, hkept]
  have hscanned : (.sha256 2 : Digest) ∈ walked.keepSet :=
    hleast.1.scanned (.sha256 1) hchild (.sha256 2)
      ⟨[.sha256 2], ⟨by decide, by decide, .notJson, rfl⟩, by decide⟩
      (show (damagedInput.mtime (.sha256 2)).isSome = true by decide) id
  simp [Walked.keepSet, hkept] at hscanned

theorem damaged_plan_keeps_least :
    ∃ plan walked, makePlan damagedInput 4 = .ok plan ∧ walkPlan damagedInput 4 = .ok walked ∧
      IsLeast {kept | KeepClosed damagedInput (Unverifiable damagedInput) kept} walked.keepSet := by
  obtain ⟨walked, hwalk, -⟩ := damagedInput_kept
  have hplan : makePlan damagedInput 4 = .ok (walked.plan damagedInput) := by
    rw [makePlan, hwalk, Except.map]
  obtain ⟨walked', hwalk', hleast, -⟩ := makePlan_keeps_least hplan
  exact ⟨_, walked', hplan, hwalk', hleast⟩

end K3sm.Registry.Gc
