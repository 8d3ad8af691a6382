import K3sm.Registry.ReferrerExact

/-!
# A view becomes whole

While the repository stays as it is and no access fails in passing, a request that gets a build
slot and is not given up makes the view whole or reads a manifest the view had no entry for.
-/

namespace K3sm.Registry.ReferrerView

open K3sm.Core K3sm.Registry.Listing K3sm.Registry.Gc List

variable {Bytes : Type}

/-- Nothing fails in passing, and the repository is this one. -/
structure Still (world : World Bytes) (repository : Repository Bytes) (time : ℕ) : Prop where
  there : (world.history time).repository = some repository
  index : (world.history time).indexFails = false
  stats : ∀ digest, (world.history time).statFails digest = false
  reads : ∀ row ∈ repository.rows, manifestTypes row.mediaType = true → ∀ cause,
    readManifestBlob (storeAt world time) row = .error cause → permanentReadError cause = true

/-- The repository stands still while the request runs. -/
structure Quiet (world : World Bytes) (repository : Repository Bytes)
    (request : Request) : Prop where
  instants : ∀ tick, Still world repository (request.instant tick)
  checked : ∀ digest, Still world repository (request.checked digest)

/-- A request that gets the view and a build slot before its context is done, which it is not
before the end. -/
structure Undisturbed (request : Request) : Prop where
  waited : request.gaveUp = false
  slot : request.slot = true
  lasts : ∀ tick, request.cancelled tick = false

def calm (repository : Repository Bytes) : Instant Bytes :=
  ⟨some repository, false, fun _ => false, fun _ => false⟩

/-- The view has an entry for the row that the next build keeps. -/
def Usable (repository : Repository Bytes) (view : View) (row : Row) : Prop :=
  (view.usable (decide (view.version ≠ repository.version))
    ((calm repository).blobIdentOf row.digest) row).isSome = true

/-- The view has every row of the repository as it is. -/
def Whole (repository : Repository Bytes) (view : View) : Prop :=
  view.ready = true ∧ view.version = repository.version

/-- The request reads a manifest that the view had no entry for, and leaves one. -/
def ReadsNew (repository : Repository Bytes) (view : View) (outcome : Outcome) : Prop :=
  ∃ row, Represents repository.rows row ∧ row.digest ∈ outcome.reads ∧
    ¬ Usable repository view row ∧ Usable repository outcome.view row

def FirstRead (world : World Bytes) (repository : Repository Bytes)
    (request : Request) (view : View)
    (reread : Bool) (rows : List Row) (build result : Build) : Prop :=
  ∃ row, Represents rows row ∧ (∀ entry ∈ build.entries, entry.desc.digest ≠ row.digest) ∧
    view.usable reread ((calm repository).blobIdentOf row.digest) row = none ∧
    row.digest ∈ result.reads ∧ ∃ entry ∈ result.entries, ∃ tick,
      ReadsAs world request row tick entry

section Quiet

variable {world : World Bytes} {repository : Repository Bytes} {request : Request} {view : View}

theorem Still.ident {time : ℕ} (hstill : Still world repository time) (digest : Digest) :
    (world.history time).blobIdentOf digest = (calm repository).blobIdentOf digest := by
  unfold Instant.blobIdentOf Instant.file
  rw [hstill.stats, hstill.there]
  rfl

theorem Still.index_ok {time : ℕ} (hstill : Still world repository time) :
    (world.history time).index = .ok repository := by
  rw [Instant.index, hstill.index, hstill.there]
  rfl

variable {reread : Bool} {entry : CachedEntry} {row : Row}

theorem usable_of_mem {ident : BlobIdent}
    (hnodup : (view.entries.map fun entry => entry.desc.digest).Nodup)
    (hentry : entry ∈ view.entries) (hfits : Fits row entry.toRefEntry)
    (hgood : entry.negative = true → reread = false ∧ ident = entry.seen) :
    view.usable reread ident row = some entry := by
  have hsome : (view.entries.find? fun other => other.desc.digest == row.digest).isSome = true := by
    rw [List.find?_isSome]
    exact ⟨entry, hentry, beq_iff_eq.2 hfits.2.1⟩
  obtain ⟨other, hother⟩ := Option.isSome_iff_exists.1 hsome
  have hdigest : other.desc.digest = row.digest := by simpa using List.find?_some hother
  have hequal : other = entry := inj_on_of_nodup_map hnodup
    (mem_of_find?_eq_some hother) hentry (hdigest.trans hfits.2.1.symm)
  rw [View.usable, hother, hequal]
  refine if_pos ⟨hfits.1, hfits.2.2, ?_⟩
  rintro ⟨hnegative, hreread | hchanged⟩
  · rw [(hgood hnegative).1] at hreread
    cases hreread
  · exact hchanged (hgood hnegative).2

variable (hquiet : Quiet world repository request)

include hquiet

theorem Quiet.usableAt (row : Row) (tick : ℕ) :
    usableAt world request view reread row tick =
      view.usable reread ((calm repository).blobIdentOf row.digest) row := by
  rw [ReferrerView.usableAt, (hquiet.instants tick).ident]

theorem Quiet.seen {tick : ℕ} (hobtained : Obtained world request view reread row tick entry)
    (hnegative : entry.negative = true) :
    (calm repository).blobIdentOf row.digest = entry.seen := by
  obtain husable | ⟨-, -, hfounded⟩ := hobtained
  · rw [hquiet.usableAt] at husable
    exact ((usable_spec husable).2.2 hnegative).2
  · obtain ⟨hunreadable, hstate⟩ := Bool.and_eq_true_iff.1 hnegative
    obtain hreadable | ⟨-, hother⟩ | ⟨-, hseen⟩ := hfounded
    · rw [hunreadable] at hreadable
      cases hreadable
    · rw [hstate] at hother
      cases hother
    · rw [hseen, (hquiet.instants _).ident]

theorem Quiet.usable_left {tick : ℕ} {build : Build}
    (hnodup : (build.entries.map fun entry => entry.desc.digest).Nodup)
    (hentry : entry ∈ build.entries)
    (hobtained : Obtained world request view reread row tick entry) :
    Usable repository (build.left repository.version) row := by
  have husable : (build.left repository.version).usable
      (decide ((build.left repository.version).version ≠ repository.version))
      ((calm repository).blobIdentOf row.digest) row = some entry :=
    usable_of_mem hnodup hentry hobtained.fits fun hnegative =>
      ⟨decide_eq_false (not_not_intro rfl), hquiet.seen hobtained hnegative⟩
  rw [Usable, husable]
  rfl

theorem Quiet.keeps {rows : List Row} (tick : ℕ) {build : Build} (hrow : Represents rows row)
    (hnew : ∀ entry ∈ build.entries, entry.desc.digest ≠ row.digest)
    (husable : view.usable reread ((calm repository).blobIdentOf row.digest) row = some entry) :
    entry ∈ (walkRows world request view reread rows tick build).entries := by
  induction rows generalizing tick build with
  | nil => simp [Represents] at hrow
  | cons first rows ih =>
    have hvisited := visited world request view reread first tick build
    by_cases htype : manifestTypes first.mediaType = true
    · obtain rfl | ⟨hne, hrow⟩ := (represents_cons htype).1 hrow
      · rw [← hquiet.usableAt row tick] at husable
        refine subset_walkRows rows (tick + 3) ?_
        generalize visitRow world request view reread row tick build = after at hvisited
        cases hvisited with
        | skip hstale => exact absurd ⟨htype, hnew⟩ hstale
        | keep kept hfresh hkept =>
          obtain rfl := Option.some.inj (hkept.symm.trans husable)
          exact mem_append_right _ (mem_singleton_self _)
        | stop hfresh hnone | retry cause hfresh hnone
        | read kept bytes hfresh hnone => cases hnone.symm.trans husable
      · exact ih (tick + 3) hrow (hvisited.still_new hnew fun _ => hne)
    · have hrow := (represents_cons_of_not (eq_false_of_ne_true htype)).1 hrow
      exact ih (tick + 3) hrow (hvisited.still_new hnew fun htrue => absurd htrue htype)

omit hquiet in
theorem reads_walkRows {digest : Digest} (rows : List Row) (tick : ℕ) {build : Build}
    (hdigest : digest ∈ build.reads) :
    digest ∈ (walkRows world request view reread rows tick build).reads := by
  induction rows generalizing tick build with
  | nil => exact hdigest
  | cons row rows ih =>
    apply ih (tick + 3)
    have hvisited := visited world request view reread row tick build
    generalize visitRow world request view reread row tick build = after at hvisited
    cases hvisited with
    | skip hstale | keep entry hfresh husable | stop hfresh husable hstopped => exact hdigest
    | retry cause hfresh husable hread hpassing
    | read entry bytes hfresh husable hstopped hreads => exact mem_append_left _ hdigest

theorem Quiet.first_read (hlasts : ∀ tick, request.cancelled tick = false) {rows : List Row}
    (hrows : ∀ row ∈ rows, row ∈ repository.rows) (tick : ℕ) {build : Build}
    (hreadRows : build.readRows = 0) (hreadBytes : build.readBytes = 0) :
    let result := walkRows world request view reread rows tick build
    result.whole = build.whole ∨
      FirstRead world repository request view reread rows build result := by
  induction rows generalizing tick build with
  | nil => exact .inl rfl
  | cons row rows ih =>
    have hvisited := visited world request view reread row tick build
    have hrest := fun other hother => hrows other (mem_cons_of_mem row hother)
    rw [walkRows]
    generalize visitRow world request view reread row tick build = after at hvisited
    -- What a later row reads is read by this loop too, if this row has its digest no more.
    have hlater : after.readRows = 0 → after.readBytes = 0 → after.whole = build.whole →
        (manifestTypes row.mediaType = true →
          ∃ entry ∈ after.entries, entry.desc.digest = row.digest) →
        let result := walkRows world request view reread rows (tick + 3) after
        result.whole = build.whole ∨ FirstRead world repository request view
          reread (row :: rows) build result := by
      intro hzeroRows hzeroBytes hwhole hknown
      obtain hdone | ⟨other, hother, hnew, hnone, hreads, hentry⟩ :=
        ih hrest (tick + 3) hzeroRows hzeroBytes
      · exact .inl (hdone.trans hwhole)
      refine .inr ⟨other, ?_, fun entry hmem => hnew entry (hvisited.subset hmem), hnone,
        hreads, hentry⟩
      by_cases htype : manifestTypes row.mediaType = true
      · obtain ⟨entry, hmem, hdigest⟩ := hknown htype
        exact (represents_cons htype).2 (.inr ⟨hdigest ▸ hnew entry hmem, hother⟩)
      · exact (represents_cons_of_not (eq_false_of_ne_true htype)).2 hother
    cases hvisited with
    | skip hstale =>
      refine hlater hreadRows hreadBytes rfl fun htype => ?_
      by_contra hnone
      exact hstale ⟨htype, fun entry hentry hdigest => hnone ⟨entry, hentry, hdigest⟩⟩
    | keep entry hfresh husable =>
      refine hlater hreadRows hreadBytes rfl fun _ => ⟨entry, by simp, ?_⟩
      exact (usable_spec husable).2.1.2.1
    | stop hfresh husable hstopped =>
      exfalso
      obtain hmany | hmany | hcancelled := hstopped
      · rw [hreadRows] at hmany
        exact absurd world.limits.scanRows_pos (not_lt.2 hmany)
      · rw [hreadBytes] at hmany
        exact absurd world.limits.scanBytes_pos (not_lt.2 hmany)
      · rw [hlasts] at hcancelled
        cases hcancelled
    | retry cause hfresh husable hread hpassing =>
      exfalso
      have hpermanent := (hquiet.instants (tick + 2)).reads row
        (hrows row mem_cons_self) hfresh.1 cause hread
      rw [hpermanent] at hpassing
      cases hpassing
    | read entry bytes hfresh husable hstopped hreads =>
      rw [hquiet.usableAt] at husable
      refine .inr ⟨row, (represents_cons hfresh.1).2 (.inl rfl), hfresh.2, husable, ?_, ?_⟩
      · exact reads_walkRows rows _ (mem_append_right _ (mem_singleton_self _))
      · exact ⟨entry, subset_walkRows rows _
          (mem_append_right _ (mem_singleton_self _)), tick, hreads⟩

/-! ## What a quiet request does to the view -/

theorem Quiet.build {outcome : Outcome} (hbuild : buildReferrers world request view = .ok outcome) :
    outcome.view = (builtFrom world request view repository).left repository.version ∧
      outcome.reads = (builtFrom world request view repository).reads := by
  obtain ⟨found, hfound, hview, hreads, -⟩ := buildReferrers_ok hbuild
  obtain rfl := Option.some.inj (hfound.symm.trans (hquiet.instants 1).there)
  exact ⟨hview, hreads⟩

theorem Quiet.usable_kept (hrow : Represents repository.rows row)
    (husable : Usable repository view row) :
    Usable repository (referrersOf world request view).view row := by
  obtain ⟨hsame, -⟩ | hbuild := referrersOf_cases world request view
  · rw [hsame]
    exact husable
  obtain ⟨entry, hentry⟩ := Option.isSome_iff_exists.1 husable
  have hobtained : Obtained world request view
      (decide (view.version ≠ repository.version)) row rowTick entry :=
    .inl ((hquiet.usableAt row rowTick).trans hentry)
  have hnew : ∀ other ∈ Build.start.entries, other.desc.digest ≠ row.digest :=
    fun _ hother => (not_mem_nil hother).elim
  rw [(hquiet.build hbuild).1]
  exact hquiet.usable_left (nodup_walkRows _ _ nodup_nil)
    (hquiet.keeps rowTick hrow hnew hentry) hobtained

end Quiet

structure Done (repository : Repository Bytes) (view : View) : Prop where
  whole : Whole repository view
  seen : ∀ entry ∈ view.entries, entry.negative = true →
    (calm repository).blobIdentOf entry.desc.digest = entry.seen

section Done

variable {world : World Bytes} {repository : Repository Bytes} {request : Request} {view : View}
  (hquiet : Quiet world repository request)

include hquiet

theorem Quiet.repaired_iff : repaired world request view = false ↔
    ∀ entry ∈ view.entries, entry.negative = true →
      (calm repository).blobIdentOf entry.desc.digest = entry.seen := by
  rw [repaired, any_eq_false]
  refine forall_congr' fun entry => imp_congr_right fun _ => ?_
  rw [(hquiet.checked entry.desc.digest).ident]
  cases entry.negative <;> simp

theorem Quiet.version : (world.history (request.instant 0)).indexVersionOf =
    .ok repository.version := by
  rw [Instant.indexVersionOf, (hquiet.instants 0).index_ok]
  rfl

theorem Quiet.done (hdone : Done repository view) :
    (referrersOf world request view).view = view := by
  unfold referrersOf
  split
  · rfl
  rw [hquiet.version]
  dsimp only
  rw [if_pos ⟨hdone.whole.1, hdone.whole.2, hquiet.repaired_iff.2 hdone.seen⟩]

theorem Quiet.builds (hundisturbed : Undisturbed request) (hnot : ¬ Done repository view) :
    buildReferrers world request view = .ok (referrersOf world request view) := by
  have hstale : ¬ (view.ready = true ∧ view.version = repository.version ∧
      repaired world request view = false) := by
    rintro ⟨hready, hversion, hrepaired⟩
    exact hnot ⟨⟨hready, hversion⟩, hquiet.repaired_iff.1 hrepaired⟩
  have hok : ∃ outcome, buildReferrers world request view = .ok outcome := by
    unfold buildReferrers Instant.indexAt
    rw [(hquiet.instants 1).index_ok]
    dsimp only [Except.map, bind, Except.bind]
    split <;> exact ⟨_, rfl⟩
  obtain ⟨outcome, houtcome⟩ := hok
  rw [referrersOf, if_neg (by rw [hundisturbed.waited]; decide), hquiet.version]
  dsimp only
  rw [if_neg hstale, if_neg (by rw [hundisturbed.slot]; decide), houtcome]

theorem Quiet.done_of_whole (hwhole : (builtFrom world request view repository).whole = true) :
    Done repository ((builtFrom world request view repository).left repository.version) where
  whole := ⟨hwhole, rfl⟩
  seen := by
    intro entry hentry hnegative
    obtain ⟨row, -, -, tick, -, hobtained⟩ := obtained_of_built hentry
    rw [hobtained.fits.2.1]
    exact hquiet.seen hobtained hnegative

theorem Quiet.progress (hundisturbed : Undisturbed request) :
    Done repository (referrersOf world request view).view ∨
      ReadsNew repository view (referrersOf world request view) := by
  by_cases hdone : Done repository view
  · left
    rw [hquiet.done hdone]
    exact hdone
  obtain ⟨hview, hreads⟩ := hquiet.build (hquiet.builds hundisturbed hdone)
  rw [hview, ReadsNew, hview, hreads]
  have hbuilt : (builtFrom world request view repository).whole = true ∨
      FirstRead world repository request view
        (decide (view.version ≠ repository.version)) repository.rows Build.start
        (builtFrom world request view repository) :=
    hquiet.first_read hundisturbed.lasts (fun _ hrow => hrow) rowTick rfl rfl
  obtain hwhole | ⟨row, hrow, -, hnone, hread, entry, hentry, tick, hreadsAs⟩ := hbuilt
  · exact .inl (hquiet.done_of_whole hwhole)
  have hobtained : Obtained world request view
      (decide (view.version ≠ repository.version)) row tick entry := .inr hreadsAs
  refine .inr ⟨row, hrow, hread, ?_, ?_⟩
  · rw [Usable, hnone]
    decide
  · exact hquiet.usable_left (nodup_walkRows _ _ nodup_nil) hentry hobtained

end Done

instance (rows : List Row) (row : Row) : Decidable (Represents rows row) :=
  inferInstanceAs (Decidable ((rows.filter fun row => manifestTypes row.mediaType).find?
    (fun other => other.digest == row.digest) = some row))

instance (repository : Repository Bytes) (view : View) (row : Row) :
    Decidable (Usable repository view row) :=
  inferInstanceAs (Decidable ((view.usable (decide (view.version ≠ repository.version))
    ((calm repository).blobIdentOf row.digest) row).isSome = true))

def pending (repository : Repository Bytes) (view : View) : Finset Row :=
  repository.rows.toFinset.filter fun row =>
    Represents repository.rows row ∧ ¬ Usable repository view row

theorem mem_pending {repository : Repository Bytes} {view : View} {row : Row} :
    row ∈ pending repository view ↔
      Represents repository.rows row ∧ ¬ Usable repository view row := by
  rw [pending, Finset.mem_filter, mem_toFinset]
  exact ⟨And.right, fun hrow => ⟨mem_of_represents hrow.1, hrow⟩⟩

theorem card_pending_le (repository : Repository Bytes) (view : View) :
    (pending repository view).card ≤ repository.rows.length :=
  (Finset.card_filter_le _ _).trans (toFinset_card_le _)

section Run

variable (world : World Bytes)

def serve (view : View) (request : Request) : View :=
  (referrersOf world request view).view

variable {world} {repository : Repository Bytes}

theorem Quiet.pending_subset {request : Request} {view : View}
    (hquiet : Quiet world repository request) :
    pending repository (serve world view request) ⊆ pending repository view := by
  intro row hrow
  obtain ⟨hrow, hunusable⟩ := mem_pending.1 hrow
  exact mem_pending.2 ⟨hrow, fun husable => hunusable (hquiet.usable_kept hrow husable)⟩

theorem Quiet.pending_lt {request : Request} {view : View} (hquiet : Quiet world repository request)
    (hreads : ReadsNew repository view (referrersOf world request view)) :
    (pending repository (serve world view request)).card < (pending repository view).card := by
  obtain ⟨row, hrow, -, hbefore, hafter⟩ := hreads
  apply Finset.card_lt_card
  refine (Finset.ssubset_iff_of_subset hquiet.pending_subset).2 ⟨row, ?_, ?_⟩
  · exact mem_pending.2 ⟨hrow, hbefore⟩
  · exact fun hleft => (mem_pending.1 hleft).2 hafter

theorem done_foldl {requests : List Request}
    (hquiet : ∀ request ∈ requests, Quiet world repository request)
    {view : View} (hdone : Done repository view) :
    Done repository (requests.foldl (serve world) view) := by
  induction requests generalizing view with
  | nil => exact hdone
  | cons request requests ih =>
    apply ih fun other hother => hquiet other (mem_cons_of_mem request hother)
    rw [serve, (hquiet request mem_cons_self).done hdone]
    exact hdone

theorem done_of_undisturbed {requests undisturbed : List Request}
    (hsublist : undisturbed.Sublist requests)
    (hquiet : ∀ request ∈ requests, Quiet world repository request)
    (hundisturbed : ∀ request ∈ undisturbed, Undisturbed request) {view : View}
    (hpending : (pending repository view).card < undisturbed.length) :
    Done repository (requests.foldl (serve world) view) := by
  induction hsublist generalizing view with
  | slnil => exact absurd hpending (Nat.not_lt_zero _)
  | cons request _ ih =>
    have hrest := fun other hother => hquiet other (mem_cons_of_mem request hother)
    have hfewer : (pending repository (serve world view request)).card ≤
        (pending repository view).card :=
      Finset.card_le_card (hquiet request mem_cons_self).pending_subset
    exact ih hrest hundisturbed (hfewer.trans_lt hpending)
  | cons_cons request _ ih =>
    have hrest := fun other hother => hquiet other (mem_cons_of_mem request hother)
    have hcalm := hquiet request mem_cons_self
    rw [foldl_cons]
    have hstep : Done repository (serve world view request) ∨
        ReadsNew repository view (referrersOf world request view) :=
      hcalm.progress (hundisturbed request mem_cons_self)
    obtain hdone | hreads := hstep
    · exact done_foldl hrest hdone
    have hfewer := hcalm.pending_lt hreads
    rw [length_cons] at hpending
    apply ih hrest fun other hother => hundisturbed other (mem_cons_of_mem request hother)
    omega

/-- Whenever a request answers, its list is that of a full scan of the index version it read;
and while the repository stays as it is, more undisturbed requests than there are rows make
the view whole, whatever others come between. -/
theorem referrers_answer_full_scan (world : World Bytes)
    (hassumed : Assumed world) (events : List ViewEvent) (served : Served)
    (hserved : served ∈ events.foldl (nextViews world) []) :
    (∀ request list, served.since ≤ request.instant 0 →
      (referrersOf world request served.view).answer = .listed list → Exact world request list) ∧
    ∀ repository requests, (∀ request ∈ requests, Quiet world repository request) →
      EachStep (fun view request => Undisturbed request →
          Whole repository (serve world view request) ∨
          ReadsNew repository view (referrersOf world request view))
        (serve world) served.view requests ∧
      ∀ undisturbed : List Request, undisturbed.Sublist requests →
        (∀ request ∈ undisturbed, Undisturbed request) →
        repository.rows.length < undisturbed.length →
        Whole repository (requests.foldl (serve world) served.view) := by
  refine ⟨fun request list hsince hlist =>
    (sound_foldl events served hserved).exact hassumed hsince hlist, ?_⟩
  intro repository requests hquiet
  constructor
  · clear hserved
    generalize served.view = view
    induction requests generalizing view with
    | nil => trivial
    | cons request requests ih =>
      refine ⟨fun hundisturbed => ?_,
        ih (fun other hother => hquiet other (mem_cons_of_mem request hother)) _⟩
      exact ((hquiet request mem_cons_self).progress hundisturbed).imp_left Done.whole
  · intro undisturbed hsublist hundisturbed hlength
    exact (done_of_undisturbed hsublist hquiet hundisturbed
      ((card_pending_le repository served.view).trans_lt hlength)).whole

end Run

/-- Body 1 is a manifest with a subject, and hashes to 1. -/
def signedCodec : Codec ℕ where
  len := fun _ => 1
  json := fun
    | 1 => some (.obj [(.subject, .obj [(.digest, .str (.sha256 7))])])
    | _ => none
  tokens := fun _ => []
  sha256 := id
  sha512 := id
  sha256_injective := Function.injective_id
  sha512_injective := Function.injective_id
  artifactType := fun artifact config => if artifact = .plain "" then config else artifact

def signedRow : Row := ⟨⟨mediaTypeImageManifest, .sha256 1, 1⟩, none, []⟩

/-- A repository with one manifest, whose file has a body. -/
def signedRepository (body : ℕ) : Repository ℕ where
  version := ⟨1, 1, 1⟩
  rows := [signedRow]
  files := fun digest => if digest = .sha256 1 then .regular ⟨5, 1, 1⟩ body else .absent

def signedWorld (history : ℕ → Instant ℕ) : World ℕ :=
  ⟨signedCodec, fun _ => none, Limits.server, history⟩

def steadyWorld : World ℕ := signedWorld fun _ => calm (signedRepository 1)

/-- The file has another body at first, and is repaired without a change of its identity. -/
def repairedWorld : World ℕ :=
  signedWorld fun time => calm (signedRepository (if time = 0 then 0 else 1))

/-- A request for the referrers of the subject, at an instant. -/
def requestAt (time : ℕ) (cancelled : Bool) : Request where
  digest := .sha256 7
  gaveUp := false
  slot := true
  cancelled := fun _ => cancelled
  instant := fun _ => time
  checked := fun _ => time
  finish := time
  ordered := monotone_const
  bounded := fun _ => le_refl _
  checks := fun _ => ⟨le_refl _, le_refl _⟩

theorem assumed_steady : Assumed steadyWorld where
  versions := by
    intro first between last before after _ _ hbefore _ _
    obtain rfl := Option.some.inj hbefore
    rfl
  kept := fun _ hbody _ => hbody
  identified := fun _ hbody => hbody

theorem still_steady (time : ℕ) : Still steadyWorld (signedRepository 1) time := by
  refine ⟨rfl, rfl, fun _ => rfl, ?_⟩
  intro row hrow _ cause hread
  rw [mem_singleton.1 hrow] at hread
  have hok : readManifestBlob (storeAt steadyWorld time) signedRow = .ok 1 := rfl
  rw [hok] at hread
  cases hread

/-- The manifest is listed, and two requests make the view whole, also with one between them
whose client is gone. -/
theorem signed_manifest_listed :
    Exact steadyWorld (requestAt 0 false) [entryOf (settledStore steadyWorld 0) signedRow 1] ∧
      Whole (signedRepository 1)
        ([requestAt 0 false, requestAt 1 true, requestAt 2 false].foldl (serve steadyWorld)
          View.empty) := by
  have hboth := referrers_answer_full_scan steadyWorld assumed_steady [.make] ⟨View.empty, 0⟩
    (mem_singleton_self _)
  refine ⟨hboth.1 (requestAt 0 false) _ (le_refl _) rfl, ?_⟩
  refine (hboth.2 (signedRepository 1) [requestAt 0 false, requestAt 1 true, requestAt 2 false]
    ?_).2 [requestAt 0 false, requestAt 2 false] ?_ ?_ (by decide)
  · exact fun request _ => ⟨fun _ => still_steady _, fun _ => still_steady _⟩
  · exact .cons_cons _ (.cons _ (.cons_cons _ .slnil))
  intro request hrequest
  simp only [mem_cons, not_mem_nil, or_false] at hrequest
  obtain rfl | rfl := hrequest <;> exact ⟨rfl, rfl, fun _ => rfl⟩

/-- A client that is gone reads nothing, however often it comes back; and a file that is
repaired without a change of its identity is not read again. -/
theorem unread_and_unrepaired :
    (let outcome := referrersOf steadyWorld (requestAt 0 true) View.empty
     outcome.reads = [] ∧ outcome.view.ready = false ∧
      serve steadyWorld outcome.view (requestAt 0 true) = outcome.view) ∧
    (let view := serve repairedWorld View.empty (requestAt 0 false)
     VersionsIdentify repairedWorld ∧ BodiesStay repairedWorld ∧
      (referrersOf repairedWorld (requestAt 1 false) view).answer = .listed [] ∧
      Listing.referrersOf (settledStore repairedWorld 1) (some [signedRow]) (.sha256 7) =
        some [entryOf (settledStore repairedWorld 1) signedRow 1]) := by
  refine ⟨⟨rfl, rfl, rfl⟩, ?_, ?_, rfl, rfl⟩
  · intro first between last before after _ _ hbefore _ _
    obtain rfl := Option.some.inj hbefore
    rfl
  intro first last digest body hle hbody _
  by_cases hdigest : digest = .sha256 1
  · subst hdigest
    cases first with
    | zero => cases hbody
    | succ first =>
      cases last with
      | zero => omega
      | succ last => exact hbody
  · have hnone : bodyAt repairedWorld first digest = none := by
      simp [bodyAt, Instant.file, repairedWorld, signedWorld, calm, signedRepository, hdigest]
    rw [hnone] at hbody
    cases hbody

end K3sm.Registry.ReferrerView
