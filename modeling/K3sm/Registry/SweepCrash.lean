import K3sm.Registry.Replan
import K3sm.Registry.Sweep

/-!
# A sweep that stops

`apply` can be the last thing a process does.  Wherever it stops, no row has lost a blob its
manifest names: a row is left by one of the two plans, that plan references what the row's body
names, and only what both plans reap is deleted.
-/

namespace K3sm.Registry.Gc

open K3sm.Core List

variable {Bytes : Type} {env : Env Bytes}

variable {digest : Digest} {rows : List Row} {input : PlanInput} {refs : Refs} {row : Row}
  {walked : Walked}

theorem mark_eq_ok {contents : Contents} {cutoff : Time} {outcome : Digest → ReadOutcome Bytes}
    {marked : Marked} (hmark : mark env rows contents cutoff outcome = .ok marked) :
    ∃ walked, walkPlan (markInput env rows contents cutoff outcome) env.steps = .ok walked ∧
      marked = {
        plan := walked.plan (markInput env rows contents cutoff outcome)
        rows := rows
        contents := contents
        reads := walked.walk.read.map fun digest =>
          (digest, manifestRead env.codec digest (outcome digest)) } := by
  unfold mark at hmark
  rw [bind_eq_ok_iff] at hmark
  obtain ⟨walked, hwalk, hmark⟩ := hmark
  exact ⟨walked, hwalk, (pure_eq_ok_iff.1 hmark).symm⟩

theorem entry_map {digests : List Digest} {read : Digest → ManifestRead} :
    Reads.entry (digests.map fun digest => (digest, read digest)) digest =
      if digest ∈ digests then some (read digest) else none := by
  induction digests with
  | nil => rfl
  | cons first digests ih =>
    by_cases hfirst : first = digest
    · simp [Reads.entry, hfirst]
    have hskip : Reads.entry ((first :: digests).map fun digest => (digest, read digest))
        digest = Reads.entry (digests.map fun digest => (digest, read digest)) digest := by
      simp [Reads.entry, hfirst]
    rw [hskip, ih]
    simp [Ne.symm hfirst]

theorem mark_entry {contents : Contents} {cutoff : Time} {outcome : Digest → ReadOutcome Bytes}
    {marked : Marked} {entry : ManifestRead}
    (hmark : mark env rows contents cutoff outcome = .ok marked)
    (hentry : marked.reads.entry digest = some entry) :
    entry = manifestRead env.codec digest (outcome digest) := by
  obtain ⟨walked, -, rfl⟩ := mark_eq_ok hmark
  rw [entry_map] at hentry
  split at hentry
  · exact (Option.some.inj hentry).symm
  · cases hentry

structure LockedPass (env : Env Bytes) (now : Time) (marked : Marked) (repo checked : Repo Bytes)
    (second : Walked) (whole : Plan) : Prop where
  index : repo.files.index = some marked.rows
  check : repo.checkRows env = .ok checked
  walk : walkPlan (lockedInput env marked.rows (checked.contents env.codec) (now - env.grace)
    marked.reads) env.steps = .ok second
  plan : whole = marked.plan.intersect (second.plan
    (lockedInput env marked.rows (checked.contents env.codec) (now - env.grace) marked.reads))

theorem lockedPlan_eq_ok {now : Time} {marked : Marked} {repo checked : Repo Bytes}
    {whole : Plan} (hlocked : lockedPlan env now marked repo = .ok (checked, whole)) :
    ∃ second, LockedPass env now marked repo checked second whole := by
  unfold lockedPlan at hlocked
  split at hlocked
  case h_1 => cases hlocked
  rename_i rows hindex
  split_ifs at hlocked with hrows
  have hrows : rows = marked.rows := not_not.1 hrows
  subst hrows
  rw [bind_eq_ok_iff] at hlocked
  obtain ⟨checked', hchecked, hlocked⟩ := hlocked
  rw [bind_eq_ok_iff] at hlocked
  obtain ⟨plan, hplan, hlocked⟩ := hlocked
  cases pure_eq_ok_iff.1 hlocked
  obtain ⟨second, hwalk, rfl⟩ := makePlan_eq_ok (mapError_eq_ok hplan)
  exact ⟨second, hindex, hchecked, hwalk, rfl⟩

theorem sweepLocked_eq_ok {now : Time} {marked : Marked} {repo checked : Repo Bytes}
    {final : Plan} (hlocked : sweepLocked env now marked repo = .ok (checked, final)) :
    ∃ whole, lockedPlan env now marked repo = .ok (checked, whole) ∧
      brake env now whole checked.rows (checked.contents env.codec) marked.reads = .ok final := by
  unfold sweepLocked at hlocked
  rw [bind_eq_ok_iff] at hlocked
  obtain ⟨⟨checked', whole⟩, hwhole, hlocked⟩ := hlocked
  rw [bind_eq_ok_iff] at hlocked
  obtain ⟨final', hbrake, hlocked⟩ := hlocked
  cases pure_eq_ok_iff.1 hlocked
  exact ⟨whole, hwhole, hbrake⟩

theorem brake_eq_ok {now : Time} {whole final : Plan} {contents : Contents} {reads : Reads}
    (hbrake : brake env now whole rows contents reads = .ok final) :
    final.rows = whole.rows ∧ final.blobs ⊆ whole.blobs := by
  unfold brake at hbrake
  dsimp only at hbrake
  split at hbrake
  case isTrue =>
    cases hbrake
    exact ⟨rfl, List.Subset.refl _⟩
  split at hbrake
  case h_2 => cases hbrake
  rename_i left hleft
  cases hbrake
  unfold leaveNewerOut at hleft
  split_ifs at hleft
  dsimp only at hleft
  split at hleft
  case isFalse => cases hleft
  cases hleft
  exact ⟨rfl, filter_subset_self _⟩

theorem manifestRead_ok {codec : Codec Bytes} {outcome : ReadOutcome Bytes}
    (hread : (manifestRead codec digest outcome).result = .ok refs) :
    ∃ bytes, outcome = .body bytes ∧ codec.hashesTo bytes digest = true ∧
      parseBody codec bytes = .ok refs := by
  unfold manifestRead at hread
  split at hread
  case h_1 => cases hread
  case h_2 => cases hread
  rename_i bytes
  split_ifs at hread with hverified
  have hhash : codec.hashesTo bytes digest = true := by
    simpa using (not_or.1 hverified).2
  dsimp only at hread
  split at hread
  case h_2 => cases hread
  rename_i refs' hparse
  cases hread
  exact ⟨bytes, rfl, hhash, hparse⟩

theorem manifestRead_missing {codec : Codec Bytes} {outcome : ReadOutcome Bytes}
    (hread : (manifestRead codec digest outcome).result = .error .blobUnknown) :
    outcome = .missing := by
  unfold manifestRead at hread
  split at hread
  case h_1 => rfl
  case h_2 cause => cases cause <;> cases hread
  rename_i bytes
  split at hread
  case isTrue => cases hread
  dsimp only at hread
  split at hread <;> cases hread

theorem manifestRead_body (codec : Codec Bytes) (digest : Digest) (bytes : Bytes) :
    (manifestRead codec digest (.body bytes)).present = true ∧
      (manifestRead codec digest (.body bytes)).size = codec.len bytes := by
  unfold manifestRead
  dsimp only
  split
  · exact ⟨rfl, rfl⟩
  · split <;> exact ⟨rfl, rfl⟩

theorem locked_eq {reads : Reads} {contents : Contents}
    (hfresh : reads.locked contents digest ≠ .error .stale) :
    ∃ entry, reads.entry digest = some entry ∧ reads.locked contents digest = entry.result ∧
      entry.present = (contents.blobs.find? (·.digest == digest)).isSome := by
  unfold Reads.locked at hfresh ⊢
  cases hentry : reads.entry digest with
  | none => simp [hentry] at hfresh
  | some entry =>
    simp only [hentry] at hfresh ⊢
    refine ⟨entry, rfl, ?_⟩
    cases hfind : contents.blobs.find? (·.digest == digest) with
    | none =>
      simp only [hfind] at hfresh ⊢
      cases hpresent : entry.present with
      | true => simp [hpresent] at hfresh
      | false => simp
    | some blob =>
      simp only [hfind] at hfresh ⊢
      by_cases hstale : entry.present = false ∨ (entry.sized ∧ blob.size ≠ entry.size)
      · simp [hstale] at hfresh
      · rw [if_neg hstale]
        exact ⟨rfl, by simpa using (not_or.1 hstale).1⟩

/-- The body stored as `digest` is what the digest names, and it references
`refs`. -/
def Repo.bodyRefs (codec : Codec Bytes) (repo : Repo Bytes) (digest : Digest) (refs : Refs) :
    Prop :=
  ∃ blob ∈ repo.blobs, blob.digest = digest ∧ codec.hashesTo blob.body digest = true ∧
    parseBody codec blob.body = .ok refs

def Repo.names (codec : Codec Bytes) (repo : Repo Bytes) (manifest target : Digest) : Prop :=
  ∃ refs, repo.bodyRefs codec manifest refs ∧ (target ∈ refs.blobs ∨ target ∈ refs.children)

/-- A verified read of a digest's body is of the bytes stored under it, if those
are what the digest names. -/
theorem bodyRefs_unique {repo : Repo Bytes} {outcome : ReadOutcome Bytes} {refs' : Refs}
    (hbody : repo.bodyRefs env.codec digest refs)
    (hread : (manifestRead env.codec digest outcome).result = .ok refs') : refs' = refs := by
  obtain ⟨blob, -, -, hhash, hparse⟩ := hbody
  obtain ⟨bytes, -, hhash', hparse'⟩ := manifestRead_ok hread
  have hsame : bytes = blob.body := env.codec.hashesTo_unique hhash' hhash
  rw [hsame, hparse] at hparse'
  exact (Except.ok.inj hparse').symm

theorem find_contents (codec : Codec Bytes) (repo : Repo Bytes) (digest : Digest) :
    (repo.contents codec).blobs.find? (·.digest == digest) =
      (repo.find digest).map fun blob => ⟨blob.digest, codec.len blob.body, blob.modTime⟩ := by
  simp only [Repo.contents, Repo.find, List.find?_map]
  rfl

theorem find_isSome_iff (repo : Repo Bytes) (digest : Digest) :
    (repo.find digest).isSome ↔ repo.holds digest := by
  simp [Repo.find, Repo.holds]

theorem find_of_mem {repo : Repo Bytes} {blob : BlobFile Bytes} (hblob : blob ∈ repo.blobs) :
    repo.find blob.digest = some blob := by
  have hgeneral : ∀ blobs : List (BlobFile Bytes), (blobs.map BlobFile.digest).Nodup →
      blob ∈ blobs → blobs.find? (·.digest == blob.digest) = some blob := by
    intro blobs
    induction blobs with
    | nil => simp
    | cons first blobs ih =>
      intro hnodup hmem
      rw [map_cons, nodup_cons] at hnodup
      rcases mem_cons.1 hmem with rfl | hmem
      · simp
      have hother : first.digest ≠ blob.digest := by
        intro hsame
        exact hnodup.1 (hsame ▸ mem_map_of_mem hmem)
      rw [List.find?_cons_of_neg (by simpa using hother)]
      exact ih hnodup.2 hmem
  exact hgeneral repo.blobs repo.blobs_nodup hblob

/-! ## A row that stays keeps what it names -/

theorem hasRow_of_mem (hrow : row ∈ input.rows) : input.hasRow row.digest = true :=
  any_eq_true.2 ⟨row, hrow, by simp⟩

theorem overCap_of_mem (hrow : row ∈ input.rows) : input.overCap row.digest = false := by
  simp [PlanInput.overCap, hasRow_of_mem hrow]

theorem WalkedInv.rowRefs (hinv : WalkedInv input walked) (hrow : row ∈ input.rows) :
    (∃ refs, input.refsOf row.digest = .ok refs) ∨
      input.refsOf row.digest = .error .blobUnknown := by
  rcases hinv.rows row hrow with hkept | ⟨-, -, -, hrefs⟩
  · rcases (hinv.walk.complete.kept _ hkept).answered (overCap_of_mem hrow) with
      hrefs | hmissing | ⟨named, hnone, -⟩
    · exact .inl hrefs
    · exact .inr hmissing
    · simp [hasRow_of_mem hrow] at hnone
  · exact .inl hrefs

theorem WalkedInv.spares (hinv : WalkedInv input walked) {target : Digest} (hrow : row ∈ input.rows)
    (hkept : row.digest ∈ walked.keepSet) (hrefs : input.refsOf row.digest = .ok refs)
    (htarget : target ∈ refs.blobs ∨ target ∈ refs.children) :
    target ∉ (walked.plan input).blobs := by
  have hreadable : Readable input row.digest refs := ⟨overCap_of_mem hrow, hrefs⟩
  have hreferenced : Referenced input walked.keepSet target := by
    right
    refine ⟨row.digest, hkept, ?_⟩
    rcases htarget with hblob | hchild
    · exact .inl ⟨refs, hreadable, hblob⟩
    · exact .inr (.inl ⟨refs, hreadable, hchild⟩)
  intro hreaped
  obtain ⟨-, -, -, -, hfree⟩ := (mem_plan_blobs target).1 hreaped
  exact hfree (hinv.referenced_of hreferenced)

theorem WalkedInv.spares_self (hinv : WalkedInv input walked) (hkept : digest ∈ walked.keepSet) :
    digest ∉ (walked.plan input).blobs := by
  intro hreaped
  obtain ⟨-, -, -, -, hfree⟩ := (mem_plan_blobs digest).1 hreaped
  exact hfree (hinv.referenced_of (.inl hkept))

theorem WalkedInv.keeps (hinv : WalkedInv input walked) (hrow : row ∈ input.rows)
    (hstays : (walked.plan input).reapsRow row = false) : row.digest ∈ walked.keepSet := by
  cases htagged : row.tagged with
  | true => exact hinv.closed.outright row hrow (.inl htagged)
  | false =>
    by_contra hfree
    have hreaped := (hinv.mem_plan_rows row.digest).2 ⟨row, hrow, rfl, htagged, hfree⟩
    simp [Plan.reapsRow, htagged, hreaped] at hstays

structure RecordOnly (repo checked : Repo Bytes) : Prop where
  index : checked.files.index = repo.files.index
  blobs : checked.blobs = repo.blobs
  indexModTime : checked.indexModTime = repo.indexModTime
  sessions : checked.sessions = repo.sessions
  temps : checked.temps = repo.temps
  unknown : checked.unknown = repo.unknown

theorem checkRows_eq_ok {repo checked : Repo Bytes} (hcheck : repo.checkRows env = .ok checked) :
    RecordOnly repo checked ∧ RowRecord.RecordWithin env.records checked.files := by
  unfold Repo.checkRows at hcheck
  split at hcheck
  case h_1 => cases hcheck
  case h_2 => cases hcheck
  rename_i script hpassed
  cases hcheck
  unfold RowRecord.checkRows at hpassed
  split at hpassed
  case h_1 => cases hpassed
  rename_i rows hindex
  have hheld : repo.files.held = rows.length := by simp [RowRecord.Files.held, hindex]
  split at hpassed
  case h_1 hnone =>
    cases hpassed
    refine ⟨⟨rfl, rfl, rfl, rfl, rfl, rfl⟩, ?_⟩
    exact RowRecord.within_written repo.files repo.files.id (by rw [hheld])
  rename_i count hcount
  split_ifs at hpassed with hwithin
  cases hpassed
  refine ⟨⟨rfl, rfl, rfl, rfl, rfl, rfl⟩, ?_⟩
  have hrecord : RowRecord.RecordWithin env.records repo.files := by
    intro other hother
    rw [hcount] at hother
    rw [← Option.some.inj hother, hheld]
    exact not_lt.1 hwithin
  exact hrecord

section Locked

variable {rows₀ : List Row} {contents₀ : Contents} {cutoff₀ now : Time}
  {outcome : Digest → ReadOutcome Bytes} {marked : Marked} {repo checked left : Repo Bytes}
  {second : Walked} {whole final : Plan}

theorem LockedPass.checked_rows (hpass : LockedPass env now marked repo checked second whole) :
    checked.rows = marked.rows ∧ checked.files.index = some marked.rows := by
  have hframe := (checkRows_eq_ok hpass.check).1
  have hindex : checked.files.index = some marked.rows := hframe.index.trans hpass.index
  exact ⟨by simp [Repo.rows, hindex], hindex⟩

variable {digest : Digest} {goneRows goneBlobs : List Digest} {row : Row} {busy : String → Bool}
  {walked : Walked}

theorem LockedPass.rowRefs (hmark : mark env rows₀ contents₀ cutoff₀ outcome = .ok marked)
    (hpass : LockedPass env now marked repo checked second whole) (hrow : row ∈ marked.rows)
    (hholds : checked.holds row.digest) :
    ∃ refs, marked.reads.locked (checked.contents env.codec) row.digest = .ok refs ∧
      (manifestRead env.codec row.digest (outcome row.digest)).result = .ok refs := by
  have hanswer := (walkPlan_inv hpass.walk).rowRefs hrow
  have hfresh : marked.reads.locked (checked.contents env.codec) row.digest ≠ .error .stale := by
    rcases hanswer with ⟨refs, hrefs⟩ | hmissing
    · exact fun hstale => by cases hrefs.symm.trans hstale
    · exact fun hstale => by cases hmissing.symm.trans hstale
  obtain ⟨entry, hentry, hresult, hpresent⟩ := locked_eq hfresh
  have hread := mark_entry hmark hentry
  rw [find_contents, Option.isSome_map] at hpresent
  have hthere : entry.present = true := hpresent.trans ((find_isSome_iff _ _).2 hholds)
  rcases hanswer with ⟨refs, hrefs⟩ | hmissing
  · refine ⟨refs, hrefs, ?_⟩
    rw [← hread, ← hresult]
    exact hrefs
  · have hgone : entry.result = .error .blobUnknown := hresult.symm.trans hmissing
    rw [hread] at hgone hthere
    rw [manifestRead_missing hgone] at hthere
    cases hthere

/-- What both plans reap names nothing that a remaining row's manifest names:
the plan that keeps the row references all of it. -/
theorem LockedPass.spares (hmark : mark env rows₀ contents₀ cutoff₀ outcome = .ok marked)
    (hpass : LockedPass env now marked repo checked second whole) {target : Digest}
    (hrow : row ∈ checked.rows) (hstays : whole.reapsRow row = false)
    (htarget : target = row.digest ∨ checked.names env.codec row.digest target) :
    target ∉ whole.blobs := by
  have hrow : row ∈ marked.rows := hpass.checked_rows.1 ▸ hrow
  obtain ⟨first, hfirst, hmarked⟩ := mark_eq_ok hmark
  have hrows₀ : row ∈ rows₀ := by rw [hmarked] at hrow; exact hrow
  have hfirstInv := walkPlan_inv hfirst
  have hsecondInv := walkPlan_inv hpass.walk
  -- one of the two plans keeps the row
  have hkept : row.digest ∈ first.keepSet ∨ row.digest ∈ second.keepSet := by
    by_contra hneither
    obtain ⟨hfree, hfree'⟩ := not_or.1 hneither
    have hreaps := mt (hfirstInv.keeps hrows₀) hfree
    have hreaps' := mt (hsecondInv.keeps hrow) hfree'
    simp only [Bool.not_eq_false, Plan.reapsRow, Bool.and_eq_true, decide_eq_true_eq]
      at hreaps hreaps'
    have hboth : row.digest ∈ whole.rows := by
      rw [hpass.plan, hmarked]
      exact mem_filter.2 ⟨hreaps.2, by simpa [hmarked] using hreaps'.2⟩
    simp only [Plan.reapsRow, hreaps.1, hboth, decide_true, Bool.and_self,
      Bool.true_eq_false] at hstays
  intro hreaped
  rw [hpass.plan] at hreaped
  obtain ⟨hreaped, hreaped'⟩ := mem_filter.1 hreaped
  rw [hmarked] at hreaped
  have hreaped' := of_decide_eq_true hreaped'
  rcases htarget with rfl | ⟨refs, hbody, hnames⟩
  · rcases hkept with hkept | hkept
    · exact hfirstInv.spares_self hkept hreaped
    · exact hsecondInv.spares_self hkept hreaped'
  have hholds : checked.holds row.digest := by
    obtain ⟨blob, hblob, hdigest, -⟩ := hbody
    exact ⟨blob, hblob, hdigest⟩
  obtain ⟨refs', hrefs, hread⟩ := hpass.rowRefs hmark hrow hholds
  cases bodyRefs_unique hbody hread
  rcases hkept with hkept | hkept
  · exact hfirstInv.spares hrows₀ hkept hread hnames hreaped
  · exact hsecondInv.spares hrow hkept hrefs hnames hreaped'

/-- Wherever `apply` stops, every row that is left has all that it had of its
body and of what its manifest names. -/
theorem LockedPass.stops_keep (hmark : mark env rows₀ contents₀ cutoff₀ outcome = .ok marked)
    (hpass : LockedPass env now marked repo checked second whole)
    (hfinal : final.rows = whole.rows ∧ final.blobs ⊆ whole.blobs)
    (hleft : left ∈ (apply env now busy final checked).stops checked) {target : Digest}
    (hrow : row ∈ left.rows)
    (htarget : target = row.digest ∨ checked.names env.codec row.digest target)
    (hholds : checked.holds target) : left.holds target := by
  have hindex : checked.files.index.isSome = true := by simp [hpass.checked_rows.2]
  rcases apply_stops hindex hleft with ⟨-, hblobs⟩ | ⟨hrows, gone, hgone, hblobs⟩
  · rwa [Repo.holds, hblobs]
  rw [hrows] at hrow
  obtain ⟨hrow, hstays⟩ := mem_filter.1 hrow
  have hstays : whole.reapsRow row = false := by
    rw [Bool.not_eq_true', Plan.reapsRow, hfinal.1] at hstays
    exact hstays
  have hspared := hpass.spares hmark hrow hstays htarget
  obtain ⟨blob, hblob, hdigest⟩ := hholds
  refine ⟨blob, ?_, hdigest⟩
  rw [hblobs]
  refine mem_filter.2 ⟨hblob, ?_⟩
  rw [hdigest]
  exact decide_eq_true fun hmem => hspared (hfinal.2 (hgone hmem))

/-! ## Running again -/

/-- The mark's reads are those of the repository as it is. -/
def ReadsCurrent (env : Env Bytes) (repo : Repo Bytes) (marked : Marked) : Prop :=
  ∀ digest entry, marked.reads.entry digest = some entry →
    entry = manifestRead env.codec digest (repo.read digest)

def sweepInput (env : Env Bytes) (now : Time) (repo : Repo Bytes) : PlanInput :=
  markInput env repo.rows (repo.contents env.codec) (now - env.grace) repo.read

/-- What an undisturbed sweep of the repository at `now` would reap, before its
brake. -/
def Intends (env : Env Bytes) (now : Time) (repo : Repo Bytes) (whole : Plan) : Prop :=
  ∃ marked checked,
    mark env repo.rows (repo.contents env.codec) (now - env.grace) repo.read = .ok marked ∧
    lockedPlan env now marked repo = .ok (checked, whole)

theorem agrees_refsOf {input other : PlanInput} {done : Walk}
    (hrows : other.rows = input.rows) (hcontents : other.contents = input.contents)
    (hcutoff : other.cutoff = input.cutoff) (hretention : other.retention = input.retention)
    (hartifact : other.artifactType = input.artifactType)
    (hrefsOf : ∀ digest ∈ done.read, other.refsOf digest = input.refsOf digest) :
    Agrees input other (fun _ => true) done where
  rows := by simp [hrows]
  kept := fun _ _ => rfl
  refsOf := fun digest hdigest _ => hrefsOf digest hdigest
  mtime := fun digest _ => by simp only [PlanInput.mtime, hcontents]
  size := fun digest _ => by simp only [PlanInput.size, hcontents]
  young := fun digest => by
    simp only [PlanInput.young, PlanInput.mtime, PlanInput.old, hcontents, hcutoff]
  cutoff := hcutoff
  retention := hretention
  artifactType := hartifact

theorem RecordOnly.contents {repo checked : Repo Bytes} (hframe : RecordOnly repo checked)
    (codec : Codec Bytes) : checked.contents codec = repo.contents codec := by
  simp only [Repo.contents, hframe.blobs, hframe.temps, hframe.sessions, hframe.unknown,
    hframe.indexModTime]

theorem locked_static {reads : Reads}
    (hentry : reads.entry digest = some (manifestRead env.codec digest (repo.read digest)))
    (hanswered : Answered (sweepInput env now repo) digest) :
    reads.locked (repo.contents env.codec) digest = (sweepInput env now repo).refsOf digest := by
  change reads.locked (repo.contents env.codec) digest =
    (manifestRead env.codec digest (repo.read digest)).result
  have hresult : (sweepInput env now repo).refsOf digest =
      (manifestRead env.codec digest (repo.read digest)).result := rfl
  unfold Answered at hanswered
  rw [hresult] at hanswered
  unfold Reads.locked
  rw [hentry, find_contents]
  by_cases hparse : (parseDigest digest).isNone = true
  · have hread : repo.read digest = .failed .io := if_pos hparse
    rw [hread] at hanswered
    rcases hanswered with ⟨_, hother⟩ | hother | ⟨_, _, hother⟩ | ⟨_, hother⟩ <;> cases hother
  cases hfind : repo.find digest with
  | none =>
    have hread : repo.read digest = .missing := by
      rw [Repo.read, if_neg hparse, hfind]
    rw [hread]
    rfl
  | some blob =>
    have hread : repo.read digest = .body blob.body := by
      rw [Repo.read, if_neg hparse, hfind]
    obtain ⟨hpresent, hsize⟩ := manifestRead_body env.codec digest blob.body
    rw [hread]
    simp [hpresent, hsize]

theorem Answered.fresh {input : PlanInput} (hanswered : Answered input digest) :
    input.refsOf digest ≠ .error .stale := by
  intro hstale
  unfold Answered at hanswered
  rw [hstale] at hanswered
  rcases hanswered with ⟨_, hother⟩ | hother | ⟨_, _, hother⟩ | ⟨_, hother⟩ <;> cases hother

/-- An undisturbed sweep gets as far as its brake when its plan can be made and
the record is within the index, and both its passes plan the same. -/
theorem intends_of_walk {rows : List Row} (hindex : repo.files.index = some rows)
    (hwithin : RowRecord.RecordWithin env.records repo.files)
    (hwalk : walkPlan (sweepInput env now repo) env.steps = .ok walked) :
    ∃ whole, Intends env now repo whole ∧
      (∀ digest, digest ∈ whole.rows ↔ digest ∈ (walked.plan (sweepInput env now repo)).rows) ∧
      ∀ digest, digest ∈ whole.blobs ↔ digest ∈ (walked.plan (sweepInput env now repo)).blobs := by
  have hinv := walkPlan_inv hwalk
  have hrows : repo.rows = rows := by simp [Repo.rows, hindex]
  let marked : Marked :=
    { plan := walked.plan (sweepInput env now repo)
      rows := repo.rows
      contents := repo.contents env.codec
      reads := walked.walk.read.map fun digest =>
        (digest, manifestRead env.codec digest (repo.read digest)) }
  have hmark : mark env repo.rows (repo.contents env.codec) (now - env.grace) repo.read =
      .ok marked := bind_eq_ok_iff.2 ⟨walked, hwalk, rfl⟩
  obtain ⟨checked, hcheck⟩ : ∃ checked, repo.checkRows env = .ok checked := by
    unfold Repo.checkRows
    cases hrecord : RowRecord.checkRows env.records repo.files with
    | unreadable =>
      unfold RowRecord.checkRows at hrecord
      simp only [hindex] at hrecord
      split at hrecord
      · cases hrecord
      · split at hrecord <;> cases hrecord
    | rowsLost held recorded =>
      exact absurd hrecord (RowRecord.checkRows_ne_rowsLost hwithin held recorded)
    | passed script => exact ⟨_, rfl⟩
  have hcontents := (checkRows_eq_ok hcheck).1.contents env.codec
  have hagrees : Agrees (sweepInput env now repo)
      (lockedInput env rows (checked.contents env.codec) (now - env.grace) marked.reads)
      (fun _ => true) walked.walk := by
    refine agrees_refsOf hrows.symm hcontents rfl rfl rfl ?_
    intro digest hdigest
    change marked.reads.locked (checked.contents env.codec) digest = _
    rw [hcontents]
    refine locked_static ?_ (hinv.walk.answered digest hdigest)
    rw [entry_map, if_pos hdigest]
  obtain ⟨again, hagain, hkept, hreferenced⟩ := walkPlan_agree hwalk hagrees
  have hagainInv := walkPlan_inv hagain
  let second := again.plan
    (lockedInput env rows (checked.contents env.codec) (now - env.grace) marked.reads)
  have hplan : makePlan (lockedInput env rows (checked.contents env.codec) (now - env.grace)
      marked.reads) env.steps = .ok second := by
    rw [makePlan, hagain, Except.map]
  refine ⟨marked.plan.intersect second, ⟨marked, checked, hmark, ?_⟩, ?_, ?_⟩
  · unfold lockedPlan
    rw [hindex]
    dsimp only
    rw [if_neg (not_not.2 hrows.symm)]
    refine bind_eq_ok_iff.2 ⟨checked, hcheck, ?_⟩
    refine bind_eq_ok_iff.2 ⟨second, ?_, rfl⟩
    rw [hplan]
    rfl
  · intro digest
    refine mem_filter.trans (and_iff_left_of_imp fun hreaped => decide_eq_true ?_)
    obtain ⟨row, hrow, hdigest, huntagged, hfree⟩ := (hinv.mem_plan_rows digest).1 hreaped
    refine (hagainInv.mem_plan_rows digest).2 ⟨row, hrows ▸ hrow, hdigest, huntagged, ?_⟩
    rw [Walked.keepSet, hkept]
    exact hfree
  intro digest
  refine mem_filter.trans (and_iff_left_of_imp fun hreaped => decide_eq_true ?_)
  obtain ⟨blob, hblob, hdigest, hold, hfree⟩ := (mem_plan_blobs digest).1 hreaped
  refine (mem_plan_blobs digest).2 ⟨blob, ?_, hdigest, hold, ?_⟩
  · change blob ∈ (checked.contents env.codec).blobs
    rw [hcontents]
    exact hblob
  · rw [hreferenced]
    exact hfree

theorem LockedPass.current (hpass : LockedPass env now marked repo checked second whole)
    (hcurrent : ReadsCurrent env checked marked) :
    ∃ walked, walkPlan (sweepInput env now checked) env.steps = .ok walked ∧
      walked.walk.kept = second.walk.kept ∧ walked.walk.referenced = second.walk.referenced := by
  have hinv := walkPlan_inv hpass.walk
  refine walkPlan_agree hpass.walk (agrees_refsOf hpass.checked_rows.1 rfl rfl rfl rfl ?_)
  intro digest hdigest
  obtain ⟨entry, hentry, hresult, -⟩ := locked_eq (hinv.walk.answered digest hdigest).fresh
  change (manifestRead env.codec digest (checked.read digest)).result = _
  rw [← hcurrent digest entry hentry]
  exact hresult.symm

/-- What a stopped sweep has taken is part of what the undisturbed one takes:
its rows and blobs are among those the locked pass's own plan reaps. -/
theorem LockedPass.within (hpass : LockedPass env now marked repo checked second whole)
    (hwalk : walkPlan (sweepInput env now checked) env.steps = .ok walked)
    (hkept : walked.walk.kept = second.walk.kept)
    (hreferenced : walked.walk.referenced = second.walk.referenced) :
    (∀ digest ∈ whole.rows, digest ∈ (walked.plan (sweepInput env now checked)).rows) ∧
      ∀ digest ∈ whole.blobs, digest ∈ (walked.plan (sweepInput env now checked)).blobs := by
  have hinv := walkPlan_inv hwalk
  have hsecond := walkPlan_inv hpass.walk
  constructor
  · intro digest hdigest
    rw [hpass.plan] at hdigest
    have hreaped := of_decide_eq_true (mem_filter.1 hdigest).2
    obtain ⟨row, hrow, hsame, huntagged, hfree⟩ := (hsecond.mem_plan_rows digest).1 hreaped
    refine (hinv.mem_plan_rows digest).2 ⟨row, ?_, hsame, huntagged, ?_⟩
    · change row ∈ checked.rows
      rw [hpass.checked_rows.1]
      exact hrow
    · rw [Walked.keepSet, hkept]
      exact hfree
  · intro digest hdigest
    rw [hpass.plan] at hdigest
    have hreaped := of_decide_eq_true (mem_filter.1 hdigest).2
    obtain ⟨blob, hblob, hsame, hold, hfree⟩ := (mem_plan_blobs digest).1 hreaped
    refine (mem_plan_blobs digest).2 ⟨blob, hblob, hsame, hold, ?_⟩
    rw [hreferenced]
    exact hfree

structure Interrupted (plan : Plan) (repo left : Repo Bytes) (goneRows goneBlobs : List Digest) :
    Prop where
  rows : left.rows = repo.rows.filter fun row => row.tagged || row.digest ∉ goneRows
  rows_reaped : goneRows ⊆ plan.rows
  blobs : left.blobs = repo.blobs.filter (·.digest ∉ goneBlobs)
  blobs_reaped : goneBlobs ⊆ plan.blobs
  spared : ∀ row ∈ left.rows, row.digest ∉ goneBlobs

theorem LockedPass.interrupted (hmark : mark env rows₀ contents₀ cutoff₀ outcome = .ok marked)
    (hpass : LockedPass env now marked repo checked second whole)
    (hfinal : final.rows = whole.rows ∧ final.blobs ⊆ whole.blobs)
    (hleft : left ∈ (apply env now busy final checked).stops checked)
    (hwalk : walkPlan (sweepInput env now checked) env.steps = .ok walked)
    (hkept : walked.walk.kept = second.walk.kept)
    (hreferenced : walked.walk.referenced = second.walk.referenced) :
    ∃ goneRows goneBlobs, Interrupted (walked.plan (sweepInput env now checked)) checked left
      goneRows goneBlobs := by
  have hindex : checked.files.index.isSome = true := by simp [hpass.checked_rows.2]
  obtain ⟨hrowsWithin, hblobsWithin⟩ := hpass.within hwalk hkept hreferenced
  rcases apply_stops hindex hleft with ⟨hrows, hblobs⟩ | ⟨hrows, gone, hgone, hblobs⟩
  · exact ⟨[], [], by simp [hrows], by simp, by simp [hblobs], by simp, by simp⟩
  refine ⟨final.rows, gone, ?_, ?_, hblobs, ?_, ?_⟩
  · rw [hrows, Plan.remaining]
    apply filter_congr
    intro row _
    simp [Plan.reapsRow]
  · intro digest hdigest
    rw [hfinal.1] at hdigest
    exact hrowsWithin digest hdigest
  · exact fun digest hdigest => hblobsWithin digest (hfinal.2 (hgone hdigest))
  · intro row hrow hmem
    rw [hrows] at hrow
    obtain ⟨hrow, hstays⟩ := mem_filter.1 hrow
    rw [Bool.not_eq_true', Plan.reapsRow, hfinal.1] at hstays
    exact hpass.spares hmark hrow hstays (.inl rfl) (hfinal.2 (hgone hmem))

theorem find_kept {gone : List Digest} (hblobs : left.blobs = repo.blobs.filter (·.digest ∉ gone))
    (hdigest : digest ∉ gone) : left.find digest = repo.find digest := by
  rw [Repo.find, Repo.find, hblobs, List.find?_filter]
  congr 1
  funext blob
  by_cases hsame : blob.digest = digest <;> simp [hsame, hdigest]

theorem find_gone {gone : List Digest} (hblobs : left.blobs = repo.blobs.filter (·.digest ∉ gone))
    (hdigest : digest ∈ gone) : left.find digest = none := by
  rw [Repo.find, hblobs, List.find?_filter, List.find?_eq_none]
  intro blob _
  by_cases hsame : blob.digest = digest <;> simp [hsame, hdigest]

theorem mtime_sweepInput (digest : Digest) :
    (sweepInput env now repo).mtime digest = (repo.find digest).map BlobFile.modTime := by
  change ((repo.contents env.codec).blobs.find? (·.digest == digest)).map Blob.modTime = _
  rw [find_contents, Option.map_map]
  rfl

theorem size_sweepInput (digest : Digest) :
    (sweepInput env now repo).size digest =
      ((repo.find digest).map fun blob => env.codec.len blob.body).getD 0 := by
  change (((repo.contents env.codec).blobs.find? (·.digest == digest)).map Blob.size).getD 0 = _
  rw [find_contents, Option.map_map]
  rfl

theorem Interrupted.agrees (hwalk : walkPlan (sweepInput env now repo) env.steps = .ok walked)
    (hleft : Interrupted (walked.plan (sweepInput env now repo)) repo left goneRows goneBlobs) :
    Agrees (sweepInput env now repo) (sweepInput env now left)
      (fun digest => digest ∉ goneRows && digest ∉ goneBlobs) walked.walk := by
  have hinv := walkPlan_inv hwalk
  have hunreferenced : ∀ digest ∈ goneBlobs, digest ∉ walked.walk.referenced := by
    intro digest hdigest
    obtain ⟨-, -, -, -, hfree⟩ := (mem_plan_blobs digest).1 (hleft.blobs_reaped hdigest)
    exact hfree
  have hfind : ∀ digest, (digest ∈ walked.walk.referenced ∨
      (decide (digest ∉ goneRows) && decide (digest ∉ goneBlobs)) = true) →
      left.find digest = repo.find digest := by
    intro digest hstays
    apply find_kept hleft.blobs
    rcases hstays with hreferenced | hstays
    · exact fun hgone => hunreferenced digest hgone hreferenced
    · exact of_decide_eq_true (Bool.and_eq_true_iff.1 hstays).2
  constructor
  case rows =>
    change left.rows = repo.rows.filter _
    rw [hleft.rows]
    apply filter_congr
    intro row hrow
    by_cases hstays : row.tagged = true ∨ row.digest ∉ goneRows
    · have hmem : row ∈ left.rows := by
        rw [hleft.rows]
        exact mem_filter.2 ⟨hrow, by simpa using hstays⟩
      simp [hleft.spared row hmem]
    · simp_all
  case kept =>
    intro digest hdigest
    have hrow : digest ∉ goneRows := by
      intro hgone
      obtain ⟨-, -, -, -, hfree⟩ := (hinv.mem_plan_rows digest).1 (hleft.rows_reaped hgone)
      exact hfree hdigest
    have hblob : digest ∉ goneBlobs := fun hgone =>
      hunreferenced digest hgone (hinv.referenced_of (.inl hdigest))
    simp [hrow, hblob]
  case refsOf =>
    intro digest _ hstays
    change (manifestRead env.codec digest (left.read digest)).result =
      (manifestRead env.codec digest (repo.read digest)).result
    rw [Repo.read, Repo.read, hfind digest hstays]
  case mtime =>
    intro digest hstays
    rw [mtime_sweepInput, mtime_sweepInput, hfind digest hstays]
  case size =>
    intro digest hstays
    rw [size_sweepInput, size_sweepInput, hfind digest hstays]
  case cutoff => rfl
  case retention => rfl
  case artifactType => rfl
  intro digest
  rw [PlanInput.young, PlanInput.young, mtime_sweepInput, mtime_sweepInput]
  by_cases hgone : digest ∈ goneBlobs
  · obtain ⟨blob, hblob, hdigest, hold, -⟩ :=
      (mem_plan_blobs digest).1 (hleft.blobs_reaped hgone)
    obtain ⟨file, hfile, rfl⟩ := mem_map.1 hblob
    rw [find_gone hleft.blobs hgone, ← hdigest, find_of_mem hfile]
    simp only [Option.map_none, Option.getD_none, Option.map_some, Option.getD_some,
      PlanInput.old]
    simpa using hold
  · rw [find_kept hleft.blobs hgone]
    rfl

theorem Interrupted.replan (hwalk : walkPlan (sweepInput env now repo) env.steps = .ok walked)
    (hleft : Interrupted (walked.plan (sweepInput env now repo)) repo left goneRows goneBlobs) :
    ∃ again, walkPlan (sweepInput env now left) env.steps = .ok again ∧
      (∀ digest, digest ∈ (again.plan (sweepInput env now left)).rows ↔
        digest ∈ (walked.plan (sweepInput env now repo)).rows ∧
          ∃ row ∈ left.rows, row.digest = digest) ∧
      ∀ digest, digest ∈ (again.plan (sweepInput env now left)).blobs ↔
        digest ∈ (walked.plan (sweepInput env now repo)).blobs ∧ left.holds digest := by
  obtain ⟨again, hagain, hkept, hreferenced⟩ := walkPlan_agree hwalk (hleft.agrees hwalk)
  have hinv := walkPlan_inv hwalk
  have hagainInv := walkPlan_inv hagain
  have hsets : again.keepSet = walked.keepSet := by rw [Walked.keepSet, hkept]; rfl
  have hsubset : ∀ row ∈ left.rows, row ∈ repo.rows := by
    intro row hrow
    rw [hleft.rows] at hrow
    exact mem_of_mem_filter hrow
  refine ⟨again, hagain, fun digest => ?_, fun digest => ?_⟩
  · rw [hagainInv.mem_plan_rows, hinv.mem_plan_rows, hsets]
    constructor
    · rintro ⟨row, hrow, hdigest, huntagged, hfree⟩
      exact ⟨⟨row, hsubset row hrow, hdigest, huntagged, hfree⟩, row, hrow, hdigest⟩
    · rintro ⟨⟨-, -, -, -, hfree⟩, row, hrow, hdigest⟩
      refine ⟨row, hrow, hdigest, ?_, hfree⟩
      by_contra htagged
      apply hfree
      rw [← hdigest]
      exact hinv.closed.outright row (hsubset row hrow) (.inl (by simpa using htagged))
  rw [mem_plan_blobs, mem_plan_blobs, hreferenced]
  constructor
  · rintro ⟨blob, hblob, hdigest, hold, hfree⟩
    obtain ⟨file, hfile, rfl⟩ := mem_map.1 hblob
    have hfile' : file ∈ repo.blobs := by
      rw [hleft.blobs] at hfile
      exact mem_of_mem_filter hfile
    exact ⟨⟨_, mem_map.2 ⟨file, hfile', rfl⟩, hdigest, hold, hfree⟩, file, hfile, hdigest⟩
  rintro ⟨⟨blob, hblob, hdigest, hold, hfree⟩, file, hfile, hsame⟩
  obtain ⟨other, hother, rfl⟩ := mem_map.1 hblob
  have hfile' : file ∈ repo.blobs := by
    rw [hleft.blobs] at hfile
    exact mem_of_mem_filter hfile
  have hfound : some other = some file := by
    rw [← find_of_mem hother, ← find_of_mem hfile', hsame]
    exact congrArg repo.find hdigest
  cases hfound
  exact ⟨_, mem_map.2 ⟨file, hfile, rfl⟩, hdigest, hold, hfree⟩

/-! ## The files a stopped sweep leaves -/

/-- What every step of `apply` keeps: the record is within the index, and a
directory without index.json has no blobs. -/
structure FilesSound (env : Env Bytes) (repo : Repo Bytes) : Prop where
  within : RowRecord.RecordWithin env.records repo.files
  empty : repo.files.index = none → repo.blobs = []

theorem applyRows_filesSound {plan : Plan} (hindex : checked.files.index.isSome)
    (hsound : FilesSound env checked)
    (hleft : left ∈ (applyRows env now plan checked).stops checked) : FilesSound env left := by
  unfold applyRows at hleft
  simp only at hleft
  split at hleft
  · rwa [Script.mem_stops_nil.1 hleft]
  split at hleft
  · rcases Script.mem_stops_cons.1 hleft with rfl | ⟨next, hnext, -⟩
    · exact hsound
    · cases hnext
  · have hfiles := Script.mem_stops_lift (files_setFiles now) hleft
    refine ⟨RowRecord.setRows_stops_within hsound.within hfiles, fun hnone => ?_⟩
    rcases setRows_stops_index hfiles with hsame | hnew
    · rw [hsame] at hnone
      simp [hnone] at hindex
    · simp [hnew] at hnone

theorem removeBlob_filesSound {next : Repo Bytes} (hsound : FilesSound env left)
    (hremove : removeBlob digest left = some next) : FilesSound env next := by
  rw [removeBlob_eq hremove]
  refine ⟨hsound.within, fun hnone => ?_⟩
  simp [Repo.withoutBlobs, hsound.empty hnone]

theorem removeLayout_filesSound {cutoff : Time} {action : Repo Bytes → Option (Repo Bytes)}
    {next : Repo Bytes} (haction : action ∈ removeLayout cutoff)
    (hsound : FilesSound env left) (hnext : action left = some next) : FilesSound env next := by
  simp only [removeLayout, mem_cons, not_mem_nil, or_false] at haction
  rcases haction with rfl | rfl
  · dsimp only at hnext
    split at hnext
    case isTrue hempty =>
      cases hnext
      simp only [Repo.layoutEmpty, Bool.and_eq_true, beq_iff_eq] at hempty
      refine ⟨?_, fun _ => by simpa using hempty.1.1.1.2⟩
      intro count hcount
      have hheld := hsound.within count hcount
      simpa [RowRecord.Files.held, hempty.1.1.1.1.1] using hheld
    case isFalse =>
      cases hnext
      exact hsound
  · dsimp only at hnext
    split at hnext <;> cases hnext
    · exact ⟨RowRecord.within_record_removed env.records _, hsound.empty⟩
    · exact hsound

theorem apply_filesSound {plan : Plan} (hindex : checked.files.index.isSome)
    (hsound : FilesSound env checked)
    (hleft : left ∈ (apply env now busy plan checked).stops checked) : FilesSound env left := by
  rcases Script.mem_stops_append hleft with hrows | ⟨middle, hmiddle, hrest⟩
  · exact applyRows_filesSound hindex hsound hrows
  have hbefore := applyRows_filesSound hindex hsound (Script.run_mem_stops hmiddle)
  refine Script.stops_invariant (FilesSound env) ?_ hbefore hrest
  intro action haction before after hbefore hafter
  simp only [applyBlobs, applyTail, mem_append] at haction
  rcases haction with hblob | (hsession | htemp) | hlayout
  · obtain ⟨digest, -, rfl⟩ := mem_map.1 hblob
    exact removeBlob_filesSound hbefore hafter
  · obtain ⟨id, -, rfl⟩ := mem_map.1 hsession
    cases hafter
    exact ⟨hbefore.within, hbefore.empty⟩
  · obtain ⟨temp, -, rfl⟩ := mem_map.1 htemp
    cases hafter
    exact ⟨hbefore.within, hbefore.empty⟩
  · split at hlayout
    · exact removeLayout_filesSound hlayout hbefore hafter
    · cases hlayout

/-- An undisturbed sweep at `now` that runs to its end and whose brake lets its
whole plan through.  A directory that is no repository is not swept. -/
def SweepsWhole (env : Env Bytes) (now : Time) (busy : String → Bool)
    (repo done : Repo Bytes) : Prop :=
  (repo.files.index = none ∧ done = repo) ∨
    ∃ marked checked whole,
      mark env repo.rows (repo.contents env.codec) (now - env.grace) repo.read = .ok marked ∧
      lockedPlan env now marked repo = .ok (checked, whole) ∧
      sweepLocked env now marked repo = .ok (checked, whole) ∧
      (apply env now busy whole checked).run checked = some done

theorem Intends.unique {first other : Plan} (hfirst : Intends env now repo first)
    (hother : Intends env now repo other) : first = other := by
  obtain ⟨marked, checked, hmark, hlocked⟩ := hfirst
  obtain ⟨marked', checked', hmark', hlocked'⟩ := hother
  cases hmark.symm.trans hmark'
  cases hlocked.symm.trans hlocked'
  rfl

theorem SweepsWhole.leaves {done : Repo Bytes} (hsweeps : SweepsWhole env now busy repo done)
    (hindex : repo.files.index ≠ none) :
    ∃ intended, Intends env now repo intended ∧ done.rows = intended.remaining repo.rows ∧
      done.blobs = repo.blobs.filter (·.digest ∉ intended.blobs) := by
  rcases hsweeps with ⟨hnone, -⟩ | ⟨marked, checked, intended, hmark, hlocked, -, hrun⟩
  · exact absurd hnone hindex
  obtain ⟨second, hpass⟩ := lockedPlan_eq_ok hlocked
  obtain ⟨hrows, hblobs⟩ := apply_run (by simp [hpass.checked_rows.2]) hrun
  have hframe := (checkRows_eq_ok hpass.check).1
  refine ⟨intended, ⟨marked, checked, hmark, hlocked⟩, ?_, ?_⟩
  · rw [hrows, Repo.rows, hframe.index]
    rfl
  · rw [hblobs, hframe.blobs]

/-- What is left to do of a plan after a part of it. -/
structure LeftOf (whole : Plan) (left : Repo Bytes) (rest : Plan) : Prop where
  rows : ∀ digest, digest ∈ rest.rows ↔ digest ∈ whole.rows ∧ ∃ row ∈ left.rows, row.digest = digest
  blobs : ∀ digest, digest ∈ rest.blobs ↔ digest ∈ whole.blobs ∧ left.holds digest

theorem Interrupted.remaining {rest : Plan} (hleft : Interrupted whole repo left goneRows goneBlobs)
    (hrest : LeftOf whole left rest) : rest.remaining left.rows = whole.remaining repo.rows := by
  rw [Plan.remaining, Plan.remaining, hleft.rows, filter_filter]
  apply filter_congr
  intro row hrow
  cases htagged : row.tagged with
  | true => simp [Plan.reapsRow, htagged]
  | false =>
    by_cases hgone : row.digest ∈ goneRows
    · simp [Plan.reapsRow, htagged, hgone, hleft.rows_reaped hgone]
    have hmem : row ∈ left.rows := by
      rw [hleft.rows]
      exact mem_filter.2 ⟨hrow, by simp [hgone]⟩
    have hsame : row.digest ∈ rest.rows ↔ row.digest ∈ whole.rows := by
      rw [hrest.rows]
      exact and_iff_left ⟨row, hmem, rfl⟩
    simp [Plan.reapsRow, htagged, hgone, hsame]

theorem Interrupted.remainingBlobs {rest : Plan}
    (hleft : Interrupted whole repo left goneRows goneBlobs) (hrest : LeftOf whole left rest) :
    left.blobs.filter (·.digest ∉ rest.blobs) = repo.blobs.filter (·.digest ∉ whole.blobs) := by
  rw [hleft.blobs, filter_filter]
  apply filter_congr
  intro blob hblob
  by_cases hgone : blob.digest ∈ goneBlobs
  · simp [hgone, hleft.blobs_reaped hgone]
  have hholds : left.holds blob.digest := by
    refine ⟨blob, ?_, rfl⟩
    rw [hleft.blobs]
    exact mem_filter.2 ⟨hblob, by simpa using hgone⟩
  have hsame : blob.digest ∈ rest.blobs ↔ blob.digest ∈ whole.blobs := by
    rw [hrest.blobs]
    exact and_iff_left hholds
  simp [hgone, hsame]

theorem Interrupted.congr {other : Plan} (hleft : Interrupted whole repo left goneRows goneBlobs)
    (hrows : ∀ digest, digest ∈ other.rows ↔ digest ∈ whole.rows)
    (hblobs : ∀ digest, digest ∈ other.blobs ↔ digest ∈ whole.blobs) :
    Interrupted other repo left goneRows goneBlobs :=
  { hleft with
    rows_reaped := fun digest hdigest => (hrows digest).2 (hleft.rows_reaped hdigest)
    blobs_reaped := fun digest hdigest => (hblobs digest).2 (hleft.blobs_reaped hdigest) }

theorem leftOf_nothing (hrows : left.rows = []) (hblobs : left.blobs = []) (whole : Plan) :
    LeftOf whole left ⟨[], [], [], [], [], false⟩ where
  rows := by simp [hrows]
  blobs := by simp [Repo.holds, hblobs]

/-- Stopped anywhere in its deletes, a sweep leaves every row its body and blobs.  A
sweep run again plans exactly what is left of an undisturbed one's plan, and where no
brake holds anything back both end with the same rows and blobs. -/
theorem stopped_sweep_keeps_and_resumes {busy : String → Bool}
    (hmark : mark env rows₀ contents₀ cutoff₀ outcome = .ok marked)
    (hlocked : sweepLocked env now marked repo = .ok (checked, final))
    (hleft : left ∈ (apply env now busy final checked).stops checked) :
    (∀ row ∈ left.rows, ∀ target,
      (target = row.digest ∨ checked.names env.codec row.digest target) →
        checked.holds target → left.holds target) ∧
      (ReadsCurrent env checked marked → ∃ whole, Intends env now checked whole ∧
        (left.files.index = none → left.rows = [] ∧ left.blobs = []) ∧
        (left.files.index ≠ none → ∃ rest, Intends env now left rest ∧ LeftOf whole left rest) ∧
        ∀ busy₁ busy₂ done again, SweepsWhole env now busy₁ checked done →
          SweepsWhole env now busy₂ left again →
            again.rows = done.rows ∧ again.blobs = done.blobs) := by
  obtain ⟨handed, hhanded, hbrake⟩ := sweepLocked_eq_ok hlocked
  obtain ⟨second, hpass⟩ := lockedPlan_eq_ok hhanded
  have hfinal := brake_eq_ok hbrake
  have hindex : checked.files.index.isSome = true := by simp [hpass.checked_rows.2]
  refine ⟨fun row hrow target => hpass.stops_keep hmark hfinal hleft hrow, fun hcurrent => ?_⟩
  obtain ⟨walked, hwalk, hkept, hreferenced⟩ := hpass.current hcurrent
  obtain ⟨goneRows, goneBlobs, hinterrupted⟩ :=
    hpass.interrupted hmark hfinal hleft hwalk hkept hreferenced
  have hwithin := (checkRows_eq_ok hpass.check).2
  have hfiles : FilesSound env left := by
    refine apply_filesSound hindex ⟨hwithin, fun hnone => ?_⟩ hleft
    simp [hnone] at hindex
  obtain ⟨whole, hwhole, hwholeRows, hwholeBlobs⟩ :=
    intends_of_walk hpass.checked_rows.2 hwithin hwalk
  have hwholeLeft := hinterrupted.congr hwholeRows hwholeBlobs
  have hnothing : left.files.index = none → left.rows = [] ∧ left.blobs = [] :=
    fun hnone => ⟨by simp [Repo.rows, hnone], hfiles.empty hnone⟩
  have hrest : left.files.index ≠ none →
      ∃ rest, Intends env now left rest ∧ LeftOf whole left rest := by
    intro hsome
    obtain ⟨rows, hrows⟩ := Option.ne_none_iff_exists'.1 hsome
    obtain ⟨again, hagain, hrowsLeft, hblobsLeft⟩ := hinterrupted.replan hwalk
    obtain ⟨rest, hintends, hrestRows, hrestBlobs⟩ :=
      intends_of_walk hrows hfiles.within hagain
    refine ⟨rest, hintends, ?_, ?_⟩
    · intro digest
      rw [hrestRows, hrowsLeft, hwholeRows]
    · intro digest
      rw [hrestBlobs, hblobsLeft, hwholeBlobs]
  refine ⟨whole, hwhole, hnothing, hrest, ?_⟩
  intro busy₁ busy₂ done again hdone hagain
  obtain ⟨intended, hintends, hdoneRows, hdoneBlobs⟩ :=
    hdone.leaves (by simp [hpass.checked_rows.2])
  cases hintends.unique hwhole
  by_cases hnone : left.files.index = none
  · obtain ⟨hrows, hblobs⟩ := hnothing hnone
    have hleftOf := leftOf_nothing hrows hblobs whole
    have hsame : again = left := by
      rcases hagain with ⟨-, hsame⟩ | ⟨_, _, _, _, hlocked, _⟩
      · exact hsame
      · obtain ⟨_, hother⟩ := lockedPlan_eq_ok hlocked
        simp [hother.index] at hnone
    rw [hsame, hdoneRows, hdoneBlobs, ← hwholeLeft.remaining hleftOf,
      ← hwholeLeft.remainingBlobs hleftOf, hrows, hblobs]
    exact ⟨rfl, rfl⟩
  · obtain ⟨rest, hrestIntends, hleftOf⟩ := hrest hnone
    obtain ⟨intended', hintends', hagainRows, hagainBlobs⟩ := hagain.leaves hnone
    cases hintends'.unique hrestIntends
    rw [hagainRows, hagainBlobs, hdoneRows, hdoneBlobs]
    exact ⟨hwholeLeft.remaining hleftOf, hwholeLeft.remainingBlobs hleftOf⟩

end Locked

/-! ## A blob the first brake leaves out -/

def demoCodec : Codec ℕ where
  len := fun _ => 1
  json := fun
    | 0 => some (.obj [(.schemaVersion, .int 2), (.mediaType, .str mediaTypeImageManifest),
        (.config, .obj [(.digest, .str (.sha256 1)), (.size, .int 1)]),
        (.layers, .arr [.obj [(.digest, .str (.sha256 2)), (.size, .int 1)]])])
    | _ => none
  tokens := fun
    | 0 => [mediaTypeImageManifest, .sha256 1, .sha256 2]
    | _ => []
  sha256 := id
  sha512 := id
  sha256_injective := Function.injective_id
  sha512_injective := Function.injective_id
  artifactType := fun artifact config => if artifact = .plain "" then config else artifact

def demoSweepEnv : Env ℕ where
  codec := demoCodec
  records := { name := "app", indexLen := List.length }
  retention := fun _ => 0
  grace := 10
  abandon := 70
  steps := 4

/-- An image nobody tags, all of it past the grace, whose layer was touched after
index.json was last written. -/
def touchedRepo : Repo ℕ where
  files := { id := "", index := some [⟨⟨mediaTypeImageManifest, .sha256 0, 1⟩, none, []⟩]
             record := some (.count ⟨"", "app", 1⟩) }
  indexModTime := 5
  blobs := [⟨.sha256 0, 0, 0⟩, ⟨.sha256 1, 1, 0⟩, ⟨.sha256 2, 2, 7⟩]
  temps := []
  sessions := []
  unknown := 0
  blobs_nodup := by decide
  blobs_parse := by decide

def touchedMarked : Marked where
  plan := ⟨[.sha256 0], [.sha256 0, .sha256 1, .sha256 2], [], [], [], true⟩
  rows := touchedRepo.rows
  contents := touchedRepo.contents demoCodec
  reads := [(.sha256 0, manifestRead demoCodec (.sha256 0) (.body 0))]

/-- The plan without the layer, which is newer than index.json. -/
def touchedPlan : Plan := ⟨[.sha256 0], [.sha256 0, .sha256 1], [], [], [], false⟩

theorem touched_mark : mark demoSweepEnv touchedRepo.rows
    (touchedRepo.contents demoCodec) 90 touchedRepo.read = .ok touchedMarked := by
  rfl

theorem touched_locked :
    sweepLocked demoSweepEnv 100 touchedMarked touchedRepo = .ok (touchedRepo, touchedPlan) := by
  rfl

/-- The directory after the row write: index.json is now newer than the layer. -/
def touchedLeft : Repo ℕ :=
  { touchedRepo with
    files := { id := "", index := some [], record := some (.count ⟨"", "app", 0⟩) }
    indexModTime := 100 }

def touchedAgain : Plan := ⟨[], [.sha256 0, .sha256 1, .sha256 2], [], [], [], false⟩

theorem touched_left : touchedLeft ∈
    (apply demoSweepEnv 100 (fun _ => false) touchedPlan touchedRepo).stops touchedRepo :=
  ⟨5, rfl⟩

theorem touched_done :
    (apply demoSweepEnv 100 (fun _ => false) touchedPlan touchedRepo).run touchedRepo =
      some (touchedLeft.withoutBlobs (· ∈ [.sha256 0, .sha256 1])) := by
  rfl

theorem touched_again : SweepsWhole demoSweepEnv 100 (fun _ => false) touchedLeft
    (touchedLeft.withoutBlobs fun _ => true) :=
  .inr ⟨⟨touchedAgain, [], touchedLeft.contents demoCodec, []⟩, touchedLeft, touchedAgain,
    rfl, rfl, rfl, rfl⟩

/-- The sweep that is stopped after its row write and run again reaps the layer
an uninterrupted one leaves. -/
theorem resumed_sweep_reaps_more :
    ¬ ∀ (marked : Marked) (checked left done again : Repo ℕ) (final : Plan),
      mark demoSweepEnv touchedRepo.rows (touchedRepo.contents demoCodec) 90
        touchedRepo.read = .ok marked →
      sweepLocked demoSweepEnv 100 marked touchedRepo = .ok (checked, final) →
      left ∈ (apply demoSweepEnv 100 (fun _ => false) final checked).stops checked →
      (apply demoSweepEnv 100 (fun _ => false) final checked).run checked = some done →
      SweepsWhole demoSweepEnv 100 (fun _ => false) left again →
        again.rows = done.rows ∧ again.blobs = done.blobs := by
  intro hclaim
  have hsame := hclaim touchedMarked touchedRepo touchedLeft _ _ touchedPlan touched_mark
    touched_locked touched_left touched_done touched_again
  have hblobs := congrArg List.length hsame.2
  revert hblobs
  decide

/-- The stopped sweep has kept every row whole, and the plan that is made again is
the undisturbed sweep's plan without the row that is gone. -/
theorem touched_sweep_keeps_and_resumes :
    (∀ row ∈ touchedLeft.rows, ∀ target,
      (target = row.digest ∨ touchedRepo.names demoCodec row.digest target) →
        touchedRepo.holds target → touchedLeft.holds target) ∧
      ∃ whole rest, Intends demoSweepEnv 100 touchedRepo whole ∧
        Intends demoSweepEnv 100 touchedLeft rest ∧ LeftOf whole touchedLeft rest := by
  obtain ⟨hkeeps, hresumes⟩ := stopped_sweep_keeps_and_resumes touched_mark touched_locked
    touched_left
  have hcurrent : ReadsCurrent demoSweepEnv touchedRepo touchedMarked := by
    intro digest entry hentry
    exact mark_entry touched_mark hentry
  obtain ⟨whole, hwhole, -, hrest, -⟩ := hresumes hcurrent
  obtain ⟨rest, hintends, hleftOf⟩ := hrest (by decide)
  exact ⟨hkeeps, whole, rest, hwhole, hintends, hleftOf⟩

end K3sm.Registry.Gc
