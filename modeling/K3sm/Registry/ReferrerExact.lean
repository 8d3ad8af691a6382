import K3sm.Registry.ReferrerView

/-!
# A cached answer is that of a full scan

An entry of a view is what reading its row gave at some earlier instant.  A body that was in place
then is in place for every later row that names it, and a file that could not be read is not in
place as long as its identity and the index version are those of that time.
-/

namespace K3sm.Registry.ReferrerView

open K3sm.Core K3sm.Registry.Listing K3sm.Registry.Gc List

variable {Bytes : Type}

/-- The body that is in place at an instant: the file has the content of its digest. -/
def bodyAt (world : World Bytes) (time : ℕ) (digest : Digest) : Option Bytes :=
  match (world.history time).file digest with
  | .regular _ body => if world.codec.hashesTo body digest then some body else none
  | _ => none

/-- The repository's blobs at an instant, while nothing fails in passing. -/
def settledStore (world : World Bytes) (time : ℕ) : ReferrerStore Bytes :=
  ⟨world.codec, world.encodedSize, (world.history time).settled⟩

/-- An index version stands for one content of index.json, and does not come back after
another. -/
def VersionsIdentify (world : World Bytes) : Prop :=
  ∀ {first between last : ℕ} {before after : Repository Bytes}, first ≤ between → between ≤ last →
    (world.history first).repository = some before → (world.history last).repository = some after →
    before.version = after.version → (world.history between).rows = before.rows

/-- A body that was in place is in place whenever a row names it: its row is written after it
and removed before it. -/
def BodiesStay (world : World Bytes) : Prop :=
  ∀ {first last : ℕ} {digest : Digest} {body : Bytes}, first ≤ last →
    bodyAt world first digest = some body →
    (∃ row ∈ (world.history last).rows, row.digest = digest) →
    bodyAt world last digest = some body

/-- A blob whose stat gives the same identity has the same content. -/
def IdentsIdentify (world : World Bytes) : Prop :=
  ∀ {first last : ℕ} {digest : Digest} {body : Bytes},
    (world.history first).blobIdentOf digest = (world.history last).blobIdentOf digest →
    bodyAt world first digest = some body →
    bodyAt world last digest = some body

/-- What the cache relies on of index.json and the blob files. -/
structure Assumed (world : World Bytes) : Prop where
  versions : VersionsIdentify world
  kept : BodiesStay world
  identified : IdentsIdentify world

section Judge

variable (world : World Bytes)

def skippedEntry (row : Row) : RefEntry :=
  { subject := none, desc := rowDescriptor row, size := 64, unreadable := true }

def OutOfBounds (row : Row) : Prop := row.size < 0 ∨ (maxManifestSize : ℤ) < row.size

instance (row : Row) : Decidable (OutOfBounds row) :=
  inferInstanceAs (Decidable (row.size < 0 ∨ (maxManifestSize : ℤ) < row.size))

def judge (row : Row) (body : Option Bytes) : Option RefEntry :=
  if OutOfBounds row then some (skippedEntry row)
  else if (parseDigest row.digest).isNone then none
  else match body with
    | none => some (skippedEntry row)
    | some body =>
      if (world.codec.len body : ℤ) ≠ row.size then some (skippedEntry row)
      else some (entryOf ⟨world.codec, world.encodedSize, fun _ => .missing⟩ row body)

def readBody (codec : Codec Bytes) (row : Row) : ReadOutcome Bytes → Except ManifestReadError Bytes
  | .missing => .error .blobUnknown
  | .failed cause => .error (.failed cause)
  | .body body =>
    if (codec.len body : ℤ) ≠ row.size ∨ codec.hashesTo body row.digest = false then
      .error .corrupt
    else .ok body

theorem readManifestBlob_eq (store : ReferrerStore Bytes) (row : Row) :
    readManifestBlob store row =
      if OutOfBounds row then .error .manifestSize
      else if (parseDigest row.digest).isNone then .error .invalidDigest
      else readBody store.codec row (store.openBlob row.digest) := by
  unfold readManifestBlob readBody OutOfBounds
  rfl

theorem readEntry_settled (time : ℕ) (row : Row) :
    readEntry (settledStore world time) row = judge world row (bodyAt world time row.digest) := by
  rw [readEntry, readManifestBlob_eq, judge.eq_def]
  by_cases hsize : OutOfBounds row
  · rw [if_pos hsize, if_pos hsize]
    rfl
  rw [if_neg hsize, if_neg hsize]
  by_cases hparse : (parseDigest row.digest).isNone = true
  · rw [if_pos hparse, if_pos hparse]
    rfl
  rw [if_neg hparse, if_neg hparse]
  have hopen : (settledStore world time).openBlob row.digest =
      (world.history time).settled row.digest := rfl
  have hcodec : (settledStore world time).codec = world.codec := rfl
  rw [hopen, hcodec, Instant.settled, bodyAt]
  cases (world.history time).file row.digest with
  | absent | symlink | notRegular => rfl
  | regular ident body =>
    dsimp only [readBody]
    by_cases hhash : world.codec.hashesTo body row.digest = true
    · rw [if_pos hhash]
      by_cases hlen : (world.codec.len body : ℤ) = row.size
      · rw [if_neg (by simp [hlen, hhash])]
        simp only [ne_eq, hlen, not_true_eq_false, if_false]
        rfl
      · rw [if_pos (.inl hlen)]
        simp only [ne_eq, hlen, not_false_eq_true, if_true]
        rfl
    · rw [if_neg hhash, if_pos (.inr (eq_false_of_ne_true hhash))]
      rfl

variable {world}

theorem judge_congr {row other : Row} (hsame : row.toDescriptor = other.toDescriptor)
    (body : Option Bytes) : judge world row body = judge world other body := by
  obtain ⟨descriptor, refName, annotations⟩ := row
  obtain ⟨otherDescriptor, otherName, otherAnnotations⟩ := other
  obtain rfl : descriptor = otherDescriptor := hsame
  rfl

theorem judge_outOfBounds {row : Row} (hsize : OutOfBounds row) (body other : Option Bytes) :
    judge world row body = judge world row other := by
  rw [judge.eq_def, judge.eq_def, if_pos hsize, if_pos hsize]

theorem body_of_judge_readable {row : Row} {body : Option Bytes} {entry : RefEntry}
    (hjudge : judge world row body = some entry) (hreadable : entry.unreadable = false) :
    ∃ bytes, body = some bytes := by
  unfold judge at hjudge
  split_ifs at hjudge with hsize hparse
  · rw [← Option.some.inj hjudge] at hreadable
    cases hreadable
  · cases body with
    | none =>
      rw [← Option.some.inj hjudge] at hreadable
      cases hreadable
    | some bytes => exact ⟨bytes, rfl⟩

theorem entryOf_readable (store : ReferrerStore Bytes) (row : Row) (body : Bytes) :
    (entryOf store row body).unreadable = false := by
  unfold entryOf
  split <;> rfl

theorem judge_none_of_unreadable {row : Row} {body : Option Bytes} {entry : RefEntry}
    (hjudge : judge world row body = some entry) (hunreadable : entry.unreadable = true) :
    judge world row none = some entry := by
  unfold judge at hjudge ⊢
  split_ifs at hjudge ⊢ with hsize hparse
  · exact hjudge
  cases body with
  | none => exact hjudge
  | some bytes =>
    dsimp only at hjudge
    split_ifs at hjudge with hlen
    · exact hjudge
    · rw [← Option.some.inj hjudge, entryOf_readable] at hunreadable
      cases hunreadable

end Judge

def Fits (row : Row) (entry : RefEntry) : Prop :=
  entry.desc.mediaType = row.mediaType ∧ entry.desc.digest = row.digest ∧ entry.desc.size = row.size

theorem Fits.descriptor {row other : Row} {entry : RefEntry} (hrow : Fits row entry)
    (hother : Fits other entry) : row.toDescriptor = other.toDescriptor := by
  obtain ⟨hmedia, hdigest, hsize⟩ := hrow
  obtain ⟨hotherMedia, hotherDigest, hotherSize⟩ := hother
  calc row.toDescriptor
      = ⟨row.mediaType, row.digest, row.size⟩ := rfl
    _ = ⟨other.mediaType, other.digest, other.size⟩ := by
        rw [← hmedia, ← hdigest, ← hsize, hotherMedia, hotherDigest, hotherSize]
    _ = other.toDescriptor := rfl

theorem fits_entryOf (store : ReferrerStore Bytes) (row : Row) (body : Bytes) :
    Fits row (entryOf store row body) := by
  unfold entryOf
  split <;> exact ⟨rfl, rfl, rfl⟩

section Trace

variable (world : World Bytes)

def Reads (instant : ℕ) (row : Row) (entry : RefEntry) : Prop :=
  judge world row (bodyAt world instant row.digest) = some entry

/-- Why an entry may be kept: its manifest is readable, its size is out of bounds whatever the
file is, or its file was looked at before it was found unreadable. -/
def Founded (stat : ℕ) (row : Row) (entry : CachedEntry) : Prop :=
  entry.unreadable = false ∨ (OutOfBounds row ∧ entry.fileState = false) ∨
    (entry.fileState = true ∧ entry.seen = (world.history stat).blobIdentOf row.digest)

/-- An entry is that of a row, read at an instant, and an unreadable file was found so in the
index version of the view. -/
def Traced (version : IndexVersion) (since : ℕ) (entry : CachedEntry) : Prop :=
  ∃ row stat read, Fits row entry.toRefEntry ∧ stat ≤ read ∧ read ≤ since ∧
    Reads world read row entry.toRefEntry ∧ Founded world stat row entry ∧
    (entry.negative = true → ∃ indexed repository, indexed ≤ stat ∧
      (world.history indexed).repository = some repository ∧ repository.version = version ∧
      row ∈ repository.rows)

variable {world}

theorem Instant.rows_of_repository {instant : Instant Bytes} {repository : Repository Bytes}
    (hrepository : instant.repository = some repository) : instant.rows = repository.rows := by
  rw [Instant.rows, hrepository]

/-- An entry that is used is what reading its row gives at an instant of the request: that of
the index, or that at which the file's identity was compared. -/
theorem Traced.current (hassumed : Assumed world) {version : IndexVersion} {since : ℕ}
    {entry : CachedEntry} (htraced : Traced world version since entry)
    {row : Row} (hfits : Fits row entry.toRefEntry) {indexed : ℕ} (compared : ℕ)
    {repository : Repository Bytes} (hsince : since ≤ indexed)
    (hrepository : (world.history indexed).repository = some repository)
    (hrow : row ∈ repository.rows)
    (hgood : entry.negative = true → version = repository.version ∧
      (world.history compared).blobIdentOf row.digest = entry.seen) :
    Reads world indexed row entry.toRefEntry ∨ Reads world compared row entry.toRefEntry := by
  obtain ⟨first, stat, read, hfirst, hstat, hread, hreads, hfounded, hversion⟩ := htraced
  have hsame : row.toDescriptor = first.toDescriptor := hfits.descriptor hfirst
  have hdigest : row.digest = first.digest := congrArg Descriptor.digest hsame
  rw [Reads, ← judge_congr hsame, ← hdigest] at hreads
  have hnamed : ∃ other ∈ (world.history indexed).rows, other.digest = row.digest := by
    rw [Instant.rows_of_repository hrepository]
    exact ⟨row, hrow, rfl⟩
  cases hunreadable : entry.unreadable with
  | false =>
    obtain ⟨body, hbody⟩ := body_of_judge_readable hreads hunreadable
    have hkept := hassumed.kept (hread.trans hsince) hbody hnamed
    left
    rw [Reads, hkept, ← hbody]
    exact hreads
  | true =>
    obtain hreadable | ⟨hbounds, -⟩ | ⟨hstate, hseen⟩ := hfounded
    · rw [hunreadable] at hreadable
      cases hreadable
    · left
      have hbounds : OutOfBounds row := by
        rw [OutOfBounds, show row.size = first.size from congrArg Descriptor.size hsame]
        exact hbounds
      rw [Reads, judge_outOfBounds hbounds _ (bodyAt world read row.digest)]
      exact hreads
    right
    have hnegative : entry.negative = true := by rw [CachedEntry.negative, hunreadable, hstate]; rfl
    obtain ⟨hsameVersion, hident⟩ := hgood hnegative
    obtain ⟨began, before, hbegan, hbefore, hbeforeVersion, hfirstRow⟩ := hversion hnegative
    rw [Reads]
    cases hbody : bodyAt world compared row.digest with
    | none => exact judge_none_of_unreadable hreads hunreadable
    | some body =>
      -- The file was in place when it was looked at, and the row was there until the read.
      rw [hseen, ← hdigest] at hident
      have hlooked := hassumed.identified hident hbody
      have hrows : (world.history read).rows = before.rows :=
        hassumed.versions (hbegan.trans hstat) (hread.trans hsince) hbefore hrepository
          (hbeforeVersion.trans hsameVersion)
      have hstill := hassumed.kept hstat hlooked ⟨first, hrows ▸ hfirstRow, hdigest.symm⟩
      rw [← hstill]
      exact hreads

theorem Traced.mono {version : IndexVersion} {since later : ℕ} {entry : CachedEntry}
    (htraced : Traced world version since entry) (hlater : since ≤ later) :
    Traced world version later entry := by
  obtain ⟨row, stat, read, hfits, hstat, hread, hrest⟩ := htraced
  exact ⟨row, stat, read, hfits, hstat, hread.trans hlater, hrest⟩

end Trace

theorem readManifestBlob_settled {world : World Bytes} {time : ℕ} {row : Row}
    {result : Except ManifestReadError Bytes}
    (hresult : readManifestBlob (storeAt world time) row = result)
    (hpermanent : ∀ cause, result = .error cause → permanentReadError cause = true) :
    readManifestBlob (settledStore world time) row = result := by
  rw [readManifestBlob_eq] at hresult ⊢
  by_cases hsize : OutOfBounds row
  · rw [if_pos hsize] at hresult ⊢
    exact hresult
  rw [if_neg hsize] at hresult ⊢
  by_cases hparse : (parseDigest row.digest).isNone = true
  · rw [if_pos hparse] at hresult ⊢
    exact hresult
  rw [if_neg hparse] at hresult ⊢
  have hopen : (storeAt world time).openBlob row.digest =
      if (world.history time).readFails row.digest then .failed .io
      else (world.history time).settled row.digest := rfl
  rw [hopen] at hresult
  split_ifs at hresult with hfails
  · exact absurd (hpermanent (.failed .io) hresult.symm) (by decide)
  · exact hresult

theorem outOfBounds_of_manifestSize {store : ReferrerStore Bytes} {row : Row}
    (hread : readManifestBlob store row = .error .manifestSize) : OutOfBounds row := by
  rw [readManifestBlob_eq] at hread
  by_contra hsize
  rw [if_neg hsize] at hread
  split_ifs at hread with hparse
  · cases hread
  unfold readBody at hread
  split at hread
  · cases hread
  · cases hread
  · split_ifs at hread
    cases hread

section Walk

variable (world : World Bytes) (request : Request) (view : View) (reread : Bool)

def ReadsAs (row : Row) (tick : ℕ) (entry : CachedEntry) : Prop :=
  Fits row entry.toRefEntry ∧
    Reads world (request.instant (tick + 2)) row entry.toRefEntry ∧
    Founded world (request.instant (tick + 1)) row entry

def usableAt (row : Row) (tick : ℕ) : Option CachedEntry :=
  view.usable reread ((world.history (request.instant tick)).blobIdentOf row.digest) row

def Stopped (tick : ℕ) (build : Build) : Prop :=
  world.limits.scanRows ≤ build.readRows ∨ world.limits.scanBytes ≤ build.readBytes ∨
    request.cancelled tick = true

def Fresh (row : Row) (build : Build) : Prop :=
  manifestTypes row.mediaType = true ∧ ∀ entry ∈ build.entries, entry.desc.digest ≠ row.digest

inductive Visited (row : Row) (tick : ℕ) (build : Build) : Build → Prop
  | skip : ¬ Fresh row build → Visited row tick build build
  | keep (entry : CachedEntry) : Fresh row build →
      usableAt world request view reread row tick = some entry →
      Visited row tick build { build with entries := build.entries ++ [entry] }
  | stop : Fresh row build → usableAt world request view reread row tick = none →
      Stopped world request tick build → Visited row tick build { build with whole := false }
  | retry (cause : ManifestReadError) : Fresh row build →
      usableAt world request view reread row tick = none →
      readManifestBlob (storeAt world (request.instant (tick + 2))) row =
        .error cause → permanentReadError cause = false →
      Visited row tick build
        { build with
          readRows := build.readRows + 1, reads := build.reads ++ [row.digest], whole := false }
  | read (entry : CachedEntry) (readBytes : ℕ) : Fresh row build →
      usableAt world request view reread row tick = none → ¬ Stopped world request tick build →
      ReadsAs world request row tick entry →
      Visited row tick build
        { build with
          readRows := build.readRows + 1, reads := build.reads ++ [row.digest], readBytes
          entries := build.entries ++ [entry] }

theorem visited (row : Row) (tick : ℕ) (build : Build) :
    Visited world request view reread row tick build
      (visitRow world request view reread row tick build) := by
  unfold visitRow
  split
  · rename_i htype
    exact .skip fun hfresh => by
      rw [hfresh.1] at htype
      cases htype
  rename_i htype
  split
  · rename_i hknown
    obtain ⟨entry, hentry, hdigest⟩ := any_eq_true.1 hknown
    exact .skip fun hfresh => hfresh.2 entry hentry (beq_iff_eq.1 hdigest)
  rename_i hknown
  have hfresh : Fresh row build := by
    refine ⟨Bool.not_eq_false _ ▸ htype, ?_⟩
    intro entry hentry hdigest
    exact hknown (any_eq_true.2 ⟨entry, hentry, beq_iff_eq.2 hdigest⟩)
  split
  · rename_i entry husable
    exact .keep entry hfresh husable
  rename_i husable
  split
  · rename_i hstopped
    exact .stop hfresh husable hstopped
  rename_i hstopped
  unfold readRow
  dsimp only
  split
  · rename_i body hread
    refine .read { entryOf _ row body with fileState := false, seen := .zero } _ hfresh husable
      hstopped ⟨fits_entryOf _ row body, ?_, .inl (entryOf_readable _ row body)⟩
    have hsettled := readManifestBlob_settled hread nofun
    rw [Reads, ← readEntry_settled, readEntry, hsettled]
    rfl
  rename_i cause hread
  split
  · rename_i hpassing
    exact .retry cause hfresh husable hread hpassing
  rename_i hpermanent
  have hpermanent : permanentReadError cause = true := Bool.not_eq_false _ ▸ hpermanent
  refine .read (unreadableEntry row cause _) build.readBytes hfresh husable hstopped
    ⟨⟨rfl, rfl, rfl⟩, ?_, ?_⟩
  · have hsettled := readManifestBlob_settled hread fun other hother => by
      rw [← Except.error.inj hother]
      exact hpermanent
    rw [Reads, ← readEntry_settled, readEntry, hsettled]
    simp only [hpermanent, if_true]
    rfl
  · right
    by_cases hcause : cause = .manifestSize
    · subst hcause
      exact .inl ⟨outOfBounds_of_manifestSize hread, rfl⟩
    · exact .inr ⟨decide_eq_true hcause, rfl⟩

def Obtained (row : Row) (tick : ℕ) (entry : CachedEntry) : Prop :=
  usableAt world request view reread row tick = some entry ∨ ReadsAs world request row tick entry

variable {world request view reread}

theorem usable_spec {ident : BlobIdent} {row : Row} {entry : CachedEntry}
    (husable : view.usable reread ident row = some entry) :
    entry ∈ view.entries ∧ Fits row entry.toRefEntry ∧
      (entry.negative = true → reread = false ∧ ident = entry.seen) := by
  unfold View.usable at husable
  split at husable
  · cases husable
  rename_i found hfound
  split_ifs at husable with hgood
  obtain rfl := Option.some.inj husable
  obtain ⟨hmedia, hsize, hgood⟩ := hgood
  have hdigest : found.desc.digest = row.digest := by
    simpa using List.find?_some hfound
  refine ⟨mem_of_find?_eq_some hfound, ⟨hmedia, hdigest, hsize⟩, ?_⟩
  intro hnegative
  by_contra hchanged
  apply hgood
  refine ⟨hnegative, ?_⟩
  rw [not_and_or, Bool.not_eq_false] at hchanged
  exact hchanged

theorem Obtained.fits {row : Row} {tick : ℕ} {entry : CachedEntry}
    (hobtained : Obtained world request view reread row tick entry) :
    Fits row entry.toRefEntry := by
  obtain husable | hreads := hobtained
  · exact (usable_spec husable).2.1
  · exact hreads.1

section Visited

variable {row : Row} {tick : ℕ} {build after : Build}
  (hvisited : Visited world request view reread row tick build after)

include hvisited

theorem Visited.entries : after.entries = build.entries ∨ ∃ entry, Fresh row build ∧
    after.entries = build.entries ++ [entry] ∧
    Obtained world request view reread row tick entry := by
  cases hvisited with
  | skip hstale => exact .inl rfl
  | keep entry hfresh husable => exact .inr ⟨entry, hfresh, rfl, .inl husable⟩
  | stop hfresh husable hstopped | retry cause hfresh husable hread hpassing => exact .inl rfl
  | read entry bytes hfresh husable hstopped hreads =>
    exact .inr ⟨entry, hfresh, rfl, .inr hreads⟩

theorem Visited.whole (hwhole : after.whole = true) : build.whole = true ∧
    (Fresh row build → ∃ entry ∈ after.entries,
      Obtained world request view reread row tick entry) := by
  cases hvisited with
  | skip hstale => exact ⟨hwhole, fun hfresh => absurd hfresh hstale⟩
  | keep entry hfresh husable => exact ⟨hwhole, fun _ => ⟨entry, by simp, .inl husable⟩⟩
  | stop hfresh husable hstopped | retry cause hfresh husable hread hpassing => cases hwhole
  | read entry bytes hfresh husable hstopped hreads =>
    exact ⟨hwhole, fun _ => ⟨entry, by simp, .inr hreads⟩⟩

theorem Visited.subset {entry : CachedEntry} (hentry : entry ∈ build.entries) :
    entry ∈ after.entries := by
  obtain hsame | ⟨added, -, hadded, -⟩ := hvisited.entries
  · rw [hsame]
    exact hentry
  · rw [hadded]
    exact mem_append_left _ hentry

theorem Visited.nodup (hnodup : (build.entries.map fun entry => entry.desc.digest).Nodup) :
    (after.entries.map fun entry => entry.desc.digest).Nodup := by
  obtain hsame | ⟨added, hfresh, hadded, hobtained⟩ := hvisited.entries
  · rw [hsame]
    exact hnodup
  · rw [hadded, map_append, map_singleton, nodup_append]
    refine ⟨hnodup, nodup_singleton _, ?_⟩
    intro digest hdigest other hother hsame
    obtain ⟨entry, hentry, rfl⟩ := mem_map.1 hdigest
    rw [mem_singleton.1 hother, hobtained.fits.2.1] at hsame
    exact hfresh.2 entry hentry hsame

theorem Visited.still_new {digest : Digest}
    (hnew : ∀ entry ∈ build.entries, entry.desc.digest ≠ digest)
    (hother : manifestTypes row.mediaType = true → row.digest ≠ digest) :
    ∀ entry ∈ after.entries, entry.desc.digest ≠ digest := by
  obtain hsame | ⟨added, hfresh, hadded, hobtained⟩ := hvisited.entries
  · rw [hsame]
    exact hnew
  · rw [hadded]
    intro entry hentry
    obtain hentry | hentry := mem_append.1 hentry
    · exact hnew entry hentry
    · rw [mem_singleton.1 hentry, hobtained.fits.2.1]
      exact hother hfresh.1

end Visited

theorem subset_walkRows {entry : CachedEntry} (rows : List Row) (tick : ℕ) {build : Build}
    (hentry : entry ∈ build.entries) :
    entry ∈ (walkRows world request view reread rows tick build).entries := by
  induction rows generalizing tick build with
  | nil => exact hentry
  | cons row rows ih => exact ih (tick + 3) ((visited _ _ _ _ row tick build).subset hentry)

theorem nodup_walkRows (rows : List Row) (tick : ℕ) {build : Build}
    (hnodup : (build.entries.map fun entry => entry.desc.digest).Nodup) :
    ((walkRows world request view reread rows tick build).entries.map
      fun entry => entry.desc.digest).Nodup := by
  induction rows generalizing tick build with
  | nil => exact hnodup
  | cons row rows ih => exact ih (tick + 3) ((visited _ _ _ _ row tick build).nodup hnodup)

theorem mem_walkRows {entry : CachedEntry} (rows : List Row) (tick : ℕ) {build : Build}
    (hentry : entry ∈ (walkRows world request view reread rows tick build).entries) :
    entry ∈ build.entries ∨ ∃ row ∈ rows, manifestTypes row.mediaType = true ∧
      ∃ later, tick ≤ later ∧
      Obtained world request view reread row later entry := by
  induction rows generalizing tick build with
  | nil => exact .inl hentry
  | cons row rows ih =>
    obtain hbefore | ⟨other, hother, htype, later, hlater, hobtained⟩ := ih (tick + 3) hentry
    · obtain hsame | ⟨added, hfresh, hadded, hobtained⟩ :=
        (visited world request view reread row tick build).entries
      · rw [hsame] at hbefore
        exact .inl hbefore
      · rw [hadded, mem_append, mem_singleton] at hbefore
        obtain hbefore | rfl := hbefore
        · exact .inl hbefore
        · exact .inr ⟨row, mem_cons_self, hfresh.1, tick, le_refl _, hobtained⟩
    · exact .inr ⟨other, mem_cons_of_mem _ hother, htype, later, by omega, hobtained⟩

theorem whole_walkRows (rows : List Row) (tick : ℕ) {build : Build}
    (hwhole : (walkRows world request view reread rows tick build).whole = true) :
    build.whole = true ∧ ∀ row, Represents rows row →
      (∀ entry ∈ build.entries, entry.desc.digest ≠ row.digest) →
      ∃ entry ∈ (walkRows world request view reread rows tick
          build).entries, ∃ later, tick ≤ later ∧
        Obtained world request view reread row later entry := by
  induction rows generalizing tick build with
  | nil => exact ⟨hwhole, fun row hrow => by simp [Represents] at hrow⟩
  | cons row rows ih =>
    have hvisited := visited world request view reread row tick build
    obtain ⟨hafter, hlater⟩ := ih (tick + 3) hwhole
    obtain ⟨hbefore, hobtains⟩ := hvisited.whole hafter
    refine ⟨hbefore, fun other hother hnew => ?_⟩
    have hrest : Represents rows other →
        (manifestTypes row.mediaType = true → row.digest ≠ other.digest) →
        ∃ entry ∈ (walkRows world request view reread (row :: rows)
            tick build).entries, ∃ later, tick ≤ later ∧
          Obtained world request view reread other later entry := by
      intro hother hne
      obtain ⟨entry, hentry, later, htick, hobtained⟩ :=
        hlater other hother (hvisited.still_new hnew hne)
      exact ⟨entry, hentry, later, by omega, hobtained⟩
    by_cases htype : manifestTypes row.mediaType = true
    · obtain rfl | ⟨hne, hother⟩ := (represents_cons htype).1 hother
      · obtain ⟨entry, hentry, hobtained⟩ := hobtains ⟨htype, hnew⟩
        exact ⟨entry, subset_walkRows rows (tick + 3) hentry, tick, le_refl _, hobtained⟩
      · exact hrest hother fun _ => hne
    · exact hrest ((represents_cons_of_not (eq_false_of_ne_true htype)).1 hother)
        fun htrue => absurd htrue htype

end Walk

section Request

variable {world : World Bytes} {request : Request} {view : View}

theorem Instant.repository_of_index_ok {instant : Instant Bytes} {repository : Repository Bytes}
    (hindex : instant.index = .ok repository) : instant.repository = some repository := by
  unfold Instant.index at hindex
  split_ifs at hindex
  split at hindex
  · cases hindex
  · rename_i found hfound
    rw [hfound, Except.ok.inj hindex]

theorem Instant.repository_of_unknown {instant : Instant Bytes}
    (hindex : instant.index = .error .repositoryUnknown) : instant.repository = none := by
  unfold Instant.index at hindex
  split_ifs at hindex
  · cases hindex
  split at hindex
  · assumption
  · cases hindex

def builtFrom (world : World Bytes) (request : Request) (view : View)
    (repository : Repository Bytes) :
    Build :=
  walkRows world request view
    (decide (view.version ≠ repository.version)) repository.rows rowTick Build.start

def Build.left (version : IndexVersion) (build : Build) : View :=
  ⟨version, build.whole, build.entries, if build.whole then listOf build.entries else fun _ => []⟩

theorem buildReferrers_ok {outcome : Outcome}
    (hbuild : buildReferrers world request view = .ok outcome) :
    ∃ repository, (world.history (request.instant 1)).repository = some repository ∧
      outcome.view = (builtFrom world request view repository).left repository.version ∧
      outcome.reads = (builtFrom world request view repository).reads ∧
      ∀ list, outcome.answer = .listed list →
        (builtFrom world request view repository).whole = true ∧
        list = listOf (builtFrom world request view repository).entries request.digest := by
  unfold buildReferrers Instant.indexAt at hbuild
  cases hindex : (world.history (request.instant 1)).index with
  | error cause =>
    rw [hindex] at hbuild
    cases hbuild
  | ok repository =>
    rw [hindex] at hbuild
    refine ⟨repository, Instant.repository_of_index_ok hindex, ?_⟩
    change (if (builtFrom world request view repository).whole then _
      else _) = _ at hbuild
    cases hwhole : (builtFrom world request view repository).whole with
    | true =>
      rw [if_pos hwhole] at hbuild
      obtain rfl := Except.ok.inj hbuild
      refine ⟨?_, rfl, ?_⟩
      · rw [Build.left, hwhole]
        rfl
      · intro list hlist
        exact ⟨rfl, (Answer.listed.inj hlist).symm⟩
    | false =>
      rw [if_neg (by rw [hwhole]; decide)] at hbuild
      obtain rfl := Except.ok.inj hbuild
      refine ⟨?_, rfl, ?_⟩
      · rw [Build.left, hwhole]
        rfl
      · intro list hlist
        dsimp only at hlist
        split_ifs at hlist

theorem referrersOf_cases (world : World Bytes) (request : Request) (view : View) :
    ((referrersOf world request view).view = view ∧
      ∀ list, (referrersOf world request view).answer = .listed list →
        (∃ tick, (world.history (request.instant tick)).repository = none ∧ list = []) ∨
        ∃ repository, (world.history (request.instant 0)).repository = some repository ∧
          view.ready = true ∧ view.version = repository.version ∧
          repaired world request view = false ∧ list = view.bySubject request.digest) ∨
    buildReferrers world request view = .ok (referrersOf world request view) := by
  have herror : ∀ (cause : IndexError) (tick : ℕ),
      (world.history (request.instant tick)).index = .error cause →
      (answerError view cause).view = view ∧
        ∀ list, (answerError view cause).answer = .listed list →
        (∃ tick, (world.history (request.instant tick)).repository = none ∧ list = []) ∨
        ∃ repository, (world.history (request.instant 0)).repository = some repository ∧
          view.ready = true ∧ view.version = repository.version ∧
          repaired world request view = false ∧ list = view.bySubject request.digest := by
    intro cause tick hindex
    cases cause with
    | repositoryUnknown =>
      refine ⟨rfl, fun list hlist => .inl ⟨tick, ?_, (Answer.listed.inj hlist).symm⟩⟩
      exact Instant.repository_of_unknown hindex
    | failed => exact ⟨rfl, fun list hlist => nomatch hlist⟩
  unfold referrersOf
  split
  · exact .inl ⟨rfl, nofun⟩
  unfold Instant.indexVersionOf
  cases hindex : (world.history (request.instant 0)).index with
  | error cause => exact .inl (herror cause 0 hindex)
  | ok repository =>
    dsimp only [Except.map]
    split
    · rename_i hcached
      refine .inl ⟨rfl, fun list hlist => .inr ⟨repository, ?_, hcached.1, hcached.2.1,
        hcached.2.2, (Answer.listed.inj hlist).symm⟩⟩
      exact Instant.repository_of_index_ok hindex
    split
    · exact .inl ⟨rfl, nofun⟩
    cases hbuild : buildReferrers world request view with
    | ok outcome => exact .inr rfl
    | error cause =>
      left
      refine herror cause 1 ?_
      unfold buildReferrers Instant.indexAt at hbuild
      cases hother : (world.history (request.instant 1)).index with
      | error other =>
        rw [hother] at hbuild
        exact congrArg Except.error (Except.error.inj hbuild)
      | ok other =>
        rw [hother] at hbuild
        change (if (builtFrom world request view other).whole then _
          else _) = _ at hbuild
        split_ifs at hbuild <;> cases hbuild

end Request

structure Complete (rows : List Row) (entries : List CachedEntry) : Prop where
  nodup : (entries.map fun entry => entry.desc.digest).Nodup
  covers : ∀ row, Represents rows row → ∃ entry ∈ entries, Fits row entry.toRefEntry
  named : ∀ entry ∈ entries, ∃ row ∈ rows, manifestTypes row.mediaType = true ∧
    row.digest = entry.desc.digest

variable {rows : List Row}

theorem represents_of_mem {row : Row} (hrow : row ∈ rows)
    (htype : manifestTypes row.mediaType = true) :
    ∃ other, Represents rows other ∧ other.digest = row.digest := by
  have hfound : ((rows.filter fun row => manifestTypes row.mediaType).find?
      fun other => other.digest == row.digest).isSome = true := by
    rw [List.find?_isSome]
    exact ⟨row, mem_filter.2 ⟨hrow, htype⟩, by simp⟩
  obtain ⟨other, hother⟩ := Option.isSome_iff_exists.1 hfound
  have hdigest : other.digest = row.digest := by simpa using List.find?_some hother
  refine ⟨other, ?_, hdigest⟩
  rw [Represents, hdigest]
  exact hother

theorem mem_of_represents {row : Row} (hrow : Represents rows row) : row ∈ rows :=
  (mem_filter.1 (mem_of_find?_eq_some hrow)).1

theorem represents_unique {row other : Row} (hrow : Represents rows row)
    (hother : Represents rows other) (hdigest : row.digest = other.digest) : row = other := by
  rw [Represents, hdigest, hother] at hrow
  exact (Option.some.inj hrow).symm

theorem Complete.entry_unique {entries : List CachedEntry} (hcomplete : Complete rows entries)
    {entry other : CachedEntry} (hentry : entry ∈ entries) (hother : other ∈ entries)
    (hdigest : entry.desc.digest = other.desc.digest) : entry = other :=
  inj_on_of_nodup_map hcomplete.nodup hentry hother hdigest

theorem Complete.represented {entries : List CachedEntry} (hcomplete : Complete rows entries)
    {entry : CachedEntry} (hentry : entry ∈ entries) :
    ∃ row, Represents rows row ∧ Fits row entry.toRefEntry := by
  obtain ⟨named, hnamed, htype, hdigest⟩ := hcomplete.named entry hentry
  obtain ⟨row, hrow, hsame⟩ := represents_of_mem hnamed htype
  obtain ⟨other, hother, hfits⟩ := hcomplete.covers row hrow
  have hequal : other = entry :=
    hcomplete.entry_unique hother hentry ((hfits.2.1.trans hsame).trans hdigest)
  exact ⟨row, hrow, hequal ▸ hfits⟩

section Exact

variable (world : World Bytes)

/-- The list is that of a full scan, in the order of the digests, over the rows of the index
version read at an instant of the request, with each body as it is at one. -/
def Exact (request : Request) (list : List RefEntry) : Prop :=
  ∃ (indexed : ℕ) (instantOf : Digest → ℕ),
    (request.instant 0 ≤ indexed ∧ indexed ≤ request.finish) ∧
    (∀ digest, request.instant 0 ≤ instantOf digest ∧ instantOf digest ≤ request.finish) ∧
    (∀ entry, entry ∈ list ↔ ∃ row body, Represents (world.history indexed).rows row ∧
      readManifestBlob (settledStore world (instantOf row.digest)) row = .ok body ∧
      entry = entryOf (settledStore world (instantOf row.digest)) row body ∧
      entry.subject = some request.digest) ∧
    list.Pairwise fun left right => digestRank left.desc.digest < digestRank right.desc.digest

/-- The entry was true at an instant of the request. -/
def Timely (request : Request) (entry : CachedEntry) : Prop :=
  ∃ row instant, Fits row entry.toRefEntry ∧ request.instant 0 ≤ instant ∧
    instant ≤ request.finish ∧ Reads world instant row entry.toRefEntry

variable {world}

theorem Reads.congr {instant : ℕ} {row other : Row} {entry : RefEntry}
    (hreads : Reads world instant row entry) (hrow : Fits row entry)
    (hother : Fits other entry) : Reads world instant other entry := by
  have hsame := hother.descriptor hrow
  rw [Reads, judge_congr hsame,
    show other.digest = row.digest from congrArg Descriptor.digest hsame]
  exact hreads

variable {entries : List CachedEntry}

theorem mem_listOf {digest : Digest} {entry : RefEntry} :
    entry ∈ listOf entries digest ↔
      (∃ cached ∈ entries, cached.toRefEntry = entry) ∧ entry.subject = some digest ∧
        entry.unreadable = false := by
  rw [listOf, mem_insertionSort, mem_filter, mem_map]
  simp only [Bool.and_eq_true, beq_iff_eq, Bool.not_eq_true']

theorem exists_instantOf {rows : List Row} {request : Request} (hcomplete : Complete rows entries)
    (htimely : ∀ entry ∈ entries, Timely world request entry) :
    ∃ instantOf : Digest → ℕ,
      (∀ digest, request.instant 0 ≤ instantOf digest ∧ instantOf digest ≤ request.finish) ∧
      ∀ row, Represents rows row → ∀ entry ∈ entries, entry.desc.digest = row.digest →
        Reads world (instantOf row.digest) row entry.toRefEntry := by
  have hinstant : ∀ digest, ∃ instant, (request.instant 0 ≤ instant ∧ instant ≤ request.finish) ∧
      ∀ row, Represents rows row → row.digest = digest → ∀ entry ∈ entries,
        entry.desc.digest = digest → Reads world instant row entry.toRefEntry := by
    intro digest
    by_cases hknown : ∃ row entry, Represents rows row ∧ row.digest = digest ∧ entry ∈ entries ∧
        entry.desc.digest = digest
    · obtain ⟨row, entry, hrow, hdigest, hentry, hsame⟩ := hknown
      obtain ⟨first, instant, hfirst, hstart, hfinish, hreads⟩ := htimely entry hentry
      refine ⟨instant, ⟨hstart, hfinish⟩, ?_⟩
      intro other hother hotherDigest cached hcached hcachedDigest
      obtain rfl := hcomplete.entry_unique hentry hcached (hsame.trans hcachedDigest.symm)
      obtain ⟨stands, hstands, hfits⟩ := hcomplete.represented hentry
      have hequal : other = stands :=
        represents_unique hother hstands (hotherDigest.trans (hsame.symm.trans hfits.2.1))
      exact hreads.congr hfirst (hequal ▸ hfits)
    · refine ⟨request.instant 0, ⟨le_refl _, request.bounded 0⟩, ?_⟩
      intro row hrow hdigest entry hentry hsame
      exact absurd ⟨row, entry, hrow, hdigest, hentry, hsame⟩ hknown
  choose instantOf hbounds hreads using hinstant
  exact ⟨instantOf, hbounds, fun row hrow entry hentry hdigest =>
    hreads row.digest row hrow rfl entry hentry hdigest⟩

theorem pairwise_listOf {rows : List Row} {digest : Digest} (hcomplete : Complete rows entries)
    (hparses : ∀ entry ∈ listOf entries digest, (parseDigest entry.desc.digest).isSome = true) :
    (listOf entries digest).Pairwise fun left right =>
      digestRank left.desc.digest < digestRank right.desc.digest := by
  have hdistinct : (entries.map CachedEntry.toRefEntry).Pairwise fun left right =>
      left.desc.digest ≠ right.desc.digest := by
    rw [pairwise_map]
    exact pairwise_map.1 hcomplete.nodup
  have hsorted := (pairwise_insertionSort (fun left right : RefEntry =>
    digestRank left.desc.digest ≤ digestRank right.desc.digest)
    ((entries.map CachedEntry.toRefEntry).filter fun entry =>
      entry.subject == some digest && !entry.unreadable)).and
    ((perm_insertionSort _ _).symm.pairwise (hdistinct.filter _) fun hne => hne.symm)
  refine hsorted.imp_of_mem ?_
  rintro left right hleft hright ⟨hle, hne⟩
  exact lt_of_le_of_ne hle fun hrank =>
    hne (digestRank_injective (hparses left hleft) (hparses right hright) hrank)

theorem exact_of_complete {request : Request} {indexed : ℕ} (hstart : request.instant 0 ≤ indexed)
    (hfinish : indexed ≤ request.finish) (hcomplete : Complete (world.history indexed).rows entries)
    (htimely : ∀ entry ∈ entries, Timely world request entry) :
    Exact world request (listOf entries request.digest) := by
  obtain ⟨instantOf, hbounds, hreads⟩ := exists_instantOf hcomplete htimely
  have hmem : ∀ entry, entry ∈ listOf entries request.digest ↔ ∃ row body,
      Represents (world.history indexed).rows row ∧
      readManifestBlob (settledStore world (instantOf row.digest)) row = .ok body ∧
      entry = entryOf (settledStore world (instantOf row.digest)) row body ∧
      entry.subject = some request.digest := by
    intro entry
    rw [mem_listOf]
    constructor
    · rintro ⟨⟨cached, hcached, rfl⟩, hsubject, -⟩
      obtain ⟨row, hrow, hfits⟩ := hcomplete.represented hcached
      have hread := hreads row hrow cached hcached hfits.2.1
      rw [Reads, ← readEntry_settled] at hread
      obtain ⟨body, hbody, hentry⟩ := readEntry_listed hread (by rw [hsubject]; rfl)
      exact ⟨row, body, hrow, hbody, hentry, hsubject⟩
    · rintro ⟨row, body, hrow, hbody, rfl, hsubject⟩
      obtain ⟨cached, hcached, hfits⟩ := hcomplete.covers row hrow
      have hread := hreads row hrow cached hcached hfits.2.1
      rw [Reads, ← readEntry_settled, readEntry, hbody] at hread
      exact ⟨⟨cached, hcached, (Option.some.inj hread).symm⟩, hsubject, entryOf_readable _ row body⟩
  refine ⟨indexed, instantOf, ⟨hstart, hfinish⟩, hbounds, hmem, pairwise_listOf hcomplete ?_⟩
  intro entry hentry
  obtain ⟨row, body, -, hbody, rfl, -⟩ := (hmem entry).1 hentry
  rw [entryOf_digest]
  exact readManifestBlob_parses hbody

theorem exact_of_unknown {request : Request} {tick : ℕ}
    (hunknown : (world.history (request.instant tick)).repository = none) :
    Exact world request [] := by
  have hrows : (world.history (request.instant tick)).rows = [] := by rw [Instant.rows, hunknown]
  refine ⟨request.instant tick, fun _ => request.instant 0,
    ⟨request.ordered (Nat.zero_le _), request.bounded tick⟩,
    fun _ => ⟨le_refl _, request.bounded 0⟩, ?_, List.Pairwise.nil⟩
  intro entry
  rw [hrows]
  simp [Represents]

end Exact

section Sound

variable (world : World Bytes)

structure Sound (served : Served) : Prop where
  traced : ∀ entry ∈ served.view.entries, Traced world served.view.version served.since entry
  whole : served.view.ready = true → ∃ indexed repository, indexed ≤ served.since ∧
    (world.history indexed).repository = some repository ∧
    repository.version = served.view.version ∧
    Complete repository.rows served.view.entries ∧
    served.view.bySubject = listOf served.view.entries

variable {world}

theorem sound_empty (since : ℕ) : Sound world ⟨View.empty, since⟩ where
  traced := fun _ hentry => (not_mem_nil hentry).elim
  whole := fun hready => Bool.noConfusion hready

theorem Sound.mono {served : Served} (hsound : Sound world served) {later : ℕ}
    (hlater : served.since ≤ later) : Sound world ⟨served.view, later⟩ where
  traced := fun entry hentry => (hsound.traced entry hentry).mono hlater
  whole := fun hready => by
    obtain ⟨indexed, repository, hindexed, hrest⟩ := hsound.whole hready
    exact ⟨indexed, repository, hindexed.trans hlater, hrest⟩

theorem obtained_of_built {request : Request} {view : View} {repository : Repository Bytes}
    {entry : CachedEntry} (hentry : entry ∈ (builtFrom world request view repository).entries) :
    ∃ row ∈ repository.rows, manifestTypes row.mediaType = true ∧ ∃ tick, 2 ≤ tick ∧
      Obtained world request view (decide (view.version ≠ repository.version)) row tick entry := by
  obtain hstart | hobtained := mem_walkRows _ _ hentry
  · cases hstart
  · exact hobtained

theorem complete_of_whole {request : Request} {view : View} {repository : Repository Bytes}
    (hwhole : (builtFrom world request view repository).whole = true) :
    Complete repository.rows (builtFrom world request view repository).entries where
  nodup := nodup_walkRows _ _ nodup_nil
  covers := by
    intro row hrow
    have hnew : ∀ entry ∈ Build.start.entries, entry.desc.digest ≠ row.digest :=
      fun _ hentry => (not_mem_nil hentry).elim
    obtain ⟨entry, hentry, later, -, hobtained⟩ := (whole_walkRows _ _ hwhole).2 row hrow hnew
    exact ⟨entry, hentry, hobtained.fits⟩
  named := by
    intro entry hentry
    obtain ⟨row, hrow, htype, tick, -, hobtained⟩ := obtained_of_built hentry
    exact ⟨row, hrow, htype, hobtained.fits.2.1.symm⟩

section Built

variable {served : Served} (hsound : Sound world served) {request : Request}
  (hsince : served.since ≤ request.instant 0) {repository : Repository Bytes}
  (hrepository : (world.history (request.instant 1)).repository = some repository)

include hsound hsince hrepository

theorem Sound.built_timely (hassumed : Assumed world) {entry : CachedEntry}
    (hentry : entry ∈ (builtFrom world request served.view repository).entries) :
    Timely world request entry := by
  obtain ⟨row, hrow, -, tick, htick, husable | ⟨hfits, hreads, -⟩⟩ := obtained_of_built hentry
  · obtain ⟨hmem, hfits, hgood⟩ := usable_spec husable
    have hindexed : request.instant 0 ≤ request.instant 1 := request.ordered (by omega)
    obtain hreads | hreads := (hsound.traced entry hmem).current hassumed hfits
      (request.instant tick) (hsince.trans hindexed) hrepository hrow fun hnegative => by
        obtain ⟨hsame, hident⟩ := hgood hnegative
        exact ⟨not_not.1 (of_decide_eq_false hsame), hident⟩
    · exact ⟨row, request.instant 1, hfits, hindexed, request.bounded 1, hreads⟩
    · exact ⟨row, request.instant tick, hfits, request.ordered (by omega), request.bounded tick,
        hreads⟩
  · exact ⟨row, request.instant (tick + 2), hfits, request.ordered (by omega),
      request.bounded _, hreads⟩

theorem Sound.built_traced {entry : CachedEntry}
    (hentry : entry ∈ (builtFrom world request served.view repository).entries) :
    Traced world repository.version request.finish entry := by
  obtain ⟨row, hrow, -, tick, htick, husable | ⟨hfits, hreads, hfounded⟩⟩ :=
    obtained_of_built hentry
  · obtain ⟨hmem, -, hgood⟩ := usable_spec husable
    obtain ⟨first, stat, read, hfirst, hstat, hread, hreads, hfounded, hversion⟩ :=
      hsound.traced entry hmem
    refine ⟨first, stat, read, hfirst, hstat,
      hread.trans (hsince.trans (request.bounded 0)), hreads, hfounded, fun hnegative => ?_⟩
    have hsame : served.view.version = repository.version :=
      not_not.1 (of_decide_eq_false (hgood hnegative).1)
    rw [← hsame]
    exact hversion hnegative
  · refine ⟨row, request.instant (tick + 1), request.instant (tick + 2), hfits,
      request.ordered (by omega), request.bounded _, hreads, hfounded, fun _ => ?_⟩
    exact ⟨request.instant 1, repository, request.ordered (by omega), hrepository, rfl, hrow⟩

end Built

theorem Sound.referrersOf {served : Served} (hsound : Sound world served)
    {request : Request} (hsince : served.since ≤ request.instant 0) :
    Sound world ⟨(referrersOf world request served.view).view, request.finish⟩ := by
  obtain ⟨hsame, -⟩ | hbuild :=
    referrersOf_cases world request served.view
  · rw [hsame]
    exact hsound.mono (hsince.trans (request.bounded 0))
  · obtain ⟨repository, hrepository, hview, -, -⟩ := buildReferrers_ok hbuild
    rw [hview]
    refine ⟨fun entry hentry => hsound.built_traced hsince hrepository hentry, fun hwhole => ?_⟩
    refine ⟨request.instant 1, repository, request.bounded 1, hrepository, rfl,
      complete_of_whole hwhole, ?_⟩
    exact if_pos hwhole

/-- The view's own list is timely as long as its version is that of the index and no file has
changed. -/
theorem Sound.cached_timely {served : Served} (hsound : Sound world served)
    (hassumed : Assumed world) {request : Request}
    (hsince : served.since ≤ request.instant 0) {repository : Repository Bytes}
    (hrepository : (world.history (request.instant 0)).repository = some repository)
    (hversion : served.view.version = repository.version)
    (hcomplete : Complete repository.rows served.view.entries)
    (hrepaired : repaired world request served.view = false) {entry : CachedEntry}
    (hentry : entry ∈ served.view.entries) : Timely world request entry := by
  obtain ⟨row, hrow, hfits⟩ := hcomplete.represented hentry
  obtain ⟨hchecked, hfinish⟩ := request.checks entry.desc.digest
  obtain hreads | hreads := (hsound.traced entry hentry).current hassumed hfits
    (request.checked entry.desc.digest) hsince hrepository (mem_of_represents hrow)
    fun hnegative => by
      have hunchanged := any_eq_false.1 hrepaired entry hentry
      rw [hnegative, Bool.true_and, bne_iff_ne, not_not] at hunchanged
      exact ⟨hversion, hfits.2.1 ▸ hunchanged⟩
  · exact ⟨row, request.instant 0, hfits, le_refl _, request.bounded 0, hreads⟩
  · exact ⟨row, request.checked entry.desc.digest, hfits, hchecked, hfinish, hreads⟩

theorem Sound.exact {served : Served} (hsound : Sound world served)
    (hassumed : Assumed world) {request : Request}
    (hsince : served.since ≤ request.instant 0) {list : List RefEntry}
    (hlist : (ReferrerView.referrersOf world request served.view).answer =
      .listed list) : Exact world request list := by
  obtain ⟨-, hanswer⟩ | hbuild :=
    referrersOf_cases world request served.view
  · obtain ⟨tick, hunknown, rfl⟩ | ⟨repository, hrepository, hready, hversion, hrepaired, rfl⟩ :=
      hanswer list hlist
    · exact exact_of_unknown hunknown
    obtain ⟨indexed, before, hindexed, hbefore, hsame, hcomplete, hsubjects⟩ := hsound.whole hready
    have hrows : (world.history (request.instant 0)).rows = before.rows :=
      hassumed.versions (hindexed.trans hsince) (le_refl _) hbefore hrepository
        (hsame.trans hversion)
    have hnow : repository.rows = before.rows :=
      (Instant.rows_of_repository hrepository).symm.trans hrows
    rw [hsubjects]
    refine exact_of_complete (le_refl _) (request.bounded 0) (hrows.symm ▸ hcomplete) ?_
    intro entry hentry
    exact hsound.cached_timely hassumed hsince hrepository hversion (hnow.symm ▸ hcomplete)
      hrepaired hentry
  · obtain ⟨repository, hrepository, -, -, hanswer⟩ := buildReferrers_ok hbuild
    obtain ⟨hwhole, rfl⟩ := hanswer list hlist
    have hrows := Instant.rows_of_repository hrepository
    refine exact_of_complete (request.ordered (by omega)) (request.bounded 1)
      (hrows.symm ▸ complete_of_whole hwhole) ?_
    exact fun entry hentry => hsound.built_timely hsince hrepository hassumed hentry

theorem sound_nextViews {views : List Served}
    (hsound : ∀ served ∈ views, Sound world served) (event : ViewEvent) :
    ∀ served ∈ nextViews world views event, Sound world served := by
  cases event with
  | make =>
    intro served hserved
    obtain hserved | hserved := mem_append.1 hserved
    · exact hsound served hserved
    · rw [mem_singleton.1 hserved]
      exact sound_empty 0
  | ask index request =>
    unfold nextViews
    dsimp only
    split
    · exact hsound
    rename_i served hserved
    split
    · exact hsound
    rename_i hsince
    intro other hother
    obtain hother | rfl := mem_or_eq_of_mem_set hother
    · exact hsound other hother
    · exact (hsound served (mem_of_getElem? hserved)).referrersOf (not_lt.1 hsince)

theorem sound_foldl (events : List ViewEvent) :
    ∀ served ∈ events.foldl (nextViews world) [], Sound world served := by
  have hgeneral : ∀ views : List Served, (∀ served ∈ views, Sound world served) →
      ∀ served ∈ events.foldl (nextViews world) views, Sound world served := by
    induction events with
    | nil => exact fun views hviews => hviews
    | cons event events ih => exact fun views hviews => ih _ (sound_nextViews hviews event)
  exact hgeneral [] nofun

end Sound

end K3sm.Registry.ReferrerView
