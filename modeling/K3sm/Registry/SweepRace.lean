import K3sm.Registry.RowWrites
import K3sm.Registry.SweepCrash

/-!
# Pushes that race a sweep

One repository under any interleaving of the registry's operations with a sweep.  A section that
holds the repository lock is one step.  A sweep lists the repository without the lock, reads each
manifest body at some later moment, plans, and takes the lock only to delete.
-/

namespace K3sm.Registry.Gc

open List

open K3sm.Core

variable {Bytes : Type}

/-- A file's bytes and mtime change in place of the old ones. -/
def Repo.rewrite (repo : Repo Bytes) (digest : Digest)
    (change : BlobFile Bytes → Bytes × Time) : Repo Bytes :=
  { repo with
    blobs := repo.blobs.map fun blob =>
      if blob.digest = digest then ⟨blob.digest, (change blob).1, (change blob).2⟩ else blob
    blobs_nodup := by
      have hsame : (BlobFile.digest ∘ fun blob : BlobFile Bytes =>
          if blob.digest = digest then ⟨blob.digest, (change blob).1, (change blob).2⟩
          else blob) = BlobFile.digest := by
        funext blob
        simp only [Function.comp]
        split <;> rfl
      rw [map_map, hsame]
      exact repo.blobs_nodup
    blobs_parse := by
      intro blob hblob
      obtain ⟨old, hold, rfl⟩ := mem_map.1 hblob
      split <;> exact repo.blobs_parse old hold }

/-- `TouchBlob`: also what a touch through an inode another repository shares
does to this one. -/
def Repo.touch (now : Time) (digest : Digest) (repo : Repo Bytes) : Repo Bytes :=
  repo.rewrite digest fun blob => (blob.body, now)

/-- `initLocked`: a missing layout is made first. -/
def Repo.init (env : Env Bytes) (now : Time) (repo : Repo Bytes) : Repo Bytes :=
  repo.setFiles now ((RowRecord.initLocked env.records repo.files).finish repo.files)

/-- `linkBlob`: a blob that is there is kept when it hashes to its digest and is
replaced by the source when only that does; one that is not there is linked. -/
def Repo.linkBlob (env : Env Bytes) (now : Time) (digest : Digest) (body : Bytes)
    (repo : Repo Bytes) : Repo Bytes :=
  let repo := repo.init env now
  if hparse : parseDigest digest = some digest then
    if hheld : digest ∈ repo.blobs.map BlobFile.digest then
      repo.rewrite digest fun blob =>
        if env.codec.hashesTo blob.body digest then (blob.body, now)
        else if env.codec.hashesTo body digest then (body, now)
        else (blob.body, blob.modTime)
    else
      { repo with
        blobs := ⟨digest, body, now⟩ :: repo.blobs
        blobs_nodup := nodup_cons.2 ⟨hheld, repo.blobs_nodup⟩
        blobs_parse := by
          intro blob hblob
          rcases mem_cons.1 hblob with rfl | hblob
          · exact hparse
          · exact repo.blobs_parse blob hblob }
  else repo

def Repo.updateIndex (env : Env Bytes) (now : Time) (write : RowRecord.Write) (stop : ℕ)
    (repo : Repo Bytes) : Repo Bytes :=
  (Script.lift Repo.files (Repo.setFiles now)
    (RowRecord.updateIndex env.records repo.files write)).stopAfter stop repo

/-- A manifest PUT past its checks. -/
structure Put (codec : Codec Bytes) where
  tag : Option String
  digest : Digest
  mediaType : Text
  body : Bytes
  checked : CheckedManifest
  hashes : codec.hashesTo body digest = true
  accepted : checkManifest codec mediaType body = .ok checked

def Put.descriptor {codec : Codec Bytes} (put : Put codec) : Descriptor :=
  ⟨put.mediaType, put.digest, codec.len put.body⟩

def Put.write {codec : Codec Bytes} (put : Put codec) : RowRecord.Write :=
  match put.tag with
  | some tag => .putTagged put.descriptor tag
  | none => .putUntagged put.descriptor

structure PendingPut (codec : Codec Bytes) where
  put : Put codec
  bodyTime : Time

inductive Phase (Bytes : Type) where
  | idle
  | marking (rows : List Row) (contents : Contents) (cutoff : Time)
      (read : List (Digest × ReadOutcome Bytes))
  | marked (marked : Marked)

/-- The repository, the clock, the PUTs in flight, the sweep, and every PUT that
has got as far as its index write. -/
structure World (env : Env Bytes) where
  repo : Repo Bytes
  clock : Time
  puts : List (PendingPut env.codec)
  phase : Phase Bytes
  written : List (Put env.codec)

/-- A step of a client or of the sweep beside it. -/
inductive Op (env : Env Bytes) where
  | tick (later : Time)
  | commit (digest : Digest) (body : Bytes)
  | mount (digest : Digest) (body : Bytes)
  | touch (digest : Digest)
  | putBody (put : Put env.codec)
  | putIndex (index : ℕ) (freshened : List Digest) (stop : ℕ)
  | deleteTag (tag : String) (keep : Row → Option Bool) (stop : ℕ)
  | deleteDigest (digest : Digest) (stop : ℕ)
  | sweepList (contents : Contents)
  | sweepRead (digest : Digest)
  | sweepMark
  | sweepApply (busy : String → Bool) (stop : ℕ)

def outcomeOf (read : List (Digest × ReadOutcome Bytes)) (digest : Digest) :
    Option (ReadOutcome Bytes) :=
  (read.find? (·.1 == digest)).map Prod.snd

/-- One step; `none` when the operation cannot be taken or is refused. -/
def step (env : Env Bytes) (world : World env) : Op env → Option (World env)
  | .tick later => if world.clock ≤ later then some { world with clock := later } else none
  | .commit digest body =>
    if env.codec.hashesTo body digest then
      some { world with repo := world.repo.linkBlob env world.clock digest body }
    else none
  | .mount digest body =>
    some { world with repo := world.repo.linkBlob env world.clock digest body }
  | .touch digest => some { world with repo := world.repo.touch world.clock digest }
  | .putBody put =>
    some { world with
      repo := world.repo.linkBlob env world.clock put.digest put.body
      puts := ⟨put, world.clock⟩ :: world.puts }
  | .putIndex index freshened stop =>
    match world.puts[index]? with
    | none => none
    | some pending =>
      -- the run's premise: less than a grace since the body was written
      if world.clock < pending.bodyTime + env.grace ∧
          pending.put.checked.needs.all (fun need => (world.repo.find need).isSome) then
        let freshened := freshened.foldl (fun repo digest => repo.touch world.clock digest)
          world.repo
        some { world with
          repo := freshened.updateIndex env world.clock pending.put.write stop
          puts := world.puts.eraseIdx index
          written := pending.put :: world.written }
      else none
  | .deleteTag tag keep stop =>
    some { world with
      repo := world.repo.updateIndex env world.clock (.deleteTag tag keep) stop }
  | .deleteDigest digest stop =>
    some { world with
      repo := world.repo.updateIndex env world.clock (.deleteDigest digest) stop }
  | .sweepList contents =>
    some { world with
      phase := .marking world.repo.rows contents (world.clock - env.grace) [] }
  | .sweepRead digest =>
    match world.phase with
    | .marking rows contents cutoff read =>
      some { world with
        phase := .marking rows contents cutoff (read ++ [(digest, world.repo.read digest)]) }
    | _ => none
  | .sweepMark =>
    match world.phase with
    | .marking rows contents cutoff read =>
      match mark env rows contents cutoff fun digest =>
          (outcomeOf read digest).getD .missing with
      | .error _ => some { world with phase := .idle }
      | .ok marked =>
        -- every body the plan follows has been read
        if marked.reads.all fun entry => (outcomeOf read entry.1).isSome then
          some { world with phase := .marked marked }
        else none
    | _ => none
  | .sweepApply busy stop =>
    match world.phase with
    | .marked marked =>
      match sweepLocked env world.clock marked world.repo with
      | .error _ => some { world with phase := .idle }
      | .ok (checked, plan) =>
        some { world with
          phase := .idle
          repo := (apply env world.clock busy plan checked).stopAfter stop checked }
    | _ => none

section Directory

variable {env : Env Bytes} {now : Time} {before middle after repo : Repo Bytes}

structure Enriched (env : Env Bytes) (now : Time) (before after : Repo Bytes) : Prop where
  rows : after.rows = before.rows
  holds : ∀ digest, before.holds digest → after.holds digest
  files : ∀ blob ∈ before.blobs, env.codec.hashesTo blob.body blob.digest = true →
    ∃ file ∈ after.blobs, file.digest = blob.digest ∧ file.body = blob.body ∧
      (file.modTime = blob.modTime ∨ file.modTime = now)

theorem Enriched.refl (env : Env Bytes) (now : Time) (repo : Repo Bytes) :
    Enriched env now repo repo where
  rows := rfl
  holds := fun _ hholds => hholds
  files := fun blob hblob _ => ⟨blob, hblob, rfl, rfl, .inl rfl⟩

theorem Enriched.trans (hfirst : Enriched env now before middle)
    (hsecond : Enriched env now middle after) : Enriched env now before after where
  rows := hsecond.rows.trans hfirst.rows
  holds := fun digest hholds => hsecond.holds digest (hfirst.holds digest hholds)
  files := by
    intro blob hblob hhash
    obtain ⟨file, hfile, hdigest, hbody, htime⟩ := hfirst.files blob hblob hhash
    rw [← hdigest, ← hbody] at hhash
    obtain ⟨last, hlast, hdigest', hbody', htime'⟩ := hsecond.files file hfile hhash
    refine ⟨last, hlast, hdigest'.trans hdigest, hbody'.trans hbody, ?_⟩
    rcases htime' with hsame | hnow
    · rwa [hsame]
    · exact .inr hnow

theorem enriched_rewrite {digest : Digest} {change : BlobFile Bytes → Bytes × Time}
    (hchange : ∀ blob : BlobFile Bytes, blob.digest = digest →
      env.codec.hashesTo blob.body digest = true →
      (change blob).1 = blob.body ∧ ((change blob).2 = blob.modTime ∨ (change blob).2 = now)) :
    Enriched env now repo (repo.rewrite digest change) where
  rows := rfl
  holds := by
    rintro other ⟨blob, hblob, rfl⟩
    refine ⟨_, mem_map.2 ⟨blob, hblob, rfl⟩, ?_⟩
    split <;> rfl
  files := by
    intro blob hblob hhash
    refine ⟨_, mem_map.2 ⟨blob, hblob, rfl⟩, ?_⟩
    by_cases hdigest : blob.digest = digest
    · obtain ⟨hbody, htime⟩ := hchange blob hdigest (hdigest ▸ hhash)
      simp only [if_pos hdigest]
      exact ⟨trivial, hbody, htime⟩
    · simp only [if_neg hdigest]
      exact ⟨trivial, trivial, .inl trivial⟩

theorem enriched_touch (digest : Digest) : Enriched env now repo (repo.touch now digest) :=
  enriched_rewrite fun _ _ _ => ⟨rfl, .inr rfl⟩

theorem enriched_touchAll (digests : List Digest) :
    Enriched env now repo (digests.foldl (fun repo digest => repo.touch now digest) repo) := by
  induction digests generalizing repo with
  | nil => exact Enriched.refl env now repo
  | cons digest digests ih => exact (enriched_touch digest).trans ih

theorem enriched_init : Enriched env now repo (repo.init env now) where
  rows := RowRecord.initLocked_finish_rows env.records repo.files
  holds := fun _ hholds => hholds
  files := fun blob hblob _ => ⟨blob, hblob, rfl, rfl, .inl rfl⟩

theorem enriched_linkBlob (digest : Digest) (body : Bytes) :
    Enriched env now repo (repo.linkBlob env now digest body) := by
  refine enriched_init.trans ?_
  unfold Repo.linkBlob
  dsimp only
  split
  case isFalse => exact Enriched.refl env now _
  rename_i hparse
  split
  case isTrue hheld =>
    apply enriched_rewrite
    intro blob hdigest hhash
    rw [if_pos hhash]
    exact ⟨rfl, .inr rfl⟩
  case isFalse hheld =>
    refine ⟨rfl, ?_, ?_⟩
    · rintro other ⟨blob, hblob, hdigest⟩
      exact ⟨blob, mem_cons_of_mem _ hblob, hdigest⟩
    · exact fun blob hblob _ => ⟨blob, mem_cons_of_mem _ hblob, rfl, rfl, .inl rfl⟩

theorem parseDigest_of_hashesTo {codec : Codec Bytes} {body : Bytes} {digest : Digest}
    (hhash : codec.hashesTo body digest = true) : parseDigest digest = some digest := by
  cases digest with
  | sha256 encoded | sha512 encoded => rfl
  | plain text => simp [Codec.hashesTo] at hhash

theorem linkBlob_stores {digest : Digest} {body : Bytes}
    (hhash : env.codec.hashesTo body digest = true) :
    ∃ file ∈ (repo.linkBlob env now digest body).blobs, file.digest = digest ∧
      file.body = body ∧ file.modTime = now := by
  unfold Repo.linkBlob
  dsimp only
  rw [dif_pos (parseDigest_of_hashesTo hhash)]
  split
  case isFalse => exact ⟨_, mem_cons_self, rfl, rfl, rfl⟩
  rename_i hheld
  obtain ⟨blob, hblob, hdigest⟩ := mem_map.1 hheld
  refine ⟨_, mem_map.2 ⟨blob, hblob, rfl⟩, ?_⟩
  simp only [if_pos hdigest]
  refine ⟨hdigest, ?_⟩
  by_cases hgood : env.codec.hashesTo blob.body digest = true
  · simp only [if_pos hgood]
    exact ⟨env.codec.hashesTo_unique hgood hhash, trivial⟩
  · simp only [if_neg hgood]
    exact ⟨trivial, trivial⟩

theorem updateIndex_blobs (write : RowRecord.Write) (stop : ℕ) :
    (repo.updateIndex env now write stop).blobs = repo.blobs :=
  Script.stops_lift_frame (fun repo files => blobs_setFiles now repo files) ⟨stop, rfl⟩

theorem updateIndex_rows {write : RowRecord.Write} {stop : ℕ} {row : Row}
    (hrow : row ∈ (repo.updateIndex env now write stop).rows) :
    RowRecord.HasKind repo.rows row ∨ ∃ desc : Descriptor, row.digest = desc.digest ∧
      row.mediaType = desc.mediaType ∧ write.Puts desc := by
  have hfiles : (repo.updateIndex env now write stop).files ∈
      (RowRecord.updateIndex env.records repo.files write).stops repo.files :=
    Script.mem_stops_lift (files_setFiles now) ⟨stop, rfl⟩
  rcases RowRecord.updateIndex_stops_cases hfiles with
    hsame | ⟨rows, changed, hindex, hchange, hnew⟩
  · rw [Repo.rows, hsame] at hrow
    exact .inl (.of_mem hrow)
  · rw [Repo.rows, hnew] at hrow
    rw [Repo.rows, hindex]
    exact RowRecord.hasKind_change hchange hrow

end Directory

/-- The config the server read is the one the collector follows.  An index
requires no config. -/
def ConfigFollowed (env : Env Bytes) (put : Put env.codec) : Prop :=
  isIndexType put.mediaType = true ∨ configAgrees env.codec put.body

/-- The steps whose PUTs the collector reads as the server does. -/
def followsConfigs (env : Env Bytes) (_ : World env) : Op env → Prop
  | .putBody put => ConfigFollowed env put
  | _ => True

def Complies {codec : Codec Bytes} (repo : Repo Bytes) (put : Put codec) : Prop :=
  (∃ blob ∈ repo.blobs, blob.digest = put.digest ∧ blob.body = put.body) ∧
    ∀ need ∈ put.checked.needs, repo.holds need

/-- Every row a PUT wrote has its body and what the PUT required. -/
def RowsComply {env : Env Bytes} (world : World env) : Prop :=
  ∀ row ∈ world.repo.rows, ∀ put ∈ world.written, row.digest = put.digest →
    row.mediaType = put.mediaType → Complies world.repo put

def BodyStored {codec : Codec Bytes} (repo : Repo Bytes) (pending : PendingPut codec) : Prop :=
  ∃ blob ∈ repo.blobs, blob.digest = pending.put.digest ∧ blob.body = pending.put.body ∧
    pending.bodyTime ≤ blob.modTime

/-- The invariant of clients and a sweep beside each other. -/
structure RaceInv {env : Env Bytes} (world : World env) : Prop where
  rows : RowsComply world
  followed : ∀ put ∈ world.written, ConfigFollowed env put
  pending : ∀ pending ∈ world.puts, ConfigFollowed env pending.put ∧
    pending.bodyTime ≤ world.clock ∧
    (world.clock < pending.bodyTime + env.grace → BodyStored world.repo pending)
  phase : ∀ marked, world.phase = .marked marked → ∃ rows contents cutoff outcome,
    mark env rows contents cutoff outcome = .ok marked

section Invariant

variable {env : Env Bytes} {now : Time} {before after repo : Repo Bytes}

variable {pending : PendingPut env.codec} {put : Put env.codec} {world : World env}

theorem Enriched.complies (henriched : Enriched env now before after)
    (hcomplies : Complies before put) : Complies after put := by
  obtain ⟨⟨blob, hblob, hdigest, hbody⟩, hneeds⟩ := hcomplies
  have hhash : env.codec.hashesTo blob.body blob.digest = true := by
    rw [hdigest, hbody]
    exact put.hashes
  obtain ⟨file, hfile, hdigest', hbody', -⟩ := henriched.files blob hblob hhash
  exact ⟨⟨file, hfile, hdigest'.trans hdigest, hbody'.trans hbody⟩,
    fun need hneed => henriched.holds need (hneeds need hneed)⟩

theorem Enriched.bodyStored (henriched : Enriched env now before after)
    (htime : pending.bodyTime ≤ now) (hstored : BodyStored before pending) :
    BodyStored after pending := by
  obtain ⟨blob, hblob, hdigest, hbody, hyoung⟩ := hstored
  have hhash : env.codec.hashesTo blob.body blob.digest = true := by
    rw [hdigest, hbody]
    exact pending.put.hashes
  obtain ⟨file, hfile, hdigest', hbody', htime'⟩ := henriched.files blob hblob hhash
  refine ⟨file, hfile, hdigest'.trans hdigest, hbody'.trans hbody, ?_⟩
  rcases htime' with hsame | hnow
  · rwa [hsame]
  · rwa [hnow]

theorem RaceInv.enriched (hinv : RaceInv world) {repo : Repo Bytes}
    (henriched : Enriched env world.clock world.repo repo) :
    RaceInv { world with repo := repo } where
  rows := by
    intro row hrow put hput hdigest hmedia
    rw [henriched.rows] at hrow
    exact henriched.complies (hinv.rows row hrow put hput hdigest hmedia)
  followed := hinv.followed
  pending := by
    intro pending hpending
    obtain ⟨hfollowed, htime, hstored⟩ := hinv.pending pending hpending
    exact ⟨hfollowed, htime, fun hclock => henriched.bodyStored htime (hstored hclock)⟩
  phase := hinv.phase

theorem complies_of_blobs (hblobs : after.blobs = before.blobs) (hcomplies : Complies before put) :
    Complies after put := by
  simp only [Complies, Repo.holds, hblobs]
  exact hcomplies

theorem bodyStored_of_blobs (hblobs : after.blobs = before.blobs)
    (hstored : BodyStored before pending) : BodyStored after pending := by
  simp only [BodyStored, hblobs]
  exact hstored

theorem RaceInv.deleted (hinv : RaceInv world) {repo : Repo Bytes}
    (hblobs : repo.blobs = world.repo.blobs)
    (hrows : ∀ row ∈ repo.rows, RowRecord.HasKind world.repo.rows row) :
    RaceInv { world with repo := repo } where
  rows := by
    intro row hrow put hput hdigest hmedia
    obtain ⟨old, hold, hdigest', hmedia'⟩ := hrows row hrow
    exact complies_of_blobs hblobs
      (hinv.rows old hold put hput (hdigest'.trans hdigest) (hmedia'.trans hmedia))
  followed := hinv.followed
  pending := by
    intro pending hpending
    obtain ⟨hfollowed, htime, hstored⟩ := hinv.pending pending hpending
    exact ⟨hfollowed, htime, fun hclock => bodyStored_of_blobs hblobs (hstored hclock)⟩
  phase := hinv.phase

theorem RaceInv.phased (hinv : RaceInv world) {phase : Phase Bytes}
    (hphase : ∀ marked, phase = .marked marked → ∃ rows contents cutoff outcome,
      mark env rows contents cutoff outcome = .ok marked) :
    RaceInv { world with phase := phase } where
  rows := hinv.rows
  followed := hinv.followed
  pending := hinv.pending
  phase := hphase

theorem needs_named (hfollowed : ConfigFollowed env put) {blob : BlobFile Bytes}
    (hblob : blob ∈ repo.blobs) (hdigest : blob.digest = put.digest) (hbody : blob.body = put.body)
    {need : Digest} (hneed : need ∈ put.checked.needs) : repo.names env.codec put.digest need := by
  obtain ⟨refs, hparse⟩ := checkManifest_parses put.accepted
  refine ⟨refs, ⟨blob, hblob, hdigest, hbody ▸ put.hashes, hbody ▸ hparse⟩, .inl ?_⟩
  rcases hfollowed with hindex | hagrees
  · have hnone := (checkManifest_index hindex put.accepted).1
    simp [hnone] at hneed
  · exact needs_subset_blobs hagrees put.accepted hparse need hneed

/-! ## The two steps that matter -/

/-- An index write: the new row's body is young enough to be there still, and the
check under the lock has seen the rest. -/
theorem RaceInv.putIndex (hinv : RaceInv world) (hpending : pending ∈ world.puts)
    (hclock : world.clock < pending.bodyTime + env.grace)
    (hneeds : ∀ need ∈ pending.put.checked.needs, world.repo.holds need) (freshened : List Digest)
    (stop : ℕ) {puts : List (PendingPut env.codec)} (hputs : puts ⊆ world.puts) :
    RaceInv { world with
      repo := (freshened.foldl (fun repo digest => repo.touch world.clock digest)
        world.repo).updateIndex env world.clock pending.put.write stop
      puts := puts
      written := pending.put :: world.written } := by
  obtain ⟨hfollowed, htime, hstored⟩ := hinv.pending pending hpending
  have htouched := hinv.enriched (@enriched_touchAll Bytes env world.clock world.repo freshened)
  have hblobs := @updateIndex_blobs Bytes env world.clock
    (freshened.foldl (fun repo digest => repo.touch world.clock digest) world.repo)
    pending.put.write stop
  have hcomplies : Complies world.repo pending.put := by
    obtain ⟨blob, hblob, hdigest, hbody, -⟩ := hstored hclock
    exact ⟨⟨blob, hblob, hdigest, hbody⟩, hneeds⟩
  have hnow := complies_of_blobs hblobs
    ((@enriched_touchAll Bytes env world.clock world.repo freshened).complies hcomplies)
  refine ⟨?_, ?_, ?_, hinv.phase⟩
  · intro row hrow put hput hdigest hmedia
    rcases mem_cons.1 hput with rfl | hput
    · exact hnow
    rcases updateIndex_rows hrow with ⟨old, hold, hdigest', hmedia'⟩ | ⟨desc, hdesc, hkind, hwrite⟩
    · exact complies_of_blobs hblobs
        (htouched.rows old hold put hput (hdigest'.trans hdigest) (hmedia'.trans hmedia))
    -- another PUT of the same body under the same media type
    have hsame : desc = pending.put.descriptor := by
      rcases hwrite with ⟨tag, hwrite⟩ | hwrite
      · unfold Put.write at hwrite
        split at hwrite <;> cases hwrite
        rfl
      · unfold Put.write at hwrite
        split at hwrite <;> cases hwrite
        rfl
    have hput' : put.digest = pending.put.digest := by
      rw [← hdigest, hdesc, hsame]
      rfl
    have hmedia' : put.mediaType = pending.put.mediaType := by
      rw [← hmedia, hkind, hsame]
      rfl
    have hbody : put.body = pending.put.body :=
      env.codec.hashesTo_unique put.hashes (hput' ▸ pending.put.hashes)
    have hchecked : put.checked = pending.put.checked := by
      have haccepted := put.accepted
      rw [hmedia', hbody, pending.put.accepted] at haccepted
      exact (Except.ok.inj haccepted).symm
    rw [Complies, hput', hbody, hchecked]
    exact hnow
  · exact forall_mem_cons.2 ⟨hfollowed, hinv.followed⟩
  · intro other hother
    obtain ⟨hfollowed', htime', hstored'⟩ := htouched.pending other (hputs hother)
    exact ⟨hfollowed', htime', fun hclock' => bodyStored_of_blobs hblobs (hstored' hclock')⟩

theorem mem_of_holds {left : Repo Bytes} {gone : List Digest}
    (hblobs : left.blobs = repo.blobs.filter (·.digest ∉ gone)) {blob : BlobFile Bytes}
    (hblob : blob ∈ repo.blobs) (hholds : left.holds blob.digest) : blob ∈ left.blobs := by
  obtain ⟨file, hfile, hdigest⟩ := hholds
  rw [hblobs] at hfile ⊢
  obtain ⟨-, hstays⟩ := mem_filter.1 hfile
  rw [hdigest] at hstays
  exact mem_filter.2 ⟨hblob, hstays⟩

theorem RaceInv.sweepApply (hinv : RaceInv world) {marked : Marked} {checked left : Repo Bytes}
    {plan : Plan} {busy : String → Bool} (hphase : world.phase = .marked marked)
    (hlocked : sweepLocked env world.clock marked world.repo = .ok (checked, plan))
    (hleft : left ∈ (apply env world.clock busy plan checked).stops checked) :
    RaceInv { world with phase := .idle, repo := left } := by
  obtain ⟨rows₀, contents₀, cutoff₀, outcome, hmark⟩ := hinv.phase marked hphase
  obtain ⟨whole, hwhole, hbrake⟩ := sweepLocked_eq_ok hlocked
  obtain ⟨second, hpass⟩ := lockedPlan_eq_ok hwhole
  have hfinal := brake_eq_ok hbrake
  have hframe := (checkRows_eq_ok hpass.check).1
  have hindex : checked.files.index.isSome = true := by simp [hpass.checked_rows.2]
  have hprogress := apply_stops hindex hleft
  have hrows : ∀ row ∈ left.rows, row ∈ world.repo.rows := by
    intro row hrow
    have hchecked : checked.rows = world.repo.rows := by rw [Repo.rows, hframe.index]; rfl
    rw [← hchecked]
    rcases hprogress with ⟨hsame, -⟩ | ⟨hsame, -⟩
    · rwa [hsame] at hrow
    · rw [hsame] at hrow
      exact mem_of_mem_filter hrow
  obtain ⟨gone, hgone, hblobs⟩ : ∃ gone ⊆ plan.blobs,
      left.blobs = checked.blobs.filter (·.digest ∉ gone) := by
    rcases hprogress with ⟨-, hsame⟩ | ⟨-, hgone⟩
    · exact ⟨[], by simp, by simp [hsame]⟩
    · exact hgone
  refine ⟨?_, hinv.followed, ?_, by simp⟩
  · intro row hrow put hput hdigest hmedia
    obtain ⟨⟨blob, hblob, hsame, hbody⟩, hneeds⟩ :=
      hinv.rows row (hrows row hrow) put hput hdigest hmedia
    rw [← hframe.blobs] at hblob
    have hkeeps : ∀ target, (target = row.digest ∨
        checked.names env.codec row.digest target) → checked.holds target → left.holds target :=
      fun target => hpass.stops_keep hmark hfinal hleft hrow
    have hself : left.holds put.digest := by
      rw [← hdigest]
      exact hkeeps row.digest (.inl rfl) ⟨blob, hblob, hsame.trans hdigest.symm⟩
    refine ⟨⟨blob, mem_of_holds hblobs hblob (hsame ▸ hself), hsame, hbody⟩, ?_⟩
    intro need hneed
    apply hkeeps need
    · right
      rw [hdigest]
      exact needs_named (hinv.followed put hput) hblob hsame hbody hneed
    · simpa only [Repo.holds, hframe.blobs] using hneeds need hneed
  intro pending hpending
  obtain ⟨hfollowed, htime, hstored⟩ := hinv.pending pending hpending
  refine ⟨hfollowed, htime, fun hclock => ?_⟩
  obtain ⟨blob, hblob, hdigest, hbody, hyoung⟩ := hstored hclock
  refine ⟨blob, ?_, hdigest, hbody, hyoung⟩
  rw [← hframe.blobs] at hblob
  rw [hblobs]
  refine mem_filter.2 ⟨hblob, decide_eq_true fun hmem => ?_⟩
  -- a blob both passes reap is older than the grace
  have hreaped := hfinal.2 (hgone hmem)
  rw [hpass.plan] at hreaped
  have hreaped := of_decide_eq_true (mem_filter.1 hreaped).2
  obtain ⟨listed, hlisted, hsame, hold, -⟩ := (mem_plan_blobs blob.digest).1 hreaped
  obtain ⟨file, hfile, rfl⟩ := mem_map.1 hlisted
  have hfound : some file = some blob := by
    rw [← find_of_mem hfile, ← find_of_mem hblob]
    exact congrArg checked.find hsame
  cases hfound
  have hpast : blob.modTime ≤ world.clock - env.grace := hold
  linarith

theorem step_inv {next : World env} {op : Op env} (hinv : RaceInv world)
    (hguard : followsConfigs env world op) (hstep : step env world op = some next) :
    RaceInv next := by
  cases op with
  | tick later =>
    simp only [step] at hstep
    split_ifs at hstep with hlater
    cases hstep
    refine ⟨hinv.rows, hinv.followed, fun pending hpending => ?_, hinv.phase⟩
    obtain ⟨hfollowed, htime, hstored⟩ := hinv.pending pending hpending
    exact ⟨hfollowed, htime.trans hlater, fun hclock => hstored (lt_of_le_of_lt hlater hclock)⟩
  | commit digest body =>
    simp only [step] at hstep
    split at hstep
    case isFalse => cases hstep
    cases hstep
    exact hinv.enriched (enriched_linkBlob digest body)
  | mount digest body =>
    cases hstep
    exact hinv.enriched (enriched_linkBlob digest body)
  | touch digest =>
    cases hstep
    exact hinv.enriched (enriched_touch digest)
  | putBody put =>
    cases hstep
    have hlinked := hinv.enriched
      (@enriched_linkBlob Bytes env world.clock world.repo put.digest put.body)
    refine ⟨hlinked.rows, hlinked.followed, fun pending hpending => ?_, hlinked.phase⟩
    rcases mem_cons.1 hpending with rfl | hpending
    · refine ⟨hguard, le_rfl, fun _ => ?_⟩
      obtain ⟨file, hfile, hdigest, hbody, htime⟩ :=
        @linkBlob_stores Bytes env world.clock world.repo put.digest put.body put.hashes
      exact ⟨file, hfile, hdigest, hbody, htime.symm.le⟩
    · exact hlinked.pending pending hpending
  | putIndex index freshened stop =>
    simp only [step] at hstep
    split at hstep
    case h_1 => cases hstep
    rename_i pending hpending
    split at hstep
    case isFalse => cases hstep
    rename_i hchecked
    cases hstep
    refine hinv.putIndex (mem_of_getElem? hpending) hchecked.1 ?_ freshened stop eraseIdx_subset
    intro need hneed
    exact (find_isSome_iff _ _).1 (all_eq_true.1 hchecked.2 need hneed)
  | deleteTag tag keep stop | deleteDigest digest stop =>
    cases hstep
    refine hinv.deleted (updateIndex_blobs _ stop) fun row hrow => ?_
    rcases updateIndex_rows hrow with hkind | ⟨_, _, _, ⟨_, hwrite⟩ | hwrite⟩
    · exact hkind
    · cases hwrite
    · cases hwrite
  | sweepList contents =>
    cases hstep
    exact hinv.phased (by simp)
  | sweepRead digest =>
    simp only [step] at hstep
    split at hstep
    · cases hstep
      exact hinv.phased (by simp)
    · cases hstep
  | sweepMark =>
    simp only [step] at hstep
    split at hstep
    case h_2 => cases hstep
    rename_i rows contents cutoff read hphase
    split at hstep
    case h_1 =>
      cases hstep
      exact hinv.phased (by simp)
    case h_2 marked hmark =>
      split at hstep
      · cases hstep
        refine hinv.phased fun other hother => ?_
        cases hother
        exact ⟨rows, contents, cutoff, _, hmark⟩
      · cases hstep
  | sweepApply busy stop =>
    simp only [step] at hstep
    split at hstep
    case h_2 => cases hstep
    rename_i marked hphase
    split at hstep
    case h_1 =>
      cases hstep
      exact hinv.phased (by simp)
    case h_2 checked plan hlocked =>
      cases hstep
      exact hinv.sweepApply hphase hlocked ⟨stop, rfl⟩

/-- Any repository, with no PUT in flight and no sweep running. -/
def startWorld (env : Env Bytes) (repo : Repo Bytes) (clock : Time) : World env :=
  { repo := repo, clock := clock, puts := [], phase := .idle, written := [] }

/-- In every run in which the collector reads each PUT's config as the server
does, every row a PUT wrote has its body and every blob the PUT required. -/
theorem rows_comply_of_run (repo : Repo Bytes) (clock : Time) {ops : List (Op env)}
    {world : World env}
    (hrun : Run (guardedStep (followsConfigs env) fun world op next =>
      step env world op = some next) (startWorld env repo clock) ops world) : RowsComply world := by
  have hinv : RaceInv world := by
    refine hrun.invariant ⟨?_, ?_, ?_, ?_⟩ ?_
    · simp [RowsComply, startWorld]
    · simp [startWorld]
    · simp [startWorld]
    · simp [startWorld]
    · intro before op after hbefore hstep
      exact step_inv hbefore hstep.1 hstep.2
  exact hinv.rows

end Invariant

def demoPut : Put demoCodec where
  tag := some "v1"
  digest := .sha256 0
  mediaType := mediaTypeImageManifest
  body := 0
  checked := ⟨[.sha256 1, .sha256 2], [], none, .plain "", [.sha256 2]⟩
  hashes := rfl
  accepted := rfl

def emptyRepo : Repo ℕ where
  files := { id := "", index := none, record := none }
  indexModTime := 0
  blobs := []
  temps := []
  sessions := []
  unknown := 0
  blobs_nodup := by decide
  blobs_parse := by decide

def demoContents : Contents where
  blobs := [⟨.sha256 0, 1, 0⟩, ⟨.sha256 3, 1, 0⟩, ⟨.sha256 2, 1, 0⟩, ⟨.sha256 1, 1, 0⟩]
  temps := []
  sessions := []
  unknown := 0
  indexModTime := 0
  blobs_nodup := by decide
  blobs_parse := by decide

def demoOps : List (Op demoSweepEnv) :=
  [.commit (.sha256 1) 1, .commit (.sha256 2) 2, .commit (.sha256 3) 3, .putBody demoPut,
    .putIndex 0 [] 6, .tick 100, .sweepList demoContents, .sweepRead (.sha256 0), .sweepMark,
    .sweepApply (fun _ => false) 10]

/-- The sweep takes the stray blob and leaves the image whole. -/
theorem demo_rows_comply : ∃ world : World demoSweepEnv,
    world.repo.rows.length = 1 ∧ world.repo.blobs.length = 3 ∧ world.written.length = 1 ∧
      RowsComply world := by
  have hends : (demoOps.foldlM (step demoSweepEnv) (startWorld demoSweepEnv emptyRepo 0)).map
      (fun world => (world.repo.rows.length, world.repo.blobs.length, world.written.length)) =
        some (1, 3, 1) := by
    rfl
  obtain ⟨world, hfold, hcounts⟩ := Option.map_eq_some_iff.1 hends
  have hguard : ∀ op ∈ demoOps, ∀ state, followsConfigs demoSweepEnv state op := by
    intro op hop state
    simp only [demoOps, mem_cons, not_mem_nil, or_false] at hop
    rcases hop with rfl | rfl | rfl | rfl | rfl | rfl | rfl | rfl | rfl | rfl
    case inr.inr.inr.inl =>
      right
      intro refs manifest hrefs hmanifest
      cases hrefs
      cases hmanifest
      rfl
    all_goals trivial
  have hcomply := rows_comply_of_run emptyRepo 0 ((run_of_foldlM hfold).guarded hguard)
  simp only [Prod.mk.injEq] at hcounts
  exact ⟨world, hcounts.1, hcounts.2.1, hcounts.2.2, hcomply⟩

/-! ## A config the collector does not see -/

/-- Body 0 gives its config three times: a descriptor, null, and a descriptor
without a digest.  Body 1 is the config. -/
def splitCodec : Codec ℕ where
  len := fun _ => 1
  json := fun
    | 0 => some (.obj [(.schemaVersion, .int 2), (.mediaType, .str mediaTypeImageManifest),
        (.config, .obj [(.digest, .str (.sha256 1)), (.size, .int 1)]),
        (.config, .null), (.config, .obj [(.size, .int 1)]), (.layers, .arr [])])
    | _ => none
  tokens := fun
    | 0 => [mediaTypeImageManifest, .sha256 1]
    | _ => []
  sha256 := id
  sha512 := id
  sha256_injective := Function.injective_id
  sha512_injective := Function.injective_id
  artifactType := fun artifact config => if artifact = .plain "" then config else artifact

def splitEnv : Env ℕ := { demoSweepEnv with codec := splitCodec }

/-- The server takes the first descriptor for the config. -/
def splitPut : Put splitCodec where
  tag := some "v1"
  digest := .sha256 0
  mediaType := mediaTypeImageManifest
  body := 0
  checked := ⟨[.sha256 1], [], none, .plain "", []⟩
  hashes := rfl
  accepted := rfl

/-- The listing of the repository with the config and the body. -/
def splitContents : Contents where
  blobs := [⟨.sha256 0, 1, 0⟩, ⟨.sha256 1, 1, 0⟩]
  temps := []
  sessions := []
  unknown := 0
  indexModTime := 0
  blobs_nodup := by decide
  blobs_parse := by decide

/-- The image is pushed, and swept once the grace has passed. -/
def splitOps : List (Op splitEnv) :=
  [.commit (.sha256 1) 1, .putBody splitPut, .putIndex 0 [] 6, .tick 100,
    .sweepList splitContents, .sweepRead (.sha256 0), .sweepMark,
    .sweepApply (fun _ => false) 10]

def lacksNeed {env : Env Bytes} (world : World env) : Bool :=
  world.repo.rows.any fun row => world.written.any fun put =>
    row.digest == put.digest && row.mediaType == put.mediaType &&
      put.checked.needs.any fun need => (world.repo.find need).isNone

theorem not_comply_of_lacksNeed {env : Env Bytes} {world : World env}
    (hlacks : lacksNeed world = true) : ¬ RowsComply world := by
  intro hcomply
  simp only [lacksNeed, any_eq_true, Bool.and_eq_true, beq_iff_eq] at hlacks
  obtain ⟨row, hrow, put, hput, ⟨hdigest, hmedia⟩, need, hneed, hnone⟩ := hlacks
  have hholds := (hcomply row hrow put hput hdigest hmedia).2 need hneed
  rw [← find_isSome_iff] at hholds
  rw [Option.isNone_iff_eq_none] at hnone
  simp [hnone] at hholds

theorem split_config_reaped : ∃ world, Run (fun world op next => step splitEnv world op = some next)
    (startWorld splitEnv emptyRepo 0) splitOps world ∧ ¬ RowsComply world := by
  have hends : (splitOps.foldlM (step splitEnv) (startWorld splitEnv emptyRepo 0)).map
      lacksNeed = some true := by
    rfl
  obtain ⟨world, hfold, hlacks⟩ := Option.map_eq_some_iff.1 hends
  exact ⟨world, run_of_foldlM hfold, not_comply_of_lacksNeed hlacks⟩

end K3sm.Registry.Gc
