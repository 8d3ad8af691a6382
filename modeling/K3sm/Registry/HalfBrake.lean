import K3sm.Registry.SweepCrash

/-!
# What the half brake lets through

A plan goes on when it reaps at most half of the blobs that count, when it leaves no row and every
blob it reaps predates index.json, or when nobody has written to a repository without rows since
the abandon horizon.
-/

namespace K3sm.Registry.Gc

open List

variable {Bytes : Type}

section Rules

variable (plan : Plan) (rows : List Row) (contents : Contents) (reads : Reads)

def LeavesNoRow : Prop := ∀ row ∈ rows, row.tagged = false ∧ row.digest ∈ plan.rows

def ReadsUnverified : Prop := ∃ read ∈ reads, read.2.present = true ∧ read.2.unverified = true

def Described (digest : Digest) : Prop :=
  (∃ row ∈ rows, row.digest = digest) ∨
    ∃ read ∈ reads, read.2.present = true ∧ (digest = read.1 ∨ digest ∈ read.2.named)

instance : Decidable (LeavesNoRow plan rows) :=
  inferInstanceAs (Decidable (∀ row ∈ rows, row.tagged = false ∧ row.digest ∈ plan.rows))

instance : Decidable (ReadsUnverified reads) :=
  inferInstanceAs (Decidable (∃ read ∈ reads, read.2.present = true ∧ read.2.unverified = true))

instance : DecidablePred (Described rows reads) := fun digest =>
  inferInstanceAs (Decidable ((∃ row ∈ rows, row.digest = digest) ∨
    ∃ read ∈ reads, read.2.present = true ∧ (digest = read.1 ∨ digest ∈ read.2.named)))

/-- The blobs that count: all of them when no row would remain or a body could not be
verified, and else those of the kind. -/
def countedBlobs (kind : Digest → Prop) [DecidablePred kind] : List Blob :=
  contents.blobs.filter fun blob =>
    LeavesNoRow plan rows ∨ ReadsUnverified reads ∨ kind blob.digest

def ReapsHalf (kind : Digest → Prop) [DecidablePred kind] : Prop :=
  2 * ((countedBlobs plan rows contents reads kind).filter (·.digest ∈ plan.blobs)).length ≤
    (countedBlobs plan rows contents reads kind).length

/-- No row would remain, and every blob that is reaped was written before index.json. -/
def EmptiesOlder : Prop :=
  LeavesNoRow plan rows ∧
    ∀ blob ∈ contents.blobs, blob.digest ∈ plan.blobs → blob.modTime < contents.indexModTime

def Abandoned (horizon : Time) : Prop :=
  rows = [] ∧ contents.indexModTime ≤ horizon ∧
    (∀ blob ∈ contents.blobs, blob.modTime ≤ horizon) ∧
    ∀ session ∈ contents.sessions, session.modTime ≤ horizon

end Rules

variable {plan final : Plan} {rows : List Row} {contents : Contents} {reads : Reads}

theorem removesEveryRow_iff : removesEveryRow plan rows = true ↔ LeavesNoRow plan rows := by
  simp [removesEveryRow, LeavesNoRow]

theorem describedWhole_iff : describedWhole reads = false ↔ ReadsUnverified reads := by
  rw [describedWhole, all_eq_false]
  simp [ReadsUnverified]

theorem mem_described_iff {digest : Digest} :
    digest ∈ described rows reads ↔ Described rows reads digest := by
  simp [described, Described, and_assoc]

theorem abandoned_iff {horizon : Time} :
    abandoned rows contents horizon = true ↔ Abandoned rows contents horizon := by
  simp [abandoned, Abandoned, and_assoc]

theorem length_reaped_le (plan : Plan) (contents : Contents) :
    (contents.blobs.filter fun blob => blob.digest ∈ plan.blobs).length ≤ plan.blobs.length := by
  have hnodup : ((contents.blobs.filter fun blob => blob.digest ∈ plan.blobs).map
      Blob.digest).Nodup :=
    contents.blobs_nodup.sublist (List.Sublist.map _ filter_sublist)
  have hsubset : ((contents.blobs.filter fun blob => blob.digest ∈ plan.blobs).map
      Blob.digest) ⊆ plan.blobs := by
    intro digest hdigest
    obtain ⟨blob, hblob, rfl⟩ := mem_map.1 hdigest
    simpa using (mem_filter.1 hblob).2
  have hlength := (hnodup.subperm hsubset).length_le
  rwa [length_map] at hlength

theorem reapsHalf_of_counted
    (hhalf : 2 * (counted plan rows contents reads).1 ≤ (counted plan rows contents reads).2) :
    ReapsHalf plan rows contents reads (Described rows reads) := by
  unfold ReapsHalf
  unfold counted at hhalf
  split at hhalf
  case isTrue hall =>
    have hcounts : countedBlobs plan rows contents reads (Described rows reads) =
        contents.blobs := by
      rw [countedBlobs, filter_eq_self]
      intro blob _
      rw [removesEveryRow_iff, describedWhole_iff] at hall
      exact decide_eq_true (hall.imp_right .inl)
    rw [hcounts]
    have hreaped := length_reaped_le plan contents
    dsimp only at hhalf
    omega
  rename_i hsome
  have hcounts : countedBlobs plan rows contents reads (Described rows reads) =
      contents.blobs.filter (·.digest ∈ described rows reads) := by
    apply filter_congr
    intro blob _
    rw [removesEveryRow_iff, describedWhole_iff, not_or] at hsome
    rw [decide_eq_decide, mem_described_iff]
    simp [hsome.1, hsome.2]
  rw [hcounts]
  exact hhalf

theorem emptiesOlder_of_emptying (hempty : emptying plan rows contents = true) :
    EmptiesOlder plan rows contents := by
  rw [emptying, Bool.and_eq_true, removesEveryRow_iff, all_eq_true] at hempty
  refine ⟨hempty.1, ?_⟩
  intro blob hblob hreaped
  simpa [hreaped] using hempty.2 blob hblob

theorem emptiesOlder_of_leaveNewerOut (hleft : leaveNewerOut plan rows contents = some final) :
    EmptiesOlder final rows contents := by
  unfold leaveNewerOut at hleft
  split_ifs at hleft with hrows
  dsimp only at hleft
  split_ifs at hleft
  obtain rfl := Option.some.inj hleft
  refine ⟨removesEveryRow_iff.1 hrows, ?_⟩
  intro blob hblob hreaped
  have holder := of_decide_eq_true (mem_filter.1 hreaped).2
  by_contra hnewer
  apply holder
  refine mem_map.2 ⟨blob, mem_filter.2 ⟨hblob, ?_⟩, rfl⟩
  simpa using hnewer

/-- A repository without rows whose blobs are all at least as new as its index.json keeps
half of them under every rule but the horizon's. -/
theorem firstPush_reaped {horizon : Time} (hfirst : rows = [])
    (hnewer : ∀ blob ∈ contents.blobs, contents.indexModTime ≤ blob.modTime)
    (hlet : ReapsHalf final rows contents reads (Described rows reads) ∨
      EmptiesOlder final rows contents ∨ Abandoned rows contents horizon)
    (hactive : ¬ Abandoned rows contents horizon) :
    2 * (contents.blobs.filter (·.digest ∈ final.blobs)).length ≤ contents.blobs.length := by
  rcases hlet with hhalf | hempties | habandoned
  · have hcounts : countedBlobs final rows contents reads (Described rows reads) =
        contents.blobs := by
      rw [countedBlobs, filter_eq_self]
      intro blob _
      refine decide_eq_true (.inl ?_)
      rw [hfirst]
      exact nofun
    unfold ReapsHalf at hhalf
    rwa [hcounts] at hhalf
  · have hnone : contents.blobs.filter (·.digest ∈ final.blobs) = [] := by
      rw [filter_eq_nil_iff]
      intro blob hblob hreaped
      exact absurd (hempties.2 blob hblob (of_decide_eq_true hreaped))
        (not_lt.2 (hnewer blob hblob))
    rw [hnone]
    exact Nat.zero_le _
  · exact absurd habandoned hactive

/-- A plan that is let through reaps at most half of the blobs that count, or only blobs older
than an index.json without rows, or is one of an abandoned repository. -/
theorem brake_lets_through {env : Env Bytes} {now : Time}
    (hbrake : brake env now plan rows contents reads = .ok final) :
    (ReapsHalf final rows contents reads (Described rows reads) ∨
        EmptiesOlder final rows contents ∨ Abandoned rows contents (now - env.abandon)) ∧
      (rows = [] → (∀ blob ∈ contents.blobs, contents.indexModTime ≤ blob.modTime) →
        ¬ Abandoned rows contents (now - env.abandon) →
        2 * (contents.blobs.filter (·.digest ∈ final.blobs)).length ≤ contents.blobs.length) := by
  have hlet : ReapsHalf final rows contents reads (Described rows reads) ∨
      EmptiesOlder final rows contents ∨ Abandoned rows contents (now - env.abandon) := by
    unfold brake at hbrake
    dsimp only at hbrake
    split at hbrake
    case isTrue hrule =>
      obtain rfl := Except.ok.inj hbrake
      exact hrule.imp reapsHalf_of_counted (Or.imp emptiesOlder_of_emptying abandoned_iff.1)
    case isFalse =>
      split at hbrake
      case h_2 => cases hbrake
      rename_i left hleft
      obtain rfl := Except.ok.inj hbrake
      exact .inr (.inl (emptiesOlder_of_leaveNewerOut hleft))
  exact ⟨hlet, fun hfirst hnewer hactive => firstPush_reaped hfirst hnewer hlet hactive⟩

/-- The image whose layer was touched goes without the layer. -/
theorem brake_lets_touchedPlan_through :
    brake demoSweepEnv 100 touchedMarked.plan touchedMarked.rows touchedMarked.contents
        touchedMarked.reads = .ok touchedPlan ∧
      (ReapsHalf touchedPlan touchedMarked.rows touchedMarked.contents touchedMarked.reads
          (Described touchedMarked.rows touchedMarked.reads) ∨
        EmptiesOlder touchedPlan touchedMarked.rows touchedMarked.contents ∨
        Abandoned touchedMarked.rows touchedMarked.contents (100 - demoSweepEnv.abandon)) := by
  have hbrake : brake demoSweepEnv 100 touchedMarked.plan touchedMarked.rows
      touchedMarked.contents touchedMarked.reads = .ok touchedPlan := by decide +kernel
  exact ⟨hbrake, (brake_lets_through hbrake).1⟩

/-! ## A body that no row is and no body names -/

def RowOrNamed (rows : List Row) (reads : Reads) (digest : Digest) : Prop :=
  (∃ row ∈ rows, row.digest = digest) ∨
    ∃ read ∈ reads, read.2.present = true ∧ digest ∈ read.2.named

instance (rows : List Row) (reads : Reads) : DecidablePred (RowOrNamed rows reads) := fun digest =>
  inferInstanceAs (Decidable ((∃ row ∈ rows, row.digest = digest) ∨
    ∃ read ∈ reads, read.2.present = true ∧ digest ∈ read.2.named))

/-- Where every body read is a row's or named by another, as in the reads that a mark makes,
nothing else counts. -/
theorem described_iff_rowOrNamed {reads : Reads}
    (hreads : ∀ read ∈ reads, read.2.present = true → RowOrNamed rows reads read.1)
    (digest : Digest) : Described rows reads digest ↔ RowOrNamed rows reads digest := by
  constructor
  · rintro (hrow | ⟨read, hread, hpresent, rfl | hnamed⟩)
    · exact .inl hrow
    · exact hreads read hread hpresent
    · exact .inr ⟨read, hread, hpresent, hnamed⟩
  · rintro (hrow | ⟨read, hread, hpresent, hnamed⟩)
    · exact .inl hrow
    · exact .inr ⟨read, hread, hpresent, .inr hnamed⟩

/-- One tagged row whose body is not there, and two blobs. -/
def strayRows : List Row := [tagRow ⟨mediaTypeImageManifest, .sha256 0, 1⟩ "v1"]

def strayContents : Contents where
  blobs := [⟨.sha256 1, 1, 0⟩, ⟨.sha256 2, 1, 0⟩]
  temps := []
  sessions := []
  unknown := 0
  indexModTime := 0
  blobs_nodup := by decide
  blobs_parse := by decide

/-- A body that no row is and no body names, naming the other blob. -/
def strayReads : Reads := [(.sha256 1, ⟨true, 1, .ok Refs.zero, [.sha256 2]⟩)]

def strayPlan : Plan := ⟨[], [.sha256 2], [], [], [], false⟩

/-- The body counts, though it is no row's and named by none: the plan goes on though it
reaps the one blob that a body names. -/
theorem strayPlan_reaps_all_named :
    brake demoSweepEnv 100 strayPlan strayRows strayContents strayReads = .ok strayPlan ∧
      ¬ (ReapsHalf strayPlan strayRows strayContents strayReads (RowOrNamed strayRows strayReads) ∨
        EmptiesOlder strayPlan strayRows strayContents ∨
        Abandoned strayRows strayContents (100 - demoSweepEnv.abandon)) := by
  refine ⟨by decide +kernel, ?_⟩
  rintro (hhalf | hempties | habandoned)
  · exact absurd hhalf (by unfold ReapsHalf; decide +kernel)
  · exact absurd hempties.1 (by decide)
  · exact absurd habandoned.1 (by decide)

end K3sm.Registry.Gc
