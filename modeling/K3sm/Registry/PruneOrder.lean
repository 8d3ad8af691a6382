import K3sm.Registry.ManifestFollow
import K3sm.Registry.PruneRace

/-!
# The order of a prune

The server refuses to delete a manifest while an index row names it.  A plan lists the manifests
that name others before those that do not, both in the order of their rows, so an index that
another deleted index names goes through only where the other one's row stands before its own.
-/

namespace K3sm.Registry.Prune

open K3sm.Core List
open K3sm.Registry.Gc (Time bodyMembers sliceStep decodeIndex_members)

variable {Bytes State : Type}

/-- The DELETEs of a plan, each conditional on the state it finds: none where one is refused. -/
def deleteAll [DecidableEq State] (env : Env Bytes State) (blob : Digest → Option (BlobFile Bytes))
    (rows : List Row) (digests : List Digest) : Option (List Row) :=
  digests.foldlM (fun rows digest => deleteIfMatch env blob rows digest (env.indexState rows)) rows

/-- The children of every index row can be read. -/
def IndexesReadable (codec : Codec Bytes) (blob : Digest → Option (BlobFile Bytes))
    (rows : List Row) : Prop :=
  ∀ row ∈ rows, isIndexType row.mediaType = true → (indexChildren codec blob row).isSome

def Names (rows : List Row) (read : Digest → Option (Links × Time)) (outer inner : Digest) : Prop :=
  (∃ row ∈ rows, row.digest = outer ∧ isIndexType row.mediaType = true) ∧
    inner ∈ (linksOf read outer).children

/-- The manifest is in no need of being kept: a set without it has the tagged and the young
ones, and is closed. -/
def Prunable (rows : List Row) (read : Digest → Option (Links × Time)) (now : Time)
    (digest : Digest) : Prop :=
  digest ∈ order rows ∧ ∃ kept, KeepClosed rows read now kept ∧ digest ∉ kept

/-- Of two prunable manifests with children, one that names the other has its first row
before the other's. -/
def NestedInOrder (rows : List Row) (read : Digest → Option (Links × Time)) (now : Time) : Prop :=
  ∀ outer inner, Prunable rows read now outer → Prunable rows read now inner → outer ≠ inner →
    Names rows read outer inner → (linksOf read inner).children ≠ [] →
    (order rows).idxOf outer < (order rows).idxOf inner

theorem decodeLinks_members {codec : Codec Bytes} {body : Bytes} {links : Links}
    (hlinks : (codec.json body).bind decodeLinks = some links) :
    links.manifests = ((bodyMembers codec body).foldlM (sliceStep .manifests) none).getD none := by
  obtain ⟨value, hvalue, hdecode⟩ := Option.bind_eq_some_iff.1 hlinks
  cases value with
  | null =>
    simp only [decodeLinks, Option.some.injEq] at hdecode
    simp [bodyMembers, hvalue, ← hdecode, Links.zero]
  | obj members =>
    simp only [decodeLinks] at hdecode
    simp only [bodyMembers, hvalue]
    have hstep : ∀ before member after, decodeLinksMember before member = some after →
        sliceStep .manifests before.manifests member = some after.manifests := by
      rintro before ⟨key, value⟩ after hstep
      cases key <;>
        simp only [decodeLinksMember, Option.map_eq_some_iff, Option.some.injEq] at hstep <;>
        first
          | (obtain ⟨decoded, hdecoded, rfl⟩ := hstep; simp [sliceStep, hdecoded])
          | (subst hstep; simp [sliceStep])
    have hmanifests := foldlM_project Links.manifests (sliceStep .manifests) hstep hdecode
    exact congrArg (fun decoded => decoded.getD none) hmanifests.symm
  | _ => simp [decodeLinks] at hdecode

section Server

variable {codec : Codec Bytes} {blob : Digest → Option (BlobFile Bytes)} {rows : List Row}

theorem indexChildren_eq {row : Row} {children : List Digest}
    (hread : (readManifest codec rows blob row.digest).isSome = true)
    (hchildren : indexChildren codec blob row = some children) :
    children = (linksOf (readManifest codec rows blob) row.digest).children := by
  obtain ⟨⟨links, modTime⟩, hlinks⟩ := Option.isSome_iff_exists.1 hread
  rw [linksOf_eq hlinks]
  unfold readManifest at hlinks
  unfold indexChildren at hchildren
  obtain ⟨body, hbody, hlinks⟩ := Option.bind_eq_some_iff.1 hlinks
  obtain ⟨decoded, hdecoded, hlinks⟩ := Option.bind_eq_some_iff.1 hlinks
  obtain ⟨file, hfile, hpair⟩ := Option.bind_eq_some_iff.1 hlinks
  obtain ⟨rfl, -⟩ := Prod.mk.inj (Option.some.inj hpair)
  obtain ⟨other, hother, hchildren⟩ := Option.bind_eq_some_iff.1 hchildren
  obtain ⟨index, hindex, hlist⟩ := Option.bind_eq_some_iff.1 hchildren
  obtain rfl : body = other := by
    have hsame := (storeManifest_body hbody).symm.trans (storeManifest_body hother)
    exact Option.some.inj hsame
  rw [← Option.some.inj hlist, Links.children, decodeLinks_members hdecoded,
    decodeIndex_members hindex]

variable {present : List Row} {digest : Digest}

theorem notNamedByIndex_iff
    (hread : ∀ row ∈ present, (readManifest codec rows blob row.digest).isSome = true)
    (hindexes : IndexesReadable codec blob present) :
    notNamedByIndex codec blob present digest = true ↔
      ∀ outer, outer ≠ digest → ¬ Names present (readManifest codec rows blob) outer digest := by
  unfold notNamedByIndex
  rw [all_eq_true]
  have hfound : ∀ outer, outer ≠ digest →
      (∃ row ∈ present, row.digest = outer ∧ isIndexType row.mediaType = true) →
      ∃ row, (present.filter fun row => isIndexType row.mediaType && row.digest != digest).find?
          (·.digest == outer) = some row ∧
        indexChildren codec blob row =
          some (linksOf (readManifest codec rows blob) outer).children := by
    rintro outer hother ⟨row, hrow, rfl, hindex⟩
    have hmem : row ∈ present.filter fun row =>
        isIndexType row.mediaType && row.digest != digest := by
      rw [mem_filter]
      exact ⟨hrow, by simp [hindex, hother]⟩
    have hsome :
      ((present.filter fun row => isIndexType row.mediaType && row.digest != digest).find?
        (·.digest == row.digest)).isSome = true := by
      rw [List.find?_isSome]
      exact ⟨row, hmem, beq_self_eq_true row.digest⟩
    obtain ⟨found, hfound⟩ := Option.isSome_iff_exists.1 hsome
    have hsame : found.digest = row.digest := by
      have htest := List.find?_some hfound
      exact beq_iff_eq.1 htest
    obtain ⟨hpresent, htype⟩ := mem_filter.1 (mem_of_find?_eq_some hfound)
    obtain ⟨children, hchildren⟩ := Option.isSome_iff_exists.1
      (hindexes found hpresent (Bool.and_eq_true_iff.1 htype).1)
    refine ⟨found, hfound, ?_⟩
    rw [hchildren, indexChildren_eq (hread found hpresent) hchildren, hsame]
  constructor
  · rintro hall outer hother ⟨hrow, hchild⟩
    obtain ⟨row, hfind, hchildren⟩ := hfound outer hother hrow
    have hsame : row.digest = outer := by
      have htest := List.find?_some hfind
      exact beq_iff_eq.1 htest
    have hmem := mem_map_of_mem (f := fun row : Row => row.digest) (mem_of_find?_eq_some hfind)
    have hcheck := hall row.digest (mem_eraseDups.2 hmem)
    rw [hsame, hfind] at hcheck
    simp only [hchildren, decide_eq_true_eq] at hcheck
    exact hcheck hchild
  intro hnot outer houter
  obtain ⟨row, hrow, rfl⟩ := mem_map.1 (mem_eraseDups.1 houter)
  obtain ⟨hpresent, htype⟩ := mem_filter.1 hrow
  obtain ⟨hindex, hother⟩ := Bool.and_eq_true_iff.1 htype
  have hexists : ∃ other ∈ present, other.digest = row.digest ∧
    isIndexType other.mediaType = true :=
    ⟨row, hpresent, rfl, hindex⟩
  obtain ⟨found, hfind, hchildren⟩ := hfound row.digest (bne_iff_ne.1 hother) hexists
  rw [hfind]
  simp only [hchildren, decide_eq_true_eq]
  exact fun hchild => hnot row.digest (bne_iff_ne.1 hother) ⟨hexists, hchild⟩

theorem names_filter {read : Digest → Option (Links × Time)} {outer inner : Digest} :
    Names (present.filter (·.digest != digest)) read outer inner ↔
      outer ≠ digest ∧ Names present read outer inner := by
  unfold Names
  constructor
  · rintro ⟨⟨row, hrow, rfl, hindex⟩, hchild⟩
    obtain ⟨hpresent, hother⟩ := mem_filter.1 hrow
    exact ⟨bne_iff_ne.1 hother, ⟨row, hpresent, rfl, hindex⟩, hchild⟩
  · rintro ⟨hother, ⟨row, hrow, rfl, hindex⟩, hchild⟩
    exact ⟨⟨row, mem_filter.2 ⟨hrow, bne_iff_ne.2 hother⟩, rfl, hindex⟩, hchild⟩

end Server

section Deletes

variable [DecidableEq State] {env : Env Bytes State} {blob : Digest → Option (BlobFile Bytes)}
  {rows present : List Row} {digests : List Digest}

theorem deleteIfMatch_isSome {digest : Digest} (hlisted : digest ∈ order present)
    (huntagged : isTagged present digest = false) :
    deleteIfMatch env blob present digest (env.indexState present) =
      if notNamedByIndex env.toCodec blob present digest = true then
        some (present.filter (·.digest != digest))
      else none := by
  obtain ⟨row, hrow, rfl⟩ := mem_order.1 hlisted
  have hany : present.any (·.digest == row.digest) = true :=
    any_eq_true.2 ⟨row, hrow, beq_self_eq_true row.digest⟩
  unfold deleteIfMatch deleteDigest
  rw [hany, huntagged]
  cases notNamedByIndex env.toCodec blob present row.digest <;> simp

/-- What is true of the rows while the deletes go on: those to be deleted are there and not
tagged, and the others name none of them. -/
structure Deletable (read : Digest → Option (Links × Time)) (present : List Row)
    (digests : List Digest) : Prop where
  nodup : digests.Nodup
  listed : ∀ digest ∈ digests, digest ∈ order present
  untagged : ∀ digest ∈ digests, isTagged present digest = false
  safe : ∀ outer, outer ∉ digests → ∀ digest ∈ digests, ¬ Names present read outer digest

theorem Deletable.tail {read : Digest → Option (Links × Time)} {digest : Digest}
    (hdeletable : Deletable read present (digest :: digests)) :
    Deletable read (present.filter (·.digest != digest)) digests := by
  obtain ⟨hnew, hnodup⟩ := nodup_cons.1 hdeletable.nodup
  refine ⟨hnodup, ?_, ?_, ?_⟩
  · intro other hother
    obtain ⟨row, hrow, rfl⟩ := mem_order.1 (hdeletable.listed other (mem_cons_of_mem _ hother))
    refine mem_order.2 ⟨row, mem_filter.2 ⟨hrow, bne_iff_ne.2 ?_⟩, rfl⟩
    rintro rfl
    exact hnew hother
  · intro other hother
    have huntagged := hdeletable.untagged other (mem_cons_of_mem _ hother)
    rw [Bool.eq_false_iff] at huntagged ⊢
    intro htagged
    obtain ⟨row, hrow, hdigest, htag⟩ := isTagged_iff.1 htagged
    exact huntagged (isTagged_iff.2 ⟨row, (mem_filter.1 hrow).1, hdigest, htag⟩)
  · intro outer houter other hother hnames
    obtain ⟨hne, hnames⟩ := names_filter.1 hnames
    refine hdeletable.safe outer ?_ other (mem_cons_of_mem _ hother) hnames
    rw [mem_cons, not_or]
    exact ⟨hne, houter⟩

theorem deleteAll_isSome_iff
    (hread : ∀ row ∈ present, (readManifest env.toCodec rows blob row.digest).isSome = true)
    (hindexes : IndexesReadable env.toCodec blob present)
    (hdeletable : Deletable (readManifest env.toCodec rows blob) present digests) :
    (deleteAll env blob present digests).isSome = true ↔
      digests.Pairwise fun earlier later =>
        ¬ Names present (readManifest env.toCodec rows blob) later earlier := by
  induction digests generalizing present with
  | nil => simp [deleteAll]
  | cons digest digests ih =>
    have hfirst := @deleteIfMatch_isSome _ _ _ env blob present digest
      (hdeletable.listed digest mem_cons_self) (hdeletable.untagged digest mem_cons_self)
    have hsub : ∀ row ∈ present.filter (·.digest != digest), row ∈ present :=
      fun row hrow => (mem_filter.1 hrow).1
    have hrest := ih (fun row hrow => hread row (hsub row hrow))
      (fun row hrow => hindexes row (hsub row hrow)) hdeletable.tail
    obtain ⟨hnew, -⟩ := nodup_cons.1 hdeletable.nodup
    have hlater : (∀ outer, outer ≠ digest →
        ¬ Names present (readManifest env.toCodec rows blob) outer digest) ↔
        ∀ later ∈ digests, ¬ Names present (readManifest env.toCodec rows blob) later digest := by
      constructor
      · intro hnot later hlater
        refine hnot later ?_
        rintro rfl
        exact hnew hlater
      · intro hnot outer hother
        by_cases houter : outer ∈ digests
        · exact hnot outer houter
        refine hdeletable.safe outer ?_ digest mem_cons_self
        rw [mem_cons, not_or]
        exact ⟨hother, houter⟩
    have hpairs : (digests.Pairwise fun earlier later =>
        ¬ Names (present.filter (·.digest != digest)) (readManifest env.toCodec rows blob) later
          earlier) ↔ digests.Pairwise fun earlier later =>
        ¬ Names present (readManifest env.toCodec rows blob) later earlier := by
      refine List.Pairwise.iff_of_mem ?_
      intro earlier later _ hmem
      have hne : later ≠ digest := by
        rintro rfl
        exact hnew hmem
      rw [names_filter]
      simp [hne]
    rw [pairwise_cons, ← hlater, ← notNamedByIndex_iff hread hindexes, ← hpairs, ← hrest]
    unfold deleteAll
    rw [foldlM_cons, hfirst]
    cases notNamedByIndex env.toCodec blob present digest <;> simp

end Deletes

/-! ## The order of the plan -/

theorem pairwise_idxOf {Value : Type} [DecidableEq Value] {values : List Value}
    (hnodup : values.Nodup) :
    values.Pairwise fun left right => values.idxOf left < values.idxOf right := by
  rw [pairwise_iff_getElem]
  intro left right hleft hright hlt
  rw [hnodup.idxOf_getElem left hleft, hnodup.idxOf_getElem right hright]
  exact hlt

theorem pairwise_iff_idxOf {Value : Type} [DecidableEq Value] {values part : List Value}
    {related : Value → Value → Prop} (hnodup : values.Nodup) (hpart : part.Sublist values) :
    part.Pairwise related ↔ ∀ left ∈ part, ∀ right ∈ part,
      values.idxOf left < values.idxOf right → related left right := by
  have hsorted := (pairwise_idxOf hnodup).sublist hpart
  constructor
  · intro hpairs
    refine List.Pairwise.forall_of_forall_of_flip
      (fun value _ hlt => absurd hlt (lt_irrefl _)) ?_ ?_
    · exact List.Pairwise.imp (fun hrelated => fun _ => hrelated) hpairs
    · exact List.Pairwise.imp (fun hlt => fun hflip => absurd hlt hflip.asymm) hsorted
  · intro hall
    refine hsorted.imp_of_mem ?_
    intro left right hleft hright hlt
    exact hall left hleft right hright hlt

section Plan

variable {rows : List Row} {read : Digest → Option (Links × Time)} {now : Time} {digest : Digest}

theorem prunable_iff (hreadable : Readable rows read) :
    Prunable rows read now digest ↔ digest ∈ deletions rows read now := by
  unfold Prunable
  rw [mem_deletions]
  refine and_congr_right fun _ => ?_
  constructor
  · rintro ⟨kept, hclosed, hnot⟩ hmem
    exact hnot ((keepAll_isLeast hreadable).2 hclosed hmem)
  · intro hnot
    exact ⟨_, keepAll_closed, hnot⟩

theorem deletions_deletable : Deletable read rows (deletions rows read now) := by
  refine ⟨?_, fun digest hdigest => (mem_deletions.1 hdigest).1, ?_, ?_⟩
  · unfold deletions
    dsimp only
    rw [nodup_append']
    have hnodup : (order rows).Nodup := eraseDups_nodup _
    refine ⟨(hnodup.filter _).filter _, (hnodup.filter _).filter _, ?_⟩
    intro digest hleft hright
    have hsome := (mem_filter.1 hleft).2
    have hnone := (mem_filter.1 hright).2
    rw [bne_iff_ne] at hsome
    exact hsome (beq_iff_eq.1 hnone)
  · intro digest hdigest
    obtain ⟨hlisted, hnot⟩ := mem_deletions.1 hdigest
    rw [Bool.eq_false_iff]
    intro htagged
    exact hnot (seed_mem_keepAll hlisted (by simp [htagged]))
  · rintro outer houter digest hdigest ⟨⟨row, hrow, rfl, -⟩, hchild⟩
    obtain ⟨hlisted, hnot⟩ := mem_deletions.1 hdigest
    have hkept : row.digest ∈ (keepAll rows read now).map Prod.fst := by
      by_contra hgone
      exact houter (mem_deletions.2 ⟨row_mem_order hrow, hgone⟩)
    exact hnot (child_mem_keepAll (row_mem_order hrow) hkept hchild hlisted)

def gone (rows : List Row) (read : Digest → Option (Links × Time)) (now : Time) : List Digest :=
  (order rows).filter fun digest =>
    !isTagged rows digest && !Kept.has (keepAll rows read now) digest

theorem deletions_eq : deletions rows read now =
    (gone rows read now).filter (fun digest => (linksOf read digest).children != []) ++
      (gone rows read now).filter (fun digest => (linksOf read digest).children == []) :=
  rfl

theorem mem_gone : digest ∈ gone rows read now ↔ digest ∈ deletions rows read now := by
  rw [deletions_eq, mem_append, mem_filter, mem_filter, ← and_or_left, bne_iff_ne, beq_iff_eq]
  exact (and_iff_left (ne_or_eq _ _)).symm

theorem deletions_pairwise_iff (hreadable : Readable rows read) :
    ((deletions rows read now).Pairwise fun earlier later => ¬ Names rows read later earlier) ↔
      NestedInOrder rows read now := by
  have hnodup : (order rows).Nodup := eraseDups_nodup _
  have hfirst : ((gone rows read now).filter
      (fun digest => (linksOf read digest).children != [])).Sublist (order rows) :=
    filter_sublist.trans filter_sublist
  have hmem : ∀ digest, digest ∈ (gone rows read now).filter
      (fun digest => (linksOf read digest).children != []) ↔
      Prunable rows read now digest ∧ (linksOf read digest).children ≠ [] := by
    intro digest
    rw [mem_filter, mem_gone, prunable_iff hreadable, bne_iff_ne]
  have hchildless : ∀ later ∈ (gone rows read now).filter
      (fun digest => (linksOf read digest).children == []), ∀ earlier,
        ¬ Names rows read later earlier := by
    rintro later hlater earlier ⟨-, hchild⟩
    rw [beq_iff_eq.1 (mem_filter.1 hlater).2] at hchild
    exact not_mem_nil hchild
  rw [deletions_eq, pairwise_append, pairwise_iff_idxOf hnodup hfirst]
  constructor
  · rintro ⟨hpairs, -, -⟩ outer inner houter hinner hne hnames hchildren
    have hnonempty : (linksOf read outer).children ≠ [] := ne_nil_of_mem hnames.2
    have hnot := hpairs inner ((hmem inner).2 ⟨hinner, hchildren⟩) outer
      ((hmem outer).2 ⟨houter, hnonempty⟩)
    have hdistinct : (order rows).idxOf outer ≠ (order rows).idxOf inner :=
      fun hsame => hne ((idxOf_inj houter.1).1 hsame)
    have hle := not_lt.1 fun hlt => hnot hlt hnames
    omega
  intro hnested
  refine ⟨?_, ?_, fun earlier _ later hlater => hchildless later hlater earlier⟩
  · intro inner hinner outer houter hlt hnames
    obtain ⟨hinner, hchildren⟩ := (hmem inner).1 hinner
    obtain ⟨houter, -⟩ := (hmem outer).1 houter
    have hne : outer ≠ inner := by
      rintro rfl
      exact absurd hlt (lt_irrefl _)
    exact absurd (hnested outer inner houter hinner hne hnames hchildren) hlt.asymm
  · refine pairwise_of_forall_mem_list ?_
    exact fun earlier _ later hlater => hchildless later hlater earlier

end Plan

/-- The DELETEs of a plan of a readable repository all go through, in the order of the plan,
exactly when every prunable index stands before the prunable indexes it names. -/
theorem plan_accepted_iff [DecidableEq State] (env : Env Bytes State) (repo : Repository Bytes)
    (now : Time) (rows : List Row) (hindex : repo.index = .ok rows)
    (hreadable : Readable rows (readManifest env.toCodec rows repo.blob))
    (hindexes : IndexesReadable env.toCodec repo.blob rows) :
    (deleteAll env repo.blob rows
        ((planRepository env repo now).plan.delete.map StoredManifest.digest)).isSome = true ↔
      NestedInOrder rows (readManifest env.toCodec rows repo.blob) now := by
  have hplan : (planRepository env repo now).plan.delete.map StoredManifest.digest =
      deletions rows (readManifest env.toCodec rows repo.blob) now := by
    unfold planRepository
    rw [hindex]
    dsimp only
    rw [planIndex_readable hreadable, planRows_readable hreadable, map_map]
    refine map_id'' ?_ _
    exact fun digest => stored_digest digest
  rw [hplan, deleteAll_isSome_iff (fun row hrow => (hreadable row hrow).2) hindexes
    deletions_deletable, deletions_pairwise_iff hreadable]

/-- Bodies are numbers: 1 is an index of 2, and 5 one of 1. -/
def nestedEnv : Env ℕ (List Row) :=
  { demoEnv with
    json := fun body =>
      match body with
      | 5 => some (.obj [(.manifests, .arr [.obj [(.digest, .str (.sha256 1))]])])
      | body => some (demoLinks body) }

def indexRow (body : ℕ) : Row := { demoRow body body none with mediaType := mediaTypeImageIndex }

/-- The rows of three pushes, each of what the next one names. -/
def pushedRows : List Row := [demoRow 2 2 none, indexRow 1, indexRow 5]

/-- Every manifest can be read, and the first DELETE of the plan is refused. -/
theorem pushed_plan_refused :
    (Readable pushedRows (readManifest nestedEnv.toCodec pushedRows (demoRepo pushedRows).blob) ∧
      IndexesReadable nestedEnv.toCodec (demoRepo pushedRows).blob pushedRows) ∧
    ¬ (deleteAll nestedEnv (demoRepo pushedRows).blob pushedRows
      ((planRepository nestedEnv (demoRepo pushedRows) (2 * pruneGrace)).plan.delete.map
        StoredManifest.digest)).isSome = true := by
  unfold Readable IndexesReadable
  decide

/-- With the rows the other way round the plan goes through. -/
theorem reversed_plan_accepted :
    (deleteAll nestedEnv (demoRepo pushedRows.reverse).blob pushedRows.reverse
      ((planRepository nestedEnv (demoRepo pushedRows.reverse) (2 * pruneGrace)).plan.delete.map
        StoredManifest.digest)).isSome = true ∧
    NestedInOrder pushedRows.reverse (readManifest nestedEnv.toCodec pushedRows.reverse
      (demoRepo pushedRows.reverse).blob) (2 * pruneGrace) := by
  have haccepted : (deleteAll nestedEnv (demoRepo pushedRows.reverse).blob pushedRows.reverse
      ((planRepository nestedEnv (demoRepo pushedRows.reverse) (2 * pruneGrace)).plan.delete.map
        StoredManifest.digest)).isSome = true := by
    decide
  refine ⟨haccepted, (plan_accepted_iff nestedEnv (demoRepo pushedRows.reverse) (2 * pruneGrace)
    pushedRows.reverse rfl ?_ ?_).1 haccepted⟩
  · unfold Readable
    decide
  · unfold IndexesReadable
    decide

end K3sm.Registry.Prune
