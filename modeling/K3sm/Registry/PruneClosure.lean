import K3sm.Core.Saturate
import K3sm.Registry.Plan

/-!
# What a prune keeps

`k3sm image prune` plans the deletion of the untagged manifests that nothing kept depends on.  A
kept index keeps its children and a kept manifest its referrers, so the plan goes over the
manifests until a whole round keeps nothing new: it keeps the least such set that has the tagged
and the young ones, and everything where a manifest could not be read.
-/

namespace K3sm.Registry.Prune

open K3sm.Core
open K3sm.Registry.Gc (Time maxManifestSize)

variable {Bytes State : Type}

def pruneGrace : ℤ := 3600 * 10 ^ 9

inductive KeepReason where
  | childOfKept
  | referrer
  | recent
  | unreadable
  | taggedSincePlan
  | goneSincePlan
  | changedSincePlan
  deriving DecidableEq

structure StoredManifest where
  repository : String
  digest : Digest
  mediaType : Text
  size : ℤ
  deriving DecidableEq

structure KeptManifest extends StoredManifest where
  reason : KeepReason
  deriving DecidableEq

structure PrunePlan where
  delete : List StoredManifest
  kept : List KeptManifest
  unreadable : List String
  deriving DecidableEq

structure Links where
  manifests : Option Slice
  subject : Option Descriptor
  deriving DecidableEq

def Links.zero : Links := ⟨none, none⟩

def Links.children (links : Links) : List Digest :=
  (sliceElements links.manifests).map Descriptor.digest

def decodeLinksMember (current : Links) : Key × Json → Option Links
  | (.manifests, value) =>
    (decodeSlice current.manifests value).map fun manifests =>
      { current with manifests := manifests }
  | (.subject, value) =>
    (decodePointer current.subject value).map fun subject =>
      { current with subject := subject }
  | _ => some current

def decodeLinks : Json → Option Links
  | .null => some Links.zero
  | .obj members => members.foldlM decodeLinksMember Links.zero
  | _ => none

structure BlobFile (Bytes : Type) where
  body : Bytes
  modTime : Time

inductive IndexError where
  | absent
  | unreadable
  deriving DecidableEq

/-- A repository as the store's reader sees it.  A blob that cannot be opened as a regular
file is none. -/
structure Repository (Bytes : Type) where
  name : String
  index : Except IndexError (List Row)
  blob : Digest → Option (BlobFile Bytes)

/-- How bodies are decoded and hashed, and `store.IndexState`, a hash over the encoded
rows in order. -/
structure Env (Bytes State : Type) extends Codec Bytes where
  indexState : List Row → State
  indexState_injective : Function.Injective indexState

def storeManifest (codec : Codec Bytes) (rows : List Row)
    (blob : Digest → Option (BlobFile Bytes)) (digest : Digest) : Option Bytes :=
  match rows.find? (·.digest == digest) with
  | none => none
  | some row =>
    if row.size < 0 ∨ (maxManifestSize : ℤ) < row.size then none
    else match blob digest with
      | none => none
      | some file =>
        if (codec.len file.body : ℤ) ≠ row.size ∨ codec.hashesTo file.body digest = false then
          none
        else some file.body

def readManifest (codec : Codec Bytes) (rows : List Row)
    (blob : Digest → Option (BlobFile Bytes)) (digest : Digest) : Option (Links × Time) := do
  let body ← storeManifest codec rows blob digest
  let links ← (codec.json body).bind decodeLinks
  let file ← blob digest
  return (links, file.modTime)

def order (rows : List Row) : List Digest := (rows.map (·.digest)).eraseDups

def isTagged (rows : List Row) (digest : Digest) : Bool :=
  rows.any fun row => row.digest == digest && row.refName.getD "" != ""

def stored (repository : String) (rows : List Row) (digest : Digest) : StoredManifest :=
  match rows.find? (·.digest == digest) with
  | none => ⟨repository, digest, .plain "", 0⟩
  | some row => ⟨repository, digest, row.mediaType, row.size⟩

/-- The map of what is kept, with no reason for what is tagged. -/
abbrev Kept := List (Digest × Option KeepReason)

def Kept.has (kept : Kept) (digest : Digest) : Bool := kept.any (·.1 == digest)

def keptManifest (repository : String) (rows : List Row) (digest : Digest) (reason : KeepReason) :
    KeptManifest :=
  { stored repository rows digest with reason := reason }

section Plan

variable (rows : List Row) (read : Digest → Option (Links × Time)) (now : Time)

def linksOf (digest : Digest) : Links :=
  match read digest with
  | none => Links.zero
  | some (links, _) => links

def isRecent (digest : Digest) : Bool :=
  match read digest with
  | none => false
  | some (_, modTime) => now - modTime < pruneGrace

def seeds : Kept :=
  (order rows).filterMap fun digest =>
    if isTagged rows digest then some (digest, none)
    else if isRecent read now digest then some (digest, some .recent)
    else none

def keepChild (kept : Kept) (child : Digest) : Kept :=
  if kept.has child = false ∧ child ∈ order rows then kept ++ [(child, some .childOfKept)]
  else kept

def keepStep (kept : Kept) (digest : Digest) : Kept :=
  if kept.has digest then (linksOf read digest).children.foldl (keepChild rows) kept
  else match (linksOf read digest).subject with
    | none => kept
    | some subject =>
      if kept.has subject.digest then kept ++ [(digest, some .referrer)] else kept

def keepRound (kept : Kept) : Kept := (order rows).foldl (keepStep rows read) kept

/-- What is kept in the end.  Every round before the last one keeps another manifest. -/
def keepAll : Kept :=
  saturate List.length (keepRound rows read) ((order rows).length + 1) (seeds rows read now)

/-- The untagged manifests that nothing keeps: indexes first. -/
def deletions : List Digest :=
  let gone := (order rows).filter fun digest =>
    !isTagged rows digest && !Kept.has (keepAll rows read now) digest
  gone.filter (fun digest => (linksOf read digest).children != []) ++
    gone.filter (fun digest => (linksOf read digest).children == [])

def keeps : List (Digest × KeepReason) :=
  (order rows).filterMap fun digest =>
    if isTagged rows digest then none
    else match (keepAll rows read now).find? (·.1 == digest) with
      | some (_, some reason) => some (digest, reason)
      | _ => none

def planRows (repository : String) : PrunePlan :=
  if (order rows).all fun digest => (read digest).isSome then
    { delete := (deletions rows read now).map (stored repository rows)
      kept := (keeps rows read now).map fun (digest, reason) =>
        keptManifest repository rows digest reason
      unreadable := [] }
  else
    { delete := []
      kept := ((order rows).filter fun digest => !isTagged rows digest).map fun digest =>
        keptManifest repository rows digest .unreadable
      unreadable := [] }

end Plan

/-- `repoPlan`.  There is no `present` where the index could not be read. -/
structure RepoPlan (State : Type) where
  plan : PrunePlan
  present : Option (List (Digest × Bool))
  state : Option State
  gone : Bool
  deriving DecidableEq

def unreadablePlan (repository : String) : RepoPlan State :=
  { plan := ⟨[], [], [repository]⟩, present := none, state := none, gone := false }

def planIndex (env : Env Bytes State) (repository : String) (rows : List Row)
    (read : Digest → Option (Links × Time)) (now : Time) : RepoPlan State :=
  if rows.any fun row => (parseDigest row.digest).isNone then unreadablePlan repository
  else
    { plan := planRows rows read now repository
      present := some ((order rows).map fun digest => (digest, isTagged rows digest))
      state := some (env.indexState rows)
      gone := false }

/-- What a prune of the repository keeps and deletes. -/
def planRepository (env : Env Bytes State) (repo : Repository Bytes) (now : Time) :
    RepoPlan State :=
  match repo.index with
  | .error .absent => { plan := ⟨[], [], []⟩, present := none, state := none, gone := true }
  | .error .unreadable => unreadablePlan repo.name
  | .ok rows => planIndex env repo.name rows (readManifest env.toCodec rows repo.blob) now

/-- `Recheck`: why the manifest must now be kept, or the state its delete is conditional
on. -/
def recheck (plan : RepoPlan State) (digest : Digest) : Except KeepReason State :=
  match plan.present, plan.state with
  | some present, some state =>
    match present.find? (·.1 == digest) with
    | none => .error .goneSincePlan
    | some (_, true) => .error .taggedSincePlan
    | some (_, false) =>
      if plan.plan.delete.any (·.digest == digest) then .ok state
      else match plan.plan.kept.find? (·.digest == digest) with
        | some kept => .error kept.reason
        | none => .error .unreadable
  | _, _ => .error (if plan.gone then .goneSincePlan else .unreadable)

open List

/-- The set has what the plan starts from and is closed under what keeps more. -/
structure KeepClosed (rows : List Row) (read : Digest → Option (Links × Time)) (now : Time)
    (kept : Set Digest) : Prop where
  tagged : ∀ row ∈ rows, row.refName.getD "" ≠ "" → row.digest ∈ kept
  young : ∀ row ∈ rows, ∀ links modTime, read row.digest = some (links, modTime) →
    now - modTime < pruneGrace → row.digest ∈ kept
  child : ∀ index ∈ rows, index.digest ∈ kept → ∀ links modTime,
    read index.digest = some (links, modTime) → ∀ row ∈ rows, row.digest ∈ links.children →
    row.digest ∈ kept
  referrer : ∀ row ∈ rows, ∀ links modTime, read row.digest = some (links, modTime) →
    ∀ subject, links.subject = some subject → subject.digest ∈ kept → row.digest ∈ kept

/-- What a plan keeps: what it finds tagged, and what it says it keeps. -/
def RepoPlan.keepSet (plan : RepoPlan State) : Set Digest :=
  {digest | (∃ present, plan.present = some present ∧ (digest, true) ∈ present) ∨
    digest ∈ plan.plan.kept.map fun kept => kept.digest}

def RepoPlan.deleted (plan : RepoPlan State) : Set Digest :=
  {digest | digest ∈ plan.plan.delete.map StoredManifest.digest}

def Readable (rows : List Row) (read : Digest → Option (Links × Time)) : Prop :=
  ∀ row ∈ rows, (parseDigest row.digest).isSome ∧ (read row.digest).isSome

section Order

variable {rows : List Row} {digest : Digest}

theorem mem_order : digest ∈ order rows ↔ ∃ row ∈ rows, row.digest = digest := by
  simp [order, mem_eraseDups]

theorem row_mem_order {row : Row} (hrow : row ∈ rows) : row.digest ∈ order rows :=
  mem_order.2 ⟨row, hrow, rfl⟩

theorem isTagged_iff : isTagged rows digest = true ↔
    ∃ row ∈ rows, row.digest = digest ∧ row.refName.getD "" ≠ "" := by
  simp [isTagged]

theorem Kept.has_iff {kept : Kept} : kept.has digest = true ↔ digest ∈ kept.map Prod.fst := by
  simp [Kept.has]

end Order

section Rounds

variable (rows : List Row) (read : Digest → Option (Links × Time)) (now : Time)

structure KeptOk (kept : Kept) : Prop where
  nodup : (kept.map Prod.fst).Nodup
  listed : ∀ digest ∈ kept.map Prod.fst, digest ∈ order rows

theorem grows_append {kept : Kept} {pair : Digest × Option KeepReason} {cond : Prop}
    [Decidable cond] : kept.length ≤ (if cond then kept ++ [pair] else kept).length ∧
      ((if cond then kept ++ [pair] else kept).length = kept.length →
        (if cond then kept ++ [pair] else kept) = kept) := by
  split_ifs <;> simp

theorem keepChild_grows (child : Digest) : Grows List.length fun kept =>
    keepChild rows kept child :=
  ⟨fun _ => grows_append.1, fun _ => grows_append.2⟩

theorem keepStep_grows (digest : Digest) :
    Grows List.length fun kept => keepStep rows read kept digest := by
  have hchildren := Grows.foldl (keepChild_grows rows) (linksOf read digest).children
  refine ⟨fun kept => ?_, fun kept => ?_⟩ <;> unfold keepStep <;> split_ifs
  · exact hchildren.le kept
  · cases (linksOf read digest).subject with
    | none => exact le_rfl
    | some subject => exact grows_append.1
  · exact hchildren.same kept
  · cases (linksOf read digest).subject with
    | none => exact fun _ => rfl
    | some subject => exact grows_append.2

theorem keepRound_grows : Grows List.length (keepRound rows read) :=
  Grows.foldl (keepStep_grows rows read) (order rows)

theorem Kept.has_append {kept : Kept} {pair : Digest × Option KeepReason} {digest : Digest}
    (hhas : kept.has digest = true) : Kept.has (kept ++ [pair]) digest = true := by
  simp only [Kept.has, any_append, Bool.or_eq_true] at hhas ⊢
  exact .inl hhas

variable {rows read} {inv : Kept → Prop}

theorem keepRound_inv
    (hchild : ∀ (kept : Kept) (index child : Digest), inv kept → index ∈ order rows →
      kept.has index = true → child ∈ (linksOf read index).children → kept.has child = false →
      child ∈ order rows → inv (kept ++ [(child, some .childOfKept)]))
    (hreferrer : ∀ (kept : Kept) (digest : Digest) (subject : Descriptor), inv kept →
      digest ∈ order rows → kept.has digest = false → (linksOf read digest).subject = some subject →
      kept.has subject.digest = true → inv (kept ++ [(digest, some .referrer)]))
    {kept : Kept} (hinv : inv kept) : inv (keepRound rows read kept) := by
  have hchildren : ∀ (index : Digest), index ∈ order rows → ∀ children : List Digest,
      (∀ child ∈ children, child ∈ (linksOf read index).children) → ∀ kept : Kept, inv kept →
      kept.has index = true → inv (children.foldl (keepChild rows) kept) := by
    intro index hindex children
    induction children with
    | nil => exact fun _ _ hinv _ => hinv
    | cons child children ih =>
      intro hsub kept hinv hhas
      obtain ⟨hfirst, hrest⟩ := forall_mem_cons.1 hsub
      rw [foldl_cons]
      by_cases hnew : kept.has child = false ∧ child ∈ order rows
      · rw [keepChild, if_pos hnew]
        exact ih hrest _ (hchild kept index child hinv hindex hhas hfirst hnew.1 hnew.2)
          (Kept.has_append hhas)
      · rw [keepChild, if_neg hnew]
        exact ih hrest kept hinv hhas
  have hstep : ∀ (kept : Kept) (digest : Digest), digest ∈ order rows → inv kept →
      inv (keepStep rows read kept digest) := by
    intro kept digest hdigest hinv
    unfold keepStep
    by_cases hhas : kept.has digest = true
    · rw [if_pos hhas]
      exact hchildren digest hdigest _ (fun _ hmem => hmem) kept hinv hhas
    rw [if_neg hhas]
    cases hsubject : (linksOf read digest).subject with
    | none => exact hinv
    | some subject =>
      simp only
      by_cases hkept : kept.has subject.digest = true
      · rw [if_pos hkept]
        exact hreferrer kept digest subject hinv hdigest (by simpa using hhas) hsubject hkept
      · rw [if_neg hkept]
        exact hinv
  have hround : ∀ digests : List Digest, (∀ digest ∈ digests, digest ∈ order rows) →
      ∀ kept : Kept, inv kept → inv (digests.foldl (keepStep rows read) kept) := by
    intro digests
    induction digests with
    | nil => exact fun _ _ hinv => hinv
    | cons digest digests ih =>
      intro hsub kept hinv
      obtain ⟨hfirst, hrest⟩ := forall_mem_cons.1 hsub
      exact ih hrest _ (hstep kept digest hfirst hinv)
  exact hround (order rows) (fun _ hmem => hmem) kept hinv

theorem KeptOk.append {kept : Kept} (hok : KeptOk rows kept) {digest : Digest}
    {reason : Option KeepReason} (hnew : kept.has digest = false) (hlisted : digest ∈ order rows) :
    KeptOk rows (kept ++ [(digest, reason)]) := by
  have hfresh : digest ∉ kept.map Prod.fst := by
    intro hmem
    rw [Kept.has_iff.2 hmem] at hnew
    cases hnew
  refine ⟨?_, ?_⟩
  · rw [map_append, map_singleton]
    exact hok.nodup.append (nodup_singleton _) (disjoint_singleton.2 hfresh)
  · intro other hother
    rw [map_append, mem_append] at hother
    rcases hother with hold | hlast
    · exact hok.listed other hold
    · simpa [mem_singleton.1 hlast] using hlisted

theorem KeptOk.round {kept : Kept} (hok : KeptOk rows kept) :
    KeptOk rows (keepRound rows read kept) :=
  keepRound_inv (fun _ _ _ hok _ _ _ hnew hlisted => hok.append hnew hlisted)
    (fun _ _ _ hok hlisted hnew _ _ => hok.append hnew hlisted) hok

variable (rows read)

theorem eraseDups_nodup (digests : List Digest) : digests.eraseDups.Nodup := by
  induction hlength : digests.length using Nat.strong_induction_on generalizing digests with
  | _ length ih =>
    cases digests with
    | nil => simp
    | cons first rest =>
      rw [eraseDups_cons, nodup_cons]
      refine ⟨?_, ih _ ?_ _ rfl⟩
      · rw [mem_eraseDups]
        simp
      · exact (length_filter_le _ rest).trans_lt (by simp [← hlength])

theorem seeds_digests : (seeds rows read now).map Prod.fst =
    (order rows).filter fun digest => isTagged rows digest || isRecent read now digest := by
  unfold seeds
  induction order rows with
  | nil => rfl
  | cons digest digests ih =>
    cases htagged : isTagged rows digest <;> cases hrecent : isRecent read now digest <;>
      simp [htagged, hrecent, ih]

theorem seeds_ok : KeptOk rows (seeds rows read now) := by
  refine ⟨?_, ?_⟩ <;> rw [seeds_digests]
  · exact (eraseDups_nodup _).filter _
  · exact fun _ hmem => mem_of_mem_filter hmem

theorem keepAll_ok : KeptOk rows (keepAll rows read now) :=
  saturate_inv (fun _ hok => hok.round) _ (seeds_ok rows read now)

theorem keepRound_keepAll :
    keepRound rows read (keepAll rows read now) = keepAll rows read now := by
  refine saturate_fixed (order rows).length (keepRound_grows rows read)
    (fun _ hok => hok.round) ?_ (seeds_ok rows read now) (by omega)
  intro kept hok
  calc kept.length = (kept.map Prod.fst).length := (length_map _).symm
    _ ≤ (order rows).length := List.Nodup.length_le_of_subset hok.nodup hok.listed

end Rounds

section Least

variable {rows : List Row} {read : Digest → Option (Links × Time)} {now : Time}

theorem read_of_readable (hreadable : Readable rows read) {digest : Digest}
    (hdigest : digest ∈ order rows) :
    ∃ modTime, read digest = some (linksOf read digest, modTime) := by
  obtain ⟨row, hrow, rfl⟩ := mem_order.1 hdigest
  obtain ⟨⟨links, modTime⟩, hread⟩ := Option.isSome_iff_exists.1 (hreadable row hrow).2
  exact ⟨modTime, by rw [hread, linksOf, hread]⟩

theorem linksOf_eq {digest : Digest} {links : Links} {modTime : Time}
    (hread : read digest = some (links, modTime)) : linksOf read digest = links := by
  rw [linksOf, hread]

def Kept.Within (kept : Set Digest) (found : Kept) : Prop :=
  ∀ digest ∈ found.map Prod.fst, digest ∈ kept

theorem keepAll_subset (hreadable : Readable rows read) {kept : Set Digest}
    (hclosed : KeepClosed rows read now kept) {digest : Digest}
    (hmem : digest ∈ (keepAll rows read now).map Prod.fst) : digest ∈ kept := by
  have hall : Kept.Within kept (keepAll rows read now) := by
    refine saturate_inv (fun found hsub => keepRound_inv ?_ ?_ hsub) _ ?_
    · intro found index child hsub hindex hhas hchild _ hlisted other hother
      rw [map_append, mem_append] at hother
      rcases hother with hold | hlast
      · exact hsub other hold
      rw [mem_singleton.1 hlast]
      obtain ⟨modTime, hread⟩ := read_of_readable hreadable hindex
      obtain ⟨indexRow, hindexRow, rfl⟩ := mem_order.1 hindex
      obtain ⟨row, hrow, rfl⟩ := mem_order.1 hlisted
      exact hclosed.child indexRow hindexRow (hsub _ (Kept.has_iff.1 hhas)) _ _ hread row hrow
        hchild
    · intro found digest subject hsub hdigest _ hsubject hhas other hother
      rw [map_append, mem_append] at hother
      rcases hother with hold | hlast
      · exact hsub other hold
      rw [mem_singleton.1 hlast]
      obtain ⟨modTime, hread⟩ := read_of_readable hreadable hdigest
      obtain ⟨row, hrow, rfl⟩ := mem_order.1 hdigest
      exact hclosed.referrer row hrow _ _ hread subject hsubject (hsub _ (Kept.has_iff.1 hhas))
    intro digest hseed
    rw [seeds_digests, mem_filter, Bool.or_eq_true] at hseed
    obtain ⟨hlisted, htagged | hrecent⟩ := hseed
    · obtain ⟨row, hrow, rfl, htag⟩ := isTagged_iff.1 htagged
      exact hclosed.tagged row hrow htag
    · obtain ⟨row, hrow, rfl⟩ := mem_order.1 hlisted
      obtain ⟨modTime, hread⟩ := read_of_readable hreadable hlisted
      rw [isRecent, hread] at hrecent
      exact hclosed.young row hrow _ _ hread (by simpa using hrecent)
  exact hall digest hmem

def Kept.Covers (digests : List Digest) (found : Kept) : Prop :=
  ∀ digest ∈ digests, digest ∈ found.map Prod.fst

theorem Kept.Covers.append {digests : List Digest} {found : Kept} (hcovers : found.Covers digests)
    (pair : Digest × Option KeepReason) : Kept.Covers digests (found ++ [pair]) := by
  intro digest hdigest
  rw [map_append]
  exact mem_append_left _ (hcovers digest hdigest)

theorem seed_mem_keepAll {digest : Digest} (hdigest : digest ∈ order rows)
    (hseed : (isTagged rows digest || isRecent read now digest) = true) :
    digest ∈ (keepAll rows read now).map Prod.fst := by
  have hcovers : Kept.Covers ((seeds rows read now).map Prod.fst) (keepAll rows read now) :=
    saturate_inv (fun _ hcovers => keepRound_inv (fun _ _ _ hcovers _ _ _ _ _ => hcovers.append _)
      (fun _ _ _ hcovers _ _ _ _ => hcovers.append _) hcovers) _ fun _ hmem => hmem
  apply hcovers digest
  rw [seeds_digests]
  exact mem_filter.2 ⟨hdigest, hseed⟩

theorem append_ne_self {kept : Kept} {pair : Digest × Option KeepReason} :
    kept ++ [pair] ≠ kept := by
  intro hsame
  have hlength := congrArg List.length hsame
  simp at hlength

theorem keepStep_keepAll {digest : Digest} (hdigest : digest ∈ order rows) :
    keepStep rows read (keepAll rows read now) digest = keepAll rows read now :=
  foldl_fixed (keepStep_grows rows read) (keepRound_keepAll rows read now) digest hdigest

theorem child_mem_keepAll {index child : Digest} (hindex : index ∈ order rows)
    (hkept : index ∈ (keepAll rows read now).map Prod.fst)
    (hchild : child ∈ (linksOf read index).children) (hlisted : child ∈ order rows) :
    child ∈ (keepAll rows read now).map Prod.fst := by
  have hstep : keepStep rows read (keepAll rows read now) index = keepAll rows read now :=
    keepStep_keepAll hindex
  rw [keepStep, if_pos (Kept.has_iff.2 hkept)] at hstep
  have hfixed := foldl_fixed (keepChild_grows rows) hstep child hchild
  by_contra hnot
  have hnew : Kept.has (keepAll rows read now) child = false := by
    rw [Bool.eq_false_iff]
    exact fun hhas => hnot (Kept.has_iff.1 hhas)
  rw [keepChild, if_pos ⟨hnew, hlisted⟩] at hfixed
  exact append_ne_self hfixed

theorem referrer_mem_keepAll {digest : Digest} {subject : Descriptor}
    (hdigest : digest ∈ order rows)
    (hsubject : (linksOf read digest).subject = some subject)
    (hkept : subject.digest ∈ (keepAll rows read now).map Prod.fst) :
    digest ∈ (keepAll rows read now).map Prod.fst := by
  have hstep : keepStep rows read (keepAll rows read now) digest = keepAll rows read now :=
    keepStep_keepAll hdigest
  by_contra hnot
  rw [keepStep, if_neg (fun hhas => hnot (Kept.has_iff.1 hhas)), hsubject] at hstep
  simp only at hstep
  rw [if_pos (Kept.has_iff.2 hkept)] at hstep
  exact append_ne_self hstep

theorem keepAll_closed :
    KeepClosed rows read now {digest | digest ∈ (keepAll rows read now).map Prod.fst} where
  tagged row hrow htag := by
    have htagged : isTagged rows row.digest = true := isTagged_iff.2 ⟨row, hrow, rfl, htag⟩
    exact seed_mem_keepAll (row_mem_order hrow) (by simp [htagged])
  young row hrow links modTime hread hyoung := by
    have hrecent : isRecent read now row.digest = true := by
      rw [isRecent, hread]
      simpa using hyoung
    exact seed_mem_keepAll (row_mem_order hrow) (by simp [hrecent])
  child index hindex hkept links modTime hread row hrow hchild := by
    rw [← linksOf_eq hread] at hchild
    exact child_mem_keepAll (row_mem_order hindex) hkept hchild (row_mem_order hrow)
  referrer row hrow links modTime hread subject hsubject hkept := by
    rw [← linksOf_eq hread] at hsubject
    exact referrer_mem_keepAll (row_mem_order hrow) hsubject hkept

theorem keepAll_isLeast (hreadable : Readable rows read) :
    IsLeast {kept | KeepClosed rows read now kept}
      {digest | digest ∈ (keepAll rows read now).map Prod.fst} :=
  ⟨keepAll_closed, fun _ hclosed _ hmem => keepAll_subset hreadable hclosed hmem⟩

end Least

section Plan

variable {rows : List Row} {read : Digest → Option (Links × Time)} {now : Time}
  {repository : String} {env : Env Bytes State}

theorem mem_deletions {digest : Digest} : digest ∈ deletions rows read now ↔
    digest ∈ order rows ∧ digest ∉ (keepAll rows read now).map Prod.fst := by
  have hsplit : digest ∈ deletions rows read now ↔ digest ∈ order rows ∧
      isTagged rows digest = false ∧ Kept.has (keepAll rows read now) digest = false := by
    unfold deletions
    simp only [mem_append, mem_filter, ← and_or_left, Bool.and_eq_true,
      Bool.not_eq_true', bne_iff_ne, beq_iff_eq, ne_or_eq, and_true]
  rw [hsplit, ← Kept.has_iff]
  constructor
  · rintro ⟨hlisted, -, hnot⟩
    exact ⟨hlisted, by simp [hnot]⟩
  · rintro ⟨hlisted, hnot⟩
    refine ⟨hlisted, ?_, by simpa using hnot⟩
    rw [Bool.eq_false_iff]
    intro htagged
    exact hnot (Kept.has_iff.2 (seed_mem_keepAll hlisted (by simp [htagged])))

def Kept.Reasoned (rows : List Row) (kept : Kept) : Prop :=
  ∀ pair ∈ kept, pair.2 = none → isTagged rows pair.1 = true

theorem Kept.Reasoned.append {kept : Kept} (hreasoned : kept.Reasoned rows) (digest : Digest)
    (reason : KeepReason) : Kept.Reasoned rows (kept ++ [(digest, some reason)]) := by
  intro pair hpair hnone
  rcases mem_append.1 hpair with hold | hlast
  · exact hreasoned pair hold hnone
  · rw [mem_singleton.1 hlast] at hnone
    cases hnone

theorem keepAll_reasoned : Kept.Reasoned rows (keepAll rows read now) := by
  refine saturate_inv (fun _ hreasoned => keepRound_inv
    (fun _ _ _ hreasoned _ _ _ _ _ => hreasoned.append _ _)
    (fun _ _ _ hreasoned _ _ _ _ => hreasoned.append _ _) hreasoned) _ ?_
  intro pair hpair hnone
  obtain ⟨digest, -, hseed⟩ := mem_filterMap.1 hpair
  split_ifs at hseed with htagged hrecent
  · rwa [← Option.some.inj hseed]
  · rw [← Option.some.inj hseed] at hnone
    cases hnone

theorem mem_keeps {digest : Digest} : digest ∈ (keeps rows read now).map Prod.fst ↔
    digest ∈ (keepAll rows read now).map Prod.fst ∧ isTagged rows digest = false := by
  unfold keeps
  simp only [mem_map, mem_filterMap, Prod.exists]
  constructor
  · rintro ⟨other, reason, ⟨listed, -, hkeeps⟩, rfl⟩
    split_ifs at hkeeps with htagged
    split at hkeeps
    · rename_i key found hfound
      have hsame : listed = other := congrArg Prod.fst (Option.some.inj hkeeps)
      subst hsame
      have hkey : key = listed := by simpa using List.find?_some hfound
      exact ⟨⟨key, some found, mem_of_find?_eq_some hfound, hkey⟩, by simpa using htagged⟩
    · cases hkeeps
  rintro ⟨⟨key, reason, hmem, rfl⟩, huntagged⟩
  have hlisted : key ∈ order rows :=
    (keepAll_ok rows read now).listed key (mem_map.2 ⟨_, hmem, rfl⟩)
  have hany : ((keepAll rows read now).find? (·.1 == key)).isSome = true :=
    List.find?_isSome.2 ⟨(key, reason), hmem, by simp⟩
  obtain ⟨⟨other, found⟩, hfound⟩ := Option.isSome_iff_exists.1 hany
  have hother : other = key := by simpa using List.find?_some hfound
  subst hother
  cases found with
  | none =>
    have htagged := keepAll_reasoned _ (mem_of_find?_eq_some hfound) rfl
    rw [huntagged] at htagged
    cases htagged
  | some found =>
    refine ⟨other, found, ⟨other, hlisted, ?_⟩, rfl⟩
    rw [if_neg (by simp [huntagged]), hfound]

theorem stored_digest (digest : Digest) : (stored repository rows digest).digest = digest := by
  unfold stored
  split <;> rfl

theorem planRows_readable (hreadable : Readable rows read) :
    planRows rows read now repository =
      { delete := (deletions rows read now).map (stored repository rows)
        kept := (keeps rows read now).map fun (digest, reason) =>
          keptManifest repository rows digest reason
        unreadable := [] } := by
  rw [planRows, if_pos]
  rw [all_eq_true]
  intro digest hdigest
  obtain ⟨row, hrow, rfl⟩ := mem_order.1 hdigest
  exact (hreadable row hrow).2

theorem planIndex_readable (hreadable : Readable rows read) :
    planIndex env repository rows read now =
      { plan := planRows rows read now repository
        present := some ((order rows).map fun digest => (digest, isTagged rows digest))
        state := some (env.indexState rows)
        gone := false } := by
  rw [planIndex, if_neg]
  rw [any_eq_true]
  rintro ⟨row, hrow, hnone⟩
  rw [Option.isNone_iff_eq_none] at hnone
  exact absurd (hreadable row hrow).1 (by simp [hnone])

theorem planIndex_keepSet (hreadable : Readable rows read) :
    (planIndex env repository rows read now).keepSet =
      {digest | digest ∈ (keepAll rows read now).map Prod.fst} := by
  ext digest
  simp only [RepoPlan.keepSet, planIndex_readable hreadable, planRows_readable hreadable,
    Set.mem_ofPred_eq, Option.some.injEq, exists_eq_left']
  have hkept : digest ∈ ((keeps rows read now).map fun (digest, reason) =>
      keptManifest repository rows digest reason).map (fun kept => kept.digest) ↔
      digest ∈ (keeps rows read now).map Prod.fst := by
    simp [keptManifest, stored_digest]
  rw [hkept, mem_keeps]
  have htagged : (digest, true) ∈ (order rows).map (fun digest => (digest, isTagged rows digest)) ↔
      digest ∈ order rows ∧ isTagged rows digest = true := by
    simp
  rw [htagged]
  constructor
  · rintro (⟨hlisted, htagged⟩ | ⟨hkept, -⟩)
    · exact seed_mem_keepAll hlisted (by simp [htagged])
    · exact hkept
  · intro hmem
    cases htag : isTagged rows digest with
    | true => exact .inl ⟨(keepAll_ok rows read now).listed digest hmem, rfl⟩
    | false => exact .inr ⟨hmem, rfl⟩

theorem planIndex_deleted (hreadable : Readable rows read) :
    (planIndex env repository rows read now).deleted =
      {digest | (∃ row ∈ rows, row.digest = digest) ∧
        digest ∉ (planIndex env repository rows read now).keepSet} := by
  ext digest
  rw [planIndex_keepSet hreadable]
  simp only [RepoPlan.deleted, planIndex_readable hreadable, planRows_readable hreadable,
    Set.mem_ofPred_eq, ← mem_order]
  rw [← mem_deletions]
  simp [stored_digest]

theorem planIndex_unreadable (hnot : ¬ Readable rows read) :
    (planIndex env repository rows read now).plan.delete = [] := by
  unfold planIndex
  split_ifs with hparse
  · rfl
  simp only [planRows]
  rw [if_neg]
  intro hall
  apply hnot
  intro row hrow
  refine ⟨?_, all_eq_true.1 hall _ (row_mem_order hrow)⟩
  rw [any_eq_true, not_exists] at hparse
  have hsome := hparse row
  rw [not_and, Bool.not_eq_true, Option.isNone_eq_false_iff] at hsome
  exact hsome hrow

theorem planIndex_keepSet_unreadable (hnot : ¬ Readable rows read) :
    (planIndex env repository rows read now).keepSet =
      {digest | (∃ row ∈ rows, row.digest = digest) ∧
        ∀ row ∈ rows, (parseDigest row.digest).isSome = true} := by
  ext digest
  simp only [Set.mem_ofPred_eq]
  by_cases hparse : ∀ row ∈ rows, (parseDigest row.digest).isSome = true
  · have hany : (rows.any fun row => (parseDigest row.digest).isNone) = false := by
      rw [any_eq_false]
      intro row hrow hnone
      rw [Option.isNone_iff_eq_none] at hnone
      exact absurd (hparse row hrow) (by simp [hnone])
    have hall : ¬ ((order rows).all fun digest => (read digest).isSome) = true := by
      intro hall
      exact hnot fun row hrow =>
        ⟨hparse row hrow, all_eq_true.1 hall _ (row_mem_order hrow)⟩
    simp only [RepoPlan.keepSet, planIndex, hany, planRows, if_neg hall, Bool.false_eq_true,
      if_false, Set.mem_ofPred_eq, Option.some.injEq, exists_eq_left']
    rw [← mem_order, and_iff_left hparse]
    cases htag : isTagged rows digest <;> simp [keptManifest, stored_digest, htag]
  · have hany : (rows.any fun row => (parseDigest row.digest).isNone) = true := by
      simp only [not_forall, Bool.not_eq_true, Option.isSome_eq_false_iff] at hparse
      obtain ⟨row, hrow, hnone⟩ := hparse
      exact any_eq_true.2 ⟨row, hrow, hnone⟩
    simp [RepoPlan.keepSet, planIndex, hany, unreadablePlan, hparse]

end Plan

section Order

variable {rows others : List Row} {read : Digest → Option (Links × Time)} {now : Time}
  {repository : String} {env : Env Bytes State} {codec : Codec Bytes}
  {blob : Digest → Option (BlobFile Bytes)}

/-- Rows of one digest have one size. -/
def SizesAgree (rows : List Row) : Prop :=
  ∀ row ∈ rows, ∀ other ∈ rows, row.digest = other.digest → row.size = other.size

theorem KeepClosed.perm {other : Digest → Option (Links × Time)} (hperm : rows.Perm others)
    (hread : ∀ row ∈ rows, read row.digest = other row.digest) {kept : Set Digest}
    (hclosed : KeepClosed rows read now kept) : KeepClosed others other now kept where
  tagged row hrow := hclosed.tagged row (hperm.mem_iff.2 hrow)
  young row hrow := by
    rw [← hread row (hperm.mem_iff.2 hrow)]
    exact hclosed.young row (hperm.mem_iff.2 hrow)
  child index hindex hkept links modTime hlinks row hrow hchild := by
    rw [← hread index (hperm.mem_iff.2 hindex)] at hlinks
    exact hclosed.child index (hperm.mem_iff.2 hindex) hkept links modTime hlinks row
      (hperm.mem_iff.2 hrow) hchild
  referrer row hrow := by
    rw [← hread row (hperm.mem_iff.2 hrow)]
    exact hclosed.referrer row (hperm.mem_iff.2 hrow)

theorem find_size (hperm : rows.Perm others) (hsizes : SizesAgree rows) (digest : Digest) :
    (rows.find? (·.digest == digest)).map (fun row => row.size) =
      (others.find? (·.digest == digest)).map (fun row => row.size) := by
  cases hfound : rows.find? (·.digest == digest) with
  | none =>
    have hnone : others.find? (·.digest == digest) = none := by
      rw [List.find?_eq_none] at hfound ⊢
      exact fun row hrow => hfound row (hperm.mem_iff.2 hrow)
    rw [hnone]
  | some row =>
    have hrow := mem_of_find?_eq_some hfound
    have hdigest : row.digest = digest := by simpa using List.find?_some hfound
    have hany : (others.find? (·.digest == digest)).isSome = true :=
      List.find?_isSome.2 ⟨row, hperm.mem_iff.1 hrow, by simp [hdigest]⟩
    obtain ⟨other, hother⟩ := Option.isSome_iff_exists.1 hany
    have hsame : other.digest = digest := by simpa using List.find?_some hother
    rw [hother]
    exact congrArg some (hsizes row hrow other
      (hperm.mem_iff.2 (mem_of_find?_eq_some hother)) (hdigest.trans hsame.symm))

theorem storeManifest_perm (hperm : rows.Perm others) (hsizes : SizesAgree rows) :
    storeManifest codec rows blob = storeManifest codec others blob := by
  funext digest
  have hsize := find_size hperm hsizes digest
  unfold storeManifest
  cases hfound : rows.find? (·.digest == digest) <;>
    cases hother : others.find? (·.digest == digest) <;> rw [hfound, hother] at hsize
  · cases hsize
  · cases hsize
  · simp only [Option.map_some, Option.some.injEq] at hsize
    simp only [hsize]

theorem readable_perm (hperm : rows.Perm others) (hsizes : SizesAgree rows) :
    Readable rows (readManifest codec rows blob) ↔
      Readable others (readManifest codec others blob) := by
  have hread : readManifest codec rows blob = readManifest codec others blob := by
    funext digest
    rw [readManifest, readManifest, storeManifest_perm hperm hsizes]
  rw [hread]
  simp only [Readable, hperm.mem_iff]

theorem storeManifest_body {digest : Digest} {body : Bytes}
    (hbody : storeManifest codec rows blob digest = some body) :
    (blob digest).map BlobFile.body = some body := by
  unfold storeManifest at hbody
  split at hbody
  · cases hbody
  split_ifs at hbody
  split at hbody
  · cases hbody
  rename_i file hfile
  split_ifs at hbody
  rw [hfile]
  exact hbody

theorem readManifest_unique {digest : Digest}
    (hrows : (readManifest codec rows blob digest).isSome = true)
    (hothers : (readManifest codec others blob digest).isSome = true) :
    readManifest codec rows blob digest = readManifest codec others blob digest := by
  have hbody : storeManifest codec rows blob digest = storeManifest codec others blob digest := by
    unfold readManifest at hrows hothers
    cases hfirst : storeManifest codec rows blob digest with
    | none => simp [hfirst] at hrows
    | some body =>
      cases hsecond : storeManifest codec others blob digest with
      | none => simp [hsecond] at hothers
      | some other =>
        rw [← storeManifest_body hfirst, ← storeManifest_body hsecond]
  rw [readManifest, readManifest, hbody]

theorem planIndex_perm (hperm : rows.Perm others)
    (halike : Readable rows (readManifest codec rows blob) ↔
      Readable others (readManifest codec others blob)) :
    (planIndex env repository rows (readManifest codec rows blob) now).keepSet =
        (planIndex env repository others (readManifest codec others blob) now).keepSet ∧
      (planIndex env repository rows (readManifest codec rows blob) now).deleted =
        (planIndex env repository others (readManifest codec others blob) now).deleted := by
  by_cases hreadable : Readable rows (readManifest codec rows blob)
  · have hother := halike.1 hreadable
    have hread : ∀ row ∈ rows, readManifest codec rows blob row.digest =
        readManifest codec others blob row.digest := by
      intro row hrow
      exact readManifest_unique (hreadable row hrow).2 (hother row (hperm.mem_iff.1 hrow)).2
    have hback : ∀ row ∈ others, readManifest codec others blob row.digest =
        readManifest codec rows blob row.digest :=
      fun row hrow => (hread row (hperm.mem_iff.2 hrow)).symm
    have hkeep : (planIndex env repository rows (readManifest codec rows blob) now).keepSet =
        (planIndex env repository others (readManifest codec others blob) now).keepSet := by
      rw [planIndex_keepSet hreadable, planIndex_keepSet hother]
      have hclosed : ∀ kept, KeepClosed rows (readManifest codec rows blob) now kept ↔
          KeepClosed others (readManifest codec others blob) now kept :=
        fun kept => ⟨fun hclosed => hclosed.perm hperm hread,
          fun hclosed => hclosed.perm hperm.symm hback⟩
      apply (keepAll_isLeast hreadable).unique
      simp only [hclosed]
      exact keepAll_isLeast hother
    refine ⟨hkeep, ?_⟩
    rw [planIndex_deleted hreadable, planIndex_deleted hother, hkeep]
    simp only [hperm.mem_iff]
  · have hother := mt halike.2 hreadable
    constructor
    · rw [planIndex_keepSet_unreadable hreadable, planIndex_keepSet_unreadable hother]
      simp only [hperm.mem_iff]
    · simp only [RepoPlan.deleted, planIndex_unreadable hreadable, planIndex_unreadable hother]

end Order

/-- The plan of a readable repository keeps the least closed set and deletes every other row,
any other deletes nothing, whatever the order of rows that does not decide what is read. -/
theorem planRepository_keeps_least (env : Env Bytes State) (repo : Repository Bytes) (now : Time)
    (rows : List Row) (hindex : repo.index = .ok rows) :
    (Readable rows (readManifest env.toCodec rows repo.blob) →
      IsLeast {kept | KeepClosed rows (readManifest env.toCodec rows repo.blob) now kept}
        (planRepository env repo now).keepSet ∧
      (planRepository env repo now).deleted = {digest | (∃ row ∈ rows, row.digest = digest) ∧
        digest ∉ (planRepository env repo now).keepSet}) ∧
    (¬ Readable rows (readManifest env.toCodec rows repo.blob) →
      (planRepository env repo now).plan.delete = []) ∧
    (∀ others, rows.Perm others → (Readable rows (readManifest env.toCodec rows repo.blob) ↔
        Readable others (readManifest env.toCodec others repo.blob)) →
      (planRepository env repo now).keepSet =
        (planRepository env { repo with index := .ok others } now).keepSet ∧
      (planRepository env repo now).deleted =
        (planRepository env { repo with index := .ok others } now).deleted) ∧
    (SizesAgree rows → ∀ others, rows.Perm others →
      (Readable rows (readManifest env.toCodec rows repo.blob) ↔
        Readable others (readManifest env.toCodec others repo.blob))) := by
  have hplan : planRepository env repo now =
      planIndex env repo.name rows (readManifest env.toCodec rows repo.blob) now := by
    rw [planRepository, hindex]
  rw [hplan]
  refine ⟨fun hreadable => ⟨?_, planIndex_deleted hreadable⟩, planIndex_unreadable, ?_, ?_⟩
  · rw [planIndex_keepSet hreadable]
    exact keepAll_isLeast hreadable
  · intro others hperm halike
    exact planIndex_perm hperm halike
  · exact fun hsizes others hperm => readable_perm hperm hsizes

/-- Bodies are numbers: 1 is an index of 2, and 3 refers to 2. -/
def demoLinks : ℕ → Json
  | 1 => .obj [(.manifests, .arr [.obj [(.digest, .str (.sha256 2))]])]
  | 3 => .obj [(.subject, .obj [(.digest, .str (.sha256 2))])]
  | _ => .obj []

def demoEnv : Env ℕ (List Row) where
  len := id
  json body := some (demoLinks body)
  tokens _ := []
  sha256 := id
  sha512 := id
  sha256_injective := Function.injective_id
  sha512_injective := Function.injective_id
  artifactType left _ := left
  indexState := id
  indexState_injective := Function.injective_id

def demoRow (body : ℕ) (size : ℤ) (tag : Option String) : Row :=
  { mediaType := mediaTypeImageManifest, digest := .sha256 body, size, refName := tag
    annotations := [] }

def demoRepo (rows : List Row) : Repository ℕ where
  name := "app"
  index := .ok rows
  blob
    | .sha256 body => some ⟨body, 0⟩
    | _ => none

/-- A tagged index, its child, a signature of the child, and a manifest that nothing names. -/
def demoRows : List Row :=
  [demoRow 4 4 none, demoRow 3 3 none, demoRow 2 2 none, demoRow 1 1 (some "v1")]

theorem demo_planRepository_keeps :
    IsLeast {kept | KeepClosed demoRows (readManifest demoEnv.toCodec demoRows
        (demoRepo demoRows).blob) (2 * pruneGrace) kept}
      (planRepository demoEnv (demoRepo demoRows) (2 * pruneGrace)).keepSet ∧
    (planRepository demoEnv (demoRepo demoRows) (2 * pruneGrace)).plan.delete.map
      StoredManifest.digest = [.sha256 4] := by
  refine ⟨((planRepository_keeps_least demoEnv (demoRepo demoRows) (2 * pruneGrace) demoRows
    rfl).1 ?_).1, by decide⟩
  unfold Readable
  decide

/-- The rows of one digest state two sizes: with the right one first the manifest can be
read and is deleted, with the wrong one first nothing is. -/
theorem row_order_decides_deletion :
    ¬ ∀ (rows others : List Row), rows.Perm others →
      (planRepository demoEnv (demoRepo rows) (2 * pruneGrace)).deleted =
        (planRepository demoEnv (demoRepo others) (2 * pruneGrace)).deleted := by
  intro hsame
  have hdeleted := hsame [demoRow 4 4 none, demoRow 4 5 none] [demoRow 4 5 none, demoRow 4 4 none]
    (List.Perm.swap _ _ _)
  have hmem : (.sha256 4 : Digest) ∈ (planRepository demoEnv
      (demoRepo [demoRow 4 4 none, demoRow 4 5 none]) (2 * pruneGrace)).plan.delete.map
      StoredManifest.digest := by
    decide
  have hnot : (planRepository demoEnv (demoRepo [demoRow 4 5 none, demoRow 4 4 none])
      (2 * pruneGrace)).plan.delete = [] := by
    decide
  have hother : (.sha256 4 : Digest) ∈ (planRepository demoEnv
      (demoRepo [demoRow 4 5 none, demoRow 4 4 none]) (2 * pruneGrace)).deleted := by
    rw [← hdeleted]
    exact hmem
  simp [RepoPlan.deleted, hnot] at hother

end K3sm.Registry.Prune
