import K3sm.Registry.Sweep

/-!
# The referrers of a manifest

The server keeps, for each repository, what every manifest row contributes to a referrers answer:
the row's descriptor, the artifact type its body names, and the subject the body refers to.
-/

namespace K3sm.Registry.Listing

open K3sm.Registry.Gc List

variable {Bytes : Type}

/-- The fields of `ispec.Descriptor` a referrers answer carries.  Of a repeated
annotation key the last one counts. -/
structure ReferrerDescriptor where
  mediaType : Text
  digest : Digest
  size : ℤ
  artifactType : Text
  annotations : List (Key × Text)

structure RefEntry where
  subject : Option Digest
  desc : ReferrerDescriptor
  size : ℕ
  unreadable : Bool

structure ReferrerDoc where
  mediaType : Text
  artifactType : Text
  config : Option Descriptor
  subject : Option Descriptor
  annotations : List (Key × Text)

def ReferrerDoc.zero : ReferrerDoc :=
  { mediaType := .plain "", artifactType := .plain "", config := none, subject := none
    annotations := [] }

/-- A `map[string]string` field: null clears it, an object adds to it. -/
def decodeAnnotations (current : List (Key × Text)) : Json → Option (List (Key × Text))
  | .null => some []
  | .obj members =>
    (members.mapM fun member =>
      (decodeText (.plain "") member.2).map fun text => (member.1, text)).map (current ++ ·)
  | _ => none

def decodeReferrerMember (current : ReferrerDoc) : Key × Json → Option ReferrerDoc
  | (.mediaType, value) =>
    (decodeText current.mediaType value).map fun text => { current with mediaType := text }
  | (.artifactType, value) =>
    (decodeText current.artifactType value).map fun text =>
      { current with artifactType := text }
  | (.config, value) =>
    (decodePointer current.config value).map fun config => { current with config := config }
  | (.subject, value) =>
    (decodePointer current.subject value).map fun subject =>
      { current with subject := subject }
  | (.annotations, value) =>
    (decodeAnnotations current.annotations value).map fun annotations =>
      { current with annotations := annotations }
  | _ => some current

def decodeReferrerDoc : Json → Option ReferrerDoc
  | .null => some ReferrerDoc.zero
  | .obj members => members.foldlM decodeReferrerMember ReferrerDoc.zero
  | _ => none

def manifestTypes (mediaType : Text) : Bool :=
  mediaType == mediaTypeImageManifest || mediaType == mediaTypeImageIndex ||
    mediaType == mediaTypeDockerManifest || mediaType == mediaTypeDockerManifestList

inductive ManifestReadError where
  | manifestSize
  | invalidDigest
  | blobUnknown
  | failed (cause : OpenError)
  | corrupt
  deriving DecidableEq

def permanentReadError : ManifestReadError → Bool
  | .blobUnknown | .corrupt | .failed .notRegular | .failed .symlink | .manifestSize => true
  | .invalidDigest | .failed .io => false

/-- A server's view of one repository: how it decodes and encodes, and what opening a
blob gives.  `encodedSize` is the length of `compactJSON`, if it encodes. -/
structure ReferrerStore (Bytes : Type) where
  codec : Codec Bytes
  encodedSize : ReferrerDescriptor → Option ℕ
  openBlob : Digest → ReadOutcome Bytes

section View

variable (store : ReferrerStore Bytes)

def readManifestBlob (row : Row) : Except ManifestReadError Bytes :=
  if row.size < 0 ∨ (maxManifestSize : ℤ) < row.size then .error .manifestSize
  else if (parseDigest row.digest).isNone then .error .invalidDigest
  else match store.openBlob row.digest with
    | .missing => .error .blobUnknown
    | .failed cause => .error (.failed cause)
    | .body body =>
      if (store.codec.len body : ℤ) ≠ row.size ∨
          store.codec.hashesTo body row.digest = false then .error .corrupt
      else .ok body

def rowDescriptor (row : Row) : ReferrerDescriptor where
  mediaType := row.mediaType
  digest := row.digest
  size := row.size
  artifactType := .plain ""
  annotations := []

/-- The subject the body names, with the document it was read from. -/
def subjectDoc (body : Bytes) : Option (ReferrerDoc × Digest) :=
  match (store.codec.json body).bind decodeReferrerDoc with
  | none => none
  | some doc =>
    match doc.subject with
    | none => none
    | some subject => (parseDigest subject.digest).map fun digest => (doc, digest)

/-- `entryOf`: what a manifest contributes to the view. -/
def entryOf (row : Row) (body : Bytes) : RefEntry :=
  match subjectDoc store body with
  | none => { subject := none, desc := rowDescriptor row, size := 64, unreadable := false }
  | some (doc, subject) =>
    let configType := (doc.config.map Descriptor.mediaType).getD (.plain "")
    let desc := { rowDescriptor row with
      artifactType := if doc.artifactType = .plain "" then configType else doc.artifactType
      annotations := doc.annotations }
    { subject := some subject
      desc := desc
      size := (store.encodedSize desc).getD (store.codec.len body)
      unreadable := false }

def readEntry (row : Row) : Option RefEntry :=
  match readManifestBlob store row with
  | .ok body => some (entryOf store row body)
  | .error cause =>
    if permanentReadError cause then
      some { subject := none, desc := rowDescriptor row, size := 64, unreadable := true }
    else none

/-- `buildReferrers`, over the rows that are left: the entries by digest, or `none` for
a view that is not whole. -/
def buildReferrers (entries : List RefEntry) : List Row → Option (List RefEntry)
  | [] => some entries
  | row :: rows =>
    if manifestTypes row.mediaType = false then buildReferrers entries rows
    else if entries.any fun entry => entry.desc.digest == row.digest then
      buildReferrers entries rows
    else match readEntry store row with
      | none => none
      | some entry => buildReferrers (entries ++ [entry]) rows

/-- `referrersOf`: the entries whose subject is `digest`, in the order of their
digests; `none` is busy.  A repository that is not there has no rows. -/
def referrersOf (rows : Option (List Row)) (digest : Digest) : Option (List RefEntry) :=
  (buildReferrers store [] (rows.getD [])).map fun entries =>
    (entries.filter fun entry => entry.subject == some digest && !entry.unreadable).insertionSort
      fun left right => digestRank left.desc.digest ≤ digestRank right.desc.digest

/-- A row that stands for its digest in the view: the first of the manifest rows. -/
def Represents (rows : List Row) (row : Row) : Prop :=
  (rows.filter fun row => manifestTypes row.mediaType).find?
    (fun other => other.digest == row.digest) = some row

end View

section View

variable {store : ReferrerStore Bytes}

theorem entryOf_digest (row : Row) (body : Bytes) :
    (entryOf store row body).desc.digest = row.digest := by
  unfold entryOf
  split <;> rfl

variable {digest : Digest} {all : List RefEntry} {rows : List Row} {entry : RefEntry} {row : Row}

theorem readEntry_digest (hentry : readEntry store row = some entry) :
    entry.desc.digest = row.digest := by
  unfold readEntry at hentry
  split at hentry
  · rw [← Option.some.inj hentry]
    exact entryOf_digest row _
  · split_ifs at hentry
    rw [← Option.some.inj hentry]
    rfl

theorem readEntry_listed (hentry : readEntry store row = some entry)
    (hsubject : entry.subject.isSome = true) :
    ∃ body, readManifestBlob store row = .ok body ∧ entry = entryOf store row body := by
  unfold readEntry at hentry
  split at hentry
  · rename_i body hread
    exact ⟨body, hread, (Option.some.inj hentry).symm⟩
  · split_ifs at hentry
    rw [← Option.some.inj hentry] at hsubject
    cases hsubject

theorem readManifestBlob_parses {body : Bytes} (hread : readManifestBlob store row = .ok body) :
    (parseDigest row.digest).isSome = true := by
  unfold readManifestBlob at hread
  split_ifs at hread with hsize hparse
  rwa [← Option.not_isSome, Bool.not_eq_true', Bool.not_eq_false] at hparse

/-! ## What the view holds -/

theorem represents_cons_of_not {other : Row} (htype : manifestTypes row.mediaType = false) :
    Represents (row :: rows) other ↔ Represents rows other := by
  rw [Represents, Represents, filter_cons_of_neg (by simp [htype])]

theorem represents_cons {other : Row} (htype : manifestTypes row.mediaType = true) :
    Represents (row :: rows) other ↔
      other = row ∨ (row.digest ≠ other.digest ∧ Represents rows other) := by
  rw [Represents, Represents, filter_cons_of_pos (by simpa using htype)]
  by_cases hsame : row.digest = other.digest
  · rw [List.find?_cons_of_pos (by simpa using hsame)]
    constructor
    · exact fun hfound => .inl (Option.some.inj hfound).symm
    rintro (rfl | ⟨hne, -⟩)
    · rfl
    · exact absurd hsame hne
  · rw [List.find?_cons_of_neg (by simpa using hsame)]
    have hother : other ≠ row := fun heq => hsame (by rw [heq])
    simp [hsame, hother]

theorem mem_buildReferrers {entries : List RefEntry}
    (hbuild : buildReferrers store entries rows = some all) (entry : RefEntry) :
    entry ∈ all ↔ entry ∈ entries ∨ ∃ row, Represents rows row ∧
      (∀ known ∈ entries, known.desc.digest ≠ row.digest) ∧ readEntry store row = some entry := by
  induction rows generalizing entries with
  | nil =>
    rw [← Option.some.inj hbuild]
    simp [Represents]
  | cons row rows ih =>
    rw [buildReferrers] at hbuild
    split_ifs at hbuild with htype hknown
    · rw [ih hbuild]
      simp only [represents_cons_of_not htype]
    · rw [ih hbuild]
      rw [Bool.not_eq_false] at htype
      obtain ⟨known, hmem, hdigest⟩ := any_eq_true.1 hknown
      rw [beq_iff_eq] at hdigest
      refine or_congr_right (exists_congr fun other => ?_)
      rw [represents_cons htype]
      constructor
      · rintro ⟨hother, hnew, hread⟩
        refine ⟨.inr ⟨?_, hother⟩, hnew, hread⟩
        exact fun hsame => hnew known hmem (hdigest.trans hsame)
      · rintro ⟨rfl | ⟨-, hother⟩, hnew, hread⟩
        · exact absurd hdigest (hnew known hmem)
        · exact ⟨hother, hnew, hread⟩
    rw [Bool.not_eq_false] at htype
    split at hbuild
    · cases hbuild
    rename_i added hadded
    have haddedDigest := readEntry_digest hadded
    have hunknown : ∀ known ∈ entries, known.desc.digest ≠ row.digest := by
      intro known hmem hsame
      exact hknown (any_eq_true.2 ⟨known, hmem, beq_iff_eq.2 hsame⟩)
    rw [ih hbuild, mem_append, mem_singleton, or_assoc]
    apply or_congr_right
    constructor
    · rintro (rfl | ⟨other, hother, hnew, hread⟩)
      · exact ⟨row, (represents_cons htype).2 (.inl rfl), hunknown, hadded⟩
      have hne : row.digest ≠ other.digest := by
        rw [← haddedDigest]
        exact hnew added (by simp)
      refine ⟨other, (represents_cons htype).2 (.inr ⟨hne, hother⟩), ?_, hread⟩
      exact fun known hmem => hnew known (mem_append_left _ hmem)
    rintro ⟨other, hother, hnew, hread⟩
    rcases (represents_cons htype).1 hother with rfl | ⟨hne, hother⟩
    · exact .inl (Option.some.inj (hread.symm.trans hadded))
    refine .inr ⟨other, hother, ?_, hread⟩
    intro known hmem
    rcases mem_append.1 hmem with hmem | hmem
    · exact hnew known hmem
    · rw [mem_singleton.1 hmem, haddedDigest]
      exact hne

theorem buildReferrers_nodup {entries : List RefEntry}
    (hbuild : buildReferrers store entries rows = some all)
    (hnodup : (entries.map fun entry => entry.desc.digest).Nodup) :
    (all.map fun entry => entry.desc.digest).Nodup := by
  induction rows generalizing entries with
  | nil =>
    rw [← Option.some.inj hbuild]
    exact hnodup
  | cons row rows ih =>
    rw [buildReferrers] at hbuild
    split_ifs at hbuild with htype hknown
    · exact ih hbuild hnodup
    · exact ih hbuild hnodup
    split at hbuild
    · cases hbuild
    rename_i added hadded
    apply ih hbuild
    rw [map_append, map_singleton, nodup_append]
    refine ⟨hnodup, nodup_singleton _, ?_⟩
    intro digest hdigest other hother
    rw [mem_singleton.1 hother, readEntry_digest hadded]
    rintro rfl
    obtain ⟨known, hmem, hsame⟩ := mem_map.1 hdigest
    exact hknown (any_eq_true.2 ⟨known, hmem, beq_iff_eq.2 hsame⟩)

/-- The referrers of a digest: the manifests, each once, that were read from their
blobs and name it as their subject. -/
theorem mem_referrersOf {rows : Option (List Row)} (hall : referrersOf store rows digest = some all)
    (entry : RefEntry) :
    entry ∈ all ↔ ∃ row body, Represents (rows.getD []) row ∧
      readManifestBlob store row = .ok body ∧ entry = entryOf store row body ∧
      entry.subject = some digest := by
  obtain ⟨entries, hbuild, rfl⟩ := Option.map_eq_some_iff.1 hall
  rw [mem_insertionSort, mem_filter, mem_buildReferrers hbuild]
  simp only [not_mem_nil, false_or, false_imp_iff, implies_true, true_and, Bool.and_eq_true,
    beq_iff_eq, Bool.not_eq_true']
  constructor
  · rintro ⟨⟨row, hrow, hread⟩, hsubject, -⟩
    obtain ⟨body, hbody, hentry⟩ := readEntry_listed hread (by rw [hsubject]; rfl)
    exact ⟨row, body, hrow, hbody, hentry, hsubject⟩
  · rintro ⟨row, body, hrow, hbody, rfl, hsubject⟩
    refine ⟨⟨row, hrow, by rw [readEntry, hbody]⟩, hsubject, ?_⟩
    unfold entryOf
    split <;> rfl

theorem digestRank_injective {left right : Digest} (hleft : (parseDigest left).isSome = true)
    (hright : (parseDigest right).isSome = true) (hrank : digestRank left = digestRank right) :
    left = right := by
  cases left <;> cases right <;> simp_all [digestRank, parseDigest]

theorem referrersOf_parses {rows : Option (List Row)}
    (hall : referrersOf store rows digest = some all) (hentry : entry ∈ all) :
    (parseDigest entry.desc.digest).isSome = true := by
  obtain ⟨row, body, -, hread, rfl, -⟩ := (mem_referrersOf hall entry).1 hentry
  rw [entryOf_digest]
  exact readManifestBlob_parses hread

theorem referrersOf_pairwise {rows : Option (List Row)}
    (hall : referrersOf store rows digest = some all) :
    all.Pairwise fun left right => digestRank left.desc.digest < digestRank right.desc.digest := by
  have hparses : ∀ entry ∈ all, (parseDigest entry.desc.digest).isSome = true :=
    fun entry => referrersOf_parses hall
  obtain ⟨entries, hbuild, rfl⟩ := Option.map_eq_some_iff.1 hall
  have hnodup : (entries.map fun entry => entry.desc.digest).Nodup :=
    buildReferrers_nodup hbuild nodup_nil
  have hdistinct := (pairwise_map.1 hnodup).filter
    fun entry => entry.subject == some digest && !entry.unreadable
  have hsorted := (pairwise_insertionSort (fun left right : RefEntry =>
    digestRank left.desc.digest ≤ digestRank right.desc.digest)
    (entries.filter fun entry => entry.subject == some digest && !entry.unreadable)).and
    ((perm_insertionSort _ _).symm.pairwise hdistinct fun hne => hne.symm)
  refine hsorted.imp_of_mem ?_
  rintro left right hleft hright ⟨hle, hne⟩
  exact lt_of_le_of_ne hle fun hrank =>
    hne (digestRank_injective (hparses left hleft) (hparses right hright) hrank)

end View

end K3sm.Registry.Listing
