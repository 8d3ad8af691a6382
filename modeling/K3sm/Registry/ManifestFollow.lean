import K3sm.Registry.SweepRace

/-!
# What a PUT accepts, the collector can follow

`checkManifest` lets the collector's own reader refuse a body first, so a body it accepts never
stops a sweep.  Their configs agree exactly when the last thing the body's `config` members say of
the digest is a digest and not a null.
-/

namespace K3sm.Registry.Gc

open K3sm.Core List

variable {Bytes : Type}

def bodyMembers (codec : Codec Bytes) (body : Bytes) : List (Key × Json) :=
  match codec.json body with
  | some (.obj members) => members
  | _ => []

def digestSaid : Key × Json → Option Text
  | (.digest, .str text) => some text
  | _ => none

/-- What a body's member says of the config's digest: a null config says there
is none. -/
def configSaid : Key × Json → List (Option Text)
  | (.config, .null) => [none]
  | (.config, .obj fields) => (fields.filterMap digestSaid).map some
  | _ => []

/-- All that is said of the config's digest, in the order of the body. -/
def configWords (codec : Codec Bytes) (body : Bytes) : List (Option Text) :=
  (bodyMembers codec body).flatMap configSaid

def configStands (codec : Codec Bytes) (body : Bytes) : Prop :=
  (configWords codec body).getLast? ≠ some none

/-- One member's effect on the descriptor list the key names. -/
def sliceStep (key : Key) (current : Option Slice) (member : Key × Json) : Option (Option Slice) :=
  if member.1 = key then decodeSlice current member.2 else some current

def listedUnder (key : Key) (codec : Codec Bytes) (body : Bytes) : List Text :=
  (sliceElements
    (((bodyMembers codec body).foldlM (sliceStep key) none).getD none)).map Descriptor.digest

/-- A digest that the body's config members name, and its layers or manifests
too. -/
def configListed (codec : Codec Bytes) (body : Bytes) : Prop :=
  ∃ digest, ((configWords codec body).filterMap id).getLast? = some digest ∧
    (digest ∈ listedUnder .layers codec body ∨ digest ∈ listedUnder .manifests codec body)

def marks (refs : Refs) : List Digest := (Walk.start.follow refs).referenced

/-- The collector reads what a PUT accepted, marks from it all that the PUT required or
recorded, and no plan that keeps the manifest reaps any of that. -/
structure FollowedBy (codec : Codec Bytes) (body : Bytes) (checked : CheckedManifest)
    (refs : Refs) : Prop where
  parses : parseBody codec body = .ok refs
  read : ∀ digest, codec.hashesTo body digest = true → codec.len body ≤ maxManifestSize →
    (manifestRead codec digest (.body body)).result = .ok refs
  marked : ∀ digest ∈ checked.needs ++ checked.children, digest ∈ marks refs
  kept : ∀ (input : PlanInput) (steps : ℕ) (walked : Walked),
    walkPlan input steps = .ok walked → ∀ manifest ∈ walked.keepSet,
    Readable input manifest refs → ∀ digest ∈ checked.needs ++ checked.children,
    digest ∉ (walked.plan input).blobs

variable {body : Bytes} {checked : CheckedManifest} {codec : Codec Bytes} {digest : Digest}
  {manifest : ImageManifest} {member : Key × Json} {refs : Refs} {mediaType : Text}

theorem mem_marks : digest ∈ marks refs ↔ digest ∈ refs.blobs ∨ digest ∈ refs.children := by
  have hfollow := (extends_follow Walk.start refs).referenced digest
  simpa [marks, Walk.start, or_comm] using hfollow

theorem sliceStep_of_layersStep {before after : Option Slice}
    (hstep : LayersStep before member after) : sliceStep .layers before member = some after := by
  unfold LayersStep at hstep
  unfold sliceStep
  split_ifs at hstep ⊢
  · exact hstep
  · rw [hstep]

theorem decodeRefsMember_manifests {refs' : Refs}
    (hstep : decodeRefsMember refs member = some refs') :
    sliceStep .manifests refs.manifests member = some refs'.manifests := by
  obtain ⟨key, value⟩ := member
  cases key <;>
    simp only [decodeRefsMember, Option.map_eq_some_iff, Option.some.injEq] at hstep <;>
    first
      | (obtain ⟨decoded, hdecoded, rfl⟩ := hstep; simp [sliceStep, hdecoded])
      | (subst hstep; simp [sliceStep])

theorem decodeIndexMember_manifests {index index' : ImageManifest}
    (hstep : decodeIndexMember index member = some index') :
    sliceStep .manifests index.manifests member = some index'.manifests := by
  obtain ⟨key, value⟩ := member
  cases key <;>
    simp only [decodeIndexMember, decodeCommonMember, Option.map_eq_some_iff,
      Option.some.injEq, Option.ite_none_right_eq_some] at hstep <;>
    first
      | (obtain ⟨decoded, hdecoded, rfl⟩ := hstep; simp [sliceStep, hdecoded])
      | (obtain ⟨_, rfl⟩ := hstep; simp [sliceStep])

def structWord (current : Text) (word : Option Text) : Text := word.getD current

def pointerWord (_ : Text) (word : Option Text) : Text := word.getD (.plain "")

def pointerDigest (pointer : Option Descriptor) : Text :=
  (pointer.map Descriptor.digest).getD (.plain "")

theorem decodeDescriptorMember_digest {before after : Descriptor}
    (hstep : decodeDescriptorMember before member = some after) :
    after.digest = (digestSaid member).getD before.digest := by
  obtain ⟨key, value⟩ := member
  cases key with
  | digest =>
    simp only [decodeDescriptorMember, Option.map_eq_some_iff] at hstep
    obtain ⟨text, htext, rfl⟩ := hstep
    cases value <;> simp_all [decodeText, digestSaid]
  | mediaType | size =>
    simp only [decodeDescriptorMember, Option.map_eq_some_iff] at hstep
    obtain ⟨decoded, -, rfl⟩ := hstep
    rfl
  | _ =>
    simp only [decodeDescriptorMember, Option.some.injEq] at hstep
    rw [← hstep]
    rfl

/-- An object's words on the digest are the same for a struct and a pointer, as
none of them is a null. -/
theorem decodeFields_digest {before after : Descriptor} {fields : List (Key × Json)}
    (word : Text → Option Text → Text) (hword : ∀ current text, word current (some text) = text)
    (hfields : fields.foldlM decodeDescriptorMember before = some after) :
    after.digest = ((fields.filterMap digestSaid).map some).foldl word before.digest := by
  induction fields generalizing before with
  | nil =>
    simp only [foldlM_nil, Option.pure_def, Option.some.injEq] at hfields
    rw [hfields]
    rfl
  | cons field fields ih =>
    simp only [foldlM_cons, Option.bind_eq_bind, Option.bind_eq_some_iff] at hfields
    obtain ⟨next, hnext, hrest⟩ := hfields
    have hdigest := decodeDescriptorMember_digest hnext
    rw [ih hrest, hdigest]
    cases hsaid : digestSaid field with
    | none => simp [hsaid]
    | some text => simp [hsaid, hword]

theorem decodeManifestMember_config {manifest' : ImageManifest}
    (hstep : decodeManifestMember manifest member = some manifest') :
    some ((configSaid member).foldl structWord manifest.config.digest) =
      some manifest'.config.digest := by
  obtain ⟨key, value⟩ := member
  cases key with
  | config =>
    simp only [decodeManifestMember, Option.map_eq_some_iff] at hstep
    obtain ⟨config, hconfig, rfl⟩ := hstep
    cases value with
    | null =>
      simp only [decodeDescriptor, Option.some.injEq] at hconfig
      rw [← hconfig]
      rfl
    | obj fields => rw [configSaid, ← decodeFields_digest structWord (fun _ _ => rfl) hconfig]
    | _ => simp [decodeDescriptor] at hconfig
  | _ =>
    simp only [decodeManifestMember, decodeCommonMember, Option.map_eq_some_iff,
      Option.some.injEq, Option.ite_none_right_eq_some] at hstep
    obtain ⟨_, _, rfl⟩ := hstep
    rfl

theorem decodePointer_digest {before after : Option Descriptor} {fields : List (Key × Json)}
    (hpointer : decodePointer before (.obj fields) = some after) :
    pointerDigest after =
      ((fields.filterMap digestSaid).map some).foldl pointerWord (pointerDigest before) := by
  simp only [decodePointer, decodeDescriptor, Option.map_eq_some_iff] at hpointer
  obtain ⟨desc, hdesc, rfl⟩ := hpointer
  have hdigest := decodeFields_digest pointerWord (fun _ _ => rfl) hdesc
  cases before with
  | none | some config => exact hdigest

theorem decodeRefsMember_config {refs' : Refs} (hstep : decodeRefsMember refs member = some refs') :
    some ((configSaid member).foldl pointerWord (pointerDigest refs.config)) =
      some (pointerDigest refs'.config) := by
  obtain ⟨key, value⟩ := member
  cases key with
  | config =>
    simp only [decodeRefsMember, Option.map_eq_some_iff] at hstep
    obtain ⟨config, hconfig, rfl⟩ := hstep
    cases value with
    | null =>
      simp only [decodePointer, Option.some.injEq] at hconfig
      rw [← hconfig]
      rfl
    | obj fields => rw [configSaid, decodePointer_digest hconfig]
    | _ => simp [decodePointer, decodeDescriptor] at hconfig
  | _ =>
    simp only [decodeRefsMember, Option.map_eq_some_iff, Option.some.injEq] at hstep
    obtain ⟨decoded, -, rfl⟩ := hstep
    rfl

theorem foldlM_configSaid (word : Text → Option Text → Text) (members : List (Key × Json))
    (start : Text) :
    members.foldlM (fun current member => some ((configSaid member).foldl word current)) start =
      some ((members.flatMap configSaid).foldl word start) := by
  rw [foldl_flatMap]
  exact foldlM_pure

theorem foldl_pointerWord (words : List (Option Text)) :
    words.foldl pointerWord (.plain "") = (words.getLast?.getD none).getD (.plain "") := by
  rcases eq_nil_or_concat words with rfl | ⟨earlier, last, rfl⟩
  · rfl
  · simp [pointerWord]

theorem foldl_structWord (words : List (Option Text)) (start : Text) :
    words.foldl structWord start = (words.filterMap id).getLast?.getD start := by
  induction words generalizing start with
  | nil => rfl
  | cons word words ih =>
    rw [foldl_cons, ih]
    cases word with
    | none => rfl
    | some text => simp [structWord, List.getLast?_cons]

/-! ## Both readings of an accepted body -/

theorem decodeRefs_members (hrefs : (codec.json body).bind decodeRefs = some refs) :
    refs.layers = ((bodyMembers codec body).foldlM (sliceStep .layers) none).getD none ∧
      refs.manifests = ((bodyMembers codec body).foldlM (sliceStep .manifests) none).getD none ∧
      pointerDigest refs.config = (configWords codec body).foldl pointerWord (.plain "") := by
  obtain ⟨value, hvalue, hdecode⟩ := Option.bind_eq_some_iff.1 hrefs
  cases value with
  | null =>
    simp only [decodeRefs, Option.some.injEq] at hdecode
    simp [configWords, bodyMembers, hvalue, ← hdecode, Refs.zero, pointerDigest]
  | obj members =>
    simp only [decodeRefs] at hdecode
    simp only [configWords, bodyMembers, hvalue]
    have hlayers := foldlM_project Refs.layers (sliceStep .layers)
      (fun _ _ _ hstep => sliceStep_of_layersStep (decodeRefsMember_layers hstep)) hdecode
    have hmanifests := foldlM_project Refs.manifests (sliceStep .manifests)
      (fun _ _ _ => decodeRefsMember_manifests) hdecode
    have hconfig := foldlM_project (fun refs => pointerDigest refs.config)
      (fun current member => some ((configSaid member).foldl pointerWord current))
      (fun _ _ _ => decodeRefsMember_config) hdecode
    rw [foldlM_configSaid] at hconfig
    refine ⟨?_, ?_, (Option.some.inj hconfig).symm⟩
    · exact congrArg (fun decoded => decoded.getD none) hlayers.symm
    · exact congrArg (fun decoded => decoded.getD none) hmanifests.symm
  | _ => simp [decodeRefs] at hdecode

theorem decodeManifest_members
    (hmanifest : (codec.json body).bind (decodeInto decodeManifestMember) = some manifest) :
    manifest.config.digest = (configWords codec body).foldl structWord (.plain "") := by
  obtain ⟨value, hvalue, hdecode⟩ := Option.bind_eq_some_iff.1 hmanifest
  cases value with
  | null =>
    simp only [decodeInto, Option.some.injEq] at hdecode
    simp [configWords, bodyMembers, hvalue, ← hdecode, ImageManifest.zero, zeroDescriptor]
  | obj members =>
    simp only [decodeInto] at hdecode
    simp only [configWords, bodyMembers, hvalue]
    have hconfig := foldlM_project (fun manifest => manifest.config.digest)
      (fun current member => some ((configSaid member).foldl structWord current))
      (fun _ _ _ => decodeManifestMember_config) hdecode
    rw [foldlM_configSaid] at hconfig
    exact (Option.some.inj hconfig).symm
  | _ => simp [decodeInto] at hdecode

theorem decodeIndex_members {index : ImageManifest}
    (hindex : (codec.json body).bind (decodeInto decodeIndexMember) = some index) :
    index.manifests = ((bodyMembers codec body).foldlM (sliceStep .manifests) none).getD none := by
  obtain ⟨value, hvalue, hdecode⟩ := Option.bind_eq_some_iff.1 hindex
  cases value with
  | null =>
    simp only [decodeInto, Option.some.injEq] at hdecode
    simp [bodyMembers, hvalue, ← hdecode, ImageManifest.zero]
  | obj members =>
    simp only [decodeInto] at hdecode
    simp only [bodyMembers, hvalue]
    have hmanifests := foldlM_project ImageManifest.manifests (sliceStep .manifests)
      (fun _ _ _ => decodeIndexMember_manifests) hdecode
    exact congrArg (fun decoded => decoded.getD none) hmanifests.symm
  | _ => simp [decodeInto] at hdecode

theorem parseDigest_eq_self (hsome : (parseDigest digest).isSome = true) :
    parseDigest digest = some digest := by
  cases digest with
  | plain text => simp [parseDigest] at hsome
  | _ => rfl

theorem parseDigest_of_descriptorDigest {role : Role} {desc : Descriptor}
    (hok : descriptorDigest role desc = .ok digest) : parseDigest digest = some digest := by
  apply parseDigest_eq_self
  unfold descriptorDigest at hok
  split_ifs at hok with hnone
  cases hok
  simpa [Option.isSome_iff_ne_none] using hnone

theorem parseDigest_of_mapM {role : Role} {descs : List Descriptor} {digests : List Digest}
    (hok : descs.mapM (descriptorDigest role) = .ok digests) :
    ∀ digest ∈ digests, parseDigest digest = some digest := by
  induction descs generalizing digests with
  | nil =>
    cases hok
    simp
  | cons desc descs ih =>
    rw [mapM_cons] at hok
    simp only [bind_eq_ok_iff, pure_eq_ok_iff] at hok
    obtain ⟨first, hfirst, rest, hrest, rfl⟩ := hok
    rw [forall_mem_cons]
    exact ⟨parseDigest_of_descriptorDigest hfirst, ih hrest⟩

theorem index_children_marked (hindex : isIndexType mediaType = true)
    (hchecked : checkManifest codec mediaType body = .ok checked)
    (hparse : parseBody codec body = .ok refs) :
    ∀ digest ∈ checked.needs ++ checked.children, digest ∈ marks refs := by
  simp only [checkManifest, hparse, hindex, if_true] at hchecked
  split at hchecked
  · cases hchecked
  rename_i index hdecoded
  simp only [bind_eq_ok_iff, pure_eq_ok_iff] at hchecked
  obtain ⟨-, -, children, hchildren, -, -, rfl⟩ := hchecked
  intro digest hdigest
  have hmem : digest ∈ children := by simpa using hdigest
  have hself := parseDigest_of_mapM hchildren digest hmem
  have hmanifests : index.manifests = refs.manifests := by
    rw [decodeIndex_members hdecoded, (decodeRefs_members (parseBody_decodes hparse)).2.1]
  rw [mapM_descriptorDigest hchildren, hmanifests] at hmem
  obtain ⟨child, hchild, rfl⟩ := mem_map.1 hmem
  exact mem_marks.2 (.inr (mem_filterMap.2 ⟨child, hchild, hself⟩))

theorem image_requires (himage : isIndexType mediaType = false)
    (hchecked : checkManifest codec mediaType body = .ok checked) :
    ∃ manifest, (codec.json body).bind (decodeInto decodeManifestMember) = some manifest ∧
      parseDigest manifest.config.digest = some manifest.config.digest ∧
      checked.children = [] ∧ checked.needs = manifest.config.digest ::
        ((sliceElements manifest.layers).filter (requiresLayer mediaType)).map
          Descriptor.digest := by
  obtain ⟨refs, hparse⟩ := checkManifest_parses hchecked
  simp only [checkManifest, hparse, himage, Bool.false_eq_true, if_false] at hchecked
  split at hchecked
  · cases hchecked
  rename_i manifest hmanifest
  simp only [bind_eq_ok_iff, pure_eq_ok_iff] at hchecked
  obtain ⟨-, -, config, hconfig, -, -, -, -, rfl⟩ := hchecked
  have hself := parseDigest_of_descriptorDigest hconfig
  rw [descriptorDigest_eq hconfig] at hself
  exact ⟨manifest, hmanifest, hself, rfl, by rw [descriptorDigest_eq hconfig]⟩

section

variable (hrefs : (codec.json body).bind decodeRefs = some refs)

include hrefs

theorem mem_listedUnder_layers :
    digest ∈ listedUnder .layers codec body ↔
      digest ∈ (sliceElements refs.layers).map Descriptor.digest := by
  rw [listedUnder, (decodeRefs_members hrefs).1]

theorem mem_listedUnder_manifests (hself : parseDigest digest = some digest) :
    digest ∈ listedUnder .manifests codec body ↔ digest ∈ refs.children := by
  rw [listedUnder, ← (decodeRefs_members hrefs).2.1, Refs.children, mem_map, mem_filterMap]
  constructor
  · rintro ⟨child, hchild, rfl⟩
    exact ⟨child, hchild, hself⟩
  · rintro ⟨child, hchild, hparsed⟩
    have hsame := parseDigest_eq_self (Option.isSome_iff_exists.2 ⟨digest, hparsed⟩)
    exact ⟨child, hchild, Option.some.inj (hsame.symm.trans hparsed)⟩

theorem config_read_iff
    (hmanifest : (codec.json body).bind (decodeInto decodeManifestMember) = some manifest)
    (hself : parseDigest manifest.config.digest = some manifest.config.digest) :
    manifest.config.digest ∈ (refs.config.map Descriptor.digest).toList ↔
      configStands codec body := by
  have hpointer := (decodeRefs_members hrefs).2.2
  have hstruct := decodeManifest_members hmanifest
  rw [foldl_pointerWord] at hpointer
  have hproper : manifest.config.digest ≠ .plain "" := by
    intro hempty
    simp [hempty, parseDigest] at hself
  have hread : manifest.config.digest ∈ (refs.config.map Descriptor.digest).toList ↔
      pointerDigest refs.config = manifest.config.digest := by
    cases hconfig : refs.config with
    | none => simp [pointerDigest, hproper.symm]
    | some config => simp [pointerDigest, eq_comm]
  rw [hread, hpointer, configStands]
  rcases eq_nil_or_concat (configWords codec body) with hnil | ⟨earlier, last, hlast⟩
  · rw [hnil] at hstruct
    exact absurd hstruct hproper
  · rw [hlast] at hstruct ⊢
    cases last with
    | none => simpa using hproper.symm
    | some text => simp [hstruct, structWord]

end

theorem configListed_iff
    (hmanifest : (codec.json body).bind (decodeInto decodeManifestMember) = some manifest)
    (hself : parseDigest manifest.config.digest = some manifest.config.digest) :
    configListed codec body ↔ manifest.config.digest ∈ listedUnder .layers codec body ∨
      manifest.config.digest ∈ listedUnder .manifests codec body := by
  have hstruct := decodeManifest_members hmanifest
  rw [foldl_structWord] at hstruct
  rw [configListed]
  cases hlast : ((configWords codec body).filterMap id).getLast? with
  | none =>
    rw [hlast] at hstruct
    simp [hstruct, parseDigest] at hself
  | some digest =>
    rw [hlast] at hstruct
    simp [hstruct]

/-- The collector marks what an accepted image manifest requires exactly when it
reads the same config digest or finds it in another place. -/
theorem image_marked_iff (himage : isIndexType mediaType = false)
    (hchecked : checkManifest codec mediaType body = .ok checked)
    (hparse : parseBody codec body = .ok refs) :
    (∀ digest ∈ checked.needs ++ checked.children, digest ∈ marks refs) ↔
      configStands codec body ∨ configListed codec body := by
  obtain ⟨manifest, hmanifest, hself, hchildren, hneeds⟩ := image_requires himage hchecked
  have hrefs := parseBody_decodes hparse
  have hlayers : refs.layers = manifest.layers := by
    obtain ⟨value, hvalue, hdecode⟩ := Option.bind_eq_some_iff.1 hrefs
    rw [hvalue] at hmanifest
    exact decoded_layers_eq hdecode hmanifest
  -- the layers are always marked, so only the config is left
  have hconfig : (∀ digest ∈ checked.needs ++ checked.children, digest ∈ marks refs) ↔
      manifest.config.digest ∈ marks refs := by
    rw [hneeds, hchildren, append_nil, forall_mem_cons, and_iff_left_iff_imp]
    intro _ digest hdigest
    obtain ⟨layer, hlayer, rfl⟩ := mem_map.1 hdigest
    rw [mem_marks, Refs.blobs, hlayers]
    exact .inl (mem_append_right _ (mem_map_of_mem (mem_of_mem_filter hlayer)))
  rw [hconfig, mem_marks, Refs.blobs, mem_append,
    config_read_iff hrefs hmanifest hself, configListed_iff hmanifest hself,
    mem_listedUnder_layers hrefs, mem_listedUnder_manifests hrefs hself, or_assoc]

theorem marked_not_reaped {input : PlanInput} {steps : ℕ} {walked : Walked} {manifest : Digest}
    (hwalk : walkPlan input steps = .ok walked) (hkept : manifest ∈ walked.keepSet)
    (hreads : Readable input manifest refs) (hmarked : digest ∈ marks refs) :
    digest ∉ (walked.plan input).blobs := by
  have hinv := walkPlan_inv hwalk
  have hnames : Names input manifest digest := by
    rcases mem_marks.1 hmarked with hblob | hchild
    · exact .inl ⟨refs, hreads, hblob⟩
    · exact .inr (.inl ⟨refs, hreads, hchild⟩)
  have hreferenced := hinv.referenced_of (.inr ⟨manifest, hkept, hnames⟩)
  rw [mem_plan_blobs]
  rintro ⟨blob, -, -, -, hfree⟩
  exact hfree hreferenced

theorem followedBy_of_marked (hparse : parseBody codec body = .ok refs)
    (hmarked : ∀ digest ∈ checked.needs ++ checked.children, digest ∈ marks refs) :
    FollowedBy codec body checked refs where
  parses := hparse
  read := by
    intro digest hhash hlen
    simp [manifestRead, hhash, Nat.not_lt.2 hlen, hparse]
  marked := hmarked
  kept := fun _ _ _ hwalk _ hkept hreads digest hdigest =>
    marked_not_reaped hwalk hkept hreads (hmarked digest hdigest)

/-- The collector follows an accepted body exactly when it is an index, or its
last word on the config's digest is no null, or its layers or manifests name
that digest as well. -/
theorem accepted_followed_iff {codec : Codec Bytes} {mediaType : Text} {body : Bytes}
    {checked : CheckedManifest} (hchecked : checkManifest codec mediaType body = .ok checked) :
    (∃ refs, FollowedBy codec body checked refs) ↔
      isIndexType mediaType = true ∨ configStands codec body ∨ configListed codec body := by
  obtain ⟨refs, hparse⟩ := checkManifest_parses hchecked
  have hfollowed : (∃ refs, FollowedBy codec body checked refs) ↔
      ∀ digest ∈ checked.needs ++ checked.children, digest ∈ marks refs := by
    constructor
    · rintro ⟨refs', hrefs'⟩
      have hsame : refs = refs' := Except.ok.inj (hparse.symm.trans hrefs'.parses)
      rw [hsame]
      exact hrefs'.marked
    · exact fun hmarked => ⟨refs, followedBy_of_marked hparse hmarked⟩
  rw [hfollowed]
  cases hindex : isIndexType mediaType with
  | true => simpa using index_children_marked hindex hchecked hparse
  | false => simpa using image_marked_iff hindex hchecked hparse

theorem demo_accepted_followed :
    checkManifest demoCodec mediaTypeImageManifest 0 = .ok demoPut.checked ∧
      ∃ refs, FollowedBy demoCodec 0 demoPut.checked refs := by
  have hwords : configWords demoCodec 0 = [some (.sha256 1)] := rfl
  have haccepted : checkManifest demoCodec mediaTypeImageManifest 0 = .ok demoPut.checked := rfl
  refine ⟨haccepted, (accepted_followed_iff haccepted).2 (.inr (.inl ?_))⟩
  simp [configStands, hwords]

/-- The PUT accepts the body that gives its config three times, and requires the
first; the collector marks nothing from it but the empty digest. -/
theorem split_not_followed :
    checkManifest splitCodec mediaTypeImageManifest 0 = .ok splitPut.checked ∧
      ¬ ∃ refs, FollowedBy splitCodec 0 splitPut.checked refs := by
  refine ⟨rfl, ?_⟩
  rintro ⟨refs, hfollowed⟩
  have hmarks : (parseBody splitCodec 0).map marks = .ok [.plain ""] := rfl
  rw [hfollowed.parses] at hmarks
  have hneed := hfollowed.marked (.sha256 1) (by decide)
  rw [Except.ok.inj hmarks] at hneed
  simp at hneed

end K3sm.Registry.Gc
