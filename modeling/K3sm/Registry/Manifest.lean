import K3sm.Core.Except
import K3sm.Registry.Rows

/-!
# Manifest bodies, as the collector and the server read them

A body is decoded twice: by the garbage collector into `refs`, whose `config` is a pointer, and by
the server's PUT into `ispec.Manifest`, whose `config` is a struct.  Both go through
`encoding/json`, which takes object members in order and merges a repeated key into what the
earlier one left.
-/

namespace K3sm.Registry

open K3sm.Core Option

/-- An object key, as the field it names: keys match field names without
regard to case. -/
inductive Key where
  | schemaVersion
  | mediaType
  | config
  | layers
  | manifests
  | subject
  | artifactType
  | fsLayers
  | annotations
  | digest
  | size
  | other (text : Text)
  deriving DecidableEq

/-- A JSON value with its object members in order, repeated keys included. -/
inductive Json where
  | null
  | bool (value : Bool)
  | int (value : ℤ)
  | number (text : String)
  | str (text : Text)
  | arr (elements : List Json)
  | obj (members : List (Key × Json))

/-- What the registry takes from outside: JSON decoding, hashing, and the
artifact type rule.  Digests are collision free. -/
structure Codec (Bytes : Type) where
  len : Bytes → ℕ
  json : Bytes → Option Json
  /-- The string tokens the decoder yields before it stops, keys included. -/
  tokens : Bytes → List Text
  sha256 : Bytes → ℕ
  sha512 : Bytes → ℕ
  sha256_injective : Function.Injective sha256
  sha512_injective : Function.Injective sha512
  artifactType : Text → Text → Text

variable {Bytes : Type}

/-- `d.Algorithm().FromBytes(b) == d`. -/
def Codec.hashesTo (codec : Codec Bytes) (body : Bytes) : Digest → Bool
  | .sha256 encoded => codec.sha256 body == encoded
  | .sha512 encoded => codec.sha512 body == encoded
  | .plain _ => false

theorem Codec.hashesTo_unique (codec : Codec Bytes) {left right : Bytes}
    {digest : Digest} (hleft : codec.hashesTo left digest = true)
    (hright : codec.hashesTo right digest = true) : left = right := by
  cases digest with
  | sha256 encoded =>
    simp only [Codec.hashesTo, beq_iff_eq] at hleft hright
    exact codec.sha256_injective (hleft.trans hright.symm)
  | sha512 encoded =>
    simp only [Codec.hashesTo, beq_iff_eq] at hleft hright
    exact codec.sha512_injective (hleft.trans hright.symm)
  | plain text => simp [Codec.hashesTo] at hleft

/-- A string field: null leaves it, anything but a string is a type error. -/
def decodeText (current : Text) : Json → Option Text
  | .null => some current
  | .str text => some text
  | _ => none

def decodeInt (current : ℤ) : Json → Option ℤ
  | .null => some current
  | .int value => if -2 ^ 63 ≤ value ∧ value < 2 ^ 63 then some value else none
  | _ => none

def zeroDescriptor : Descriptor := ⟨.plain "", .plain "", 0⟩

def decodeDescriptorMember (current : Descriptor) : Key × Json → Option Descriptor
  | (.mediaType, value) =>
    (decodeText current.mediaType value).map fun text =>
      { current with mediaType := text }
  | (.digest, value) =>
    (decodeText current.digest value).map fun text =>
      { current with digest := text }
  | (.size, value) =>
    (decodeInt current.size value).map fun size => { current with size := size }
  | _ => some current

def decodeDescriptor (current : Descriptor) : Json → Option Descriptor
  | .null => some current
  | .obj members => members.foldlM decodeDescriptorMember current
  | _ => none

/-- A descriptor held by pointer: null clears it, and an object merges into
the descriptor the pointer holds. -/
def decodePointer (current : Option Descriptor) : Json → Option (Option Descriptor)
  | .null => some none
  | value => (decodeDescriptor (current.getD zeroDescriptor) value).map some

/-- A slice: its backing array, elements past the length included, since a
repeated key decodes over them. -/
structure Slice where
  backing : List Descriptor
  len : ℕ
  deriving DecidableEq

def Slice.elements (slice : Slice) : List Descriptor := slice.backing.take slice.len

def decodeElements : List Descriptor → List Json → Option (List Descriptor)
  | backing, [] => some backing
  | backing, value :: values => do
    let element ← decodeDescriptor (backing.headD zeroDescriptor) value
    let rest ← decodeElements backing.tail values
    return element :: rest

/-- A descriptor list: null makes it nil, an empty array a new empty slice. -/
def decodeSlice (current : Option Slice) : Json → Option (Option Slice)
  | .null => some none
  | .arr [] => some (some ⟨[], 0⟩)
  | .arr values =>
    (decodeElements ((current.map Slice.backing).getD []) values).map fun backing =>
      some ⟨backing, values.length⟩
  | _ => none

def sliceElements (slice : Option Slice) : List Descriptor :=
  (slice.map Slice.elements).getD []

/-- The collector's `refs`. -/
structure Refs where
  schemaVersion : ℤ
  mediaType : Text
  config : Option Descriptor
  layers : Option Slice
  manifests : Option Slice
  subject : Option Descriptor
  artifactType : Option Json
  fsLayers : Option Json

def Refs.zero : Refs :=
  { schemaVersion := 0, mediaType := .plain "", config := none, layers := none
    manifests := none, subject := none, artifactType := none, fsLayers := none }

def decodeRefsMember (current : Refs) : Key × Json → Option Refs
  | (.schemaVersion, value) =>
    (decodeInt current.schemaVersion value).map fun version =>
      { current with schemaVersion := version }
  | (.mediaType, value) =>
    (decodeText current.mediaType value).map fun text =>
      { current with mediaType := text }
  | (.config, value) =>
    (decodePointer current.config value).map fun config =>
      { current with config := config }
  | (.layers, value) =>
    (decodeSlice current.layers value).map fun layers =>
      { current with layers := layers }
  | (.manifests, value) =>
    (decodeSlice current.manifests value).map fun manifests =>
      { current with manifests := manifests }
  | (.subject, value) =>
    (decodePointer current.subject value).map fun subject =>
      { current with subject := subject }
  | (.artifactType, value) => some { current with artifactType := some value }
  | (.fsLayers, value) => some { current with fsLayers := some value }
  | _ => some current

def decodeRefs : Json → Option Refs
  | .null => some Refs.zero
  | .obj members => members.foldlM decodeRefsMember Refs.zero
  | _ => none

/-- The server's `ispec.Manifest` and, without config and layers, `ispec.Index`. -/
structure ImageManifest where
  schemaVersion : ℤ
  mediaType : Text
  artifactType : Text
  config : Descriptor
  layers : Option Slice
  manifests : Option Slice
  subject : Option Descriptor

def ImageManifest.zero : ImageManifest :=
  { schemaVersion := 0, mediaType := .plain "", artifactType := .plain ""
    config := zeroDescriptor, layers := none, manifests := none, subject := none }

def isStringMap : Json → Bool
  | .null => true
  | .obj members => members.all fun member => (decodeText (.plain "") member.2).isSome
  | _ => false

/-- The members `ispec.Manifest` and `ispec.Index` decode the same way. -/
def decodeCommonMember (current : ImageManifest) : Key × Json → Option ImageManifest
  | (.schemaVersion, value) =>
    (decodeInt current.schemaVersion value).map fun version =>
      { current with schemaVersion := version }
  | (.mediaType, value) =>
    (decodeText current.mediaType value).map fun text =>
      { current with mediaType := text }
  | (.artifactType, value) =>
    (decodeText current.artifactType value).map fun text =>
      { current with artifactType := text }
  | (.subject, value) =>
    (decodePointer current.subject value).map fun subject =>
      { current with subject := subject }
  | (.annotations, value) => if isStringMap value then some current else none
  | _ => some current

def decodeManifestMember (current : ImageManifest) : Key × Json → Option ImageManifest
  | (.config, value) =>
    (decodeDescriptor current.config value).map fun config =>
      { current with config := config }
  | (.layers, value) =>
    (decodeSlice current.layers value).map fun layers =>
      { current with layers := layers }
  | member => decodeCommonMember current member

def decodeIndexMember (current : ImageManifest) : Key × Json → Option ImageManifest
  | (.manifests, value) =>
    (decodeSlice current.manifests value).map fun manifests =>
      { current with manifests := manifests }
  | member => decodeCommonMember current member

def decodeInto (member : ImageManifest → Key × Json → Option ImageManifest) :
    Json → Option ImageManifest
  | .null => some ImageManifest.zero
  | .obj members => members.foldlM member ImageManifest.zero
  | _ => none

/-! ## The collector's reading -/

def mediaTypeImageManifest : Text := .plain "application/vnd.oci.image.manifest.v1+json"

def mediaTypeImageIndex : Text := .plain "application/vnd.oci.image.index.v1+json"

def mediaTypeDockerManifest : Text :=
  .plain "application/vnd.docker.distribution.manifest.v2+json"

def mediaTypeDockerManifestList : Text :=
  .plain "application/vnd.docker.distribution.manifest.list.v2+json"

/-- Why `parseBody` refuses a body. -/
inductive BodyError where
  | notJson
  | fsLayers
  | schemaVersion (version : ℤ)
  | imageWithoutConfig
  | neitherConfigNorManifests
  | unknownMediaType (mediaType : Text)
  deriving DecidableEq

def parseBody (codec : Codec Bytes) (body : Bytes) : Except BodyError Refs :=
  match (codec.json body).bind decodeRefs with
  | none => .error .notJson
  | some refs =>
    if refs.fsLayers.isSome then .error .fsLayers
    else if refs.schemaVersion ≠ 2 then .error (.schemaVersion refs.schemaVersion)
    else if refs.mediaType = mediaTypeImageManifest ∨
        refs.mediaType = mediaTypeDockerManifest then
      if refs.config.isNone then .error .imageWithoutConfig else .ok refs
    else if refs.mediaType = mediaTypeImageIndex ∨
        refs.mediaType = mediaTypeDockerManifestList then .ok refs
    else if refs.mediaType = .plain "" then
      if refs.config.isNone ∧ refs.manifests.isNone then
        .error .neitherConfigNorManifests
      else .ok refs
    else .error (.unknownMediaType refs.mediaType)

/-- Every digest among the body's JSON strings, once each. -/
def scanDigests (codec : Codec Bytes) (body : Bytes) : List Digest :=
  ((codec.tokens body).filterMap parseDigest).eraseDups

def Refs.artifactTypeOf (codec : Codec Bytes) (refs : Refs) : Text :=
  let configType := (refs.config.map Descriptor.mediaType).getD (.plain "")
  match refs.artifactType with
  | none => codec.artifactType (.plain "") configType
  | some raw =>
    match decodeText (.plain "") raw with
    | none => .plain ""
    | some text => codec.artifactType text configType

/-- The blobs an image manifest names: its config and its layers. -/
def Refs.blobs (refs : Refs) : List Digest :=
  (refs.config.map Descriptor.digest).toList ++ (sliceElements refs.layers).map Descriptor.digest

def Refs.children (refs : Refs) : List Digest :=
  (sliceElements refs.manifests).filterMap fun child => parseDigest child.digest

def isIndexType (mediaType : Text) : Bool :=
  mediaType == mediaTypeImageIndex || mediaType == mediaTypeDockerManifestList

def nonDistributable (mediaType : Text) : Bool :=
  mediaType == .plain "application/vnd.docker.image.rootfs.foreign.diff.tar.gzip" ||
  mediaType == .plain "application/vnd.oci.image.layer.nondistributable.v1.tar" ||
  mediaType == .plain "application/vnd.oci.image.layer.nondistributable.v1.tar+gzip" ||
  mediaType == .plain "application/vnd.oci.image.layer.nondistributable.v1.tar+zstd"

/-- What a descriptor is checked as, for the refusal's text. -/
inductive Role where
  | child
  | config
  | layer
  | subject
  deriving DecidableEq

inductive ManifestInvalid where
  | cannotBeRead (cause : BodyError)
  | indexDoesNotParse
  | manifestDoesNotParse
  | schemaVersion (version : ℤ)
  | mediaType (field contentType : Text)
  | digestInvalid (role : Role) (digest : Text)
  | negativeSize (role : Role) (digest : Digest)
  deriving DecidableEq

def descriptorDigest (role : Role) (desc : Descriptor) : Except ManifestInvalid Digest :=
  if (parseDigest desc.digest).isNone then .error (.digestInvalid role desc.digest)
  else if desc.size < 0 then .error (.negativeSize role desc.digest)
  else .ok desc.digest

/-- What a checked body asks to be in the store. -/
structure CheckedManifest where
  needs : List Digest
  children : List Digest
  subject : Option Digest
  artifactType : Text
  layers : List Digest
  deriving DecidableEq

def subjectOf : Option Descriptor → Except ManifestInvalid (Option Digest)
  | none => .ok none
  | some subject => (descriptorDigest .subject subject).map some

def checkHeader (decoded : ImageManifest) (mediaType : Text) : Except ManifestInvalid Unit :=
  if decoded.schemaVersion ≠ 2 then .error (.schemaVersion decoded.schemaVersion)
  else if decoded.mediaType ≠ .plain "" ∧ decoded.mediaType ≠ mediaType then
    .error (.mediaType decoded.mediaType mediaType)
  else .ok ()

def requiresLayer (mediaType : Text) (layer : Descriptor) : Bool :=
  mediaType == mediaTypeDockerManifest || !nonDistributable layer.mediaType

/-- `checkManifest`: the collector's reader decides first, then the body is
decoded as the media type says. -/
def checkManifest (codec : Codec Bytes) (mediaType : Text) (body : Bytes) :
    Except ManifestInvalid CheckedManifest :=
  match parseBody codec body with
  | .error cause => .error (.cannotBeRead cause)
  | .ok _ =>
    if isIndexType mediaType then
      match (codec.json body).bind (decodeInto decodeIndexMember) with
      | none => .error .indexDoesNotParse
      | some index => do
        checkHeader index mediaType
        let children ← (sliceElements index.manifests).mapM (descriptorDigest .child)
        let subject ← subjectOf index.subject
        return { needs := [], children := children, subject := subject
                 artifactType := .plain "", layers := [] }
    else
      match (codec.json body).bind (decodeInto decodeManifestMember) with
      | none => .error .manifestDoesNotParse
      | some manifest => do
        checkHeader manifest mediaType
        let config ← descriptorDigest .config manifest.config
        let layers := sliceElements manifest.layers
        let digests ← layers.mapM (descriptorDigest .layer)
        let subject ← subjectOf manifest.subject
        return {
          needs := config :: (layers.filter (requiresLayer mediaType)).map Descriptor.digest
          children := []
          subject := subject
          artifactType :=
            codec.artifactType manifest.artifactType manifest.config.mediaType
          layers := digests }

/-- The digest each reading takes from `config`: the collector's pointer and
the server's struct. -/
def configAgrees (codec : Codec Bytes) (body : Bytes) : Prop :=
  ∀ refs manifest, (codec.json body).bind decodeRefs = some refs →
    (codec.json body).bind (decodeInto decodeManifestMember) = some manifest →
    refs.config.map Descriptor.digest = some manifest.config.digest

def LayersStep (before : Option Slice) (member : Key × Json) (after : Option Slice) : Prop :=
  if member.1 = .layers then decodeSlice before member.2 = some after
  else after = before

variable {body : Bytes} {checked : CheckedManifest} {codec : Codec Bytes} {manifest : ImageManifest}
  {member : Key × Json} {refs : Refs} {mediaType : Text}

theorem decodeRefsMember_layers {refs' : Refs} (hstep : decodeRefsMember refs member = some refs') :
    LayersStep refs.layers member refs'.layers := by
  obtain ⟨key, value⟩ := member
  cases key <;>
    simp only [decodeRefsMember, map_eq_some_iff, some.injEq] at hstep <;>
    first
      | (obtain ⟨decoded, hdecoded, rfl⟩ := hstep; simp [LayersStep, hdecoded])
      | (subst hstep; simp [LayersStep])

theorem decodeManifestMember_layers {manifest' : ImageManifest}
    (hstep : decodeManifestMember manifest member = some manifest') :
    LayersStep manifest.layers member manifest'.layers := by
  obtain ⟨key, value⟩ := member
  cases key <;>
    simp only [decodeManifestMember, decodeCommonMember, map_eq_some_iff,
      some.injEq, ite_none_right_eq_some] at hstep <;>
    first
      | (obtain ⟨decoded, hdecoded, rfl⟩ := hstep; simp [LayersStep, hdecoded])
      | (obtain ⟨_, rfl⟩ := hstep; simp [LayersStep])

theorem LayersStep.unique {before left right : Option Slice} (hleft : LayersStep before member left)
    (hright : LayersStep before member right) : left = right := by
  unfold LayersStep at hleft hright
  split at hleft
  · rename_i hkey
    rw [if_pos hkey, hleft] at hright
    exact some.inj hright
  · rename_i hkey
    rw [if_neg hkey] at hright
    rw [hleft, hright]

theorem decodeMembers_layers {members : List (Key × Json)} {refs' : Refs}
    {manifest' : ImageManifest} (hlayers : refs.layers = manifest.layers)
    (hrefs : members.foldlM decodeRefsMember refs = some refs')
    (hmanifest : members.foldlM decodeManifestMember manifest = some manifest') :
    refs'.layers = manifest'.layers := by
  induction members generalizing refs manifest with
  | nil =>
    simp only [List.foldlM_nil, pure_def, some.injEq] at hrefs hmanifest
    rw [← hrefs, ← hmanifest, hlayers]
  | cons member members ih =>
    simp only [List.foldlM_cons, bind_eq_bind, bind_eq_some_iff]
      at hrefs hmanifest
    obtain ⟨refsNext, hrefsStep, hrefsRest⟩ := hrefs
    obtain ⟨manifestNext, hmanifestStep, hmanifestRest⟩ := hmanifest
    refine ih ?_ hrefsRest hmanifestRest
    have hleft := decodeRefsMember_layers hrefsStep
    rw [hlayers] at hleft
    exact hleft.unique (decodeManifestMember_layers hmanifestStep)

theorem decoded_layers_eq {value : Json} (hrefs : decodeRefs value = some refs)
    (hmanifest : decodeInto decodeManifestMember value = some manifest) :
    refs.layers = manifest.layers := by
  cases value with
  | null =>
    simp only [decodeRefs, decodeInto, some.injEq] at hrefs hmanifest
    rw [← hrefs, ← hmanifest]
    rfl
  | obj members => exact decodeMembers_layers rfl hrefs hmanifest
  | _ => simp [decodeRefs] at hrefs

theorem parseBody_decodes (hparse : parseBody codec body = .ok refs) :
    (codec.json body).bind decodeRefs = some refs := by
  unfold parseBody at hparse
  split at hparse
  · cases hparse
  rename_i decoded hdecoded
  rw [hdecoded]
  split_ifs at hparse <;> first | cases hparse; rfl

theorem descriptorDigest_eq {role : Role} {desc : Descriptor} {digest : Digest}
    (hok : descriptorDigest role desc = .ok digest) : digest = desc.digest := by
  unfold descriptorDigest at hok
  split_ifs at hok
  cases hok
  rfl

theorem mapM_descriptorDigest {role : Role} {descs : List Descriptor} {digests : List Digest}
    (hok : descs.mapM (descriptorDigest role) = .ok digests) :
    digests = descs.map Descriptor.digest := by
  induction descs generalizing digests with
  | nil =>
    cases hok
    rfl
  | cons desc descs ih =>
    rw [List.mapM_cons] at hok
    simp only [bind_eq_ok_iff, pure_eq_ok_iff] at hok
    obtain ⟨digest, hdigest, rest, hrest, rfl⟩ := hok
    rw [List.map_cons, descriptorDigest_eq hdigest, ih hrest]

theorem checkManifest_parses (hchecked : checkManifest codec mediaType body = .ok checked) :
    ∃ refs, parseBody codec body = .ok refs := by
  unfold checkManifest at hchecked
  split at hchecked
  · cases hchecked
  · rename_i refs hparse
    exact ⟨refs, hparse⟩

/-- What an accepted image manifest requires, in terms of its decoding; an
index requires nothing. -/
theorem checkManifest_needs (hchecked : checkManifest codec mediaType body = .ok checked) :
    checked.needs = [] ∨ ∃ manifest,
      (codec.json body).bind (decodeInto decodeManifestMember) = some manifest ∧
      checked.needs = manifest.config.digest ::
        ((sliceElements manifest.layers).filter (requiresLayer mediaType)).map
          Descriptor.digest := by
  obtain ⟨refs, hparse⟩ := checkManifest_parses hchecked
  simp only [checkManifest, hparse] at hchecked
  split at hchecked
  · split at hchecked
    · cases hchecked
    left
    simp only [bind_eq_ok_iff, pure_eq_ok_iff] at hchecked
    obtain ⟨_, _, _, _, _, _, rfl⟩ := hchecked
    rfl
  · split at hchecked
    · cases hchecked
    rename_i manifest hmanifest
    right
    simp only [bind_eq_ok_iff, pure_eq_ok_iff] at hchecked
    obtain ⟨_, _, config, hconfig, _, _, _, _, rfl⟩ := hchecked
    exact ⟨manifest, hmanifest, by rw [descriptorDigest_eq hconfig]⟩

theorem checkManifest_image (hindex : isIndexType mediaType = false)
    (hchecked : checkManifest codec mediaType body = .ok checked) :
    ∃ manifest, (codec.json body).bind (decodeInto decodeManifestMember) = some manifest ∧
      checked.artifactType = codec.artifactType manifest.artifactType manifest.config.mediaType ∧
      checked.layers = (sliceElements manifest.layers).map Descriptor.digest := by
  obtain ⟨refs, hparse⟩ := checkManifest_parses hchecked
  simp only [checkManifest, hparse, hindex, Bool.false_eq_true, if_false] at hchecked
  split at hchecked
  · cases hchecked
  rename_i manifest hmanifest
  simp only [bind_eq_ok_iff, pure_eq_ok_iff] at hchecked
  obtain ⟨_, _, _, _, digests, hdigests, _, _, rfl⟩ := hchecked
  exact ⟨manifest, hmanifest, rfl, mapM_descriptorDigest hdigests⟩

theorem checkManifest_index (hindex : isIndexType mediaType = true)
    (hchecked : checkManifest codec mediaType body = .ok checked) :
    checked.needs = [] ∧ checked.artifactType = .plain "" := by
  obtain ⟨refs, hparse⟩ := checkManifest_parses hchecked
  simp only [checkManifest, hparse, hindex, if_true] at hchecked
  split at hchecked
  · cases hchecked
  simp only [bind_eq_ok_iff, pure_eq_ok_iff] at hchecked
  obtain ⟨-, -, -, -, -, -, rfl⟩ := hchecked
  exact ⟨rfl, rfl⟩

/-- Where the two readings of `config` agree, every blob the PUT required is
one the collector's reading names. -/
theorem needs_subset_blobs (hagrees : configAgrees codec body)
    (hchecked : checkManifest codec mediaType body = .ok checked)
    (hparse : parseBody codec body = .ok refs) : ∀ digest ∈ checked.needs, digest ∈ refs.blobs := by
  intro digest hdigest
  have hdecoded := parseBody_decodes hparse
  rcases checkManifest_needs hchecked with hnone | ⟨manifest, hmanifest, hneeds⟩
  · simp [hnone] at hdigest
  have hconfig := hagrees refs manifest hdecoded hmanifest
  have hlayers : refs.layers = manifest.layers := by
    obtain ⟨value, hvalue, hrefs⟩ := bind_eq_some_iff.1 hdecoded
    rw [hvalue] at hmanifest
    exact decoded_layers_eq hrefs hmanifest
  rw [hneeds, List.mem_cons] at hdigest
  rw [Refs.blobs, List.mem_append, hconfig, hlayers]
  rcases hdigest with rfl | hlayer
  · left
    simp
  · right
    obtain ⟨layer, hmem, rfl⟩ := List.mem_map.1 hlayer
    exact List.mem_map_of_mem (List.mem_of_mem_filter hmem)

end K3sm.Registry
