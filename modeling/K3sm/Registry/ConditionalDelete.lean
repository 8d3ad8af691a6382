import K3sm.Registry.PruneRace
import K3sm.Registry.Referrers

/-!
# Conditional deletes

A DELETE of a manifest with an If-Match header names the states of the index it is meant for.  The
header is a list of entity tags over all its lines, and the state is compared under the
repository's lock.  The grammar of the header is given on its own, and the scanner accepts
exactly that.
-/

namespace K3sm.Registry.Conditional

open K3sm.Core List
open K3sm.Registry.Listing
open K3sm.Registry.RowRecord (Files writeIndex writeIndex_stops_index)

abbrev Octets := List UInt8

abbrev Tag := { tag : Octets // 34 ∉ tag }

inductive Member where
  | any
  | strong (tag : Tag)
  | weak (tag : Tag)

def Member.text : Member → Octets
  | .any => [42]
  | .strong tag => 34 :: (tag.1 ++ [34])
  | .weak tag => 87 :: 47 :: 34 :: (tag.1 ++ [34])

def Member.Matches (state : Octets) : Member → Prop
  | .any => True
  | .strong tag => tag.1 = state
  | .weak _ => False

def IsDelimiter (byte : UInt8) : Prop := byte = 32 ∨ byte = 9 ∨ byte = 44

instance (byte : UInt8) : Decidable (IsDelimiter byte) := inferInstanceAs (Decidable (_ ∨ _))

/-- A member ends at a delimiter or at the end of the line. -/
def Delimited : Octets → Prop
  | [] => True
  | byte :: _ => IsDelimiter byte

instance : DecidablePred Delimited
  | [] => inferInstanceAs (Decidable True)
  | byte :: _ => inferInstanceAs (Decidable (IsDelimiter byte))

/-- The line is the members in this order, with delimiters around them. -/
inductive Tokenises : Octets → List Member → Prop where
  | done : Tokenises [] []
  | delimiter {byte : UInt8} {rest : Octets} {members : List Member} (hdelimiter : IsDelimiter byte)
      (hrest : Tokenises rest members) : Tokenises (byte :: rest) members
  | member {rest : Octets} {members : List Member} (member : Member) (hends : Delimited rest)
      (hrest : Tokenises rest members) : Tokenises (member.text ++ rest) (member :: members)

def Condition (lines : List Octets) (state : Octets) : Prop :=
  ∃ members : List (List Member), List.Forall₂ Tokenises lines members ∧
    members.flatten ≠ [] ∧ ∃ member ∈ members.flatten, member.Matches state

/-- What the scanner keeps: whether a member matched, and how many there were. -/
structure Scan where
  matched : Bool
  members : ℕ
  deriving DecidableEq

/-- The text up to the next quote, and what stands behind the quote. -/
def cutQuote (text : Octets) : Option (Octets × Octets) :=
  (text.idxOf? 34).map fun finish => (text.take finish, text.drop (finish + 1))

/-- One member at the front of the text: whether it matches, and what stands behind it. -/
def scanMember (state : Octets) : Octets → Option (Bool × Octets)
  | [] => none
  | byte :: rest =>
    if byte = 42 then some (true, rest)
    else if byte = 34 ∨ [87, 47, 34] <+: byte :: rest then
      let weak : Bool := byte == 87
      (cutQuote (if weak then rest.drop 2 else rest)).map fun (tag, after) =>
        (!weak && tag == state, after)
    else none

theorem cutQuote_cons (byte : UInt8) (rest : Octets) :
    cutQuote (byte :: rest) =
      if byte = 34 then some ([], rest)
      else (cutQuote rest).map fun cut => (byte :: cut.1, cut.2) := by
  unfold cutQuote
  rw [List.idxOf?_cons]
  by_cases hquote : byte = 34
  · simp [hquote]
  · simp only [beq_iff_eq, hquote, if_false, Option.map_map]
    rfl

theorem cutQuote_eq_some {text tag after : Octets} :
    cutQuote text = some (tag, after) ↔ text = tag ++ 34 :: after ∧ 34 ∉ tag := by
  induction text generalizing tag with
  | nil => simp [cutQuote]
  | cons byte rest ih =>
    rw [cutQuote_cons]
    by_cases hquote : byte = 34
    · subst hquote
      cases tag with
      | nil => simp [eq_comm]
      | cons first tag =>
        simp only [if_true, Option.some.injEq, Prod.mk.injEq, cons_append, List.cons.injEq,
          mem_cons]
        constructor
        · exact fun hcut => absurd hcut.1 nofun
        · exact fun hcut => absurd (.inl hcut.1.1) hcut.2
    rw [if_neg hquote, Option.map_eq_some_iff]
    constructor
    · rintro ⟨⟨front, back⟩, hcut, hsame⟩
      obtain ⟨rfl, rfl⟩ := Prod.mk.inj hsame
      obtain ⟨rfl, hfront⟩ := ih.1 hcut
      refine ⟨rfl, ?_⟩
      rw [mem_cons, not_or]
      exact ⟨Ne.symm hquote, hfront⟩
    · rintro ⟨htext, htag⟩
      cases tag with
      | nil => exact absurd (List.cons.inj htext).1 hquote
      | cons first tag =>
        obtain ⟨rfl, rfl⟩ := List.cons.inj htext
        exact ⟨(tag, after), ih.2 ⟨rfl, fun hmem => htag (mem_cons_of_mem _ hmem)⟩, rfl⟩

theorem cutQuote_tag (tag : Tag) (after : Octets) :
    cutQuote (tag.1 ++ 34 :: after) = some (tag.1, after) :=
  cutQuote_eq_some.2 ⟨rfl, tag.2⟩

theorem scanMember_text (state : Octets) (member : Member) (after : Octets) :
    ∃ matched, scanMember state (member.text ++ after) = some (matched, after) ∧
      (matched = true ↔ member.Matches state) := by
  cases member with
  | any => exact ⟨true, rfl, by simp [Member.Matches]⟩
  | strong tag =>
    refine ⟨tag.1 == state, ?_, by simp [Member.Matches]⟩
    simp [Member.text, scanMember, cutQuote_tag]
  | weak tag =>
    refine ⟨false, ?_, by simp [Member.Matches]⟩
    simp [Member.text, scanMember, cutQuote_tag]

theorem scanMember_sound {state text after : Octets} {matched : Bool}
    (hscan : scanMember state text = some (matched, after)) :
    ∃ member : Member, text = member.text ++ after ∧ (matched = true ↔ member.Matches state) := by
  cases text with
  | nil => exact absurd hscan nofun
  | cons byte rest =>
    simp only [scanMember] at hscan
    split_ifs at hscan with hany hquoted hweak
    · obtain ⟨rfl, rfl⟩ := Prod.mk.inj (Option.some.inj hscan)
      exact ⟨.any, by rw [hany]; rfl, by simp [Member.Matches]⟩
    · obtain ⟨⟨tag, behind⟩, hcut, hread⟩ := Option.map_eq_some_iff.1 hscan
      obtain ⟨rfl, rfl⟩ := Prod.mk.inj hread
      obtain rfl : byte = 87 := beq_iff_eq.1 hweak
      obtain ⟨behind', hfront⟩ := hquoted.resolve_left (by decide)
      obtain ⟨-, rfl⟩ := List.cons.inj hfront
      obtain ⟨hbehind, htag⟩ := cutQuote_eq_some.1 hcut
      change behind' = _ at hbehind
      exact ⟨.weak ⟨tag, htag⟩, by simp [Member.text, hbehind], by simp [Member.Matches]⟩
    obtain ⟨⟨tag, behind⟩, hcut, hread⟩ := Option.map_eq_some_iff.1 hscan
    obtain ⟨rfl, rfl⟩ := Prod.mk.inj hread
    have hquote : byte = 34 := by
      refine hquoted.resolve_right ?_
      rintro ⟨behind', hfront⟩
      exact hweak (beq_iff_eq.2 (List.cons.inj hfront).1.symm)
    obtain ⟨rfl, htag⟩ := cutQuote_eq_some.1 hcut
    subst hquote
    exact ⟨.strong ⟨tag, htag⟩, by simp [Member.text], by simp [Member.Matches]⟩

theorem scanMember_shorter {state text after : Octets} {matched : Bool}
    (hscan : scanMember state text = some (matched, after)) : after.length < text.length := by
  obtain ⟨member, rfl, -⟩ := scanMember_sound hscan
  have hlength : 0 < member.text.length := by
    cases member <;> simp [Member.text]
  rw [length_append]
  omega

/-- The loop over one line; none where the line is malformed. -/
def scanLine (state : Octets) (scan : Scan) (text : Octets) : Option Scan :=
  match text with
  | [] => some scan
  | byte :: rest =>
    if IsDelimiter byte then scanLine state scan rest
    else match _hmember : scanMember state (byte :: rest) with
      | none => none
      | some (matched, after) =>
        if Delimited after then
          scanLine state ⟨scan.matched || matched, scan.members + 1⟩ after
        else none
termination_by text.length
decreasing_by
  · simp
  · exact scanMember_shorter _hmember

def matchesEntityTag (values : List Octets) (state : Octets) : Bool :=
  match values.foldlM (scanLine state) ⟨false, 0⟩ with
  | none => false
  | some scan => decide (0 < scan.members) && scan.matched

/-! ## The scanner reads the grammar -/

def Scan.reads (state : Octets) (scan result : Scan) (members : List Member) : Prop :=
  result.members = scan.members + members.length ∧
    (result.matched = true ↔ scan.matched = true ∨ ∃ member ∈ members, member.Matches state)

section Scanner

variable {state text : Octets} {scan result : Scan}

theorem not_delimiter_of_text {byte : UInt8} {rest after : Octets} {member : Member}
    (htext : byte :: rest = member.text ++ after) : ¬ IsDelimiter byte := by
  unfold IsDelimiter
  cases member with
  | any | strong tag | weak tag =>
    rw [(List.cons.inj htext).1]
    decide

theorem Scan.reads_cons {matched : Bool} {member : Member} {members : List Member}
    (hmatched : matched = true ↔ member.Matches state) :
    Scan.reads state ⟨scan.matched || matched, scan.members + 1⟩ result members ↔
      Scan.reads state scan result (member :: members) := by
  unfold Scan.reads
  rw [length_cons, exists_mem_cons_iff, Bool.or_eq_true, hmatched, or_assoc,
    Nat.add_assoc, Nat.add_comm 1]

theorem scanLine_sound (hscan : scanLine state scan text = some result) :
    ∃ members, Tokenises text members ∧ Scan.reads state scan result members := by
  fun_induction scanLine state scan text with
  | case1 scan =>
    cases Option.some.inj hscan
    exact ⟨[], .done, rfl, by simp⟩
  | case2 scan byte rest hdelimiter ih =>
    obtain ⟨members, htokens, hreads⟩ := ih hscan
    exact ⟨members, .delimiter hdelimiter htokens, hreads⟩
  | case3 => exact absurd hscan nofun
  | case4 scan byte rest hdelimiter matched after hmember hends ih =>
    obtain ⟨members, htokens, hreads⟩ := ih hscan
    obtain ⟨member, htext, hmatched⟩ := scanMember_sound hmember
    rw [htext]
    exact ⟨member :: members, .member member hends htokens, (Scan.reads_cons hmatched).1 hreads⟩
  | case5 => exact absurd hscan nofun

theorem scanLine_complete {members : List Member} (htokens : Tokenises text members)
    (scan : Scan) : ∃ result, scanLine state scan text = some result ∧
      Scan.reads state scan result members := by
  induction htokens generalizing scan with
  | done => exact ⟨scan, by rw [scanLine], rfl, by simp⟩
  | delimiter hdelimiter hrest ih =>
    rw [scanLine, if_pos hdelimiter]
    exact ih scan
  | @member rest members member hends hrest ih =>
    obtain ⟨matched, hmember, hmatched⟩ := scanMember_text state member rest
    obtain ⟨result, hresult, hreads⟩ := ih ⟨scan.matched || matched, scan.members + 1⟩
    refine ⟨result, ?_, (Scan.reads_cons hmatched).1 hreads⟩
    rcases htext : member.text ++ rest with _ | ⟨byte, behind⟩
    · rw [htext] at hmember
      exact absurd hmember nofun
    rw [htext] at hmember
    rw [scanLine, if_neg (not_delimiter_of_text htext.symm)]
    split
    case h_1 hnone => exact absurd (hnone.symm.trans hmember) nofun
    rename_i matched' after hsome
    obtain ⟨rfl, rfl⟩ := Prod.mk.inj (Option.some.inj (hsome.symm.trans hmember))
    rw [if_pos hends]
    exact hresult

theorem Scan.reads.append {middle : Scan} {front back : List Member}
    (hfront : Scan.reads state scan middle front) (hback : Scan.reads state middle result back) :
    Scan.reads state scan result (front ++ back) := by
  refine ⟨?_, ?_⟩
  · rw [hback.1, hfront.1, length_append, Nat.add_assoc]
  · rw [hback.2, hfront.2, or_assoc]
    simp only [mem_append, or_and_right, exists_or]

theorem scanLines_sound {lines : List Octets}
    (hscan : lines.foldlM (scanLine state) scan = some result) :
    ∃ members, List.Forall₂ Tokenises lines members ∧
      Scan.reads state scan result members.flatten := by
  induction lines generalizing scan with
  | nil =>
    cases Option.some.inj hscan
    exact ⟨[], .nil, rfl, by simp⟩
  | cons line lines ih =>
    rw [foldlM_cons] at hscan
    obtain ⟨middle, hline, hlines⟩ := Option.bind_eq_some_iff.1 hscan
    obtain ⟨front, htokens, hfront⟩ := scanLine_sound hline
    obtain ⟨members, hforall, hback⟩ := ih hlines
    exact ⟨front :: members, .cons htokens hforall, hfront.append hback⟩

theorem scanLines_complete {lines : List Octets} {members : List (List Member)}
    (hforall : List.Forall₂ Tokenises lines members) (scan : Scan) :
    ∃ result, lines.foldlM (scanLine state) scan = some result ∧
      Scan.reads state scan result members.flatten := by
  induction hforall generalizing scan with
  | nil => exact ⟨scan, rfl, rfl, by simp⟩
  | @cons line front lines members htokens hforall ih =>
    obtain ⟨middle, hline, hfront⟩ := scanLine_complete htokens scan
    obtain ⟨result, hlines, hback⟩ := ih middle
    refine ⟨result, ?_, hfront.append hback⟩
    rw [foldlM_cons, hline]
    exact hlines

theorem Scan.reads.matches_iff {members : List Member}
    (hreads : Scan.reads state ⟨false, 0⟩ result members) :
    (decide (0 < result.members) && result.matched) = true ↔
      members ≠ [] ∧ ∃ member ∈ members, member.Matches state := by
  rw [Bool.and_eq_true, decide_eq_true_iff, hreads.1, hreads.2, Nat.zero_add, length_pos_iff]
  simp

theorem matchesEntityTag_iff (lines : List Octets) (state : Octets) :
    matchesEntityTag lines state = true ↔ Condition lines state := by
  unfold matchesEntityTag Condition
  constructor
  · intro hmatches
    split at hmatches
    case h_1 => exact absurd hmatches nofun
    rename_i result hscan
    obtain ⟨members, hforall, hreads⟩ := scanLines_sound hscan
    exact ⟨members, hforall, hreads.matches_iff.1 hmatches⟩
  · rintro ⟨members, hforall, hmember⟩
    obtain ⟨result, hscan, hreads⟩ := scanLines_complete hforall ⟨false, 0⟩
    rw [hscan]
    exact hreads.matches_iff.2 hmember

-- W/"a", "b" in the states b and a, and "b"x in the state b
example : matchesEntityTag [[87, 47, 34, 97, 34, 44, 32, 34, 98, 34]] [98] = true ∧
    matchesEntityTag [[87, 47, 34, 97, 34, 44, 32, 34, 98, 34]] [97] = false ∧
    matchesEntityTag [[34, 98, 34, 120]] [98] = false := by decide +kernel

end Scanner

inductive DeleteError where
  | denied
  | invalidReference
  | notLocked
  | repositoryUnknown
  | manifestUnknown
  | preconditionFailed
  | taggedDigest
  | namedByIndex
  | indexState
  | readIndex
  | parseIndex
  | readManifest
  deriving DecidableEq

/-- What the server takes from outside for a DELETE: `encodeRow` is `Encode` of one row, and
`canonical` the string of the canonical digest of some bytes. -/
structure Server (Bytes : Type) extends ReferrerStore Bytes where
  env : RowRecord.Env
  encodeRow : Row → Option Octets
  canonical : Octets → Octets

/-- A DELETE: whether it is allowed and has got the lock of the repository, the reference its
path names, and the lines of its If-Match. -/
structure DeleteRequest where
  allowed : Bool
  locked : Bool
  reference : Option Prune.Ref
  ifMatch : List Octets

section Delete

variable {Bytes : Type} (server : Server Bytes)

def indexState (rows : List Row) : Option Octets :=
  (rows.mapM server.encodeRow).map fun lines => server.canonical lines.flatten

def keepsUntaggedRow (row : Row) : Except DeleteError Bool :=
  match readManifestBlob server.toReferrerStore row with
  | .ok body => .ok (parseBody server.codec body).isOk
  | .error cause => if permanentReadError cause then .ok false else .error .readManifest

def digestTagged (rows : List Row) (digest : Digest) : Bool :=
  rows.any fun row => row.digest == digest && row.refName.getD "" != ""

def namedByIndexLoop (digest : Digest) : List Row → List Digest → Except DeleteError Unit
  | [], _ => .ok ()
  | row :: rest, seen =>
    if !isIndexType row.mediaType || row.digest == digest || seen.contains row.digest then
      namedByIndexLoop digest rest seen
    else match readManifestBlob server.toReferrerStore row with
      | .error _ => .error .readIndex
      | .ok body =>
        match (server.codec.json body).bind (decodeInto decodeIndexMember) with
        | none => .error .parseIndex
        | some index =>
          if digest ∈ (sliceElements index.manifests).map Descriptor.digest then
            .error .namedByIndex
          else namedByIndexLoop digest rest (row.digest :: seen)

def notNamedByIndex (rows : List Row) (digest : Digest) : Except DeleteError Unit :=
  namedByIndexLoop server digest rows []

def precondition (ifMatch : List Octets) (rows : List Row) : Except DeleteError Unit :=
  if ifMatch = [] then .ok ()
  else match indexState server rows with
    | none => .error .indexState
    | some state =>
      if matchesEntityTag ifMatch state then .ok () else .error .preconditionFailed

def deleteTagChecked (ifMatch : List Octets) (tag : String) (rows : List Row) :
    Except DeleteError (List Row) :=
  match rows.findIdx? (·.hasTag tag) with
  | none => .error .manifestUnknown
  | some index => do
    precondition server ifMatch rows
    match deleteTagRow rows index fun row => (keepsUntaggedRow server row).toOption with
    | none => .error .readManifest
    | some changed => .ok changed

/-- The change `DeleteDigestChecked` makes under the lock. -/
def deleteDigestChecked (ifMatch : List Octets) (digest : Digest) (rows : List Row) :
    Except DeleteError (List Row) :=
  if rows.any (·.digest == digest) then do
    precondition server ifMatch rows
    if ifMatch ≠ [] ∧ digestTagged rows digest then .error .taggedDigest
    else do
      notNamedByIndex server rows digest
      .ok (rows.filter (·.digest != digest))
  else .error .manifestUnknown

def updateIndex (files : Files) (locked : Bool)
    (change : List Row → Except DeleteError (List Row)) : Except DeleteError (Script Files) :=
  if locked then
    match files.index with
    | none => .error .repositoryUnknown
    | some rows => do
      let changed ← change rows
      .ok (writeIndex server.env files changed rows.length)
  else .error .notLocked

/-- `deleteManifest`: the writes it makes, or the error it answers. -/
def deleteManifest (request : DeleteRequest) (files : Files) : Except DeleteError (Script Files) :=
  if request.allowed then
    match request.reference with
    | none => .error .invalidReference
    | some (.tag tag) =>
      updateIndex server files request.locked (deleteTagChecked server request.ifMatch tag)
    | some (.digest digest) =>
      updateIndex server files request.locked (deleteDigestChecked server request.ifMatch digest)
  else .error .denied

/-- Where a DELETE can leave the files: a refusal writes nothing, and the writes of a change
may stop anywhere. -/
def Leaves (request : DeleteRequest) (files left : Files) : Prop :=
  match deleteManifest server request files with
  | .error _ => left = files
  | .ok script => left ∈ script.stops files

variable {server} {request : DeleteRequest} {files left : Files} {rows changed : List Row}

theorem precondition_ok {ifMatch : List Octets} (hifMatch : ifMatch ≠ [])
    (hok : precondition server ifMatch rows = .ok ()) :
    ∃ state, indexState server rows = some state ∧ Condition ifMatch state := by
  unfold precondition at hok
  rw [if_neg hifMatch] at hok
  split at hok
  case h_1 => exact absurd hok nofun
  rename_i state hstate
  split at hok
  case isTrue hmatches => exact ⟨state, hstate, (matchesEntityTag_iff _ _).1 hmatches⟩
  case isFalse => exact absurd hok nofun

theorem deleteTagChecked_ok {ifMatch : List Octets} {tag : String}
    (hok : deleteTagChecked server ifMatch tag rows = .ok changed) :
    precondition server ifMatch rows = .ok () := by
  unfold deleteTagChecked at hok
  split at hok
  case h_1 => exact absurd hok nofun
  obtain ⟨_, hprecondition, -⟩ := bind_eq_ok_iff.1 hok
  exact hprecondition

theorem deleteDigestChecked_ok {ifMatch : List Octets} {digest : Digest}
    (hok : deleteDigestChecked server ifMatch digest rows = .ok changed) :
    precondition server ifMatch rows = .ok () ∧ (ifMatch ≠ [] → digestTagged rows digest = false) ∧
      changed = rows.filter (·.digest != digest) := by
  unfold deleteDigestChecked at hok
  split at hok
  case isFalse => exact absurd hok nofun
  obtain ⟨_, hprecondition, hchecks⟩ := bind_eq_ok_iff.1 hok
  split at hchecks
  case isTrue => exact absurd hchecks nofun
  rename_i htagged
  obtain ⟨-, -, hchanged⟩ := bind_eq_ok_iff.1 hchecks
  refine ⟨hprecondition, ?_, (Except.ok.inj hchanged).symm⟩
  intro hifMatch
  rw [← Bool.not_eq_true]
  exact fun hdigest => htagged ⟨hifMatch, hdigest⟩

theorem updateIndex_ok {locked : Bool} {change : List Row → Except DeleteError (List Row)}
    {script : Script Files} (hok : updateIndex server files locked change = .ok script)
    (hleft : left ∈ script.stops files) :
    left.index = files.index ∨
      ∃ rows changed, files.index = some rows ∧ left.index = some changed ∧
        change rows = .ok changed := by
  unfold updateIndex at hok
  split at hok
  case isFalse => exact absurd hok nofun
  split at hok
  case h_1 => exact absurd hok nofun
  rename_i rows hindex
  obtain ⟨changed, hchange, hscript⟩ := bind_eq_ok_iff.1 hok
  rw [← Except.ok.inj hscript] at hleft
  rcases writeIndex_stops_index hleft with hsame | hrenamed
  · exact .inl hsame
  · exact .inr ⟨rows, changed, hindex, hrenamed, hchange⟩

/-- What a DELETE can leave in index.json: what was there, or what one of the two changes made
of it. -/
theorem leaves_cases (hleaves : Leaves server request files left) :
    left.index = files.index ∨
      ∃ rows changed, files.index = some rows ∧ left.index = some changed ∧
        ((∃ tag, request.reference = some (.tag tag) ∧
            deleteTagChecked server request.ifMatch tag rows = .ok changed) ∨
          ∃ digest, request.reference = some (.digest digest) ∧
            deleteDigestChecked server request.ifMatch digest rows = .ok changed) := by
  unfold Leaves at hleaves
  split at hleaves
  case h_1 => exact .inl (congrArg Files.index hleaves)
  rename_i script hscript
  unfold deleteManifest at hscript
  split at hscript
  case isFalse => exact absurd hscript nofun
  split at hscript
  case h_1 => exact absurd hscript nofun
  case h_2 tag hreference =>
    refine (updateIndex_ok hscript hleaves).imp id ?_
    rintro ⟨rows, changed, hrows, hchanged, hchange⟩
    exact ⟨rows, changed, hrows, hchanged, .inl ⟨tag, hreference, hchange⟩⟩
  case h_3 digest hreference =>
    refine (updateIndex_ok hscript hleaves).imp id ?_
    rintro ⟨rows, changed, hrows, hchanged, hchange⟩
    exact ⟨rows, changed, hrows, hchanged, .inr ⟨digest, hreference, hchange⟩⟩

theorem leaves_condition (hleaves : Leaves server request files left)
    (hconditional : request.ifMatch ≠ []) (hchanged : left.index ≠ files.index) :
    ∃ rows state, files.index = some rows ∧ indexState server rows = some state ∧
      Condition request.ifMatch state := by
  obtain ⟨rows, changed, hrows, -, hchange⟩ := (leaves_cases hleaves).resolve_left hchanged
  have hprecondition : precondition server request.ifMatch rows = .ok () := by
    rcases hchange with ⟨tag, -, hchange⟩ | ⟨digest, -, hchange⟩
    · exact deleteTagChecked_ok hchange
    · exact (deleteDigestChecked_ok hchange).1
  obtain ⟨state, hstate, hcondition⟩ := precondition_ok hconditional hprecondition
  exact ⟨rows, state, hrows, hstate, hcondition⟩

theorem leaves_tagged {digest : Digest} (hleaves : Leaves server request files left)
    (hconditional : request.ifMatch ≠ []) (hreference : request.reference = some (.digest digest))
    (hrows : files.index = some rows) {row : Row} (hrow : row ∈ rows)
    (htagged : row.refName.getD "" ≠ "") : ∃ kept, left.index = some kept ∧ row ∈ kept := by
  rcases leaves_cases hleaves with hsame | ⟨rows', changed, hrows', hleft, hchange⟩
  · exact ⟨rows, hsame.trans hrows, hrow⟩
  obtain rfl : rows = rows' := Option.some.inj (hrows.symm.trans hrows')
  rw [hreference] at hchange
  rcases hchange with ⟨tag, htag, -⟩ | ⟨digest', hdigest, hchange⟩
  · exact absurd (Option.some.inj htag) nofun
  obtain rfl : digest = digest' := Prune.Ref.digest.inj (Option.some.inj hdigest)
  obtain ⟨-, huntagged, rfl⟩ := deleteDigestChecked_ok hchange
  refine ⟨_, hleft, mem_filter.2 ⟨hrow, ?_⟩⟩
  have hnone := huntagged hconditional
  rw [digestTagged, any_eq_false] at hnone
  rw [bne_iff_ne]
  intro hdigest
  exact hnone row hrow (by simp [hdigest, htagged])

/-- The scanner of If-Match decides the grammar's condition, a DELETE changes index.json only
where that holds under the lock, and one by digest removes no tagged row. -/
theorem conditional_delete_fails_closed (server : Server Bytes) (request : DeleteRequest)
    (files left : Files) :
    (∀ state, matchesEntityTag request.ifMatch state = true ↔ Condition request.ifMatch state) ∧
    (request.ifMatch ≠ [] → Leaves server request files left → left.index ≠ files.index →
      ∃ rows state, files.index = some rows ∧ indexState server rows = some state ∧
        Condition request.ifMatch state) ∧
    (request.ifMatch ≠ [] → Leaves server request files left →
      ∀ digest, request.reference = some (.digest digest) →
        ∀ rows, files.index = some rows → ∀ row ∈ rows, row.refName.getD "" ≠ "" →
          ∃ kept, left.index = some kept ∧ row ∈ kept) := by
  refine ⟨matchesEntityTag_iff request.ifMatch, ?_, ?_⟩
  · intro hconditional hleaves hchanged
    exact leaves_condition hleaves hconditional hchanged
  · intro hconditional hleaves digest hreference rows hrows row hrow htagged
    exact leaves_tagged hleaves hconditional hreference hrows hrow htagged

end Delete

end K3sm.Registry.Conditional
