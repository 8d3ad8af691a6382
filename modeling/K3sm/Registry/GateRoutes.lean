import K3sm.Registry.ApiServer

/-!
# One path, two readers

A path that the gate takes for a write is a name, the words of the operation and one last segment.
The last segments decide which route of the server's table takes it, and the name is what stands
before them, whatever words stand in the name.
-/

namespace K3sm.Registry.Api

open K3sm.Core K3sm.Core.Filepath K3sm.Core.Url K3sm.Core.Template K3sm.Registry.Ref List
open K3sm.Registry.Gate

variable {withName : WithName} {maxUpload : ℤ}

variable {char : Char} {op : GateOp} {name text front rawPath rawQuery word value : Str}

theorem isAlphanum_of_isAlphanumeric (hchar : isAlphanumeric char = true) :
    char.isAlphanum = true := by
  simp only [isAlphanumeric, Bool.or_eq_true, Bool.and_eq_true, decide_eq_true_eq,
    Char.le_def] at hchar
  simp only [Char.isAlphanum, Char.isAlpha, Char.isLower, Char.isDigit, ge_iff_le, Bool.or_eq_true,
    Bool.and_eq_true, decide_eq_true_eq]
  rcases hchar with hletter | hdigit
  · exact .inl (.inr hletter)
  · exact .inr hdigit

theorem unreserved_of_isAlphanum (hchar : char.isAlphanum = true) : unreserved char = true := by
  rw [unreserved, hchar]
  rfl

theorem plain_of_nameByte (hchar : nameByte char = true) :
    unreserved char = true ∨ char = '/' ∨ char = ':' := by
  simp only [nameByte, Bool.or_eq_true, beq_iff_eq] at hchar
  rcases hchar with (((halnum | rfl) | rfl) | rfl) | rfl
  · refine .inl (unreserved_of_isAlphanum (isAlphanum_of_isAlphanumeric ?_))
    simpa only [isAlphanumeric, Bool.or_eq_true] using halnum
  · exact .inl rfl
  · exact .inl rfl
  · exact .inl rfl
  · exact .inr (.inl rfl)

theorem plain_name (hname : parseName withName name = .ok name) : Plain name :=
  fun char hchar => plain_of_nameByte ((parseName_accepts hname).2.2.1 char hchar)

theorem plain_uploadID {id : Str} (hid : validUploadID id = true) : Plain id := by
  intro char hchar
  simp only [validUploadID, Bool.and_eq_true, all_eq_true] at hid
  have hmember := hid.2 char hchar
  simp only [Bool.or_eq_true, beq_iff_eq] at hmember
  rcases hmember with (halnum | rfl) | rfl
  · exact .inl (unreserved_of_isAlphanum (isAlphanum_of_isAlphanumeric halnum))
  · exact .inl rfl
  · exact .inl rfl

theorem plain_tag {tag : Str} (htag : parseTag tagGrammar tag = true) : Plain tag := by
  intro char hchar
  simp only [parseTag, tagGrammar, Bool.and_eq_true, all_eq_true] at htag
  have hmember := htag.2.2 char hchar
  simp only [tagFirst, Bool.or_eq_true, beq_iff_eq] at hmember
  rcases hmember with ((halnum | rfl) | rfl) | rfl
  · exact .inl (unreserved_of_isAlphanum halnum)
  · exact .inl rfl
  · exact .inl rfl
  · exact .inl rfl

theorem plain_spells {algorithm : Algorithm} (htext : algorithm.spells text = true) :
    Plain text := by
  simp only [Algorithm.spells, Bool.and_eq_true, all_eq_true] at htext
  obtain ⟨rest, rfl⟩ := isPrefixOf_iff_prefix.1 htext.1.1
  have hfront : Plain (algorithm.text ++ [':']) := by
    apply plain_iff.2
    cases algorithm <;> rfl
  refine hfront.append ?_
  intro char hchar
  have hlength : (algorithm.text ++ [':']).length = algorithm.text.length + 1 := by simp
  have hhex := htext.2 char (by rwa [← hlength, drop_left])
  refine .inl (unreserved_of_isAlphanum (isAlphanum_of_isAlphanumeric ?_))
  simp only [isLowerHex, isAlphanumeric, Bool.or_eq_true, Bool.and_eq_true,
    decide_eq_true_eq] at hhex ⊢
  rcases hhex with hdigit | hletter
  · exact .inr hdigit
  · exact .inl ⟨hletter.1, hletter.2.trans (by decide)⟩

theorem plain_digest {digest : Str} (hdigest : parseDigest digest = true) : Plain digest := by
  rw [parseDigest, Bool.or_eq_true] at hdigest
  rcases hdigest with hshort | hlong
  · exact plain_spells hshort
  · exact plain_spells hlong

theorem plain_reference {reference : Reference}
    (hreference : parseReference text = some reference) :
    Plain text := by
  unfold parseReference at hreference
  split at hreference
  · split at hreference
    · exact plain_digest ‹_›
    · cases hreference
  · split at hreference
    · exact plain_tag ‹_›
    · cases hreference

def middle : GateOp → Str
  | .manifestPut => manifestsWord
  | _ => uploadsWord ++ ['/']

def TargetOk (op : GateOp) (target : Str) : Prop :=
  match op with
  | .uploadStart => target = []
  | .manifestPut => (parseReference target).isSome = true
  | _ => validUploadID target = true

def target (route : GateRoute) : Str := (splitSlash route.path).getLastD []

theorem plain_target {last : Str} (hlast : TargetOk op last) : Plain last := by
  cases op
  case uploadStart =>
      rw [show last = [] from hlast]
      exact nofun
  case manifestPut =>
      obtain ⟨reference, hreference⟩ := Option.isSome_iff_exists.1 hlast
      exact plain_reference hreference
  all_goals exact plain_uploadID hlast

theorem plain_middle (op : GateOp) : Plain (middle op) := by
  apply plain_iff.2
  cases op <;> rfl

theorem plain_root : Plain root := plain_iff.2 rfl

theorem joinSlash_uploads {name : List Str} (hname : name ≠ []) (last : Str) :
    joinSlash (name ++ [blobsDir, uploads, last]) =
      joinSlash name ++ (uploadsWord ++ ['/'] ++ last) := by
  rw [joinSlash_append hname (by simp)]
  simp [joinSlash, uploadsWord, List.intercalate]

theorem joinSlash_manifests {name : List Str} (hname : name ≠ []) (last : Str) :
    joinSlash (name ++ [manifests, last]) = joinSlash name ++ (manifestsWord ++ last) := by
  rw [joinSlash_append hname (by simp)]
  simp [joinSlash, manifestsWord, List.intercalate]

theorem writeShape_ok {segments name : List Str}
    (hshape : writeShape op segments.reverse = .ok name) :
    ∃ last, last ∈ segments ∧ TargetOk op last ∧ op.isWrite = true ∧
      joinSlash segments = joinSlash name ++ (middle op ++ last) := by
  have hback : ∀ {reversed : List Str}, segments.reverse = reversed → segments = reversed.reverse :=
    fun heq => by rw [← heq, reverse_reverse]
  have huploads : ∀ {last first : Str} {rest : List Str},
      segments.reverse = last :: uploads :: blobsDir :: first :: rest → last ∈ segments ∧
        joinSlash segments =
          joinSlash (first :: rest).reverse ++ (uploadsWord ++ ['/'] ++ last) := by
    intro last first rest heq
    rw [← joinSlash_uploads (by simp), hback heq]
    simp
  unfold writeShape at hshape
  split at hshape
  case h_1 last second third first rest heq =>
      split_ifs at hshape with hwords
      cases hshape
      simp only [ne_eq, not_or, not_not] at hwords
      obtain ⟨rfl, rfl, rfl⟩ := hwords
      exact ⟨[], (huploads heq).1, rfl, rfl, (huploads heq).2⟩
  case h_5 last second first rest heq =>
      split_ifs at hshape with hword hreference
      cases hshape
      rw [not_not] at hword
      subst hword
      refine ⟨last, ?_, ?_, rfl, ?_⟩
      · rw [hback heq]
        simp
      · simpa [TargetOk, Option.isSome_iff_ne_none] using hreference
      · rw [middle, ← joinSlash_manifests (by simp), hback heq]
        simp
  case h_6 => cases hshape
  all_goals
    rename_i last second third first rest heq
    split_ifs at hshape with hwords hid
    cases hshape
    simp only [ne_eq, not_or, not_not] at hwords
    obtain ⟨rfl, rfl⟩ := hwords
    exact ⟨last, (huploads heq).1, by simpa [TargetOk] using hid, rfl, (huploads heq).2⟩

theorem writeShape_error {refusal : GateOp} {reversed : List Str}
    (hshape : writeShape op reversed = .error refusal) :
    refusal = .refused ∨ refusal = .invalid := by
  unfold writeShape at hshape
  repeat' split at hshape
  all_goals cases hshape
  all_goals simp

theorem getLast_splitSlash {last : Str} (hslash : '/' ∉ last) :
    (splitSlash (front ++ '/' :: last)).getLastD [] = last := by
  rw [splitSlash_append, splitSlash_single hslash, getLastD_concat]

structure Parsed (withName : WithName) (op : GateOp) (rawPath rawQuery : Str)
    (route : GateRoute) : Prop where
  ofOp : route.op = op
  isWrite : op.isWrite = true
  path : route.path = rawPath
  name : parseName withName route.repo = .ok route.repo
  noSlash : '/' ∉ target route
  targetOk : TargetOk op (target route)
  shape : rawPath = root ++ (route.repo ++ (middle op ++ target route))
  query : parseWriteQuery withName op rawQuery = some (route.query, route.source)

theorem middle_slash (op : GateOp) : ∃ front, middle op = front ++ ['/'] := by
  cases op
  case manifestPut => exact ⟨'/' :: manifests, rfl⟩
  all_goals exact ⟨uploadsWord, rfl⟩

theorem parsed_of_classifyWrite
    (hwrite : (classifyWrite withName op rawPath rawQuery).op.isWrite = true) :
    Parsed withName op rawPath rawQuery (classifyWrite withName op rawPath rawQuery) := by
  revert hwrite
  unfold classifyWrite
  split
  · exact nofun
  rename_i rest hrest
  split
  · exact nofun
  split
  · rename_i refusal hshape
    rcases writeShape_error hshape with rfl | rfl <;> exact nofun
  rename_i name hshape
  split
  · exact nofun
  rename_i hname
  split
  · exact nofun
  rename_i query source hquery
  intro _
  obtain ⟨last, hmember, htarget, hop, hjoin⟩ := writeShape_ok hshape
  have hpath : rawPath = root ++ (joinSlash name ++ (middle op ++ last)) := by
    unfold cutFront at hrest
    split at hrest
    · rename_i hfront
      obtain ⟨tail, rfl⟩ := isPrefixOf_iff_prefix.1 hfront
      rw [drop_left, Option.some.injEq] at hrest
      rw [hrest, ← hjoin, joinSlash_splitSlash]
    · cases hrest
  have hslash : '/' ∉ last := not_mem_of_mem_splitOn hmember
  have hlast : (splitSlash rawPath).getLastD [] = last := by
    obtain ⟨front, hfront⟩ := middle_slash op
    rw [hpath, hfront, append_assoc front, singleton_append, ← append_assoc _ front,
      ← append_assoc root, getLast_splitSlash hslash]
  refine ⟨rfl, hop, rfl, ?_, ?_, ?_, ?_, hquery⟩
  · simpa [isName] using hname
  · rwa [target, hlast]
  · rwa [target, hlast]
  · rw [target, hlast]
    exact hpath

theorem classifyWrite_ne_read (hop : op ≠ .read) (rawPath rawQuery : Str) :
    (classifyWrite withName op rawPath rawQuery).op ≠ .read := by
  unfold classifyWrite
  split
  · simp
  split
  · simp
  split
  · rename_i refusal hshape
    rcases writeShape_error hshape with rfl | rfl <;> simp
  split
  · simp
  split
  · simp
  · exact hop

def writesOf : Method → List GateOp
  | .get | .head => [.uploadStatus]
  | .post => [.uploadStart]
  | .patch => [.uploadChunk]
  | .put => [.uploadFinish, .manifestPut]
  | .delete | .other _ => []

theorem parsed_of_classify {method : Method}
    (hwrite : (classify withName method rawPath rawQuery).op.isWrite = true) :
    ∃ op ∈ writesOf method,
      Parsed withName op rawPath rawQuery (classify withName method rawPath rawQuery) := by
  have hstatus : method = .get ∨ method = .head →
      Parsed withName .uploadStatus rawPath rawQuery
        (classify withName method rawPath rawQuery) := by
    intro hread
    have hclassify : classify withName method rawPath rawQuery =
        classifyWrite withName .uploadStatus rawPath rawQuery := by
      rcases hread with rfl | rfl
      all_goals
        rw [classify] at hwrite ⊢
        split
        · rw [if_pos ‹_›] at hwrite
          cases hwrite
        · rw [if_neg ‹_›] at hwrite
          simp only at hwrite ⊢
          split
          · rfl
          · rw [if_neg ‹_›] at hwrite
            cases hwrite
    rw [hclassify] at hwrite ⊢
    exact parsed_of_classifyWrite hwrite
  cases method with
  | get => exact ⟨.uploadStatus, mem_singleton_self _, hstatus (.inl rfl)⟩
  | head => exact ⟨.uploadStatus, mem_singleton_self _, hstatus (.inr rfl)⟩
  | post => exact ⟨.uploadStart, mem_singleton_self _, parsed_of_classifyWrite hwrite⟩
  | patch => exact ⟨.uploadChunk, mem_singleton_self _, parsed_of_classifyWrite hwrite⟩
  | put =>
    rw [classify] at hwrite ⊢
    split
    · rw [if_pos ‹_›] at hwrite
      exact ⟨.uploadFinish, by simp [writesOf], parsed_of_classifyWrite hwrite⟩
    · rw [if_neg ‹_›] at hwrite
      exact ⟨.manifestPut, by simp [writesOf], parsed_of_classifyWrite hwrite⟩
  | delete | other name => cases hwrite

theorem read_of_classify {method : Method}
    (hread : (classify withName method rawPath rawQuery).op = .read) :
    (method = .get ∨ method = .head) ∧ onUploadPath rawPath = false := by
  have hstatus : (if !onUploadPath rawPath then { op := .read }
      else if (classifyWrite withName .uploadStatus rawPath rawQuery).op ≠ .refused then
        classifyWrite withName .uploadStatus rawPath rawQuery
      else ({ op := .invalid } : GateRoute)).op = .read → onUploadPath rawPath = false := by
    intro hop
    split at hop
    · rename_i hread
      simpa using hread
    split at hop
    · exact absurd hop (classifyWrite_ne_read (by decide) _ _)
    · cases hop
  cases method with
  | get => exact ⟨.inl rfl, hstatus hread⟩
  | head => exact ⟨.inr rfl, hstatus hread⟩
  | post | patch => exact absurd hread (classifyWrite_ne_read (by decide) _ _)
  | put =>
    rw [classify] at hread
    split at hread
    · exact absurd hread (classifyWrite_ne_read (by decide) _ _)
    · exact absurd hread (classifyWrite_ne_read (by decide) _ _)
  | delete | other name => cases hread

/-! ## The route the server takes -/

theorem fills_named_literal {values : List Str}
    (hfills : Fills (named [.literal word]) values text) :
    ∃ name, values = [name] ∧ text = root ++ (name ++ word) := by
  cases hfills with
  | literal _ rest =>
    cases rest with
    | placeholder _ _ rest =>
      cases rest with
      | literal _ rest =>
        cases rest with
        | nil => exact ⟨_, rfl, by rw [append_nil]⟩

theorem fills_named_segment {values : List Str}
    (hfills : Fills (named [.literal word, segment]) values text) :
    ∃ name value, values = [name, value] ∧ '/' ∉ value ∧
      text = root ++ (name ++ (word ++ value)) := by
  cases hfills with
  | literal _ rest =>
    cases rest with
    | placeholder _ _ rest =>
      cases rest with
      | literal _ rest =>
        cases rest with
        | placeholder _ haccepts rest =>
          cases rest with
          | nil =>
            refine ⟨_, _, rfl, ?_, by rw [append_nil]⟩
            intro hslash
            have hrefused := all_eq_true.1 haccepts '/' hslash
            simp at hrefused

theorem all_ne_of_not_mem (hchar : char ∉ text) : text.all (· ≠ char) = true := by
  rw [all_eq_true]
  intro other hother
  exact decide_eq_true fun heq => hchar (heq ▸ hother)

theorem named_literal_fills (hnonempty : name ≠ []) (hline : '\n' ∉ name) :
    Fills (named [.literal word]) [name] (root ++ (name ++ word)) := by
  have hrest := Fills.literal word Fills.nil
  rw [append_nil] at hrest
  exact .literal root (.placeholder hnonempty (all_ne_of_not_mem hline) hrest)

theorem named_segment_fills (hnonempty : name ≠ []) (hline : '\n' ∉ name) (hvalue : value ≠ [])
    (hslash : '/' ∉ value) :
    Fills (named [.literal word, segment]) [name, value] (root ++ (name ++ (word ++ value))) := by
  have hlast := Fills.placeholder hvalue (all_ne_of_not_mem hslash) Fills.nil
  rw [append_nil] at hlast
  exact .literal root (.placeholder hnonempty (all_ne_of_not_mem hline) (.literal word hlast))

theorem match_named_literal (word : Str) (hnonempty : name ≠ []) (hline : '\n' ∉ name) :
    matchPieces (named [.literal word]) (root ++ (name ++ word)) = some [name] := by
  apply (named_literal_fills hnonempty hline).match_eq
  intro other hother
  obtain ⟨found, rfl, htext⟩ := fills_named_literal hother
  rw [append_cancel_right (append_cancel_left htext)]

theorem match_named_segment (front : Str) (hnonempty : name ≠ []) (hline : '\n' ∉ name)
    (hvalue : value ≠ []) (hslash : '/' ∉ value) :
    matchPieces (named [.literal (front ++ ['/']), segment])
      (root ++ (name ++ (front ++ ['/'] ++ value))) = some [name, value] := by
  apply (named_segment_fills hnonempty hline hvalue hslash).match_eq
  intro other hother
  obtain ⟨found, last, rfl, hlast, htext⟩ := fills_named_segment hother
  have hsame := append_cancel_left htext
  -- the last segments are equal, and then so is what stands before the words
  have hvalues : value = last := by
    have hends := congrArg (fun text => (splitSlash text).getLastD []) hsame
    simp only [append_assoc, singleton_append] at hends
    rw [← append_assoc, ← append_assoc, getLast_splitSlash hslash,
      getLast_splitSlash hlast] at hends
    exact hends
  subst hvalues
  rw [append_cancel_right hsame]

theorem no_match_named_segment {other : Str} (hword : '/' ∉ word) (hother : '/' ∉ other)
    (hvalue : '/' ∉ value) (hne : word ≠ other) :
    matchPieces (named [.literal ('/' :: other ++ ['/']), segment])
      (front ++ '/' :: (word ++ '/' :: value)) = none := by
  by_contra hsome
  obtain ⟨values, hvalues⟩ := Option.ne_none_iff_exists'.1 hsome
  obtain ⟨name, last, -, hlast, htext⟩ := fills_named_segment (fills_of_match hvalues)
  have hends := congrArg (fun text => (splitSlash text).reverse) htext
  simp only [cons_append, append_assoc, nil_append] at hends
  rw [reverse_splitSlash hword hvalue, ← append_assoc, reverse_splitSlash hother hlast] at hends
  simp only [List.cons.injEq] at hends
  exact hne hends.2.1

theorem no_match_named_literal (other last : Str) (hword : '/' ∉ word) (hother : '/' ∉ other)
    (hvalue : '/' ∉ value) (hlast : '/' ∉ last) (hne : word ≠ other) :
    matchPieces (named [.literal ('/' :: (other ++ '/' :: last))])
      (front ++ '/' :: (word ++ '/' :: value)) = none := by
  by_contra hsome
  obtain ⟨values, hvalues⟩ := Option.ne_none_iff_exists'.1 hsome
  obtain ⟨name, -, htext⟩ := fills_named_literal (fills_of_match hvalues)
  rw [← append_assoc] at htext
  have hends := congrArg (fun text => (splitSlash text).reverse) htext
  rw [reverse_splitSlash hword hvalue, reverse_splitSlash hother hlast] at hends
  simp only [List.cons.injEq] at hends
  exact hne hends.2.1

theorem no_match_literal {whole : Str} (hne : text ≠ whole) :
    matchPieces [.literal whole] text = none := by
  by_contra hsome
  obtain ⟨values, hvalues⟩ := Option.ne_none_iff_exists'.1 hsome
  cases fills_of_match hvalues with
  | literal _ rest =>
    cases rest with
    | nil => exact hne (append_nil whole)

theorem uploads_path (repo last : Str) :
    root ++ (repo ++ (uploadsWord ++ ['/'] ++ last)) =
      (root ++ (repo ++ '/' :: blobsDir)) ++ '/' :: (uploads ++ '/' :: last) := by
  simp [uploadsWord]

def handlerOf : GateOp → Handler
  | .uploadChunk => .patchUpload
  | .uploadFinish => .finishUpload
  | .uploadStatus => .uploadStatus
  | .manifestPut => .putManifest
  | _ => .startUpload

section Choose

variable {repo last : Str}

theorem not_manifest (repo : Str) (hslash : '/' ∉ last) :
    matchPieces (named [.literal manifestsWord, segment])
      (root ++ (repo ++ (uploadsWord ++ ['/'] ++ last))) = none := by
  rw [uploads_path]
  exact no_match_named_segment (by decide) (by decide) hslash (by decide)

theorem not_blob (repo : Str) (hslash : '/' ∉ last) :
    matchPieces (named [.literal blobsWord, segment])
      (root ++ (repo ++ (uploadsWord ++ ['/'] ++ last))) = none := by
  rw [uploads_path]
  exact no_match_named_segment (by decide) (by decide) hslash (by decide)

theorem not_tags (repo : Str) (hslash : '/' ∉ last) :
    matchPieces (named [.literal tagsList])
      (root ++ (repo ++ (uploadsWord ++ ['/'] ++ last))) = none := by
  rw [uploads_path]
  exact no_match_named_literal ['t', 'a', 'g', 's'] ['l', 'i', 's', 't']
    (by decide) (by decide) hslash (by decide) (by decide)

theorem not_whole (repo last : Str) {whole : Str} (hwhole : '/' ∉ whole) :
    matchPieces [.literal (root ++ whole)]
      (root ++ (repo ++ (uploadsWord ++ ['/'] ++ last))) = none := by
  apply no_match_literal
  intro heq
  apply hwhole
  rw [← append_cancel_left heq]
  simp [uploadsWord]

theorem not_root (repo last : Str) :
    matchPieces [.literal root] (root ++ (repo ++ (uploadsWord ++ ['/'] ++ last))) = none := by
  have hwhole : matchPieces [.literal (root ++ [])] _ = none := not_whole repo last (by simp)
  rwa [append_nil] at hwhole

theorem not_bare (repo last : Str) :
    matchPieces [.literal ['/', 'v', '2']]
      (root ++ (repo ++ (uploadsWord ++ ['/'] ++ last))) = none := by
  apply no_match_literal
  simp [root]

theorem choose_start (hrepo : repo ≠ []) (hline : '\n' ∉ repo) :
    choose .post (root ++ (repo ++ (uploadsWord ++ ['/']))) = .ok (.startUpload, [repo]) := by
  have hmatch := match_named_literal (uploadsWord ++ ['/']) hrepo hline
  generalize root ++ (repo ++ (uploadsWord ++ ['/'])) = path at hmatch
  simp [choose, routes, Route.take, hmatch]

variable (hrepo : repo ≠ []) (hline : '\n' ∉ repo) (hvalue : last ≠ []) (hslash : '/' ∉ last)

include hrepo hline hvalue hslash

theorem choose_chunk :
    choose .patch (root ++ (repo ++ (uploadsWord ++ ['/'] ++ last))) =
      .ok (.patchUpload, [repo, last]) := by
  have hmatch := match_named_segment uploadsWord hrepo hline hvalue hslash
  generalize root ++ (repo ++ (uploadsWord ++ ['/'] ++ last)) = path at hmatch
  simp [choose, routes, Route.take, hmatch]

theorem choose_manifest :
    choose .put (root ++ (repo ++ (manifestsWord ++ last))) = .ok (.putManifest, [repo, last]) := by
  have hmatch : matchPieces (named [.literal manifestsWord, segment])
      (root ++ (repo ++ (manifestsWord ++ last))) = some [repo, last] :=
    match_named_segment ('/' :: manifests) hrepo hline hvalue hslash
  generalize root ++ (repo ++ (manifestsWord ++ last)) = path at hmatch
  simp [choose, routes, Route.take, hmatch]

theorem choose_finish :
    choose .put (root ++ (repo ++ (uploadsWord ++ ['/'] ++ last))) =
      .ok (.finishUpload, [repo, last]) := by
  have hmatch := match_named_segment uploadsWord hrepo hline hvalue hslash
  have hmanifest := not_manifest repo hslash
  generalize root ++ (repo ++ (uploadsWord ++ ['/'] ++ last)) = path at hmatch hmanifest
  simp [choose, routes, Route.take, hmatch, hmanifest]

theorem choose_status :
    choose .get (root ++ (repo ++ (uploadsWord ++ ['/'] ++ last))) =
      .ok (.uploadStatus, [repo, last]) := by
  have hmatch := match_named_segment uploadsWord hrepo hline hvalue hslash
  have hmanifest := not_manifest repo hslash
  have htags := not_tags repo hslash
  have hroot := not_root repo last
  have hbare := not_bare repo last
  have hcatalog : matchPieces [.literal catalogPath]
      (root ++ (repo ++ (uploadsWord ++ ['/'] ++ last))) = none :=
    not_whole repo last (by decide)
  generalize root ++ (repo ++ (uploadsWord ++ ['/'] ++ last)) = path at *
  simp [choose, routes, Route.take, hmatch, hmanifest, htags, hroot, hcatalog, hbare]

theorem choose_head :
    choose .head (root ++ (repo ++ (uploadsWord ++ ['/'] ++ last))) = .error 405 := by
  have hmatch := match_named_segment uploadsWord hrepo hline hvalue hslash
  have hmanifest := not_manifest repo hslash
  have hblob := not_blob repo hslash
  have hroot := not_root repo last
  have hbare := not_bare repo last
  generalize root ++ (repo ++ (uploadsWord ++ ['/'] ++ last)) = path at *
  simp [choose, routes, Route.take, hmatch, hmanifest, hblob, hroot, hbare]

end Choose

/-! ## A read passes no upload -/

def Handler.session : Handler → Bool
  | .startUpload | .uploadStatus | .patchUpload | .finishUpload | .cancelUpload => true
  | _ => false

theorem session_path {method : Method} {path : Str} {handler : Handler} {values : List Str}
    (hread : method = .get ∨ method = .head) (hchoose : choose method path = .ok (handler, values))
    (hsession : handler.session = true) :
    ∃ name last, path = root ++ (name ++ (uploadsWord ++ ['/'] ++ last)) := by
  unfold choose at hchoose
  split at hchoose
  · rename_i found hfound
    cases hchoose
    obtain ⟨route, hroute, htake⟩ := exists_of_findSome?_eq_some hfound
    unfold Route.take at htake
    split at htake
    · rename_i hmethod
      obtain ⟨found, hmatch, heq⟩ := Option.map_eq_some_iff.1 htake
      cases heq
      simp only [routes, mem_cons, not_mem_nil, or_false] at hroute
      have hstatus : route = ⟨named [.literal (uploadsWord ++ ['/']), segment], [.get],
          .uploadStatus⟩ := by
        rcases hread with rfl | rfl
        all_goals
          rcases hroute with rfl | rfl | rfl | rfl | rfl | rfl | rfl | rfl | rfl | rfl | rfl | rfl |
            rfl | rfl | rfl | rfl
        all_goals simp_all [Handler.session]
      subst hstatus
      obtain ⟨name, last, -, -, hpath⟩ := fills_named_segment (fills_of_match hmatch)
      exact ⟨name, last, hpath⟩
    · cases htake
  · split at hchoose
    all_goals cases hchoose

theorem passesUploads_append (before : Str) (front rest : List Str) :
    passesUploads before (front ++ blobsDir :: uploads :: rest) = true := by
  induction front generalizing before with
  | nil => simp [passesUploads, blobsDir, uploads, dot]
  | cons segment front ih =>
    rw [cons_append, passesUploads]
    split
    · exact ih before
    split
    · rfl
    · exact ih segment

theorem readsUploads_path (name last : Str) :
    readsUploads (root ++ (name ++ (uploadsWord ++ ['/'] ++ last))) = true := by
  have hfold : fold (root ++ (name ++ (uploadsWord ++ ['/'] ++ last))) =
      fold (root ++ name) ++ '/' :: (blobsDir ++ '/' :: (uploads ++ '/' :: fold last)) := by
    simp only [fold, map_append, append_assoc]
    rfl
  rw [readsUploads, hfold, splitSlash_append, splitSlash_append, splitSlash_append,
    splitSlash_single (by decide : '/' ∉ blobsDir), splitSlash_single (by decide : '/' ∉ uploads),
    singleton_append, singleton_append, passesUploads_append]
  rfl

theorem onUploadPath_of_session {rawPath path name last : Str}
    (hdecoded : unescape false rawPath = some path)
    (hpath : path = root ++ (name ++ (uploadsWord ++ ['/'] ++ last))) :
    onUploadPath rawPath = true := by
  rw [onUploadPath, hdecoded, hpath]
  simp only [readsUploads_path, Bool.or_true]

end K3sm.Registry.Api
