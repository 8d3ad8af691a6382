import K3sm.Registry.GateRoutes

/-!
# The gate and the server read one request the same way

The gate writes the query anew from pairs with distinct keys and checked values, and the
server reads these pairs.  With the path it finds the operation's handler and the name
the gate authorized, so its calls are those of the operation on that repository, and on
the source of a mount.
-/

namespace K3sm.Registry.Api

open K3sm.Core K3sm.Core.Filepath K3sm.Core.Url K3sm.Core.Template K3sm.Registry.Ref List
open K3sm.Registry.Gate

variable {withName : WithName} {maxUpload : ℤ}

structure Listed (withName : WithName) (op : GateOp) (pairs : Pairs) : Prop where
  once : (pairs.map (·.1)).Nodup
  allowed : ∀ pair ∈ pairs, pair.1 ∈ allowedKeys op
  valid : ∀ pair ∈ pairs, validValue withName pair.1 pair.2 = true

theorem mem_of_lookup {pairs : Pairs} {key value : Str} (hlookup : pairs.lookup key = some value) :
    (key, value) ∈ pairs := by
  obtain ⟨before, after, rfl, -⟩ := lookup_eq_some_iff.1 hlookup
  exact mem_append_right _ mem_cons_self

theorem lookup_filter {pairs : Pairs} {key dropped : Str} (hkey : key ≠ dropped) :
    (pairs.filter (·.1 ≠ dropped)).lookup key = pairs.lookup key := by
  induction pairs with
  | nil => rfl
  | cons pair pairs ih =>
    rw [filter_cons]
    by_cases hpair : pair.1 = dropped
    · have hother : (key == pair.1) = false := beq_eq_false_iff_ne.2 (hpair ▸ hkey)
      rw [if_neg (by simp [hpair]), ih, lookup_cons, hother]
    · rw [if_pos (by simp [hpair]), lookup_cons, lookup_cons, ih]

theorem listed_readPart {op : GateOp} {pairs after : Pairs} {part : Str}
    (hlisted : Listed withName op pairs) (hread : readPart withName op pairs part = some after) :
    Listed withName op after := by
  unfold readPart at hread
  simp only at hread
  split at hread
  · cases hread
  split at hread
  · cases hread
  rename_i hkey
  split at hread
  · cases hread
  rename_i value hvalue
  split at hread
  · rename_i hvalid
    cases hread
    simp only [not_or, Bool.not_eq_true, Bool.not_eq_false', contains_eq_mem,
      decide_eq_true_eq, Option.isSome_eq_false_iff, Option.isNone_iff_eq_none] at hkey
    obtain ⟨hallowed, hnew⟩ := hkey
    rw [lookup_eq_none_iff] at hnew
    constructor
    · rw [map_append, nodup_append]
      refine ⟨hlisted.once, nodup_singleton _, ?_⟩
      intro left hleft right hright heq
      obtain ⟨pair, hpair, rfl⟩ := mem_map.1 hleft
      rw [map_singleton, mem_singleton] at hright
      have hne := hnew pair hpair
      rw [bne_iff_ne] at hne
      exact hne (hright.symm.trans heq.symm)
    · exact forall_mem_append.2 ⟨hlisted.allowed, forall_mem_singleton.2 hallowed⟩
    · exact forall_mem_append.2 ⟨hlisted.valid, forall_mem_singleton.2 hvalid⟩
  · cases hread

theorem listed_foldlM {op : GateOp} {pairs after : Pairs} {parts : List Str}
    (hlisted : Listed withName op pairs)
    (hread : parts.foldlM (readPart withName op) pairs = some after) :
    Listed withName op after := by
  induction parts generalizing pairs with
  | nil =>
    cases hread
    exact hlisted
  | cons part parts ih =>
    rw [foldlM_cons] at hread
    obtain ⟨next, hnext, hrest⟩ := Option.bind_eq_some_iff.1 hread
    exact ih (listed_readPart hlisted hnext) hrest

theorem Listed.filter {op : GateOp} {pairs : Pairs} (hlisted : Listed withName op pairs)
    (keep : Str × Str → Bool) : Listed withName op (pairs.filter keep) where
  once := hlisted.once.sublist (filter_sublist.map _)
  allowed := fun pair hpair => hlisted.allowed pair (mem_of_mem_filter hpair)
  valid := fun pair hpair => hlisted.valid pair (mem_of_mem_filter hpair)

/-- What the gate forwards of a query: pairs without an origin, in which a mount and its
source stand together. -/
theorem parseWriteQuery_some {op : GateOp} {rawQuery query source : Str}
    (hquery : parseWriteQuery withName op rawQuery = some (query, source)) :
    ∃ pairs, Listed withName op pairs ∧ (∀ pair ∈ pairs, pair.1 ≠ originKey) ∧
      query = encode pairs ∧ source = (pairs.lookup fromKey).getD [] ∧
      (pairs.lookup mountKey).isSome = (pairs.lookup fromKey).isSome := by
  unfold parseWriteQuery at hquery
  obtain ⟨pairs, hpairs, hsettle⟩ := Option.bind_eq_some_iff.1 hquery
  have hlisted : Listed withName op pairs := by
    have hempty : Listed withName op [] := ⟨nodup_nil, nofun, nofun⟩
    unfold readQuery at hpairs
    split at hpairs
    · cases hpairs
      exact hempty
    · exact listed_foldlM hempty hpairs
  unfold settleQuery at hsettle
  simp only at hsettle
  split at hsettle
  · cases hsettle
  rename_i htogether
  split at hsettle
  · cases hsettle
  rw [Option.some.injEq, Prod.mk.injEq] at hsettle
  refine ⟨pairs.filter (·.1 ≠ originKey), hlisted.filter _, ?_, hsettle.1.symm, hsettle.2.symm, ?_⟩
  · intro pair hpair
    exact of_decide_eq_true (mem_filter.1 hpair).2
  · rw [lookup_filter (by decide), lookup_filter (by decide)]
    exact not_not.1 (not_or.1 htogether).1

theorem toNat_of_isAlphanum {char : Char} (hchar : char.isAlphanum = true) : char.toNat < 256 := by
  simp only [Char.isAlphanum, Char.isAlpha, Char.isUpper, Char.isLower, Char.isDigit, ge_iff_le,
    Bool.or_eq_true, Bool.and_eq_true, decide_eq_true_eq, UInt32.le_iff_toNat_le] at hchar
  have hz : 'z'.val.toNat = 122 := rfl
  have hZ : 'Z'.val.toNat = 90 := rfl
  have h9 : '9'.val.toNat = 57 := rfl
  show char.val.toNat < 256
  omega

theorem bytes_of_plain {text : Str} (hplain : Plain text) : Bytes text := by
  intro char hchar
  rcases hplain char hchar with hunreserved | rfl | rfl
  · simp only [unreserved, Bool.or_eq_true, beq_iff_eq] at hunreserved
    rcases hunreserved with (((halnum | rfl) | rfl) | rfl) | rfl
    · exact toNat_of_isAlphanum halnum
    all_goals decide
  · decide
  · decide

theorem bytes_state {state : Str} (hstate : validState state = true) : Bytes state := by
  intro char hchar
  simp only [validState, Bool.and_eq_true, all_eq_true] at hstate
  have hmember := hstate.2 char hchar
  simp only [Bool.or_eq_true, beq_iff_eq] at hmember
  rcases hmember with (((((halnum | rfl) | rfl) | rfl) | rfl) | rfl) | rfl
  · exact toNat_of_isAlphanum halnum
  all_goals decide

theorem bytes_key {op : GateOp} {key : Str} (hkey : key ∈ allowedKeys op) : Bytes key := by
  have hall : (allowedKeys op).all fun key => key.all fun char => char.toNat < 256 := by
    cases op <;> rfl
  intro char hchar
  exact of_decide_eq_true (all_eq_true.1 (all_eq_true.1 hall key hkey) char hchar)

theorem bytes_value {key value : Str} (hvalid : validValue withName key value = true)
    (horigin : key ≠ originKey) : Bytes value := by
  unfold validValue at hvalid
  split at hvalid
  · exact bytes_of_plain (plain_digest hvalid)
  split at hvalid
  · rw [isName, decide_eq_true_eq] at hvalid
    exact bytes_of_plain (plain_name hvalid)
  split at hvalid
  · exact bytes_state hvalid
  · exact absurd (of_decide_eq_true hvalid) horigin

theorem one_encode {op : GateOp} {pairs : Pairs} (hlisted : Listed withName op pairs)
    (horigin : ∀ pair ∈ pairs, pair.1 ≠ originKey) {request : Request}
    (hquery : request.query = encode pairs) (key : Str) :
    one request key = some (pairs.lookup key) := by
  have hvalues : values (Api.pairs request) key = (pairs.lookup key).toList := by
    rw [Api.pairs, hquery]
    apply values_encode _ hlisted.once
    intro pair hpair
    exact ⟨bytes_key (hlisted.allowed pair hpair),
      bytes_value (hlisted.valid pair hpair) (horigin pair hpair)⟩
  rw [one, hvalues]
  cases pairs.lookup key <;> rfl

/-! ## The calls of a handler -/

/-- Every call of the program is one of these, whatever the answers are. -/
def Calls (sends : StoreCall → Prop) (program : Handling Reply) : Prop :=
  program.All (fun _ _ => True) sends fun _ => True

section Calls

variable {sends : StoreCall → Prop}

theorem calls_done (reply : Reply) : Calls sends (.done reply) := trivial

theorem calls_call {call : StoreCall} {next : call.Answer → Handling Reply} (hcall : sends call)
    (hnext : ∀ answer, Calls sends (next answer)) : Calls sends (.call call next) :=
  ⟨hcall, fun answer _ => hnext answer⟩

theorem calls_orFail {went : Bool} {next : Handling Reply} (hnext : Calls sends next) :
    Calls sends (orFail went next) := by
  unfold orFail
  split
  · exact hnext
  · exact calls_done _

theorem calls_ite {condition : Prop} [Decidable condition] {yes no : Handling Reply}
    (hyes : condition → Calls sends yes) (hno : ¬ condition → Calls sends no) :
    Calls sends (if condition then yes else no) := by
  split
  · exact hyes ‹_›
  · exact hno ‹_›

theorem calls_allow {verb : Verb} {name : Str} {next : Handling Reply}
    (hcall : sends (.allow verb name)) (hnext : Calls sends next) :
    Calls sends (allow verb name next) :=
  calls_call hcall fun (_ : Bool) => calls_ite (fun _ => hnext) fun _ => calls_done _

end Calls

/-- The calls of an operation on its repository.  A mount reads its source, and nothing
else is read. -/
def Belongs (route : GateRoute) : StoreCall → Prop
  | .allow .write name =>
    name = route.repo ∧ route.op ≠ .uploadStatus
  | .allow .read name =>
    name = route.repo ∧ route.op = .uploadStatus ∨
      name = route.source ∧ route.source ≠ [] ∧ route.op = .uploadStart
  | .roomFor _ => route.op = .uploadStart ∨ route.op = .uploadChunk ∨ route.op = .uploadFinish
  | .admitSession => route.op = .uploadStart
  | .mountBlob name source _ =>
    route.op = .uploadStart ∧ name = route.repo ∧ source = route.source ∧ source ≠ []
  | .newUpload name => route.op = .uploadStart ∧ name = route.repo
  | .appendUpload name id =>
    name = route.repo ∧ (route.op = .uploadStart ∨
      (route.op = .uploadChunk ∨ route.op = .uploadFinish) ∧ id = target route)
  | .commitUpload name id _ =>
    name = route.repo ∧ (route.op = .uploadStart ∨ route.op = .uploadFinish ∧ id = target route)
  | .cancelUpload name _ => route.op = .uploadStart ∧ name = route.repo
  | .uploadSize name id => route.op = .uploadStatus ∧ name = route.repo ∧ id = target route
  | .blobsPresent name _ => route.op = .manifestPut ∧ name = route.repo
  | .admitQuota name => route.op = .manifestPut ∧ name = route.repo
  | .putManifest name reference =>
    route.op = .manifestPut ∧ name = route.repo ∧ parseReference (target route) = some reference
  | _ => False

section Handlers

variable {route : GateRoute} {request : Request}

theorem calls_uploadStatus (hop : route.op = .uploadStatus) :
    Calls (Belongs route) (uploadStatus route.repo (target route)) := by
  refine calls_allow (.inl ⟨rfl, hop⟩) (calls_ite (fun _ => calls_done _) fun _ => ?_)
  exact calls_call ⟨hop, rfl, rfl⟩ fun _ => calls_orFail (calls_done _)

theorem calls_roomForBody {next : Handling Reply}
    (hop : route.op = .uploadChunk ∨ route.op = .uploadFinish)
    (hnext : Calls (Belongs route) next) :
    Calls (Belongs route) (roomForBody maxUpload request next) :=
  calls_ite (fun _ => calls_done _) fun _ => calls_call (.inr hop) fun _ => calls_orFail hnext

theorem calls_appendChunk {next : Handling Reply}
    (hop : route.op = .uploadChunk ∨ route.op = .uploadFinish)
    (hnext : Calls (Belongs route) next) :
    Calls (Belongs route) (appendChunk route.repo (target route) next) :=
  calls_call ⟨rfl, .inr ⟨hop, rfl⟩⟩ fun _ => calls_orFail hnext

theorem calls_patchUpload (hop : route.op = .uploadChunk) :
    Calls (Belongs route) (patchUpload maxUpload request route.repo (target route)) := by
  refine calls_allow ⟨rfl, by simp [hop]⟩ (calls_ite (fun _ => calls_done _) fun _ => ?_)
  split
  · exact calls_done _
  · exact calls_roomForBody (.inl hop) (calls_appendChunk (.inl hop) (calls_done _))

theorem calls_commit (hop : route.op = .uploadFinish) (digest : Str) :
    Calls (Belongs route) (commit route.repo (target route) digest) :=
  calls_call ⟨rfl, .inr ⟨hop, rfl⟩⟩ fun _ => calls_orFail (calls_done _)

theorem calls_finishUpload (hop : route.op = .uploadFinish) :
    Calls (Belongs route) (finishUpload maxUpload request route.repo (target route)) := by
  refine calls_allow ⟨rfl, by simp [hop]⟩ (calls_ite (fun _ => calls_done _) fun _ => ?_)
  split
  · exact calls_done _
  · exact calls_done _
  refine calls_ite (fun _ => calls_done _) fun _ => ?_
  split
  · exact calls_done _
  refine calls_ite (fun _ => ?_) fun _ => calls_commit hop _
  exact calls_roomForBody (.inr hop) (calls_appendChunk (.inr hop) (calls_commit hop _))

section

variable (hop : route.op = .uploadStart)

include hop

theorem calls_newSession : Calls (Belongs route) (newSession route.repo) := by
  refine calls_call hop fun _ =>
    calls_orFail (calls_call ⟨hop, rfl⟩ fun (created : Option Str) => ?_)
  cases created <;> exact calls_done _

theorem calls_abandon (id : Str) : Calls (Belongs route) (abandon route.repo id) :=
  calls_call ⟨hop, rfl⟩ fun _ => calls_done _

theorem calls_monolithic (digest : Str) :
    Calls (Belongs route) (monolithic maxUpload request route.repo digest) := by
  refine calls_ite (fun _ => calls_done _) fun _ => calls_ite (fun _ => calls_done _) fun _ =>
    calls_ite (fun _ => calls_done _) fun _ => ?_
  refine calls_call hop fun _ =>
    calls_orFail (calls_call ⟨hop, rfl⟩ fun (created : Option Str) => ?_)
  cases created with
  | none => exact calls_done _
  | some id =>
    refine calls_call ⟨rfl, .inl hop⟩ fun (_ : Bool) =>
      calls_ite (fun _ => calls_abandon hop id) fun _ => ?_
    exact calls_call ⟨rfl, .inl hop⟩ fun (_ : Bool) =>
      calls_ite (fun _ => calls_done _) fun _ => calls_abandon hop id

theorem calls_startSession : Calls (Belongs route) (startSession maxUpload request route.repo) := by
  unfold startSession
  split
  · exact calls_done _
  rename_i digest _
  refine calls_call (.inl hop) fun _ => calls_orFail ?_
  cases digest with
  | none => exact calls_newSession hop
  | some digest => exact calls_monolithic hop digest

theorem calls_mount (digest : Str) (hsource : ∀ source, one request fromKey = some (some source) →
      source = route.source ∧ source ≠ []) :
    Calls (Belongs route) (mount withName maxUpload request route.repo digest) := by
  unfold mount
  split
  · exact calls_done _
  · exact calls_ite (fun _ => calls_done _) fun _ => calls_startSession hop
  rename_i source hone
  obtain ⟨rfl, hnonempty⟩ := hsource source hone
  refine calls_ite (fun _ => calls_done _) fun _ => ?_
  refine calls_allow (.inr ⟨rfl, hnonempty, hop⟩) (calls_ite (fun _ => calls_done _) fun _ => ?_)
  refine calls_call ⟨hop, rfl, rfl, hnonempty⟩ fun (answer : MountAnswer) => ?_
  cases answer with
  | linked => exact calls_done _
  | unavailable => exact calls_startSession hop
  | failed => exact calls_done _

theorem calls_startUpload (hsource : ∀ source, one request fromKey = some (some source) →
      source = route.source ∧ source ≠ []) :
    Calls (Belongs route) (startUpload withName maxUpload request route.repo) := by
  refine calls_allow ⟨rfl, by simp [hop]⟩ ?_
  split
  · exact calls_done _
  · exact calls_mount hop _ hsource
  · exact calls_startSession hop

end

theorem calls_putManifest (hop : route.op = .manifestPut)
    (htags : values (pairs request) tagKey = []) :
    Calls (Belongs route) (putManifest request route.repo (target route)) := by
  refine calls_allow ⟨rfl, by simp [hop]⟩ ?_
  split
  · exact calls_done _
  rename_i parsed hparsed
  have hrows : Calls (Belongs route) (putRows request route.repo parsed) := by
    refine calls_call ⟨hop, rfl, hparsed⟩ fun _ => calls_orFail ?_
    rw [htags]
    exact calls_done _
  simp only [htags]
  refine calls_ite (fun _ => calls_done _) fun _ => calls_ite (fun _ => calls_done _) fun _ => ?_
  unfold putChecked
  split
  · exact calls_done _
  refine calls_call ⟨hop, rfl⟩ fun _ => calls_orFail (calls_ite (fun _ => ?_) fun _ => hrows)
  exact calls_call ⟨hop, rfl⟩ fun _ => calls_orFail hrows

end Handlers

def StoreCall.session : StoreCall → Bool
  | .admitSession | .newUpload _ | .appendUpload _ _ | .commitUpload _ _ _ | .cancelUpload _ _
  | .uploadSize _ _ => true
  | _ => false

section Reads

variable {request : Request} {sends : StoreCall → Prop}

theorem calls_putTags (hput : ∀ name reference, sends (.putManifest name reference)) (name : Str)
    (tags : List Str) : Calls sends (putTags name tags) := by
  induction tags with
  | nil => exact calls_done _
  | cons tag tags ih => exact calls_call (hput name _) fun _ => calls_orFail ih

theorem calls_other {handler : Handler} (hhandler : handler.session = false) (name value : Str) :
    Calls (fun call => call.session = false)
      (runHandler withName maxUpload request handler name value) := by
  cases handler with
  | version => exact calls_allow rfl (calls_done _)
  | catalog | tags => exact calls_allow rfl (calls_call rfl fun _ => calls_orFail (calls_done _))
  | getManifest =>
    refine calls_allow rfl ?_
    split
    · exact calls_done _
    refine calls_call rfl fun _ => calls_orFail ?_
    split
    · exact calls_call rfl fun _ => calls_orFail (calls_done _)
    · exact calls_done _
  | putManifest =>
    refine calls_allow rfl ?_
    split
    · exact calls_done _
    rename_i parsed _
    have hrows : Calls (fun call => call.session = false) (putRows request name parsed) :=
      calls_call rfl fun _ => calls_orFail (calls_putTags (fun _ _ => rfl) _ _)
    simp only
    split
    · exact calls_done _
    refine calls_ite (fun _ => calls_done _) fun _ => calls_ite (fun _ => calls_done _) fun _ => ?_
    unfold putChecked
    split
    · exact calls_done _
    refine calls_call rfl fun _ => calls_orFail (calls_ite (fun _ => ?_) fun _ => hrows)
    exact calls_call rfl fun _ => calls_orFail hrows
  | deleteManifest =>
    refine calls_allow rfl ?_
    split
    · exact calls_done _
    · exact calls_call rfl fun _ => calls_orFail (calls_done _)
  | getBlob =>
    refine calls_allow rfl (calls_ite (fun _ => calls_done _) fun _ => ?_)
    refine calls_call rfl fun _ => calls_orFail (calls_ite (fun _ => ?_) fun _ => calls_done _)
    exact calls_call rfl fun _ => calls_orFail (calls_done _)
  | deleteBlob => exact calls_allow rfl (calls_ite (fun _ => calls_done _) fun _ => calls_done _)
  | referrers =>
    refine calls_allow rfl (calls_ite (fun _ => calls_done _) fun _ => ?_)
    exact calls_call rfl fun _ => calls_orFail (calls_done _)
  | startUpload | uploadStatus | patchUpload | finishUpload | cancelUpload => cases hhandler

theorem calls_runNamed {handler : Handler} {values : List Str}
    (hrun : ∀ name value, Calls sends (runHandler withName maxUpload request handler name value)) :
    Calls sends (runNamed withName maxUpload request handler values) := by
  unfold runNamed
  split
  · exact hrun _ _
  · exact hrun _ _
  · exact calls_ite (fun _ => calls_done _) fun _ => hrun _ _

theorem calls_read {rawPath rawQuery : Str}
    (hread : (classify withName request.method rawPath rawQuery).op = .read)
    (hsent : unescape false request.sent = unescape false rawPath) :
    Calls (fun call => call.session = false) (serve withName maxUpload request) := by
  obtain ⟨hmethod, hupload⟩ := read_of_classify hread
  unfold serve
  split
  · exact calls_done _
  rename_i path hpath
  refine calls_ite (fun _ => calls_done _) fun _ => ?_
  split
  · exact calls_done _
  rename_i handler values hchoose
  refine calls_runNamed fun name value => calls_other ?_ name value
  by_contra hsession
  rw [Bool.not_eq_false] at hsession
  obtain ⟨name, last, hshape⟩ := session_path hmethod hchoose hsession
  rw [hsent] at hpath
  rw [onUploadPath_of_session hpath hshape] at hupload
  cases hupload

end Reads

/-- What the gate sends on for a write, with the headers and the body as they came. -/
def forward (request : Request) (route : GateRoute) : Request :=
  { request with sent := pathEscape route.path, query := route.query }

/-- The server's reading of a forwarded write is the gate's. -/
structure Agrees (withName : WithName) (maxUpload : ℤ) (route : GateRoute) (request : Request) :
    Prop where
  /-- The server runs the operation's handler on the repository the gate authorized. -/
  performs : serve withName maxUpload request =
    runHandler withName maxUpload request (handlerOf route.op) route.repo (target route)
  /-- It reads the source of a mount as the gate did. -/
  source : one request fromKey = some (if route.source = [] then none else some route.source)
  calls : Calls (Belongs route) (serve withName maxUpload request)

theorem serve_forward {op : GateOp} {rawPath rawQuery : Str} {route : GateRoute}
    (hparsed : Parsed withName op rawPath rawQuery route) (request : Request) :
    serve withName maxUpload (forward request route) =
      match choose request.method rawPath with
      | .error code => .done (.status code)
      | .ok (handler, values) =>
        runNamed withName maxUpload (forward request route) handler values := by
  have hplain : Plain rawPath := by
    rw [hparsed.shape]
    exact plain_root.append ((plain_name hparsed.name).append
      ((plain_middle op).append (plain_target hparsed.targetOk)))
  have hsent : (forward request route).sent = rawPath := by
    rw [forward, hparsed.path, hplain.pathEscape]
  unfold serve
  rw [hsent, hplain.unescape]
  simp only [escapedPath, hplain.validEncoded, if_true, ne_eq, not_true, if_false]
  rfl

theorem target_ne_nil {op : GateOp} {last : Str} (hop : op ≠ .uploadStart)
    (hlast : TargetOk op last) : last ≠ [] := by
  rintro rfl
  cases op
  case uploadStart => exact hop rfl
  all_goals cases hlast

section Forwarded

variable {op : GateOp} {rawPath rawQuery : Str} {route : GateRoute} {request : Request}

section

variable (hparsed : Parsed withName op rawPath rawQuery route)

include hparsed

theorem Parsed.repo_ne_nil : route.repo ≠ [] :=
  (parseName_accepts hparsed.name).1

theorem Parsed.repo_line : '\n' ∉ route.repo := by
  intro hline
  have hbyte := (parseName_accepts hparsed.name).2.2.1 _ hline
  cases hbyte

theorem Parsed.choose {method : Method} (hop : op ∈ writesOf method) (hhead : method ≠ .head) :
    ∃ rest, Api.choose method rawPath = .ok (handlerOf op, route.repo :: rest) ∧
      (op ≠ .uploadStart → rest = [target route]) := by
  have hrepo := hparsed.repo_ne_nil
  have hline := hparsed.repo_line
  have hslash := hparsed.noSlash
  have htarget : op ≠ .uploadStart → target route ≠ [] :=
    fun hne => target_ne_nil hne hparsed.targetOk
  rw [hparsed.shape]
  cases method with
  | get =>
    cases mem_singleton.1 hop
    exact ⟨_, choose_status hrepo hline (htarget (by decide)) hslash, fun _ => rfl⟩
  | head => exact absurd rfl hhead
  | post =>
    cases mem_singleton.1 hop
    have hempty : target route = [] := hparsed.targetOk
    rw [hempty, append_nil]
    exact ⟨_, choose_start hrepo hline, fun hne => absurd rfl hne⟩
  | patch =>
    cases mem_singleton.1 hop
    exact ⟨_, choose_chunk hrepo hline (htarget (by decide)) hslash, fun _ => rfl⟩
  | put =>
    rcases mem_cons.1 hop with rfl | hlast
    · exact ⟨_, choose_finish hrepo hline (htarget (by decide)) hslash, fun _ => rfl⟩
    · cases mem_singleton.1 hlast
      exact ⟨_, choose_manifest hrepo hline (htarget (by decide)) hslash, fun _ => rfl⟩
  | delete | other name => cases hop

theorem Parsed.performs (hop : op ∈ writesOf request.method) (hhead : request.method ≠ .head) :
    serve withName maxUpload (forward request route) =
      runHandler withName maxUpload (forward request route) (handlerOf op) route.repo
        (target route) := by
  obtain ⟨rest, hchoose, hrest⟩ := hparsed.choose hop hhead
  rw [serve_forward hparsed, hchoose]
  by_cases hstart : op = .uploadStart
  · subst hstart
    simp [runNamed, handlerOf, hparsed.name, runHandler]
  · cases hrest hstart
    have hwrite := hparsed.isWrite
    cases op <;> simp_all [runNamed, handlerOf, hparsed.name, GateOp.isWrite]

theorem Parsed.source_name :
    route.source = [] ∨ parseName withName route.source = .ok route.source := by
  obtain ⟨pairs, hlisted, -, -, hsource, -⟩ := parseWriteQuery_some hparsed.query
  rw [hsource]
  cases hlookup : pairs.lookup fromKey with
  | none => exact .inl rfl
  | some source =>
    have hvalid := hlisted.valid _ (mem_of_lookup hlookup)
    exact .inr (by simpa [validValue, isName, fromKey, digestKey, mountKey] using hvalid)

theorem Parsed.source_eq :
    one (forward request route) fromKey =
      some (if route.source = [] then none else some route.source) := by
  obtain ⟨pairs, hlisted, horigin, hquery, hsource, -⟩ := parseWriteQuery_some hparsed.query
  rw [one_encode hlisted horigin hquery, hsource]
  cases hlookup : pairs.lookup fromKey with
  | none => rfl
  | some source =>
    have hvalid := hlisted.valid _ (mem_of_lookup hlookup)
    have hname : parseName withName source = .ok source := by
      simpa [validValue, isName, fromKey, digestKey, mountKey] using hvalid
    simp [(parseName_accepts hname).1]

end

theorem Parsed.no_tags (hparsed : Parsed withName .manifestPut rawPath rawQuery route) :
    values (pairs (forward request route)) tagKey = [] := by
  obtain ⟨pairs, hlisted, -, hquery, -, -⟩ := parseWriteQuery_some hparsed.query
  have hempty : pairs = [] := by
    cases pairs with
    | nil => rfl
    | cons pair rest => cases hlisted.allowed pair mem_cons_self
  subst hempty
  rw [Api.pairs, show (forward request route).query = route.query from rfl, hquery]
  rfl

theorem Parsed.agrees (hparsed : Parsed withName op rawPath rawQuery route)
    (hop : op ∈ writesOf request.method) (hhead : request.method ≠ .head) :
    Agrees withName maxUpload route (forward request route) := by
  have hperforms : serve withName maxUpload (forward request route) = _ :=
    hparsed.performs hop hhead
  have hofOp := hparsed.ofOp
  refine ⟨by rw [hofOp]; exact hperforms, hparsed.source_eq, ?_⟩
  rw [hperforms]
  have hwrite := hparsed.isWrite
  cases op with
  | uploadStart =>
    apply calls_startUpload hofOp
    intro source hone
    rw [hparsed.source_eq] at hone
    split at hone
    · cases hone
    rename_i hsource
    cases hone
    exact ⟨rfl, hsource⟩
  | uploadChunk => exact calls_patchUpload hofOp
  | uploadFinish => exact calls_finishUpload hofOp
  | uploadStatus => exact calls_uploadStatus hofOp
  | manifestPut => exact calls_putManifest hofOp hparsed.no_tags
  | invalid | refused | read => cases hwrite

theorem Parsed.head (hparsed : Parsed withName op rawPath rawQuery route)
    (hop : op ∈ writesOf request.method) (hhead : request.method = .head) :
    serve withName maxUpload (forward request route) = .done (.status 405) := by
  rw [hhead] at hop
  cases mem_singleton.1 hop
  have htarget := target_ne_nil (by decide) hparsed.targetOk
  rw [serve_forward hparsed, hhead, hparsed.shape]
  have hchoose : Api.choose .head (root ++ (route.repo ++ (middle .uploadStatus ++ target route))) =
      .error 405 :=
    choose_head hparsed.repo_ne_nil hparsed.repo_line htarget hparsed.noSlash
  rw [hchoose]

end Forwarded

/-- Whatever the gate takes for a write, the server reads as that operation on that
repository, or refuses as the head of an upload.  A read reaches no session. -/
theorem gate_and_server_agree (withName : WithName) (maxUpload : ℤ) (request : Request)
    (rawPath rawQuery : Str) :
    let route := classify withName request.method rawPath rawQuery
    (route.op.isWrite = true → request.method ≠ .head →
      Agrees withName maxUpload route (forward request route)) ∧
    (route.op.isWrite = true → request.method = .head →
      serve withName maxUpload (forward request route) = .done (.status 405)) ∧
    (route.op = .read → unescape false request.sent = unescape false rawPath →
      Calls (fun call => call.session = false) (serve withName maxUpload request)) := by
  refine ⟨fun hwrite hhead => ?_, fun hwrite hhead => ?_, fun hread hsent => ?_⟩
  · obtain ⟨op, hop, hparsed⟩ := parsed_of_classify hwrite
    exact hparsed.agrees hop hhead
  · obtain ⟨op, hop, hparsed⟩ := parsed_of_classify hwrite
    exact hparsed.head hop hhead
  · exact calls_read hread hsent

def mountRequest : Request where
  method := .post
  sent := root ++ ['a', '/', 'b'] ++ uploadsWord ++ ['/']
  query := mountKey ++ '=' :: (Algorithm.sha256.text ++ ':' :: List.replicate 64 '0') ++
    '&' :: fromKey ++ ['=', 'c', '%', '2', 'f', 'd']
  contentLength := 0
  chunkOffset := some (-1)
  checked := fun _ => none

/-- The server asks for c/d, the source the gate read out of the escape. -/
theorem demo_gate_and_server_agree :
    let route := classify demoWithName .post mountRequest.sent mountRequest.query
    route.repo = ['a', '/', 'b'] ∧ route.source = ['c', '/', 'd'] ∧
      Agrees demoWithName 0 route (forward mountRequest route) :=
  ⟨by decide, by decide,
    (gate_and_server_agree demoWithName 0 mountRequest mountRequest.sent mountRequest.query).1
      (by decide) (by decide)⟩

def headRequest : Request where
  method := .head
  sent := root ++ ['a'] ++ uploadsWord ++ ['/', 'x']
  query := []
  contentLength := 0
  chunkOffset := some (-1)
  checked := fun _ => none

/-- The gate authorizes the request as the status of an upload, and the server performs no
such operation. -/
theorem head_of_upload_not_performed :
    let route := classify demoWithName .head headRequest.sent headRequest.query
    route.op = .uploadStatus ∧ route.repo = ['a'] ∧
      ¬ Agrees demoWithName 0 route (forward headRequest route) := by
  refine ⟨by decide, by decide, fun hagrees => ?_⟩
  have hperforms := hagrees.performs
  have hended : (serve demoWithName 0 (forward headRequest
      (classify demoWithName .head headRequest.sent headRequest.query))).ended = true := by
    decide
  rw [hperforms] at hended
  revert hended
  decide

end K3sm.Registry.Api
