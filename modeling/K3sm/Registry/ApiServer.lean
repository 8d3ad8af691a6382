import K3sm.Core.Interaction
import K3sm.Core.Template
import K3sm.Registry.GatePath

/-!
# The registry server

The server decodes the path, refuses one that holds an escape, finds the first route of its table
that takes the method and the path, and runs the route's handler on the repository the path names.
A handler is a program whose calls say which repository it asks for, reads or writes.
-/

namespace K3sm.Registry.Api

open K3sm.Core K3sm.Core.Filepath K3sm.Core.Url K3sm.Core.Template K3sm.Registry.Ref
open K3sm.Registry.Gate (Method root uploads manifests digestKey mountKey fromKey)

inductive Verb where
  | read
  | write
  | delete
  deriving DecidableEq

/-- The calls of the handlers, with the repository each is about. -/
inductive StoreCall where
  | allow (verb : Verb) (name : Str)
  | roomFor (need : ℤ)
  | admitSession
  | mountBlob (name source digest : Str)
  | newUpload (name : Str)
  | appendUpload (name id : Str)
  | commitUpload (name id digest : Str)
  | cancelUpload (name id : Str)
  | uploadSize (name id : Str)
  | blobsPresent (name : Str) (needs : List Str)
  | admitQuota (name : Str)
  | putManifest (name : Str) (reference : Reference)
  | deleteManifest (name : Str) (reference : Reference)
  | manifest (name : Str) (reference : Reference)
  | openBlob (name digest : Str)
  | headTouch (name digest : Str)
  | tags (name : Str)
  | referrersOf (name digest : Str)
  | walkRepositories
  deriving DecidableEq

/-- How a mount ends: `ErrMountUnavailable` is a failure of its own. -/
inductive MountAnswer where
  | linked
  | unavailable
  | failed
  deriving DecidableEq

/-- A call says whether it went well; a new upload also says its id. -/
def StoreCall.Answer : StoreCall → Type
  | .newUpload _ => Option Str
  | .mountBlob _ _ _ => MountAnswer
  | _ => Bool

/-- The answer to the client: a status, or what `fail` makes of an error. -/
inductive Reply where
  | status (code : ℕ)
  | failed
  deriving DecidableEq

abbrev Handling := Prog StoreCall StoreCall.Answer

structure Checked where
  needs : List Str
  /-- Whether it has an artifact type, which the quota counts. -/
  artifact : Bool

structure Request where
  method : Method
  /-- The path on the request line. -/
  sent : Str
  query : Str
  contentLength : ℤ
  /-- `chunkOffset`: no value is a malformed range, -1 is none. -/
  chunkOffset : Option ℤ
  /-- The checks of a manifest's media type, length, bytes and body. -/
  checked : Reference → Option Checked

section Handlers

variable (withName : WithName) (maxUpload : ℤ) (request : Request)

def allow (verb : Verb) (name : Str) (next : Handling Reply) : Handling Reply :=
  .call (.allow verb name) fun (allowed : Bool) => if allowed then next else .done .failed

def orFail (went : Bool) (next : Handling Reply) : Handling Reply :=
  if went then next else .done .failed

def pairs : Pairs := parse request.query

def one (key : Str) : Option (Option Str) :=
  match values (pairs request) key with
  | [] => some none
  | [value] => some (some value)
  | _ => none

def version : Handling Reply := allow .read [] (.done (.status 200))

def catalog : Handling Reply :=
  allow .read [] <| .call .walkRepositories fun (walked : Bool) =>
    orFail walked (.done (.status 200))

def tags (name : Str) : Handling Reply :=
  allow .read name <| .call (.tags name) fun (listed : Bool) => orFail listed (.done (.status 200))

def getManifest (name reference : Str) : Handling Reply :=
  allow .read name <| match parseReference reference with
    | none => .done .failed
    | some parsed => .call (.manifest name parsed) fun (found : Bool) => orFail found <|
        match request.method, parsed with
        | .head, .digest digest => .call (.headTouch name digest) fun (touched : Bool) =>
          orFail touched (.done (.status 200))
        | _, _ => .done (.status 200)

/-- The rows of the tags that a manifest's put names beside its reference. -/
def putTags (name : Str) : List Str → Handling Reply
  | [] => .done (.status 201)
  | tag :: rest => .call (.putManifest name (.tag tag)) fun (wrote : Bool) =>
    orFail wrote (putTags name rest)

def tagKey : Str := ['t', 'a', 'g']

def maxQueryTags : ℕ := 46

def putRows (name : Str) (parsed : Reference) : Handling Reply :=
  .call (.putManifest name parsed) fun (wrote : Bool) =>
    orFail wrote (putTags name (values (pairs request) tagKey))

def putChecked (name : Str) (parsed : Reference) : Handling Reply :=
  match request.checked parsed with
  | none => .done .failed
  | some checked => .call (.blobsPresent name checked.needs) fun (present : Bool) =>
    orFail present <|
      if checked.artifact then .call (.admitQuota name) fun (admitted : Bool) =>
        orFail admitted (putRows request name parsed)
      else putRows request name parsed

def putManifest (name reference : Str) : Handling Reply :=
  allow .write name <| match parseReference reference with
    | none => .done .failed
    | some parsed =>
      let tags := values (pairs request) tagKey
      match tags, parsed with
      | _ :: _, .tag _ => .done (.status 400)
      | _, _ =>
        if maxQueryTags < tags.length then .done (.status 414)
        else if tags.any (!parseTag tagGrammar ·) then .done (.status 400)
        else putChecked request name parsed

def deleteManifest (name reference : Str) : Handling Reply :=
  allow .delete name <| match parseReference reference with
    | none => .done .failed
    | some parsed => .call (.deleteManifest name parsed) fun (deleted : Bool) =>
      orFail deleted (.done (.status 202))

def getBlob (name digest : Str) : Handling Reply :=
  allow .read name <|
    if !parseDigest digest then .done .failed
    else .call (.openBlob name digest) fun (opened : Bool) => orFail opened <|
      if request.method = .head then .call (.headTouch name digest) fun (touched : Bool) =>
        orFail touched (.done (.status 200))
      else .done (.status 200)

def deleteBlob (name digest : Str) : Handling Reply :=
  allow .delete name <|
    if !parseDigest digest then .done .failed else .done (.status 405)

def referrers (name digest : Str) : Handling Reply :=
  allow .read name <|
    if !parseDigest digest then .done .failed
    else .call (.referrersOf name digest) fun (read : Bool) => orFail read (.done (.status 200))

/-! ### Uploads -/

/-- `tooLarge`, and then `roomFor`. -/
def roomForBody (next : Handling Reply) : Handling Reply :=
  if maxUpload < request.contentLength then .done .failed
  else .call (.roomFor request.contentLength) fun (room : Bool) => orFail room next

def abandon (name id : Str) : Handling Reply :=
  .call (.cancelUpload name id) fun _ => .done .failed

def monolithic (name digest : Str) : Handling Reply :=
  if !parseDigest digest then .done .failed
  else if request.contentLength < 0 then .done (.status 400)
  else if maxUpload < request.contentLength then .done .failed
  else .call .admitSession fun (admitted : Bool) => orFail admitted <|
    .call (.newUpload name) fun (created : Option Str) => match created with
      | none => .done .failed
      | some id => .call (.appendUpload name id) fun (appended : Bool) =>
        if !appended then abandon name id
        else .call (.commitUpload name id digest) fun (committed : Bool) =>
          if committed then .done (.status 201) else abandon name id

def newSession (name : Str) : Handling Reply :=
  .call .admitSession fun (admitted : Bool) => orFail admitted <|
    .call (.newUpload name) fun (created : Option Str) => match created with
      | none => .done .failed
      | some _ => .done (.status 202)

/-- `startUpload` once no mount has answered. -/
def startSession (name : Str) : Handling Reply :=
  match one request digestKey with
  | none => .done .failed
  | some digest =>
    .call (.roomFor (if digest.isSome then request.contentLength else 0))
      fun (room : Bool) => orFail room <|
        match digest with
        | some digest => monolithic maxUpload request name digest
        | none => newSession name

/-- `mount`, and the session the request falls back to.  The source is asked for before
the digest is judged. -/
def mount (name digest : Str) : Handling Reply :=
  match one request fromKey with
  | none => .done .failed
  | some none =>
    if !parseDigest digest then .done .failed else startSession maxUpload request name
  | some (some source) =>
    if parseName withName source ≠ .ok source then .done .failed
    else allow .read source <|
      if !parseDigest digest then .done .failed
      else .call (.mountBlob name source digest) fun (answer : MountAnswer) => match answer with
        | .linked => .done (.status 201)
        | .unavailable => startSession maxUpload request name
        | .failed => .done .failed

def startUpload (name : Str) : Handling Reply :=
  allow .write name <| match one request mountKey with
    | none => .done .failed
    | some (some digest) => mount withName maxUpload request name digest
    | some none => startSession maxUpload request name

def uploadStatus (name id : Str) : Handling Reply :=
  allow .read name <|
    if !parseUploadID id then .done .failed
    else .call (.uploadSize name id) fun (known : Bool) => orFail known (.done (.status 204))

def appendChunk (name id : Str) (next : Handling Reply) : Handling Reply :=
  .call (.appendUpload name id) fun (appended : Bool) => orFail appended next

def patchUpload (name id : Str) : Handling Reply :=
  allow .write name <|
    if !parseUploadID id then .done .failed
    else match request.chunkOffset with
      | none => .done .failed
      | some _ => roomForBody maxUpload request <| appendChunk name id (.done (.status 202))

def commit (name id digest : Str) : Handling Reply :=
  .call (.commitUpload name id digest) fun (committed : Bool) =>
    orFail committed (.done (.status 201))

def finishUpload (name id : Str) : Handling Reply :=
  allow .write name <|
    if !parseUploadID id then .done .failed
    else match one request digestKey with
      | none | some none => .done .failed
      | some (some digest) =>
        if !parseDigest digest then .done .failed
        else match request.chunkOffset with
          | none => .done .failed
          | some offset =>
            if 0 ≤ offset ∨ request.contentLength ≠ 0 then
              roomForBody maxUpload request <| appendChunk name id (commit name id digest)
            else commit name id digest

def cancelUpload (name id : Str) : Handling Reply :=
  allow .delete name <|
    if !parseUploadID id then .done .failed
    else .call (.cancelUpload name id) fun (cancelled : Bool) =>
      orFail cancelled (.done (.status 204))

end Handlers

inductive Handler where
  | version
  | catalog
  | tags
  | getManifest
  | putManifest
  | deleteManifest
  | startUpload
  | uploadStatus
  | patchUpload
  | finishUpload
  | cancelUpload
  | getBlob
  | deleteBlob
  | referrers
  deriving DecidableEq

structure Route where
  template : List Piece
  methods : List Method
  handler : Handler

def anything : Piece := .placeholder (· ≠ '\n')

def segment : Piece := .placeholder (· ≠ '/')

def named (rest : List Piece) : List Piece := .literal root :: anything :: rest

def catalogPath : Str := root ++ ['_', 'c', 'a', 't', 'a', 'l', 'o', 'g']

def tagsList : Str := ['/', 't', 'a', 'g', 's', '/', 'l', 'i', 's', 't']

def manifestsWord : Str := '/' :: manifests ++ ['/']

def uploadsWord : Str := '/' :: blobsDir ++ '/' :: uploads

def blobsWord : Str := '/' :: blobsDir ++ ['/']

def referrersWord : Str := ['/', 'r', 'e', 'f', 'e', 'r', 'r', 'e', 'r', 's', '/']

def routes : List Route :=
  [⟨[.literal root], [.get, .head], .version⟩,
    ⟨[.literal ['/', 'v', '2']], [.get, .head], .version⟩,
    ⟨[.literal catalogPath], [.get], .catalog⟩,
    ⟨named [.literal tagsList], [.get], .tags⟩,
    ⟨named [.literal manifestsWord, segment], [.get, .head], .getManifest⟩,
    ⟨named [.literal manifestsWord, segment], [.put], .putManifest⟩,
    ⟨named [.literal manifestsWord, segment], [.delete], .deleteManifest⟩,
    ⟨named [.literal (uploadsWord ++ ['/'])], [.post], .startUpload⟩,
    ⟨named [.literal uploadsWord], [.post], .startUpload⟩,
    ⟨named [.literal (uploadsWord ++ ['/']), segment], [.get], .uploadStatus⟩,
    ⟨named [.literal (uploadsWord ++ ['/']), segment], [.patch], .patchUpload⟩,
    ⟨named [.literal (uploadsWord ++ ['/']), segment], [.put], .finishUpload⟩,
    ⟨named [.literal (uploadsWord ++ ['/']), segment], [.delete], .cancelUpload⟩,
    ⟨named [.literal blobsWord, segment], [.get, .head], .getBlob⟩,
    ⟨named [.literal blobsWord, segment], [.delete], .deleteBlob⟩,
    ⟨named [.literal referrersWord, segment], [.get], .referrers⟩]

/-- What a route makes of a request: its handler and the values of its variables. -/
def Route.take (route : Route) (method : Method) (path : Str) : Option (Handler × List Str) :=
  if method ∈ route.methods then (matchPieces route.template path).map (route.handler, ·) else none

/-- The router's choice.  A path that only other methods take is told from one that no
route takes. -/
def choose (method : Method) (path : Str) : Except ℕ (Handler × List Str) :=
  match routes.findSome? (·.take method path) with
  | some found => .ok found
  | none =>
    if routes.any fun route => (matchPieces route.template path).isSome then .error 405
    else .error 404

section Serve

variable (withName : WithName) (maxUpload : ℤ) (request : Request)

def runHandler : Handler → Str → Str → Handling Reply
  | .version, _, _ => version
  | .catalog, _, _ => catalog
  | .tags, name, _ => tags name
  | .getManifest, name, reference => getManifest request name reference
  | .putManifest, name, reference => putManifest request name reference
  | .deleteManifest, name, reference => deleteManifest name reference
  | .startUpload, name, _ => startUpload withName maxUpload request name
  | .uploadStatus, name, id => uploadStatus name id
  | .patchUpload, name, id => patchUpload maxUpload request name id
  | .finishUpload, name, id => finishUpload maxUpload request name id
  | .cancelUpload, name, id => cancelUpload name id
  | .getBlob, name, digest => getBlob request name digest
  | .deleteBlob, name, digest => deleteBlob name digest
  | .referrers, name, digest => referrers name digest

def runNamed (handler : Handler) (values : List Str) : Handling Reply :=
  match handler with
  | .version | .catalog => runHandler withName maxUpload request handler [] []
  | _ =>
    let name := values.headD []
    if parseName withName name ≠ .ok name then .done .failed
    else runHandler withName maxUpload request handler name (values.getD 1 [])

/-- `ServeHTTP`. -/
def serve : Handling Reply :=
  match unescape false request.sent with
  | none => .done (.status 400)
  | some path =>
    if escapedPath request.sent path ≠ path then .done (.status 400)
    else match choose request.method path with
      | .error code => .done (.status code)
      | .ok (handler, values) => runNamed withName maxUpload request handler values

end Serve

end K3sm.Registry.Api
