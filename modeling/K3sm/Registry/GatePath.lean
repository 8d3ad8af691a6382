import K3sm.Core.Url
import K3sm.Registry.Names

/-!
# How the push gate reads a request

The gate decides from the method, the path and the query as they were sent.  A read is
passed on as it came, the few shapes of a push are parsed strictly, and the rest is
refused.  A write is forwarded with the path that was parsed and the query written anew
from what was read in it.
-/

namespace K3sm.Registry.Gate

open K3sm.Core K3sm.Core.Filepath K3sm.Core.Url K3sm.Registry.Ref

inductive Method where
  | get
  | head
  | post
  | patch
  | put
  | delete
  | other (name : Str)
  deriving DecidableEq

inductive GateOp where
  | invalid
  | refused
  | read
  | uploadStart
  | uploadChunk
  | uploadFinish
  | uploadStatus
  | manifestPut
  deriving DecidableEq

def GateOp.isWrite : GateOp → Bool
  | .invalid | .refused | .read => false
  | _ => true

structure GateRoute where
  op : GateOp
  repo : Str := []
  /-- The repository a mount reads, empty without one. -/
  source : Str := []
  path : Str := []
  query : Str := []
  deriving DecidableEq

def root : Str := ['/', 'v', '2', '/']

def uploads : Str := ['u', 'p', 'l', 'o', 'a', 'd', 's']

def manifests : Str := ['m', 'a', 'n', 'i', 'f', 'e', 's', 't', 's']

def digestKey : Str := ['d', 'i', 'g', 'e', 's', 't']

def mountKey : Str := ['m', 'o', 'u', 'n', 't']

def fromKey : Str := ['f', 'r', 'o', 'm']

def originKey : Str := ['o', 'r', 'i', 'g', 'i', 'n']

def stateKey : Str := ['_', 's', 't', 'a', 't', 'e']

def cutFront (front text : Str) : Option Str :=
  if front.isPrefixOf text then some (text.drop front.length) else none

/-- The loop of `onUploadPath` over the segments. -/
def passesUploads : Str → List Str → Bool
  | _, [] => false
  | before, segment :: rest =>
    if segment = [] ∨ segment = dot then passesUploads before rest
    else if before = blobsDir ∧ segment = uploads then true
    else passesUploads segment rest

/-- Backslashes as slashes and letters in lower case.  No byte above ASCII belongs to a
letter whose lower case is a letter of blobs or uploads, so these are left alone. -/
def fold (path : Str) : Str := path.map fun char => if char = '\\' then '/' else char.toLower

def readsUploads (path : Str) : Bool :=
  passesUploads [] (splitSlash (fold path)) ||
    passesUploads [] (splitSlash (clean ('/' :: fold path)))

def onUploadPath (rawPath : Str) : Bool :=
  match unescape false rawPath with
  | none => true
  | some decoded => readsUploads rawPath || readsUploads decoded

def cleanByte (char : Char) : Bool :=
  decide (0x20 < char.toNat ∧ char.toNat < 0x7f ∧ char ≠ '%' ∧ char ≠ '\\')

def cleanPath (path : Str) : Bool :=
  let segments := splitSlash (if path.head? = some '/' then path.drop 1 else path)
  path.all cleanByte && segments.all (fun segment => segment ≠ dot && segment ≠ dotDot) &&
    segments.dropLast.all (· ≠ [])

def maxUploadIDLen : ℕ := 128

def validUploadID (id : Str) : Bool :=
  decide (id ≠ [] ∧ id.length ≤ maxUploadIDLen) &&
    id.all fun char => isAlphanumeric char || char == '-' || char == '_'

def maxStateLen : ℕ := 4096

def validState (state : Str) : Bool :=
  decide (state ≠ [] ∧ state.length ≤ maxStateLen) &&
    state.all fun char => char.isAlphanum || char == '+' || char == '/' || char == '=' ||
      char == '_' || char == '-' || char == '.'

section Grammar

variable (withName : WithName)

def isName (text : Str) : Bool := parseName withName text = .ok text

def allowedKeys : GateOp → List Str
  | .uploadStart => [digestKey, mountKey, fromKey, originKey]
  | .uploadChunk | .uploadFinish => [digestKey, stateKey]
  | .uploadStatus => [stateKey]
  | _ => []

def validValue (key value : Str) : Bool :=
  if key = digestKey ∨ key = mountKey then parseDigest value
  else if key = fromKey then isName withName value
  else if key = stateKey then validState value
  else key = originKey

/-- One part of the query, added to those read before it. -/
def readPart (op : GateOp) (pairs : Pairs) (part : Str) : Option Pairs :=
  let (key, value) := cut '=' part
  if value.isNone ∨ key = [] then none
  else if !(allowedKeys op).contains key ∨ (pairs.lookup key).isSome then none
  else match value.bind (unescape true) with
    | none => none
    | some value => if validValue withName key value then some (pairs ++ [(key, value)]) else none

/-- What `parseWriteQuery` makes of the pairs it read. -/
def settleQuery (pairs : Pairs) : Option (Str × Str) :=
  let has := fun key => (pairs.lookup key).isSome
  if has mountKey ≠ has fromKey ∨ (has mountKey ∧ has digestKey) then none
  else if has originKey ∧ ¬ has mountKey then none
  else
    let kept := pairs.filter (·.1 ≠ originKey)
    some (encode kept, (kept.lookup fromKey).getD [])

def readQuery (op : GateOp) (rawQuery : Str) : Option Pairs :=
  if rawQuery = [] then some [] else (rawQuery.splitOn '&').foldlM (readPart withName op) []

def parseWriteQuery (op : GateOp) (rawQuery : Str) : Option (Str × Str) :=
  (readQuery withName op rawQuery).bind settleQuery

/-- What an operation's shape makes of the segments after the root, read from the last
one: the segments of the name. -/
def writeShape (op : GateOp) (reversed : List Str) : Except GateOp (List Str) :=
  match op, reversed with
  | .uploadStart, last :: second :: third :: first :: rest =>
    if last ≠ [] ∨ second ≠ uploads ∨ third ≠ blobsDir then .error .refused
    else .ok (first :: rest).reverse
  | .uploadChunk, last :: second :: third :: first :: rest
  | .uploadFinish, last :: second :: third :: first :: rest
  | .uploadStatus, last :: second :: third :: first :: rest =>
    if second ≠ uploads ∨ third ≠ blobsDir then .error .refused
    else if !validUploadID last then .error .invalid
    else .ok (first :: rest).reverse
  | .manifestPut, last :: second :: first :: rest =>
    if second ≠ manifests then .error .refused
    else if (parseReference last).isNone then .error .invalid
    else .ok (first :: rest).reverse
  | _, _ => .error .refused

def classifyWrite (op : GateOp) (rawPath rawQuery : Str) : GateRoute :=
  match cutFront root rawPath with
  | none => { op := .refused }
  | some rest =>
    if !cleanPath rawPath then { op := .invalid }
    else match writeShape op (splitSlash rest).reverse with
      | .error refusal => { op := refusal }
      | .ok name =>
        if !isName withName (joinSlash name) then { op := .invalid }
        else match parseWriteQuery withName op rawQuery with
          | none => { op := .invalid }
          | some (query, source) => { op, repo := joinSlash name, source, path := rawPath, query }

def classify (method : Method) (rawPath rawQuery : Str) : GateRoute :=
  match method with
  | .get | .head =>
    if !onUploadPath rawPath then { op := .read }
    else
      let route := classifyWrite withName .uploadStatus rawPath rawQuery
      if route.op ≠ .refused then route else { op := .invalid }
  | .post => classifyWrite withName .uploadStart rawPath rawQuery
  | .patch => classifyWrite withName .uploadChunk rawPath rawQuery
  | .put =>
    let route := classifyWrite withName .uploadFinish rawPath rawQuery
    if route.op ≠ .refused then route else classifyWrite withName .manifestPut rawPath rawQuery
  | .delete | .other _ => { op := .refused }

end Grammar

end K3sm.Registry.Gate
