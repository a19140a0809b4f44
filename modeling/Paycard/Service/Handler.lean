import Paycard.Json.Bytes
import Paycard.Json.Reading
import Paycard.Rule.Wire
import Paycard.Service.MediaType
import Paycard.Service.Settings
import Paycard.Store.Basic

/-! # Serving requests

The server answers from one store. A detection looks at one snapshot of it; a reload replaces its
collection or keeps the last good one. Only requests with a body can be rejected.
-/

namespace Paycard.Service

open Json (Tree)

/-- The bytes that were sent with a request. -/
structure Body where
  bytes : ByteArray

instance : Coe String Body := ⟨fun text => ⟨text.toUTF8⟩⟩

/-- A request to the server. A body is given with the content type that was sent with it. -/
inductive Request where
  | health
  | detect (contentType : Option String) (body : Body)
  | parse (contentType : Option String) (body : Body)
  | reload (replies : Script)

/-- Why a body is not looked at any further. -/
inductive Rejection where
  | notJsonType
  | tooLarge
  | notJson
  | wrongShape
  deriving Repr, DecidableEq

def Rejection.status : Rejection → Nat
  | .notJsonType => 415
  | .tooLarge => 413
  | .notJson => 400
  | .wrongShape => 422

/-- The number of bytes that a body may have. -/
def maxBodySize : Nat := 2097152

/-- Reads one member of a body that has a single known member. -/
def readPart (name : String) (draft : Option String) (key : String) (value : Tree) :
    Json.Reading Empty (Option String) :=
  if key = name then Tree.readOnce draft Tree.readString value
  else (fun _ => draft) <$> value.skip

/-- Reads a body that is an object with this string member, or an array of that one string. -/
def memberOfTree (name : String) : Tree → Json.Reading Empty String
  | .object members closed => do Json.required (← Tree.readObject (readPart name) none members closed)
  | .array items closed => do
      let (text, items) ← Tree.readItem Tree.readString closed items
      Tree.noItems closed items
      return text
  | tree => .error tree.misfit

/-- The string member of a body. The content type is looked at before the size, and the size before the
    content. What comes after the value in the body does not count. -/
def bodyMember (name : String) (contentType : Option String) (body : Body) :
    Except Rejection String :=
  if !saysJson contentType then .error .notJsonType
  else if maxBodySize < body.bytes.size then .error .tooLarge
  else
    match memberOfTree name (Tree.ofBytes body.bytes) with
    | .ok text => .ok text
    | .error .notJson => .error .notJson
    | .error .wrongShape => .error .wrongShape

/-- What the server says about a card number. -/
structure Verdict where
  checksumValid : Bool
  scheme : Option Scheme
  acceptable : Bool
  rulesLoaded : Bool
  error : Option String
  deriving Repr, DecidableEq

/-- Checks a card number against one collection of schemes. -/
def Verdict.ofCard (schemes : List Scheme) (card : String) : Verdict :=
  let rulesLoaded := !schemes.isEmpty
  match assess schemes card with
  | .ok assessment =>
      { checksumValid := assessment.checksumValid
        scheme := assessment.scheme
        acceptable := assessment.isAcceptable rulesLoaded
        rulesLoaded
        error := none }
  | .error e =>
      { checksumValid := false, scheme := none, acceptable := false, rulesLoaded,
        error := some e.message }

/-- A scheme without its rules. -/
def summary (scheme : Scheme) : Json :=
  .object [("id", .string scheme.id), ("name", .string scheme.name), ("icon", .string scheme.icon)]

/-- A verdict as a value. A scheme or an error that is not there is left out. -/
def Verdict.toJson (verdict : Verdict) : Json :=
  let scheme := (verdict.scheme.map fun s => ("scheme", summary s)).toList
  let error := (verdict.error.map fun text => ("error", Json.string text)).toList
  .object ([("checksum_valid", .bool verdict.checksumValid)] ++ scheme ++
    [("acceptable", .bool verdict.acceptable), ("rules_loaded", .bool verdict.rulesLoaded)] ++ error)

def count (schemes : List Scheme) : Json := .natural (UInt64.ofNat schemes.length)

/-- The state of the server as a value. -/
def healthJson (schemes : List Scheme) : Json :=
  .object [("status", .string "ok"), ("version", .string "0.1.0"), ("schemes", count schemes)]

/-- What the server answers. A reload also has the number of dictionary requests that it made. -/
inductive Response where
  | ok (body : Json)
  | rejected (cause : Rejection)
  | reloaded (result : Except FetchError Json) (requests : Nat)

def Response.status : Response → Nat
  | .ok _ => 200
  | .rejected cause => cause.status
  | .reloaded (.ok _) _ => 200
  | .reloaded (.error _) _ => 502

/-- Answers a request from the store, and returns the store as it is then. -/
def handle (settings : Fetch.Settings) (store : Store) : Request → Store × Response
  | .health => (store, .ok (healthJson store.schemes))
  | .detect contentType body =>
      match bodyMember "card_number" contentType body with
      | .ok card => (store, .ok (Verdict.ofCard store.schemes card).toJson)
      | .error cause => (store, .rejected cause)
  | .parse contentType body =>
      match bodyMember "rules" contentType body with
      | .ok text => (store, .ok (RuleText.parse text).toJson)
      | .error cause => (store, .rejected cause)
  | .reload replies =>
      let (store, fetched) := store.reload settings replies
      let result := fetched.result.map fun schemes => Json.object [("schemes", count schemes)]
      (store, .reloaded result fetched.requests)

/-- Answers requests one after another. -/
def handleAll (settings : Fetch.Settings) (store : Store) : List Request → Store × List Response
  | [] => (store, [])
  | request :: requests =>
      let (store, response) := handle settings store request
      let (store, responses) := handleAll settings store requests
      (store, response :: responses)

end Paycard.Service
