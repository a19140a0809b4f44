import Paycard.Service.Handler
import Paycard.Store.Concurrent

/-! # Operations that run side by side

The calls that the server and other users make on one store at the same time, each as a program of single
steps.
-/

namespace Paycard.Service

open Store (Program)

/-- The program that answers a request. -/
def program (settings : Fetch.Settings) : Request → Program Response
  | .health => do
      let stored ← Program.get
      return .ok (healthJson (stored.getD []))
  | .detect contentType body =>
      match bodyMember "card_number" contentType body with
      | .ok card => do
          let stored ← Program.get
          return .ok (Verdict.ofCard (stored.getD []) card).toJson
      | .error cause => return .rejected cause
  | .parse contentType body =>
      match bodyMember "rules" contentType body with
      | .ok text => return .ok (RuleText.parse text).toJson
      | .error cause => return .rejected cause
  | .reload replies => do
      let fetched ← Program.reload settings replies
      let result := fetched.result.map fun schemes => Json.object [("schemes", count schemes)]
      return .reloaded result fetched.requests

/-- What a call on a shared store can be. -/
inductive Operation where
  | get
  | isLoaded
  | detect (card : String)
  | assess (card : String)
  | accepts (card : String)
  | replace (schemes : List Scheme)
  | load (settings : Fetch.Settings) (script : Script)
  | reload (settings : Fetch.Settings) (script : Script)
  | serve (settings : Fetch.Settings) (request : Request)

inductive Answer where
  | collection (value : Option (List Scheme))
  | flag (value : Bool)
  | scheme (value : Option Scheme)
  | assessment (value : Except InvalidCharacter Assessment)
  | verdict (value : Except InvalidCharacter Bool)
  | fetched (value : Fetched)
  | response (value : Response)

namespace Operation

/-- An operation as a call. -/
def program : Operation → Program Answer
  | .get => .collection <$> Program.get
  | .isLoaded => .flag <$> Program.isLoaded
  | .detect card => .scheme <$> Program.detect? card
  | .assess card => .assessment <$> Program.assess card
  | .accepts card => .verdict <$> Program.accepts card
  | .replace schemes => (.collection ∘ some) <$> Program.replace schemes
  | .load settings script => .fetched <$> Program.load settings script
  | .reload settings script => .fetched <$> Program.reload settings script
  | .serve settings request => .response <$> Service.program settings request

/-- An operation done at once. -/
def perform (store : Store) : Operation → Store × Answer
  | .get => (store, .collection store.stored)
  | .isLoaded => (store, .flag store.isLoaded)
  | .detect card => (store, .scheme (store.detect? card))
  | .assess card => (store, .assessment (store.assess card))
  | .accepts card => (store, .verdict (store.accepts card))
  | .replace schemes => (store.replace schemes, .collection (some schemes))
  | .load settings script => (store.load settings script).map id .fetched
  | .reload settings script => (store.reload settings script).map id .fetched
  | .serve settings request => (handle settings store request).map id .response

end Operation

end Paycard.Service
