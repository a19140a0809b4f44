import Paycard.Dictionary
import Paycard.Fetch.Settings

/-! # Fetching a dictionary

A fetch asks for the dictionary until one attempt succeeds or no attempt is left, and then reports the
last failure. What the attempts meet is given as a script of replies.
-/

namespace Paycard

/-- What a request is met with: an answer, whose body may have been cut short, or none at all. An answer with
    a good status whose body does not come in time counts as none at all, and is written `.lost true`. -/
inductive Reply where
  | answer (status : Nat) (body : String) (isWhole : Bool)
  | lost (timedOut : Bool)
  deriving Repr, DecidableEq

/-- Why an attempt failed. -/
inductive FetchError where
  | request (timedOut : Bool)
  | status (code : Nat)
  | malformed
  deriving Repr, DecidableEq

/-- The report on a failed attempt. The transport's own words about a failed request, which the program adds
    behind a colon, are left out. -/
def FetchError.message : FetchError → String
  | .request _ => "HTTP request failed"
  | .status code => "Server Error: " ++ Nat.repr code
  | .malformed => MalformedResponse.message {}

namespace Reply

/-- What reaches a client when a server sends this status and body. An informational status, unless it
    switches the protocol, is passed over and leaves the request without an answer; status 204 comes
    without a body. -/
def ofSent (status : Nat) (body : String) (isWhole : Bool) : Reply :=
  if 100 ≤ status ∧ status < 200 ∧ status ≠ 101 then .lost false
  else if status = 204 then .answer status "" true
  else .answer status body isWhole

def isSuccess (status : Nat) : Bool := 200 ≤ status && status < 300

/-- The schemes of the dictionary in a reply. The status is judged before the body, and a body that
    is not JSON counts as a failed request. -/
def schemes : Reply → Except FetchError (List Scheme)
  | .lost timedOut => .error (.request timedOut)
  | .answer status body isWhole =>
      if !isSuccess status then .error (.status status)
      else if !isWhole then .error (.request false)
      else
        match Json.ofText? body with
        | none => .error (.request false)
        | some value =>
            match Dictionary.ofJson value with
            | .ok schemes => .ok schemes
            | .error _ => .error .malformed

end Reply

/-- The reply to each attempt, counted from zero. -/
abbrev Script := Nat → Reply

/-- Replies in order; the last one is repeated. Without any, no request is answered. -/
def Script.ofList (replies : List Reply) : Script :=
  fun n => replies.getD n (replies.getLast?.getD (.lost false))

/-- The outcome of a fetch and the number of requests it took. -/
structure Fetched where
  result : Except FetchError (List Scheme)
  requests : Nat

/-- Makes the attempt after `made` earlier ones, and up to `more` further ones if it fails. -/
def Script.attempt (script : Script) (made : Nat) : Nat → Fetched
  | 0 => ⟨(script made).schemes, made + 1⟩
  | more + 1 =>
      match (script made).schemes with
      | .ok schemes => ⟨.ok schemes, made + 1⟩
      | .error _ => script.attempt (made + 1) more

def Script.fetch (script : Script) (settings : Fetch.Settings) : Fetched :=
  script.attempt 0 (settings.attempts - 1)

/-- The first line of a request. Each request carries an identifier of its own as a query parameter,
    after the parameters that the address has already. A fragment is not sent. -/
def requestLine (path id : String) : String :=
  let sent := path.toList.takeWhile (· != '#')
  let sent := if sent.head? = some '/' then sent else '/' :: sent
  let mark :=
    match sent.dropWhile (· != '?') with
    | [] => "?"
    | [_] => ""
    | _ => "&"
  "GET " ++ String.ofList sent ++ mark ++ "request_id=" ++ id ++ " HTTP/1.1"

end Paycard
