import Paycard.Store.Basic

/-! # Sessions

A session is a store that is used step by step. Snapshots taken on the way are kept, and no later step
changes them.
-/

namespace Paycard

/-- A store and the snapshots taken of it, oldest first. -/
structure Session where
  store : Store := {}
  snapshots : List (Option (List Scheme)) := []
  deriving Repr, DecidableEq

namespace Session

/-- One use of the store. -/
inductive Step where
  | isLoaded
  | get
  | replace (schemes : List Scheme)
  | detect (card : String)
  | assess (card : String)
  | accepts (card : String)
  | snapshot
  | readSnapshot (index : Nat)
  | load (settings : Fetch.Settings) (script : Script)
  | reload (settings : Fetch.Settings) (script : Script)

inductive Answer where
  | flag (value : Bool)
  | collection (value : Option (List Scheme))
  | scheme (value : Option Scheme)
  | assessment (value : Except InvalidCharacter Assessment)
  | verdict (value : Except InvalidCharacter Bool)
  | snapshotNumber (index : Nat)
  | fetched (value : Fetched)

def step (session : Session) : Step → Session × Answer
  | .isLoaded => (session, .flag session.store.isLoaded)
  | .get => (session, .collection session.store.stored)
  | .replace schemes =>
      ({ session with store := session.store.replace schemes }, .collection (some schemes))
  | .detect card => (session, .scheme (session.store.detect? card))
  | .assess card => (session, .assessment (session.store.assess card))
  | .accepts card => (session, .verdict (session.store.accepts card))
  | .snapshot =>
      ({ session with snapshots := session.snapshots ++ [session.store.stored] },
        .snapshotNumber session.snapshots.length)
  | .readSnapshot index => (session, .collection (session.snapshots[index]?.getD none))
  | .load settings script =>
      let (store, fetched) := session.store.load settings script
      ({ session with store }, .fetched fetched)
  | .reload settings script =>
      let (store, fetched) := session.store.reload settings script
      ({ session with store }, .fetched fetched)

/-- Does steps in order and collects the answers. -/
def run (session : Session) : List Step → Session × List Answer
  | [] => (session, [])
  | s :: steps =>
      let (session, answer) := session.step s
      let (session, answers) := session.run steps
      (session, answer :: answers)

end Session

end Paycard
