import Paycard.Store.Basic

/-! # Calls that share a store

A store is used by many calls at once. Each call is a program that reads what is stored, stores a
collection or waits for a reply, one step at a time; the rest it computes from what it has seen. A
schedule says which call does its next step. What a call sees is what the store held at its own steps,
whatever other calls do in between.
-/

namespace Paycard.Store

/-- What a call does with the store up to its answer. Waiting leaves the store alone. -/
inductive Program (α : Type) where
  | answer (value : α)
  | read (next : Option (List Scheme) → Program α)
  | write (schemes : List Scheme) (next : Program α)
  | wait (next : Program α)

namespace Program

variable {α β : Type}

/-- A program that goes on with the answer of another. -/
def bind : Program α → (α → Program β) → Program β
  | .answer value, next => next value
  | .read rest, next => .read fun stored => (rest stored).bind next
  | .write schemes rest, next => .write schemes (rest.bind next)
  | .wait rest, next => .wait (rest.bind next)

instance : Monad Program where
  pure := .answer
  bind := bind

/-- What a program does when no other call is under way. -/
def alone (store : Store) : Program α → Store × α
  | .answer value => (store, value)
  | .read next => (next store.stored).alone store
  | .write schemes next => next.alone (store.replace schemes)
  | .wait next => next.alone store

def get : Program (Option (List Scheme)) := .read .answer

/-- Looks whether a collection is stored. -/
def isLoaded : Program Bool := .read fun stored => .answer stored.isSome

def replace (schemes : List Scheme) : Program (List Scheme) := .write schemes (.answer schemes)

def detect? (card : String) : Program (Option Scheme) := do
  let stored ← get
  return stored.bind (Paycard.detect? · card)

def assess (card : String) : Program (Except InvalidCharacter Assessment) := do
  let stored ← get
  return Paycard.assess (stored.getD []) card

def accepts (card : String) : Program (Except InvalidCharacter Bool) := do
  let stored ← get
  return (·.isAcceptable (stored.any (!·.isEmpty))) <$> Paycard.assess (stored.getD []) card

/-- Makes the attempt after `made` earlier ones, and up to `more` further ones. Each waits for its
    reply. -/
def attempt (script : Script) (made : Nat) : Nat → Program Fetched
  | 0 => .wait (.answer ⟨(script made).schemes, made + 1⟩)
  | more + 1 => .wait <|
      match (script made).schemes with
      | .ok schemes => .answer ⟨.ok schemes, made + 1⟩
      | .error _ => attempt script (made + 1) more

/-- Fetches a collection and stores it when all of it is there. -/
def reload (settings : Fetch.Settings) (script : Script) : Program Fetched := do
  let fetched ← attempt script 0 (settings.attempts - 1)
  match fetched.result with
  | .ok schemes =>
      let _ ← replace schemes
      return fetched
  | .error _ => return fetched

/-- The stored collection if it is not empty, otherwise a reload. -/
def load (settings : Fetch.Settings) (script : Script) : Program Fetched := do
  let stored ← get
  match stored.filter (!·.isEmpty) with
  | some schemes => return ⟨.ok schemes, 0⟩
  | none => reload settings script

end Program

/-- A call that is due, under way or over. -/
inductive Call (α : Type) where
  | due (program : Program α)
  | running (rest : Program α)
  | ended (answer : α)

/-- The store and the call after the call's next step. A call that is over stays as it is. -/
def Call.step {α : Type} (store : Store) : Call α → Store × Call α
  | .due program => (store, .running program)
  | .running (.answer value) => (store, .ended value)
  | .running (.read next) => (store, .running (next store.stored))
  | .running (.write schemes next) => (store.replace schemes, .running next)
  | .running (.wait next) => (store, .running next)
  | .ended value => (store, .ended value)

/-- A store and the calls that use it. -/
structure Shared (α : Type) where
  store : Store := {}
  calls : List (Call α)

namespace Shared

variable {α : Type}

/-- A fresh store and calls that have not begun. -/
def ofPrograms (programs : List (Program α)) : Shared α where
  calls := programs.map .due

/-- One call does its next step. -/
def step (shared : Shared α) (index : Nat) : Shared α :=
  match shared.calls[index]? with
  | none => shared
  | some call =>
      let (store, call) := call.step shared.store
      ⟨store, shared.calls.set index call⟩

/-- The calls do steps in the order of a schedule. -/
def run (shared : Shared α) (schedule : List Nat) : Shared α := schedule.foldl step shared

end Shared

end Paycard.Store
