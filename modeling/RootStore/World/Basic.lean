import RootStore.Pass
import RootStore.Storage.Allocation
import RootStore.Storage.Deletion
import RootStore.Trace

/-!
# The world: storages, passes and handles together

Everything that operations act on: the storages and passes there are, the handles that have been
issued, the iterations under way and the trace so far.  Storages, passes and handles are numbered
from one in order of creation, over the whole life of the world.

* `World` — the state.
* `Handle`, `Issued` — the right to one entry, and what has become of it.
* `Call` — an iteration under way.
* `Failure`, `Panic` — how an operation fails.
-/

namespace RootStore

/-- The right to one entry of one storage. -/
structure Handle where
  /-- The id of the storage that issued it. -/
  owner : Nat
  /-- The entry. -/
  place : Place
  deriving DecidableEq

/-- What has become of a handle. -/
inductive Tenure where
  /-- It has not been given back. -/
  | held
  /-- It was given back to the storage that issued it, and its entry is free. -/
  | released
  /-- It was given back to another storage, and its entry stays in use. -/
  | lost
  deriving DecidableEq

/-- A handle that was issued, and what has become of it. -/
structure Issued where
  /-- The handle. -/
  handle : Handle
  /-- What has become of it. -/
  tenure : Tenure := .held
  deriving DecidableEq

/-- What an iteration waits for. -/
inductive Stage where
  /-- Nothing: it can go on. -/
  | ready
  /-- The verdict on the object of an entry. -/
  | asking (entry : Entry) (object : Reference)
  /-- The visitor, which has been handed an entry. -/
  | visiting (entry : Entry)
  deriving DecidableEq

/-- An iteration under way. -/
structure Call where
  /-- The id of the pass. -/
  pass : Nat
  /-- Which entries it hands out. -/
  method : Method
  /-- The block being scanned and what is left of its snapshot. -/
  scanning : Option Pass.Claim := none
  /-- What it waits for. -/
  stage : Stage := .ready

/-- The misuses that an operation answers by a panic. -/
inductive Panic where
  /-- A handle was used on a storage that did not issue it. -/
  | foreignHandle (handle : Handle) (storage : Nat) (name : String)
  /-- A concurrent pass was begun while one was under way. -/
  | iterationActive (name : String)
  deriving DecidableEq

/-- Why an operation did not take place. -/
inductive Failure where
  /-- There is no such storage. -/
  | noStorage
  /-- There is no such pass. -/
  | noPass
  /-- There is no such handle, or it has been given back. -/
  | noHandle
  /-- The operation panicked. -/
  | panic (cause : Panic)
  /-- An invariant was found broken. -/
  | fault (cause : Fault)
  deriving DecidableEq

/-- Storages, passes, handles, iterations under way and the trace. -/
structure World where
  /-- The storages under their ids. -/
  storages : Registry Storage := .empty
  /-- The passes that are alive, under their ids. -/
  passes : Registry Pass := .empty
  /-- Every handle ever issued, under its number. -/
  handles : Registry Issued := .empty
  /-- The iterations under way, innermost first. -/
  calls : List Call := []
  /-- The trace so far. -/
  log : Array Row := #[]

/-- A fault is one way to fail. -/
def Failure.ofFault {α : Type} : Except Fault α → Except Failure α
  | .ok a => .ok a
  | .error f => .error (.fault f)

namespace World

/-- The storage with an id. -/
def storage (w : World) (id : Nat) : Except Failure Storage :=
  match w.storages.get? id with
  | some s => .ok s
  | none => .error .noStorage

/-- The live pass with an id. -/
def pass (w : World) (id : Nat) : Except Failure Pass :=
  match w.passes.get? id with
  | some p => .ok p
  | none => .error .noPass

/-- The handle with a number, if it is still held. -/
def handle (w : World) (number : Nat) : Except Failure Handle :=
  match w.handles.get? number with
  | some { handle, tenure := .held } => .ok handle
  | _ => .error .noHandle

/-- Replaces the storage with an id. -/
def setStorage (w : World) (id : Nat) (s : Storage) : World :=
  { w with storages := w.storages.set id s }

/-- Replaces the pass with an id. -/
def setPass (w : World) (id : Nat) (p : Pass) : World :=
  { w with passes := w.passes.set id p }

/-- Adds rows to the trace. -/
def record (w : World) (rows : List Row) : World :=
  { w with log := w.log ++ rows }

/-! ## What is alive -/

/-- Is some pass over the storage alive? -/
def hasPass (w : World) (storage : Nat) : Bool :=
  w.passes.any fun p => p.storage = storage

/-- Is some pass over the storage alive that has the mutators stopped? -/
def hasSafepointPass (w : World) (storage : Nat) : Bool :=
  w.passes.any fun p => p.storage = storage && !p.concurrent

/-- Is an iteration of the pass under way? -/
def isRunning (w : World) (pass : Nat) : Bool :=
  w.calls.any fun c => c.pass = pass

end World

end RootStore
