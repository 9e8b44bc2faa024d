import RootStore.Display

/-!
# What scripts answer

Every operation has an answer, and with it goes the state of the storage it was about.  Answers hold
answers in their turn, because a visitor's actions have answers and one of these actions is to run
operations.

* `Answer`, `Visit`, `Question`, `Step` — answers, calls of a visitor, calls of a judge, and the
  outcome of one operation.
* `Complaint` — why an operation was not done.
* `Gauge` — the state that goes with an answer.
-/

namespace RootStore.Script

/-- Why an operation was not done. -/
inductive Complaint where
  /-- It failed. -/
  | failure (why : Failure)
  /-- A pass that is alive forbids it. -/
  | forbidden
  /-- It is not offered here. -/
  | unsupported
  /-- A content was asked for and something else given. -/
  | badValue
  /-- A reference was asked for and null given. -/
  | nullReference
  /-- There is no such block. -/
  | noBlock
  /-- The entry is not in use. -/
  | freeEntry
  /-- There is no such operation. -/
  | unknownOperation
  /-- There is no such action. -/
  | unknownAction

/-- The state of a storage that goes with an answer. -/
structure Gauge where
  /-- All its counts. -/
  metrics : Metrics
  /-- Is a concurrent pass under way? -/
  iterating : Bool

/-- What is told about a storage. -/
structure StorageInfo where
  /-- Its settings. -/
  settings : Settings
  /-- Its text form. -/
  shown : String
  /-- Its counts. -/
  metrics : Metrics

/-- What is told about a pass. -/
structure PassInfo where
  /-- Its id. -/
  id : Nat
  /-- The pass. -/
  pass : Pass
  /-- The name of its storage. -/
  storage : String

/-- What is told about an entry of a stand-alone block. -/
structure SlotInfo where
  /-- What it holds. -/
  value : Option Reference
  /-- Its text form. -/
  shown : String
  /-- Does its address lead back to the block? -/
  contained : Bool
  /-- The index its address leads back to. -/
  index : Nat

/-- What is told about a stand-alone block. -/
structure BlockInfo where
  /-- The id of its owner. -/
  owner : Nat
  /-- Its mask as a word. -/
  mask : Nat
  /-- Is no entry in use? -/
  empty : Bool
  /-- Is every entry in use? -/
  full : Bool
  /-- Does it have a neighbour? -/
  linked : Bool

mutual

/-- The answer of an operation or an action. -/
inductive Answer where
  | complaint (why : Complaint)
  | done
  | number (n : Nat)
  | truth (b : Bool)
  | text (t : String)
  | value (v : Option Reference)
  | exchanged (outcome : Except (Option Reference) Reference)
  | many (answers : List Answer)
  | steps (steps : List Step)
  | storage (info : StorageInfo)
  | comparison (settings metrics fresh : Bool)
  | allocated (first : Nat) (places : List (Option Place))
  | handle (handle : Handle)
  | contents (rows : List (Nat × Place × Option Reference))
  | began (index id : Nat)
  | pass (info : PassInfo)
  | iterated (claimed : Nat) (visits : List Visit) (asked : Option (List Question))
      (panic : Option String)
  | constants
  | settings (settings : Settings) (equal : Bool)
  | reference (v : Option Reference) (equal : Bool)
  | entries (indices : List (Option SlotIndex))
  | slot (info : SlotInfo)
  | scanned (seen : List (SlotIndex × Option Reference)) (done : Bool)
  | block (info : BlockInfo)

/-- A call of a visitor: the entry, what it held, and the answers of the actions taken. -/
inductive Visit where
  | mk (place : Place) (value : Option Reference) (answers : List Answer)

/-- A call of a judge: the object and the answers of the operations run. -/
inductive Question where
  | mk (object : Reference) (answers : List Answer)

/-- The outcome of one operation. -/
inductive Step where
  | mk (answer : Answer) (gauge : Option Gauge)

end

/-- The outcome of one operation of the script itself, with what it left in the trace. -/
structure Report where
  /-- The outcome. -/
  step : Step
  /-- The rows of the trace. -/
  log : List Row

namespace Visit

/-- The entry of a call. -/
def place : Visit → Place
  | .mk place _ _ => place

end Visit

namespace Question

/-- The object of a call. -/
def object : Question → Reference
  | .mk object _ => object

end Question

namespace Answer

/-- The answer of an operation that fails. -/
def failed (why : Failure) : Answer := .complaint (.failure why)

end Answer

end RootStore.Script
