/-!
# The trace

What happens to passes and blocks is recorded as it happens, a row at a time.  A pass has a span:
it is created when the pass begins, entered and left around every iteration, and closed when the
pass ends.

* `Row` — one record.
* `Row.Event`, `Row.event?` — the rows that are events, as message, level and fields.
-/

namespace RootStore

/-- One record of the trace. -/
inductive Row where
  /-- A pass begins, and its span with it. -/
  | passBegan (pass : Nat) (storage : String) (concurrent : Bool)
  /-- An iteration of a pass begins. -/
  | entered (pass : Nat)
  /-- An iteration of a pass ends, by returning or by a panic. -/
  | left (pass : Nat)
  /-- The span of a pass is closed. -/
  | closed (pass : Nat)
  /-- A pass is pinned to the head of its storage's list. -/
  | iterationStarted (pass : Nat) (head : Option Nat)
  /-- A pass ends. -/
  | passEnded (pass claimed : Nat)
  /-- A block is linked, which makes so many. -/
  | blockLinked (storage : String) (blockCount : Nat)
  /-- A deletion has deleted so many blocks. -/
  | blocksDeleted (storage : String) (deleted : Nat)
  /-- A deletion gives way to a concurrent pass. -/
  | deletionInhibited (storage : String)
  deriving DecidableEq

namespace Row

/-- The value of a field. -/
inductive Value where
  | number (n : Nat)
  | flag (b : Bool)
  | text (t : String)
  deriving DecidableEq

/-- How much an event matters. -/
inductive Level where
  | debug
  | trace
  deriving DecidableEq

/-- The level's name. -/
def Level.name : Level → String
  | .debug => "DEBUG"
  | .trace => "TRACE"

/-- An event or the creation of a span, as it is published. -/
structure Event where
  /-- What happens. -/
  message : String
  /-- How much it matters. -/
  level : Level
  /-- The circumstances. -/
  fields : List (String × Value)

/-- The span of a pass as it is created. -/
def span (pass : Nat) (storage : String) (concurrent : Bool) : Event where
  message := "par_state"
  level := .debug
  fields := [("storage", .text storage), ("concurrent", .flag concurrent),
    ("pass_id", .number pass)]

/-- The event a row publishes, if it is not about a span.  A list without a head shows as zero. -/
def event? : Row → Option Event
  | .iterationStarted pass head => some
      ⟨"iteration_started", .debug, [("pass_id", .number pass), ("head", .number (head.getD 0))]⟩
  | .passEnded pass claimed => some
      ⟨"pass_end", .debug, [("pass_id", .number pass), ("blocks_claimed", .number claimed)]⟩
  | .blockLinked storage blockCount => some
      ⟨"block_allocated", .trace, [("storage", .text storage), ("block_count", .number blockCount)]⟩
  | .blocksDeleted storage deleted => some
      ⟨"empty_blocks_deleted", .debug, [("storage", .text storage), ("deleted", .number deleted)]⟩
  | .deletionInhibited storage => some
      ⟨"empty_block_deletion_inhibited", .debug, [("storage", .text storage)]⟩
  | .passBegan .. | .entered _ | .left _ | .closed _ => none

end Row

end RootStore
