/-!
# Settings and counters of a storage

What a storage is made with, and what it counts.

* `Settings` — its name, which appears in the trace, and the most blocks it may hold at a time.
* `Counters` — four counts that never go down.
* `Metrics` — the counters together with the two gauges, at one moment.
-/

namespace RootStore

/-- What a storage is made with. -/
structure Settings where
  /-- The name used in traces and messages. -/
  name : String := "oop-storage"
  /-- The most blocks that may be linked at a time, if there is a limit. -/
  maxBlocks : Option Nat := none
  deriving DecidableEq

/-- The settings with a name, or the default name where none is given, and a limit, if any. -/
def Settings.ofName (name : Option String) (maxBlocks : Option Nat) : Settings :=
  { name := name.getD ({} : Settings).name, maxBlocks }

/-- Counts over the whole life of a storage. -/
structure Counters where
  /-- Blocks ever linked. -/
  blocksAllocated : Nat := 0
  /-- Empty blocks ever deleted. -/
  blocksDeleted : Nat := 0
  /-- Deletions that gave way to a concurrent pass. -/
  deletionsInhibited : Nat := 0
  /-- Passes ever begun, of both kinds. -/
  passesStarted : Nat := 0
  deriving DecidableEq

/-- What a storage counts, at one moment. -/
structure Metrics extends Counters where
  /-- Entries in use. -/
  allocationCount : Nat := 0
  /-- Blocks linked. -/
  blockCount : Nat := 0
  deriving DecidableEq

end RootStore
