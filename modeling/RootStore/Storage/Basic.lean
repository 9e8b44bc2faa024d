import RootStore.Block
import RootStore.Registry
import RootStore.Storage.Settings

/-!
# Storages

A storage is a doubly linked list of blocks, newest first, together with the queue of the blocks
that still have a free entry.  Blocks are numbered in the order in which they are linked, and a
block that is deleted is removed from the registry: whoever still follows its number finds nothing,
which is the fault `Fault.missingBlock`.

* `Storage` — the list, the queue, the gauges and the counters.
* `Place`, `Entry` — where a slot is, and a slot as a pass hands it out.
* `Fault` — what must never happen: the ways in which a broken invariant would show.
* `Storage.block` — following a number to its block.
-/

namespace RootStore

/-- A slot of a storage: the number of its block and its index there. -/
structure Place where
  /-- The number of the block. -/
  block : Nat
  /-- The index in the block. -/
  slot : SlotIndex
  deriving DecidableEq

/-- May a pass write the entries it visits? -/
inductive Access where
  /-- Entries are only read. -/
  | readOnly
  /-- Entries may be written. -/
  | writable
  deriving DecidableEq

/-- One entry as a pass hands it out. -/
structure Entry where
  /-- The id of the storage. -/
  storage : Nat
  /-- The slot. -/
  place : Place
  /-- What may be done with it. -/
  access : Access
  deriving DecidableEq

/-- A situation that the invariants rule out. -/
inductive Fault where
  /-- A number was followed to a block that is no longer there. -/
  | missingBlock (number : Nat)
  /-- The queue of blocks with a free entry held a full block. -/
  | fullBlock (number : Nat)
  /-- A block turned out to belong to another storage. -/
  | foreignBlock (number : Nat)
  /-- A walk along the list did not come to an end. -/
  | endlessWalk
  /-- A pass claimed a block before it had started. -/
  | notStarted
  /-- A concurrent pass ended while its storage had no concurrent pass. -/
  | flagNotSet
  /-- A pass was left without the storage it walks. -/
  | missingStorage
  /-- A step of an iteration was asked for and none was due. -/
  | noCall
  deriving DecidableEq

/-- A segmented store of root slots. -/
structure Storage where
  /-- The storage's id. -/
  id : Nat
  /-- Its name and limit. -/
  settings : Settings
  /-- The blocks, under their numbers. -/
  blocks : Registry Block := .empty
  /-- The newest block, where the list begins. -/
  head : Option Nat := none
  /-- The blocks with a free entry, in the order in which they came to have one. -/
  available : List Nat := []
  /-- Is a concurrent pass under way? -/
  iterating : Bool := false
  /-- Entries in use. -/
  allocationCount : Nat := 0
  /-- Blocks linked. -/
  blockCount : Nat := 0
  /-- The counts that never go down. -/
  counters : Counters := {}

namespace Storage

/-- A storage without blocks. -/
def make (id : Nat) (settings : Settings) : Storage := { id, settings }

/-- The name in traces and messages. -/
def name (s : Storage) : String := s.settings.name

/-- All counts at this moment. -/
def metrics (s : Storage) : Metrics :=
  { s.counters with allocationCount := s.allocationCount, blockCount := s.blockCount }

/-- Would one more block exceed the limit? -/
def atLimit (s : Storage) : Bool := s.settings.maxBlocks.any (· ≤ s.blockCount)

/-- Follows a number to its block. -/
def block (s : Storage) (n : Nat) : Except Fault Block :=
  match s.blocks.get? n with
  | some b => .ok b
  | none => .error (.missingBlock n)

/-- Replaces the block under a number. -/
def setBlock (s : Storage) (n : Nat) (b : Block) : Storage :=
  { s with blocks := s.blocks.set n b }

/-- Changes the block under a number, which must be there. -/
def updateBlock (s : Storage) (n : Nat) (change : Block → Block) : Except Fault Storage := do
  let b ← s.block n
  return s.setBlock n (change b)

/-- What a slot holds. -/
def load (s : Storage) (p : Place) : Except Fault (Option Reference) := do
  let b ← s.block p.block
  return b.load p.slot

/-- Writes a slot. -/
def store (s : Storage) (p : Place) (v : Option Reference) : Except Fault Storage :=
  s.updateBlock p.block fun b => b.store p.slot v

/-! ## Following numbers -/

theorem block_eq_ok_iff {s : Storage} {n : Nat} {b : Block} :
    s.block n = .ok b ↔ s.blocks.get? n = some b := by
  rcases h : s.blocks.get? n with _ | c <;> simp [block, h]

theorem block_eq_error_iff {s : Storage} {n : Nat} {f : Fault} :
    s.block n = .error f ↔ s.blocks.get? n = none ∧ f = .missingBlock n := by
  rcases h : s.blocks.get? n with _ | c <;> simp [block, h, eq_comm]

end Storage

end RootStore
