import RootStore.Storage.Links

/-!
# Deletion of empty blocks

Deletion walks the list from the head and takes out every block without an entry in use.  A deletion
that may run beside a concurrent pass gives way to it: at the first empty block it meets while such
a pass is under way it stops, and what it has deleted before stays deleted.

* `Storage.inspect` — what is done at one block while the list is locked against passes.
* `Storage.deleteFrom` — the walk; the next block is read before a block goes.
* `Storage.deleteEmpty` — the whole deletion with its counts.
-/

namespace RootStore

/-- The outcome of a deletion. -/
structure Deletion where
  /-- The storage afterwards. -/
  storage : Storage
  /-- How many blocks were deleted. -/
  deleted : Nat
  /-- Did it give way to a concurrent pass? -/
  inhibited : Bool

/-- What a deletion finds at a block. -/
inductive Finding where
  /-- An entry of the block is in use. -/
  | occupied
  /-- The block is empty, but a concurrent pass is under way. -/
  | inhibited
  /-- The block was empty and has been taken out of the list. -/
  | unlinked
  deriving DecidableEq

/-- The outcome of looking at one block. -/
structure Inspection where
  /-- The storage afterwards. -/
  storage : Storage
  /-- The block's older neighbour, read before anything was changed. -/
  next : Option Nat
  /-- What was found. -/
  finding : Finding

namespace Storage

/-- Looks at one block: an empty one is taken out of the list, unless a concurrent pass is given way
to. -/
def inspect (s : Storage) (yielding : Bool) (n : Nat) : Except Fault Inspection := do
  let b ← s.block n
  if !b.isEmpty then return { storage := s, next := b.next, finding := .occupied }
  if yielding && s.iterating then return { storage := s, next := b.next, finding := .inhibited }
  let s ← s.unlink n
  return { storage := s, next := b.next, finding := .unlinked }

/-- Walks on from a cursor, in at most so many turns, with `deleted` blocks deleted so far. -/
def deleteFrom (yielding : Bool) : Nat → Storage → Option Nat → Nat → Except Fault Deletion
  | _, s, none, deleted => .ok { storage := s, deleted, inhibited := false }
  | 0, _, some _, _ => .error .endlessWalk
  | turns + 1, s, some n, deleted => do
      let i ← s.inspect yielding n
      match i.finding with
      | .occupied => deleteFrom yielding turns i.storage i.next deleted
      | .inhibited => return { storage := i.storage, deleted, inhibited := true }
      | .unlinked =>
          let s ← i.storage.reclaim n
          deleteFrom yielding turns s i.next (deleted + 1)

/-- Deletes the empty blocks, giving way to a concurrent pass where `yielding` says so. -/
def deleteEmpty (s : Storage) (yielding : Bool) : Except Fault Deletion := do
  let d ← deleteFrom yielding s.blocks.size s s.head 0
  let counters := { d.storage.counters with
    blocksDeleted := d.storage.counters.blocksDeleted + d.deleted
    deletionsInhibited := d.storage.counters.deletionsInhibited + d.inhibited.toNat }
  return { d with storage := { d.storage with counters } }

end Storage

end RootStore
