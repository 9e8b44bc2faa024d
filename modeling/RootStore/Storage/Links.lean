import RootStore.Storage.Basic

/-!
# The list of a storage's blocks

The list runs from the newest block to the oldest: `next` leads to an older neighbour and `prev` to
a newer one.  Only linking in front, unlinking and the final disposal change it.

* `Storage.link` — a fresh block in front of the list.
* `Storage.unlink` — one block out of the list, wherever it stands.
* `Storage.reclaim` — an unlinked block out of the queue and out of memory.
* `Storage.dispose` — every block out of memory, from the head on.
-/

namespace RootStore

namespace Storage

/-- Links a fresh block in front of the list and answers with its number. -/
def link (s : Storage) : Except Fault (Storage × Nat) := do
  let n := s.blocks.size + 1
  let s₁ := { s with blocks := s.blocks.add { Block.fresh s.id with next := s.head } }
  let s₂ ← match s.head with
    | none => pure s₁
    | some old => s₁.updateBlock old fun b => { b with prev := some n }
  return ({ s₂ with
    head := some n
    blockCount := s₂.blockCount + 1
    counters := { s₂.counters with blocksAllocated := s₂.counters.blocksAllocated + 1 } }, n)

/-- Takes a block out of the list: its neighbours come to be neighbours of each other, and its older
neighbour becomes the head if it was the head. -/
def unlink (s : Storage) (n : Nat) : Except Fault Storage := do
  let b ← s.block n
  let s ← match b.prev with
    | none => pure { s with head := b.next }
    | some newer => s.updateBlock newer fun c => { c with next := b.next }
  match b.next with
  | none => return s
  | some older => s.updateBlock older fun c => { c with prev := b.prev }

/-- Removes a number from memory, which must still hold its block. -/
def free (s : Storage) (n : Nat) : Except Fault Storage := do
  let _ ← s.block n
  return { s with blocks := s.blocks.erase n }

/-- Drops an unlinked block from the queue and from memory. -/
def reclaim (s : Storage) (n : Nat) : Except Fault Storage := do
  let s ← { s with available := s.available.filter (· ≠ n) }.free n
  return { s with blockCount := s.blockCount - 1 }

/-- Frees the blocks from a cursor on, in at most so many turns.  A block's successor is read before
the block is freed. -/
def disposeFrom : Nat → Storage → Option Nat → Except Fault Storage
  | _, s, none => .ok s
  | 0, _, some _ => .error .endlessWalk
  | turns + 1, s, some n => do
      let b ← s.block n
      let s ← s.free n
      disposeFrom turns s b.next

/-- Frees every linked block at the end of a storage's life. -/
def dispose (s : Storage) : Except Fault Storage := disposeFrom s.blocks.size s s.head

end Storage

end RootStore
