import RootStore.Storage.Links

/-!
# Allocation and release of entries

An entry comes from the front of the queue of blocks with a free entry, which leaves the queue when
that fills it; where the queue is empty a block is linked, unless the limit forbids it.  Releasing
an entry of a full block puts that block at the end of the queue.

* `Storage.allocate` — one entry, if the limit allows it.
* `Storage.release` — one entry back.
-/

namespace RootStore

/-- The outcome of an allocation. -/
structure Allocation where
  /-- The storage afterwards. -/
  storage : Storage
  /-- The entry, unless the limit forbade the block it needed. -/
  place : Option Place
  /-- Was a block linked for it? -/
  linked : Bool

namespace Storage

/-- Takes the lowest free entry of the block in front of the queue, given its number. -/
def takeEntry (s : Storage) (n : Nat) : Except Fault (Storage × Place) := do
  let b ← s.block n
  match b.allocateEntry with
  | none => throw (.fullBlock n)
  | some (b, i) =>
      let s := s.setBlock n b
      let available := if b.isFull then s.available.tail else s.available
      return ({ s with available, allocationCount := s.allocationCount + 1 }, ⟨n, i⟩)

/-- Allocates an entry.  It holds null. -/
def allocate (s : Storage) : Except Fault Allocation :=
  match s.available with
  | n :: _ => do
      let (s, place) ← s.takeEntry n
      return { storage := s, place := some place, linked := false }
  | [] =>
      if s.atLimit then return { storage := s, place := none, linked := false }
      else do
        let (s, n) ← s.link
        let (s, place) ← { s with available := s.available ++ [n] }.takeEntry n
        return { storage := s, place := some place, linked := true }

/-- Nulls an entry and takes it out of use. -/
def release (s : Storage) (p : Place) : Except Fault Storage := do
  let b ← s.block p.block
  if b.owner ≠ s.id then throw (.foreignBlock p.block)
  let (b, wasFull) := b.releaseEntry p.slot
  let s := s.setBlock p.block b
  let available := if wasFull then s.available ++ [p.block] else s.available
  return { s with available, allocationCount := s.allocationCount - 1 }

end Storage

end RootStore
