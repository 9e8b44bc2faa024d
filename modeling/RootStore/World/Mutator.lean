import RootStore.World.Basic

/-!
# What mutators do

Storages are made and dropped, entries are allocated, released, read and written, and empty blocks
are deleted.  An operation that fails leaves the world as it was; only a release that panics has an
effect, which is that the handle is gone.

* `World.create`, `World.drop` — a storage's life.
* `World.allocate`, `World.release`, `World.get`, `World.set` — entries through their handles.
* `World.deleteEmpty` — empty blocks.
-/

namespace RootStore

namespace World

/-- Makes a storage and answers with its id. -/
def create (w : World) (settings : Settings) : World × Nat :=
  let id := w.storages.size + 1
  ({ w with storages := w.storages.add (Storage.make id settings) }, id)

/-- Drops a storage with all its blocks. -/
def drop (w : World) (id : Nat) : Except Failure World := do
  let s ← w.storage id
  let _ ← Failure.ofFault s.dispose
  return { w with storages := w.storages.erase id }

/-- Allocates an entry and answers with the number of its handle, unless the storage is at its
limit. -/
def allocate (w : World) (id : Nat) : Except Failure (World × Option Nat) := do
  let s ← w.storage id
  let a ← Failure.ofFault s.allocate
  let rows := if a.linked then [Row.blockLinked s.name a.storage.blockCount] else []
  let w := (w.setStorage id a.storage).record rows
  match a.place with
  | none => return (w, none)
  | some place =>
      let issued : Issued := { handle := { owner := s.id, place } }
      return ({ w with handles := w.handles.add issued }, some (w.handles.size + 1))

/-- The handle with a number and the storage with an id, which must have issued it. -/
def owned (w : World) (id number : Nat) : Except Failure (Storage × Handle) := do
  let h ← w.handle number
  let s ← w.storage id
  if h.owner ≠ s.id then throw (.panic (.foreignHandle h s.id s.name))
  return (s, h)

/-- Gives a handle back: it is no longer held. -/
def spend (w : World) (number : Nat) (h : Handle) (tenure : Tenure) : World :=
  { w with handles := w.handles.set number { handle := h, tenure } }

/-- Releases the entry behind a handle.  The handle is consumed even where the storage did not issue
it; then the release panics and the entry stays in use. -/
def release (w : World) (id number : Nat) : Except Failure (World × Option Panic) := do
  let h ← w.handle number
  let s ← w.storage id
  if h.owner ≠ s.id then return (w.spend number h .lost, some (.foreignHandle h s.id s.name))
  let s ← Failure.ofFault (s.release h.place)
  return ((w.spend number h .released).setStorage id s, none)

/-- Reads the entry behind a handle. -/
def get (w : World) (id number : Nat) : Except Failure (Option Reference) := do
  let (s, h) ← w.owned id number
  Failure.ofFault (s.load h.place)

/-- Writes the entry behind a handle. -/
def set (w : World) (id number : Nat) (v : Option Reference) : Except Failure World := do
  let (s, h) ← w.owned id number
  let s ← Failure.ofFault (s.store h.place v)
  return w.setStorage id s

/-- The rows that a deletion leaves in the trace. -/
def deletionRows (name : String) (d : Deletion) : List Row :=
  (if d.inhibited then [.deletionInhibited name] else []) ++
    (if d.deleted = 0 then [] else [.blocksDeleted name d.deleted])

/-- Deletes the empty blocks of a storage and answers how many there were, giving way to a
concurrent pass where `yielding` says so. -/
def deleteEmpty (w : World) (id : Nat) (yielding : Bool) : Except Failure (World × Nat) := do
  let s ← w.storage id
  let d ← Failure.ofFault (s.deleteEmpty yielding)
  return ((w.setStorage id d.storage).record (deletionRows s.name d), d.deleted)

end World

end RootStore
