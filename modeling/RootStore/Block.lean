import RootStore.Mask
import RootStore.Reference

/-!
# Blocks

A block holds sixty-four slots, the mask of those in use, the number of the storage that owns it and
its two neighbours in that storage's list.  Entries are handed out lowest index first; a freed entry
is nulled, so a slot that is not in use holds null.

* `Block.allocateEntry` — puts the lowest free slot in use.
* `Block.releaseEntry` — nulls a slot and takes it out of use; tells whether the block was full.
* `Block.load`, `Block.store` — the slots themselves.
-/

namespace RootStore

/-- How many slots a block has. -/
def blockSize : Nat := 64

/-- Sixty-four slots with the mask of those in use. -/
structure Block where
  /-- The id of the storage the block belongs to. -/
  owner : Nat
  /-- What the slots hold. -/
  slots : Vector (Option Reference) 64
  /-- Which slots are in use. -/
  mask : Mask
  /-- The number of the next older block in the list. -/
  next : Option Nat
  /-- The number of the next newer block in the list. -/
  prev : Option Nat
  deriving DecidableEq

namespace Block

/-- A block with no slot in use and no neighbours. -/
def fresh (owner : Nat) : Block where
  owner := owner
  slots := Vector.replicate 64 none
  mask := .empty
  next := none
  prev := none

instance : Inhabited Block := ⟨fresh 0⟩

/-- No slot is in use. -/
def isEmpty (b : Block) : Bool := b.mask = .empty

/-- Every slot is in use. -/
def isFull (b : Block) : Bool := b.mask = .full

/-- Is slot `i` in use? -/
def inUse (b : Block) (i : SlotIndex) : Bool := b.mask.contains i

/-- What slot `i` holds. -/
def load (b : Block) (i : SlotIndex) : Option Reference := b.slots[i]

/-- Writes slot `i`. -/
def store (b : Block) (i : SlotIndex) (v : Option Reference) : Block :=
  { b with slots := b.slots.set i v }

/-- Puts the lowest free slot in use; a full block has none.  That the slot holds null is asserted
in checked builds only, and is not asked here: it holds as long as nobody writes an entry that has
been given back. -/
def allocateEntry (b : Block) : Option (Block × SlotIndex) :=
  b.mask.lowestFree?.map fun i => ({ b with mask := b.mask.insert i }, i)

/-- Nulls slot `i` and takes it out of use, and tells whether the block was full before.  That the
slot was in use is asserted in checked builds only, and is not asked here: the entry of a handle
that has not been given back always is. -/
def releaseEntry (b : Block) (i : SlotIndex) : Block × Bool :=
  ({ b.store i none with mask := b.mask.erase i }, b.isFull)

/-! ## Slots -/

@[simp] theorem load_fresh (owner : Nat) (i : SlotIndex) : (fresh owner).load i = none := by
  simp [fresh, load]

/-- A written slot shows the new content and the others what they held. -/
theorem load_store (b : Block) (i : SlotIndex) (v : Option Reference) (j : SlotIndex) :
    (b.store i v).load j = if j = i then v else b.load j := by
  by_cases h : j = i
  · subst h; simp [store, load]
  · have : i.val ≠ j.val := fun e => h (Fin.ext e.symm)
    simp [store, load, h, Vector.getElem_set_ne, this]

@[simp] theorem mask_store (b : Block) (i : SlotIndex) (v : Option Reference) :
    (b.store i v).mask = b.mask := rfl

/-! ## Entries in use -/

theorem isEmpty_iff {b : Block} : b.isEmpty = true ↔ ∀ i, b.inUse i = false := by
  simp [isEmpty, inUse, Mask.eq_empty_iff]

theorem isFull_iff {b : Block} : b.isFull = true ↔ ∀ i, b.inUse i = true := by
  simp [isFull, inUse, Mask.eq_full_iff]

/-- There is an entry to hand out exactly where the block is not full. -/
theorem allocateEntry_eq_none_iff {b : Block} : b.allocateEntry = none ↔ b.isFull = true := by
  simp [allocateEntry, isFull, Mask.lowestFree?_eq_none_iff]

/-- The entry handed out is the least that was free; it alone comes into use, and no slot is
written. -/
theorem allocateEntry_eq_some {b b' : Block} {i : SlotIndex}
    (h : b.allocateEntry = some (b', i)) :
    b.inUse i = false ∧ (∀ j, j < i → b.inUse j = true) ∧
      b' = { b with mask := b.mask.insert i } := by
  simp only [allocateEntry, Option.map_eq_some_iff, Prod.mk.injEq] at h
  obtain ⟨j, hj, rfl, rfl⟩ := h
  obtain ⟨hfree, hbelow⟩ := Mask.lowestFree?_eq_some_iff.1 hj
  exact ⟨hfree, hbelow, rfl⟩

@[simp] theorem inUse_releaseEntry (b : Block) (i j : SlotIndex) :
    (b.releaseEntry i).1.inUse j = (b.inUse j && decide (j ≠ i)) := by
  simp [releaseEntry, inUse]

@[simp] theorem load_releaseEntry (b : Block) (i j : SlotIndex) :
    (b.releaseEntry i).1.load j = if j = i then none else b.load j :=
  load_store b i none j

end Block

end RootStore
