import RootStore.Proofs.Race.Protocol
import RootStore.Proofs.World.Memory

/-!
# Where blocks lie

The blocks in memory lie at addresses of their own, each a multiple of the block size.  So an
address leads to at most one slot: masking leads to the block that contains it, and the distance
from there to the index.  A block may lie where another one lay that has been freed.

* `Layout`, `World.Placed` — where blocks lie, and that those in memory lie apart.
* `World.blockAt?`, `World.slotAt?` — the block and the slot at an address.
* `World.Placed.slotAt?_eq_some_iff` — **an address leads to the slot that lies there, and to no
  other.**
-/

namespace RootStore

/-! ## Layouts -/

/-- Where blocks lie: the address of each, by the id of its storage and its number. -/
abbrev Layout := Nat → Nat → Address

/-- Where a slot lies. -/
def Layout.slot (layout : Layout) (id : Nat) (p : Place) : Address :=
  Address.ofSlot (layout id p.block) p.slot

namespace World

variable {w : World} {layout : Layout} {base a : Address} {id id' n : Nat} {p q : Place}
  {steps : List Step}

/-- The blocks in memory, by the id of their storage and their number. -/
def inMemory (w : World) : List (Nat × Nat) :=
  (List.range (w.storages.size + 1)).flatMap fun id =>
    (w.storages.get? id).toList.flatMap fun s =>
      ((List.range (s.blocks.size + 1)).filter fun n => (s.blocks.get? n).isSome).map
        fun n => (id, n)

theorem mem_inMemory : (id, n) ∈ w.inMemory ↔ w.Holds id n := by
  simp only [inMemory, List.mem_flatMap, List.mem_range, Option.mem_toList, List.mem_map,
    List.mem_filter, Prod.mk.injEq]
  constructor
  · rintro ⟨_, -, s, hs, _, ⟨-, hb⟩, rfl, rfl⟩
    exact ⟨s, hs, Option.isSome_iff_exists.1 hb⟩
  · rintro ⟨s, hs, b, hb⟩
    have hid := (Registry.bounds_of_get?_eq_some hs).2
    have hn := (Registry.bounds_of_get?_eq_some hb).2
    exact ⟨id, by omega, s, hs, n, ⟨by omega, by simp [hb]⟩, rfl, rfl⟩

/-- **The blocks in memory lie apart**, each at a possible address. -/
structure Placed (w : World) (layout : Layout) : Prop where
  block : ∀ id n, w.Holds id n → (layout id n).IsBlock
  injective : ∀ id n id' n', w.Holds id n → w.Holds id' n' → layout id n = layout id' n' →
    id = id' ∧ n = n'

instance (w : World) (layout : Layout) : Decidable (w.Placed layout) :=
  decidable_of_iff ((∀ x ∈ w.inMemory, (layout x.1 x.2).IsBlock) ∧
      ∀ x ∈ w.inMemory, ∀ y ∈ w.inMemory, layout x.1 x.2 = layout y.1 y.2 → x = y)
    ⟨fun h => ⟨fun id n hn => h.1 (id, n) (mem_inMemory.2 hn), fun id n id' n' hn hn' heq =>
        Prod.mk.inj (h.2 (id, n) (mem_inMemory.2 hn) (id', n') (mem_inMemory.2 hn') heq)⟩,
      fun h => ⟨fun x hx => h.block x.1 x.2 (mem_inMemory.1 hx), fun x hx y hy heq =>
        Prod.ext_iff.2 (h.injective x.1 x.2 y.1 y.2 (mem_inMemory.1 hx) (mem_inMemory.1 hy) heq)⟩⟩

/-- The block that lies at an address. -/
def blockAt? (w : World) (layout : Layout) (base : Address) : Option (Nat × Nat) :=
  w.inMemory.find? fun x => layout x.1 x.2 = base

/-- **The slot that lies at an address**, by the id of its storage: the block is the one that
contains the address, and the index there is told by the distance. -/
def slotAt? (w : World) (layout : Layout) (a : Address) : Option (Nat × Place) := do
  let (id, n) ← w.blockAt? layout (Address.blockOf a)
  let i ← Address.indexOf? (layout id n) a
  return (id, ⟨n, i⟩)

namespace Placed

theorem blockAt?_eq_some_iff (h : w.Placed layout) :
    w.blockAt? layout base = some (id, n) ↔ w.Holds id n ∧ layout id n = base := by
  constructor
  · intro hfind
    have hmem := List.mem_of_find?_eq_some hfind
    have hbase := List.find?_some hfind
    exact ⟨mem_inMemory.1 hmem, of_decide_eq_true hbase⟩
  · rintro ⟨hn, rfl⟩
    rcases hfind : w.blockAt? layout (layout id n) with _ | ⟨id', n'⟩
    · rw [blockAt?, List.find?_eq_none] at hfind
      exact absurd (decide_eq_true rfl) (hfind (id, n) (mem_inMemory.2 hn))
    · have hmem := List.mem_of_find?_eq_some hfind
      have hbase := List.find?_some hfind
      obtain ⟨rfl, rfl⟩ :=
        h.injective id' n' id n (mem_inMemory.1 hmem) hn (of_decide_eq_true hbase)
      rfl

/-- **An address leads to the slot that lies there**, and to no other. -/
theorem slotAt?_eq_some_iff (h : w.Placed layout) :
    w.slotAt? layout a = some (id, p) ↔ w.Holds id p.block ∧ layout.slot id p = a := by
  obtain ⟨n, i⟩ := p
  constructor
  · intro hslot
    simp only [slotAt?, Option.bind_eq_bind, Option.bind_eq_some_iff, Option.pure_def,
      Option.some.injEq, Prod.mk.injEq, Place.mk.injEq] at hslot
    obtain ⟨⟨id', n'⟩, hblock, i', hindex, rfl, rfl, rfl⟩ := hslot
    exact ⟨(h.blockAt?_eq_some_iff.1 hblock).1, Address.ofSlot_of_indexOf? hindex⟩
  · rintro ⟨hn, rfl⟩
    have hbase := h.block id n hn
    have hblock : w.blockAt? layout (Address.blockOf (layout.slot id ⟨n, i⟩)) = some (id, n) := by
      rw [Layout.slot, Address.blockOf_ofSlot hbase]
      exact h.blockAt?_eq_some_iff.2 ⟨hn, rfl⟩
    have hindex : Address.indexOf? (layout id n) (layout.slot id ⟨n, i⟩) = some i :=
      Address.indexOf?_ofSlot hbase i
    simp [slotAt?, hblock, hindex]

/-- Slots of blocks in memory share no address. -/
theorem slot_inj (h : w.Placed layout) (hp : w.Holds id p.block) (hq : w.Holds id' q.block) :
    layout.slot id p = layout.slot id' q ↔ id = id' ∧ p = q := by
  constructor
  · intro heq
    have hfirst := h.slotAt?_eq_some_iff.2 ⟨hp, heq⟩
    have hsecond := h.slotAt?_eq_some_iff.2 ⟨hq, rfl⟩
    exact Prod.mk.inj (Option.some.inj (hfirst.symm.trans hsecond))
  · rintro ⟨rfl, rfl⟩
    rfl

end Placed

/-! ## In the course of a run -/

/-- The blocks in memory lie apart after each of some steps, whatever these link and free. -/
def PlacedAlong (steps : List Step) (layout : Layout) : Prop := ∀ st ∈ steps, st.after.Placed layout

instance (steps : List Step) (layout : Layout) : Decidable (PlacedAlong steps layout) :=
  inferInstanceAs (Decidable (∀ st ∈ steps, st.after.Placed layout))

/-- So they do in the world that a run leads to: at the beginning there are none. -/
theorem Run.placed (h : Run {} steps w) (halong : PlacedAlong steps layout) : w.Placed layout := by
  generalize hinit : ({} : World) = w₀ at h
  cases h with
  | nil =>
      subst hinit
      exact ⟨by simp [Holds], by simp [Holds]⟩
  | @snoc w₁ steps e hrun hp => exact halong ⟨w₁, e⟩ (by simp)

end World

end RootStore
