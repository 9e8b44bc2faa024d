import RootStore.Mask

/-!
# Addresses of slots

A block occupies 1024 bytes at an address that is a multiple of 1024, and starts with its
sixty-four slots of eight bytes each.  So the address of a slot alone tells its block, by masking
the low ten bits off, and its index, by the distance from the block.

* `Address.ofSlot` — where slot `i` of the block at `base` lies.
* `Address.blockOf`, `Address.indexOf` — the way back.
* `Address.blockOf_ofSlot`, `Address.indexOf_ofSlot` — both ways back lead home.
* `Address.ofSlot_inj` — no two slots share an address.
* `Address.indexOf?` — the index, with what is checked on the way.
-/

namespace RootStore

/-- A byte address. -/
abbrev Address := BitVec 64

namespace Address

/-- The size of a block, which is also what its address is a multiple of. -/
def blockBytes : Nat := 1024

/-- The size of a slot. -/
def slotBytes : Nat := 8

/-- A possible address of a block: a multiple of the block size, not null, with the whole block
inside the address space. -/
def IsBlock (base : Address) : Prop :=
  base ≠ 0#64 ∧ base.toNat % blockBytes = 0 ∧ base.toNat + blockBytes ≤ UInt64.size

/-- The address of slot `i` of the block at `base`. -/
def ofSlot (base : Address) (i : SlotIndex) : Address :=
  base + BitVec.ofNat 64 (slotBytes * i.val)

/-- The block that contains an address: the low ten bits masked off. -/
def blockOf (a : Address) : Address := a &&& ~~~BitVec.ofNat 64 (blockBytes - 1)

/-- The index of a slot in the block at `base`: its distance, in slots. -/
def indexOf (base a : Address) : BitVec 64 := (a - base) / BitVec.ofNat 64 slotBytes

theorem toNat_ofSlot {base : Address} (h : IsBlock base) (i : SlotIndex) :
    (ofSlot base i).toNat = base.toNat + 8 * i.val := by
  have hi := i.isLt
  have hb := h.2.2
  simp only [blockBytes, UInt64.size] at hb
  simp only [ofSlot, slotBytes, BitVec.toNat_add, BitVec.toNat_ofNat]
  omega

theorem toNat_blockOf (a : Address) : (blockOf a).toNat = 1024 * (a.toNat / 1024) := by
  have ha := a.isLt
  apply Nat.eq_of_testBit_eq
  intro j
  rw [show (1024 : Nat) = 2 ^ 10 from rfl, Nat.testBit_two_pow_mul, Nat.testBit_div_two_pow]
  rw [blockOf, BitVec.toNat_and, Nat.testBit_and, BitVec.toNat_not, BitVec.toNat_ofNat]
  rw [show 2 ^ 64 - 1 - (blockBytes - 1) % 2 ^ 64 = 2 ^ 10 * (2 ^ 54 - 1) by decide]
  rw [Nat.testBit_two_pow_mul, Nat.testBit_two_pow_sub_one]
  by_cases h10 : 10 ≤ j
  · have hj : j - 10 + 10 = j := by omega
    by_cases h64 : j < 64
    · have : j - 10 < 54 := by omega
      simp [h10, hj, this]
    · have hbig : a.toNat.testBit j = false :=
        Nat.testBit_lt_two_pow (Nat.lt_of_lt_of_le ha (Nat.pow_le_pow_right (by decide) (by omega)))
      simp [h10, hj, hbig]
  · simp [h10]

/-- **The block of a slot's address is the slot's block.** -/
theorem blockOf_ofSlot {base : Address} (h : IsBlock base) (i : SlotIndex) :
    blockOf (ofSlot base i) = base := by
  have hi := i.isLt
  have hm := h.2.1
  simp only [blockBytes] at hm
  apply BitVec.eq_of_toNat_eq
  rw [toNat_blockOf, toNat_ofSlot h]
  omega

/-- The distance of a slot from its block. -/
theorem toNat_ofSlot_sub {base : Address} (h : IsBlock base) (i : SlotIndex) :
    (ofSlot base i - base).toNat = slotBytes * i.val := by
  have hi := i.isLt
  have hlt := (ofSlot base i).isLt
  have hs := toNat_ofSlot h i
  rw [BitVec.toNat_sub, hs, slotBytes]
  omega

/-- **The index of a slot's address is the slot's index.** -/
theorem indexOf_ofSlot {base : Address} (h : IsBlock base) (i : SlotIndex) :
    (indexOf base (ofSlot base i)).toNat = i.val := by
  rw [indexOf, BitVec.toNat_udiv, toNat_ofSlot_sub h]
  exact Nat.mul_div_cancel_left i.val (by decide)

/-- A slot does not lie before its block. -/
theorem le_ofSlot {base : Address} (h : IsBlock base) (i : SlotIndex) : base ≤ ofSlot base i := by
  rw [BitVec.le_def, toNat_ofSlot h]
  exact Nat.le_add_right _ _

/-- No slot lies at one: it lies at a multiple of its size. -/
theorem ofSlot_ne_one {base : Address} (h : IsBlock base) (i : SlotIndex) :
    ofSlot base i ≠ 1#64 := by
  intro heq
  have hs := toNat_ofSlot h i
  have hm := h.2.1
  rw [heq] at hs
  simp only [blockBytes] at hm
  simp only [BitVec.toNat_ofNat] at hs
  omega

/-- **No two slots share an address**: it is that of one index in one block. -/
theorem ofSlot_inj {base base' : Address} (h : IsBlock base) (h' : IsBlock base')
    {i j : SlotIndex} : ofSlot base i = ofSlot base' j ↔ base = base' ∧ i = j := by
  constructor
  · intro heq
    have hbase : base = base' := by
      rw [← blockOf_ofSlot h i, heq, blockOf_ofSlot h' j]
    subst hbase
    refine ⟨rfl, Fin.ext ?_⟩
    rw [← indexOf_ofSlot h i, heq, indexOf_ofSlot h j]
  · rintro ⟨rfl, rfl⟩
    rfl

/-! ## Looking an address up -/

/-- The index of a slot in the block at `base`, with what is checked on the way: the address is not
before the block, its distance is a whole number of slots, and the block has that many. -/
def indexOf? (base a : Address) : Option SlotIndex :=
  if base ≤ a ∧ (a - base) % BitVec.ofNat 64 slotBytes = 0#64 then
    if h : (indexOf base a).toNat < 64 then some ⟨(indexOf base a).toNat, h⟩ else none
  else none

/-- No check fails for the address of a slot. -/
theorem indexOf?_ofSlot {base : Address} (h : IsBlock base) (i : SlotIndex) :
    indexOf? base (ofSlot base i) = some i := by
  have hindex := indexOf_ofSlot h i
  have hwhole : (ofSlot base i - base) % BitVec.ofNat 64 slotBytes = 0#64 := by
    apply BitVec.eq_of_toNat_eq
    rw [BitVec.toNat_umod, toNat_ofSlot_sub h]
    simp [slotBytes]
  unfold indexOf?
  rw [if_pos ⟨le_ofSlot h i, hwhole⟩, dif_pos (by rw [hindex]; exact i.isLt)]
  exact congrArg some (Fin.ext hindex)

/-- An index that has been found is that of the slot at the address. -/
theorem ofSlot_of_indexOf? {base a : Address} {i : SlotIndex} (h : indexOf? base a = some i) :
    ofSlot base i = a := by
  unfold indexOf? at h
  split at h
  · rename_i hchecks
    obtain ⟨hle, hwhole⟩ := hchecks
    split at h
    · obtain rfl := Option.some.inj h
      have ha := a.isLt
      have hb := base.isLt
      rw [BitVec.le_def] at hle
      have hsub : (a - base).toNat = a.toNat - base.toNat := by
        rw [BitVec.toNat_sub]
        omega
      have hmod : (a.toNat - base.toNat) % 8 = 0 := by
        rw [← hsub]
        exact congrArg BitVec.toNat hwhole
      have hdiv : (indexOf base a).toNat = (a.toNat - base.toNat) / 8 := by
        rw [indexOf, BitVec.toNat_udiv, hsub]
        rfl
      apply BitVec.eq_of_toNat_eq
      simp only [ofSlot, hdiv, slotBytes, BitVec.toNat_add, BitVec.toNat_ofNat]
      omega
    · cases h
  · cases h

end Address

end RootStore
