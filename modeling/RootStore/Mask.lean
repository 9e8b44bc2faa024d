/-!
# Occupancy masks

Which of the sixty-four slots of a block are in use, as one 64-bit word: bit `i` is set exactly if
slot `i` is in use.  The searches go by the count of trailing zeros, and the lowest set bit is
dropped by `m &&& (m - 1)`.

* `Mask.contains` — **the view**: is slot `i` in use?
* `Mask.contains_insert`, `Mask.contains_erase`, `Mask.contains_dropLowest` — each operation
  through the view; `Mask.ext_contains` says that the view determines the mask.
* `Mask.lowest?_eq_some_iff`, `Mask.lowestFree?_eq_some_iff` — both searches find the least index
  of their kind, and `Mask.lowest?_eq_none_iff`, `Mask.lowestFree?_eq_none_iff` when there is none.
* `Mask.indices` — the indices in use, in ascending order.
-/

namespace RootStore

/-- The index of a slot within its block. -/
abbrev SlotIndex := Fin 64

/-- One bit for each slot of a block. -/
structure Mask where
  /-- The word: bit `i` stands for slot `i`. -/
  bits : BitVec 64
  deriving DecidableEq, Repr

namespace Mask

/-- No slot is in use. -/
def empty : Mask := ⟨0⟩

/-- Every slot is in use. -/
def full : Mask := ⟨BitVec.allOnes 64⟩

instance : Inhabited Mask := ⟨empty⟩

/-- Is slot `i` in use? -/
def contains (m : Mask) (i : SlotIndex) : Bool := m.bits.getLsbD i

/-- The indices in use, in ascending order. -/
def indices (m : Mask) : List SlotIndex := (List.finRange 64).filter m.contains

/-- The word in which only bit `i` is set. -/
def bit (i : SlotIndex) : BitVec 64 := 1#64 <<< i.val

/-- Puts slot `i` in use. -/
def insert (m : Mask) (i : SlotIndex) : Mask := ⟨m.bits ||| bit i⟩

/-- Takes slot `i` out of use. -/
def erase (m : Mask) (i : SlotIndex) : Mask := ⟨m.bits &&& ~~~bit i⟩

/-- Takes the lowest slot in use out of use: subtracting one changes exactly the bits up to it. -/
def dropLowest (m : Mask) : Mask := ⟨m.bits &&& (m.bits - 1)⟩

/-- A word other than zero has fewer than sixty-four trailing zeros. -/
theorem ctz_lt {w : BitVec 64} (h : w ≠ 0) : w.ctz.toNat < 64 :=
  BitVec.lt_of_getLsbD (BitVec.getLsbD_true_ctz_of_ne_zero h)

/-- The lowest slot in use: the count of trailing zeros. -/
def lowest? (m : Mask) : Option SlotIndex :=
  if h : m.bits = 0 then none else some ⟨m.bits.ctz.toNat, ctz_lt h⟩

/-- The lowest slot not in use: the count of trailing ones. -/
def lowestFree? (m : Mask) : Option SlotIndex := lowest? ⟨~~~m.bits⟩

/-! ## The operations through the view -/

/-- Two masks with the same slots in use are the same mask. -/
theorem ext_contains {m n : Mask} (h : ∀ i, m.contains i = n.contains i) : m = n := by
  rcases m with ⟨m⟩
  rcases n with ⟨n⟩
  congr 1
  apply BitVec.eq_of_getLsbD_eq
  intro i hi
  exact h ⟨i, hi⟩

@[simp] theorem contains_empty (i : SlotIndex) : empty.contains i = false := by
  simp [empty, contains]

@[simp] theorem contains_full (i : SlotIndex) : full.contains i = true := by
  have hi := i.isLt
  simp only [full, contains, BitVec.getLsbD_allOnes, hi, decide_true]

theorem getLsbD_bit (i : SlotIndex) (j : Nat) : (bit i).getLsbD j = decide (j = i.val) := by
  have hi := i.isLt
  rw [bit, BitVec.getLsbD_shiftLeft, BitVec.getLsbD_one]
  by_cases h : j = i.val
  · subst h; simp
  · by_cases h' : j < i.val
    · simp [h, h']
    · have : j - i.val ≠ 0 := by omega
      simp [h, this]

@[simp] theorem contains_insert (m : Mask) (i j : SlotIndex) :
    (m.insert i).contains j = (m.contains j || decide (j = i)) := by
  simp only [insert, contains, BitVec.getLsbD_or, getLsbD_bit, Fin.ext_iff]

@[simp] theorem contains_erase (m : Mask) (i j : SlotIndex) :
    (m.erase i).contains j = (m.contains j && decide (j ≠ i)) := by
  have hj := j.isLt
  simp [erase, contains, -BitVec.getLsbD_eq_getElem, getLsbD_bit, Fin.ext_iff]

/-- Nothing is in use exactly in the empty mask. -/
theorem eq_empty_iff {m : Mask} : m = empty ↔ ∀ i, m.contains i = false :=
  ⟨fun h i => by simp [h], fun h => ext_contains fun i => by simp [h i]⟩

/-- Everything is in use exactly in the full mask. -/
theorem eq_full_iff {m : Mask} : m = full ↔ ∀ i, m.contains i = true :=
  ⟨fun h i => by simp [h], fun h => ext_contains fun i => by simp [h i]⟩

@[simp] theorem mem_indices {m : Mask} {i : SlotIndex} : i ∈ m.indices ↔ m.contains i = true := by
  simp [indices]

@[simp] theorem indices_empty : empty.indices = [] := by
  rw [List.eq_nil_iff_forall_not_mem]
  intro i
  simp

/-! ## The searches -/

/-- **The lowest slot in use** is in use and none before it is. -/
theorem lowest?_eq_some_iff {m : Mask} {i : SlotIndex} :
    m.lowest? = some i ↔ m.contains i = true ∧ ∀ j, j < i → m.contains j = false := by
  have below : ∀ j : SlotIndex, j.val < m.bits.ctz.toNat → m.contains j = false :=
    fun j hj => BitVec.getLsbD_false_of_lt_ctz hj
  simp only [lowest?]
  split
  · rename_i hz
    simp [contains, hz]
  · rename_i hz
    have hit : m.contains ⟨m.bits.ctz.toNat, ctz_lt hz⟩ = true :=
      BitVec.getLsbD_true_ctz_of_ne_zero hz
    constructor
    · intro h
      cases h
      exact ⟨hit, fun j hj => below j hj⟩
    · rintro ⟨hi, hlow⟩
      congr 1
      apply Fin.ext
      rcases Nat.lt_trichotomy m.bits.ctz.toNat i.val with h | h | h
      · have := hlow ⟨m.bits.ctz.toNat, ctz_lt hz⟩ h
        simp [hit] at this
      · exact h
      · have := below i h
        simp [hi] at this

/-- The search for a slot in use fails exactly on the empty mask. -/
theorem lowest?_eq_none_iff {m : Mask} : m.lowest? = none ↔ m = empty := by
  rcases m with ⟨w⟩
  simp [lowest?, empty]

theorem contains_not (w : BitVec 64) (i : SlotIndex) :
    (Mask.mk (~~~w)).contains i = !(Mask.mk w).contains i := by
  have hi := i.isLt
  simp [contains]

/-- **The lowest slot not in use** is not in use and all before it are. -/
theorem lowestFree?_eq_some_iff {m : Mask} {i : SlotIndex} :
    m.lowestFree? = some i ↔ m.contains i = false ∧ ∀ j, j < i → m.contains j = true := by
  rw [lowestFree?, lowest?_eq_some_iff]
  simp [contains_not]

/-- The search for a free slot fails exactly on the full mask. -/
theorem lowestFree?_eq_none_iff {m : Mask} : m.lowestFree? = none ↔ m = full := by
  rw [lowestFree?, lowest?_eq_none_iff, eq_empty_iff, eq_full_iff]
  simp [contains_not]

/-! ## Dropping the lowest bit -/

/-- A number whose lowest set bit is `t` is `2 ^ t` above a multiple of `2 ^ (t + 1)`. -/
theorem mod_two_pow_succ_of_lowest {n t : Nat} (hit : n.testBit t = true)
    (below : ∀ j, j < t → n.testBit j = false) : n % (1 <<< (t + 1)) = 1 <<< t := by
  rw [Nat.one_shiftLeft, Nat.one_shiftLeft]
  apply Nat.eq_of_testBit_eq
  intro j
  rw [Nat.testBit_mod_two_pow, Nat.testBit_two_pow]
  rcases Nat.lt_trichotomy j t with h | h | h
  · simp [below j h]; omega
  · subst h; simp [hit]
  · have h1 : ¬ j < t + 1 := by omega
    have h2 : ¬ t = j := by omega
    simp [h1, h2]

/-- Clearing the lowest set bit by `n &&& (n - 1)`, bit by bit. -/
theorem testBit_and_sub_one {n t : Nat} (hit : n.testBit t = true)
    (below : ∀ j, j < t → n.testBit j = false) (j : Nat) :
    (n &&& (n - 1)).testBit j = (n.testBit j && decide (j ≠ t)) := by
  have hmod := mod_two_pow_succ_of_lowest hit below
  rw [Nat.one_shiftLeft, Nat.one_shiftLeft] at hmod
  have hdiv := Nat.div_add_mod n (2 ^ (t + 1))
  have hpos : 0 < 2 ^ t := Nat.two_pow_pos t
  have hlt : 2 ^ t < 2 ^ (t + 1) := Nat.pow_lt_pow_right (by decide) (by omega)
  have hn : n = 2 ^ (t + 1) * (n / 2 ^ (t + 1)) + 2 ^ t := by omega
  have hn1 : n - 1 = 2 ^ (t + 1) * (n / 2 ^ (t + 1)) + (2 ^ t - 1) := by omega
  rw [Nat.testBit_and]
  rcases Nat.lt_trichotomy j t with h | h | h
  · simp [below j h]
  · subst h
    have : (n - 1).testBit j = false := by
      rw [hn1, Nat.testBit_two_pow_mul_add _ (by omega)]
      have : j < j + 1 := by omega
      simp [this, Nat.testBit_two_pow_sub_one]
    simp [this]
  · have hne : j ≠ t := by omega
    have hge : ¬ j < t + 1 := by omega
    have e : (n - 1).testBit j = n.testBit j := by
      have top := Nat.testBit_two_pow_mul_add (n / 2 ^ (t + 1)) hlt j
      rw [← hn] at top
      rw [hn1, Nat.testBit_two_pow_mul_add _ (by omega), top]
      simp [hge]
    simp [e, hne]

/-- **Dropping the lowest bit** takes exactly the lowest slot in use out of use. -/
theorem dropLowest_eq_erase {m : Mask} {i : SlotIndex} (h : m.lowest? = some i) :
    m.dropLowest = m.erase i := by
  obtain ⟨hit, below⟩ := lowest?_eq_some_iff.1 h
  have hit' : m.bits.toNat.testBit i.val = true := by
    simpa [contains, BitVec.getLsbD] using hit
  have below' : ∀ j, j < i.val → m.bits.toNat.testBit j = false := by
    intro j hj
    have := below ⟨j, by omega⟩ hj
    simpa [contains, BitVec.getLsbD] using this
  have hpos : 1 ≤ m.bits.toNat := by
    rcases Nat.eq_zero_or_pos m.bits.toNat with hz | hz
    · simp [hz] at hit'
    · exact hz
  have hsub : (m.bits - 1).toNat = m.bits.toNat - 1 := by
    have hlt := m.bits.isLt
    rw [BitVec.toNat_sub]
    simp only [BitVec.ofNat_eq_ofNat, BitVec.toNat_ofNat]
    omega
  apply ext_contains
  intro j
  rw [contains_erase]
  simp only [dropLowest, contains, BitVec.getLsbD, BitVec.toNat_and, hsub]
  rw [testBit_and_sub_one hit' below']
  simp [Fin.ext_iff]

/-- Dropping the lowest bit through the view. -/
theorem contains_dropLowest {m : Mask} {i : SlotIndex} (h : m.lowest? = some i) (j : SlotIndex) :
    m.dropLowest.contains j = (m.contains j && decide (j ≠ i)) := by
  rw [dropLowest_eq_erase h, contains_erase]

end Mask

end RootStore
