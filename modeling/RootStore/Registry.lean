/-!
# Registries: values under numbers that are never used twice

A registry hands out the numbers `1, 2, 3, …` in the order in which values enter it.  A value can
be replaced or removed, but its number is spent for good: a number that was handed out and holds
nothing any more is told apart from one that was never handed out only by its size, and neither can
be looked up.  Blocks, storages and passes are all kept this way.

* `Registry.add` / `Registry.set` / `Registry.erase` — enter, replace, remove.
* `Registry.get?` — **the view**: what a number holds now.
* `Registry.get?_add`, `Registry.get?_set`, `Registry.get?_erase` — each operation through the view.
* `Registry.ext_get?` — **the view and the size tell registries apart.**
* `Registry.mapEach` — every value changed, and how this goes together with the operations.
-/

namespace RootStore

/-- Values numbered from one in order of entry; the cell of a removed value stays behind empty. -/
structure Registry (α : Type) where
  /-- The cell of number `n + 1` at index `n`. -/
  cells : Array (Option α) := #[]

namespace Registry

variable {α : Type}

/-- A registry that nothing has entered yet. -/
def empty : Registry α := {}

/-- How many values have ever entered, which is also the last number handed out. -/
def size (r : Registry α) : Nat := r.cells.size

/-- The value under a number, if the number was handed out and its value is still there. -/
def get? (r : Registry α) : Nat → Option α
  | 0 => none
  | n + 1 => (r.cells[n]?).join

/-- Enters a value under the next number, which is `r.size + 1`. -/
def add (r : Registry α) (a : α) : Registry α := { cells := r.cells.push (some a) }

/-- Replaces the value under a number; nothing happens where the number holds no value. -/
def set (r : Registry α) (n : Nat) (a : α) : Registry α :=
  if (r.get? n).isSome then { cells := r.cells.setIfInBounds (n - 1) (some a) } else r

/-- Removes the value under a number, whose cell stays empty. -/
def erase (r : Registry α) (n : Nat) : Registry α :=
  match n with
  | 0 => r
  | m + 1 => { cells := r.cells.setIfInBounds m none }

/-- Changes every value, by its number. -/
def mapEach (r : Registry α) (f : Nat → α → α) : Registry α :=
  { cells := r.cells.mapIdx fun i cell => cell.map (f (i + 1)) }

/-- Does some present value satisfy the test? -/
def any (r : Registry α) (p : α → Bool) : Bool :=
  r.cells.any fun cell => cell.any p

/-! ## The operations through the view -/

@[simp] theorem get?_zero (r : Registry α) : r.get? 0 = none := rfl

@[simp] theorem get?_empty (n : Nat) : (empty : Registry α).get? n = none := by
  cases n <;> simp [empty, get?]

/-- Only numbers from one to the size can hold a value. -/
theorem bounds_of_get?_eq_some {r : Registry α} {n : Nat} {a : α} (h : r.get? n = some a) :
    1 ≤ n ∧ n ≤ r.size := by
  cases n with
  | zero => simp at h
  | succ m =>
      refine ⟨by omega, ?_⟩
      simp only [get?] at h
      rcases hc : r.cells[m]? with _ | c
      · simp [hc] at h
      · have := (Array.getElem?_eq_some_iff.1 hc).1
        simp only [size]; omega

/-- A number beyond the size holds nothing. -/
theorem get?_eq_none_of_size_lt {r : Registry α} {n : Nat} (h : r.size < n) : r.get? n = none := by
  rcases hr : r.get? n with _ | a
  · rfl
  · have := bounds_of_get?_eq_some hr
    omega

@[simp] theorem size_empty : (empty : Registry α).size = 0 := rfl

@[simp] theorem size_add (r : Registry α) (a : α) : (r.add a).size = r.size + 1 := by
  simp [add, size]

@[simp] theorem size_set (r : Registry α) (n : Nat) (a : α) : (r.set n a).size = r.size := by
  simp only [set]; split <;> simp [size]

@[simp] theorem size_erase (r : Registry α) (n : Nat) : (r.erase n).size = r.size := by
  cases n <;> simp [erase, size]

/-- Entering a value fills the next number and leaves the others. -/
theorem get?_add (r : Registry α) (a : α) (n : Nat) :
    (r.add a).get? n = if n = r.size + 1 then some a else r.get? n := by
  cases n with
  | zero => simp
  | succ m =>
      simp only [get?, add, size, Array.getElem?_push]
      by_cases h : m = r.cells.size <;> simp [h]

/-- What is there after a value was entered is that value, or was there before. -/
theorem get?_add_inv {r : Registry α} {n : Nat} {a b : α} (h : (r.add a).get? n = some b) :
    (n = r.size + 1 ∧ b = a) ∨ r.get? n = some b := by
  rw [get?_add] at h
  split at h
  · rename_i hn
    exact Or.inl ⟨hn, (Option.some.inj h).symm⟩
  · exact Or.inr h

/-- No number loses its value where one is entered. -/
theorem get?_eq_none_of_add {r : Registry α} {n : Nat} {a : α} (h : (r.add a).get? n = none) :
    r.get? n = none := by
  rw [get?_add] at h
  split at h
  · cases h
  · exact h

/-- Replacing shows the new value under its number and leaves the others. -/
theorem get?_set (r : Registry α) (n : Nat) (a : α) (m : Nat) :
    (r.set n a).get? m = if m = n ∧ (r.get? n).isSome then some a else r.get? m := by
  simp only [set]
  split
  · rename_i hn
    cases n with
    | zero => simp at hn
    | succ k =>
        cases m with
        | zero => simp
        | succ j =>
            have hk : k < r.cells.size := by
              obtain ⟨b, hb⟩ := Option.isSome_iff_exists.1 hn
              have := (bounds_of_get?_eq_some hb).2
              simp only [size] at this; omega
            simp only [get?, Nat.add_sub_cancel, Array.getElem?_setIfInBounds]
            by_cases hjk : k = j
            · subst hjk; simp_all [get?]
            · simp [hjk, Ne.symm hjk]
  · rename_i hn
    simp [hn]

/-- Replacing a value that is there shows the new one under its number. -/
theorem get?_set_of_some {r : Registry α} {n : Nat} {a : α} (h : r.get? n = some a) (b : α)
    (m : Nat) : (r.set n b).get? m = if m = n then some b else r.get? m := by
  simp [get?_set, h]

/-- What is there after a value was replaced is the new one, or was there before under another
number. -/
theorem get?_set_inv {r : Registry α} {n m : Nat} {a a' b : α} (hn : r.get? n = some a)
    (h : (r.set n a').get? m = some b) : (m = n ∧ b = a') ∨ m ≠ n ∧ r.get? m = some b := by
  rw [get?_set_of_some hn] at h
  split at h
  · rename_i hmn
    exact Or.inl ⟨hmn, (Option.some.inj h).symm⟩
  · rename_i hmn
    exact Or.inr ⟨hmn, h⟩

/-- No number loses its value where one is replaced. -/
theorem get?_eq_none_of_set {r : Registry α} {n m : Nat} {a a' : α} (hn : r.get? n = some a)
    (h : (r.set n a').get? m = none) : r.get? m = none := by
  rw [get?_set_of_some hn] at h
  split at h
  · cases h
  · exact h

/-- After a value has been replaced, a number holds what it held, or it is the one in question. -/
theorem get?_set_cases {r : Registry α} {n m : Nat} {a a' b b' : α} (hn : r.get? n = some a)
    (hm : r.get? m = some b) (hm' : (r.set n a').get? m = some b') :
    (m = n ∧ b = a ∧ b' = a') ∨ b' = b := by
  rw [get?_set_of_some hn] at hm'
  split at hm'
  · rename_i hmn
    subst hmn
    exact Or.inl ⟨rfl, Option.some.inj (hm.symm.trans hn), (Option.some.inj hm').symm⟩
  · exact Or.inr (Option.some.inj (hm'.symm.trans hm))

/-- Removing empties the number and leaves the others. -/
theorem get?_erase (r : Registry α) (n m : Nat) :
    (r.erase n).get? m = if m = n then none else r.get? m := by
  cases n with
  | zero =>
      by_cases h : m = 0
      · subst h; simp [erase]
      · simp [erase, h]
  | succ k =>
      cases m with
      | zero => simp
      | succ j =>
          simp only [erase, get?, Array.getElem?_setIfInBounds]
          by_cases hjk : k = j
          · subst hjk
            by_cases hk : k < r.cells.size <;> simp [hk]
          · simp [hjk, Ne.symm hjk]

/-- What is there after a removal was there before under another number. -/
theorem get?_erase_inv {r : Registry α} {n m : Nat} {b : α} (h : (r.erase n).get? m = some b) :
    m ≠ n ∧ r.get? m = some b := by
  rw [get?_erase] at h
  split at h
  · cases h
  · rename_i hmn
    exact ⟨hmn, h⟩

/-- Only the number that is removed loses its value. -/
theorem eq_of_get?_erase {r : Registry α} {n m : Nat} {b : α} (hm : r.get? m = some b)
    (h : (r.erase n).get? m = none) : m = n := by
  rw [get?_erase] at h
  split at h
  · assumption
  · cases hm.symm.trans h

/-- A test holds of some value exactly if some number holds such a value. -/
theorem any_eq_true_iff (r : Registry α) (p : α → Bool) :
    r.any p = true ↔ ∃ n a, r.get? n = some a ∧ p a = true := by
  simp only [any, Array.any_eq_true]
  constructor
  · rintro ⟨i, hi, hp⟩
    rcases hc : r.cells[i] with _ | a
    · simp [hc] at hp
    · exact ⟨i + 1, a, by simp [get?, hi, hc], by simpa [hc] using hp⟩
  · rintro ⟨n, a, hn, ha⟩
    cases n with
    | zero => simp at hn
    | succ m =>
        simp only [get?] at hn
        rcases hc : r.cells[m]? with _ | c
        · simp [hc] at hn
        · obtain ⟨hm, hcm⟩ := Array.getElem?_eq_some_iff.1 hc
          refine ⟨m, hm, ?_⟩
          simp_all

/-! ## What tells registries apart -/

/-- Two registries that have given out as many numbers and hold the same under each are the same. -/
theorem ext_get? {r r' : Registry α} (hsize : r.size = r'.size)
    (hget : ∀ n, r.get? n = r'.get? n) : r = r' := by
  rcases r with ⟨cells⟩
  rcases r' with ⟨cells'⟩
  congr 1
  apply Array.ext_getElem?
  intro i
  by_cases hi : i < cells.size
  · have hi' : i < cells'.size := Nat.lt_of_lt_of_eq hi hsize
    have := hget (i + 1)
    simp only [get?, Array.getElem?_eq_getElem hi, Array.getElem?_eq_getElem hi',
      Option.join_some] at this
    simp [hi, hi', this]
  · have hi' : ¬ i < cells'.size := fun h => hi (Nat.lt_of_lt_of_eq h hsize.symm)
    simp [hi, hi']

/-- Replacing a value by itself changes nothing. -/
theorem set_eq_self {r : Registry α} {n : Nat} {a : α} (h : r.get? n = some a) : r.set n a = r := by
  refine ext_get? (size_set r n a) fun m => ?_
  rw [get?_set_of_some h]
  split
  · rename_i hmn
    rw [hmn, h]
  · rfl

/-- Replacing a value twice is replacing it by the last one. -/
theorem set_set (r : Registry α) (n : Nat) (a b : α) : (r.set n a).set n b = r.set n b := by
  refine ext_get? (by simp) fun m => ?_
  simp only [get?_set]
  by_cases hn : (r.get? n).isSome = true <;> by_cases hm : m = n <;> simp [hn, hm]

/-- Values under different numbers can be replaced in either order. -/
theorem set_comm (r : Registry α) {m n : Nat} (hmn : m ≠ n) (a b : α) :
    (r.set m a).set n b = (r.set n b).set m a := by
  refine ext_get? (by simp) fun k => ?_
  simp only [get?_set]
  by_cases hm : k = m <;> by_cases hn : k = n <;> simp_all [Ne.symm]

/-- A number that was handed out can be given another value before or after the next one is handed
out. -/
theorem add_set (r : Registry α) {n : Nat} (hn : n ≤ r.size) (a b : α) :
    (r.set n a).add b = (r.add b).set n a := by
  refine ext_get? (by simp) fun k => ?_
  have hlast : n ≠ r.size + 1 := by omega
  simp only [get?_add, get?_set, size_set, if_neg hlast]
  by_cases hk : k = r.size + 1
  · have hkn : k ≠ n := by omega
    simp [hk, Ne.symm hlast]
  · simp [hk]

/-! ## Changing every value -/

variable (r : Registry α) (f : Nat → α → α) (n : Nat) (a : α)

@[simp] theorem size_mapEach : (r.mapEach f).size = r.size := by
  simp [mapEach, size]

@[simp] theorem get?_mapEach : (r.mapEach f).get? n = (r.get? n).map (f n) := by
  cases n with
  | zero => rfl
  | succ n =>
      simp only [get?, mapEach, Array.getElem?_mapIdx]
      rcases r.cells[n]? with _ | cell
      · rfl
      · cases cell <;> rfl

/-- To change every value to itself is to change nothing. -/
theorem mapEach_self : (r.mapEach fun _ a => a) = r :=
  ext_get? (by simp) fun m => by simp

/-- To change all values and then replace one by a changed one is to replace it first. -/
theorem set_mapEach : (r.mapEach f).set n (f n a) = (r.set n a).mapEach f := by
  refine ext_get? (by simp) fun m => ?_
  simp only [get?_set, get?_mapEach, Option.isSome_map]
  by_cases hm : m = n ∧ (r.get? n).isSome = true
  · rw [if_pos hm, if_pos hm, hm.1]
    rfl
  · rw [if_neg hm, if_neg hm]

theorem add_mapEach : (r.mapEach f).add (f (r.size + 1) a) = (r.add a).mapEach f := by
  refine ext_get? (by simp) fun m => ?_
  simp only [get?_add, get?_mapEach, size_mapEach]
  by_cases hm : m = r.size + 1
  · rw [if_pos hm, if_pos hm, hm]
    rfl
  · rw [if_neg hm, if_neg hm]

theorem erase_mapEach : (r.mapEach f).erase n = (r.erase n).mapEach f := by
  refine ext_get? (by simp) fun m => ?_
  simp only [get?_erase, get?_mapEach]
  split <;> rfl

/-- To replace a value by one that is changed to the same makes no difference to what all are
changed to. -/
theorem mapEach_set_of_eq {r : Registry α} {f : Nat → α → α} {n : Nat} {a b : α}
    (ha : r.get? n = some a) (hf : f n b = f n a) : (r.set n b).mapEach f = r.mapEach f := by
  rw [← set_mapEach, hf, set_mapEach, set_eq_self ha]

end Registry

end RootStore
