import Mathlib
import RootStore.Proofs.Block.Run

/-!
# A block as a finite set of entries

What a block stands for is a set of indices with a content at each of them.  On such a set the
operations of a block are plain: the least index outside of it is handed out, an index is taken
back, a content is replaced.  The block does the same on its word of bits and its sixty-four slots.

* `Entries`, `Entries.held` — contents by index, and the set of indices that have one.
* `Entries.perform` — the operations on such a set.
* `Block.entries` — what a block stands for.
* `Block.entries_perform` — one operation of a block is the same operation on what it stands for.
* `Mask.ctz_dropLowest_iterate` — the word of a scan, turn by turn: each count of zeros is an index.
* `Block.stands_for_entries` — **a block refines a finite set of indices with contents.**
-/

namespace RootStore

/-- The contents of the entries that are handed out, by index; an index that is not handed out has
none. -/
abbrev Entries := SlotIndex → Option (Option Reference)

namespace Entries

/-- Nothing is handed out. -/
def nothing : Entries := fun _ => none

/-- The indices that are handed out. -/
def held (e : Entries) : Finset SlotIndex := Finset.univ.filter fun i => (e i).isSome = true

theorem mem_held {e : Entries} {i : SlotIndex} : i ∈ e.held ↔ (e i).isSome = true := by
  simp [held]

/-- A set that has sixty-four of the sixty-four indices has them all. -/
theorem card_held_eq_iff {e : Entries} : e.held.card = 64 ↔ ∀ i, i ∈ e.held := by
  have hall : Fintype.card SlotIndex = 64 := Fintype.card_fin 64
  rw [← hall, Finset.card_eq_iff_eq_univ, Finset.eq_univ_iff_forall]

/-- One operation on a set of entries, with its answer: the least index outside of the set is handed
out, holding null; a compare and exchange looks at the content that the entry has. -/
def perform (e : Entries) : Block.Op → Entries × Block.Answer
  | .allocate =>
      if h : (e.heldᶜ).Nonempty then
        (Function.update e ((e.heldᶜ).min' h) (some none), .handedOut ((e.heldᶜ).min' h))
      else (e, .noneFree)
  | .release i => (Function.update e i none, .released (e.held.card = 64))
  | .store i v => (Function.update e i (some v), .stored)
  | .exchange i expected new =>
      let outcome := RootStore.exchange (e i).join expected new
      (Function.update e i (some outcome.1), .exchanged outcome.2)

/-- The steps that some operations make, one after the other. -/
def trail (e : Entries) : List Block.Op → List Block.Step
  | [] => []
  | op :: ops => ⟨op, (e.perform op).2⟩ :: trail (e.perform op).1 ops

/-- What some operations leave, one after the other. -/
def afterAll (e : Entries) : List Block.Op → Entries
  | [] => e
  | op :: ops => afterAll (e.perform op).1 ops

theorem trail_append (ops ops' : List Block.Op) (e : Entries) :
    e.trail (ops ++ ops') = e.trail ops ++ (e.afterAll ops).trail ops' := by
  induction ops generalizing e with
  | nil => rfl
  | cons op ops ih => simp [trail, afterAll, ih]

theorem afterAll_append (ops ops' : List Block.Op) (e : Entries) :
    e.afterAll (ops ++ ops') = (e.afterAll ops).afterAll ops' := by
  induction ops generalizing e with
  | nil => rfl
  | cons op ops ih => simp [afterAll, ih]

/-- The least index outside of the set is what an allocation hands out. -/
theorem perform_allocate {e : Entries} {i : SlotIndex}
    (hleast : IsLeast {j | j ∉ e.held} i) :
    e.perform .allocate = (Function.update e i (some none), .handedOut i) := by
  have hsome : (e.heldᶜ).Nonempty := ⟨i, Finset.mem_compl.2 hleast.1⟩
  have hmin : (e.heldᶜ).min' hsome = i := by
    have hset : IsLeast ((e.heldᶜ : Finset SlotIndex) : Set SlotIndex) i := by
      simpa [IsLeast, lowerBounds] using hleast
    exact (Finset.isLeast_min' _ hsome).unique hset
  simp only [perform, hsome, ↓reduceDIte, hmin]

/-- Where everything is handed out, nothing more is. -/
theorem perform_allocate_full {e : Entries} (hall : ∀ i, i ∈ e.held) :
    e.perform .allocate = (e, .noneFree) := by
  have hnone : ¬ (e.heldᶜ).Nonempty := by
    rintro ⟨i, hi⟩
    exact Finset.mem_compl.1 hi (hall i)
  simp only [perform, hnone, ↓reduceDIte]

end Entries

namespace Block

variable {b c : Block} {steps : List Step}

/-- **What a block stands for**: its slots in use, with what they hold. -/
def entries (b : Block) : Entries := fun i => if b.inUse i = true then some (b.load i) else none

/-- The slots that are not in use hold null. -/
def FreeAreNull (b : Block) : Prop := ∀ i, b.inUse i = false → b.load i = none

theorem mem_held_entries {i : SlotIndex} : i ∈ b.entries.held ↔ b.inUse i = true := by
  by_cases h : b.inUse i = true <;> simp [Entries.mem_held, entries, h]

theorem join_entries (hnull : b.FreeAreNull) (i : SlotIndex) : (b.entries i).join = b.load i := by
  by_cases h : b.inUse i = true
  · simp [entries, h]
  · simp [entries, h, hnull i (by simpa using h)]

/-- A block is full exactly where sixty-four entries are handed out. -/
theorem isFull_iff_card : b.isFull = true ↔ b.entries.held.card = 64 := by
  rw [Entries.card_held_eq_iff, isFull_iff]
  simp only [mem_held_entries]

/-- A block is empty exactly where no entry is handed out. -/
theorem isEmpty_iff_held : b.isEmpty = true ↔ b.entries.held = ∅ := by
  simp only [isEmpty_iff, Finset.eq_empty_iff_forall_notMem, mem_held_entries, Bool.not_eq_true]

theorem entries_fresh (owner : Nat) : (fresh owner).entries = .nothing := by
  funext i
  simp [entries, fresh, inUse, Entries.nothing]

/-! ## One operation -/

/-- The free index that comes before all other free ones. -/
theorem isLeast_free {i : SlotIndex} (hfree : b.inUse i = false)
    (hbelow : ∀ j, j < i → b.inUse j = true) : IsLeast {j | j ∉ b.entries.held} i := by
  refine ⟨by simp [mem_held_entries, hfree], fun j hj => ?_⟩
  by_contra hlt
  exact hj (mem_held_entries.2 (hbelow j (not_le.1 hlt)))

theorem inUse_insert {i j : SlotIndex} :
    ({ b with mask := b.mask.insert i } : Block).inUse j = (b.inUse j || decide (j = i)) := by
  simp [inUse]

theorem inUse_store {i j : SlotIndex} {v : Option Reference} :
    (b.store i v).inUse j = b.inUse j := rfl

/-- A slot that comes into use holds null, as it did before. -/
theorem entries_insert (hnull : b.FreeAreNull) {i : SlotIndex} (hfree : b.inUse i = false) :
    ({ b with mask := b.mask.insert i } : Block).entries =
      Function.update b.entries i (some none) := by
  funext j
  by_cases h : j = i
  · subst h
    have hload : ({ b with mask := b.mask.insert j } : Block).load j = none := hnull j hfree
    simp only [entries, inUse_insert, hload, decide_true, Bool.or_true, ↓reduceIte,
      Function.update_self]
  · simp only [entries, inUse_insert, h, decide_false, Bool.or_false, Function.update_of_ne h]
    rfl

theorem entries_releaseEntry (i : SlotIndex) :
    (b.releaseEntry i).1.entries = Function.update b.entries i none := by
  funext j
  by_cases h : j = i
  · subst h
    simp [entries]
  · simp [entries, h]

theorem entries_store {i : SlotIndex} (huse : b.inUse i = true) (v : Option Reference) :
    (b.store i v).entries = Function.update b.entries i (some v) := by
  funext j
  by_cases h : j = i
  · subst h
    simp [entries, inUse_store, huse, load_store]
  · simp [entries, inUse_store, h, load_store]

/-- No operation leaves a value in a slot that is not in use. -/
theorem FreeAreNull.perform (hnull : b.FreeAreNull) {op : Op} (hp : op.Permitted ∅ b) :
    (b.perform op).1.FreeAreNull := by
  have written : ∀ i v, b.inUse i = true → (b.store i v).FreeAreNull := by
    intro i v huse j hj
    have hne : j ≠ i := by
      rintro rfl
      simp [inUse_store, huse] at hj
    rw [load_store, if_neg hne]
    exact hnull j hj
  obtain ⟨i, rfl, -, -, he⟩ | ⟨rfl, -, he⟩ | ⟨i, rfl, he⟩ | ⟨i, v, rfl, he⟩ |
    ⟨i, expected, new, rfl, he⟩ := b.perform_cases op
  · intro j hj
    simp only [he, inUse_insert, Bool.or_eq_false_iff] at hj
    rw [he]
    exact hnull j hj.1
  · rw [he]
    exact hnull
  · intro j hj
    rw [he] at hj ⊢
    rw [load_releaseEntry]
    split
    · rfl
    · rename_i hne
      exact hnull j (by simpa [hne] using hj)
  · rw [he]
    exact written i v (hp.resolve_right (Set.notMem_empty i))
  · rw [he]
    exact written i _ (hp.resolve_right (Set.notMem_empty i))

/-- **One operation of a block** is the same operation on what it stands for, with the same
answer. -/
theorem entries_perform (hnull : b.FreeAreNull) {op : Op} (hp : op.Permitted ∅ b) :
    b.entries.perform op = ((b.perform op).1.entries, (b.perform op).2) := by
  obtain ⟨i, rfl, hfree, hbelow, he⟩ | ⟨rfl, hfull, he⟩ | ⟨i, rfl, he⟩ | ⟨i, v, rfl, he⟩ |
    ⟨i, expected, new, rfl, he⟩ := b.perform_cases op
  · rw [he, Entries.perform_allocate (isLeast_free hfree hbelow), entries_insert hnull hfree]
  · have hall : ∀ i, i ∈ b.entries.held := fun i => mem_held_entries.2 (isFull_iff.1 hfull i)
    rw [he, Entries.perform_allocate_full hall]
  · have hcount : decide (b.entries.held.card = 64) = b.isFull := by
      rw [Bool.eq_iff_iff, decide_eq_true_iff, isFull_iff_card]
    rw [he, entries_releaseEntry]
    simp only [Entries.perform, hcount]
  · have huse : b.inUse i = true := hp.resolve_right (Set.notMem_empty i)
    rw [he, entries_store huse]
    rfl
  · have huse : b.inUse i = true := hp.resolve_right (Set.notMem_empty i)
    rw [he, entries_store huse]
    simp only [Entries.perform, join_entries hnull]

/-! ## A run -/

/-- Along a run free slots hold null. -/
theorem Run.freeAreNull (h : Run ∅ b steps c) (hnull : b.FreeAreNull) : c.FreeAreNull := by
  induction h with
  | nil => exact hnull
  | snoc op _ hp ih => exact ih.perform hp

/-- **A run of a block** is the run of the same operations on what it stands for, with the same
answers. -/
theorem Run.entries_eq (h : Run ∅ b steps c) (hnull : b.FreeAreNull) :
    steps = b.entries.trail (steps.map (·.op)) ∧
      c.entries = b.entries.afterAll (steps.map (·.op)) := by
  induction h with
  | nil => exact ⟨rfl, rfl⟩
  | @snoc c steps op hrun hp ih =>
      obtain ⟨hsteps, hafter⟩ := ih
      have hone := entries_perform (hrun.freeAreNull hnull) hp
      rw [List.map_append, Entries.trail_append, Entries.afterAll_append, ← hafter, ← hsteps]
      simp [Entries.trail, Entries.afterAll, hone]

/-- An index that was handed out and not taken back since. -/
def HandedOut (steps : List Step) (i : SlotIndex) : Prop :=
  ∃ earlier later, steps = earlier ++ ⟨.allocate, .handedOut i⟩ :: later ∧
    ∀ st ∈ later, st.op ≠ .release i

/-- After a step the indices handed out are those of before, but for the one taken back, and the one
that the step hands out. -/
theorem handedOut_append_singleton {i : SlotIndex} {st : Step} :
    HandedOut (steps ++ [st]) i ↔
      st = ⟨.allocate, .handedOut i⟩ ∨ HandedOut steps i ∧ st.op ≠ .release i := by
  constructor
  · rintro ⟨earlier, later, hsplit, hkept⟩
    rcases split_snoc hsplit with ⟨rfl, rfl, rfl⟩ | ⟨later, rfl, rfl⟩
    · exact .inl rfl
    · exact .inr ⟨⟨earlier, later, rfl, fun st' h => hkept st' (by simp [h])⟩, hkept st (by simp)⟩
  · rintro (rfl | ⟨⟨earlier, later, rfl, hkept⟩, hst⟩)
    · exact ⟨steps, [], rfl, by simp⟩
    · refine ⟨earlier, later ++ [st], by simp, fun st' h => ?_⟩
      rcases List.mem_append.1 h with h | h
      · exact hkept st' h
      · rwa [List.mem_singleton.1 h]

/-- What one operation does to the slots in use: it puts the one in use that it hands out, and takes
the one out of use that is given back. -/
theorem inUse_perform (b : Block) (op : Op) (i : SlotIndex) :
    (b.perform op).1.inUse i = true ↔
      (⟨op, (b.perform op).2⟩ : Step) = ⟨.allocate, .handedOut i⟩ ∨
        b.inUse i = true ∧ op ≠ .release i := by
  obtain ⟨j, rfl, -, -, he⟩ | ⟨rfl, -, he⟩ | ⟨j, rfl, he⟩ | ⟨j, v, rfl, he⟩ |
    ⟨j, expected, new, rfl, he⟩ := b.perform_cases op
  · rw [he, inUse_insert]
    by_cases h : i = j
    · simp [h]
    · simp [h, Ne.symm h]
  · rw [he]
    simp
  · rw [he, inUse_releaseEntry]
    by_cases h : i = j
    · simp [h]
    · simp [h, Ne.symm h]
  · rw [he, inUse_store]
    simp
  · rw [he, inUse_store]
    simp

/-- **The slots in use** of a block that began with none are those handed out and not taken back
since. -/
theorem Run.inUse_iff {hand : Set SlotIndex} (h : Run hand b steps c)
    (hnone : ∀ i, b.inUse i = false) (i : SlotIndex) : c.inUse i = true ↔ HandedOut steps i := by
  induction h with
  | nil => simp [hnone i, HandedOut]
  | @snoc c steps op hrun hp ih =>
      rw [inUse_perform, handedOut_append_singleton, ih]

end Block

namespace Mask

/-! ## Counts of zeros and shifts -/

/-- The shift by an index does not go beyond the word. -/
theorem toNat_bit (i : SlotIndex) : (bit i).toNat = 2 ^ i.val := by
  have hlt : 2 ^ i.val < 2 ^ 64 := Nat.pow_lt_pow_right (by decide) i.isLt
  rw [bit, BitVec.toNat_shiftLeft, BitVec.toNat_one (by decide), Nat.one_shiftLeft,
    Nat.mod_eq_of_lt hlt]

/-- The count of zeros of a word other than zero is the lowest index in use. -/
theorem ctz_of_lowest? {m : Mask} {i : SlotIndex} (h : m.lowest? = some i) :
    m.bits ≠ 0 ∧ m.bits.ctz.toNat = i.val := by
  simp only [lowest?] at h
  split at h
  · cases h
  · rename_i hne
    obtain rfl := Option.some.inj h
    exact ⟨hne, rfl⟩

/-- After `k` turns of a scan the word holds all of the snapshot but its `k` lowest indices. -/
theorem indices_dropLowest_iterate (m : Mask) (k : Nat) :
    (dropLowest^[k] m).indices = m.indices.drop k := by
  induction k generalizing m with
  | zero => rfl
  | succ k ih =>
      rw [Function.iterate_succ_apply, ih]
      rcases h : m.lowest? with _ | i
      · obtain rfl := lowest?_eq_none_iff.1 h
        have hempty : empty.dropLowest = empty := by decide
        simp [hempty]
      · rw [indices_eq_cons h, List.drop_succ_cons]

/-- **Turn by turn the count of zeros is an index of the snapshot**, and the word it is taken of is
not zero. -/
theorem ctz_dropLowest_iterate {m : Mask} {k : Nat} {i : SlotIndex} (h : m.indices[k]? = some i) :
    (dropLowest^[k] m).bits ≠ 0 ∧ (dropLowest^[k] m).bits.ctz.toNat = i.val := by
  refine ctz_of_lowest? ?_
  have hdrop := m.indices_dropLowest_iterate k
  rw [List.drop_eq_getElem?_toList_append, h] at hdrop
  rcases hlow : (dropLowest^[k] m).lowest? with _ | j
  · obtain hempty := lowest?_eq_none_iff.1 hlow
    simp [hempty] at hdrop
  · rw [indices_eq_cons hlow] at hdrop
    simp only [Option.toList_some, List.singleton_append, List.cons.injEq] at hdrop
    rw [hdrop.1]

end Mask

namespace Block

variable {b : Block} {steps : List Step}

/-! ## The refinement -/

/-- **A block, after some steps, stands for a set of indices with contents**: those handed out and
not taken back since. -/
structure StandsFor (owner : Nat) (steps : List Step) (b : Block) : Prop where
  /-- Every answer is the one that the set gives, and what the block stands for is what the set
  comes to. -/
  refines : steps = Entries.nothing.trail (steps.map (·.op)) ∧
    b.entries = Entries.nothing.afterAll (steps.map (·.op))
  /-- The mask is exactly the set. -/
  mask : ∀ i, b.mask.contains i = true ↔ HandedOut steps i
  /-- So are the indices that have a content. -/
  held : ∀ i, i ∈ b.entries.held ↔ HandedOut steps i
  /-- An index outside of the set holds null. -/
  free : ∀ i, ¬ HandedOut steps i → b.load i = none
  /-- There is nothing to hand out exactly when all sixty-four indices are in the set. -/
  noneFree : b.allocateEntry = none ↔ b.entries.held.card = 64
  /-- What is handed out is the least index outside of the set, found by the count of zeros; it
  holds null, it alone joins the set, and no content changes. -/
  allocate : ∀ c i, b.allocateEntry = some (c, i) →
    IsLeast {j | ¬ HandedOut steps j} i ∧ (~~~b.mask.bits).ctz.toNat = i.val ∧ c.load i = none ∧
      c.entries.held = insert i b.entries.held ∧ c.load = b.load
  /-- Taking an entry back removes exactly that index, nulls exactly that slot, and tells whether
  the set had all sixty-four. -/
  release : ∀ i, HandedOut steps i →
    (b.releaseEntry i).1.entries.held = b.entries.held.erase i ∧
      (∀ j, (b.releaseEntry i).1.load j = if j = i then none else b.load j) ∧
      ((b.releaseEntry i).2 = true ↔ b.entries.held.card = 64)
  /-- The block is empty where the set is. -/
  isEmpty : b.isEmpty = true ↔ b.entries.held = ∅
  /-- The block is full where the set has all sixty-four. -/
  isFull : b.isFull = true ↔ b.entries.held.card = 64
  /-- The bit of an index stays in the word. -/
  shift : ∀ i, (Mask.bit i).toNat = 2 ^ i.val
  /-- A scan has a turn for each index of the set, lowest first; before each turn the word is not
  zero and its count of zeros is that index, and after the last turn the word is zero. -/
  turns : b.mask.indices.toFinset = b.entries.held ∧ b.mask.indices.Pairwise (· < ·) ∧
    (∀ (k : Nat) (i : SlotIndex), b.mask.indices[k]? = some i →
      (Mask.dropLowest^[k] b.mask).bits ≠ 0 ∧ (Mask.dropLowest^[k] b.mask).bits.ctz.toNat = i.val) ∧
    Mask.dropLowest^[b.entries.held.card] b.mask = .empty
  /-- A scan, whatever operations its visitor performs in the calls that it makes on entries that
  are then handed out, goes on with the sequence of operations: it leaves a block after some more
  steps, and so does it hand one to its visitor each time. -/
  scan : ∀ (σ : Type) (visit : Visitor σ) (s : σ), Operates (b.visits visit s) (fun _ => ∅) →
    (∃ more, Run ∅ (fresh owner) (steps ++ more) (b.scan visit s).1) ∧
      ∀ v ∈ b.visits visit s, ∃ more, Run ∅ (fresh owner) (steps ++ more) v.before

/-- The indices of a block's mask are the set that it stands for. -/
theorem toFinset_indices (b : Block) : b.mask.indices.toFinset = b.entries.held := by
  ext i
  rw [List.mem_toFinset, Mask.mem_indices, mem_held_entries, inUse]

/-- Calls with nothing in hand take a run from nothing further. -/
theorem Run.scan {owner : Nat} (hrun : Run ∅ (fresh owner) steps b) {σ : Type} {visit : Visitor σ}
    {s t : σ} {visits : List (Visit σ)} {c : Block} (hvisits : Operates visits fun _ => ∅)
    (h : Threaded visit b s visits c t) : ∃ more, Run ∅ (fresh owner) (steps ++ more) c := by
  obtain ⟨more, hmore⟩ := run_of_threaded hvisits h
  have hempty : inHand (fun _ => ∅) visits ⊆ ∅ := by
    rintro j ⟨v, -, hj⟩
    exact hj
  exact ⟨more, hrun.append (hmore.mono hempty)⟩

/-- **A block refines a finite set of indices with contents**, in every sequence of operations on a
fresh block, scans and the scans of their visitors included. -/
theorem stands_for_entries (owner : Nat) (steps : List Step) (b : Block)
    (hrun : Run ∅ (fresh owner) steps b) : StandsFor owner steps b := by
  have hfresh : (fresh owner).FreeAreNull := fun i _ => load_fresh owner i
  have hnull : b.FreeAreNull := hrun.freeAreNull hfresh
  have hinUse : ∀ i, b.inUse i = true ↔ HandedOut steps i :=
    hrun.inUse_iff fun i => by simp [inUse, fresh]
  have hfreeIff : ∀ i, ¬ HandedOut steps i ↔ b.inUse i = false := fun i => by
    rw [← hinUse i, Bool.not_eq_true]
  have hnodup : b.mask.indices.Nodup :=
    (b.mask.pairwise_indices).imp fun hlt => ne_of_lt hlt
  exact {
    refines := by simpa only [entries_fresh] using hrun.entries_eq hfresh
    mask := hinUse
    held := fun i => mem_held_entries.trans (hinUse i)
    free := fun i hi => hnull i ((hfreeIff i).1 hi)
    noneFree := by rw [allocateEntry_eq_none_iff, isFull_iff_card]
    allocate := by
      intro c i h
      obtain ⟨hfree, hbelow, rfl⟩ := allocateEntry_eq_some h
      have hsearch : b.mask.lowestFree? = some i := Mask.lowestFree?_eq_some_iff.2 ⟨hfree, hbelow⟩
      have hleast : IsLeast {j | ¬ HandedOut steps j} i := by
        simpa only [mem_held_entries, hinUse] using isLeast_free hfree hbelow
      refine ⟨hleast, (Mask.ctz_of_lowest? hsearch).2, hnull i hfree, ?_, rfl⟩
      ext j
      rw [mem_held_entries, inUse_insert, Finset.mem_insert, mem_held_entries, Bool.or_eq_true,
        decide_eq_true_iff, or_comm]
    release := by
      intro i _
      refine ⟨?_, load_releaseEntry b i, isFull_iff_card⟩
      ext j
      rw [mem_held_entries, inUse_releaseEntry, Finset.mem_erase, mem_held_entries,
        Bool.and_eq_true, decide_eq_true_iff, and_comm]
    isEmpty := isEmpty_iff_held
    isFull := isFull_iff_card
    shift := Mask.toNat_bit
    turns := by
      refine ⟨b.toFinset_indices, b.mask.pairwise_indices,
        fun k i => Mask.ctz_dropLowest_iterate, ?_⟩
      have hcard : b.entries.held.card = b.mask.indices.length := by
        rw [← b.toFinset_indices, List.toFinset_card_of_nodup hnodup]
      have hdone := b.mask.indices_dropLowest_iterate b.entries.held.card
      rw [hcard, List.drop_length] at hdone
      rw [hcard, Mask.eq_empty_iff]
      intro i
      rw [← Bool.not_eq_true, ← Mask.mem_indices, hdone]
      exact List.not_mem_nil
    scan := by
      intro σ visit s hvisits
      have hthread := b.threaded_visits visit s
      refine ⟨hrun.scan hvisits hthread, fun v hv => ?_⟩
      obtain ⟨earlier, later, hsplit⟩ := List.append_of_mem hv
      rw [hsplit] at hthread
      have hearlier : Operates earlier fun _ => ∅ := fun u hu => hvisits u (by simp [hsplit, hu])
      exact hrun.scan hearlier hthread.up_to }

/-- A sequence in which an entry is handed out, written, taken back and handed out again. -/
theorem stands_for_entries_reused :
    ∃ steps b, Run ∅ (fresh 7) steps b ∧
      steps.map (·.answer) = [.handedOut 0, .stored, .handedOut 1, .released false, .handedOut 0] ∧
      StandsFor 7 steps b := by
  have hrun : Run ∅ (fresh 7) _ _ :=
    .cons .allocate trivial (.cons (.store 0 (Reference.ofWord? 5)) (.inl (by decide +kernel))
      (.cons .allocate trivial (.cons (.release 0) (by unfold Op.Permitted; decide +kernel)
        (.cons .allocate trivial .nil))))
  exact ⟨_, _, hrun, by decide +kernel, stands_for_entries 7 _ _ hrun⟩

end Block

end RootStore
