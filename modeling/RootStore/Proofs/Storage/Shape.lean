import RootStore.Proofs.Storage.Removal

/-!
# The shape of the list

A doubly linked list can be broken without being noticed: a wrong `prev` does no harm until the
block behind it is removed.  Here it is written out what a list of blocks looks like when nothing is
broken, pointer by pointer, and that linking a block comes to putting its number in front of the
list, unlinking one, wherever it stands, to erasing its number, and everything else to leaving the
list alone.

* `Storage.Chain` — the blocks met by following `next` until there is none.
* `Storage.Shape` — **the shape**: the chain from the head, with `prev` as the inverse of `next`.
* `Storage.shape_iff_lists` — the shape says of every pointer what `Storage.Lists` says.
* `Storage.Shape.link`, `Storage.Shape.unlink` — linking is `cons`, unlinking is `erase`.
* `Storage.Shape.refined` — **what every operation does to the list.**
-/

namespace RootStore

namespace Storage

variable {s s' : Storage} {l : List Nat} {n : Nat} {c : Option Nat}

/-- Following `next` from the cursor on leads to these blocks, one after the other, and then to an
end. -/
inductive Chain (s : Storage) : Option Nat → List Nat → Prop
  /-- There is nothing to follow. -/
  | nil : s.Chain none []
  /-- There is a block, and its `next` to follow. -/
  | cons {n : Nat} {b : Block} {l : List Nat} (hb : s.blocks.get? n = some b)
      (hrest : s.Chain b.next l) : s.Chain (some n) (n :: l)

/-- **The shape of the list** that the pointers of a storage make up. -/
structure Shape (s : Storage) (l : List Nat) : Prop where
  /-- Following `next` from the head on leads along the list and to its end. -/
  chain : s.Chain s.head l
  /-- Each block is met once. -/
  nodup : l.Nodup
  /-- A neighbour of a block of the list is one itself. -/
  closed : ∀ n ∈ l, ∀ b, s.blocks.get? n = some b → ∀ m, b.next = some m ∨ b.prev = some m → m ∈ l
  /-- `prev` is the inverse of `next`. -/
  inverse : ∀ m ∈ l, ∀ n ∈ l, ∀ b c, s.blocks.get? m = some b → s.blocks.get? n = some c →
    (b.next = some n ↔ c.prev = some m)
  /-- The head, and no other block, has no `prev`. -/
  first : ∀ n ∈ l, ∀ b, s.blocks.get? n = some b → (b.prev = none ↔ s.head = some n)
  /-- The last block, and no other, has no `next`. -/
  last : ∀ n ∈ l, ∀ b, s.blocks.get? n = some b → (b.next = none ↔ l.getLast? = some n)
  /-- Blocks that were linked later stand in front. -/
  newer : l.Pairwise (· > ·)

namespace Chain

/-- A chain begins at its cursor. -/
theorem head_eq (h : s.Chain c l) : c = l.head? := by
  cases h <;> rfl

/-- Every block of a chain is there, and its `next` leads to the one behind it. -/
theorem split {l₁ l₂ : List Nat} (h : s.Chain c (l₁ ++ n :: l₂)) :
    ∃ b, s.blocks.get? n = some b ∧ b.next = l₂.head? := by
  induction l₁ generalizing c with
  | nil =>
      cases h with
      | cons hb hrest => exact ⟨_, hb, hrest.head_eq⟩
  | cons m l₁ ih =>
      cases h with
      | cons hb hrest => exact ih hrest

end Chain

namespace Lists

/-- Following `next` from a block of the list leads along the rest of it. -/
theorem chain (h : s.Lists l) : ∀ rest, rest <:+ l → s.Chain rest.head? rest := by
  intro rest
  induction rest with
  | nil => intro _; exact .nil
  | cons n rest ih =>
      rintro ⟨l₁, hl⟩
      obtain ⟨b, hb, hnext, -⟩ := h.links l₁ n rest hl.symm
      refine .cons hb ?_
      rw [hnext]
      exact ih ⟨l₁ ++ [n], by rw [← hl]; simp⟩

/-- The neighbours of a block are those in the list. -/
theorem neighbours {b : Block} (h : s.Lists l) (hn : n ∈ l) (hb : s.blocks.get? n = some b) :
    ∃ l₁ l₂, l = l₁ ++ n :: l₂ ∧ b.next = l₂.head? ∧ b.prev = l₁.getLast? := by
  obtain ⟨l₁, l₂, hl⟩ := List.append_of_mem hn
  obtain ⟨b', hb', hnext, hprev⟩ := h.links l₁ n l₂ hl
  obtain rfl := Option.some.inj (hb.symm.trans hb')
  exact ⟨l₁, l₂, hl, hnext, hprev⟩

/-- Two blocks are neighbours in one direction if they are in the other. -/
theorem next_iff_prev {m : Nat} {b d : Block} (h : s.Lists l) (hm : m ∈ l) (hn : n ∈ l)
    (hb : s.blocks.get? m = some b) (hd : s.blocks.get? n = some d) :
    b.next = some n ↔ d.prev = some m := by
  constructor
  · intro hnext
    obtain ⟨l₁, l₂, hl, hnext', -⟩ := h.neighbours hm hb
    obtain ⟨l₃, rfl⟩ := List.head?_eq_some_iff.1 (hnext'.symm.trans hnext)
    obtain ⟨d', hd', -, hprev⟩ := h.links (l₁ ++ [m]) n l₃ (by simp [hl])
    obtain rfl := Option.some.inj (hd.symm.trans hd')
    simpa using hprev
  · intro hprev
    obtain ⟨l₁, l₂, hl, -, hprev'⟩ := h.neighbours hn hd
    obtain ⟨l₀, rfl⟩ := List.getLast?_eq_some_iff.1 (hprev'.symm.trans hprev)
    obtain ⟨b', hb', hnext, -⟩ := h.links l₀ m (n :: l₂) (by simp [hl])
    obtain rfl := Option.some.inj (hb.symm.trans hb')
    simpa using hnext

/-- Pointers that spell a list have its shape. -/
theorem shape (h : s.Lists l) : s.Shape l where
  chain := by
    rw [h.head_eq]
    exact h.chain l (List.suffix_refl l)
  nodup := h.nodup
  closed := fun n hn b hb m hm => by
    obtain ⟨l₁, l₂, hl, hnext, hprev⟩ := h.neighbours hn hb
    rcases hm with hm | hm
    · have hmem : m ∈ l₂ := List.mem_of_mem_head? (hnext.symm.trans hm)
      simp [hl, hmem]
    · have hmem : m ∈ l₁ := List.mem_of_getLast? (hprev.symm.trans hm)
      simp [hl, hmem]
  inverse := fun m hm n hn b d => h.next_iff_prev hm hn
  first := fun n hn b hb => by
    obtain ⟨l₁, l₂, hl, -, hprev⟩ := h.neighbours hn hb
    rw [hprev, h.head_eq, hl, List.getLast?_eq_none_iff]
    cases l₁ with
    | nil => simp
    | cons m l₁ =>
        have hne : m ≠ n := h.ne_of_behind [] l₁ l₂ (by simp [hl])
        simp [hne]
  last := fun n hn b hb => by
    obtain ⟨l₁, l₂, hl, hnext, -⟩ := h.neighbours hn hb
    rw [hnext, hl, List.head?_eq_none_iff, List.getLast?_append, List.getLast?_cons]
    rcases List.eq_nil_or_concat l₂ with rfl | ⟨l₃, m, rfl⟩
    · simp
    · have hne : n ≠ m := h.ne_of_behind l₁ l₃ [] (by simp [hl])
      simp [Ne.symm hne]
  newer := h.sorted

end Lists

/-- **The shape says of every pointer of the list what it leads to**, and nothing less. -/
theorem shape_iff_lists : s.Shape l ↔ s.Lists l := by
  refine ⟨fun h => ⟨h.chain.head_eq, fun l₁ n l₂ hl => ?_, h.newer⟩, fun h => h.shape⟩
  have hchain := h.chain
  rw [hl] at hchain
  obtain ⟨b, hb, hnext⟩ := hchain.split
  refine ⟨b, hb, hnext, ?_⟩
  rcases List.eq_nil_or_concat l₁ with rfl | ⟨l₀, m, rfl⟩
  · -- nothing stands in front of the head
    exact (h.first n (by simp [hl]) b hb).2 (by rw [h.chain.head_eq, hl]; rfl)
  · -- the block in front leads here, so `prev` leads back to it
    rw [List.concat_eq_append, List.append_assoc] at hchain
    obtain ⟨d, hd, hd'⟩ := hchain.split
    have hback := h.inverse m (by simp [hl]) n (by simp [hl]) d b hd hb
    simpa using hback.1 hd'

/-- The list of a storage is the one that its pointers make up. -/
theorem Shape.linked_eq (h : s.Shape l) : s.linked = l :=
  (shape_iff_lists.1 h).linked_eq

theorem Sound.shape (h : s.Sound) : s.Shape s.linked :=
  h.lists.shape

/-- The blocks in memory are those of the list. -/
theorem Sound.mem_linked_iff (h : s.Sound) (n : Nat) :
    n ∈ s.linked ↔ ∃ b, s.blocks.get? n = some b :=
  ⟨fun hn => h.lists.isSome hn, fun ⟨b, hb⟩ => h.mem_linked n b hb⟩

/-! ## What the operations do to the list -/

/-- What taking an entry of a block comes to, if it succeeds. -/
theorem takeEntry_inv {p : Place} (h : s.takeEntry n = .ok (s', p)) :
    ∃ b d, s.blocks.get? n = some b ∧ b.allocateEntry = some (d, p.slot) ∧ p.block = n ∧
    s' = { s with
      blocks := s.blocks.set n d
      available := if d.isFull then s.available.tail else s.available
      allocationCount := s.allocationCount + 1 } := by
  rcases hb : s.blocks.get? n with _ | b
  · simp [Storage.takeEntry, block, hb, bind, Except.bind] at h
  · rcases halloc : b.allocateEntry with _ | ⟨d, i⟩
    · simp [Storage.takeEntry, block, hb, halloc, bind, Except.bind] at h
    · obtain ⟨rfl, rfl⟩ := Prod.mk.inj (Except.ok.inj ((takeEntry_eq hb halloc).symm.trans h))
      exact ⟨b, d, rfl, halloc, rfl, rfl⟩

/-- What reclaiming a block comes to, if it succeeds. -/
theorem reclaim_inv (h : s.reclaim n = .ok s') : ∃ b, s.blocks.get? n = some b ∧ s' = { s with
    blocks := s.blocks.erase n
    available := s.available.filter (· ≠ n)
    blockCount := s.blockCount - 1 } := by
  rcases hb : s.blocks.get? n with _ | b
  · simp [Storage.reclaim, free, block, hb, bind, Except.bind] at h
  · exact ⟨b, rfl, (Except.ok.inj ((reclaim_eq hb).symm.trans h)).symm⟩

/-- What releasing an entry comes to, if it succeeds. -/
theorem release_inv {p : Place} (h : s.release p = .ok s') :
    ∃ b, s.blocks.get? p.block = some b ∧ s' = { s with
      blocks := s.blocks.set p.block (b.releaseEntry p.slot).1
      available := if b.isFull then s.available ++ [p.block] else s.available
      allocationCount := s.allocationCount - 1 } := by
  rcases hb : s.blocks.get? p.block with _ | b
  · simp [Storage.release, block, hb, bind, Except.bind] at h
  · by_cases howner : b.owner = s.id
    · simp only [Storage.release, block, hb, howner, bind, Except.bind, ne_eq, not_true_eq_false,
        if_false] at h
      exact ⟨b, rfl, (Except.ok.inj h).symm⟩
    · simp [Storage.release, block, hb, howner, bind, Except.bind, throw, throwThe,
        MonadExceptOf.throw] at h

namespace Shape

/-- **Linking a block is `cons`**: its number, which no block has had before, comes to stand in
front. -/
theorem link (h : s.Shape l) : ∃ s', s.link = .ok (s', s.blocks.size + 1) ∧
    s.blocks.get? (s.blocks.size + 1) = none ∧ s'.Shape ((s.blocks.size + 1) :: l) := by
  have hlists := shape_iff_lists.1 h
  obtain ⟨blocks, hlink, -, hget⟩ := hlists.link_eq
  have hbelow : ∀ m ∈ l, m < s.blocks.size + 1 := fun m hm =>
    Nat.lt_succ_of_le (hlists.bounds hm).2
  refine ⟨_, hlink, Registry.get?_eq_none_of_size_lt (Nat.lt_succ_self _), ?_⟩
  refine shape_iff_lists.2 (hlists.cons rfl hbelow ((hget _).trans (if_pos rfl)) rfl rfl
    fun m hm d hd => ?_)
  rw [hget, if_neg (Nat.ne_of_lt (hbelow m hm)), hd]
  rfl

/-- **Unlinking a block is `erase`**, whether it is the head, the last one, one in between or the
only one. -/
theorem unlink (h : s.Shape l) (hn : n ∈ l) :
    ∃ s', s.unlink n = .ok s' ∧ s'.Shape (l.erase n) := by
  have hlists := shape_iff_lists.1 h
  obtain ⟨l₁, l₂, -, hl, herase⟩ := List.exists_erase_eq hn
  rw [hl] at hlists
  obtain ⟨blocks, hunlink, -, hget⟩ := hlists.unlink_eq
  refine ⟨_, hunlink, ?_⟩
  rw [herase]
  refine shape_iff_lists.2 (hlists.erase rfl fun m hm d hd => ?_)
  rw [hget, hd]
  rfl

/-- Replacing a block by one with the same neighbours leaves the list alone. -/
theorem set {b d : Block} (h : s.Shape l) (hb : s.blocks.get? n = some b)
    (hnext : d.next = b.next) (hprev : d.prev = b.prev)
    (hblocks : s'.blocks = s.blocks.set n d) (hhead : s'.head = s.head) : s'.Shape l :=
  ((shape_iff_lists.1 h).set hb hnext hprev hblocks hhead).shape

/-- Freeing a block that is not in the list leaves the list alone. -/
theorem reclaim (h : s.Shape l) (hn : n ∉ l) (hreclaim : s.reclaim n = .ok s') : s'.Shape l := by
  obtain ⟨b, hb, rfl⟩ := reclaim_inv hreclaim
  refine shape_iff_lists.2 ((shape_iff_lists.1 h).congr rfl fun m hm d hd => ⟨d, ?_, rfl, rfl⟩)
  have hmn : m ≠ n := fun heq => hn (heq ▸ hm)
  rw [Registry.get?_erase, if_neg hmn, hd]

/-- Taking an entry of a block leaves the list alone. -/
theorem takeEntry {p : Place} (h : s.Shape l) (htake : s.takeEntry n = .ok (s', p)) :
    s'.Shape l := by
  obtain ⟨b, d, hb, halloc, -, rfl⟩ := takeEntry_inv htake
  obtain ⟨-, -, hd⟩ := Block.allocateEntry_eq_some halloc
  exact h.set hb (by rw [hd]) (by rw [hd]) rfl rfl

/-- Releasing an entry leaves the list alone. -/
theorem release {p : Place} (h : s.Shape l) (hrelease : s.release p = .ok s') : s'.Shape l := by
  obtain ⟨b, hb, rfl⟩ := release_inv hrelease
  exact h.set hb (d := (b.releaseEntry p.slot).1) rfl rfl rfl rfl

/-- Writing a slot leaves the list alone. -/
theorem store {p : Place} {v : Option Reference} (h : s.Shape l) (hstore : s.store p v = .ok s') :
    s'.Shape l := by
  rcases hb : s.blocks.get? p.block with _ | b
  · simp [Storage.store, updateBlock, block, hb, bind, Except.bind] at hstore
  · obtain rfl := Except.ok.inj ((updateBlock_eq hb _).symm.trans hstore)
    exact h.set hb (d := b.store p.slot v) rfl rfl rfl rfl

end Shape

/-- **What the operations on blocks do to a list of this shape.** -/
structure Refined (s : Storage) (l : List Nat) : Prop where
  /-- Linking a block puts its number in front, and no block has had it before. -/
  link : ∃ s', s.link = .ok (s', s.blocks.size + 1) ∧
    s.blocks.get? (s.blocks.size + 1) = none ∧ s'.Shape ((s.blocks.size + 1) :: l)
  /-- Unlinking a block takes its number out, wherever it stands. -/
  unlink : ∀ n ∈ l, ∃ s', s.unlink n = .ok s' ∧ s'.Shape (l.erase n)
  /-- Freeing a block that was unlinked does nothing to the list. -/
  reclaim : ∀ n s', n ∉ l → s.reclaim n = .ok s' → s'.Shape l
  /-- Taking an entry of a block does nothing to it. -/
  takeEntry : ∀ n s' p, s.takeEntry n = .ok (s', p) → s'.Shape l
  /-- Releasing an entry does nothing to it. -/
  release : ∀ p s', s.release p = .ok s' → s'.Shape l
  /-- Writing a slot does nothing to it. -/
  store : ∀ p v s', s.store p v = .ok s' → s'.Shape l

/-- **A list of the right shape is refined by every operation.** -/
theorem Shape.refined (h : s.Shape l) : s.Refined l where
  link := h.link
  unlink := fun _ => h.unlink
  reclaim := fun _ _ => h.reclaim
  takeEntry := fun _ _ _ => h.takeEntry
  release := fun _ _ => h.release
  store := fun _ _ _ => h.store

end Storage

end RootStore
