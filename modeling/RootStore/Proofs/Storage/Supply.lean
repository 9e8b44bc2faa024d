import RootStore.Block.Scan
import RootStore.Proofs.Storage.Balance
import RootStore.Proofs.Storage.Shape

/-!
# The entries still to be handed out

Which entries a storage will hand out before it has to grow, and in which order, can be read off its
queue: the free slots of the block in front, lowest first, then those of the next one.  An
allocation takes the first of them and leaves the others, in order.

* `Block.freeSlots` — the free slots of a block, in ascending order.
* `Storage.supply` — **the free entries in the order in which they are handed out.**
* `Storage.Sound.mem_supply`, `Storage.Sound.nodup_supply` — each free entry of a linked block,
  once.
* `Storage.Sound.allocate_of_supply` — an allocation takes the first one.
* `Storage.Sound.supply_release` — a release adds one.
* `Storage.Balanced.length_supply` — how many there are.
-/

namespace RootStore

/-! ## One block -/

namespace Mask

variable {m : Mask} {i : SlotIndex}

/-- The slots that are not in use. -/
def free (m : Mask) : Mask := ⟨~~~m.bits⟩

@[simp] theorem contains_free (m : Mask) (i : SlotIndex) : m.free.contains i = !m.contains i :=
  contains_not m.bits i

/-- Putting the lowest free slot in use drops it from the free ones. -/
theorem dropLowest_free (h : m.lowestFree? = some i) : m.free.dropLowest = (m.insert i).free := by
  have h' : m.free.lowest? = some i := h
  refine ext_contains fun j => ?_
  rw [Bool.eq_iff_iff, contains_dropLowest h']
  by_cases hj : j = i <;> simp [hj]

end Mask

namespace Block

variable {b d : Block} {i : SlotIndex}

/-- The free slots, in ascending order. -/
def freeSlots (b : Block) : List SlotIndex := (List.finRange 64).filter fun i => !b.inUse i

theorem freeSlots_eq_indices (b : Block) : b.freeSlots = b.mask.free.indices :=
  List.filter_congr fun i _ => by simp [inUse]

@[simp] theorem mem_freeSlots : i ∈ b.freeSlots ↔ b.inUse i = false := by simp [freeSlots]

theorem nodup_freeSlots (b : Block) : b.freeSlots.Nodup := (List.nodup_finRange 64).filter _

theorem freeSlots_eq_nil_iff : b.freeSlots = [] ↔ b.isFull = true := by
  rw [isFull_iff, List.eq_nil_iff_forall_not_mem]
  simp

/-- **An allocation takes the first free slot** and leaves the others. -/
theorem freeSlots_eq_cons (h : b.allocateEntry = some (d, i)) : b.freeSlots = i :: d.freeSlots := by
  simp only [allocateEntry, Option.map_eq_some_iff, Prod.mk.injEq] at h
  obtain ⟨j, hj, rfl, rfl⟩ := h
  rw [freeSlots_eq_indices, freeSlots_eq_indices, Mask.indices_eq_cons (m := b.mask.free) hj,
    Mask.dropLowest_free hj]

/-- What is not free is in use. -/
theorem length_freeSlots (b : Block) : b.freeSlots.length + b.used = blockSize := by
  have hall := List.length_eq_length_filter_add (l := List.finRange 64) b.inUse
  rw [List.length_finRange] at hall
  change _ = b.used + b.freeSlots.length at hall
  rw [blockSize, hall, Nat.add_comm]

end Block

namespace Storage

variable {s s' : Storage} {n : Nat} {b d : Block} {p : Place} {i : SlotIndex} {rest : List Place}

/-! ## All blocks -/

/-- The free entries of the block under a number, lowest first. -/
def freeAt (s : Storage) (n : Nat) : List Place :=
  ((s.blocks.get? n).map Block.freeSlots).getD [] |>.map fun i => ⟨n, i⟩

/-- **The free entries in the order in which they are handed out**: those of the block in front of
the queue, lowest first, and so on. -/
def supply (s : Storage) : List Place := s.available.flatMap s.freeAt

theorem freeAt_of_some (hb : s.blocks.get? n = some b) :
    s.freeAt n = b.freeSlots.map fun i => ⟨n, i⟩ := by
  simp [freeAt, hb]

theorem block_of_mem_freeAt (hp : p ∈ s.freeAt n) : p.block = n := by
  obtain ⟨i, -, rfl⟩ := List.mem_map.1 hp
  rfl

theorem mem_freeAt (hb : s.blocks.get? n = some b) :
    p ∈ s.freeAt n ↔ p.block = n ∧ b.inUse p.slot = false := by
  rw [freeAt_of_some hb, List.mem_map]
  constructor
  · rintro ⟨i, hi, rfl⟩
    exact ⟨rfl, Block.mem_freeSlots.1 hi⟩
  · rintro ⟨rfl, hi⟩
    exact ⟨p.slot, Block.mem_freeSlots.2 hi, rfl⟩

theorem nodup_freeAt (s : Storage) (n : Nat) : (s.freeAt n).Nodup := by
  rcases hb : s.blocks.get? n with _ | b
  · simp [freeAt, hb]
  · rw [freeAt_of_some hb]
    refine b.nodup_freeSlots.map fun i j hij => ?_
    exact (Place.mk.inj hij).2

/-- Free entries come from different lists where they lie in different blocks. -/
theorem nodup_flatMap_freeAt {l : List Nat} (h : l.Nodup) : (l.flatMap s.freeAt).Nodup := by
  rw [List.nodup_flatMap]
  refine ⟨fun n _ => s.nodup_freeAt n, h.imp fun {m n} hmn p hm hn => ?_⟩
  exact hmn ((block_of_mem_freeAt hm).symm.trans (block_of_mem_freeAt hn))

/-- **The supply is made up of the free entries of the linked blocks.** -/
theorem Sound.mem_supply (h : s.Sound) : p ∈ s.supply ↔ p.block ∈ s.linked ∧ ¬ s.InUse p := by
  rw [supply, List.mem_flatMap]
  constructor
  · rintro ⟨n, hn, hp⟩
    obtain ⟨b, hb, -⟩ := (h.mem_available n).1 hn
    obtain ⟨rfl, hi⟩ := (mem_freeAt hb).1 hp
    exact ⟨h.mem_linked _ b hb, by simp [InUse, hb, hi]⟩
  · rintro ⟨hlinked, hp⟩
    obtain ⟨b, hb⟩ := h.lists.isSome hlinked
    have hi : b.inUse p.slot = false := by simpa [InUse, hb] using hp
    have hfull : b.isFull = false := by
      rw [Bool.eq_false_iff, ne_eq, Block.isFull_iff]
      exact fun hall => by simp [hall p.slot] at hi
    exact ⟨p.block, (h.mem_available _).2 ⟨b, hb, hfull⟩, (mem_freeAt hb).2 ⟨rfl, hi⟩⟩

theorem Sound.nodup_supply (h : s.Sound) : s.supply.Nodup :=
  nodup_flatMap_freeAt h.nodup_available

/-- Nothing is left exactly where no block is queued. -/
theorem Sound.supply_eq_nil_iff (h : s.Sound) : s.supply = [] ↔ s.available = [] := by
  constructor
  · intro hnil
    rcases hq : s.available with _ | ⟨n, queue⟩
    · rfl
    obtain ⟨b, hb, hfull⟩ := (h.mem_available n).1 (by simp [hq])
    simp only [supply, hq, List.flatMap_cons, List.append_eq_nil_iff, freeAt_of_some hb,
      List.map_eq_nil_iff, Block.freeSlots_eq_nil_iff] at hnil
    simp [hnil.1] at hfull
  · intro hq
    simp [supply, hq]

/-- **How much there is**: as many entries as the blocks hold and are not in use. -/
theorem Balanced.length_supply (hbalanced : s.Balanced) (h : s.Sound) :
    s.supply.length + s.allocationCount = blockSize * s.blockCount := by
  have hperm : s.supply.Perm (s.linked.flatMap s.freeAt) := by
    refine (List.perm_ext_iff_of_nodup h.nodup_supply (nodup_flatMap_freeAt h.lists.nodup)).2 ?_
    intro p
    rw [h.mem_supply, List.mem_flatMap]
    constructor
    · rintro ⟨hlinked, hp⟩
      obtain ⟨b, hb⟩ := h.lists.isSome hlinked
      exact ⟨p.block, hlinked, (mem_freeAt hb).2 ⟨rfl, by simpa [InUse, hb] using hp⟩⟩
    · rintro ⟨n, hn, hp⟩
      obtain ⟨b, hb⟩ := h.lists.isSome hn
      obtain ⟨rfl, hi⟩ := (mem_freeAt hb).1 hp
      exact ⟨hn, by simp [InUse, hb, hi]⟩
  have hsum : ∀ l : List Nat, (∀ n ∈ l, ∃ b, s.blocks.get? n = some b) →
      (l.flatMap s.freeAt).length + (l.map s.entriesAt).sum = blockSize * l.length := by
    intro l
    induction l with
    | nil => intro _; rfl
    | cons n l ih =>
        intro hl
        obtain ⟨b, hb⟩ := hl n List.mem_cons_self
        have hrest := ih fun m hm => hl m (List.mem_cons_of_mem _ hm)
        have hblock := b.length_freeSlots
        rw [List.flatMap_cons, List.length_append, List.map_cons, List.sum_cons,
          entriesAt_of_some hb, freeAt_of_some hb, List.length_map, List.length_cons, Nat.mul_succ]
        omega
  rw [hperm.length_eq, hbalanced.entries, hbalanced.blocks]
  exact hsum s.linked fun n hn => h.lists.isSome hn

/-! ## What allocation and release do to it -/

/-- Of the entries still to be handed out the first is taken. -/
theorem supply_takeEntry (h : s.Sound) {queue : List Nat} (hq : s.available = n :: queue)
    (htake : s.takeEntry n = .ok (s', p)) : s.supply = p :: s'.supply := by
  obtain ⟨b, d, hb, halloc, rfl, hs'⟩ := takeEntry_inv htake
  have hblocks : s'.blocks = s.blocks.set p.block d := by rw [hs']
  have hqueue : s'.available = if d.isFull then queue else p.block :: queue := by rw [hs', hq]; rfl
  have hnd := h.nodup_available
  rw [hq, List.nodup_cons] at hnd
  have hfront : s'.freeAt p.block = d.freeSlots.map fun i => ⟨p.block, i⟩ :=
    freeAt_of_some (by rw [hblocks, Registry.get?_set_of_some hb, if_pos rfl])
  have hbehind : queue.flatMap s'.freeAt = queue.flatMap s.freeAt := by
    refine List.flatMap_congr fun m hm => ?_
    have hmn : m ≠ p.block := fun e => hnd.1 (e ▸ hm)
    simp only [freeAt, hblocks, Registry.get?_set_of_some hb, if_neg hmn]
  have hsupply' : s'.supply = s'.freeAt p.block ++ queue.flatMap s'.freeAt := by
    rw [supply, hqueue]
    by_cases hd : d.isFull = true
    · rw [if_pos hd, hfront, Block.freeSlots_eq_nil_iff.2 hd]
      rfl
    · rw [if_neg hd, List.flatMap_cons]
  rw [hsupply', hfront, hbehind, supply, hq, List.flatMap_cons, freeAt_of_some hb,
    Block.freeSlots_eq_cons halloc]
  rfl

/-- **An allocation takes the first entry of the supply** and links no block. -/
theorem Sound.allocate_of_supply (h : s.Sound) (hsupply : s.supply = p :: rest) :
    ∃ s', s.allocate = .ok { storage := s', place := some p, linked := false } ∧
      Entered s s' p ∧ s'.supply = rest ∧ s'.blockCount = s.blockCount := by
  rcases hq : s.available with _ | ⟨n, queue⟩
  · rw [h.supply_eq_nil_iff.2 hq] at hsupply
    cases hsupply
  obtain ⟨s', i, htake, hent⟩ := h.takeEntry hq
  have htaken := supply_takeEntry h hq htake
  rw [hsupply, List.cons.injEq] at htaken
  obtain ⟨rfl, rfl⟩ := htaken
  refine ⟨s', ?_, hent, rfl, ?_⟩
  · simp [Storage.allocate, hq, htake, bind, Except.bind, pure, Except.pure]
  · obtain ⟨b, d, -, -, -, rfl⟩ := takeEntry_inv htake
    rfl

/-- **Where nothing is left** an allocation is refused at the limit and otherwise takes the first
slot of a block that it links in front. -/
theorem Sound.allocate_of_supply_nil (h : s.Sound) (hsupply : s.supply = []) :
    (s.atLimit = true ∧ s.allocate = .ok { storage := s, place := none, linked := false }) ∨
    (s.atLimit = false ∧ ∃ s', s'.linked = (s.blocks.size + 1) :: s.linked ∧
      s.allocate =
        .ok { storage := s', place := some ⟨s.blocks.size + 1, 0⟩, linked := true }) := by
  have hq := h.supply_eq_nil_iff.1 hsupply
  rcases hlimit : s.atLimit with _ | _
  · obtain ⟨s₁, hlink, hext⟩ := h.link
    obtain ⟨s', i, htake, hent⟩ := hext.sound.takeEntry (n := s.blocks.size + 1)
      (show _ = _ :: [] by rw [hext.available_eq, hq]; rfl)
    -- the new block has no entry in use, so that its lowest free slot is the first
    obtain rfl : i = 0 := by
      obtain ⟨b, d, hb, halloc, -⟩ := takeEntry_inv htake
      by_contra hi
      have hzero := (Block.allocateEntry_eq_some halloc).2.1 0 (Fin.pos_iff_ne_zero.2 hi)
      obtain ⟨c, hc, -⟩ := (hext.inUse_iff ⟨s.blocks.size + 1, 0⟩).1 ⟨b, hb, hzero⟩
      have := (Registry.bounds_of_get?_eq_some hc).2
      simp at this
    refine Or.inr ⟨rfl, s', by rw [hent.linked_eq, hext.linked_eq], ?_⟩
    simp [Storage.allocate, hq, hlimit, hlink, htake, bind, Except.bind, pure, Except.pure]
  · exact Or.inl ⟨rfl, by simp [Storage.allocate, hq, hlimit, pure, Except.pure]⟩

/-- **A release adds the entry to the supply**, wherever in the order. -/
theorem Sound.supply_release (h : s.Sound) {v : Option Reference} (hp : s.InUse p)
    (hwritten : s.Written s' p v)
    (huse : ∀ q, s'.InUse q ↔ s.InUse q ∧ q ≠ p) : s'.supply.Perm (p :: s.supply) := by
  have hblock : p.block ∈ s.linked := by
    obtain ⟨b, hb, -⟩ := hp
    exact h.mem_linked _ b hb
  have hnot : p ∉ s.supply := fun hmem => (h.mem_supply.1 hmem).2 hp
  refine (List.perm_ext_iff_of_nodup hwritten.sound.nodup_supply
    (List.nodup_cons.2 ⟨hnot, h.nodup_supply⟩)).2 fun q => ?_
  rw [hwritten.sound.mem_supply, List.mem_cons, h.mem_supply, hwritten.linked_eq, huse]
  by_cases hq : q = p
  · simp [hq, hblock]
  · simp [hq]

end Storage

end RootStore
