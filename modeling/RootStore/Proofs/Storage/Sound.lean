import RootStore.Proofs.Storage.Linked
import RootStore.Storage.Allocation

/-!
# Sound storages

What holds of a storage between any two operations: its blocks are exactly those of the list, they
belong to it, and the queue holds exactly the blocks with a free entry, each once.  Every operation
on entries succeeds on a sound storage and leaves a sound one, and what it does is told through
three views: the list, the entries in use and the contents of the slots.

* `Storage.Sound` — the invariant.
* `Storage.InUse` — is the entry at a place in use?
* `Storage.Sound.link`, `Storage.Sound.takeEntry`, `Storage.Sound.allocate` — new entries.
* `Storage.Sound.release`, `Storage.Sound.store` — old ones.
-/

namespace RootStore

namespace Storage

variable {s s' : Storage} {n : Nat} {b b' : Block} {p q : Place} {v : Option Reference}

/-- The place is that of an entry in use. -/
def InUse (s : Storage) (p : Place) : Prop :=
  ∃ b, s.blocks.get? p.block = some b ∧ b.inUse p.slot = true

/-- What holds of a storage between any two operations. -/
structure Sound (s : Storage) : Prop where
  /-- The chain spells the list of linked blocks. -/
  lists : s.Lists s.linked
  /-- Every block there is is linked. -/
  mem_linked : ∀ n b, s.blocks.get? n = some b → n ∈ s.linked
  /-- Every block belongs to the storage. -/
  owner : ∀ n b, s.blocks.get? n = some b → b.owner = s.id
  /-- No block is queued twice. -/
  nodup_available : s.available.Nodup
  /-- The queue holds the blocks with a free entry. -/
  mem_available : ∀ n, n ∈ s.available ↔ ∃ b, s.blocks.get? n = some b ∧ b.isFull = false

/-- Two storages of the same identity that agree on whether they are being iterated. -/
structure SameFrame (s s' : Storage) : Prop where
  id_eq : s'.id = s.id
  settings_eq : s'.settings = s.settings
  iterating_eq : s'.iterating = s.iterating

/-! ## Looking up -/

theorem load_eq_ok_iff :
    s.load p = .ok v ↔ ∃ b, s.blocks.get? p.block = some b ∧ b.load p.slot = v := by
  rcases hb : s.blocks.get? p.block with _ | b <;>
    simp [load, block, hb, bind, Except.bind, pure, Except.pure]

/-- A place can be read exactly where its block is there. -/
theorem load_eq_error_iff {f : Fault} :
    s.load p = .error f ↔ s.blocks.get? p.block = none ∧ f = .missingBlock p.block := by
  rcases hb : s.blocks.get? p.block with _ | b <;>
    simp [load, block, hb, bind, Except.bind, pure, Except.pure, eq_comm]

theorem load_congr (h : s'.blocks = s.blocks) : s'.load p = s.load p := by
  simp only [load, block, h]

theorem InUse.load (h : s.InUse p) : ∃ v, s.load p = .ok v := by
  obtain ⟨b, hb, -⟩ := h
  exact ⟨b.load p.slot, load_eq_ok_iff.2 ⟨b, hb, rfl⟩⟩

theorem updateBlock_eq (hb : s.blocks.get? n = some b) (change : Block → Block) :
    s.updateBlock n change = .ok (s.setBlock n (change b)) := by
  simp [updateBlock, block, hb, bind, Except.bind, pure, Except.pure]

theorem linked_congr (hblocks : s'.blocks = s.blocks) (hhead : s'.head = s.head) :
    s'.linked = s.linked := by
  have hwalk : ∀ (k : Nat) (c : Option Nat), s'.walk k c = s.walk k c := by
    intro k
    induction k with
    | zero => intro c; rfl
    | succ k ih => intro c; cases c <;> simp [walk, hblocks, ih]
  rw [linked, linked, hblocks, hhead, hwalk]

/-! ## Replacing one block -/

/-- The entries in use after a block has been replaced. -/
theorem inUse_set (hb : s.blocks.get? n = some b) (hblocks : s'.blocks = s.blocks.set n b') :
    s'.InUse p ↔ if p.block = n then b'.inUse p.slot = true else s.InUse p := by
  simp only [InUse, hblocks, Registry.get?_set]
  by_cases hp : p.block = n <;> simp [hp, hb]

/-- The contents of the slots after a block has been replaced. -/
theorem load_set (hb : s.blocks.get? n = some b) (hblocks : s'.blocks = s.blocks.set n b') :
    s'.load p = if p.block = n then .ok (b'.load p.slot) else s.load p := by
  have hget := s.blocks.get?_set n b' p.block
  rw [← hblocks] at hget
  by_cases hp : p.block = n
  · simp only [hp, hb, Option.isSome_some, and_self, if_true] at hget ⊢
    exact load_eq_ok_iff.2 ⟨b', by rw [hp]; exact hget, rfl⟩
  · simp only [hp, false_and, if_false] at hget ⊢
    simp only [load, block, hget]

/-- The contents of the slots after a block has been replaced by one that differs in one slot. -/
theorem load_set_slot (hb : s.blocks.get? p.block = some b)
    (hblocks : s'.blocks = s.blocks.set p.block b')
    (hload : ∀ j, b'.load j = if j = p.slot then v else b.load j) (q : Place) :
    s'.load q = if q = p then .ok v else s.load q := by
  rw [load_set hb hblocks]
  rcases p with ⟨n, i⟩
  rcases q with ⟨m, j⟩
  by_cases hm : m = n
  · subst hm
    by_cases hj : j = i
    · simp [hj, hload]
    · have : s.load ⟨m, j⟩ = .ok (b.load j) := load_eq_ok_iff.2 ⟨b, hb, rfl⟩
      simp [hj, hload, this]
  · simp [hm]

/-- Replacing a block by one with the same neighbours keeps the list. -/
theorem Lists.set {l : List Nat} (h : s.Lists l) (hb : s.blocks.get? n = some b)
    (hnext : b'.next = b.next) (hprev : b'.prev = b.prev)
    (hblocks : s'.blocks = s.blocks.set n b') (hhead : s'.head = s.head) : s'.Lists l := by
  refine h.congr hhead fun m _ c hc => ?_
  rw [hblocks, Registry.get?_set]
  by_cases hmn : m = n
  · subst hmn
    obtain rfl : b = c := Option.some.inj (hb.symm.trans hc)
    exact ⟨b', by simp [hb], hnext, hprev⟩
  · exact ⟨c, by simp [hmn, hc], rfl, rfl⟩

/-- **Replacing one block** by one of the same owner and neighbours keeps a storage sound, if the
queue follows suit. -/
theorem Sound.set (h : s.Sound) (hb : s.blocks.get? n = some b) (howner : b'.owner = b.owner)
    (hnext : b'.next = b.next) (hprev : b'.prev = b.prev)
    (hblocks : s'.blocks = s.blocks.set n b') (hhead : s'.head = s.head) (hid : s'.id = s.id)
    (hnd : s'.available.Nodup)
    (hqueue : ∀ m, m ∈ s'.available ↔ if m = n then b'.isFull = false else m ∈ s.available) :
    s'.Sound ∧ s'.linked = s.linked := by
  have hlists := h.lists.set hb hnext hprev hblocks hhead
  have hlinked : s'.linked = s.linked := hlists.linked_eq
  have hget := s.blocks.get?_set n b'
  rw [← hblocks] at hget
  refine ⟨⟨by rwa [hlinked], ?_, ?_, hnd, ?_⟩, hlinked⟩
  · intro m c hc
    rw [hlinked]
    rw [hget] at hc
    split at hc
    · rename_i hm
      exact h.mem_linked m b (by rw [hm.1, hb])
    · exact h.mem_linked m c hc
  · intro m c hc
    rw [hid]
    rw [hget] at hc
    split at hc
    · obtain rfl := Option.some.inj hc
      exact howner.trans (h.owner n b hb)
    · exact h.owner m c hc
  · intro m
    rw [hqueue, hget]
    by_cases hm : m = n
    · simp [hm, hb]
    · simp [hm, h.mem_available]

/-! ## Taking an entry from the front of the queue -/

/-- The storage `s'` is `s` with one more entry in use, that at the place `p`. -/
structure Entered (s s' : Storage) (p : Place) : Prop where
  sound : s'.Sound
  frame : s.SameFrame s'
  size_eq : s'.blocks.size = s.blocks.size
  linked_eq : s'.linked = s.linked
  free : ¬ s.InUse p
  inUse_iff : ∀ q, s'.InUse q ↔ s.InUse q ∨ q = p
  load_eq : ∀ q, s'.load q = s.load q

/-- What taking an entry of a block comes to. -/
theorem takeEntry_eq {i : SlotIndex} (hb : s.blocks.get? n = some b)
    (halloc : b.allocateEntry = some (b', i)) :
    s.takeEntry n = .ok ({ s with
      blocks := s.blocks.set n b'
      available := if b'.isFull then s.available.tail else s.available
      allocationCount := s.allocationCount + 1 }, ⟨n, i⟩) := by
  simp [takeEntry, block, hb, halloc, bind, Except.bind, pure, Except.pure, Storage.setBlock]

/-- **The front of the queue has a free entry**, and taking it puts that one entry in use. -/
theorem Sound.takeEntry (h : s.Sound) {queue : List Nat} (hq : s.available = n :: queue) :
    ∃ s' i, s.takeEntry n = .ok (s', ⟨n, i⟩) ∧ Entered s s' ⟨n, i⟩ := by
  obtain ⟨b, hb, hfull⟩ := (h.mem_available n).1 (by simp [hq])
  rcases halloc : b.allocateEntry with _ | ⟨b', i⟩
  · simp [Block.allocateEntry_eq_none_iff.1 halloc] at hfull
  obtain ⟨hfree, -, hb'⟩ := Block.allocateEntry_eq_some halloc
  have huse : ∀ j, b'.inUse j = (b.inUse j || decide (j = i)) := by simp [hb', Block.inUse]
  have hload : ∀ j, b'.load j = b.load j := by simp [hb', Block.load]
  have hnd := h.nodup_available
  rw [hq, List.nodup_cons] at hnd
  refine ⟨_, i, takeEntry_eq hb halloc, ?_⟩
  rw [hq, List.tail_cons]
  set s' : Storage := { s with
    blocks := s.blocks.set n b'
    available := if b'.isFull then queue else n :: queue
    allocationCount := s.allocationCount + 1 } with hs'
  have hblocks : s'.blocks = s.blocks.set n b' := rfl
  obtain ⟨hsound, hlinked⟩ := h.set hb (by rw [hb']) (by rw [hb']) (by rw [hb']) hblocks rfl rfl
    (by rw [hs']; split <;> simp [hnd]) (by
      intro m
      rw [hs']
      by_cases hm : m = n
      · by_cases hf : b'.isFull <;> simp [hm, hf, hnd]
      · by_cases hf : b'.isFull <;> simp [hm, hf, hq])
  refine ⟨hsound, ⟨rfl, rfl, rfl⟩, by rw [hblocks, Registry.size_set], hlinked, ?_, ?_, ?_⟩
  · rintro ⟨c, hc, hi⟩
    obtain rfl := Option.some.inj (hb.symm.trans hc)
    simp [hfree] at hi
  · intro q
    rw [inUse_set hb rfl]
    rcases q with ⟨m, j⟩
    by_cases hm : m = n
    · subst hm
      simp [InUse, hb, huse]
    · simp [hm]
  · intro q
    rw [load_set hb rfl]
    split
    · rename_i hqn
      exact (load_eq_ok_iff.2 ⟨b, by rw [hqn, hb], (hload _).symm⟩).symm
    · rfl

/-! ## Linking a block for new entries -/

/-- The storage `s'` is `s` with one more block, the newest, which is empty and queued last. -/
structure Extended (s s' : Storage) : Prop where
  sound : s'.Sound
  frame : s.SameFrame s'
  size_eq : s'.blocks.size = s.blocks.size + 1
  linked_eq : s'.linked = (s.blocks.size + 1) :: s.linked
  available_eq : s'.available = s.available ++ [s.blocks.size + 1]
  inUse_iff : ∀ q, s'.InUse q ↔ s.InUse q
  load_eq : ∀ q, s'.load q = if q.block = s.blocks.size + 1 then .ok none else s.load q

/-- What linking a block comes to. -/
theorem Lists.link_eq {l : List Nat} (h : s.Lists l) : ∃ blocks : Registry Block,
    s.link = .ok ({ s with
      blocks
      head := some (s.blocks.size + 1)
      blockCount := s.blockCount + 1
      counters := { s.counters with blocksAllocated := s.counters.blocksAllocated + 1 } },
      s.blocks.size + 1) ∧
    blocks.size = s.blocks.size + 1 ∧
    ∀ m, blocks.get? m = if m = s.blocks.size + 1 then some { Block.fresh s.id with next := s.head }
      else (s.blocks.get? m).map fun c =>
        { c with prev := if s.head = some m then some (s.blocks.size + 1) else c.prev } := by
  rcases hhead : s.head with _ | old
  · refine ⟨_, by simp [Storage.link, hhead, bind, Except.bind, pure, Except.pure]; rfl,
      by simp, ?_⟩
    intro m
    simp [Registry.get?_add]
  · obtain ⟨b, hb⟩ := h.isSome (n := old) (List.mem_of_mem_head? (by
      rw [← h.head_eq, hhead]
      rfl))
    have hold : old ≠ s.blocks.size + 1 := by
      have := (Registry.bounds_of_get?_eq_some hb).2
      omega
    have hb₁ : (s.blocks.add { Block.fresh s.id with next := some old }).get? old = some b := by
      rw [Registry.get?_add, if_neg hold, hb]
    refine ⟨(s.blocks.add { Block.fresh s.id with next := some old }).set old
      { b with prev := some (s.blocks.size + 1) }, ?_, by simp, ?_⟩
    · simp only [Storage.link, hhead]
      rw [updateBlock_eq (b := b) (by exact hb₁)]
      rfl
    · intro m
      rw [Registry.get?_set, hb₁, Registry.get?_add]
      by_cases hm : m = old
      · subst hm
        simp [hold, hb]
      · by_cases hn : m = s.blocks.size + 1
        · subst hn
          simp [Ne.symm hold]
        · cases s.blocks.get? m <;> simp [hm, hn, Ne.symm hm]

/-- A storage with one more block in front of its list and at the end of its queue is sound. -/
theorem Sound.extended (h : s.Sound) (hframe : s.SameFrame s')
    (hhead : s'.head = some (s.blocks.size + 1))
    (hqueue : s'.available = s.available ++ [s.blocks.size + 1])
    (hsize : s'.blocks.size = s.blocks.size + 1)
    (hget : ∀ m, s'.blocks.get? m =
      if m = s.blocks.size + 1 then some { Block.fresh s.id with next := s.head }
      else (s.blocks.get? m).map fun c =>
        { c with prev := if s.head = some m then some (s.blocks.size + 1) else c.prev }) :
    Extended s s' := by
  set N := s.blocks.size + 1 with hN
  have hlt : ∀ m c, s.blocks.get? m = some c → m < N := fun m c hc => by
    have := (Registry.bounds_of_get?_eq_some hc).2
    omega
  have hnew : s'.blocks.get? N = some { Block.fresh s.id with next := s.head } := by
    rw [hget, if_pos rfl]
  have hold : ∀ m c, s.blocks.get? m = some c → s'.blocks.get? m =
      some { c with prev := if s.head = some m then some N else c.prev } := by
    intro m c hc
    rw [hget, if_neg (Nat.ne_of_lt (hlt m c hc)), hc]
    rfl
  have hblock : ∀ m c, s'.blocks.get? m = some c →
      (m = N ∧ c = { Block.fresh s.id with next := s.head }) ∨
        ∃ d, s.blocks.get? m = some d ∧ c.owner = d.owner ∧ c.mask = d.mask := by
    intro m c hc
    by_cases hm : m = N
    · subst hm
      exact Or.inl ⟨rfl, Option.some.inj (hc.symm.trans hnew)⟩
    · rw [hget, if_neg hm, Option.map_eq_some_iff] at hc
      obtain ⟨d, hd, rfl⟩ := hc
      exact Or.inr ⟨d, hd, rfl, rfl⟩
  have hlists : s'.Lists (N :: s.linked) :=
    h.lists.cons hhead (fun m hm => Nat.lt_succ_of_le (h.lists.bounds hm).2) hnew rfl rfl
      fun m _ c hc => hold m c hc
  have hlinked : s'.linked = N :: s.linked := hlists.linked_eq
  refine ⟨⟨by rwa [hlinked], ?_, ?_, ?_, ?_⟩, hframe, hsize, hlinked, hqueue, ?_, ?_⟩
  · intro m c hc
    rw [hlinked]
    rcases hblock m c hc with ⟨rfl, -⟩ | ⟨d, hd, -⟩
    · exact List.mem_cons_self
    · exact List.mem_cons_of_mem _ (h.mem_linked m d hd)
  · intro m c hc
    rw [hframe.id_eq]
    rcases hblock m c hc with ⟨-, rfl⟩ | ⟨d, hd, howner, -⟩
    · rfl
    · exact howner.trans (h.owner m d hd)
  · rw [hqueue, List.nodup_append]
    refine ⟨h.nodup_available, by simp, fun m hm k hk => ?_⟩
    obtain ⟨c, hc, -⟩ := (h.mem_available m).1 hm
    rw [List.mem_singleton.1 hk]
    exact Nat.ne_of_lt (hlt m c hc)
  · intro m
    rw [hqueue, List.mem_append, List.mem_singleton, h.mem_available]
    constructor
    · rintro (⟨c, hc, hfull⟩ | rfl)
      · exact ⟨_, hold m c hc, hfull⟩
      · exact ⟨_, hnew, rfl⟩
    · rintro ⟨c, hc, hfull⟩
      rcases hblock m c hc with ⟨rfl, -⟩ | ⟨d, hd, -, hmask⟩
      · exact Or.inr rfl
      · exact Or.inl ⟨d, hd, by simpa [Block.isFull, hmask] using hfull⟩
  · rintro ⟨m, i⟩
    constructor
    · rintro ⟨c, hc, hi⟩
      rcases hblock m c hc with ⟨-, rfl⟩ | ⟨d, hd, -, hmask⟩
      · simp [Block.inUse, Block.fresh] at hi
      · exact ⟨d, hd, by simpa [Block.inUse, hmask] using hi⟩
    · rintro ⟨c, hc, hi⟩
      exact ⟨_, hold m c hc, hi⟩
  · intro q
    split
    · rename_i hq
      exact load_eq_ok_iff.2 ⟨{ Block.fresh s.id with next := s.head }, by rw [hq]; exact hnew,
        Block.load_fresh s.id q.slot⟩
    · rename_i hq
      rcases hc : s.blocks.get? q.block with _ | c
      · rw [load_eq_error_iff.2 ⟨hc, rfl⟩, load_eq_error_iff]
        exact ⟨by rw [hget, if_neg hq, hc]; rfl, rfl⟩
      · rw [load_eq_ok_iff.2 ⟨c, hc, rfl⟩, load_eq_ok_iff]
        exact ⟨_, hold _ c hc, rfl⟩

/-- **Linking a block** succeeds, and with the block queued the storage is sound. -/
theorem Sound.link (h : s.Sound) : ∃ s', s.link = .ok (s', s.blocks.size + 1) ∧
    Extended s { s' with available := s'.available ++ [s.blocks.size + 1] } := by
  obtain ⟨blocks, hlink, hsize, hget⟩ := h.lists.link_eq
  exact ⟨_, hlink, h.extended ⟨rfl, rfl, rfl⟩ rfl rfl hsize hget⟩

/-! ## Whole operations -/

/-- **Allocation** either is refused, where the queue is empty and the limit is reached, or takes an
entry of the block in front, or does so after linking a block. -/
theorem Sound.allocate_cases (h : s.Sound) :
    (s.available = [] ∧ s.atLimit = true ∧
      s.allocate = .ok { storage := s, place := none, linked := false }) ∨
    (∃ s' p, s.available.head? = some p.block ∧ Entered s s' p ∧
      s.allocate = .ok { storage := s', place := some p, linked := false }) ∨
    (∃ s₁ s' p, s.available = [] ∧ s.atLimit = false ∧ p.block = s.blocks.size + 1 ∧
      Extended s s₁ ∧ Entered s₁ s' p ∧
      s.allocate = .ok { storage := s', place := some p, linked := true }) := by
  rcases hq : s.available with _ | ⟨n, queue⟩
  · by_cases hlimit : s.atLimit = true
    · exact Or.inl ⟨rfl, hlimit, by simp [allocate, hq, hlimit, pure, Except.pure]⟩
    · obtain ⟨s₁, hlink, hext⟩ := h.link
      obtain ⟨s', i, htake, hent⟩ := hext.sound.takeEntry (n := s.blocks.size + 1)
        (show _ = _ :: [] by rw [hext.available_eq, hq]; rfl)
      refine Or.inr (Or.inr ⟨_, s', _, rfl, by simpa using hlimit, rfl, hext, hent, ?_⟩)
      simp [allocate, hq, hlimit, hlink, htake, bind, Except.bind, pure, Except.pure]
  · obtain ⟨s', i, htake, hent⟩ := h.takeEntry hq
    refine Or.inr (Or.inl ⟨s', _, rfl, hent, ?_⟩)
    simp [allocate, hq, htake, bind, Except.bind, pure, Except.pure]

/-- The storage `s'` is `s` after the entry at the place `p` has been allocated. -/
structure Granted (s s' : Storage) (p : Place) : Prop where
  sound : s'.Sound
  frame : s.SameFrame s'
  size_le : s.blocks.size ≤ s'.blocks.size
  linked_eq : s'.linked = s.linked ∨
    s'.blocks.size = s.blocks.size + 1 ∧ s'.linked = s'.blocks.size :: s.linked
  free : ¬ s.InUse p
  inUse_iff : ∀ q, s'.InUse q ↔ s.InUse q ∨ q = p
  load_old : ∀ q v, s.load q = .ok v → s'.load q = .ok v
  load_new : ∀ q v, s'.load q = .ok v → s.load q = .ok v ∨ v = none

theorem Entered.granted (h : Entered s s' p) : Granted s s' p where
  sound := h.sound
  frame := h.frame
  size_le := Nat.le_of_eq h.size_eq.symm
  linked_eq := Or.inl h.linked_eq
  free := h.free
  inUse_iff := h.inUse_iff
  load_old := fun q v hv => by rwa [h.load_eq]
  load_new := fun q v hv => Or.inl (by rwa [h.load_eq] at hv)

theorem Extended.granted {s₁ : Storage} (h : Extended s s₁) (h' : Entered s₁ s' p) :
    Granted s s' p where
  sound := h'.sound
  frame := ⟨h'.frame.id_eq.trans h.frame.id_eq, h'.frame.settings_eq.trans h.frame.settings_eq,
    h'.frame.iterating_eq.trans h.frame.iterating_eq⟩
  size_le := by rw [h'.size_eq, h.size_eq]; omega
  linked_eq := Or.inr ⟨h'.size_eq.trans h.size_eq, by
    rw [h'.linked_eq, h.linked_eq, h'.size_eq, h.size_eq]⟩
  free := fun hp => h'.free ((h.inUse_iff p).2 hp)
  inUse_iff := fun q => by rw [h'.inUse_iff, h.inUse_iff]
  load_old := fun q v hv => by
    obtain ⟨b, hb, -⟩ := load_eq_ok_iff.1 hv
    have := (Registry.bounds_of_get?_eq_some hb).2
    rwa [h'.load_eq, h.load_eq, if_neg (by omega)]
  load_new := fun q v hv => by
    rw [h'.load_eq, h.load_eq] at hv
    split at hv
    · exact Or.inr (Except.ok.inj hv).symm
    · exact Or.inl hv

/-- **Allocation succeeds**: it is refused and changes nothing, or it puts one free entry in use. -/
theorem Sound.allocate (h : s.Sound) :
    s.allocate = .ok { storage := s, place := none, linked := false } ∨
    ∃ s' p linked, s.allocate = .ok { storage := s', place := some p, linked } ∧
    Granted s s' p := by
  rcases h.allocate_cases with
    ⟨-, -, heq⟩ | ⟨s', p, -, hent, heq⟩ | ⟨s₁, s', p, -, -, -, hext, hent, heq⟩
  · exact Or.inl heq
  · exact Or.inr ⟨s', p, false, heq, hent.granted⟩
  · exact Or.inr ⟨s', p, true, heq, hext.granted hent⟩

/-- The storage `s'` is `s` after a slot of it has been written, and perhaps its entry released. -/
structure Written (s s' : Storage) (p : Place) (v : Option Reference) : Prop where
  sound : s'.Sound
  frame : s.SameFrame s'
  size_eq : s'.blocks.size = s.blocks.size
  linked_eq : s'.linked = s.linked
  load_eq : ∀ q, s'.load q = if q = p then .ok v else s.load q

/-- **Releasing an entry in use** succeeds, nulls it and takes it alone out of use. -/
theorem Sound.release (h : s.Sound) (hp : s.InUse p) : ∃ s', s.release p = .ok s' ∧
    Written s s' p none ∧ ∀ q, s'.InUse q ↔ s.InUse q ∧ q ≠ p := by
  obtain ⟨b, hb, hi⟩ := hp
  have howner : b.owner = s.id := h.owner _ b hb
  set b' := (b.releaseEntry p.slot).1 with hb'
  have huse : ∀ j, b'.inUse j = (b.inUse j && decide (j ≠ p.slot)) := b.inUse_releaseEntry p.slot
  have hnotFull : b'.isFull = false := by
    rw [Bool.eq_false_iff]
    intro hfull
    simpa [huse] using Block.isFull_iff.1 hfull p.slot
  have hqueued : p.block ∈ s.available ↔ b.isFull = false := by
    rw [h.mem_available]
    simp [hb]
  set s' : Storage := { s with
    blocks := s.blocks.set p.block b'
    available := if b.isFull then s.available ++ [p.block] else s.available
    allocationCount := s.allocationCount - 1 } with hs'
  have hblocks : s'.blocks = s.blocks.set p.block b' := rfl
  refine ⟨s', ?_, ?_, ?_⟩
  · simp [Storage.release, block, hb, howner, Block.releaseEntry, bind, Except.bind, pure,
      Except.pure, Storage.setBlock]
    rfl
  · obtain ⟨hsound, hlinked⟩ := h.set hb (by rfl) (by rfl) (by rfl) hblocks rfl rfl (by
        have hnd := h.nodup_available
        by_cases hfull : b.isFull = true
        · have hne : ∀ a ∈ s.available, a ≠ p.block := by
            rintro a ha rfl
            simp [hqueued.1 ha] at hfull
          simpa [hs', hfull, List.nodup_append, hnd] using hne
        · simpa [hs', hfull] using hnd) (by
        intro m
        by_cases hm : m = p.block
        · subst hm
          by_cases hfull : b.isFull = true
          · simp [hs', hfull, hnotFull]
          · simpa [hs', hfull, hnotFull] using hqueued.2 (by simpa using hfull)
        · by_cases hfull : b.isFull = true <;> simp [hs', hfull, hm])
    exact ⟨hsound, ⟨rfl, rfl, rfl⟩, by rw [hblocks, Registry.size_set], hlinked,
      load_set_slot hb hblocks (b.load_releaseEntry p.slot)⟩
  · intro q
    rw [inUse_set hb hblocks, huse]
    rcases p with ⟨n, i⟩
    rcases q with ⟨m, j⟩
    by_cases hm : m = n
    · subst hm
      simp [InUse, hb]
    · simp [hm]

/-- **Writing a slot** of a linked block succeeds and changes that slot alone. -/
theorem Sound.store (h : s.Sound) (hp : p.block ∈ s.linked) (v : Option Reference) :
    ∃ s', s.store p v = .ok s' ∧ Written s s' p v ∧ ∀ q, s'.InUse q ↔ s.InUse q := by
  obtain ⟨b, hb⟩ := h.lists.isSome hp
  set s' := s.setBlock p.block (b.store p.slot v) with hs'
  have hblocks : s'.blocks = s.blocks.set p.block (b.store p.slot v) := rfl
  refine ⟨s', updateBlock_eq hb _, ?_, ?_⟩
  · obtain ⟨hsound, hlinked⟩ :=
      h.set hb (by rfl) (by rfl) (by rfl) hblocks rfl rfl h.nodup_available
      (by
        intro m
        by_cases hm : m = p.block
        · subst hm
          have hfull : (b.store p.slot v).isFull = b.isFull := rfl
          simp [hs', Storage.setBlock, h.mem_available, hb, hfull]
        · simp [hs', Storage.setBlock, hm])
    exact ⟨hsound, ⟨rfl, rfl, rfl⟩, by rw [hblocks, Registry.size_set], hlinked,
      load_set_slot hb hblocks (b.load_store p.slot v)⟩
  · intro q
    rw [inUse_set hb hblocks]
    split
    · rename_i hq
      simp [InUse, hq, hb, Block.inUse]
    · rfl

end Storage

end RootStore
