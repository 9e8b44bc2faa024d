import RootStore.Proofs.Storage.Shape

/-!
# Counts that agree with what they count

A storage counts its entries in use and its blocks, and how many blocks it has ever linked and
deleted, apart from the list and the masks themselves.  Every operation changes a count by exactly
what it changes of the list and of the masks, and takes one off a count only where there is one to
take off.

* `Storage.entries` — how many entries of the linked blocks are in use.
* `Storage.Balanced` — **the counts agree with the list and with each other.**
* `Storage.Balanced.allocate`, `Storage.Balanced.release`, `Storage.Balanced.store` — operations on
  entries.
* `Storage.Deleting` — the moments of a deletion; `Storage.Balanced.deleteEmpty` — the whole of it.
-/

namespace RootStore

/-! ## Entries in use -/

namespace Mask

variable {m : Mask} {i : SlotIndex}

theorem nodup_indices (m : Mask) : m.indices.Nodup := (List.nodup_finRange 64).filter _

theorem length_indices_le (m : Mask) : m.indices.length ≤ blockSize := by
  have hle := List.length_filter_le m.contains (List.finRange 64)
  rwa [List.length_finRange] at hle

/-- A slot that was free adds one to the indices in use. -/
theorem length_indices_insert (h : m.contains i = false) :
    (m.insert i).indices.length = m.indices.length + 1 := by
  have hperm : (m.insert i).indices.Perm (i :: m.indices) := by
    refine (List.perm_ext_iff_of_nodup (nodup_indices _) ?_).2 fun j => ?_
    · exact List.nodup_cons.2 ⟨by simp [h], nodup_indices m⟩
    · simp [or_comm]
  simpa using hperm.length_eq

/-- A slot that was in use takes one off. -/
theorem length_indices_erase (h : m.contains i = true) :
    (m.erase i).indices.length + 1 = m.indices.length := by
  have hperm : m.indices.Perm (i :: (m.erase i).indices) := by
    refine (List.perm_ext_iff_of_nodup (nodup_indices m) ?_).2 fun j => ?_
    · exact List.nodup_cons.2 ⟨by simp, nodup_indices _⟩
    · by_cases hj : j = i <;> simp [hj, h]
  simpa using hperm.length_eq.symm

end Mask

namespace Block

variable {b d : Block} {i : SlotIndex}

/-- How many entries of the block are in use. -/
def used (b : Block) : Nat := b.mask.indices.length

@[simp] theorem used_store (b : Block) (i : SlotIndex) (v : Option Reference) :
    (b.store i v).used = b.used := rfl

theorem used_of_isEmpty (h : b.isEmpty = true) : b.used = 0 := by
  simp only [isEmpty, decide_eq_true_eq] at h
  simp [used, h]

theorem used_allocateEntry (h : b.allocateEntry = some (d, i)) : d.used = b.used + 1 := by
  obtain ⟨hfree, -, rfl⟩ := allocateEntry_eq_some h
  exact Mask.length_indices_insert hfree

theorem used_releaseEntry (h : b.inUse i = true) : (b.releaseEntry i).1.used + 1 = b.used :=
  Mask.length_indices_erase h

end Block

/-- Of a sum without repetition one term is replaced: the new sum and the old term are the old sum
and the new term. -/
theorem sum_map_replace {l : List Nat} {f g : Nat → Nat} {n : Nat} (hnd : l.Nodup) (hn : n ∈ l)
    (heq : ∀ m, m ≠ n → g m = f m) : (l.map g).sum + f n = (l.map f).sum + g n := by
  induction l with
  | nil => cases hn
  | cons m l ih =>
      rw [List.nodup_cons] at hnd
      simp only [List.map_cons, List.sum_cons]
      rcases List.mem_cons.1 hn with rfl | hmem
      · have hrest : l.map g = l.map f :=
          List.map_congr_left fun k hk => heq k fun hkn => hnd.1 (hkn ▸ hk)
        rw [hrest]
        omega
      · have := ih hnd.2 hmem
        have := heq m fun hmn => hnd.1 (hmn ▸ hmem)
        omega

/-- Terms that are zero can be left out of a sum. -/
theorem sum_map_filter {l : List Nat} {f : Nat → Nat} {p : Nat → Bool}
    (hzero : ∀ m ∈ l, p m = false → f m = 0) : ((l.filter p).map f).sum = (l.map f).sum := by
  induction l with
  | nil => rfl
  | cons m l ih =>
      have hrest := ih fun k hk => hzero k (List.mem_cons_of_mem _ hk)
      by_cases hm : p m = true
      · simp [hm, hrest]
      · have := hzero m List.mem_cons_self (by simpa using hm)
        simp [hm, hrest, this]

namespace Storage

variable {s s' : Storage} {n m : Nat} {b d : Block} {p : Place} {v : Option Reference}

/-- How many entries of the block under a number are in use. -/
def entriesAt (s : Storage) (n : Nat) : Nat := ((s.blocks.get? n).map Block.used).getD 0

/-- How many entries of the linked blocks are in use. -/
def entries (s : Storage) : Nat := (s.linked.map s.entriesAt).sum

/-- **The counts agree with the list and with each other.** -/
structure Balanced (s : Storage) : Prop where
  /-- As many entries as are in use in the linked blocks. -/
  entries : s.allocationCount = s.entries
  /-- As many blocks as the list has. -/
  blocks : s.blockCount = s.linked.length
  /-- As many blocks were linked as were deleted and are left. -/
  ever : s.blockCount + s.counters.blocksDeleted = s.counters.blocksAllocated

theorem entriesAt_of_some (hb : s.blocks.get? n = some b) : s.entriesAt n = b.used := by
  simp [entriesAt, hb]

theorem entriesAt_of_isEmptyAt (h : s.isEmptyAt n = true) : s.entriesAt n = 0 := by
  rcases hb : s.blocks.get? n with _ | b
  · simp [entriesAt, hb]
  · rw [entriesAt_of_some hb]
    exact Block.used_of_isEmpty (by simpa [isEmptyAt, hb] using h)

theorem entries_congr (hblocks : s'.blocks = s.blocks) (hhead : s'.head = s.head) :
    s'.entries = s.entries := by
  have hat : s'.entriesAt = s.entriesAt := funext fun n => by simp only [entriesAt, hblocks]
  rw [entries, entries, linked_congr hblocks hhead, hat]

/-- **One block is replaced**: the count of entries changes by what the block's changes. -/
theorem Sound.entries_set (h : s.Sound) (hb : s.blocks.get? n = some b)
    (hblocks : s'.blocks = s.blocks.set n d) (hlinked : s'.linked = s.linked) :
    s'.entries + b.used = s.entries + d.used := by
  have hget := Registry.get?_set_of_some hb d
  have hold : ∀ m, m ≠ n → s'.entriesAt m = s.entriesAt m := fun m hm => by
    simp only [entriesAt, hblocks, hget, if_neg hm]
  have hsum := sum_map_replace h.lists.nodup (h.mem_linked n b hb) hold
  have hnew : s'.entriesAt n = d.used := entriesAt_of_some (by rw [hblocks, hget, if_pos rfl])
  rw [entriesAt_of_some hb, hnew] at hsum
  rwa [entries, entries, hlinked]

/-- **Empty blocks go**, and with them no entry in use. -/
theorem Without.entries_eq {gone : List Nat} (h : s.Without s' gone) (hs : s.Sound) :
    s'.entries = s.entries := by
  have hkept : (s'.linked.map s'.entriesAt) = s'.linked.map s.entriesAt := by
    refine List.map_congr_left fun n hn => ?_
    obtain ⟨b', hb'⟩ := h.sound.lists.isSome hn
    obtain ⟨-, b, hb, -, hmask⟩ := h.get?_of_get? hs hb'
    rw [entriesAt_of_some hb', entriesAt_of_some hb, Block.used, Block.used, hmask]
  rw [entries, hkept, h.linked_eq]
  refine sum_map_filter fun n _ hgone => entriesAt_of_isEmptyAt (h.empty n ?_)
  simpa using hgone

/-- A block that is linked is empty and takes part in no sum. -/
theorem Extended.entries_eq (h : s.Extended s') (hs : s.Sound)
    (hget : ∀ m, s'.blocks.get? m =
      if m = s.blocks.size + 1 then some { Block.fresh s.id with next := s.head }
      else (s.blocks.get? m).map fun c =>
        { c with prev := if s.head = some m then some (s.blocks.size + 1) else c.prev }) :
    s'.entries = s.entries := by
  have hnew : s'.entriesAt (s.blocks.size + 1) = 0 := by
    rw [entriesAt_of_some ((hget _).trans (if_pos rfl))]
    exact Block.used_of_isEmpty rfl
  have hold : s.linked.map s'.entriesAt = s.linked.map s.entriesAt := by
    refine List.map_congr_left fun n hn => ?_
    have hne : n ≠ s.blocks.size + 1 := by
      have := (hs.lists.bounds hn).2
      omega
    obtain ⟨b, hb⟩ := hs.lists.isSome hn
    rw [entriesAt_of_some hb, entriesAt, hget, if_neg hne, hb]
    rfl
  rw [entries, h.linked_eq, List.map_cons, List.sum_cons, hnew, hold, Nat.zero_add, entries]

/-! ## Operations on entries -/

namespace Balanced

theorem make (id : Nat) (settings : Settings) : (Storage.make id settings).Balanced where
  entries := rfl
  blocks := rfl
  ever := rfl

/-- What a balance speaks of stays the same. -/
theorem congr (h : s.Balanced) (hblocks : s'.blocks = s.blocks) (hhead : s'.head = s.head)
    (hentries : s'.allocationCount = s.allocationCount) (hcount : s'.blockCount = s.blockCount)
    (hever : s'.counters.blocksAllocated = s.counters.blocksAllocated)
    (hdeleted : s'.counters.blocksDeleted = s.counters.blocksDeleted) : s'.Balanced where
  entries := by rw [hentries, h.entries, entries_congr hblocks hhead]
  blocks := by rw [hcount, h.blocks, linked_congr hblocks hhead]
  ever := by rw [hcount, hdeleted, hever, h.ever]

/-- Taking an entry of a block counts one entry more. -/
theorem takeEntry (h : s.Balanced) (hs : s.Sound) (htake : s.takeEntry n = .ok (s', p)) :
    s'.Balanced ∧ s'.allocationCount = s.allocationCount + 1 ∧ s'.counters = s.counters := by
  have hlinked := (hs.shape.takeEntry htake).linked_eq
  obtain ⟨b, d, hb, halloc, -, heq⟩ := takeEntry_inv htake
  have hblocks : s'.blocks = s.blocks.set n d := by rw [heq]
  have hcount : s'.allocationCount = s.allocationCount + 1 := by rw [heq]
  have hsum := hs.entries_set hb hblocks hlinked
  rw [Block.used_allocateEntry halloc] at hsum
  have hentries := h.entries
  refine ⟨⟨by omega, ?_, ?_⟩, hcount, by rw [heq]⟩
  · rw [hlinked, heq]
    exact h.blocks
  · rw [heq]
    exact h.ever

/-- Linking a block counts one block more. -/
theorem link (h : s.Balanced) (hs : s.Sound) : ∃ s₁, s.link = .ok (s₁, s.blocks.size + 1) ∧
    s₁.allocationCount = s.allocationCount ∧
    s₁.counters = { s.counters with blocksAllocated := s.counters.blocksAllocated + 1 } ∧
    { s₁ with available := s₁.available ++ [s.blocks.size + 1] }.Balanced ∧
    { s₁ with available := s₁.available ++ [s.blocks.size + 1] }.Sound := by
  obtain ⟨blocks, hlink, hsize, hget⟩ := hs.lists.link_eq
  set s₁ : Storage := { s with
    blocks
    head := some (s.blocks.size + 1)
    blockCount := s.blockCount + 1
    counters := { s.counters with blocksAllocated := s.counters.blocksAllocated + 1 } }
  have hext : s.Extended { s₁ with available := s₁.available ++ [s.blocks.size + 1] } :=
    hs.extended ⟨rfl, rfl, rfl⟩ rfl rfl hsize hget
  refine ⟨_, hlink, rfl, rfl, ⟨?_, ?_, ?_⟩, hext.sound⟩
  · exact h.entries.trans (hext.entries_eq hs hget).symm
  · change s.blockCount + 1 = _
    rw [hext.linked_eq, h.blocks, List.length_cons]
  · have := h.ever
    change s.blockCount + 1 + s.counters.blocksDeleted = s.counters.blocksAllocated + 1
    omega

/-- **Allocation** counts an entry where it hands one out, and a block where it links one. -/
theorem allocate {a : Allocation} (h : s.Balanced) (hs : s.Sound) (halloc : s.allocate = .ok a) :
    a.storage.Balanced ∧
    a.storage.allocationCount = s.allocationCount + a.place.isSome.toNat ∧
    a.storage.counters =
      { s.counters with blocksAllocated := s.counters.blocksAllocated + a.linked.toNat } := by
  rcases hqueue : s.available with _ | ⟨n, queue⟩
  · by_cases hlimit : s.atLimit = true
    · simp only [Storage.allocate, hqueue, hlimit, if_true, pure, Except.pure] at halloc
      obtain rfl := Except.ok.inj halloc
      exact ⟨h, rfl, rfl⟩
    · obtain ⟨s₁, hlink, hcount₁, hcounters₁, hbalanced₁, hsound₁⟩ := h.link hs
      simp only [Storage.allocate, hqueue, hlimit, hlink, bind, Except.bind, pure, Except.pure]
        at halloc
      rcases htake : { s₁ with available := s₁.available ++ [s.blocks.size + 1] }.takeEntry
        (s.blocks.size + 1) with f | ⟨s', p⟩
      · simp [htake] at halloc
      · obtain ⟨hbalanced, hcount, hcounters⟩ := hbalanced₁.takeEntry hsound₁ htake
        simp only [htake] at halloc
        obtain rfl := Except.ok.inj halloc
        exact ⟨hbalanced, hcount.trans (by rw [hcount₁]; rfl), hcounters.trans hcounters₁⟩
  · rcases htake : s.takeEntry n with f | ⟨s', p⟩
    · simp [Storage.allocate, hqueue, htake, bind, Except.bind] at halloc
    · obtain ⟨hbalanced, hcount, hcounters⟩ := h.takeEntry hs htake
      simp only [Storage.allocate, hqueue, htake, bind, Except.bind, pure, Except.pure] at halloc
      obtain rfl := Except.ok.inj halloc
      exact ⟨hbalanced, hcount, hcounters⟩

/-- **Release** takes one off the count of entries, where there is one to take off. -/
theorem release (h : s.Balanced) (hs : s.Sound) (hp : s.InUse p) (hrelease : s.release p = .ok s') :
    s'.Balanced ∧ s'.allocationCount + 1 = s.allocationCount ∧ s'.counters = s.counters := by
  have hlinked := (hs.shape.release hrelease).linked_eq
  obtain ⟨b, hb, heq⟩ := release_inv hrelease
  obtain ⟨b', hb', hi⟩ := hp
  obtain rfl := Option.some.inj (hb.symm.trans hb')
  have hblocks : s'.blocks = s.blocks.set p.block (b.releaseEntry p.slot).1 := by rw [heq]
  have hcount : s'.allocationCount = s.allocationCount - 1 := by rw [heq]
  have hsum := hs.entries_set hb hblocks hlinked
  have hused := Block.used_releaseEntry hi
  have hentries := h.entries
  refine ⟨⟨by omega, ?_, ?_⟩, by omega, by rw [heq]⟩
  · rw [hlinked, heq]
    exact h.blocks
  · rw [heq]
    exact h.ever

/-- Writing a slot changes no count. -/
theorem store (h : s.Balanced) (hs : s.Sound) (hstore : s.store p v = .ok s') :
    s'.Balanced ∧ s'.allocationCount = s.allocationCount ∧ s'.counters = s.counters := by
  have hlinked := (hs.shape.store hstore).linked_eq
  rcases hb : s.blocks.get? p.block with _ | b
  · simp [Storage.store, updateBlock, block, hb, bind, Except.bind] at hstore
  · obtain rfl := Except.ok.inj ((updateBlock_eq hb _).symm.trans hstore)
    have hblocks : (s.setBlock p.block (b.store p.slot v)).blocks =
      s.blocks.set p.block (b.store p.slot v) := rfl
    have hsum := hs.entries_set hb hblocks hlinked
    rw [Block.used_store, Nat.add_right_cancel_iff] at hsum
    exact ⟨⟨h.entries.trans hsum.symm, by rw [hlinked]; exact h.blocks, h.ever⟩, rfl, rfl⟩

end Balanced

/-! ## Deletion -/

/-- **The moments of a deletion**: how many blocks it has freed, the storage at that moment and the
block that it looks at next. -/
inductive Deleting (yielding : Bool) (s : Storage) : Nat → Storage → Option Nat → Prop
  /-- It starts at the head of the list. -/
  | start : Deleting yielding s 0 s s.head
  /-- A block with an entry in use is passed over. -/
  | passed {k n : Nat} {t : Storage} {i : Inspection} (h : Deleting yielding s k t (some n))
      (hinspect : t.inspect yielding n = .ok i) (hfinding : i.finding = .occupied) :
      Deleting yielding s k i.storage i.next
  /-- At an empty block it gives way to a pass. -/
  | stopped {k n : Nat} {t : Storage} {i : Inspection} (h : Deleting yielding s k t (some n))
      (hinspect : t.inspect yielding n = .ok i) (hfinding : i.finding = .inhibited) :
      Deleting yielding s k i.storage none
  /-- An empty block, which has been taken out of the list, is freed. -/
  | freed {k n : Nat} {t u : Storage} {i : Inspection} (h : Deleting yielding s k t (some n))
      (hinspect : t.inspect yielding n = .ok i) (hfinding : i.finding = .unlinked)
      (hreclaim : i.storage.reclaim n = .ok u) : Deleting yielding s (k + 1) u i.next

/-- The walk of a deletion goes through these moments and ends at one of them. -/
theorem Deleting.of_deleteFrom {yielding : Bool} {d : Deletion} : ∀ (turns k : Nat) (t : Storage)
    (c : Option Nat), s.Deleting yielding k t c → deleteFrom yielding turns t c k = .ok d →
      ∃ c', s.Deleting yielding d.deleted d.storage c' := by
  intro turns
  induction turns with
  | zero =>
      intro k t c h hrun
      cases c with
      | none => obtain rfl := Except.ok.inj hrun; exact ⟨_, h⟩
      | some n => cases hrun
  | succ turns ih =>
      intro k t c h hrun
      cases c with
      | none => obtain rfl := Except.ok.inj hrun; exact ⟨_, h⟩
      | some n =>
          rcases hinspect : t.inspect yielding n with f | i
          · simp [deleteFrom, hinspect, bind, Except.bind] at hrun
          rcases hfinding : i.finding with _ | _ | _
          · simp only [deleteFrom, hinspect, hfinding, bind, Except.bind] at hrun
            exact ih k i.storage i.next (h.passed hinspect hfinding) hrun
          · simp only [deleteFrom, hinspect, hfinding, bind, Except.bind] at hrun
            obtain rfl := Except.ok.inj hrun
            exact ⟨none, h.stopped hinspect hfinding⟩
          · rcases hreclaim : i.storage.reclaim n with f | u
            · simp [deleteFrom, hinspect, hfinding, hreclaim, bind, Except.bind] at hrun
            · simp only [deleteFrom, hinspect, hfinding, hreclaim, bind, Except.bind] at hrun
              exact ih (k + 1) u i.next (h.freed hinspect hfinding hreclaim) hrun

/-- **What a deletion does at a block**: it leaves the storage as it is, or it frees the block and
counts one block less. -/
theorem Sound.inspect_cases {yielding : Bool} {rest : List Nat} {i : Inspection} (h : s.Sound)
    (hsuf : n :: rest <:+ s.linked) (hinspect : s.inspect yielding n = .ok i) :
    i.next = rest.head? ∧ (i.finding ≠ .unlinked ∧ i.storage = s ∨
      i.finding = .unlinked ∧ i.storage.blockCount = s.blockCount ∧
        ∀ u, i.storage.reclaim n = .ok u → s.Without u [n] ∧ rest <:+ u.linked ∧
          u.allocationCount = s.allocationCount ∧ u.blockCount = s.blockCount - 1 ∧
          u.counters = s.counters) := by
  obtain ⟨l₁, hl⟩ := hsuf
  obtain ⟨b, hb, hnext, -⟩ := h.lists.links l₁ n rest hl.symm
  have hn : n ∈ s.linked := by simp [← hl]
  rcases hempty : b.isEmpty with _ | _
  · obtain rfl := Except.ok.inj ((inspect_of_occupied hb hempty).symm.trans hinspect)
    exact ⟨hnext, Or.inl ⟨by simp, rfl⟩⟩
  rcases hflag : yielding && s.iterating with _ | _
  · obtain ⟨s₁, u, hunlink, hreclaim, hwithout⟩ := h.remove hn (by simp [isEmptyAt, hb, hempty])
    obtain rfl := Except.ok.inj ((inspect_of_unlinked hb hempty hflag hunlink).symm.trans hinspect)
    have hlists := h.lists
    rw [← hl] at hlists
    obtain ⟨blocks, hunlink', -⟩ := hlists.unlink_eq
    obtain rfl := Except.ok.inj (hunlink.symm.trans hunlink')
    refine ⟨hnext, Or.inr ⟨rfl, rfl, fun u' hreclaim' => ?_⟩⟩
    obtain rfl := Except.ok.inj (hreclaim.symm.trans hreclaim')
    obtain ⟨_, -, rfl⟩ := reclaim_inv hreclaim
    refine ⟨hwithout, ?_, rfl, rfl, rfl⟩
    have hrest : rest.filter (· ∉ [n]) = rest := List.filter_eq_self.2 fun m hm => by
      have hnd := h.lists.nodup
      rw [← hl, List.nodup_append, List.nodup_cons] at hnd
      have hne : m ≠ n := fun e => hnd.2.1.1 (e ▸ hm)
      simpa using hne
    rw [hwithout.linked_eq, ← hl, List.filter_append, List.filter_cons, hrest]
    simp
  · obtain rfl := Except.ok.inj ((inspect_of_inhibited hb hempty hflag).symm.trans hinspect)
    exact ⟨hnext, Or.inl ⟨by simp, rfl⟩⟩

/-- What holds of every moment of a deletion. -/
structure Halfway (s : Storage) (k : Nat) (t : Storage) (c : Option Nat) : Prop where
  sound : t.Sound
  entries_eq : t.entries = s.entries
  allocationCount_eq : t.allocationCount = s.allocationCount
  counters_eq : t.counters = s.counters
  /-- The count of blocks goes down with the list. -/
  blocks : t.blockCount = t.linked.length
  /-- It has gone down by as much as was freed. -/
  freed : t.blockCount + k = s.blockCount
  /-- The cursor stands before a rest of the list. -/
  on_list : ∃ rest, rest <:+ t.linked ∧ c = rest.head?

/-- **There is a block to take off the count** where one is about to be freed. -/
theorem Halfway.blockCount_pos {yielding : Bool} {k : Nat} {t : Storage} {i : Inspection}
    (h : s.Halfway k t (some n)) (hinspect : t.inspect yielding n = .ok i)
    (hfinding : i.finding = .unlinked) : 0 < i.storage.blockCount := by
  obtain ⟨rest, hsuf, hrest⟩ := h.on_list
  obtain ⟨tail, rfl⟩ := List.head?_eq_some_iff.1 hrest.symm
  obtain ⟨-, ⟨hnot, -⟩ | ⟨-, hcount, -⟩⟩ := h.sound.inspect_cases hsuf hinspect
  · exact absurd hfinding hnot
  · rw [hcount, h.blocks]
    exact List.length_pos_of_mem (hsuf.subset List.mem_cons_self)

/-- **It holds of every moment of a deletion.** -/
theorem Deleting.halfway {yielding : Bool} {k : Nat} {t : Storage} {c : Option Nat}
    (h : s.Deleting yielding k t c) (hs : s.Sound) (hbalanced : s.Balanced) : s.Halfway k t c := by
  induction h with
  | start =>
      exact ⟨hs, rfl, rfl, rfl, hbalanced.blocks, rfl, s.linked, List.suffix_refl _,
        hs.lists.head_eq⟩
  | @passed k n t i h hinspect hfinding ih =>
      obtain ⟨rest, hsuf, hrest⟩ := ih.on_list
      obtain ⟨tail, rfl⟩ := List.head?_eq_some_iff.1 hrest.symm
      obtain ⟨hnext, ⟨-, hsame⟩ | ⟨hunlinked, -⟩⟩ := ih.sound.inspect_cases hsuf hinspect
      · rw [hsame]
        exact { ih with on_list := ⟨tail, (List.suffix_cons n tail).trans hsuf, hnext⟩ }
      · simp [hfinding] at hunlinked
  | @stopped k n t i h hinspect hfinding ih =>
      obtain ⟨rest, hsuf, hrest⟩ := ih.on_list
      obtain ⟨tail, rfl⟩ := List.head?_eq_some_iff.1 hrest.symm
      obtain ⟨-, ⟨-, hsame⟩ | ⟨hunlinked, -⟩⟩ := ih.sound.inspect_cases hsuf hinspect
      · rw [hsame]
        exact { ih with on_list := ⟨[], List.nil_suffix, rfl⟩ }
      · simp [hfinding] at hunlinked
  | @freed k n t u i h hinspect hfinding hreclaim ih =>
      obtain ⟨rest, hsuf, hrest⟩ := ih.on_list
      obtain ⟨tail, rfl⟩ := List.head?_eq_some_iff.1 hrest.symm
      have hpos := ih.blockCount_pos hinspect hfinding
      obtain ⟨hnext, ⟨hnot, -⟩ | ⟨-, hcount, hfreed⟩⟩ := ih.sound.inspect_cases hsuf hinspect
      · exact absurd hfinding hnot
      obtain ⟨hwithout, hsuf', hentries, hblocks, hcounters⟩ := hfreed u hreclaim
      have hlength : u.linked.length = t.linked.length - 1 := by
        rw [← List.length_erase_of_mem (hsuf.subset List.mem_cons_self), hwithout.linked_eq,
          ih.sound.lists.nodup.erase_eq_filter]
        exact congrArg List.length (List.filter_congr fun m _ => by
          by_cases hm : m = n <;> simp [hm])
      have hfreed := ih.freed
      have hblocks' := ih.blocks
      exact ⟨hwithout.sound, (hwithout.entries_eq ih.sound).trans ih.entries_eq,
        hentries.trans ih.allocationCount_eq, hcounters.trans ih.counters_eq, by omega, by omega,
        tail, hsuf', hnext⟩

/-- **Deletion** takes off the count of blocks what it adds to the count of blocks deleted. -/
theorem Balanced.deleteEmpty {yielding : Bool} {d : Deletion} (h : s.Balanced) (hs : s.Sound)
    (hdelete : s.deleteEmpty yielding = .ok d) :
    d.storage.Balanced ∧ d.storage.allocationCount = s.allocationCount ∧
    d.storage.counters = { s.counters with
      blocksDeleted := s.counters.blocksDeleted + d.deleted
      deletionsInhibited := s.counters.deletionsInhibited +
        (yielding && s.iterating && s.linked.any s.isEmptyAt).toNat } := by
  obtain ⟨d', gone, hdelete', hwithout, -, -, hinhibited⟩ := hs.deleteEmpty yielding
  obtain rfl := Except.ok.inj (hdelete.symm.trans hdelete')
  rcases hwalk : deleteFrom yielding s.blocks.size s s.head 0 with f | e
  · simp [Storage.deleteEmpty, hwalk, bind, Except.bind] at hdelete
  obtain ⟨c, hmoment⟩ := Deleting.of_deleteFrom _ _ _ _ .start hwalk
  have hhalf := hmoment.halfway hs h
  simp only [Storage.deleteEmpty, hwalk, bind, Except.bind, pure, Except.pure] at hdelete
  obtain rfl := Except.ok.inj hdelete
  have hever := h.ever
  have hfreed := hhalf.freed
  have hlinked : ∀ counters, ({ e.storage with counters } : Storage).linked = e.storage.linked :=
    fun _ => linked_congr rfl rfl
  have hentries : ∀ counters, ({ e.storage with counters } : Storage).entries = e.storage.entries :=
    fun _ => entries_congr rfl rfl
  refine ⟨⟨?_, ?_, ?_⟩, hhalf.allocationCount_eq, ?_⟩
  · rw [hentries, hhalf.entries_eq, ← h.entries]
    exact hhalf.allocationCount_eq
  · rw [hlinked]
    exact hhalf.blocks
  · simp only [hhalf.counters_eq]
    omega
  · simp only [hhalf.counters_eq, ← hinhibited]

end Storage

end RootStore
