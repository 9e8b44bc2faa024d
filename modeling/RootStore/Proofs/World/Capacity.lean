import RootStore.Proofs.World.Accounts
import RootStore.Proofs.World.Queue

/-!
# How far a storage grows

An allocation looks at the queue and at the count of blocks, and at nothing else.  Since the queue
holds the blocks with a free entry and the counts are exact, what it decides is a matter of two
numbers: the storage grows where all entries of its blocks are in use, and it refuses where that
many entries are in use as its limit allows for.

* `Storage.Balanced.available_eq_nil_iff` — **the queue is empty exactly where all entries are in
  use.**
* `Storage.Operated.blockCount_cases` — what an operation does to the count of blocks.
* `World.peak` — the most entries that were in use at a time in the course of a run.
* `World.Capacity`, `World.capacity` — **what is said of growth, and that it holds of every run.**
-/

namespace RootStore

/-! ## How much blocks hold -/

namespace Mask

variable {m : Mask}

/-- As many indices as there are slots are in use exactly in the full mask. -/
theorem length_indices_eq_iff : m.indices.length = blockSize ↔ m = full := by
  have hall := List.length_filter_eq_length_iff (p := m.contains) (l := List.finRange 64)
  rw [List.length_finRange] at hall
  rw [eq_full_iff]
  exact hall.trans ⟨fun h i => h i (List.mem_finRange i), fun h i _ => h i⟩

end Mask

namespace Block

variable {b : Block}

theorem used_le (b : Block) : b.used ≤ blockSize := Mask.length_indices_le b.mask

theorem used_eq_iff : b.used = blockSize ↔ b.isFull = true := by
  simp [used, Mask.length_indices_eq_iff, isFull]

end Block

/-- A sum of terms that are at most `k` each is at most `k` for each of them. -/
theorem sum_map_le {l : List Nat} {f : Nat → Nat} {k : Nat} (hle : ∀ n ∈ l, f n ≤ k) :
    (l.map f).sum ≤ k * l.length := by
  have hsum := List.sum_le_card_nsmul (l.map f) k (by simpa using hle)
  rwa [List.length_map, smul_eq_mul, Nat.mul_comm] at hsum

/-- It is that much exactly where each of them is `k`. -/
theorem sum_map_eq_iff {l : List Nat} {f : Nat → Nat} {k : Nat} (hle : ∀ n ∈ l, f n ≤ k) :
    (l.map f).sum = k * l.length ↔ ∀ n ∈ l, f n = k := by
  induction l with
  | nil => simp
  | cons n l ih =>
      have hn := hle n List.mem_cons_self
      have hle' : ∀ m ∈ l, f m ≤ k := fun m hm => hle m (List.mem_cons_of_mem _ hm)
      have hrest := sum_map_le hle'
      simp only [List.map_cons, List.sum_cons, List.length_cons, Nat.mul_add, List.forall_mem_cons,
        ← ih hle']
      omega

namespace Storage

variable {s s' : Storage} {id n m : Nat} {e : Event}

theorem entriesAt_le (s : Storage) (n : Nat) : s.entriesAt n ≤ blockSize := by
  rcases hb : s.blocks.get? n with _ | b
  · simp [entriesAt, hb]
  · rw [entriesAt_of_some hb]
    exact b.used_le

theorem atLimit_eq_false_iff :
    s.atLimit = false ↔ ∀ m, s.settings.maxBlocks = some m → s.blockCount < m := by
  rcases hmax : s.settings.maxBlocks with _ | m <;> simp [atLimit, hmax]

/-- All entries of the linked blocks are in use exactly where none of the blocks is open. -/
theorem Sound.entries_eq_iff (h : s.Sound) :
    s.entries = blockSize * s.linked.length ↔ s.available = [] := by
  rw [entries, sum_map_eq_iff fun n _ => s.entriesAt_le n, List.eq_nil_iff_forall_not_mem]
  constructor
  · intro hall n hn
    obtain ⟨b, hb, hopen⟩ := (h.mem_available n).1 hn
    have hused := hall n (h.mem_linked n b hb)
    rw [entriesAt_of_some hb, Block.used_eq_iff, hopen] at hused
    cases hused
  · intro hnone n hn
    obtain ⟨b, hb⟩ := h.lists.isSome hn
    rw [entriesAt_of_some hb, Block.used_eq_iff]
    by_contra hopen
    exact hnone n ((h.mem_available n).2 ⟨b, hb, by simpa using hopen⟩)

namespace Balanced

theorem allocationCount_le (h : s.Balanced) : s.allocationCount ≤ blockSize * s.blockCount := by
  rw [h.entries, h.blocks]
  exact sum_map_le fun n _ => s.entriesAt_le n

/-- **The queue is empty exactly where all entries are in use**, by the counts alone. -/
theorem available_eq_nil_iff (h : s.Balanced) (hs : s.Sound) :
    s.available = [] ↔ s.allocationCount = blockSize * s.blockCount := by
  rw [h.entries, h.blocks, hs.entries_eq_iff]

end Balanced

/-! ## What an operation does to the count of blocks -/

/-- No block is added, but by an allocation that finds no block open and does not stand at the
limit. -/
theorem Operated.blockCount_cases (hop : s.Operated id e s') (hs : s.Sound) (h : s.Balanced)
    (h' : s'.Balanced) : s'.blockCount ≤ s.blockCount ∨
      s.available = [] ∧ s.atLimit = false ∧ s'.blockCount = s.blockCount + 1 ∧
        s'.allocationCount = s.allocationCount + 1 := by
  have hkept : s'.linked = s.linked → s'.blockCount ≤ s.blockCount := fun heq => by
    rw [h.blocks, h'.blocks, heq]
  cases hop with
  | allocated halloc =>
      have hcount := (h.allocate hs halloc).2.1
      rcases hs.allocate_cases with ⟨-, -, heq⟩ | ⟨t, p, -, hent, heq⟩ |
        ⟨t, u, p, hqueue, hlimit, -, hext, hent, heq⟩
      · obtain rfl := Except.ok.inj (halloc.symm.trans heq)
        exact Or.inl (Nat.le_refl _)
      · obtain rfl := Except.ok.inj (halloc.symm.trans heq)
        exact Or.inl (hkept hent.linked_eq)
      · obtain rfl := Except.ok.inj (halloc.symm.trans heq)
        refine Or.inr ⟨hqueue, hlimit, ?_, hcount⟩
        rw [h.blocks, h'.blocks, hent.linked_eq, hext.linked_eq, List.length_cons]
  | released hrelease => exact Or.inl (hkept (hs.shape.release hrelease).linked_eq)
  | stored hstore => exact Or.inl (hkept (hs.shape.store hstore).linked_eq)
  | @deleted _ d yielding hdelete =>
      obtain ⟨d', gone, heq, hwithout, -⟩ := hs.deleteEmpty yielding
      obtain rfl := Except.ok.inj (heq.symm.trans hdelete)
      refine Or.inl ?_
      rw [h.blocks, h'.blocks, hwithout.linked_eq]
      exact List.length_filter_le _ _
  | marked iterating counters => exact Or.inl (hkept (linked_congr rfl rfl))

end Storage

namespace World

variable {w : World} {id : Nat} {s : Storage} {steps : List Step}

/-! ## What an allocation answers -/

/-- What comes of an allocation in the world. -/
theorem perform_allocate {a : Allocation} (hs : w.storages.get? id = some s)
    (halloc : s.allocate = .ok a) :
    (w.perform (.allocate id)).1.storages = w.storages.set id a.storage ∧
      (w.perform (.allocate id)).2 = .allocated (a.place.map fun _ => w.handles.size + 1) := by
  rcases a with ⟨s', place, linked⟩
  cases place <;>
    simp [perform, act, World.allocate, storage_of_some hs, halloc, Failure.ofFault,
      Except.map, bind, Except.bind, pure, Except.pure, World.setStorage, World.record]

/-- A block is linked where no block is open and the limit allows another. -/
theorem Sound.allocate_links_iff (h : w.Sound) (hs : w.storages.get? id = some s) :
    (∃ n, (Step.mk w (.allocate id)).Links id n) ↔ s.available = [] ∧ s.atLimit = false := by
  have hsound := (h.storages id s hs).2
  -- a step links a block where the list after it has a new member
  have hlinks : ∀ {a : Allocation}, s.allocate = .ok a →
      ((∃ n, (Step.mk w (.allocate id)).Links id n) ↔ ∃ n ∈ a.storage.linked, n ∉ s.linked) := by
    intro a halloc
    have hafter : (Step.mk w (.allocate id)).after.storages.get? id = some a.storage := by
      rw [Step.after, (perform_allocate hs halloc).1, Registry.get?_set_of_some hs, if_pos rfl]
    simp only [Step.Links, hafter, hs, Option.some.injEq, forall_eq', exists_eq_left']
  rcases hsound.allocate_cases with ⟨-, hlimit, heq⟩ | ⟨t, p, hqueue, hent, heq⟩ |
    ⟨t, u, p, hqueue, hlimit, -, hext, hent, heq⟩
  · simp [hlinks heq, hlimit]
  · have hne : s.available ≠ [] := fun hnil => by simp [hnil] at hqueue
    simp [hlinks heq, hent.linked_eq, hne]
  · refine (hlinks heq).trans (iff_of_true ⟨s.blocks.size + 1, ?_, fun hn => ?_⟩ ⟨hqueue, hlimit⟩)
    · rw [hent.linked_eq, hext.linked_eq]
      exact List.mem_cons_self
    · have := (hsound.lists.bounds hn).2
      omega

/-- An allocation is answered, and refused where no block is open and the limit forbids another. -/
theorem Sound.allocate_reply (h : w.Sound) (hs : w.storages.get? id = some s) :
    ∃ handle, (w.perform (.allocate id)).2 = .allocated handle ∧
      (handle = none ↔ s.available = [] ∧ s.atLimit = true) := by
  have hsound := (h.storages id s hs).2
  rcases hsound.allocate_cases with ⟨hqueue, hlimit, heq⟩ | ⟨t, p, hqueue, -, heq⟩ |
    ⟨t, u, p, -, hlimit, -, -, -, heq⟩
  · exact ⟨_, (perform_allocate hs heq).2, by simp [hqueue, hlimit]⟩
  · have hne : s.available ≠ [] := fun hnil => by simp [hnil] at hqueue
    exact ⟨_, (perform_allocate hs heq).2, by simp [hne]⟩
  · exact ⟨_, (perform_allocate hs heq).2, by simp [hlimit]⟩

/-! ## Along a run -/

/-- How many entries of the storage are in use; none where it is not there. -/
def entriesOf (w : World) (id : Nat) : Nat := ((w.storages.get? id).map (·.allocationCount)).getD 0

/-- The most entries of the storage that were in use at a time, so far. -/
def peak (id : Nat) (steps : List Step) : Nat :=
  steps.foldl (fun most st => max most (st.after.entriesOf id)) 0

theorem peak_snoc (id : Nat) (steps : List Step) (st : Step) :
    peak id (steps ++ [st]) = max (peak id steps) (st.after.entriesOf id) := by
  simp [peak]

/-- **A storage keeps to its limit, and to what its entries ever needed.** -/
theorem Run.blockCount_le (h : Run {} steps w) (hs : w.storages.get? id = some s) :
    (∀ m, s.settings.maxBlocks = some m → s.blockCount ≤ m) ∧
      s.blockCount ≤ peak id steps ⌈/⌉ blockSize := by
  refine h.storage_induction (P := fun steps s =>
    (∀ m, s.settings.maxBlocks = some m → s.blockCount ≤ m) ∧
      s.blockCount ≤ peak id steps ⌈/⌉ blockSize)
    (fun steps settings => ⟨fun _ _ => Nat.zero_le _, Nat.zero_le _⟩) ?_ hs
  intro steps st s s' hrun hs hs' hsound hsound' hop ⟨hlimit, hpeak⟩
  have hbefore := (hrun.snoc_inv.1.account hs).balanced
  have hafter := (hrun.account hs').balanced
  have hentries : st.after.entriesOf id = s'.allocationCount := by simp [entriesOf, hs']
  have hsettings := hop.settings_eq hsound
  rcases hop.blockCount_cases hsound hbefore hafter with hle | ⟨hqueue, hroom, hblocks, hcount⟩
  · rw [hsettings]
    refine ⟨fun m hm => hle.trans (hlimit m hm), hle.trans (hpeak.trans ?_)⟩
    rw [peak_snoc, Nat.ceilDiv_eq_add_pred_div, Nat.ceilDiv_eq_add_pred_div]
    exact Nat.div_le_div_right (by omega)
  · -- the first entry of a new block is one more than the others hold
    have hfull := (hbefore.available_eq_nil_iff hsound).1 hqueue
    rw [hsettings, hblocks, peak_snoc, hentries]
    refine ⟨fun m hm => Storage.atLimit_eq_false_iff.1 hroom m hm, ?_⟩
    rw [Nat.ceilDiv_eq_add_pred_div]
    simp only [blockSize] at hfull ⊢
    omega

/-- **How far storages grow**, in a run of these steps up to the world `w`. -/
structure Capacity (steps : List Step) (w : World) : Prop where
  /-- An allocation links a block exactly where all entries of the blocks are in use and the limit
  allows another block. -/
  links_iff : ∀ id s, w.storages.get? id = some s →
    ((∃ n, (Step.mk w (.allocate id)).Links id n) ↔
      s.allocationCount = blockSize * s.blockCount ∧
        ∀ m, s.settings.maxBlocks = some m → s.blockCount < m)
  /-- A limit is kept to. -/
  within : ∀ id s m, w.storages.get? id = some s → s.settings.maxBlocks = some m →
    s.blockCount ≤ m ∧ s.allocationCount ≤ blockSize * m
  /-- Under a limit an allocation is refused exactly where so many entries are in use as it allows
  for, and otherwise a handle is issued. -/
  limited : ∀ id s m, w.storages.get? id = some s → s.settings.maxBlocks = some m →
    ∃ handle, (w.perform (.allocate id)).2 = .allocated handle ∧
      (handle = none ↔ s.allocationCount = blockSize * m)
  /-- Without a limit a handle is always issued. -/
  unlimited : ∀ id s, w.storages.get? id = some s → s.settings.maxBlocks = none →
    ∃ number, (w.perform (.allocate id)).2 = .allocated (some number)
  /-- Whether an allocation is refused depends on the limit and on how many entries are in use, in
  whatever way the storage has come there. -/
  alike : ∀ id s id' s' (w' : World), w.storages.get? id = some s → w'.Reachable →
    w'.storages.get? id' = some s' → s'.settings.maxBlocks = s.settings.maxBlocks →
    s'.allocationCount = s.allocationCount →
    ((w'.perform (.allocate id')).2 = .allocated none ↔
      (w.perform (.allocate id)).2 = .allocated none)
  /-- There are no more blocks than the most entries needed that were in use at a time. -/
  peak : ∀ id s, w.storages.get? id = some s → s.blockCount ≤ peak id steps ⌈/⌉ blockSize

/-- Under a limit an allocation is refused exactly where so many entries are in use as it allows
for. -/
theorem Run.refused_iff (h : Run {} steps w) (hs : w.storages.get? id = some s) :
    ∃ handle, (w.perform (.allocate id)).2 = .allocated handle ∧
      (handle = none ↔ ∃ m, s.settings.maxBlocks = some m ∧ s.allocationCount = blockSize * m) := by
  have hw := h.sound .init
  have hbalanced := (h.account hs).balanced
  have hle := (h.blockCount_le hs).1
  have hentries := hbalanced.allocationCount_le
  obtain ⟨handle, hreply, hnone⟩ := hw.allocate_reply hs
  refine ⟨handle, hreply, hnone.trans ?_⟩
  rw [hbalanced.available_eq_nil_iff (hw.storages id s hs).2]
  rcases hmax : s.settings.maxBlocks with _ | m
  · simp [Storage.atLimit, hmax]
  · have hm := hle m hmax
    have hat : s.atLimit = true ↔ m ≤ s.blockCount := by simp [Storage.atLimit, hmax]
    simp only [hat, Option.some.injEq, exists_eq_left', blockSize] at hentries ⊢
    omega

/-- **Growth goes by the counts alone**, in every run. -/
theorem capacity (h : Run {} steps w) : Capacity steps w where
  links_iff := fun id s hs => by
    have hw := h.sound .init
    rw [hw.allocate_links_iff hs, Storage.atLimit_eq_false_iff,
      (h.account hs).balanced.available_eq_nil_iff (hw.storages id s hs).2]
  within := fun id s m hs hm => by
    have hle := (h.blockCount_le hs).1 m hm
    exact ⟨hle, (h.account hs).balanced.allocationCount_le.trans (Nat.mul_le_mul_left _ hle)⟩
  limited := fun id s m hs hm => by
    obtain ⟨handle, hreply, hnone⟩ := h.refused_iff hs
    exact ⟨handle, hreply, hnone.trans (by simp [hm])⟩
  unlimited := fun id s hs hm => by
    obtain ⟨_ | number, hreply, hnone⟩ := h.refused_iff hs
    · simp [hm] at hnone
    · exact ⟨number, hreply⟩
  alike := by
    rintro id s id' s' w' hs ⟨steps', h'⟩ hs' hmax hcount
    obtain ⟨handle, hreply, hnone⟩ := h.refused_iff hs
    obtain ⟨handle', hreply', hnone'⟩ := h'.refused_iff hs'
    rw [hmax, hcount] at hnone'
    rw [hreply, hreply', Reply.allocated.injEq, Reply.allocated.injEq, hnone, hnone']
  peak := fun id s hs => (h.blockCount_le hs).2

/-- A storage that may hold one block is filled, refuses an entry, and has one for whom one was
released; one that may hold none refuses at once. -/
theorem capacity_of_limits :
    let filled : List Event := .create { maxBlocks := some 1 } :: .create { maxBlocks := some 0 } ::
      List.replicate 65 (.allocate 1)
    let events := filled ++ [.release 1 3]
    let w := ({} : World).afterAll events
    (({} : World).afterAll filled).entriesOf 1 = 64 ∧ peak 1 (({} : World).trail events) = 64 ∧
    ((({} : World).afterAll filled).perform (.allocate 1)).2 = .allocated none ∧
    (w.perform (.allocate 1)).2 = .allocated (some 65) ∧
    (w.perform (.allocate 2)).2 = .allocated none ∧ Capacity (({} : World).trail events) w := by
  refine ⟨by decide +kernel, by decide +kernel, by decide +kernel, by decide +kernel,
    by decide +kernel, ?_⟩
  exact capacity (run_trail _ _ (by decide +kernel))

end World

end RootStore
