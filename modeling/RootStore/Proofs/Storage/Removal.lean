import RootStore.Proofs.Storage.Sound
import RootStore.Storage.Deletion

/-!
# Removing blocks

Blocks leave a storage in two ways: deletion takes the empty ones out of list, queue and memory one
by one, and disposal takes all of them out of memory.  Neither ever meets a block that is no longer
there.

* `Storage.Without` — a storage without some of its empty blocks, told through the views.
* `Storage.Lists.unlink_eq`, `Storage.Sound.remove` — one block out of the list, and out of memory.
* `Storage.Sound.deleteEmpty` — **deletion takes out exactly the empty blocks**, or none where it
  gives way to a pass.
* `Storage.Sound.dispose` — disposal ends with no block left.
-/

namespace RootStore

namespace Storage

variable {s s' : Storage} {n : Nat} {b b' : Block} {p q : Place} {v : Option Reference}

/-- Is there an empty block with this number? -/
def isEmptyAt (s : Storage) (n : Nat) : Bool := (s.blocks.get? n).any Block.isEmpty

/-- The storage `s'` is `s` without the blocks `gone`, which are empty. -/
structure Without (s s' : Storage) (gone : List Nat) : Prop where
  sound : s'.Sound
  frame : s.SameFrame s'
  size_eq : s'.blocks.size = s.blocks.size
  linked_eq : s'.linked = s.linked.filter (· ∉ gone)
  available_eq : s'.available = s.available.filter (· ∉ gone)
  empty : ∀ n ∈ gone, s.isEmptyAt n = true
  kept : ∀ n, n ∉ gone → ∀ b, s.blocks.get? n = some b →
    ∃ b', s'.blocks.get? n = some b' ∧ b'.slots = b.slots ∧ b'.mask = b.mask

theorem Sound.congr (h : s.Sound) (hid : s'.id = s.id) (hblocks : s'.blocks = s.blocks)
    (hhead : s'.head = s.head) (hqueue : s'.available = s.available) : s'.Sound where
  lists := by
    rw [linked_congr hblocks hhead]
    exact h.lists.congr hhead fun m _ c hc => ⟨c, by rw [hblocks, hc], rfl, rfl⟩
  mem_linked := by rw [linked_congr hblocks hhead, hblocks]; exact h.mem_linked
  owner := by rw [hblocks, hid]; exact h.owner
  nodup_available := by rw [hqueue]; exact h.nodup_available
  mem_available := by rw [hqueue, hblocks]; exact h.mem_available

theorem SameFrame.trans {s₁ s₂ : Storage} (h : s.SameFrame s₁) (h' : s₁.SameFrame s₂) :
    s.SameFrame s₂ :=
  ⟨h'.id_eq.trans h.id_eq, h'.settings_eq.trans h.settings_eq, h'.iterating_eq.trans h.iterating_eq⟩

namespace Without

variable {gone gone' : List Nat}

/-- Nothing removed, nothing changed. -/
theorem refl (h : s.Sound) : s.Without s [] :=
  ⟨h, ⟨rfl, rfl, rfl⟩, rfl, by simp, by simp, by simp, fun _ _ b hb => ⟨b, hb, rfl, rfl⟩⟩

/-- A block that is kept is as empty as it was. -/
theorem isEmptyAt_eq (h : s.Without s' gone) (hs : s.Sound) (hn : n ∉ gone) :
    s'.isEmptyAt n = s.isEmptyAt n := by
  rcases hb : s.blocks.get? n with _ | b
  · have hnone : s'.blocks.get? n = none := by
      rcases hb' : s'.blocks.get? n with _ | b'
      · rfl
      · have hmem := h.sound.mem_linked n b' hb'
        rw [h.linked_eq] at hmem
        obtain ⟨c, hc⟩ := hs.lists.isSome (List.mem_of_mem_filter hmem)
        simp [hb] at hc
    simp [isEmptyAt, hb, hnone]
  · obtain ⟨b', hb', -, hmask⟩ := h.kept n hn b hb
    simp [isEmptyAt, hb, hb', Block.isEmpty, hmask]

/-- Removing some blocks and then some more. -/
theorem trans {s₁ : Storage} (hs : s.Sound) (h : s.Without s₁ gone) (h' : s₁.Without s' gone') :
    s.Without s' (gone ++ gone') where
  sound := h'.sound
  frame := h.frame.trans h'.frame
  size_eq := h'.size_eq.trans h.size_eq
  linked_eq := by
    rw [h'.linked_eq, h.linked_eq, List.filter_filter]
    simp [Bool.and_comm]
  available_eq := by
    rw [h'.available_eq, h.available_eq, List.filter_filter]
    simp [Bool.and_comm]
  empty := by
    intro n hn
    by_cases hg : n ∈ gone
    · exact h.empty n hg
    · rw [← h.isEmptyAt_eq hs hg]
      exact h'.empty n ((List.mem_append.1 hn).resolve_left hg)
  kept := by
    intro n hn b hb
    rw [List.mem_append, not_or] at hn
    obtain ⟨b₁, hb₁, hslots₁, hmask₁⟩ := h.kept n hn.1 b hb
    obtain ⟨b₂, hb₂, hslots₂, hmask₂⟩ := h'.kept n hn.2 b₁ hb₁
    exact ⟨b₂, hb₂, hslots₂.trans hslots₁, hmask₂.trans hmask₁⟩

/-- What else changes about a storage does not matter. -/
theorem congr {s₁ : Storage} (h : s.Without s₁ gone) (hframe : s₁.SameFrame s')
    (hblocks : s'.blocks = s₁.blocks) (hhead : s'.head = s₁.head)
    (hqueue : s'.available = s₁.available) : s.Without s' gone where
  sound := h.sound.congr hframe.id_eq hblocks hhead hqueue
  frame := h.frame.trans hframe
  size_eq := by rw [hblocks, h.size_eq]
  linked_eq := by rw [linked_congr hblocks hhead, h.linked_eq]
  available_eq := by rw [hqueue, h.available_eq]
  empty := h.empty
  kept := by rw [hblocks]; exact h.kept

/-- A block of the smaller storage is one of the larger, with the same entries. -/
theorem get?_of_get? (h : s.Without s' gone) (hs : s.Sound) (hb' : s'.blocks.get? n = some b') :
    n ∉ gone ∧ ∃ b, s.blocks.get? n = some b ∧ b'.slots = b.slots ∧ b'.mask = b.mask := by
  have hmem := h.sound.mem_linked n b' hb'
  rw [h.linked_eq, List.mem_filter, decide_eq_true_eq] at hmem
  obtain ⟨b, hb⟩ := hs.lists.isSome hmem.1
  obtain ⟨c, hc, hslots, hmask⟩ := h.kept n hmem.2 b hb
  obtain rfl := Option.some.inj (hb'.symm.trans hc)
  exact ⟨hmem.2, b, hb, hslots, hmask⟩

/-- **No entry in use is lost**, since only empty blocks go. -/
theorem inUse_iff (h : s.Without s' gone) (hs : s.Sound) : s'.InUse p ↔ s.InUse p := by
  constructor
  · rintro ⟨b', hb', hi⟩
    obtain ⟨-, b, hb, -, hmask⟩ := h.get?_of_get? hs hb'
    exact ⟨b, hb, by simpa [Block.inUse, hmask] using hi⟩
  · rintro ⟨b, hb, hi⟩
    have hkept : p.block ∉ gone := by
      intro hg
      have hempty := h.empty _ hg
      simp only [isEmptyAt, hb, Option.any_some] at hempty
      rw [Block.isEmpty_iff.1 hempty p.slot] at hi
      cases hi
    obtain ⟨b', hb', -, hmask⟩ := h.kept _ hkept b hb
    exact ⟨b', hb', by simpa [Block.inUse, hmask] using hi⟩

/-- A slot that is still there holds what it held. -/
theorem load_eq (h : s.Without s' gone) (hs : s.Sound) (hv : s'.load p = .ok v) :
    s.load p = .ok v := by
  obtain ⟨b', hb', hv⟩ := load_eq_ok_iff.1 hv
  obtain ⟨-, b, hb, hslots, -⟩ := h.get?_of_get? hs hb'
  exact load_eq_ok_iff.2 ⟨b, hb, by simpa [Block.load, hslots] using hv⟩

/-- A slot of a block that is kept can still be read. -/
theorem load_of_inUse (h : s.Without s' gone) (hs : s.Sound) (hp : s.InUse p) :
    s'.load p = s.load p := by
  obtain ⟨v, hv⟩ := ((h.inUse_iff hs).2 hp).load
  rw [hv, h.load_eq hs hv]

end Without

/-! ## One block -/

/-- Changing the block under a number, block by block. -/
theorem updateBlock_map (hb : s.blocks.get? n = some b) (change : Block → Block) :
    ∃ blocks : Registry Block, s.updateBlock n change = .ok { s with blocks } ∧
      blocks.size = s.blocks.size ∧
      ∀ m, blocks.get? m = (s.blocks.get? m).map fun c => if n = m then change c else c := by
  refine ⟨s.blocks.set n (change b), updateBlock_eq hb change, by simp, fun m => ?_⟩
  rw [Registry.get?_set]
  by_cases hm : m = n
  · subst hm
    simp [hb]
  · cases s.blocks.get? m <;> simp [hm, Ne.symm hm]

/-- The first half of unlinking: the newer neighbour, or else the head, passes the block by. -/
def bypassNewer (s : Storage) (b : Block) : Except Fault Storage :=
  match b.prev with
  | none => pure { s with head := b.next }
  | some newer => s.updateBlock newer fun c => { c with next := b.next }

/-- The second half of unlinking: the older neighbour, if any, passes the block by. -/
def bypassOlder (s : Storage) (b : Block) : Except Fault Storage :=
  match b.next with
  | none => pure s
  | some older => s.updateBlock older fun c => { c with prev := b.prev }

theorem unlink_eq_bypass (hb : s.blocks.get? n = some b) :
    s.unlink n = s.bypassNewer b >>= fun s₁ => s₁.bypassOlder b := by
  rcases hp : b.prev with _ | k <;> rcases hn : b.next with _ | m <;>
    simp [unlink, bypassNewer, bypassOlder, block, hb, hp, hn, bind, Except.bind, pure, Except.pure]

theorem Lists.bypassNewer_eq {l₁ l₂ : List Nat} (h : s.Lists (l₁ ++ n :: l₂))
    (hnext : b.next = l₂.head?) (hprev : b.prev = l₁.getLast?) :
    ∃ blocks : Registry Block,
      s.bypassNewer b = .ok { s with blocks, head := if l₁ = [] then l₂.head? else s.head } ∧
      blocks.size = s.blocks.size ∧
      ∀ m, blocks.get? m = (s.blocks.get? m).map fun c =>
        { c with next := if l₁.getLast? = some m then l₂.head? else c.next } := by
  unfold bypassNewer
  rw [hprev, hnext]
  rcases hlast : l₁.getLast? with _ | newer
  · rw [List.getLast?_eq_none_iff] at hlast
    refine ⟨s.blocks, by rw [if_pos hlast]; rfl, rfl, fun m => ?_⟩
    cases s.blocks.get? m <;> simp
  · obtain ⟨c, hc⟩ := h.isSome (n := newer) (by simp [List.mem_of_getLast? hlast])
    obtain ⟨blocks, hupd, hsize, hget⟩ := updateBlock_map hc fun c => { c with next := l₂.head? }
    have hne : l₁ ≠ [] := by
      rintro rfl
      simp at hlast
    refine ⟨blocks, by rw [if_neg hne]; exact hupd, hsize, fun m => ?_⟩
    rw [hget]
    congr 1
    funext c
    by_cases hm : newer = m <;> simp [hm]

theorem bypassOlder_eq {l₁ l₂ : List Nat} (hnext : b.next = l₂.head?) (hprev : b.prev = l₁.getLast?)
    (hthere : ∀ m ∈ l₂, ∃ c, s.blocks.get? m = some c) :
    ∃ blocks : Registry Block, s.bypassOlder b = .ok { s with blocks } ∧
      blocks.size = s.blocks.size ∧
      ∀ m, blocks.get? m = (s.blocks.get? m).map fun c =>
        { c with prev := if l₂.head? = some m then l₁.getLast? else c.prev } := by
  unfold bypassOlder
  rw [hprev, hnext]
  rcases hfirst : l₂.head? with _ | older
  · refine ⟨s.blocks, rfl, rfl, fun m => ?_⟩
    cases s.blocks.get? m <;> simp
  · obtain ⟨c, hc⟩ := hthere older (List.mem_of_mem_head? hfirst)
    obtain ⟨blocks, hupd, hsize, hget⟩ := updateBlock_map hc fun c => { c with prev := l₁.getLast? }
    refine ⟨blocks, hupd, hsize, fun m => ?_⟩
    rw [hget]
    congr 1
    funext c
    by_cases hm : older = m <;> simp [hm]

/-- What unlinking a block comes to. -/
theorem Lists.unlink_eq {l₁ l₂ : List Nat} (h : s.Lists (l₁ ++ n :: l₂)) :
    ∃ blocks : Registry Block,
      s.unlink n = .ok { s with blocks, head := if l₁ = [] then l₂.head? else s.head } ∧
      blocks.size = s.blocks.size ∧
      ∀ m, blocks.get? m = (s.blocks.get? m).map fun c =>
        { c with
          next := if l₁.getLast? = some m then l₂.head? else c.next
          prev := if l₂.head? = some m then l₁.getLast? else c.prev } := by
  obtain ⟨b, hb, hnext, hprev⟩ := h.links l₁ n l₂ rfl
  obtain ⟨blocks₁, hstep₁, hsize₁, hget₁⟩ := h.bypassNewer_eq hnext hprev
  obtain ⟨blocks₂, hstep₂, hsize₂, hget₂⟩ := bypassOlder_eq hnext hprev
    (s := { s with blocks := blocks₁, head := if l₁ = [] then l₂.head? else s.head }) (by
      intro m hm
      obtain ⟨c, hc⟩ := h.isSome (n := m) (by simp [hm])
      exact ⟨_, by rw [hget₁, hc]; rfl⟩)
  refine ⟨blocks₂, ?_, hsize₂.trans hsize₁, fun m => ?_⟩
  · rw [unlink_eq_bypass hb, hstep₁]
    exact hstep₂
  · rw [hget₂, hget₁, Option.map_map]
    rfl

/-- What reclaiming a block comes to. -/
theorem reclaim_eq (hb : s.blocks.get? n = some b) :
    s.reclaim n = .ok { s with
      blocks := s.blocks.erase n
      available := s.available.filter (· ≠ n)
      blockCount := s.blockCount - 1 } := by
  simp [reclaim, free, block, hb, bind, Except.bind, pure, Except.pure]

/-- **An empty linked block can be removed**: it leaves the list, the queue and the memory. -/
theorem Sound.remove (h : s.Sound) (hn : n ∈ s.linked) (hempty : s.isEmptyAt n = true) :
    ∃ s₁ s', s.unlink n = .ok s₁ ∧ s₁.reclaim n = .ok s' ∧ s.Without s' [n] := by
  obtain ⟨l₁, l₂, hl⟩ := List.append_of_mem hn
  have hlists := h.lists
  rw [hl] at hlists
  obtain ⟨b, hb⟩ := hlists.isSome (n := n) (by simp)
  obtain ⟨blocks, hunlink, hsize, hget⟩ := hlists.unlink_eq
  set s₁ : Storage := { s with blocks, head := if l₁ = [] then l₂.head? else s.head } with hs₁
  set s' : Storage := { s₁ with
    blocks := blocks.erase n
    available := s.available.filter (· ≠ n)
    blockCount := s.blockCount - 1 } with hs'
  have hget' : ∀ m, s'.blocks.get? m = if m = n then none else (s.blocks.get? m).map fun c =>
      { c with
        next := if l₁.getLast? = some m then l₂.head? else c.next
        prev := if l₂.head? = some m then l₁.getLast? else c.prev } := by
    intro m
    rw [hs', Registry.get?_erase, hget]
  have hold : ∀ m, m ≠ n → ∀ c, s.blocks.get? m = some c → s'.blocks.get? m =
      some { c with
        next := if l₁.getLast? = some m then l₂.head? else c.next
        prev := if l₂.head? = some m then l₁.getLast? else c.prev } := by
    intro m hm c hc
    rw [hget', if_neg hm, hc]
    rfl
  have hlists' : s'.Lists (l₁ ++ l₂) := hlists.erase rfl hold
  have hlinked : s'.linked = s.linked.filter (· ∉ [n]) := by
    have hnd := hlists.nodup
    simp only [List.nodup_append, List.nodup_cons, List.mem_cons] at hnd
    obtain ⟨-, ⟨hn₂, -⟩, hdisj⟩ := hnd
    have h₁ : l₁.filter (· ∉ [n]) = l₁ :=
      List.filter_eq_self.2 fun m hm => by simpa using hdisj m hm n (Or.inl rfl)
    have h₂ : l₂.filter (· ∉ [n]) = l₂ :=
      List.filter_eq_self.2 fun m hm => by
        have : m ≠ n := fun e => hn₂ (e ▸ hm)
        simpa using this
    rw [hlists'.linked_eq, hl, List.filter_append, List.filter_cons, h₁, h₂]
    simp
  refine ⟨s₁, s', hunlink, ?_, ?_⟩
  · exact reclaim_eq (s := s₁) (by rw [hs₁, hget, hb]; rfl)
  · have hkept : ∀ m, m ∉ [n] → ∀ c, s.blocks.get? m = some c →
        ∃ c', s'.blocks.get? m = some c' ∧ c'.slots = c.slots ∧ c'.mask = c.mask :=
      fun m hm c hc => ⟨_, hold m (by simpa using hm) c hc, rfl, rfl⟩
    have hback : ∀ m c', s'.blocks.get? m = some c' → m ≠ n ∧
        ∃ c, s.blocks.get? m = some c ∧ c'.owner = c.owner ∧ c'.mask = c.mask := by
      intro m c' hc'
      rw [hget'] at hc'
      split at hc'
      · cases hc'
      · rename_i hm
        obtain ⟨c, hc, rfl⟩ := Option.map_eq_some_iff.1 hc'
        exact ⟨hm, c, hc, rfl, rfl⟩
    refine ⟨⟨by rwa [hlists'.linked_eq], ?_, ?_, ?_, ?_⟩, ⟨rfl, rfl, rfl⟩, ?_, hlinked, ?_,
      ?_, hkept⟩
    · intro m c' hc'
      obtain ⟨hm, c, hc, -⟩ := hback m c' hc'
      rw [hlinked, List.mem_filter]
      exact ⟨h.mem_linked m c hc, by simpa using hm⟩
    · intro m c' hc'
      obtain ⟨-, c, hc, howner, -⟩ := hback m c' hc'
      exact howner.trans (h.owner m c hc)
    · exact h.nodup_available.filter _
    · intro m
      rw [List.mem_filter, h.mem_available]
      constructor
      · rintro ⟨⟨c, hc, hfull⟩, hm⟩
        exact ⟨_, hold m (by simpa using hm) c hc, hfull⟩
      · rintro ⟨c', hc', hfull⟩
        obtain ⟨hm, c, hc, -, hmask⟩ := hback m c' hc'
        exact ⟨⟨c, hc, by simpa [Block.isFull, hmask] using hfull⟩, by simpa using hm⟩
    · rw [hs', Registry.size_erase, hsize]
    · simp [hs']
    · simpa using hempty

/-! ## All empty blocks -/

theorem inspect_of_occupied {yielding : Bool} (hb : s.blocks.get? n = some b)
    (hempty : b.isEmpty = false) :
    s.inspect yielding n = .ok { storage := s, next := b.next, finding := .occupied } := by
  simp [inspect, block, hb, hempty, bind, Except.bind, pure, Except.pure]

theorem inspect_of_inhibited {yielding : Bool} (hb : s.blocks.get? n = some b)
    (hempty : b.isEmpty = true) (hflag : (yielding && s.iterating) = true) :
    s.inspect yielding n = .ok { storage := s, next := b.next, finding := .inhibited } := by
  simp [inspect, block, hb, hempty, hflag, bind, Except.bind, pure, Except.pure]

theorem inspect_of_unlinked {yielding : Bool} (hb : s.blocks.get? n = some b)
    (hempty : b.isEmpty = true) (hflag : (yielding && s.iterating) = false)
    (hunlink : s.unlink n = .ok s') :
    s.inspect yielding n = .ok { storage := s', next := b.next, finding := .unlinked } := by
  simp [inspect, block, hb, hempty, hflag, hunlink, bind, Except.bind, pure, Except.pure]

/-- A deletion that gives way to no pass, from any block of the list on: it takes out the empty
blocks from there on and counts them.  The induction is on what is left of the list. -/
theorem Sound.deleteFrom {yielding : Bool} : ∀ (rest : List Nat) (turns : Nat) (s : Storage)
    (k : Nat), s.Sound → (yielding && s.iterating) = false → rest <:+ s.linked →
    rest.length ≤ turns → ∃ s', Storage.deleteFrom yielding turns s rest.head? k =
        .ok { storage := s', deleted := k + (rest.filter s.isEmptyAt).length, inhibited := false } ∧
      s.Without s' (rest.filter s.isEmptyAt) := by
  intro rest
  induction rest with
  | nil =>
      intro turns s k h _ _ _
      exact ⟨s, by cases turns <;> rfl, Without.refl h⟩
  | cons n rest ih =>
      intro turns s k h hflag hsuf hturns
      obtain ⟨turns, rfl⟩ : ∃ j, turns = j + 1 :=
        ⟨turns - 1, by simp only [List.length_cons] at hturns; omega⟩
      simp only [List.length_cons, Nat.add_le_add_iff_right] at hturns
      obtain ⟨l₁, hl⟩ := hsuf
      obtain ⟨b, hb, hnext, -⟩ := h.lists.links l₁ n rest hl.symm
      have hmem : n ∈ s.linked := by rw [← hl]; simp
      have hat : s.isEmptyAt n = b.isEmpty := by simp [isEmptyAt, hb]
      by_cases hempty : b.isEmpty = true
      · obtain ⟨s₁, s₂, hunlink, hreclaim, hwithout⟩ := h.remove hmem (hat.trans hempty)
        have hn : ∀ m ∈ rest, m ∉ [n] := by
          intro m hm
          have hnd := h.lists.nodup
          rw [← hl, List.nodup_append, List.nodup_cons] at hnd
          have hne : m ≠ n := fun e => hnd.2.1.1 (e ▸ hm)
          simpa using hne
        have hsuf₂ : rest <:+ s₂.linked := by
          have hrest : rest.filter (· ∉ [n]) = rest :=
            List.filter_eq_self.2 fun m hm => by simpa using hn m hm
          rw [hwithout.linked_eq, ← hl, List.filter_append, List.filter_cons, hrest]
          simp
        have hsame : rest.filter s₂.isEmptyAt = rest.filter s.isEmptyAt :=
          List.filter_congr fun m hm => hwithout.isEmptyAt_eq h (hn m hm)
        obtain ⟨s', hrun, hwithout'⟩ := ih turns s₂ (k + 1) hwithout.sound
          (by rw [hwithout.frame.iterating_eq]; exact hflag) hsuf₂ hturns
        rw [hsame] at hrun hwithout'
        refine ⟨s', ?_, ?_⟩
        · rw [List.head?_cons, List.filter_cons, if_pos (hat.trans hempty), List.length_cons,
            Storage.deleteFrom, inspect_of_unlinked hb hempty hflag hunlink, hnext]
          simp only [bind, Except.bind, hreclaim]
          rw [hrun]
          simp only [Except.ok.injEq, Deletion.mk.injEq, and_true, true_and]
          omega
        · rw [List.filter_cons, if_pos (hat.trans hempty)]
          exact hwithout.trans h hwithout'
      · rw [Bool.not_eq_true] at hempty
        obtain ⟨s', hrun, hwithout'⟩ := ih turns s k h hflag ⟨l₁ ++ [n], by rw [← hl]; simp⟩ hturns
        refine ⟨s', ?_, ?_⟩
        · rw [List.head?_cons, List.filter_cons, hat, hempty, Storage.deleteFrom,
            inspect_of_occupied hb hempty, hnext]
          exact hrun
        · rw [List.filter_cons, hat, hempty]
          exact hwithout'

/-- A deletion that gives way to a pass stops at the first empty block and changes nothing. -/
theorem Sound.deleteFrom_inhibited (h : s.Sound) (hflag : s.iterating = true) :
    ∀ (rest : List Nat) (turns k : Nat), rest <:+ s.linked → rest.length ≤ turns →
      Storage.deleteFrom true turns s rest.head? k =
        .ok { storage := s, deleted := k, inhibited := rest.any s.isEmptyAt } := by
  intro rest
  induction rest with
  | nil => intro turns k _ _; cases turns <;> rfl
  | cons n rest ih =>
      intro turns k hsuf hturns
      obtain ⟨turns, rfl⟩ : ∃ j, turns = j + 1 :=
        ⟨turns - 1, by simp only [List.length_cons] at hturns; omega⟩
      simp only [List.length_cons, Nat.add_le_add_iff_right] at hturns
      obtain ⟨l₁, hl⟩ := hsuf
      obtain ⟨b, hb, hnext, -⟩ := h.lists.links l₁ n rest hl.symm
      have hat : s.isEmptyAt n = b.isEmpty := by simp [isEmptyAt, hb]
      rw [List.head?_cons, Storage.deleteFrom, List.any_cons, hat]
      by_cases hempty : b.isEmpty = true
      · rw [inspect_of_inhibited hb hempty (by simp [hflag]), hempty]
        rfl
      · rw [Bool.not_eq_true] at hempty
        rw [inspect_of_occupied hb hempty, hempty, hnext]
        exact ih turns k ⟨l₁ ++ [n], by rw [← hl]; simp⟩ hturns

/-- **Deletion takes out exactly the empty blocks**, unless it gives way to a pass: then it takes
out none and notes whether there was one. -/
theorem Sound.deleteEmpty (h : s.Sound) (yielding : Bool) :
    ∃ d gone, s.deleteEmpty yielding = .ok d ∧ s.Without d.storage gone ∧
      gone = (if (yielding && s.iterating) = true then [] else s.linked.filter s.isEmptyAt) ∧
      d.deleted = gone.length ∧
      d.inhibited = (yielding && s.iterating && s.linked.any s.isEmptyAt) := by
  have hlen := h.lists.length_le
  by_cases hflag : (yielding && s.iterating) = true
  · obtain ⟨rfl, hiter⟩ := Bool.and_eq_true_iff.1 hflag
    have hrun := h.deleteFrom_inhibited hiter s.linked s.blocks.size 0 (List.suffix_refl _) hlen
    rw [← h.lists.head_eq] at hrun
    refine ⟨_, [], by simp only [Storage.deleteEmpty, hrun, bind, Except.bind]; rfl, ?_, by
      rw [if_pos hflag], rfl, by simp [hiter]⟩
    exact (Without.refl h).congr ⟨rfl, rfl, rfl⟩ rfl rfl rfl
  · rw [Bool.not_eq_true] at hflag
    obtain ⟨s', hrun, hwithout⟩ :=
      Sound.deleteFrom s.linked s.blocks.size s 0 h hflag (List.suffix_refl _) hlen
    rw [← h.lists.head_eq] at hrun
    refine ⟨_, _, by simp only [Storage.deleteEmpty, hrun, bind, Except.bind]; rfl, ?_, by
      rw [if_neg (by simp [hflag])], by simp, by simp [hflag]⟩
    exact hwithout.congr ⟨rfl, rfl, rfl⟩ rfl rfl rfl

/-! ## Disposal -/

/-- Disposing of the blocks of a list frees each of them and no other.  The induction is on what is
left of the list; its links are read before the block that holds them is freed. -/
theorem disposeFrom_eq : ∀ (rest : List Nat) (turns : Nat) (s : Storage), rest.Nodup →
    (∀ l₁ n l₂, rest = l₁ ++ n :: l₂ → ∃ b, s.blocks.get? n = some b ∧ b.next = l₂.head?) →
    rest.length ≤ turns → ∃ s', disposeFrom turns s rest.head? = .ok s' ∧
      ∀ m, s'.blocks.get? m = if m ∈ rest then none else s.blocks.get? m := by
  intro rest
  induction rest with
  | nil =>
      intro turns s _ _ _
      exact ⟨s, by cases turns <;> rfl, by simp⟩
  | cons n rest ih =>
      intro turns s hnd hlinks hturns
      obtain ⟨turns, rfl⟩ : ∃ j, turns = j + 1 :=
        ⟨turns - 1, by simp only [List.length_cons] at hturns; omega⟩
      simp only [List.length_cons, Nat.add_le_add_iff_right] at hturns
      rw [List.nodup_cons] at hnd
      obtain ⟨b, hb, hnext⟩ := hlinks [] n rest rfl
      have hfree : s.free n = .ok { s with blocks := s.blocks.erase n } := by
        simp [free, block, hb, bind, Except.bind, pure, Except.pure]
      obtain ⟨s', hrun, hget⟩ := ih turns { s with blocks := s.blocks.erase n } hnd.2 (by
        intro l₁ m l₂ hl
        obtain ⟨c, hc, hcnext⟩ := hlinks (n :: l₁) m l₂ (by rw [hl]; rfl)
        have hmn : m ≠ n := fun e => hnd.1 (by rw [hl, ← e]; simp)
        exact ⟨c, by rw [Registry.get?_erase, if_neg hmn, hc], hcnext⟩) hturns
      refine ⟨s', ?_, fun m => ?_⟩
      · rw [List.head?_cons, disposeFrom, block_eq_ok_iff.2 hb]
        simp only [bind, Except.bind, hfree, hnext]
        exact hrun
      · rw [hget, Registry.get?_erase]
        by_cases hm : m = n <;> simp [hm]

/-- **Disposal frees every block** of a sound storage. -/
theorem Sound.dispose (h : s.Sound) :
    ∃ s', s.dispose = .ok s' ∧ ∀ m, s'.blocks.get? m = none := by
  obtain ⟨s', hrun, hget⟩ := disposeFrom_eq s.linked s.blocks.size s h.lists.nodup
    (fun l₁ n l₂ hl => by
      obtain ⟨b, hb, hnext, -⟩ := h.lists.links l₁ n l₂ hl
      exact ⟨b, hb, hnext⟩) h.lists.length_le
  rw [← h.lists.head_eq] at hrun
  refine ⟨s', hrun, fun m => ?_⟩
  rw [hget]
  split
  · rfl
  · rename_i hm
    rcases hb : s.blocks.get? m with _ | b
    · rfl
    · exact absurd (h.mem_linked m b hb) hm

end Storage

end RootStore
