import RootStore.Proofs.World.Effect

/-!
# Memory

The blocks under their numbers are the memory of a storage: what is followed to a number that holds
no block any more is a fault, and so is freeing such a number.  No fault ever happens, and whatever
a storage has linked is freed once, at the latest when the storage is dropped.

* `World.Transition.no_fault` — **no event runs into a fault.**
* `Step.Frees`, `Step.Links` — a block leaves the memory, a block is linked.
* `World.Run.tally` — linked is what was freed and what is there.
* `World.memory_safe` — **it holds of every run.**
-/

namespace RootStore

/-- The block is in memory. -/
def World.Holds (w : World) (id n : Nat) : Prop :=
  ∃ s ∈ w.storages.get? id, ∃ b, s.blocks.get? n = some b

/-- What the step leaves of a storage: of one that is dropped, what its disposal leaves. -/
def Step.remains (id : Nat) (st : Step) : Option Storage :=
  if st.event = .drop id then (st.before.storages.get? id).bind fun s => s.dispose.toOption
  else st.after.storages.get? id

/-- The step frees a block of the storage: the block was in memory and is no longer. -/
def Step.Frees (id n : Nat) (st : Step) : Prop :=
  st.before.Holds id n ∧ ∃ s ∈ st.remains id, s.blocks.get? n = none

/-- The storage is dropped in the step. -/
def Step.Drops (id : Nat) (st : Step) : Prop := st.event = .drop id ∧ st.reply = .done

instance (w : World) (id n : Nat) : Decidable (w.Holds id n) :=
  decidable_of_iff (∃ s ∈ w.storages.get? id, (s.blocks.get? n).isSome = true) (by
    simp [World.Holds, Option.isSome_iff_exists])

instance (id n : Nat) (st : Step) : Decidable (st.Frees id n) :=
  inferInstanceAs (Decidable (st.before.Holds id n ∧ ∃ s ∈ st.remains id, s.blocks.get? n = none))

instance (id n : Nat) (st : Step) : Decidable (st.Links id n) :=
  decidable_of_iff (∃ s' ∈ st.after.storages.get? id, n ∈ s'.linked ∧
    ∀ s ∈ st.before.storages.get? id, n ∉ s.linked) (by simp [Step.Links])

namespace World

variable {w w' : World} {e : Event} {r : Reply} {id n : Nat} {steps : List Step} {s : Storage}

/-- **No event runs into a fault.** -/
theorem Transition.no_fault (ht : Transition w e w' r) (f : Fault) : r ≠ .failed (.fault f) := by
  cases ht with
  | failed hact hwhy => simpa using hwhy f
  | _ => simp

/-- The blocks in memory are those that are linked. -/
theorem Sound.holds_iff (hw : w.Sound) : w.Holds id n ↔
    ∃ s, w.storages.get? id = some s ∧ n ∈ s.linked := by
  constructor
  · rintro ⟨s, hs, b, hb⟩
    exact ⟨s, hs, (hw.storages id s hs).2.mem_linked n b hb⟩
  · rintro ⟨s, hs, hn⟩
    exact ⟨s, hs, (hw.storages id s hs).2.lists.isSome hn⟩

/-- A block is linked if it is in memory after a step and was not before. -/
theorem links_iff {st : Step} (id n : Nat) (hw : st.before.Sound) (hw' : st.after.Sound) :
    st.Links id n ↔ st.after.Holds id n ∧ ¬ st.before.Holds id n := by
  rw [hw.holds_iff, hw'.holds_iff]
  constructor
  · rintro ⟨s', hs', hn, hnew⟩
    exact ⟨⟨s', hs', hn⟩, fun ⟨s, hs, hold⟩ => hnew s hs hold⟩
  · rintro ⟨⟨s', hs', hn⟩, hnew⟩
    exact ⟨s', hs', hn, fun s hs hold => hnew ⟨s, hs, hold⟩⟩

/-- Dropping a storage frees its blocks. -/
theorem frees_of_drop {st : Step} (hw : st.before.Sound) (hevent : st.event = .drop id) :
    (st.Frees id n ↔ st.before.Holds id n) ∧ ¬ st.after.Holds id n := by
  have hafter : ∀ s, st.before.storages.get? id = some s → ∃ s', s.dispose = .ok s' ∧
      (∀ m, s'.blocks.get? m = none) ∧
      st.after = { st.before with storages := st.before.storages.erase id } := by
    intro s hs
    obtain ⟨s', hdispose, hgone⟩ := (hw.storages id s hs).2.dispose
    refine ⟨s', hdispose, hgone, ?_⟩
    simp [Step.after, hevent, perform, act, Except.map, World.drop, storage_of_some hs, hdispose,
      Failure.ofFault, bind, Except.bind, pure, Except.pure]
  constructor
  · refine ⟨fun h => h.1, fun h => ⟨h, ?_⟩⟩
    obtain ⟨s, hs, -⟩ := h
    obtain ⟨s', hdispose, hgone, -⟩ := hafter s hs
    exact ⟨s', by simp [Step.remains, hevent, Option.mem_def.1 hs, hdispose,
      Except.toOption], hgone n⟩
  · rintro ⟨s', hs', -⟩
    rcases hs : st.before.storages.get? id with _ | s
    · have hsame : st.after = st.before := by
        simp [Step.after, hevent, perform, act, Except.map, World.drop, storage_of_none hs, bind,
          Except.bind]
      simp [hsame, hs] at hs'
    · obtain ⟨-, -, -, heq⟩ := hafter s hs
      simp [heq, Registry.get?_erase] at hs'

/-- Any other event frees a block if it was in memory before and is not after. -/
theorem frees_of_not_drop {st : Step} (hw : st.before.Sound) (hp : st.before.Permits st.event)
    (hevent : st.event ≠ .drop id) :
    st.Frees id n ↔ st.before.Holds id n ∧ ¬ st.after.Holds id n := by
  have ht := (hw.transition hp).storages
  unfold Step.Frees Step.remains
  rw [if_neg hevent]
  refine and_congr_right fun hholds => ?_
  obtain ⟨s, hs, -⟩ := hholds
  obtain ⟨s', hs'⟩ := (ht.forth id s hs).resolve_right fun h => hevent h.1
  have hs' : st.after.storages.get? id = some s' := hs'
  rcases hb : s'.blocks.get? n with _ | b <;> simp [Holds, hs', hb]

/-- **One step**: what is linked and what was there is what is freed and what is there. -/
theorem tally_step (st : Step) (id n : Nat) (hw : st.before.Sound)
    (hp : st.before.Permits st.event) :
    (if st.Frees id n then 1 else 0) + (if st.after.Holds id n then 1 else 0) =
      (if st.Links id n then 1 else 0) + (if st.before.Holds id n then 1 else 0) := by
  have hlinks := links_iff id n hw ((hw.transition hp).sound hw)
  by_cases hevent : st.event = .drop id
  · obtain ⟨hfrees, hgone⟩ := frees_of_drop (n := n) hw hevent
    simp [hlinks, hfrees, hgone]
  · have hfrees := frees_of_not_drop (n := n) hw hp hevent
    by_cases hb : st.before.Holds id n <;> by_cases ha : st.after.Holds id n <;>
      simp [hlinks, hfrees, hb, ha]

/-- **Along a run** linked is what was freed and what is there. -/
theorem Run.tally (h : Run {} steps w) (id n : Nat) :
    steps.countP (fun st => st.Frees id n) + (if w.Holds id n then 1 else 0) =
      steps.countP (fun st => st.Links id n) := by
  generalize hinit : ({} : World) = w₀ at h
  induction h with
  | nil => subst hinit; simp [Holds]
  | @snoc w₁ steps e hrun hp ih =>
      subst hinit
      have hstep := tally_step ⟨w₁, e⟩ id n (hrun.sound .init) hp
      dsimp only at hstep
      simp only [List.countP_append, List.countP_singleton, decide_eq_true_eq]
      change _ + (if (Step.mk w₁ e).after.Holds id n then 1 else 0) = _
      omega

/-- **No block is linked twice**: no number is handed out twice. -/
theorem Run.linked_once (h : Run {} steps w) (id n : Nat) :
    steps.countP (fun st => st.Links id n) ≤ 1 := by
  generalize hinit : ({} : World) = w₀ at h
  induction h with
  | nil => simp
  | @snoc w₁ steps e hrun hp ih =>
      subst hinit
      simp only [List.countP_append, List.countP_singleton, decide_eq_true_eq]
      split
      · rename_i hlast
        -- an earlier step cannot have linked the same block
        have hnone : steps.countP (fun st => st.Links id n) = 0 := by
          rw [List.countP_eq_zero]
          intro st hst hlinks
          rw [decide_eq_true_eq] at hlinks
          obtain ⟨l₁, l₂, rfl⟩ := List.append_of_mem hst
          obtain ⟨hbefore, hpst, hafter⟩ := hrun.split
          have hwst := hbefore.sound .init
          have hwst' := (hwst.transition hpst).sound hwst
          obtain ⟨s', hs', hn, -⟩ := hlinks
          have hle := ((hwst'.storages id s' hs').2.lists.bounds hn).2
          have hlt := (Run.snoc e hafter hp).not_links hwst' hs' hlast
          omega
        omega
      · omega

/-! ## Whoever refers to a block -/

/-- Somebody knows the number of the block: the list, the queue, a handle that was not released, or
a pass or an iteration. -/
inductive Refers (w : World) (id n : Nat) : Prop
  /-- The list begins with the block. -/
  | head {s : Storage} (hs : w.storages.get? id = some s) (hn : s.head = some n)
  /-- The block is the older or the newer neighbour of another. -/
  | neighbour {s : Storage} {m : Nat} {b : Block} (hs : w.storages.get? id = some s)
      (hb : s.blocks.get? m = some b) (hn : b.next = some n ∨ b.prev = some n)
  /-- The block is queued. -/
  | queue {s : Storage} (hs : w.storages.get? id = some s) (hn : n ∈ s.available)
  /-- The block has the slot of a handle. -/
  | handle {s : Storage} {number : Nat} {h : Issued} (hs : w.storages.get? id = some s)
      (hh : w.handles.get? number = some h) (hten : h.tenure ≠ .released)
      (howner : h.handle.owner = id) (hn : h.handle.place.block = n)
  /-- The block is the next one that a pass is to claim. -/
  | cursor {i : Nat} {q : Pass} (hq : w.passes.get? i = some q) (hid : q.storage = id)
      (hn : q.cursor = .upcoming (some n))
  /-- The block is being scanned. -/
  | scan {c : Call} {q : Pass} {k : Pass.Claim} (hc : c ∈ w.calls)
      (hq : w.passes.get? c.pass = some q) (hid : q.storage = id) (hk : c.scanning = some k)
      (hn : k.block = n)
  /-- The block has the slot of an entry that a visitor or a judge is concerned with. -/
  | hand {c : Call} {en : Entry} (hc : c ∈ w.calls) (he : c.stage.entry? = some en)
      (hid : en.storage = id) (hn : en.place.block = n)

/-- **Nobody refers to a block that is not in memory.** -/
theorem Sound.holds_of_refers (hw : w.Sound) (h : w.Refers id n) : w.Holds id n := by
  rw [hw.holds_iff]
  cases h with
  | @head s hs hn =>
      refine ⟨s, hs, List.mem_of_mem_head? ?_⟩
      rw [← (hw.storages id s hs).2.lists.head_eq, hn]
      rfl
  | @neighbour s m b hs hb hn =>
      have hsound := (hw.storages id s hs).2
      obtain ⟨l₁, l₂, hl⟩ := List.append_of_mem (hsound.mem_linked m b hb)
      obtain ⟨b', hb', hnext, hprev⟩ := hsound.lists.links l₁ m l₂ hl
      obtain rfl := Option.some.inj (hb.symm.trans hb')
      refine ⟨s, hs, ?_⟩
      rw [hl]
      rcases hn with hn | hn
      · rw [hnext] at hn
        simp [List.mem_of_mem_head? hn]
      · rw [hprev] at hn
        simp [List.mem_of_getLast? hn]
  | @queue s hs hn =>
      obtain ⟨b, hb, -⟩ := ((hw.storages id s hs).2.mem_available n).1 hn
      exact ⟨s, hs, (hw.storages id s hs).2.mem_linked n b hb⟩
  | @handle s number h hs hh hten howner hn =>
      obtain ⟨b, hb, -⟩ := hw.inUse number h s hh hten (by rw [howner, hs])
      exact ⟨s, hs, (hw.storages id s hs).2.mem_linked n b (by rw [← hn, hb])⟩
  | @cursor i q hq hid hn =>
      obtain ⟨s, hs, hf⟩ := hw.passes i q hq
      obtain ⟨rest, hsuf, hrest⟩ := hf.on_list _ hn
      exact ⟨s, by rw [← hid, hs], hsuf.subset (List.mem_of_mem_head? hrest.symm)⟩
  | @scan c q k hc hq hid hk hn =>
      obtain ⟨q', s, hq', hs, hf⟩ := hw.calls c hc
      obtain rfl := Option.some.inj (hq.symm.trans hq')
      exact ⟨s, by rw [← hid, hs], by rw [← hn]; exact hf.scanning k hk⟩
  | @hand c en hc he hid hn =>
      obtain ⟨q, s, hq, hs, hf⟩ := hw.calls c hc
      obtain ⟨hstorage, hmem⟩ := hf.entry en he
      exact ⟨s, by rw [← hid, hstorage, hs], by rw [← hn]; exact hmem⟩

/-! ## The whole life of a storage -/

/-- **What is said of memory** in the course of a run. -/
structure MemorySafe (steps : List Step) (w : World) : Prop where
  /-- No number is followed to a block that has been freed, nor is any other invariant found
  broken. -/
  no_fault : ∀ st ∈ steps, ∀ f, st.reply ≠ .failed (.fault f)
  /-- Nobody is left with the number of a block that has been freed. -/
  no_dangling : ∀ id n, w.Refers id n → w.Holds id n
  /-- No block is linked twice. -/
  linked_once : ∀ id n, steps.countP (fun st => st.Links id n) ≤ 1
  /-- A block that was linked has been freed once, unless it is still in memory; no other was
  freed. -/
  freed_once : ∀ id n, steps.countP (fun st => st.Frees id n) +
    (if w.Holds id n then 1 else 0) = steps.countP (fun st => st.Links id n)
  /-- Of a storage that was dropped, nothing is in memory any more. -/
  all_freed : ∀ id, (∃ st ∈ steps, st.Drops id) → ∀ n, ¬ w.Holds id n

/-- A storage that was dropped does not come back. -/
theorem Run.not_holds_of_drops {st : Step} (h : Run {} steps w) (hst : st ∈ steps)
    (hdrop : st.Drops id) : ¬ w.Holds id n := by
  obtain ⟨l₁, l₂, rfl⟩ := List.append_of_mem hst
  obtain ⟨hbefore, hp, hafter⟩ := h.split
  have hw := hbefore.sound .init
  have ht := hw.transition hp
  have hw' := ht.sound hw
  obtain ⟨hevent, hreply⟩ := hdrop
  rintro ⟨s', hs', -⟩
  -- the id was given before the drop
  have hbound : id ≤ st.after.storages.size ∧ st.after.storages.get? id = none := by
    change Transition st.before st.event st.after st.reply at ht
    rw [hevent, hreply] at ht
    generalize st.after = w' at ht ⊢
    cases ht with
    | dropped hs =>
        refine ⟨?_, by simp [Registry.get?_erase]⟩
        rw [Registry.size_erase]
        exact (Registry.bounds_of_get?_eq_some hs).2
  obtain ⟨s, hs, -⟩ := hafter.storage_before hw' hbound.1 (Option.mem_def.1 hs')
  simp [hbound.2] at hs

/-- **No dangling block is ever used and every block is freed once**, in every run. -/
theorem memory_safe (h : Run {} steps w) : MemorySafe steps w where
  no_fault := fun st hst f => by
    obtain ⟨l₁, l₂, rfl⟩ := List.append_of_mem hst
    obtain ⟨hbefore, hp, -⟩ := h.split
    exact ((hbefore.sound .init).transition hp).no_fault f
  no_dangling := fun id n => (h.sound .init).holds_of_refers
  linked_once := h.linked_once
  freed_once := h.tally
  all_freed := fun id ⟨_, hst, hdrop⟩ n => h.not_holds_of_drops hst hdrop

/-- A block is deleted while it is empty, another one outlives a deletion that gives way to a pass
and is freed with its storage. -/
theorem memory_safe_of_dropped_storage :
    let events : List Event :=
      [.create {}, .allocate 1, .release 1 1, .delete 1 true, .allocate 1,
        .beginPass 1 true .readOnly, .enter 1 .every, .advance, .advance, .release 1 2,
        .delete 1 true, .advance, .endPass 1, .drop 1]
    (({} : World).trail events).countP (fun st => st.Frees 1 1) = 1 ∧
    (({} : World).trail events).countP (fun st => st.Frees 1 2) = 1 ∧
    MemorySafe (({} : World).trail events) (({} : World).afterAll events) := by
  refine ⟨by decide +kernel, by decide +kernel, ?_⟩
  exact memory_safe (run_trail _ _ (by decide +kernel))

end World

end RootStore
