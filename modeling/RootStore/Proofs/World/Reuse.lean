import RootStore.Proofs.Storage.Supply
import RootStore.Proofs.World.Capacity
import RootStore.Proofs.World.Outcome

/-!
# In which order entries are handed out again

However fragmented a storage is, its next allocations hand out its free entries one by one, in the
order of its supply, before it grows; and what is released joins the supply.

* `World.drawn` — the world after so many allocations.
* `Step.Grants` — a step hands out an entry under a number.
* `World.Sound.drawn`, `World.Sound.givenBack` — what allocations and releases in a row do to the
  supply.
* `World.Reuse`, `World.reuse` — **what is said of the order, and that it holds of every world that
  can be reached.**
-/

namespace RootStore

/-- The step hands out the entry at a place of the storage, under this number. -/
structure Step.Grants (id number : Nat) (p : Place) (st : Step) : Prop where
  reply : st.reply = .allocated (some number)
  handle : st.after.handles.get? number = some { handle := ⟨id, p⟩ }

namespace World

variable {w : World} {id number k : Nat} {s : Storage} {p : Place} {rest : List Place}

/-- The world after so many allocations from the storage. -/
def drawn (w : World) (id k : Nat) : World := w.afterAll (List.replicate k (.allocate id))

/-- One allocation more. -/
theorem drawn_succ (w : World) (id k : Nat) :
    w.drawn id (k + 1) = (Step.mk (w.drawn id k) (.allocate id)).after := by
  rw [drawn, List.replicate_succ', afterAll_append]
  rfl

/-! ## Allocations in a row -/

/-- An allocation that is granted issues the next number. -/
theorem Sound.grants {s' : Storage} {linked : Bool} (h : w.Sound) (hs : w.storages.get? id = some s)
    (halloc : s.allocate = .ok { storage := s', place := some p, linked }) :
    (Step.mk w (.allocate id)).Grants id (w.handles.size + 1) p := by
  have hperform := h.perform_granted hs halloc
  refine ⟨by simp only [Step.reply, hperform], ?_⟩
  simp only [Step.after, hperform]
  exact (Registry.get?_add _ _ _).trans (if_pos rfl)

/-- The world `w'` is `w` after `k` allocations, all of them from the supply of the storage. -/
structure Drawn (w : World) (id : Nat) (s : Storage) (k : Nat) (w' : World) : Prop where
  sound : w'.Sound
  handles : w'.handles.size = w.handles.size + k
  storage : ∃ s', w'.storages.get? id = some s' ∧ s'.supply = s.supply.drop k ∧
    s'.linked = s.linked ∧ s'.blockCount = s.blockCount ∧ s'.blocks.size = s.blocks.size ∧
    s'.settings = s.settings

/-- **As long as there is a supply, allocations take it in order** and link no block. -/
theorem Sound.drawn (h : w.Sound) (hs : w.storages.get? id = some s) :
    ∀ k, k ≤ s.supply.length → Drawn w id s k (w.drawn id k) := by
  intro k
  induction k with
  | zero => intro _; exact ⟨h, rfl, s, hs, rfl, rfl, rfl, rfl, rfl⟩
  | succ k ih =>
      intro hk
      obtain ⟨hsound, hhandles, t, ht, hsupply, hlinked, hcount, hsize, hsettings⟩ := ih (by omega)
      rw [List.drop_eq_getElem_cons (by omega)] at hsupply
      obtain ⟨t', halloc, hent, hsupply', hcount'⟩ :=
        (hsound.storages id t ht).2.allocate_of_supply hsupply
      have hperform := hsound.perform_granted ht halloc
      have hafter : (w.drawn id (k + 1)).Sound := by
        rw [drawn_succ]
        exact (hsound.transition (e := .allocate id) trivial).sound hsound
      rw [drawn_succ, Step.after, hperform] at hafter ⊢
      refine ⟨hafter, ?_, t', ?_, hsupply', hent.linked_eq.trans hlinked, hcount'.trans hcount,
        hent.size_eq.trans hsize, hent.frame.settings_eq.trans hsettings⟩
      · simp [World.record, World.setStorage, hhandles, Nat.add_assoc]
      · exact (Registry.get?_set_of_some ht _ _).trans (if_pos rfl)

/-- The next allocation hands out the next entry of the supply. -/
theorem Sound.grants_drawn (h : w.Sound) (hs : w.storages.get? id = some s)
    (hk : k < s.supply.length) :
    (Step.mk (w.drawn id k) (.allocate id)).Grants id (w.handles.size + k + 1) s.supply[k] := by
  obtain ⟨hsound, hhandles, t, ht, hsupply, -⟩ := h.drawn hs k (by omega)
  rw [List.drop_eq_getElem_cons hk] at hsupply
  obtain ⟨t', halloc, -⟩ := (hsound.storages id t ht).2.allocate_of_supply hsupply
  rw [← hhandles]
  exact hsound.grants ht halloc

/-! ## Releases in a row -/

/-- **What is released joins the supply**, in whatever order the handles are given back.  The
induction is on the handles, each of which is still held when its turn comes. -/
theorem Sound.givenBack : ∀ (given : List (Nat × Place)) (w : World) (s : Storage), w.Sound →
    w.storages.get? id = some s → (given.map (·.1)).Nodup →
    (∀ x ∈ given, w.handles.get? x.1 = some { handle := ⟨id, x.2⟩ }) →
    (w.afterAll (given.map fun x => .release id x.1)).Sound ∧
    (w.afterAll (given.map fun x => .release id x.1)).handles.size = w.handles.size ∧
    ∃ s', (w.afterAll (given.map fun x => .release id x.1)).storages.get? id = some s' ∧
      s'.supply.Perm (given.map (·.2) ++ s.supply) ∧ s'.linked = s.linked := by
  intro given
  induction given with
  | nil => intro w s h hs _ _; exact ⟨h, rfl, s, hs, .refl _, rfl⟩
  | cons x given ih =>
      intro w s h hs hnd hheld
      rw [List.map_cons, List.nodup_cons] at hnd
      obtain ⟨t, hp, hwritten, huse, -, hperform⟩ :=
        h.perform_released hs (hheld x List.mem_cons_self)
      have hafter := (h.transition (e := .release id x.1) trivial).sound h
      simp only [List.map_cons, afterAll, hperform] at hafter ⊢
      have ht : ((w.spend x.1 ⟨id, x.2⟩ .released).setStorage id t).storages.get? id = some t :=
        (Registry.get?_set_of_some hs _ _).trans (if_pos rfl)
      obtain ⟨hsound, hhandles, s', hs', hsupply, hlinked⟩ := ih _ t hafter ht hnd.2 (by
        intro y hy
        have hne : y.1 ≠ x.1 := fun e => hnd.1 (e ▸ List.mem_map_of_mem hy)
        exact (Registry.get?_set_of_some (hheld x List.mem_cons_self) _ _).trans
          ((if_neg hne).trans (hheld y (List.mem_cons_of_mem _ hy))))
      refine ⟨hsound, by rw [hhandles]; simp [World.setStorage, World.spend], s', hs', ?_,
        hlinked.trans hwritten.linked_eq⟩
      have hone := (h.storages id s hs).2.supply_release hp hwritten huse
      exact hsupply.trans ((hone.append_left _).trans List.perm_middle)

/-! ## What is said of the order -/

/-- **In which order a storage hands out entries.** -/
structure Reuse (w : World) (id : Nat) (s : Storage) : Prop where
  /-- The supply is made up of the free entries of the linked blocks, -/
  mem_supply : ∀ p, p ∈ s.supply ↔ p.block ∈ s.linked ∧ ¬ s.InUse p
  /-- each of them once, -/
  nodup_supply : s.supply.Nodup
  /-- and it is as long as the counts say. -/
  length_supply : s.supply.length + s.allocationCount = blockSize * s.blockCount
  /-- The next allocations hand it out in order. -/
  granted : ∀ k (hk : k < s.supply.length),
    (Step.mk (w.drawn id k) (.allocate id)).Grants id (w.handles.size + k + 1) s.supply[k]
  /-- They link no block, and leave what they have not handed out. -/
  level : ∀ k, k ≤ s.supply.length → ∃ s', (w.drawn id k).storages.get? id = some s' ∧
    s'.linked = s.linked ∧ s'.blockCount = s.blockCount ∧ s'.supply = s.supply.drop k
  /-- When it is used up, the next allocation hands out the first slot of a block linked for it, -/
  grown : (∀ m, s.settings.maxBlocks = some m → s.blockCount < m) →
    let st : Step := ⟨w.drawn id s.supply.length, .allocate id⟩
    st.Grants id (w.handles.size + s.supply.length + 1) ⟨s.blocks.size + 1, 0⟩ ∧
      ∃ s', st.after.storages.get? id = some s' ∧ s'.linked = (s.blocks.size + 1) :: s.linked
  /-- unless the limit is reached: then it is refused and changes nothing. -/
  refused : ∀ m, s.settings.maxBlocks = some m → m ≤ s.blockCount →
    (w.drawn id s.supply.length).perform (.allocate id) =
      (w.drawn id s.supply.length, .allocated none)
  /-- After releases in any order, as many allocations hand out different entries that were free or
  have just been released, and link no block. -/
  recycled : ∀ given : List (Nat × Place), (given.map (·.1)).Nodup →
    (∀ x ∈ given, w.handles.get? x.1 = some { handle := ⟨id, x.2⟩ }) →
    let w' := w.afterAll (given.map fun x => .release id x.1)
    ∃ places : List Place, places.length = given.length ∧ places.Nodup ∧
      (∀ p ∈ places, p ∈ s.supply ∨ p ∈ given.map (·.2)) ∧
      (∀ k (hk : k < places.length),
        (Step.mk (w'.drawn id k) (.allocate id)).Grants id (w.handles.size + k + 1) places[k]) ∧
      ∀ k, k ≤ places.length → ∃ s', (w'.drawn id k).storages.get? id = some s' ∧
        s'.linked = s.linked

/-- **A storage hands out what is free, in order, before it grows**, in every world that can be
reached. -/
theorem reuse (h : w.Reachable) (hs : w.storages.get? id = some s) : Reuse w id s := by
  have hw := h.sound
  obtain ⟨steps, hrun⟩ := h
  obtain ⟨hid, hsound⟩ := hw.storages id s hs
  have hlast := hw.drawn hs s.supply.length (Nat.le_refl _)
  obtain ⟨hsound', hhandles, t, ht, hsupply, hlinked, hcount, hsize, hsettings⟩ := hlast
  have hlimit : t.atLimit = s.atLimit := by rw [Storage.atLimit, Storage.atLimit, hcount, hsettings]
  rw [List.drop_length] at hsupply
  refine ⟨fun p => hsound.mem_supply, hsound.nodup_supply,
    (hrun.account hs).balanced.length_supply hsound,
    fun k hk => hw.grants_drawn hs hk, ?_, ?_, ?_, ?_⟩
  · intro k hk
    obtain ⟨-, -, s', hs', hsupply', hlinked', hcount', -⟩ := hw.drawn hs k hk
    exact ⟨s', hs', hlinked', hcount', hsupply'⟩
  · intro hroom
    rw [← Storage.atLimit_eq_false_iff, ← hlimit] at hroom
    rcases (hsound'.storages id t ht).2.allocate_of_supply_nil hsupply with ⟨hfull, -⟩ |
      ⟨-, t', hlinked', halloc⟩
    · rw [hroom] at hfull
      cases hfull
    rw [hsize] at halloc hlinked'
    refine ⟨?_, t', ?_, hlinked'.trans (by rw [hlinked])⟩
    · rw [← hhandles]
      exact hsound'.grants ht halloc
    · rw [Step.after, hsound'.perform_granted ht halloc]
      exact (Registry.get?_set_of_some ht _ _).trans (if_pos rfl)
  · intro m hm hle
    have hfull : t.atLimit = true := by
      rw [hlimit, Storage.atLimit, hm]
      simpa using hle
    rcases (hsound'.storages id t ht).2.allocate_of_supply_nil hsupply with ⟨-, halloc⟩ | ⟨hroom, -⟩
    · exact perform_refused ht halloc
    · rw [hroom] at hfull
      cases hfull
  · intro given hnd hheld
    obtain ⟨hafter, hsame, s', hs', hperm, hlinked'⟩ := hw.givenBack given w s hs hnd hheld
    have hlength : given.length ≤ s'.supply.length := by
      rw [hperm.length_eq, List.length_append, List.length_map]
      omega
    have htaken : (s'.supply.take given.length).length = given.length :=
      List.length_take_of_le hlength
    refine ⟨s'.supply.take given.length, htaken,
      (hafter.storages id s' hs').2.nodup_supply.sublist (List.take_sublist _ _), ?_, ?_, ?_⟩
    · intro p hp
      have hmem := hperm.mem_iff.1 (List.mem_of_mem_take hp)
      exact (List.mem_append.1 hmem).symm
    · intro k hk
      rw [List.getElem_take, ← hsame]
      exact hafter.grants_drawn hs' (by omega)
    · intro k hk
      obtain ⟨-, -, u, hu, -, hlinked'', -⟩ := hafter.drawn hs' k (by omega)
      exact ⟨u, hu, hlinked''.trans hlinked'⟩

/-- Of two blocks the newer has become empty and waits in front of the older, which has two gaps:
the first slots of the newer come first, and the gaps last, lower one first. -/
theorem reuse_of_gaps :
    let events := Event.create { maxBlocks := some 2 } :: List.replicate 65 (Event.allocate 1) ++
      [Event.release 1 7, Event.release 1 65, Event.release 1 3]
    let w := ({} : World).afterAll events
    ∃ s, w.storages.get? 1 = some s ∧ s.supply.take 2 = [⟨2, 0⟩, ⟨2, 1⟩] ∧
      s.supply.drop 63 = [⟨2, 63⟩, ⟨1, 2⟩, ⟨1, 6⟩] ∧ Reuse w 1 s := by
  intro events w
  have hviews : ({} : World).PermitsAll events ∧
      (w.storages.get? 1).map (fun s => (s.supply.take 2, s.supply.drop 63)) =
        some ([⟨2, 0⟩, ⟨2, 1⟩], [⟨2, 63⟩, ⟨1, 2⟩, ⟨1, 6⟩]) := by decide +kernel
  obtain ⟨hpermits, hviews⟩ := hviews
  have hreach : w.Reachable := ⟨_, run_trail events {} hpermits⟩
  obtain ⟨s, hs, hviews⟩ := Option.map_eq_some_iff.1 hviews
  obtain ⟨htake, hdrop⟩ := Prod.mk.inj hviews
  exact ⟨s, hs, htake, hdrop, reuse hreach hs⟩

end World

end RootStore
