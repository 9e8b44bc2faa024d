import RootStore.Proofs.Handle.Null
import RootStore.Proofs.World.Layout
import RootStore.Proofs.World.Outcome
import RootStore.Script.Session

/-!
# Handles and entries by their addresses

A handle knows its entry by the address of the slot alone, and so does an entry that a visitor has
in hand.  That is enough: a release finds the block and the bit of the slot that the handle was
issued for, and two addresses are equal where handle and entry stand for the same slot.

* `Handle.address`, `Entry.address` — what a handle and an entry know.
* `World.Sound.address_eq_iff` — a handle and an entry with one address stand for one slot.
* `World.releaseAt` — a release that goes by the address, and nothing else.
* `World.OneMore` — one bit more is set, that of the slot at an address.
* `World.Sound.releaseAt_eq` — **a release by address is the release of the handle.**
* `World.addresses_tell` — **addresses tell slots apart, and lead back to them, in every run.**
-/

namespace RootStore

/-- The address of the slot that a handle was issued for. -/
def Handle.address (layout : Layout) (h : Handle) : Address := layout.slot h.owner h.place

/-- The address of the slot of an entry. -/
def Entry.address (layout : Layout) (e : Entry) : Address := layout.slot e.storage e.place

namespace World

variable {w w' : World} {layout : Layout} {a : Address} {e : Event} {r : Reply} {en : Entry}
  {id id' number : Nat} {s s' : Storage} {p q : Place} {h : Handle} {steps : List Step}

/-- The bit of a slot is set. -/
def SlotInUse (w : World) (id : Nat) (p : Place) : Prop :=
  ∃ s, w.storages.get? id = some s ∧ s.InUse p

theorem slotInUse_setStorage (hs : w.storages.get? id = some s) :
    (w.setStorage id s').SlotInUse id' q ↔
    if id' = id then s'.InUse q else w.SlotInUse id' q := by
  have hget := Registry.get?_set_of_some hs s' id'
  unfold SlotInUse World.setStorage
  rw [hget]
  split
  · simp
  · rfl

theorem SlotInUse.holds (hp : w.SlotInUse id p) : w.Holds id p.block := by
  obtain ⟨s, hs, b, hb, -⟩ := hp
  exact ⟨s, hs, b, hb⟩

/-! ## Comparing addresses -/

/-- The block of a handle is in memory as long as the storage is there and the handle was not given
back to it. -/
theorem Sound.holds_handle (hw : w.Sound) (hh : w.handles.get? number = some { handle := h })
    (hs : w.storages.get? h.owner = some s) : w.Holds h.owner h.place.block :=
  hw.holds_of_refers (.handle hs hh (by simp) rfl rfl)

/-- The block of an entry in hand is in memory. -/
theorem Sound.holds_inHand (hw : w.Sound) (hhand : w.InHand en) :
    w.Holds en.storage en.place.block := by
  obtain ⟨c, hc, hstage⟩ := hhand
  exact hw.holds_of_refers (.hand hc (by rw [hstage]; rfl) rfl rfl)

/-- **The addresses of a held handle and of an entry in hand** are equal exactly if both stand for
one slot. -/
theorem Sound.address_eq_iff (hw : w.Sound) (hplaced : w.Placed layout)
    (hh : w.handles.get? number = some { handle := h }) (hs : w.storages.get? h.owner = some s)
    (hhand : w.InHand en) :
    h.address layout = en.address layout ↔ h.owner = en.storage ∧ h.place = en.place := by
  have hhandle := hw.holds_handle hh hs
  have hentry := hw.holds_inHand hhand
  exact hplaced.slot_inj hhandle hentry

/-- A handle was there before an event, or the event has put its entry in use. -/
theorem Transition.handle_origin {i : Issued} (ht : Transition w e w' r)
    (hi : w'.handles.get? number = some i) :
    (∃ tenure, w.handles.get? number = some { handle := i.handle, tenure }) ∨
      w'.SlotInUse i.handle.owner i.handle.place := by
  have hset : ∀ (m : Nat) (h : Handle) (tenure : Tenure), w.handles.get? m = some { handle := h } →
      (w.handles.set m { handle := h, tenure }).get? number = some i →
      ∃ tenure', w.handles.get? number = some { handle := i.handle, tenure := tenure' } := by
    intro m h tenure hm hi
    obtain ⟨rfl, rfl⟩ | ⟨-, hold⟩ := Registry.get?_set_inv hm hi
    · exact ⟨.held, hm⟩
    · exact ⟨i.tenure, hold⟩
  cases ht with
  | failed | created | dropped | refused | got | written | deleted | began | ended | forgotten
  | pinned | resumed | offered | claimed | finished | upheld | cleared | panicked | loaded
  | stored | exchanged => exact .inl ⟨i.tenure, hi⟩
  | @granted id s s' p linked hs halloc hgranted =>
      obtain ⟨-, rfl⟩ | hold := Registry.get?_add_inv hi
      · refine .inr ⟨s', (Registry.get?_set_of_some hs s' id).trans (if_pos rfl), ?_⟩
        exact (hgranted.inUse_iff p).2 (.inr rfl)
      · exact .inl ⟨i.tenure, hold⟩
  | released hh hs hrelease hwritten huse => exact .inl (hset _ _ _ hh hi)
  | lost hh hs hforeign => exact .inl (hset _ _ _ hh hi)

/-- The block of every handle that was ever issued lies, or lay, at a possible address. -/
theorem Run.isBlock_of_issued {i : Issued} (hrun : Run {} steps w)
    (halong : PlacedAlong steps layout) (hi : w.handles.get? number = some i) :
    (layout i.handle.owner i.handle.place.block).IsBlock := by
  generalize hinit : ({} : World) = w₀ at hrun
  induction hrun generalizing i with
  | nil =>
      subst hinit
      simp at hi
  | @snoc w₁ steps e hrun hp ih =>
      subst hinit
      have ht := (hrun.sound .init).transition hp
      obtain ⟨tenure, hold⟩ | huse := ht.handle_origin hi
      · exact ih (i := { handle := i.handle, tenure })
          (fun st hst => halong st (by simp [hst])) hold
      · exact (halong ⟨w₁, e⟩ (by simp)).block _ _ huse.holds

/-! ## Releasing by address -/

/-- **A release that knows the entry by its address alone**: it takes the entry out of use that lies
there, where that is one of the storage. -/
def releaseAt (w : World) (layout : Layout) (id : Nat) (a : Address) : Option World := do
  let s ← w.storages.get? id
  let (owner, p) ← w.slotAt? layout a
  if owner = id then
    let s' ← (s.release p).toOption
    return w.setStorage id s'
  else none

/-- **One bit more is set** in `w'` than in `w`, that of the slot at an address. -/
structure OneMore (layout : Layout) (a : Address) (w w' : World) : Prop where
  /-- A slot lies at the address. -/
  there : ∃ x, w'.slotAt? layout a = some x
  /-- Its bit is the one that is set now and was not before. -/
  only : ∀ id p, w'.Holds id p.block →
    (w'.SlotInUse id p ∧ ¬ w.SlotInUse id p ↔ layout.slot id p = a)
  /-- The bits that were set before are still set. -/
  kept : ∀ id p, w.SlotInUse id p → w'.SlotInUse id p

/-- Where a slot comes into use and no other does, that is the slot at its address. -/
theorem OneMore.of_iff (hplaced : w'.Placed layout) (hfree : ¬ w.SlotInUse id p)
    (huse : ∀ id' q, w'.SlotInUse id' q ↔ w.SlotInUse id' q ∨ id' = id ∧ q = p) :
    OneMore layout (layout.slot id p) w w' := by
  have hholds : w'.Holds id p.block := ((huse id p).2 (.inr ⟨rfl, rfl⟩)).holds
  refine ⟨⟨(id, p), hplaced.slotAt?_eq_some_iff.2 ⟨hholds, rfl⟩⟩, fun id' q hq => ?_,
    fun id' q hq => (huse id' q).2 (.inl hq)⟩
  rw [hplaced.slot_inj hq hholds, huse]
  constructor
  · rintro ⟨hnow, hbefore⟩
    exact hnow.resolve_left hbefore
  · rintro ⟨rfl, rfl⟩
    exact ⟨.inr ⟨rfl, rfl⟩, hfree⟩

/-- An allocation sets one bit more, that of the slot at the address of the handle it issues. -/
theorem Transition.oneMore_of_allocated
    (ht : Transition w (.allocate id) w' (.allocated (some number))) (hplaced : w'.Placed layout) :
    ∃ p, w'.handles.get? number = some { handle := ⟨id, p⟩ } ∧
      OneMore layout (layout.slot id p) w w' := by
  cases ht with
  | @granted _ s s' p linked hs halloc hgranted =>
      refine ⟨p, (Registry.get?_add _ _ _).trans (if_pos rfl),
        OneMore.of_iff hplaced ?_ fun id' q => ?_⟩
      · rintro ⟨t, ht, hp⟩
        obtain rfl := Option.some.inj (hs.symm.trans ht)
        exact hgranted.free hp
      · have hiff : _ ↔ if id' = id then s'.InUse q else w.SlotInUse id' q :=
          slotInUse_setStorage hs
        refine hiff.trans ?_
        by_cases hid : id' = id
        · subst hid
          simp [SlotInUse, hs, hgranted.inUse_iff]
        · simp [hid]

/-- **A release by address is the release of the handle**, and clears one bit, that of the slot at
the address. -/
theorem Sound.releaseAt_eq (hw : w.Sound) (hplaced : w.Placed layout)
    (hs : w.storages.get? id = some s)
    (hheld : w.handles.get? number = some { handle := ⟨id, p⟩ }) :
    ∃ w', w.releaseAt layout id (layout.slot id p) = some w' ∧
      OneMore layout (layout.slot id p) w' w ∧
      w.perform (.release id number) = (w'.spend number ⟨id, p⟩ .released, .done) := by
  obtain ⟨s', hp, -, huse, hrelease, hperform⟩ := hw.perform_released hs hheld
  have hfound : w.slotAt? layout (layout.slot id p) = some (id, p) :=
    hplaced.slotAt?_eq_some_iff.2 ⟨SlotInUse.holds ⟨s, hs, hp⟩, rfl⟩
  refine ⟨w.setStorage id s', ?_, OneMore.of_iff hplaced ?_ fun id' q => ?_, hperform⟩
  · simp [World.releaseAt, hs, hfound, hrelease, Except.toOption]
  · rw [slotInUse_setStorage hs, if_pos rfl, huse]
    exact fun hq => hq.2 rfl
  · rw [slotInUse_setStorage hs]
    by_cases hid : id' = id
    · subst hid
      simp only [SlotInUse, hs, if_true, huse, Option.some.injEq, exists_eq_left', true_and]
      by_cases hq : q = p
      · simp [hq, hp]
      · simp [hq]
    · simp [hid]

/-! ## What addresses tell -/

/-- **What is said of addresses** after some steps, of blocks that lie as the layout says. -/
structure AddressesTell (layout : Layout) (steps : List Step) (w : World) : Prop where
  /-- Wherever a block can lie, a slot lies so many bytes further on, which is inside the address
  space; masking its address gives the address of the block back, and the distance, which is not
  negative, gives the index back. -/
  back : ∀ (base : Address) (i : SlotIndex), base.IsBlock →
    (Address.ofSlot base i).toNat = base.toNat + Address.slotBytes * i.val ∧
      Address.blockOf (Address.ofSlot base i) = base ∧ base ≤ Address.ofSlot base i ∧
      (Address.indexOf base (Address.ofSlot base i)).toNat = i.val ∧
      Address.indexOf? base (Address.ofSlot base i) = some i
  /-- Slots of blocks at different addresses lie at different addresses, whatever their indices. -/
  apart : ∀ (base base' : Address) (i j : SlotIndex), base.IsBlock → base'.IsBlock → base ≠ base' →
    Address.ofSlot base i ≠ Address.ofSlot base' j
  /-- Neither a block nor a slot lies at the word that a cursor is before its pass has started. -/
  sentinel : ∀ (ι : Type) [DecidableEq ι] (r : Race ι) (base : Address) (i : SlotIndex),
    base.IsBlock → base ≠ r.word .notStarted ∧ Address.ofSlot base i ≠ r.word .notStarted
  /-- An address leads to the slot in memory that lies there, and to no other. -/
  found : ∀ a id p, w.slotAt? layout a = some (id, p) ↔ w.Holds id p.block ∧ layout.slot id p = a
  /-- A handle that was issued, whatever has become of it and of its storage, and an entry in a
  visitor's hand have the same address exactly if they have the same index in blocks that lie, or
  lay, at the same address. -/
  compared : ∀ number (i : Issued) e, w.handles.get? number = some i → w.InHand e →
    (i.handle.address layout = e.address layout ↔
      layout i.handle.owner i.handle.place.block = layout e.storage e.place.block ∧
        i.handle.place.slot = e.place.slot)
  /-- As long as its storage is there, a handle that is held has the address of an entry in hand
  exactly if both stand for the same slot of the same block, -/
  same : ∀ number h s e, w.handles.get? number = some { handle := h } →
    w.storages.get? h.owner = some s →
    w.InHand e → (h.address layout = e.address layout ↔ h.owner = e.storage ∧ h.place = e.place)
  /-- and this is what a script is told that asks for it. -/
  told : ∀ (session : Script.Session) index h s e, session.world = w →
    w.handles.get? (index + 1) = some { handle := h } → w.storages.get? h.owner = some s →
    w.InHand e →
    (session.onEntry e (.same (some index))).2 = .truth (h.address layout = e.address layout)
  /-- The allocation that issued a handle set one bit, that of the slot at the handle's address, and
  a release that goes by this address alone is the release of the handle, which clears the same bit
  and no other. -/
  released : ∀ before st later id number h s, steps = before ++ st :: later →
    st.event = .allocate id →
    st.reply = .allocated (some number) → w.handles.get? number = some { handle := h } →
    w.storages.get? id = some s →
    h.owner = id ∧ OneMore layout (h.address layout) st.before st.after ∧
      ∃ w', w.releaseAt layout id (h.address layout) = some w' ∧
        OneMore layout (h.address layout) w' w ∧
        w.perform (.release id number) = (w'.spend number h .released, .done)

/-- **Addresses tell slots apart and lead back to them**, in every run in which the blocks in memory
lie at addresses of their own. -/
theorem addresses_tell (hrun : Run {} steps w) (halong : PlacedAlong steps layout) :
    AddressesTell layout steps w where
  back := by
    intro base i hbase
    exact ⟨Address.toNat_ofSlot hbase i, Address.blockOf_ofSlot hbase i, Address.le_ofSlot hbase i,
      Address.indexOf_ofSlot hbase i, Address.indexOf?_ofSlot hbase i⟩
  apart := by
    intro base base' i j hbase hbase' hne heq
    exact hne ((Address.ofSlot_inj hbase hbase').1 heq).1
  sentinel := by
    intro ι _ r base i hbase
    exact ⟨Race.ne_one_of_isBlock hbase, Address.ofSlot_ne_one hbase i⟩
  found := by
    intro a id p
    exact (hrun.placed halong).slotAt?_eq_some_iff
  compared := by
    intro number i e hi hhand
    have hentry := (hrun.sound .init).holds_inHand hhand
    exact Address.ofSlot_inj (hrun.isBlock_of_issued halong hi)
      ((hrun.placed halong).block _ _ hentry)
  same := by
    intro number h s e hh hs hhand
    exact (hrun.sound .init).address_eq_iff (hrun.placed halong) hh hs hhand
  told := by
    intro session index h s e hsession hh hs hhand
    subst hsession
    have hsame := (hrun.sound .init).address_eq_iff (hrun.placed halong) hh hs hhand
    have hanswer : (session.onEntry e (.same (some index))).2 =
        .truth (h.owner = e.storage ∧ h.place = e.place) := by
      simp only [Script.Session.onEntry, handle_of_held hh]
    rw [hanswer]
    exact congrArg Script.Answer.truth (decide_eq_decide.2 hsame.symm)
  released := by
    intro before st later id number h s hsteps hevent hreply hheld hs
    subst hsteps
    have hw := hrun.sound .init
    have hplaced := hrun.placed halong
    obtain ⟨hbefore, hp, hafter⟩ := hrun.split
    have hwst := hbefore.sound .init
    have ht : Transition st.before st.event st.after st.reply := hwst.transition hp
    rw [hevent, hreply] at ht
    obtain ⟨p, hissued, hset⟩ := ht.oneMore_of_allocated (halong st (by simp))
    -- the handle has been the same ever since
    obtain ⟨tenure, hkept⟩ := hafter.handle_kept (ht.sound hwst) hissued
    obtain rfl : (⟨id, p⟩ : Handle) = h := by
      rw [hheld] at hkept
      exact (Issued.mk.inj (Option.some.inj hkept)).1.symm
    exact ⟨rfl, hset, hw.releaseAt_eq hplaced hs hheld⟩

/-- A block lies where another lay whose storage was dropped, and one more where one of the same
storage lay that was deleted.  The handle to the slot of the first has the address of the entry in
hand, though its storage is gone. -/
theorem addresses_tell_of_reused_memory :
    let layout : Layout := fun id _ => if id = 3 then 2048#64 else 1024#64
    let events : List Event :=
      [.create {}, .create {}, .create {}, .allocate 1, .drop 1, .allocate 2, .allocate 3,
        .release 3 3, .delete 3 true, .allocate 3, .allocate 2, .beginPass 2 false .readOnly,
        .enter 1 .every, .advance, .advance]
    let w := ({} : World).afterAll events
    (({} : World).PermitsAll events ∧ PlacedAlong (({} : World).trail events) layout) ∧
    (w.InHand ⟨2, ⟨1, 0⟩, .readOnly⟩ ∧
      Handle.address layout ⟨1, ⟨1, 0⟩⟩ = Entry.address layout ⟨2, ⟨1, 0⟩, .readOnly⟩) ∧
    (w.slotAt? layout 1032#64 = some (2, ⟨1, 1⟩) ∧ w.slotAt? layout 2048#64 = some (3, ⟨2, 0⟩)) ∧
    AddressesTell layout (({} : World).trail events) w := by
  refine ⟨by decide +kernel, by decide +kernel, by decide +kernel, ?_⟩
  exact addresses_tell (run_trail _ _ (by decide +kernel)) (by decide +kernel)

end World

end RootStore
