import RootStore.Proofs.Handle.Contents
import RootStore.Proofs.Storage.Shape
import RootStore.Proofs.World.Operation

/-!
# Free entries hold null

A visitor keeps the entry in its hand when the entry is released under it, and a scan goes on
through the entries that were in use when it began.  Neither ever sees an old object: an entry that
is not in use holds null from its release to the next allocation and beyond, until it is written.

* `World.turn?` — the entry that the innermost iteration takes up next.
* `World.Observes` — what shows an entry to hold an object.
* `World.Run.null_until_written` — **a new handle reads null until its entry is written.**
* `World.NullWhileFree`, `World.null_while_free` — **what is said of free entries, and that it
  holds.**
-/

namespace RootStore

namespace Progress

variable {method : Method} {e e' : Entry} {v : Option Reference} {object : Reference}

/-- What is asked about is what the entry holds. -/
theorem of_offer_asking (h : offer method e v = .asking e' object) : e' = e ∧ v = some object := by
  cases method <;> cases v <;> simp_all [offer]

/-- An entry that is visited holds an object, unless every entry is visited. -/
theorem of_offer_visiting (h : offer method e v = .visiting e') (hmethod : method ≠ .every) :
    e' = e ∧ ∃ object, v = some object := by
  cases method <;> cases v <;> simp_all [offer]

/-- An entry that holds null is passed over, unless every entry is visited. -/
theorem offer_null (hmethod : method ≠ .every) : offer method e none = .passedOver e := by
  cases method <;> simp_all [offer]

end Progress

namespace World

variable {w w' : World} {e : Event} {r : Reply} {id number : Nat} {s : Storage} {p : Place}
  {en : Entry} {c : Handle → Option Reference} {k : Handle} {steps : List Step}
  {v : Option Reference}

/-- The method of the innermost iteration and the entry that it takes up next, if it has not done
with the block that it scans. -/
def turn? (w : World) : Option (Method × Entry) := do
  let c ← w.calls.head?
  let q ← w.passes.get? c.pass
  let claim ← c.scanning
  let i ← claim.snapshot.lowest?
  return (c.method, { storage := q.storage, place := ⟨claim.block, i⟩, access := q.access })

/-- What shows an entry to hold an object, in the world that an event finds and by its answer. -/
inductive Observes (w : World) : Event → Reply → Entry → Prop
  /-- It is read. -/
  | loaded {e : Entry} {object : Reference} : Observes w (.load e) (.content (some object)) e
  /-- It is exchanged. -/
  | exchanged {e : Entry} {expected found : Reference} {new : Option Reference} :
      Observes w (.exchange e expected new) (.exchanged (.ok found)) e
  /-- It is not exchanged, and the answer says what it holds. -/
  | refused {e : Entry} {expected found : Reference} {new : Option Reference} :
      Observes w (.exchange e expected new) (.exchanged (.error (some found))) e
  /-- Its object is to be judged. -/
  | asked {e : Entry} {pass : Nat} {object : Reference} :
      Observes w .advance (.progressed pass (.asking e object)) e
  /-- It is visited by an iteration that passes over entries that hold null. -/
  | visited {e : Entry} {c : Call} {pass : Nat} (hcall : w.calls.head? = some c)
      (hmethod : c.method ≠ .every) : Observes w .advance (.progressed pass (.visiting e)) e

theorem entryInUse_iff : w.EntryInUse en ↔
    ∃ s, w.storages.get? en.storage = some s ∧ s.InUse en.place := by
  simp [EntryInUse, Storage.InUse]

/-! ## Entries that are not in use -/

namespace Faithful

/-- A slot that holds an object is in use. -/
theorem inUse_of_some {object : Reference} (h : w.Faithful c) (hs : w.storages.get? id = some s)
    (hload : s.load p = .ok (some object)) : s.InUse p := by
  by_contra hp
  cases h.null id s p _ hs hp hload

/-- A slot of a linked block that is not in use can be read, and holds null. -/
theorem load_eq_null (h : w.Faithful c) (hs : w.storages.get? id = some s) (hsound : s.Sound)
    (hn : p.block ∈ s.linked) (hp : ¬ s.InUse p) : s.load p = .ok none := by
  obtain ⟨b, hb⟩ := hsound.lists.isSome hn
  have hload : s.load p = .ok (b.load p.slot) := Storage.load_eq_ok_iff.2 ⟨b, hb, rfl⟩
  rw [hload, h.null id s p _ hs hp hload]

/-- A visitor whose entry is not in use any more reads null. -/
theorem load_inHand (h : w.Faithful c) (hw : w.Sound) (hhand : w.InHand en)
    (hfree : ¬ w.EntryInUse en) :
    ∃ s, w.storages.get? en.storage = some s ∧ s.load en.place = .ok none := by
  obtain ⟨s, hs, ⟨v, hload⟩, -⟩ := hw.store_of_inHand hhand
  refine ⟨s, hs, ?_⟩
  rw [hload, h.null _ s _ v hs (fun hp => hfree (entryInUse_iff.2 ⟨s, hs, hp⟩)) hload]

/-- **What shows an entry to hold an object shows that it is in use.** -/
theorem inUse_of_observes (h : w.Faithful c) (ht : Transition w e w' r)
    (hobs : w.Observes e r en) : w.EntryInUse en := by
  rw [entryInUse_iff]
  cases hobs with
  | loaded =>
      cases ht with
      | loaded hs hload => exact ⟨_, hs, h.inUse_of_some hs hload⟩
  | exchanged | refused =>
      generalize hr : Reply.exchanged _ = r at ht
      cases ht with
      | failed => cases hr
      | @exchanged _ _ _ found s s' hs hload hstore hwritten huse =>
          rcases found with _ | object
          · simp at hr
          · exact ⟨_, hs, h.inUse_of_some hs hload⟩
  | asked =>
      generalize hr : Reply.progressed _ _ = r at ht
      cases ht with
      | failed | claimed | finished => cases hr
      | offered hcalls hq hs hscan hslot hload =>
          obtain ⟨rfl, rfl⟩ := Progress.of_offer_asking (Reply.progressed.inj hr).2.symm
          exact ⟨_, hs, h.inUse_of_some hs hload⟩
  | visited hcall hmethod =>
      generalize hr : Reply.progressed _ _ = r at ht
      cases ht with
      | failed | claimed | finished => cases hr
      | offered hcalls hq hs hscan hslot hload =>
          rw [hcalls] at hcall
          obtain rfl := Option.some.inj hcall
          obtain ⟨rfl, object, rfl⟩ :=
            Progress.of_offer_visiting (Reply.progressed.inj hr).2.symm hmethod
          exact ⟨_, hs, h.inUse_of_some hs hload⟩

/-- An exchange of an entry that is not in use any more fails and changes nothing. -/
theorem exchange_free (h : w.Faithful c) (hw : w.Sound) (hhand : w.InHand en)
    (hfree : ¬ w.EntryInUse en) (expected : Reference) (new : Option Reference) :
    w.perform (.exchange en expected new) = (w, .exchanged (.error none)) := by
  obtain ⟨s, hs, hload⟩ := h.load_inHand hw hhand hfree
  obtain ⟨b, hb, hnull⟩ := Storage.load_eq_ok_iff.1 hload
  -- null is written over null
  have hsame : b.store en.place.slot none = b := by
    rw [← hnull]
    simp [Block.store, Block.load]
  have hstore : s.store en.place none = .ok s := by
    rw [Storage.store, Storage.updateBlock_eq hb, hsame, Storage.setBlock, Registry.set_eq_self hb]
  simp [perform, act, World.exchange, World.load, World.store, storage_of_some hs, hload, hstore,
    Failure.ofFault, World.setStorage, Registry.set_eq_self hs, Except.map, bind, Except.bind, pure,
    Except.pure]

/-- **An entry that is not in use when its turn comes is passed over** by an iteration that does not
visit every entry, and nothing but the iteration changes. -/
theorem advance_free {method : Method} (h : w.Faithful c) (hw : w.Sound)
    (hturn : w.turn? = some (method, en)) (hmethod : method ≠ .every) (hfree : ¬ w.EntryInUse en) :
    ∃ calls,
      w.perform .advance = ({ w with calls }, .progressed w.innermost (.passedOver en)) ∧
        ∀ c ∈ calls.head?, c.stage = .ready := by
  simp only [turn?, bind, Option.bind_eq_some_iff, pure, Option.some.injEq, Prod.mk.injEq] at hturn
  obtain ⟨c₀, hcall, q, hq, claim, hscan, i, hslot, rfl, rfl⟩ := hturn
  obtain ⟨outer, hcalls⟩ := List.head?_eq_some_iff.1 hcall
  obtain ⟨q', s, hq', hs, hf⟩ := hw.calls c₀ (by simp [hcalls])
  obtain rfl := Option.some.inj (hq'.symm.trans hq)
  have hload : s.load ⟨claim.block, i⟩ = .ok none :=
    h.load_eq_null hs (hw.storages _ s hs).2 (hf.scanning claim hscan) fun huse =>
      hfree (entryInUse_iff.2 ⟨s, hs, huse⟩)
  have hinner : w.innermost = c₀.pass := by simp [innermost, hcalls]
  refine ⟨{ c₀ with
    scanning := some { claim with snapshot := claim.snapshot.dropLowest }
    stage := .ready } :: outer, ?_, by simp⟩
  simp [perform, act, World.advance, hcalls, pass_of_some hq', storageOf_of_some hs, hscan, hslot,
    hload, Progress.offer_null hmethod, Progress.stage, hinner, Failure.ofFault, Except.map, bind,
    Except.bind, pure, Except.pure]

end Faithful

/-! ## Entries that come into use -/

/-- **An entry comes into use only by an allocation**, and its slot holds then what it held. -/
theorem Transition.comes_into_use {s' : Storage} (ht : Transition w e w' r) (hw : w.Sound)
    (hs' : w'.storages.get? id = some s') (hp : s'.InUse p)
    (hfree : ∀ s, w.storages.get? id = some s → ¬ s.InUse p) :
    e = .allocate id ∧ ∃ s, w.storages.get? id = some s ∧ s.Granted s' p := by
  rcases ht.origin hs' with ⟨s, hs, hop⟩ | ⟨settings, rfl⟩
  swap
  · obtain ⟨b, hb, -⟩ := hp
    simp [Storage.make] at hb
  have hsound := (hw.storages _ s hs).2
  have hnot : ¬ s.InUse p := hfree s hs
  cases hop with
  | allocated halloc =>
      rcases hsound.allocate with heq | ⟨s₁, q, linked, heq, hgranted⟩
      · obtain rfl := Except.ok.inj (heq.symm.trans halloc)
        exact absurd hp hnot
      · obtain rfl := Except.ok.inj (heq.symm.trans halloc)
        obtain rfl := ((hgranted.inUse_iff p).1 hp).resolve_left hnot
        exact ⟨rfl, s, hs, hgranted⟩
  | released hrelease =>
      obtain ⟨b, hb, hs₁⟩ := Storage.release_inv hrelease
      rw [Storage.inUse_set hb (by rw [hs₁])] at hp
      split at hp
      · rename_i hn
        rw [Block.inUse_releaseEntry, Bool.and_eq_true] at hp
        exact absurd ⟨b, by rw [hn, hb], hp.1⟩ hnot
      · exact absurd hp hnot
  | @stored _ _ _ q v hstore =>
      rcases hb : s.blocks.get? q.block with _ | b
      · simp [Storage.store, Storage.updateBlock, Storage.block, hb, bind, Except.bind] at hstore
      · have hs₁ := Except.ok.inj ((Storage.updateBlock_eq hb _).symm.trans hstore)
        rw [Storage.inUse_set hb (by rw [← hs₁]; rfl)] at hp
        split at hp
        · rename_i hn
          exact absurd ⟨b, by rw [hn, hb], hp⟩ hnot
        · exact absurd hp hnot
  | deleted hdelete =>
      obtain ⟨d, gone, heq, hwithout, -⟩ := hsound.deleteEmpty _
      obtain rfl := Except.ok.inj (heq.symm.trans hdelete)
      exact absurd ((hwithout.inUse_iff hsound).1 hp) hnot
  | marked iterating counters => exact absurd hp hnot

/-- A handle stays what it is, whatever becomes of it. -/
theorem Transition.handle_kept {i : Issued} (ht : Transition w e w' r)
    (hi : w.handles.get? number = some i) :
    ∃ tenure, w'.handles.get? number = some { handle := i.handle, tenure } := by
  have hset : ∀ (m : Nat) (h : Handle) (tenure : Tenure),
      w.handles.get? m = some { handle := h } →
      ∃ tenure', (w.handles.set m { handle := h, tenure }).get? number =
        some { handle := i.handle, tenure := tenure' } := by
    intro m h tenure hm
    rw [Registry.get?_set_of_some hm]
    split
    · rename_i hnm
      subst hnm
      obtain rfl := Option.some.inj (hi.symm.trans hm)
      exact ⟨tenure, rfl⟩
    · exact ⟨i.tenure, hi⟩
  cases ht with
  | failed | created | dropped | refused | got | written | deleted | began | ended | forgotten
  | pinned | resumed | offered | claimed | finished | upheld | cleared | panicked | loaded
  | stored | exchanged => exact ⟨i.tenure, hi⟩
  | @granted id s s' p linked hs halloc hgranted =>
      refine ⟨i.tenure, ?_⟩
      have := (Registry.bounds_of_get?_eq_some hi).2
      change (w.handles.add _).get? number = _
      rw [Registry.get?_add, if_neg (by omega)]
      exact hi
  | released hh hs hrelease hwritten huse => exact hset _ _ _ hh
  | lost hh hs hforeign => exact hset _ _ _ hh

/-- A handle that was issued in a step is the handle of the entry that the step writes with null. -/
theorem Transition.issued {number : Nat} (ht : Transition w e w' r)
    (hr : r = .allocated (some number)) :
    ∃ k, w'.handles.get? number = some { handle := k } ∧ written? w e w' r k = some none := by
  cases ht with
  | failed | created | dropped | refused | got | written | deleted | began | ended | forgotten
  | pinned | resumed | offered | claimed | finished | upheld | cleared | panicked | loaded
  | stored | exchanged | released | lost => simp at hr
  | @granted id s s' p linked hs halloc hgranted =>
      simp only [Reply.allocated.injEq, Option.some.injEq] at hr
      subst hr
      have hget : (w.handles.add { handle := ⟨id, p⟩ }).get? (w.handles.size + 1) =
          some { handle := ⟨id, p⟩ } := (Registry.get?_add _ _ _).trans (if_pos rfl)
      exact ⟨⟨id, p⟩, hget, by simp [written?, World.record, hget]⟩

/-- What an entry holds is what it held before some steps, if none of them writes it. -/
theorem content_append_of_not_written (before later : List Step)
    (hlater : ∀ st ∈ later, written? st.before st.event st.after st.reply k = none) :
    content (before ++ later) k = content before k := by
  induction later using List.reverseRecOn with
  | nil => rw [List.append_nil]
  | append_singleton later st ih =>
      rw [← List.append_assoc, content_snoc, hlater st (by simp), Option.getD_none]
      exact ih fun st' hst' => hlater st' (by simp [hst'])

/-- A handle stays what it is in the course of a run. -/
theorem Run.handle_kept {i : Issued} {steps' : List Step} (h : Run w steps' w') (hw : w.Sound)
    (hi : w.handles.get? number = some i) :
    ∃ tenure, w'.handles.get? number = some { handle := i.handle, tenure } := by
  induction h with
  | nil => exact ⟨i.tenure, hi⟩
  | snoc e hrun hp ih =>
      obtain ⟨tenure, hi₁⟩ := ih
      obtain ⟨tenure', hi₂⟩ := ((hrun.sound hw).transition hp).handle_kept hi₁
      exact ⟨tenure', hi₂⟩

/-- **A new handle reads null until its entry is written.** -/
theorem Run.null_until_written {before later : List Step} {st : Step}
    (h : Run {} (before ++ st :: later) w)
    (hcareful : ∀ st' ∈ before ++ st :: later, st'.before.Careful st'.event)
    (hreply : st.reply = .allocated (some number))
    (hheld : w.handles.get? number = some { handle := k })
    (hs : w.storages.get? k.owner = some s)
    (hlater : ∀ st' ∈ later, written? st'.before st'.event st'.after st'.reply k = none) :
    w.get k.owner number = .ok none := by
  have hw := h.sound .init
  obtain ⟨hbefore, hp, hafter⟩ := h.split
  have hwst := hbefore.sound .init
  have ht := hwst.transition hp
  obtain ⟨k', hissued, hnull⟩ := ht.issued hreply
  -- the handle has been the same ever since
  obtain ⟨tenure, hkept⟩ := hafter.handle_kept (ht.sound hwst) hissued
  obtain rfl : k' = k := by
    rw [hheld] at hkept
    exact (Issued.mk.inj (Option.some.inj hkept)).1.symm
  have hcontent : content (before ++ st :: later) k' = none := by
    rw [List.append_cons, content_append_of_not_written _ later hlater, content_snoc]
    exact congrArg (fun v : Option (Option Reference) => v.getD (content before k')) hnull
  have hin : s.InUse k'.place := hw.inUse number { handle := k' } s hheld (by simp) hs
  have hload := (h.faithful hcareful).holds k'.owner s k'.place hs hin
  rw [show (⟨k'.owner, k'.place⟩ : Handle) = k' from rfl, hcontent] at hload
  simp [World.get, owned, handle_of_held hheld, storage_of_some hs, (hw.storages _ s hs).1, hload,
    Failure.ofFault, bind, Except.bind, pure, Except.pure]

/-! ## Free entries in the course of a run -/

/-- **What is said of free entries** in a world that some steps have led to. -/
structure NullWhileFree (steps : List Step) (w : World) : Prop where
  /-- A slot of a linked block that is not in use holds null. -/
  null : ∀ id s p, w.storages.get? id = some s → p.block ∈ s.linked → ¬ s.InUse p →
    s.load p = .ok none
  /-- An entry comes into use only by an allocation, and holds null then. -/
  not_revived : ∀ st ∈ steps, ∀ id s p, st.after.storages.get? id = some s → s.InUse p →
    (∀ s₀, st.before.storages.get? id = some s₀ → ¬ s₀.InUse p) →
    st.event = .allocate id ∧ s.load p = .ok none
  /-- A handle reads null from its allocation until its entry is written. -/
  fresh : ∀ before st later number k s, steps = before ++ st :: later →
    st.reply = .allocated (some number) → w.handles.get? number = some { handle := k } →
    w.storages.get? k.owner = some s →
    (∀ st' ∈ later, written? st'.before st'.event st'.after st'.reply k = none) →
    w.get k.owner number = .ok none
  /-- A visitor whose entry is free reads null. -/
  loaded : ∀ e, w.InHand e → ¬ w.EntryInUse e → w.perform (.load e) = (w, .content none)
  /-- Its exchanges fail, and change nothing. -/
  exchanged : ∀ e expected new, w.InHand e → ¬ w.EntryInUse e →
    w.perform (.exchange e expected new) = (w, .exchanged (.error none))
  /-- An entry that is free when its turn comes is passed over by an iteration that does not visit
  every entry: neither visitor nor judge is called. -/
  passed_over : ∀ method e, w.turn? = some (method, e) → method ≠ .every → ¬ w.EntryInUse e →
    ∃ calls, w.perform .advance = ({ w with calls }, .progressed w.innermost (.passedOver e)) ∧
      ∀ c ∈ calls.head?, c.stage = .ready
  /-- What shows an entry to hold an object shows that it is in use. -/
  observed : ∀ event e, w.Permits event → w.Observes event (w.perform event).2 e → w.EntryInUse e

/-- **Free entries hold null and are never revived**, in every run in which visitors give no value
to an entry that is not in use. -/
theorem null_while_free (h : Run {} steps w)
    (hcareful : ∀ st ∈ steps, st.before.Careful st.event) : NullWhileFree steps w := by
  have hw := h.sound .init
  have hfaithful := h.faithful hcareful
  exact {
    null := fun id s p hs hn hp => hfaithful.load_eq_null hs (hw.storages id s hs).2 hn hp
    not_revived := fun st hst id s p hs hp hfree => by
      obtain ⟨l₁, l₂, rfl⟩ := List.append_of_mem hst
      obtain ⟨hbefore, hpst, -⟩ := h.split
      have hwst := hbefore.sound .init
      obtain ⟨hevent, s₀, hs₀, hgranted⟩ := (hwst.transition hpst).comes_into_use hwst hs hp hfree
      refine ⟨hevent, ?_⟩
      obtain ⟨v, hv⟩ := hp.load
      have hnull := (hbefore.faithful fun st' hst' => hcareful st' (by simp [hst'])).null
      rcases hgranted.load_new p v hv with hold | rfl
      · rw [hv, hnull id s₀ p v hs₀ (hfree s₀ hs₀) hold]
      · exact hv
    fresh := fun before st later number k s hsteps hreply hheld hs hlater => by
      subst hsteps
      exact h.null_until_written hcareful hreply hheld hs hlater
    loaded := fun e hhand hfree => by
      obtain ⟨s, hs, hload⟩ := hfaithful.load_inHand hw hhand hfree
      simp [perform, act, World.load, storage_of_some hs, hload, Failure.ofFault, Except.map, bind,
        Except.bind]
    exchanged := fun e expected new hhand hfree =>
      hfaithful.exchange_free hw hhand hfree expected new
    passed_over := fun method e hturn hmethod hfree => hfaithful.advance_free hw hturn hmethod hfree
    observed := fun event e hp hobs => hfaithful.inUse_of_observes (hw.transition hp) hobs }

/-- A visitor has released the next entry and its own one, which it has still in hand. -/
theorem null_while_free_of_released :
    let object : Reference := ⟨5#64, by decide⟩
    let events : List Event :=
      [.create {}, .allocate 1, .allocate 1, .set 1 1 (some object), .set 1 2 (some object),
        .beginPass 1 false .writable, .enter 1 .nonNull, .advance, .advance, .release 1 2,
        .release 1 1]
    let w := ({} : World).afterAll events
    (({} : World).PermitsAll events ∧
      ∀ st ∈ ({} : World).trail events, st.before.Careful st.event) ∧
    (w.InHand ⟨1, ⟨1, 0⟩, .writable⟩ ∧ ¬ w.EntryInUse ⟨1, ⟨1, 0⟩, .writable⟩) ∧
    (w.turn? = some (.nonNull, ⟨1, ⟨1, 1⟩, .writable⟩) ∧ ¬ w.EntryInUse ⟨1, ⟨1, 1⟩, .writable⟩) ∧
    NullWhileFree (({} : World).trail events) w := by
  refine ⟨by decide +kernel, by decide +kernel, by decide +kernel, ?_⟩
  exact null_while_free (run_trail _ _ (by decide +kernel)) (by decide +kernel)

end World

end RootStore
