import RootStore.Proofs.Handle.Contents

/-!
# What slots hold

What a slot holds does not depend on whether its entry is in use, nor on whose it is: it is what was
last written there.  To release an entry writes null, and to allocate one writes nothing.

* `World.SlotHolds` — what a slot holds.
* `World.overwrites?`, `World.overwritten` — what an event writes to a slot, what some steps leave
  there.
* `World.Transition.overwritten`, `World.Run.overwritten` — **a slot holds what was last written
  there**, if it is still there.
-/

namespace RootStore

namespace World

variable {w w' : World} {e : Event} {r : Reply} {id : Nat} {s s' : Storage} {p : Place} {k : Handle}
  {v v' u : Option Reference}

/-- What a slot holds, whoever uses it; the slot of an entry is named like the handle that stands
for it. -/
def SlotHolds (w : World) (k : Handle) (v : Option Reference) : Prop :=
  ∃ s, w.storages.get? k.owner = some s ∧ s.load k.place = .ok v

/-- What an event that leads from `w` to `w'` writes to a slot. -/
def overwrites? (w : World) (e : Event) (w' : World) (r : Reply) (k : Handle) :
    Option (Option Reference) :=
  match e, r with
  | .release _ number, .done =>
      if (w.handles.get? number).map (·.handle) = some k then some none else none
  | .allocate _, _ => none
  | e, r => written? w e w' r k

/-- What some steps leave in a slot that held `v`. -/
def overwritten (steps : List Step) (k : Handle) (v : Option Reference) : Option Reference :=
  steps.foldl (fun v st => (overwrites? st.before st.event st.after st.reply k).getD v) v

theorem overwritten_snoc (steps : List Step) (st : Step) : overwritten (steps ++ [st]) k v =
    (overwrites? st.before st.event st.after st.reply k).getD (overwritten steps k v) := by
  unfold overwritten
  rw [List.foldl_append]
  rfl

/-- A slot that no step writes is left as it was. -/
theorem overwritten_eq_self {steps : List Step}
    (h : ∀ st ∈ steps, overwrites? st.before st.event st.after st.reply k = none) :
    overwritten steps k v = v := by
  induction steps using List.reverseRecOn with
  | nil => rfl
  | append_singleton steps st ih =>
      rw [overwritten_snoc, h st (by simp), Option.getD_none]
      exact ih fun st' hst' => h st' (by simp [hst'])

namespace SlotHolds

theorem unique (h : w.SlotHolds k v) (h' : w.SlotHolds k v') : v' = v := by
  obtain ⟨s, hs, hload⟩ := h
  obtain ⟨s', hs', hload'⟩ := h'
  obtain rfl := Option.some.inj (hs.symm.trans hs')
  exact Except.ok.inj (hload'.symm.trans hload)

/-- Where one storage changes, only its slots need be looked at. -/
theorem of_set (h : w.SlotHolds k v) (hs : w.storages.get? id = some s)
    (hset : w'.storages = w.storages.set id s') (hother : k.owner ≠ id → u = v)
    (hload : k.owner = id → s.load k.place = .ok v → s'.load k.place = .ok u) :
    w'.SlotHolds k u := by
  obtain ⟨t, ht, hv⟩ := h
  have hget := Registry.get?_set_of_some hs s' k.owner
  rw [← hset] at hget
  by_cases hid : k.owner = id
  · obtain rfl := Option.some.inj ((hid ▸ hs).symm.trans ht)
    exact ⟨s', by rw [hget, if_pos hid], hload hid hv⟩
  · exact ⟨t, by rw [hget, if_neg hid, ht], by rw [hother hid, hv]⟩

/-- One slot is written. -/
theorem of_written (h : w.SlotHolds k v) (hs : w.storages.get? id = some s)
    (hset : w'.storages = w.storages.set id s') (hwritten : s.Written s' p u) :
    w'.SlotHolds k (if k = ⟨id, p⟩ then u else v) := by
  refine h.of_set hs hset (fun hid => if_neg ?_) fun hid hload => ?_
  · rintro rfl
    exact hid rfl
  · rw [hwritten.load_eq]
    obtain ⟨owner, q⟩ := k
    obtain rfl := hid
    by_cases hq : q = p <;> simp_all

end SlotHolds

/-- **A slot holds what was last written there**, if it is still there. -/
theorem Transition.overwritten (ht : Transition w e w' r) (hw : w.Sound) (h : w.SlotHolds k v)
    (h' : w'.SlotHolds k v') : v' = (overwrites? w e w' r k).getD v := by
  cases ht with
  | failed => cases e <;> exact h.unique h'
  | refused | lost | got | forgotten | pinned | resumed | claimed | finished | upheld | panicked
  | loaded => exact h.unique h'
  | @offered c' outer q s k' slot v =>
      rcases hm : c'.method <;> rcases v <;> exact h.unique h'
  | created settings =>
      obtain ⟨s, hs, hload⟩ := h
      have hold := (Registry.bounds_of_get?_eq_some hs).2
      have hkept : (w.create settings).1.storages.get? k.owner = some s :=
        (Registry.get?_add _ _ _).trans ((if_neg (by omega)).trans hs)
      exact SlotHolds.unique ⟨s, hkept, hload⟩ h'
  | dropped =>
      obtain ⟨s', hs', hload'⟩ := h'
      rw [Registry.get?_erase] at hs'
      split at hs'
      · cases hs'
      · exact h.unique ⟨s', hs', hload'⟩
  | began hs hfree hflag =>
      refine SlotHolds.unique ?_ h'
      exact h.of_set hs rfl (fun _ => rfl) fun _ hload => hload
  | ended hq hs hidle =>
      refine SlotHolds.unique ?_ h'
      exact h.of_set hs rfl (fun _ => rfl) fun _ hload => hload
  | @deleted id yielding s d gone hs hdelete hwithout hgone hcount hfree =>
      obtain ⟨s', hs', hload'⟩ := h'
      change (w.storages.set id d.storage).get? k.owner = some s' at hs'
      rw [Registry.get?_set_of_some hs] at hs'
      split at hs'
      · rename_i hid
        obtain rfl := Option.some.inj hs'
        exact h.unique ⟨s, by rw [hid, hs], hwithout.load_eq (hw.storages id s hs).2 hload'⟩
      · exact h.unique ⟨s', hs', hload'⟩
  | granted hs halloc hgranted =>
      exact (h.of_set hs rfl (fun _ => rfl) fun _ => hgranted.load_old _ _).unique h'
  | released hh hs hrelease hwritten huse =>
      rw [(h.of_written hs rfl hwritten).unique h']
      simp only [overwrites?, hh, Option.map_some, Option.some.injEq, eq_comm (b := k)]
      split <;> rfl
  | written hh hs hstore hwritten huse =>
      rw [(h.of_written hs rfl hwritten).unique h']
      simp only [overwrites?, written?, hh, Option.map_some, Option.some.injEq, eq_comm (b := k)]
      split <;> rfl
  | cleared hcalls hstage hs hstore hwritten huse | stored hs hstore hwritten huse =>
      rw [(h.of_written hs rfl hwritten).unique h']
      simp only [overwrites?, written?]
      split <;> rfl
  | @exchanged en expected new found s s' hs hload hstore hwritten huse =>
      rw [(h.of_written hs rfl hwritten).unique h']
      by_cases hfound : found = some expected
      · simp only [RootStore.exchange, hfound, if_true, overwrites?, written?]
        split <;> rfl
      · -- what was found is left
        have hsame : k = ⟨en.storage, en.place⟩ → found = v := by
          rintro rfl
          exact h.unique ⟨s, hs, hload⟩
        simp only [RootStore.exchange, hfound, if_false, overwrites?, written?]
        split
        · exact hsame ‹_›
        · rfl

/-- **In the course of a run** a slot that is there all along holds what was last written there. -/
theorem Run.overwritten {steps : List Step} (hrun : Run w steps w') (hw : w.Sound)
    (h : w.SlotHolds k v) (hthere : ∀ st ∈ steps, ∃ u, st.after.SlotHolds k u) :
    w'.SlotHolds k (World.overwritten steps k v) := by
  induction hrun with
  | nil => exact h
  | @snoc w₁ steps e hrun hp ih =>
      have hbefore := ih fun st hst => hthere st (by simp [hst])
      have hw₁ := hrun.sound hw
      obtain ⟨u, hafter⟩ := hthere ⟨w₁, e⟩ (by simp)
      rw [overwritten_snoc]
      rwa [(hw₁.transition hp).overwritten hw₁ hbefore hafter] at hafter

/-- What a slot holds is what is read through a handle that stands for it. -/
theorem SlotHolds.get_eq {number : Nat} (h : w.SlotHolds k v) (hw : w.Sound)
    (hheld : w.handles.get? number = some { handle := k }) : w.get k.owner number = .ok v := by
  obtain ⟨s, hs, hload⟩ := h
  simp [World.get, owned, handle_of_held hheld, storage_of_some hs, (hw.storages _ s hs).1, hload,
    Failure.ofFault, bind, Except.bind, pure, Except.pure]

end World

end RootStore
