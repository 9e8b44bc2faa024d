import RootStore.Proofs.World.Effect

/-!
# What entries hold

An entry in use holds what was last written to it since it was allocated, through its handle or by
the visitors and the judges of passes, and a slot that is not in use holds null.

* `World.written?` — what an event writes to an entry.
* `World.content` — what was last written to an entry in the course of a run.
* `World.Faithful` — **the invariant**: storages hold what a function of entries tells.
* `World.Faithful.step` — kept by every event that gives no value to an entry that is not in use.
-/

namespace RootStore

namespace World

variable {w w' : World} {e : Event} {r : Reply} {id : Nat} {s s' : Storage} {p : Place}
  {c c' : Handle → Option Reference} {v : Option Reference}

/-- What an event that leads from `w` to `w'` writes to an entry.  A new entry counts as written. -/
def written? (w : World) (e : Event) (w' : World) (r : Reply) (h : Handle) :
    Option (Option Reference) :=
  match e, r with
  | .allocate _, .allocated (some number) =>
      if (w'.handles.get? number).map (·.handle) = some h then some none else none
  | .set _ number v, .done =>
      if (w.handles.get? number).map (·.handle) = some h then some v else none
  | .store e v, .done => if h = ⟨e.storage, e.place⟩ then some v else none
  | .exchange e _ new, .exchanged (.ok _) => if h = ⟨e.storage, e.place⟩ then some new else none
  | .judge _, .progressed _ (.cleared e) => if h = ⟨e.storage, e.place⟩ then some none else none
  | _, _ => none

/-- What was last written to an entry in these steps; null to begin with. -/
def content (steps : List Step) (h : Handle) : Option Reference :=
  steps.foldl (fun v st => (written? st.before st.event st.after st.reply h).getD v) none

theorem content_snoc (steps : List Step) (st : Step) (h : Handle) : content (steps ++ [st]) h =
    (written? st.before st.event st.after st.reply h).getD (content steps h) := by
  unfold content
  rw [List.foldl_append]
  rfl

/-- Slots hold what is told of entries in use, and null elsewhere. -/
structure Faithful (w : World) (c : Handle → Option Reference) : Prop where
  /-- A slot that is not in use holds null. -/
  null : ∀ id s p v, w.storages.get? id = some s → ¬ s.InUse p → s.load p = .ok v → v = none
  /-- A slot in use holds what is told. -/
  holds : ∀ id s p, w.storages.get? id = some s → s.InUse p → s.load p = .ok (c ⟨id, p⟩)

namespace Faithful

/-- Where storages stay as they are, nothing need be told anew. -/
theorem of_eq (h : w.Faithful c) (hs : w'.storages = w.storages) (hc : ∀ k, c' k = c k) :
    w'.Faithful c' where
  null := by rw [hs]; exact h.null
  holds := fun id s p hs' hp => by rw [hs] at hs'; rw [hc]; exact h.holds id s p hs' hp

/-- Where one storage changes, only its entries need be told anew. -/
theorem of_set (h : w.Faithful c) (hs : w.storages.get? id = some s)
    (hset : w'.storages = w.storages.set id s') (hother : ∀ k, k.owner ≠ id → c' k = c k)
    (hnull : ∀ p v, ¬ s'.InUse p → s'.load p = .ok v → v = none)
    (hholds : ∀ p, s'.InUse p → s'.load p = .ok (c' ⟨id, p⟩)) : w'.Faithful c' where
  null := fun m t p v ht hp hv => by
    rw [hset, Registry.get?_set_of_some hs] at ht
    split at ht
    · obtain rfl := Option.some.inj ht
      exact hnull p v hp hv
    · exact h.null m t p v ht hp hv
  holds := fun m t p ht hp => by
    rw [hset, Registry.get?_set_of_some hs] at ht
    split at ht
    · rename_i hm
      obtain rfl := Option.some.inj ht
      rw [hm]
      exact hholds p hp
    · rename_i hm
      rw [hother ⟨m, p⟩ hm]
      exact h.holds m t p ht hp

/-- Where the blocks of a storage stay as they are, nothing need be told anew. -/
theorem of_marked (h : w.Faithful c) (hs : w.storages.get? id = some s)
    (hset : w'.storages = w.storages.set id s') (hblocks : s'.blocks = s.blocks)
    (hc : ∀ k, c' k = c k) : w'.Faithful c' := by
  have huse : ∀ p, s'.InUse p ↔ s.InUse p := fun p => by rw [Storage.InUse, hblocks, Storage.InUse]
  refine h.of_set hs hset (fun k _ => hc k) (fun p v hp hv => ?_) (fun p hp => ?_)
  · rw [huse] at hp
    rw [Storage.load_congr hblocks] at hv
    exact h.null id s p v hs hp hv
  · rw [Storage.load_congr hblocks, hc, h.holds id s p hs ((huse p).1 hp)]

/-- Writing one slot, either of an entry in use or with null. -/
theorem of_written (h : w.Faithful c) (hs : w.storages.get? id = some s)
    (hset : w'.storages = w.storages.set id s') (hwritten : s.Written s' p v)
    (huse : ∀ q, s'.InUse q ↔ s.InUse q) (hor : s.InUse p ∨ v = none)
    (hother : ∀ k, k ≠ ⟨id, p⟩ → c' k = c k) (hp : s.InUse p → c' ⟨id, p⟩ = v) :
    w'.Faithful c' := by
  refine h.of_set hs hset (fun k hk => hother k ?_) (fun q u hq hu => ?_) (fun q hq => ?_)
  · rintro rfl
    exact hk rfl
  · rw [huse] at hq
    rw [hwritten.load_eq] at hu
    split at hu
    · rename_i hqp
      subst hqp
      rw [← Except.ok.inj hu, hor.resolve_left hq]
    · exact h.null id s q u hs hq hu
  · rw [huse] at hq
    rw [hwritten.load_eq]
    by_cases hqp : q = p
    · subst hqp
      rw [if_pos rfl, hp hq]
    · rw [if_neg hqp, hother _ (by simpa using hqp), h.holds id s q hs hq]

/-- Allocating an entry, which holds null. -/
theorem of_granted (h : w.Faithful c) (hs : w.storages.get? id = some s)
    (hset : w'.storages = w.storages.set id s') (hgranted : s.Granted s' p)
    (hc : ∀ k, c' k = if k = ⟨id, p⟩ then none else c k) : w'.Faithful c' := by
  have hnew : ∀ q v, ¬ s.InUse q → s'.load q = .ok v → v = none := fun q v hq hv =>
    (hgranted.load_new q v hv).elim (h.null id s q v hs hq) fun heq => heq
  refine h.of_set hs hset (fun k hk => ?_) (fun q u hq hu => ?_) (fun q hq => ?_)
  · rw [hc, if_neg]
    rintro rfl
    exact hk rfl
  · exact hnew q u (fun hold => hq ((hgranted.inUse_iff q).2 (Or.inl hold))) hu
  · rw [hc]
    by_cases hqp : q = p
    · obtain ⟨u, hu⟩ := hq.load
      rw [hu, hnew q u (by rw [hqp]; exact hgranted.free) hu]
      simp [hqp]
    · have hold := ((hgranted.inUse_iff q).1 hq).resolve_right hqp
      simp [hqp, hgranted.load_old q _ (h.holds id s q hs hold)]

/-- Releasing an entry, whose slot is nulled. -/
theorem of_released (h : w.Faithful c) (hs : w.storages.get? id = some s)
    (hset : w'.storages = w.storages.set id s') (hwritten : s.Written s' p none)
    (huse : ∀ q, s'.InUse q ↔ s.InUse q ∧ q ≠ p) (hc : ∀ k, c' k = c k) : w'.Faithful c' := by
  refine h.of_set hs hset (fun k _ => hc k) (fun q u hq hu => ?_) (fun q hq => ?_)
  · rw [hwritten.load_eq] at hu
    split at hu
    · exact (Except.ok.inj hu).symm
    · rename_i hqp
      exact h.null id s q u hs (fun hold => hq ((huse q).2 ⟨hold, hqp⟩)) hu
  · obtain ⟨hold, hqp⟩ := (huse q).1 hq
    rw [hwritten.load_eq, if_neg hqp, hc, h.holds id s q hs hold]

/-- Deleting empty blocks. -/
theorem of_without {gone : List Nat} (h : w.Faithful c) (hs : w.storages.get? id = some s)
    (hsound : s.Sound) (hset : w'.storages = w.storages.set id s') (hwithout : s.Without s' gone)
    (hc : ∀ k, c' k = c k) : w'.Faithful c' := by
  refine h.of_set hs hset (fun k _ => hc k) (fun q u hq hu => ?_) (fun q hq => ?_)
  · exact h.null id s q u hs (fun hold => hq ((hwithout.inUse_iff hsound).2 hold))
      (hwithout.load_eq hsound hu)
  · have hold := (hwithout.inUse_iff hsound).1 hq
    rw [hwithout.load_of_inUse hsound hold, hc, h.holds id s q hs hold]

/-- What an exchange does to a slot is to write it, where it takes place, or to leave it. -/
theorem of_exchanged {found new : Option Reference} {expected : Reference} (h : w.Faithful c)
    (hs : w.storages.get? id = some s) (hset : w'.storages = w.storages.set id s')
    (hload : s.load p = .ok found)
    (hwritten : s.Written s' p (RootStore.exchange found expected new).1)
    (huse : ∀ q, s'.InUse q ↔ s.InUse q) (hother : ∀ k, k ≠ ⟨id, p⟩ → c' k = c k)
    (hp : c' ⟨id, p⟩ = if found = some expected then new else c ⟨id, p⟩) : w'.Faithful c' := by
  refine h.of_written hs hset hwritten huse ?_ hother fun hin => ?_
  · by_cases hin : s.InUse p
    · exact Or.inl hin
    · -- a slot that is not in use holds null, and nothing is exchanged for null
      rw [h.null id s p found hs hin hload, exchange_null]
      exact Or.inr rfl
  · have hfound : found = c ⟨id, p⟩ := Except.ok.inj (hload.symm.trans (h.holds id s p hs hin))
    rw [hp, RootStore.exchange, ← hfound]
    split <;> rfl

/-- **Storages hold what was last written**, if no value is given to an entry that is not in use. -/
theorem step (h : w.Faithful c) (hw : w.Sound) (ht : Transition w e w' r) (hcareful : w.Careful e) :
    w'.Faithful fun k => (written? w e w' r k).getD (c k) := by
  cases ht with
  | failed =>
      refine h.of_eq rfl fun k => ?_
      cases e <;> rfl
  | created settings =>
      have hget := Registry.get?_add w.storages (Storage.make (w.storages.size + 1) settings)
      refine ⟨fun m t p v ht hp hv => ?_, fun m t p ht hp => ?_⟩
      · unfold World.create at ht
        rw [hget] at ht
        split at ht
        · obtain rfl := Option.some.inj ht
          obtain ⟨b, hb, -⟩ := Storage.load_eq_ok_iff.1 hv
          simp [Storage.make] at hb
        · exact h.null m t p v ht hp hv
      · unfold World.create at ht
        rw [hget] at ht
        split at ht
        · obtain rfl := Option.some.inj ht
          obtain ⟨b, hb, -⟩ := hp
          simp [Storage.make] at hb
        · exact h.holds m t p ht hp
  | @dropped id s s' hs hfree hdispose hgone =>
      have hback : ∀ {m t}, (w.storages.erase id).get? m = some t → w.storages.get? m = some t := by
        intro m t ht
        rw [Registry.get?_erase] at ht
        split at ht
        · cases ht
        · exact ht
      exact ⟨fun m t p v ht => h.null m t p v (hback ht), fun m t p ht => h.holds m t p (hback ht)⟩
  | refused | lost | got | forgotten | pinned | resumed | claimed | finished | upheld | panicked
  | loaded => exact h.of_eq rfl fun _ => rfl
  | @offered c' outer q s k slot v =>
      refine h.of_eq rfl fun k => ?_
      rcases hm : c'.method <;> rcases v <;> rfl
  | began hs hfree hflag => exact h.of_marked hs rfl rfl fun _ => rfl
  | ended hq hs hidle => exact h.of_marked hs rfl rfl fun _ => rfl
  | @granted id s s' p linked hs halloc hgranted =>
      refine h.of_granted hs rfl hgranted fun k => ?_
      have hget : (w.handles.add { handle := ⟨id, p⟩ }).get? (w.handles.size + 1) =
          some { handle := ⟨id, p⟩ } := (Registry.get?_add _ _ _).trans (if_pos rfl)
      simp only [written?, World.record, hget, Option.map_some, Option.some.injEq, eq_comm]
      split <;> rfl
  | released hh hs hrelease hwritten huse =>
      exact h.of_released hs rfl hwritten huse fun _ => rfl
  | @written number k s s' v hh hs hstore hwritten huse =>
      have hp : s.InUse k.place := hw.inUse number { handle := k } s hh (by simp) hs
      refine h.of_written hs rfl hwritten huse (Or.inl hp) (fun k' hk' => ?_) fun _ => ?_
      · have hne : k ≠ k' := fun heq => hk' (by rw [← heq])
        simp [written?, hh, hne]
      · simp [written?, hh]
  | deleted hs hdelete hwithout hgone hcount hfree =>
      exact h.of_without hs (hw.storages _ _ hs).2 rfl hwithout fun _ => rfl
  | cleared hcalls hstage hs hstore hwritten huse =>
      refine h.of_written hs rfl hwritten huse (Or.inr rfl) (fun k hk => ?_) fun _ => ?_
      · simp [written?, hk]
      · simp [written?]
  | @stored en v s s' hs hstore hwritten huse =>
      refine h.of_written hs rfl hwritten huse ?_ (fun k hk => ?_) fun _ => ?_
      · cases v with
        | none => exact Or.inr rfl
        | some v =>
            obtain ⟨t, b, ht, hb, hi⟩ := hcareful
            obtain rfl := Option.some.inj (hs.symm.trans ht)
            exact Or.inl ⟨b, hb, hi⟩
      · simp [written?, hk]
      · simp [written?]
  | @exchanged en expected new found s s' hs hload hstore hwritten huse =>
      refine h.of_exchanged hs rfl hload hwritten huse (fun k hk => ?_) ?_
      · by_cases hfound : found = some expected <;> simp [written?, RootStore.exchange, hfound, hk]
      · by_cases hfound : found = some expected <;> simp [written?, RootStore.exchange, hfound]

end Faithful

/-- **Along a run** in which no value is given to an entry that is not in use, storages hold what
was last written. -/
theorem Run.faithful {steps : List Step} (h : Run {} steps w)
    (hcareful : ∀ st ∈ steps, st.before.Careful st.event) : w.Faithful (content steps) := by
  generalize hinit : ({} : World) = w₀ at h
  induction h with
  | nil => subst hinit; exact ⟨by simp, by simp⟩
  | @snoc w₁ steps e hrun hp ih =>
      subst hinit
      have hstep := (ih fun st hst => hcareful st (by simp [hst])).step (hrun.sound .init)
        ((hrun.sound .init).transition hp) (hcareful ⟨w₁, e⟩ (by simp))
      have hcontent : content (steps ++ [⟨w₁, e⟩]) = fun k =>
          (written? w₁ e (w₁.perform e).1 (w₁.perform e).2 k).getD (content steps k) :=
        funext fun k => content_snoc steps ⟨w₁, e⟩ k
      rw [hcontent]
      exact hstep

end World

end RootStore
