import RootStore.Proofs.Pass.Iterate
import RootStore.Proofs.Storage.Places

/-!
# What an iteration leaves alone

An iteration with a visitor that only reads and writes the entries in its hand changes next to
nothing: the contents of the entries that the visitor writes, the contents of those whose objects
are judged dead, and where its own pass stands.  All else is as it was: every mask, every link and
every list, every count and every flag.

* `Visitor.Modest` — a visitor that reads and writes only the entry in its hand; `Visitor.filling`
  is one.
* `Step.Rewrites` — the steps that write a slot.
* `World.Framed`, `World.Contained` — what is left alone, and what has been written.
* `World.Transition.framed_ofLoop`, `World.Transition.framed_handles` — one step of such an
  iteration.
* `World.iterate_framed` — **a whole iteration** with such a visitor.
-/

namespace RootStore

variable {σ : Type}

/-- The event reads or writes the entry. -/
def Event.OnEntry (en : Entry) : Event → Prop
  | .load e | .store e _ | .exchange e _ _ => e = en
  | .create _ | .drop _ | .allocate _ | .release _ _ | .get _ _ | .set _ _ _ | .delete _ _
  | .beginPass _ _ _
  | .endPass _ | .forgetPass _ | .enter _ _ | .advance | .judge _ | .panic => False

/-- **A visitor that reads and writes only the entry in its hand**, and whose judge leaves the world
alone.  Both may panic, and what they do may depend on all that they see and on their state. -/
structure Visitor.Modest (v : Visitor σ) : Prop where
  visit : ∀ (w : World) (s : σ) (c : Call) (e : Entry), w.Sound → w.calls.head? = some c →
    c.stage = .visiting e → ∃ events : List Event, (∀ ev ∈ events, ev.OnEntry e) ∧
      w.PermitsAll events ∧ (v.visit e w s).1 = w.afterAll events
  judge : ∀ (object : Reference) (w : World) (s : σ), (v.judge object w s).1 = w

/-- The visitor that writes `v` into every entry that it may write, and judges by a predicate. -/
def Visitor.filling (alive : Reference → Bool) (v : Option Reference) : Visitor σ where
  visit := fun e w s =>
    if e.access = .writable then ((w.perform (.store e v)).1, s, none) else (w, s, none)
  judge := fun object w s => (w, s, .ok (alive object))

theorem Visitor.modest_filling (alive : Reference → Bool) (v : Option Reference) :
    (filling alive v : Visitor σ).Modest where
  visit := by
    intro w s c e _ hcall hstage
    by_cases hwritable : e.access = .writable
    · have hin : w.InHand e := ⟨c, List.mem_of_head? hcall, hstage⟩
      exact ⟨[.store e v], by simp [Event.OnEntry], ⟨⟨hin, hwritable⟩, trivial⟩,
        by simp [filling, hwritable, World.afterAll]⟩
    · exact ⟨[], by simp, trivial, by simp [filling, hwritable, World.afterAll]⟩
  judge := fun _ _ _ => rfl

/-- The visitor of the pass `p`, called within the iterations `outer`, reads or writes the entry in
its hand. -/
structure Step.Handles (p : Nat) (outer : List Call) (st : Step) : Prop where
  permitted : st.before.Permits st.event
  inHand : ∃ c en, st.before.calls = c :: outer ∧ c.pass = p ∧ c.stage = .visiting en ∧
    st.event.OnEntry en

/-- **The step writes a slot** of the storage: the visitor of the pass `p`, called within the
iterations `outer`, has the entry in its hand and writes it, or its object is judged dead. -/
def Step.Rewrites (p : Nat) (outer : List Call) (id : Nat) (place : Place) (st : Step) : Prop :=
  ∃ c en, st.before.calls = c :: outer ∧ c.pass = p ∧ en.storage = id ∧ en.place = place ∧
    (c.stage = .visiting en ∧
      ((∃ v, st.event = .store en v) ∨ ∃ expected new, st.event = .exchange en expected new) ∨
    (∃ object, c.stage = .asking en object) ∧ st.event = .judge false)

namespace World

variable {w w₁ w' : World} {p id : Nat} {outer : List Call} {steps later : List Step} {e : Event}
  {r : Reply}

/-! ## What is left alone -/

/-- **Some steps leave the world as it was** but for the slots that they write and for where the
pass `p` stands. -/
structure Framed (p : Nat) (outer : List Call) (w : World) (steps : List Step)
    (w' : World) : Prop where
  /-- No storage is new. -/
  absent : ∀ id, w.storages.get? id = none → w'.storages.get? id = none
  /-- None is gone, and of each at most the contents of slots are different that some step has
  written. -/
  storages : ∀ id s, w.storages.get? id = some s →
    ∃ s', w'.storages.get? id = some s' ∧ s.Retouched s' ∧
    ∀ place, s'.load place ≠ s.load place → ∃ st ∈ steps, st.Rewrites p outer id place
  /-- The handles are the same. -/
  handles : w'.handles = w.handles
  /-- Other passes are the same. -/
  others : ∀ i, i ≠ p → w'.passes.get? i = w.passes.get? i
  /-- The pass itself stands elsewhere at most. -/
  own : ∀ q, w.passes.get? p = some q → ∃ cursor claimed,
    w'.passes.get? p = some { q with cursor, claimed }

namespace Framed

theorem append (h : Framed p outer w steps w₁) (h' : Framed p outer w₁ later w') :
    Framed p outer w (steps ++ later) w' where
  absent := fun id hnone => h'.absent id (h.absent id hnone)
  storages := by
    intro id s hs
    obtain ⟨s₁, hs₁, hretouched, hwritten⟩ := h.storages id s hs
    obtain ⟨s', hs', hretouched', hwritten'⟩ := h'.storages id s₁ hs₁
    refine ⟨s', hs', hretouched.trans hretouched', fun place hne => ?_⟩
    by_cases hsame : s₁.load place = s.load place
    · obtain ⟨st, hst, hrewrites⟩ := hwritten' place (by rwa [hsame])
      exact ⟨st, List.mem_append_right _ hst, hrewrites⟩
    · obtain ⟨st, hst, hrewrites⟩ := hwritten place hsame
      exact ⟨st, List.mem_append_left _ hst, hrewrites⟩
  handles := h'.handles.trans h.handles
  others := fun i hi => (h'.others i hi).trans (h.others i hi)
  own := by
    intro q hq
    obtain ⟨cursor, claimed, hq₁⟩ := h.own q hq
    obtain ⟨cursor', claimed', hq'⟩ := h'.own _ hq₁
    exact ⟨cursor', claimed', hq'⟩

/-- Storages and handles are the same, and the passes but for the one. -/
theorem of_storages (hstorages : w'.storages = w.storages) (hhandles : w'.handles = w.handles)
    (hothers : ∀ i, i ≠ p → w'.passes.get? i = w.passes.get? i)
    (hown : ∀ q, w.passes.get? p = some q → ∃ cursor claimed,
      w'.passes.get? p = some { q with cursor, claimed }) : Framed p outer w steps w' where
  absent := fun id hnone => by rwa [hstorages]
  storages := fun id s hs => ⟨s, by rwa [hstorages], .refl s, fun place hne => absurd rfl hne⟩
  handles := hhandles
  others := hothers
  own := hown

/-- Storages, handles and passes are the same. -/
theorem of_same (hstorages : w'.storages = w.storages) (hhandles : w'.handles = w.handles)
    (hpasses : w'.passes = w.passes) : Framed p outer w steps w' :=
  .of_storages hstorages hhandles (fun i _ => by rw [hpasses]) fun q hq =>
    ⟨q.cursor, q.claimed, by rw [hpasses, hq]⟩

theorem refl (w : World) : Framed p outer w [] w := .of_same rfl rfl rfl

/-- The pass stands elsewhere. -/
theorem of_setPass {q : Pass} {cursor : Cursor} {claimed : Nat} (hq : w.passes.get? p = some q)
    (hstorages : w'.storages = w.storages) (hhandles : w'.handles = w.handles)
    (hpasses : w'.passes = w.passes.set p { q with cursor, claimed }) :
    Framed p outer w steps w' := by
  refine .of_storages hstorages hhandles (fun i hi => ?_) fun q' hq' => ?_
  · rw [hpasses, Registry.get?_set_of_some hq, if_neg hi]
  · obtain rfl := Option.some.inj (hq.symm.trans hq')
    exact ⟨cursor, claimed, by rw [hpasses, Registry.get?_set_of_some hq, if_pos rfl]⟩

/-- A slot is written. -/
theorem of_store {en : Entry} {v : Option Reference} {s s' : Storage} {st : Step}
    (hs : w.storages.get? en.storage = some s) (hstore : s.store en.place v = .ok s')
    (hstorages : w'.storages = w.storages.set en.storage s') (hhandles : w'.handles = w.handles)
    (hpasses : w'.passes = w.passes) (hst : st.Rewrites p outer en.storage en.place) :
    Framed p outer w [st] w' where
  absent := fun id hnone => by
    rw [hstorages, Registry.get?_set_of_some hs]
    split
    · rename_i hid
      simp [hid, hs] at hnone
    · exact hnone
  storages := by
    intro id t ht
    rw [hstorages, Registry.get?_set_of_some hs]
    by_cases hid : id = en.storage
    · subst hid
      obtain rfl := Option.some.inj (hs.symm.trans ht)
      obtain ⟨hretouched, hload⟩ := Storage.retouched_of_store hstore
      refine ⟨s', if_pos rfl, hretouched, fun place hne => ⟨st, List.mem_singleton_self st, ?_⟩⟩
      by_cases hplace : place = en.place
      · rwa [hplace]
      · exact absurd (by rw [hload, if_neg hplace]) hne
    · exact ⟨t, by rw [if_neg hid, ht], .refl t, fun place hne => absurd rfl hne⟩
  handles := hhandles
  others := fun i _ => by rw [hpasses]
  own := fun q hq => ⟨q.cursor, q.claimed, by rw [hpasses, hq]⟩

end Framed

/-! ## Single steps -/

/-- An iteration that is entered. -/
theorem Transition.framed_enter {method : Method} (ht : Transition w (.enter p method) w' r) :
    Framed p outer w steps w' := by
  cases ht with
  | failed => exact .of_same rfl rfl rfl
  | pinned hq hs hcursor => exact .of_setPass hq rfl rfl rfl
  | resumed hq hs hcursor => exact .of_same rfl rfl rfl

/-- A step that the iteration takes itself. -/
theorem Transition.framed_ofLoop {st : Step} (hst : st.OfLoop p outer)
    (ht : Transition st.before st.event st.after st.reply) :
    Framed p outer st.before [st] st.after := by
  obtain ⟨-, hevent, c, hcalls, hpass⟩ := hst
  rcases st with ⟨w, e⟩
  simp only at hevent hcalls ht
  generalize hafter : (Step.mk w e).after = w' at ht
  generalize (Step.mk w e).reply = r at ht
  rcases hevent with rfl | ⟨alive, rfl⟩ | rfl
  · cases ht with
    | failed => exact .of_same rfl rfl rfl
    | offered => exact .of_same rfl rfl rfl
    | @claimed c₁ outer₁ q s n b hcalls₁ hq hs hdone hcursor hb =>
        obtain ⟨rfl, rfl⟩ := List.cons.inj (hcalls.symm.trans hcalls₁)
        subst hpass
        exact .of_setPass hq rfl rfl rfl
    | finished => exact .of_same rfl rfl rfl
  · cases ht with
    | failed => exact .of_same rfl rfl rfl
    | upheld => exact .of_same rfl rfl rfl
    | @cleared c₁ outer₁ en object s s' hcalls₁ hstage hs hstore hwritten huse =>
        obtain ⟨rfl, rfl⟩ := List.cons.inj (hcalls.symm.trans hcalls₁)
        exact .of_store hs hstore rfl rfl rfl
          ⟨c, en, hcalls, hpass, rfl, rfl, .inr ⟨⟨object, hstage⟩, rfl⟩⟩
  · cases ht with
    | failed | panicked => exact .of_same rfl rfl rfl

/-- A step of the visitor. -/
theorem Transition.framed_handles {st : Step} (hst : st.Handles p outer)
    (ht : Transition st.before st.event st.after st.reply) :
    Framed p outer st.before [st] st.after ∧ st.after.calls = st.before.calls := by
  obtain ⟨-, c, en, hcalls, hpass, hstage, hentry⟩ := hst
  rcases st with ⟨w, e⟩
  simp only at hcalls hentry ht ⊢
  generalize (Step.mk w e).after = w' at ht ⊢
  generalize (Step.mk w e).reply = r at ht
  cases ht with
  | failed | loaded => exact ⟨.of_same rfl rfl rfl, rfl⟩
  | @stored e v s s' hs hstore hwritten huse =>
      obtain rfl : e = en := hentry
      exact ⟨.of_store hs hstore rfl rfl rfl
        ⟨c, e, hcalls, hpass, rfl, rfl, .inl ⟨hstage, .inl ⟨v, rfl⟩⟩⟩, rfl⟩
  | @exchanged e expected new found s s' hs hload hstore hwritten huse =>
      obtain rfl : e = en := hentry
      exact ⟨.of_store hs hstore rfl rfl rfl
        ⟨c, e, hcalls, hpass, rfl, rfl, .inl ⟨hstage, .inr ⟨expected, new, rfl⟩⟩⟩, rfl⟩
  | created | dropped | refused | granted | released | lost | got | written | deleted
  | began | ended
  | forgotten | pinned | resumed | offered | claimed | finished | upheld | cleared | panicked =>
      exact hentry.elim

/-! ## Whole iterations -/

/-- What a visitor does with the entry in its hand. -/
theorem handles_trail {c : Call} {en : Entry} (hpass : c.pass = p)
    (hstage : c.stage = .visiting en) :
    ∀ (events : List Event) (w : World), w.Sound → w.calls = c :: outer →
      (∀ ev ∈ events, ev.OnEntry en) → w.PermitsAll events →
      (∀ st ∈ w.trail events, st.Handles p outer) ∧ (w.afterAll events).calls = w.calls := by
  intro events
  induction events with
  | nil => exact fun w _ _ _ _ => ⟨by simp [trail], rfl⟩
  | cons ev events ih =>
      rintro w hw hcalls hentry ⟨hp, hrest⟩
      have hfirst : (Step.mk w ev).Handles p outer :=
        ⟨hp, c, en, hcalls, hpass, hstage, hentry ev (by simp)⟩
      have ht := hw.transition hp
      have hsame : (w.perform ev).1.calls = w.calls := (Transition.framed_handles hfirst ht).2
      obtain ⟨hall, hafter⟩ := ih (w.perform ev).1 (ht.sound hw) (hsame.trans hcalls)
        (fun ev' hev' => hentry ev' (by simp [hev'])) hrest
      refine ⟨fun st hst => ?_, hafter.trans hsame⟩
      rcases List.mem_cons.1 hst with rfl | hst
      · exact hfirst
      · exact hall st hst

end World

/-- A modest visitor keeps to what it has in its hand. -/
theorem Visitor.Modest.keeps {v : Visitor σ} (h : v.Modest) (p : Nat) (outer : List Call)
    (w₀ : World) (s₀ : σ) : v.Keeps p outer w₀ s₀ (·.Handles p outer) where
  visit := by
    intro w s c e _ hw hcalls hpass hstage
    obtain ⟨events, hentry, hp, hafter⟩ := h.visit w s c e hw (by simp [hcalls]) hstage
    obtain ⟨hall, hsame⟩ := World.handles_trail hpass hstage events w hw hcalls hentry hp
    rw [hafter]
    exact ⟨⟨_, (World.run_trail events w hp).course, hall⟩, hsame⟩
  judge := by
    intro w s c e object _ _ _ _ _
    rw [h.judge]
    exact ⟨⟨[], .nil w, by simp⟩, rfl⟩

namespace World

variable {w w' : World} {p : Nat} {outer : List Call} {steps : List Step}

/-- What the steps of an iteration leave alone.  The induction is on the course, from its end. -/
theorem Course.framed (h : Course w steps w') (hw : w.Sound)
    (hkept : ∀ st ∈ steps, st.Handles p outer ∨ st.OfLoop p outer) : Framed p outer w steps w' := by
  induction h with
  | nil => exact .refl _
  | @snoc w₁ steps e hcourse htolerates ih =>
      have ht := (hcourse.sound hw).transition_of_tolerates htolerates
      refine (ih fun st hst => hkept st (by simp [hst])).append ?_
      rcases hkept ⟨w₁, e⟩ (by simp) with hhandles | hloop
      · exact (Transition.framed_handles hhandles ht).1
      · exact Transition.framed_ofLoop hloop ht

/-- **What comes of an iteration** of the pass `p` whose visitor keeps to the entry in its hand. -/
structure Contained (w : World) (p : Nat) (method : Method) (steps : List Step)
    (outcome : World × σ × Ending) : Prop where
  /-- It is a run. -/
  run : Run w steps outcome.1
  /-- It is entered, and each step after that is one of the visitor or one of the iteration. -/
  ownSteps : ∀ st ∈ steps, st = ⟨w, .enter p method⟩ ∨ st.Handles p w.calls ∨ st.OfLoop p w.calls
  /-- All is left alone but for the entries that are written in these steps. -/
  framed : Framed p w.calls w steps outcome.1
  /-- The iterations around it are as they were. -/
  calls : outcome.1.calls = w.calls
  /-- It has returned, or its visitor or judge has panicked. -/
  ending : outcome.2.2 = .returned ∨ ∃ text, outcome.2.2 = .panicked text

/-- **An iteration leaves alone all but what its visitor writes**, and ends. -/
theorem iterate_framed {v : Visitor σ} {q : Pass} {method : Method} (hw : w.Sound) (hv : v.Modest)
    (hq : w.passes.get? p = some q) (hoffers : q.offers method = true) (s : σ) :
    ∃ steps, Contained w p method steps (w.iterate p method v s) := by
  obtain ⟨w', steps, hp, hact, hiterated⟩ :=
    iterate_course hw (fun w' _ => hv.keeps p w.calls w' s) hq hoffers
  obtain ⟨hrun, -⟩ := run_act hp hact
  have hw' := hrun.sound hw
  have henter : Framed p w.calls w [⟨w, .enter p method⟩] w' := by
    have ht := hw.transition hp
    rw [perform, hact] at ht
    exact Transition.framed_enter ht
  have hpermitted : ∀ st ∈ steps, st.before.Permits st.event := fun st hst =>
    (hiterated.kept st hst).elim (·.permitted) (·.permitted)
  refine ⟨[⟨w, .enter p method⟩] ++ steps, hrun.append (hiterated.course.run hpermitted), ?_,
    henter.append (hiterated.course.framed hw' hiterated.kept), hiterated.calls,
    hiterated.ending.imp_left (·.1)⟩
  intro st hst
  rcases List.mem_append.1 hst with hst | hst
  · exact .inl (List.mem_singleton.1 hst)
  · exact .inr (hiterated.kept st hst)

end World

end RootStore
