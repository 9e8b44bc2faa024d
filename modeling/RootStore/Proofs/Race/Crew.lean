import RootStore.Proofs.Race.Plan

/-!
# Workers carry out their plan

Every step of every worker succeeds and keeps the plan, whatever the others have done before.

* `Crew.Standing.step` — **a step keeps the plan.**
* `Crew.Standing.play` — so does every schedule.
* `Crew.Standing.finished` — when all are done the plan is carried out.
-/

namespace RootStore

variable {ι ρ : Type}

/-! ## Accesses to an entry -/

/-- To write what a slot holds is to change nothing. -/
theorem Storage.Sound.written {s : Storage} {p : Place} {v : Option Reference} (h : s.Sound)
    (hload : s.load p = .ok v) : s.Written s p v where
  sound := h
  frame := ⟨rfl, rfl, rfl⟩
  size_eq := rfl
  linked_eq := rfl
  load_eq := fun p' => by
    by_cases hp : p' = p
    · rw [if_pos hp, hp, hload]
    · rw [if_neg hp]

namespace Plan.Stands

variable {plan : Plan ρ} {pass : Nat} {w : World} {q : Pass} {s s' : Storage} {rest : List Nat}
  {p : Place} {v : Option Reference}

theorem setStorage_self (h : plan.Stands pass w q s rest) : w.setStorage plan.storage s = w := by
  rw [World.setStorage, Registry.set_eq_self h.storage]

theorem load_entry (h : plan.Stands pass w q s rest) (hload : s.load p = .ok v) :
    w.load (plan.entry p) = .ok v := by
  simp [World.load, entry, World.storage_of_some h.storage, hload, Failure.ofFault, bind,
    Except.bind]

theorem store_entry (h : plan.Stands pass w q s rest) (hstore : s.store p v = .ok s') :
    w.store (plan.entry p) v = .ok (w.setStorage plan.storage s') := by
  simp [World.store, entry, World.storage_of_some h.storage, hstore, Failure.ofFault, bind,
    Except.bind, pure, Except.pure]

end Plan.Stands

/-- Where a worker is when it has taken up an entry. -/
theorem Job.resume_offer (job : Job ρ) (e : Entry) (v : Option Reference) (c : Call)
    (hstage : c.stage = (Progress.offer job.method e v).stage) :
    let x := job.resume c (Progress.offer job.method e v)
    x.call? = some c ∧ (∀ d e' h, x = .handling d e' h → d.stage = .visiting e') ∧ x ≠ .done ∧
      (x.todo? = none ∧ job.todo (Progress.offer job.method e v) = .nothing ∨
        x.todo? = some (e, job.todo (Progress.offer job.method e v))) := by
  rcases Progress.offer_cases job.method e v with hoffer | ⟨object, hoffer⟩ | hoffer
  all_goals
    rw [hoffer] at hstage ⊢
    simp [Progress.stage, Job.resume, Job.todo, Crew.Worker.call?, Crew.Worker.todo?,
      Stage.todo?, hstage]

namespace Crew

variable {job : Job ρ} {plan : Plan ρ} {q : Pass} {s : Storage} {rest : List Nat}
  {todo : Place → Todo ρ} {cr : Crew ι ρ} {i : ι} {k : Pass.Claim} {p : Place} {c : Call}

/-- A step of a worker whose iteration does not wait for a verdict. -/
theorem step_advance [DecidableEq ι] {w : World} {progress : Progress}
    (hx : cr.worker i = .iterating c) (hstage : ∀ e object, c.stage ≠ .asking e object)
    (hadvance : (cr.world.within c).advance = .ok (w, progress)) :
    cr.step job i = .ok (cr.put i w (job.resume (w.calls.headD c) progress)) := by
  rcases hready : c.stage with _ | ⟨e, object⟩ | e
  · simp only [step, hx, hready, hadvance, bind, Except.bind, pure, Except.pure]
  · exact absurd hready (hstage e object)
  · simp only [step, hx, hready, hadvance, bind, Except.bind, pure, Except.pure]

namespace Standing

/-- The slots of a block that is scanned can be read and written. -/
theorem accessible (h : Standing job plan cr q s rest todo) (hk : (cr.worker i).scan? = some k)
    (hblock : k.block = p.block) : (∃ v, s.load p = .ok v) ∧ ∀ v, ∃ s', s.store p v = .ok s' ∧
      s.Written s' p v ∧ ∀ p, s'.InUse p ↔ s.InUse p := by
  obtain ⟨c, hc, hck⟩ := Option.bind_eq_some_iff.1 hk
  have hlinked : p.block ∈ s.linked := hblock ▸ ((h.workers i).call c hc).2.2.scanning k hck
  obtain ⟨b, hb⟩ := h.sound_storage.lists.isSome hlinked
  exact ⟨⟨_, Storage.load_eq_ok_iff.2 ⟨b, hb, rfl⟩⟩, h.sound_storage.store hlinked⟩

/-- What a worker has taken up is an entry that can be read and written. -/
theorem holding (h : Standing job plan cr q s rest todo) {e : Entry} {t : Todo ρ}
    (ht : (cr.worker i).todo? = some (e, t)) : ∃ p, e = plan.entry p ∧ (∃ v, s.load p = .ok v) ∧
      ∀ v, ∃ s', s.store p v = .ok s' ∧ s.Written s' p v ∧ ∀ p, s'.InUse p ↔ s.InUse p := by
  obtain ⟨p, he, -, k, hk, hblock, -⟩ := (h.workers i).taken e t ht
  exact ⟨p, he, h.accessible hk hblock⟩

/-- Nothing is left to do in a block whose entries have all been taken up. -/
theorem exhausted (h : Standing job plan cr q s rest todo) (hfree : (cr.worker i).todo? = none)
    (hdone : ∀ k, (cr.worker i).scan? = some k → k.snapshot = .empty) (p : Place)
    (hp : ∃ k, (cr.worker i).scan? = some k ∧ k.block = p.block) : todo p = .nothing := by
  obtain ⟨k, hk, hblock⟩ := hp
  have hplace : (⟨k.block, p.slot⟩ : Place) = p := by rw [hblock]
  rw [← hplace]
  refine (h.workers i).past k p.slot hk ?_ (by simp [hfree])
  rw [hdone k hk]
  exact Mask.contains_empty _

variable [DecidableEq ι]

/-- **A worker has gone on with the entry that it has taken up**: `u` was left to do there and `t`
is left now, and what was recorded makes up for the difference. -/
theorem goes_on {cr' : Crew ι ρ} {x : Worker ρ} {c' : Call} {s' : Storage} {v v' : Option Reference}
    {t u : Todo ρ} (h : Standing job plan cr q s rest todo) (visits : List ρ)
    (asked : List Reference)
    (hc : (cr.worker i).call? = some c) (htaken : (cr.worker i).todo? = some (plan.entry p, u))
    (hc' : x.call? = some c') (hsame : c'.pass = c.pass ∧ c'.method = c.method ∧
      c'.scanning = c.scanning)
    (hentry : c'.stage.entry? = none ∨ c'.stage.entry? = c.stage.entry?)
    (hstage : ∀ d e hd, x = .handling d e hd → d.stage = .visiting e) (hdone : x ≠ .done)
    (hleft : x.todo? = none ∧ t = .nothing ∨ x.todo? = some (plan.entry p, t))
    (hload : s.load p = .ok v) (hwritten : s.Written s' p v') (huse : ∀ p, s'.InUse p ↔ s.InUse p)
    (hworld : cr'.world = cr.world.setStorage plan.storage s')
    (hworker : cr'.worker = Function.update cr.worker i x)
    (hvisits : cr'.visits = cr.visits ++ visits.map (p, ·))
    (hasked : cr'.asked = cr.asked ++ asked.map (p, ·))
    (houtcome : job.outcome (plan.entry p) u v =
      (job.outcome (plan.entry p) t v').after visits asked) :
    Standing job plan cr' q s' rest (Function.update todo p t) := by
  obtain ⟨p', hp', htodo, k, hk, hblock, hslot⟩ := (h.workers i).taken _ _ htaken
  obtain rfl : p = p' := congrArg Entry.place hp'
  obtain ⟨hpass, hmethod, hf⟩ := (h.workers i).call c hc
  have hck : c.scanning = some k := by simpa [Worker.scan?, hc] using hk
  have hck' : x.scan? = some k := by simp [Worker.scan?, hc', hsame.2.2, hck]
  have hslots : ∀ j, k.snapshot.contains j = (k.snapshot.contains j && decide (j ≠ p.slot)) :=
    fun j => by
    by_cases hj : j = p.slot
    · rw [hj]
      simpa using hslot
    · simp [hj]
  have hmine : ∀ e t, (cr.worker i).todo? = some (e, t) → e = plan.entry p := fun e t ht =>
    (Prod.mk.inj (Option.some.inj (ht.symm.trans htaken))).1
  have hf' := hf.keeps (.of_written hwritten)
  refine h.works visits asked hk hblock ?_ hck' rfl hload hwritten huse hworld hworker
    hvisits hasked
    (by rw [htodo, houtcome])
  refine (h.workers i).works hk hblock hmine (fun d hd => ?_) hstage hdone hck' rfl hslots hleft
  obtain rfl := Option.some.inj (hc'.symm.trans hd)
  refine ⟨hsame.1.trans hpass, hsame.2.1.trans hmethod, hf'.started, fun l hl => ?_, fun e he => ?_⟩
  · exact hf'.scanning l (hsame.2.2 ▸ hl)
  · rcases hentry with hnone | heq
    · rw [hnone] at he
      cases he
    · exact hf'.entry e (heq ▸ he)

/-- **A worker makes an access** to the entry in its hand, or is done with it. -/
theorem step_handling (h : Standing job plan cr q s rest todo) {e : Entry} {hd : Handler ρ}
    (hx : cr.worker i = .handling c e hd) : ∃ cr' s' todo', cr.step job i = .ok cr' ∧
      Standing job plan cr' q s' rest todo' := by
  have hc : (cr.worker i).call? = some c := by rw [hx]; rfl
  have htaken : (cr.worker i).todo? = some (e, .handling hd) := by rw [hx]; rfl
  have hstage := (h.workers i).stage c e hd hx
  obtain ⟨p, rfl, ⟨v, hload⟩, hstore⟩ := h.holding htaken
  -- after an access the rest is left to do
  have hgoes : ∀ (s' : Storage) (v' : Option Reference) (hd' : Handler ρ), s.Written s' p v' →
      (∀ p, s'.InUse p ↔ s.InUse p) → hd.outcome v = hd'.outcome v' →
      Standing job plan (cr.put i (cr.world.setStorage plan.storage s')
        (.handling c (plan.entry p) hd')) q s'
        rest (Function.update todo p (.handling hd')) := by
    intro s' v' hd' hwritten huse houtcome
    refine h.goes_on (x := .handling c (plan.entry p) hd') [] [] hc htaken rfl ⟨rfl, rfl, rfl⟩
      (Or.inr rfl) ?_ (by simp) (Or.inr rfl) hload hwritten huse rfl rfl (List.append_nil _).symm
      (List.append_nil _).symm houtcome
    rintro _ _ _ ⟨⟩
    exact hstage
  cases hd with
  | done result =>
      refine ⟨_, s, Function.update todo p .nothing, by simp [step, hx]; rfl, ?_⟩
      refine h.goes_on (x := .iterating c) [result] [] hc htaken rfl ⟨rfl, rfl, rfl⟩ (Or.inr rfl)
        (by simp) (by simp) (Or.inl ⟨?_, rfl⟩) hload (h.sound_storage.written hload)
        (fun _ => Iff.rfl) h.setStorage_self.symm rfl rfl (List.append_nil _).symm rfl
      show c.stage.todo? = none
      rw [hstage]
      rfl
  | load next =>
      have hstep :
          cr.step job i = .ok (cr.put i cr.world (.handling c (plan.entry p) (next v))) := by
        simp only [step, hx, h.load_entry hload, bind, Except.bind, pure, Except.pure]
      have hgone := hgoes s v (next v) (h.sound_storage.written hload) (fun _ => Iff.rfl) rfl
      rw [h.setStorage_self] at hgone
      exact ⟨_, s, _, hstep, hgone⟩
  | store v' next =>
      obtain ⟨s', hs', hwritten, huse⟩ := hstore v'
      have hstep : cr.step job i = .ok (cr.put i (cr.world.setStorage plan.storage s')
          (.handling c (plan.entry p) next)) := by
        simp only [step, hx, h.store_entry hs', bind, Except.bind, pure, Except.pure]
      exact ⟨_, s', _, hstep, hgoes s' v' next hwritten huse rfl⟩
  | exchange expected new next =>
      obtain ⟨s', hs', hwritten, huse⟩ := hstore (RootStore.exchange v expected new).1
      have hstep : cr.step job i = .ok (cr.put i (cr.world.setStorage plan.storage s')
          (.handling c (plan.entry p) (next (RootStore.exchange v expected new).2))) := by
        simp only [step, hx, World.exchange, h.load_entry hload, h.store_entry hs', bind,
          Except.bind, pure, Except.pure]
      exact ⟨_, s', _, hstep, hgoes s' _ _ hwritten huse rfl⟩

/-- **A worker takes a verdict.** -/
theorem step_asking (h : Standing job plan cr q s rest todo) {e : Entry} {object : Reference}
    (hx : cr.worker i = .iterating c) (hstage : c.stage = .asking e object) :
    ∃ cr' s' todo', cr.step job i = .ok cr' ∧ Standing job plan cr' q s' rest todo' := by
  have hc : (cr.worker i).call? = some c := by rw [hx]; rfl
  have htaken : (cr.worker i).todo? = some (e, .asking object) := by
    rw [hx]
    show c.stage.todo? = _
    rw [hstage]
    rfl
  obtain ⟨p, rfl, ⟨v, hload⟩, hstore⟩ := h.holding htaken
  cases halive : job.alive object with
  | true =>
      let c' : Call := { c with stage := .visiting (plan.entry p) }
      have hstep :
        cr.step job i = .ok (({ cr with asked := cr.asked ++ [(p, object)] } : Crew ι ρ).put i
          cr.world (.handling c' (plan.entry p) (job.handle (plan.entry p)))) := by
        simp only [step, hx, hstage, halive, World.judge, World.within, Progress.stage, bind,
          Except.bind, pure, Except.pure, if_true]
        rfl
      refine ⟨_, s, Function.update todo p (.handling (job.handle (plan.entry p))), hstep, ?_⟩
      refine h.goes_on (x := .handling c' (plan.entry p) (job.handle (plan.entry p))) []
        [object] hc htaken rfl ⟨rfl, rfl, rfl⟩ (Or.inr (by rw [hstage]; rfl)) ?_ (by simp)
        (Or.inr rfl) hload (h.sound_storage.written hload) (fun _ => Iff.rfl)
        h.setStorage_self.symm rfl (List.append_nil _).symm rfl ?_
      · rintro _ _ _ ⟨⟩
        rfl
      · simp only [Job.outcome, Job.judged, halive, if_true]
  | false =>
      obtain ⟨s', hs', hwritten, huse⟩ := hstore none
      let c' : Call := { c with stage := .ready }
      have hstep :
        cr.step job i = .ok (({ cr with asked := cr.asked ++ [(p, object)] } : Crew ι ρ).put i
          (cr.world.setStorage plan.storage s') (.iterating c')) := by
        have hstore' :
          ({ cr.world with calls := c' :: cr.world.calls } : World).store (plan.entry p) none =
            .ok ({ cr.world with calls := c' :: cr.world.calls }.setStorage plan.storage s') := by
          simp [World.store, Plan.entry, World.storage, h.storage, hs', Failure.ofFault, bind,
            Except.bind, pure, Except.pure]
        simp only [step, hx, hstage, halive, World.judge, World.within, Progress.stage, bind,
          Except.bind, pure, Except.pure, Bool.false_eq_true, if_false]
        rw [hstore']
        rfl
      refine ⟨_, s', Function.update todo p .nothing, hstep, ?_⟩
      refine h.goes_on (x := .iterating c') [] [object] hc htaken rfl ⟨rfl, rfl, rfl⟩ (Or.inl rfl)
        (by simp) (by simp) (Or.inl ⟨rfl, rfl⟩) hload hwritten huse rfl rfl
        (List.append_nil _).symm rfl ?_
      simp [Job.outcome, Job.judged, halive, Outcome.after]

/-- **A worker takes up the next entry** of its block. -/
theorem takes_up {slot : SlotIndex} {v : Option Reference} (h : Standing job plan cr q s rest todo)
    (hc : (cr.worker i).call? = some c) (hfree : (cr.worker i).todo? = none)
    (hk : c.scanning = some k)
    (hslot : k.snapshot.lowest? = some slot) (hload : s.load ⟨k.block, slot⟩ = .ok v) :
    let progress := Progress.offer job.method (plan.entry ⟨k.block, slot⟩) v
    let c' : Call :=
      { c with
        scanning := some { k with snapshot := k.snapshot.dropLowest }
        stage := progress.stage }
    c'.Follows q s → Standing job plan (cr.put i cr.world (job.resume c' progress)) q s rest
      (Function.update todo ⟨k.block, slot⟩ (job.todo progress)) := by
  intro progress c' hf'
  obtain ⟨hpass, hmethod, -⟩ := (h.workers i).call c hc
  have hscan : (cr.worker i).scan? = some k := by rw [Worker.scan?, hc]; exact hk
  obtain ⟨hcall, hwaits, hgoes, hleft⟩ := job.resume_offer (plan.entry ⟨k.block, slot⟩) v c' rfl
  have hscan' : (job.resume c' progress).scan? =
      some { k with snapshot := k.snapshot.dropLowest } := by
    rw [Worker.scan?, hcall]
    rfl
  refine h.works (x := job.resume c' progress) [] [] hscan rfl ?_ hscan' rfl hload
    (h.sound_storage.written hload) (fun _ => Iff.rfl) h.setStorage_self.symm rfl
    (List.append_nil _).symm (List.append_nil _).symm ?_
  · refine (h.workers i).works hscan rfl (by simp [hfree]) ?_ hwaits hgoes hscan' rfl
      (Mask.contains_dropLowest hslot) hleft
    intro d hd
    obtain rfl := Option.some.inj (hcall.symm.trans hd)
    exact ⟨hpass, hmethod, hf'⟩
  · rw [(h.workers i).ahead k slot hscan (Mask.lowest?_eq_some_iff.1 hslot).1, Job.outcome_offer]
    rfl

/-- **A worker claims the next block.** -/
theorem claims {n : Nat} {b : Block} (h : Standing job plan cr q s rest todo)
    (hc : (cr.worker i).call? = some c) (hfree : (cr.worker i).todo? = none)
    (hdone : ∀ k, (cr.worker i).scan? = some k → k.snapshot = .empty)
    (hcursor : q.cursor = .upcoming (some n)) (hb : s.blocks.get? n = some b) :
    let q' : Pass := { q with cursor := .upcoming b.next, claimed := q.claimed + 1 }
    let w' := cr.world.setPass c.pass q'
    let c' : Call := { c with scanning := some ⟨n, b.mask⟩, stage := .ready }
    w'.Sound → ∃ rest', Standing job plan (cr.put i w' (.iterating c')) q' s rest' todo := by
  intro q' w' c' hsound
  obtain ⟨hpass, hmethod, -⟩ := (h.workers i).call c hc
  obtain ⟨rest', hrest, hnew, hstands⟩ :=
    h.claim hcursor hb hsound (congrArg (cr.world.passes.set · _) hpass) rfl
  have hn : n ∈ rest := by rw [hrest]; exact List.mem_cons_self
  have hlinked : n ∈ s.linked := h.suffix.subset hn
  refine ⟨rest', h.moves (x := .iterating c') hstands rfl ⟨?_, by simp, by simp, ?_, ?_, ?_, ?_⟩
    (fun d hd => hd.pass rfl (by simp [q']))
    (by rw [hrest]; exact List.subset_cons_self n rest') ?_ ?_ ?_ rfl
    rfl⟩
  · rintro _ ⟨⟩
    exact ⟨hpass, hmethod, by simp [q'], by rintro _ ⟨⟩; exact hlinked, by simp [c', Stage.entry?]⟩
  · rintro _ ⟨⟩
    exact hnew
  · simp [Worker.todo?, c', Stage.todo?]
  · rintro _ j ⟨⟩ hj
    exact (h.waiting ⟨n, j⟩ hn).1 ⟨b, hb, hj⟩
  · rintro _ j ⟨⟩ hj -
    refine (h.waiting ⟨n, j⟩ hn).2 ?_
    rintro ⟨b', hb', hj'⟩
    obtain rfl := Option.some.inj (hb.symm.trans hb')
    rw [Block.inUse, hj] at hj'
    cases hj'
  · intro hend
    rw [hcursor] at hend
    cases hend
  · rintro _ ⟨⟩
    exact hn
  · intro p hp hnone hmine
    rcases hmine with hmem | hscanned
    · rw [hrest] at hmem
      exact absurd ((List.mem_cons.1 hmem).resolve_right hp).symm (hnone ⟨n, b.mask⟩ rfl)
    · exact h.exhausted hfree hdone p hscanned

/-- **A worker finds no block left.** -/
theorem ends {w' : World} (h : Standing job plan cr q s rest todo)
    (hfree : (cr.worker i).todo? = none)
    (hdone : ∀ k, (cr.worker i).scan? = some k → k.snapshot = .empty)
    (hcursor : q.cursor = .upcoming none)
    (hsound : (cr.put i w' .done).world.Sound) (hpasses : w'.passes = cr.world.passes)
    (hstorages : w'.storages = cr.world.storages) :
    Standing job plan (cr.put i w' .done) q s rest todo := by
  refine h.moves (h.congr hsound hpasses hstorages) rfl (.of_call?_eq_none rfl fun _ => hcursor)
    (fun _ hd => hd) (List.Subset.refl _) id (by simp [Worker.scan?, Worker.call?]) ?_ rfl rfl
  intro p hp hnone hmine
  exact h.exhausted hfree hdone p (hmine.resolve_left hp)

/-- **A worker's iteration takes a step**: to the next entry, to the next block, or to its end. -/
theorem step_advancing (h : Standing job plan cr q s rest todo) (hx : cr.worker i = .iterating c)
    (hstage : ∀ e object, c.stage ≠ .asking e object) :
    ∃ cr' q' rest' todo', cr.step job i = .ok cr' ∧ Standing job plan cr' q' s rest' todo' := by
  have hc : (cr.worker i).call? = some c := by rw [hx]; rfl
  have hscan : (cr.worker i).scan? = c.scanning := by rw [hx]; rfl
  have hfree : (cr.worker i).todo? = none := by
    rw [hx]
    show c.stage.todo? = none
    rcases hready : c.stage with _ | ⟨e, object⟩ | e
    · rfl
    · exact absurd hready (hstage e object)
    · rfl
  obtain ⟨hpass, hmethod, hf⟩ := (h.workers i).call c hc
  have hwithin := h.within hpass hf
  have houter : (cr.world.within c).calls = c :: cr.world.calls := rfl
  obtain ⟨w', progress, hadvance, ht⟩ := hwithin.advance_ok houter
  have hstep : cr.step job i = .ok (cr.put i w' (job.resume (w'.calls.headD c) progress)) :=
    step_advance hx hstage hadvance
  have hsound := ht.sound hwithin
  generalize hr : Reply.progressed c.pass progress = r at ht
  cases ht with
  | failed => cases hr
  | @offered c₁ outer q₁ s₁ k slot v hcalls hq hs hck hslot hload =>
      obtain ⟨rfl, rfl⟩ := List.cons.inj hcalls
      obtain ⟨-, rfl⟩ := Reply.progressed.inj hr
      obtain rfl := Option.some.inj (h.pass.symm.trans (hpass ▸ hq))
      obtain rfl := Option.some.inj (h.storage.symm.trans (h.walks ▸ hs))
      have hoffer : Progress.offer c.method ⟨q.storage, ⟨k.block, slot⟩, q.access⟩ v =
          Progress.offer job.method (plan.entry ⟨k.block, slot⟩) v := by
        rw [hmethod, h.walks, h.access]
        rfl
      rw [hoffer] at hstep hsound
      refine ⟨_, q, rest, _, hstep, h.takes_up hc hfree hck hslot hload ?_⟩
      obtain ⟨q₂, s₂, hq₂, hs₂, hf₂⟩ := hsound.calls _ List.mem_cons_self
      obtain rfl := Option.some.inj (hq.symm.trans hq₂)
      obtain rfl := Option.some.inj (hs.symm.trans hs₂)
      exact hf₂
  | @claimed c₁ outer q₁ s₁ n b hcalls hq hs hdone hcursor hb =>
      obtain ⟨rfl, rfl⟩ := List.cons.inj hcalls
      obtain ⟨-, rfl⟩ := Reply.progressed.inj hr
      obtain rfl := Option.some.inj (h.pass.symm.trans (hpass ▸ hq))
      obtain rfl := Option.some.inj (h.storage.symm.trans (h.walks ▸ hs))
      obtain ⟨rest', h'⟩ :=
        h.claims hc hfree (fun k hk => hdone k (hscan.symm.trans hk)) hcursor hb (hsound.leave rfl)
      exact ⟨_, _, rest', todo, hstep, h'⟩
  | @finished c₁ outer q₁ s₁ hcalls hq hs hdone hcursor =>
      obtain ⟨rfl, rfl⟩ := List.cons.inj hcalls
      obtain ⟨-, rfl⟩ := Reply.progressed.inj hr
      obtain rfl := Option.some.inj (h.pass.symm.trans (hpass ▸ hq))
      exact ⟨_, q, rest, todo, hstep,
        h.ends hfree (fun k hk => hdone k (hscan.symm.trans hk)) hcursor hsound rfl rfl⟩

/-- **A worker begins**, and pins the pass if nobody has before. -/
theorem step_waiting (h : Standing job plan cr q s rest todo) (hx : cr.worker i = .waiting) :
    ∃ cr' q', cr.step job i = .ok cr' ∧ Standing job plan cr' q' s rest todo := by
  obtain ⟨w', henter, ht⟩ : ∃ w', cr.world.enter job.pass job.method = .ok w' ∧
    cr.world.Transition (.enter job.pass job.method) w' .done := h.sound.enter_ok h.pass
  let c : Call := { pass := job.pass, method := job.method }
  have hstep : cr.step job i = .ok (cr.put i w' (.iterating c)) := by
    simp only [step, hx, henter, bind, Except.bind, pure, Except.pure]
    rfl
  have hscan : (cr.worker i).scan? = none := by rw [hx]; rfl
  -- it scans no block yet, and has none that it could have left
  have hgoes : ∀ q', q'.cursor ≠ .notStarted →
      plan.Stands job.pass (cr.put i w' (.iterating c)).world q' s rest →
      (∀ d : Call, d.Follows q s → d.Follows q' s) →
      (q.cursor = .upcoming none → q'.cursor = .upcoming none) →
      Standing job plan (cr.put i w' (.iterating c)) q' s rest todo := by
    intro q' hstarted hstands hfollows hend
    refine h.moves (x := .iterating c) hstands rfl ⟨?_, by simp, by simp, ?_, ?_, ?_, ?_⟩ hfollows
      (List.Subset.refl _) hend ?_ ?_ rfl rfl
    · rintro _ ⟨⟩
      exact ⟨rfl, rfl, hstarted, by simp [c], by simp [c, Stage.entry?]⟩
    · rintro _ ⟨⟩
    · simp [Worker.todo?, c, Stage.todo?]
    · rintro _ _ ⟨⟩
    · rintro _ _ ⟨⟩
    · rintro _ ⟨⟩
    · intro p hp _ hmine
      obtain ⟨k, hk, -⟩ := hmine.resolve_left hp
      simp [hscan] at hk
  have hsound := ht.sound h.sound
  have hcalls : w'.calls = c :: cr.world.calls := by
    cases ht with
    | pinned | resumed => rfl
  have hleft := hsound.leave hcalls
  cases ht with
  | @pinned _ _ q₁ s₁ hq hs hcursor =>
      obtain rfl := Option.some.inj (h.pass.symm.trans hq)
      obtain rfl := Option.some.inj (h.storage.symm.trans (h.walks ▸ hs))
      exact ⟨_, { q with cursor := .upcoming s.head }, hstep, hgoes _ (by simp)
        (h.pin hcursor hleft rfl rfl) (fun d hd => hd.pass rfl (by simp)) (by simp [hcursor])⟩
  | @resumed _ _ q₁ s₁ hq hs hcursor =>
      obtain rfl := Option.some.inj (h.pass.symm.trans hq)
      exact ⟨_, q, hstep, hgoes q hcursor (h.congr hleft rfl rfl) (fun d hd => hd) id⟩

end Standing

/-- The workers keep to their plan. -/
def OnPlan (job : Job ρ) (plan : Plan ρ) (cr : Crew ι ρ) : Prop :=
  ∃ q s rest todo, Standing job plan cr q s rest todo

section Steps

variable [DecidableEq ι]

/-- **Every worker can take its next step**, and keeps to the plan. -/
theorem OnPlan.step (h : cr.OnPlan job plan) (i : ι) :
    ∃ cr', cr.step job i = .ok cr' ∧ cr'.OnPlan job plan := by
  obtain ⟨q, s, rest, todo, h⟩ := h
  cases hx : cr.worker i with
  | waiting =>
      obtain ⟨cr', q', hstep, h'⟩ := h.step_waiting hx
      exact ⟨cr', hstep, q', s, rest, todo, h'⟩
  | iterating c =>
      rcases hstage : c.stage with _ | ⟨e, object⟩ | e
      · obtain ⟨cr', q', rest', todo', hstep, h'⟩ := h.step_advancing hx (by simp [hstage])
        exact ⟨cr', hstep, q', s, rest', todo', h'⟩
      · obtain ⟨cr', s', todo', hstep, h'⟩ := h.step_asking hx hstage
        exact ⟨cr', hstep, q, s', rest, todo', h'⟩
      · obtain ⟨cr', q', rest', todo', hstep, h'⟩ := h.step_advancing hx (by simp [hstage])
        exact ⟨cr', hstep, q', s, rest', todo', h'⟩
  | handling c e hd =>
      obtain ⟨cr', s', todo', hstep, h'⟩ := h.step_handling hx
      exact ⟨cr', hstep, q, s', rest, todo', h'⟩
  | done => exact ⟨cr, by simp only [Crew.step, hx]; rfl, q, s, rest, todo, h⟩

/-- **So they do in every order of steps.** -/
theorem OnPlan.play (schedule : List ι) : ∀ {cr : Crew ι ρ}, cr.OnPlan job plan →
    ∃ cr', cr.play job schedule = .ok cr' ∧ cr'.OnPlan job plan := by
  induction schedule with
  | nil => exact fun {cr} h => ⟨cr, rfl, h⟩
  | cons i schedule ih =>
      intro cr h
      obtain ⟨cr₁, hstep, h₁⟩ := h.step i
      obtain ⟨cr', hplay, h'⟩ := ih h₁
      exact ⟨cr', by simp only [Crew.play, hstep, bind, Except.bind, hplay], h'⟩

end Steps

/-! ## The beginning and the end -/

/-- The records of a crew that has carried out its plan, and the world that it leaves. -/
structure CarriesOut (job : Job ρ) (plan : Plan ρ) (cr : Crew ι ρ) : Prop where
  /-- The pass has claimed all its blocks. -/
  pass : cr.world.passes.get? job.pass = some plan.lastPass
  /-- The entries were visited as planned. -/
  visits : ∀ p, recordedAt cr.visits p =
    if p.block ∈ plan.linked then (plan.outcome p).visits else []
  /-- So were the objects asked about. -/
  asked : ∀ p, recordedAt cr.asked p = if p.block ∈ plan.linked then (plan.outcome p).asked else []
  /-- The slots hold what they are to hold. -/
  load : ∀ e, cr.world.load e = plan.lastLoad e

/-- **When all are done the plan is carried out.** -/
theorem OnPlan.finished [Nonempty ι] (h : cr.OnPlan job plan) (hdone : cr.Finished) :
    cr.CarriesOut job plan := by
  obtain ⟨q, s, rest, todo, h⟩ := h
  obtain ⟨i₀⟩ := (inferInstance : Nonempty ι)
  have hcursor : q.cursor = .upcoming none := (h.workers i₀).done (hdone i₀)
  have hrest : rest = [] := by
    rcases h.cursor with hup | ⟨hnot, -⟩
    · exact List.head?_eq_none_iff.1 (Cursor.upcoming.inj (hcursor.symm.trans hup)).symm
    · rw [hcursor] at hnot
      cases hnot
  subst hrest
  -- nobody has anything left to do anywhere, so that what was done is all that is planned
  have hidle : ∀ p, todo p = .nothing := fun p => h.idle p List.not_mem_nil fun i k hk => by
    rw [hdone i] at hk
    cases hk
  have houtcome : ∀ p v, s.load p = .ok v → plan.outcome p =
      { visits := recordedAt cr.visits p, asked := recordedAt cr.asked p, value := v } :=
        fun p v hv => by
    rw [h.outcome p v hv, hidle]
    simp [Job.outcome, Outcome.after]
  refine ⟨?_, fun p => ?_, fun p => ?_, h.load_eq fun p v hv => by rw [houtcome p v hv]⟩
  · rw [h.pass, h.eq_lastPass hcursor]
  · split
    · rename_i hp
      obtain ⟨v, hv⟩ := h.load_ok hp
      rw [houtcome p v hv]
    · rename_i hp
      exact recordedAt_eq_nil fun r hr heq => hp (heq ▸ h.recorded.1 r hr)
  · split
    · rename_i hp
      obtain ⟨v, hv⟩ := h.load_ok hp
      rw [houtcome p v hv]
    · rename_i hp
      exact recordedAt_eq_nil fun r hr heq => hp (heq ▸ h.recorded.2 r hr)

open Classical in
/-- **There is a plan for every pass**, one for crews of any size, in which no entry is visited
twice. -/
theorem exists_plan {w : World} (hw : w.Sound) (hq : w.passes.get? job.pass = some q) :
    ∃ plan : Plan ρ, (∀ p, (plan.outcome p).visits.length ≤ 1) ∧
      ∀ ι : Type, (Crew.start w : Crew ι ρ).OnPlan job plan := by
  obtain ⟨s, hs, hf⟩ := hw.passes job.pass q hq
  obtain ⟨rest, hsuffix, hcursor⟩ : ∃ rest, rest <:+ s.linked ∧
      (q.cursor = .upcoming rest.head? ∨ q.cursor = .notStarted ∧ rest = s.linked) := by
    rcases hcursor : q.cursor with _ | next
    · exact ⟨s.linked, List.suffix_refl _, Or.inr ⟨rfl, rfl⟩⟩
    · obtain ⟨rest, hsuffix, rfl⟩ := hf.on_list next hcursor
      exact ⟨rest, hsuffix, Or.inl rfl⟩
  let todo : Place → Todo ρ := fun p => if p.block ∈ rest ∧ s.InUse p then .offer else .nothing
  let entry : Place → Entry := fun p => { storage := q.storage, place := p, access := q.access }
  let value : Place → Option Reference := fun p => (s.load p).toOption.join
  let plan : Plan ρ :=
    { storage := q.storage
      access := q.access
      concurrent := q.concurrent
      linked := s.linked
      claimed := q.claimed + rest.length
      outcome := fun p => job.outcome (entry p) (todo p) (value p)
      others := fun id => w.storages.get? id }
  refine ⟨plan, fun p => job.length_visits_le _ _ _, fun ι => ⟨q, s, rest, todo, ?_⟩⟩
  exact
    { sound := hw
      pass := hq
      storage := hs
      walks := rfl
      access := rfl
      concurrent := rfl
      linked := rfl
      others := fun _ _ => rfl
      suffix := hsuffix
      cursor := hcursor
      claimed := rfl
      workers := fun _ => .of_call?_eq_none rfl (by simp [start])
      apart := by
        rintro _ _ _ _ ⟨⟩
      waiting := fun p hp => ⟨fun huse => if_pos ⟨hp, huse⟩, fun huse => if_neg fun h => huse h.2⟩
      idle := fun p hp _ => if_neg fun h => hp h.1
      outcome := fun p v hv => by
        have hvalue : value p = v := by simp [value, hv, Except.toOption]
        show job.outcome (entry p) (todo p) (value p) = _
        rw [hvalue]
        rfl
      recorded := ⟨by simp [start], by simp [start]⟩ }

end Crew

end RootStore
