import RootStore.Proofs.Pass.Iterate
import RootStore.Proofs.Race.Crew
import RootStore.Proofs.World.Change

/-!
# A worker by itself

A worker that takes its steps while all others rest does what an iteration of the pass with the
job's visitor does: a single-threaded iteration is a crew of one.  And since such an iteration ends,
a crew can always be brought to its end, one worker after the other.

* `Job.lawful` — the visitor of a job does only what is permitted.
* `Crew.Alone`, `Crew.ComesTo` — steps of one worker, and where they lead.
* `Crew.OnPlan.begins`, `advances`, `judges`, `visits` — a worker does what an iteration and its
  visitor do.
* `Crew.OnPlan.loops` — **so it goes through the loop of the iteration.**
* `Crew.OnPlan.completed` — **every crew can be brought to its end.**
* `Crew.iterate_alone` — **an iteration is a crew of one.**
-/

namespace RootStore

variable {ι ρ : Type}

/-! ## The innermost iteration -/

namespace World

variable {w w' : World} {c : Call} {outer : List Call}

/-- A world is what it is without its innermost iteration, and with it again. -/
theorem within_outer (h : w.calls = c :: outer) :
    ({ w with calls := outer } : World).within c = w := by
  rcases w with ⟨storages, passes, handles, calls, log⟩
  obtain rfl := h
  rfl

theorem eq_of_calls (h : w.calls = outer) : ({ w with calls := outer } : World) = w := by
  rcases w with ⟨storages, passes, handles, calls, log⟩
  obtain rfl := h
  rfl

/-- A step leaves the iterations around the innermost one alone. -/
theorem Sound.calls_of_advance {progress : Progress} (h : w.Sound) (hcalls : w.calls = c :: outer)
    (hadvance : w.advance = .ok (w', progress)) : progress = .finished ∧ w'.calls = outer ∨
      progress ≠ .finished ∧ ∃ c', w'.calls = c' :: outer ∧ c'.stage = progress.stage := by
  obtain ⟨w₁, progress₁, hadvance₁, ht⟩ := h.advance_ok hcalls
  obtain ⟨rfl, rfl⟩ := Prod.mk.inj (Except.ok.inj (hadvance.symm.trans hadvance₁))
  generalize hr : Reply.progressed c.pass progress = r at ht
  cases ht with
  | failed => cases hr
  | @offered c₁ outer₁ q s scan slot v hcalls₁ hq hs hscan hslot hload =>
      obtain ⟨rfl, rfl⟩ := List.cons.inj (hcalls.symm.trans hcalls₁)
      obtain ⟨-, rfl⟩ := Reply.progressed.inj hr
      refine Or.inr ⟨?_, _, rfl, rfl⟩
      rcases Progress.offer_cases c.method ⟨q.storage, ⟨scan.block, slot⟩, q.access⟩ v with
        hoffer | ⟨object, hoffer⟩ | hoffer <;> simp [hoffer]
  | claimed hcalls₁ =>
      obtain ⟨rfl, rfl⟩ := List.cons.inj (hcalls.symm.trans hcalls₁)
      obtain ⟨-, rfl⟩ := Reply.progressed.inj hr
      exact Or.inr ⟨by simp, _, rfl, rfl⟩
  | finished hcalls₁ =>
      obtain ⟨rfl, rfl⟩ := List.cons.inj (hcalls.symm.trans hcalls₁)
      obtain ⟨-, rfl⟩ := Reply.progressed.inj hr
      exact Or.inl ⟨rfl, rfl⟩

theorem calls_of_store {e : Entry} {v : Option Reference} (h : w.store e v = .ok w') :
    w'.calls = w.calls := by
  unfold World.store at h
  rcases hs : w.storage e.storage with f | s
  · simp [hs, bind, Except.bind] at h
  rcases hstore : s.store e.place v with f | s'
  · simp [hs, hstore, Failure.ofFault, bind, Except.bind] at h
  · simp only [hs, hstore, Failure.ofFault, bind, Except.bind, pure, Except.pure,
      Except.ok.injEq] at h
    rw [← h]
    rfl

/-- One iteration more is under way. -/
def entered (c : Call) : Change where
  calls := fun calls => c :: calls

theorem within_eq (w : World) (c : Call) : w.within c = (entered c).apply w := by
  symm
  exact Change.apply_eq rfl rfl

theorem store_within (e : Entry) (v : Option Reference) :
    (w.within c).store e v = (w.store e v).map (·.within c) := by
  simp only [within_eq]
  exact Change.store_apply e v

theorem exchange_within (e : Entry) (expected : Reference) (new : Option Reference) :
    (w.within c).exchange e expected new =
      (w.exchange e expected new).map fun x => (x.1.within c, x.2) := by
  simp only [within_eq]
  exact Change.exchange_apply e expected new

theorem calls_of_exchange {e : Entry} {expected : Reference} {new : Option Reference}
    {answer : Except (Option Reference) Reference}
    (h : w.exchange e expected new = .ok (w', answer)) :
    w'.calls = w.calls := by
  unfold World.exchange at h
  rcases hload : w.load e with f | found
  · simp [hload, bind, Except.bind] at h
  rcases hstore : w.store e (RootStore.exchange found expected new).1 with f | w₁
  · simp [hload, hstore, bind, Except.bind] at h
  · simp only [hload, hstore, bind, Except.bind, pure, Except.pure, Except.ok.injEq,
      Prod.mk.injEq] at h
    rw [← h.1]
    exact calls_of_store hstore

/-- A verdict leaves the iterations around the innermost one alone. -/
theorem calls_of_judge {alive : Bool} {e : Entry} {object : Reference} {progress : Progress}
    (hcalls : w.calls = c :: outer) (hstage : c.stage = .asking e object)
    (hjudge : w.judge alive = .ok (w', progress)) :
    (progress = .visiting e ∨ progress = .cleared e) ∧
      ∃ c', w'.calls = c' :: outer ∧ c'.stage = progress.stage := by
  cases alive with
  | true =>
      simp only [judge, hcalls, hstage, bind, Except.bind, pure, Except.pure, if_true,
        Except.ok.injEq, Prod.mk.injEq] at hjudge
      obtain ⟨rfl, rfl⟩ := hjudge
      exact ⟨Or.inl rfl, _, rfl, rfl⟩
  | false =>
      simp only [judge, hcalls, hstage, bind, Except.bind, pure, Except.pure, Bool.false_eq_true,
        if_false] at hjudge
      split at hjudge
      · cases hjudge
      · rename_i w₁ hstore
        obtain ⟨rfl, rfl⟩ := Prod.mk.inj (Except.ok.inj hjudge)
        exact ⟨Or.inr rfl, _, calls_of_store hstore, rfl⟩

end World

/-! ## The visitor of a job -/

/-- What is done with an entry does not depend on the iterations under way. -/
theorem Handler.perform_within {e : Entry} {c : Call} (h : Handler ρ) : ∀ w : World,
    h.perform e (w.within c) = (h.perform e w).map fun x => (x.1.within c, x.2) := by
  induction h with
  | done result => intro w; rfl
  | load next ih =>
      intro w
      have hload : (w.within c).load e = w.load e := rfl
      simp only [perform, hload, bind, Except.bind]
      rcases w.load e with f | v
      · rfl
      · exact ih v w
  | store v next ih =>
      intro w
      simp only [perform, World.store_within, bind, Except.bind]
      rcases w.store e v with f | w'
      · rfl
      · exact ih w'
  | exchange expected new next ih =>
      intro w
      simp only [perform, World.exchange_within, bind, Except.bind]
      rcases w.exchange e expected new with f | ⟨w', answer⟩
      · rfl
      · exact ih answer w'

/-- An event after which the same iterations are under way, and what comes after it. -/
theorem World.run_after {w w₁ w' : World} {ev : Event} {r : Reply} (hp : w.Permits ev)
    (hact : w.act ev = .ok (w₁, r)) (hcalls : w₁.calls = w.calls)
    (h : (∃ steps, World.Run w₁ steps w') ∧ w'.calls = w₁.calls) :
    (∃ steps, World.Run w steps w') ∧ w'.calls = w.calls := by
  obtain ⟨⟨steps, hrun⟩, hcalls'⟩ := h
  exact ⟨⟨_, (World.run_act hp hact).1.append hrun⟩, hcalls'.trans hcalls⟩

/-- What is done with an entry in hand is permitted. -/
theorem Handler.run_perform {e : Entry} (h : Handler ρ) :
    ∀ {w w' : World} {result : ρ}, w.InHand e →
    (e.access = .readOnly → h.ReadsOnly) → h.perform e w = .ok (w', result) →
    (∃ steps, World.Run w steps w') ∧ w'.calls = w.calls := by
  have hwritable : (e.access = .readOnly → False) → e.access = .writable := fun hreads => by
    cases he : e.access with
    | readOnly => exact (hreads he).elim
    | writable => rfl
  induction h with
  | done result =>
      intro w w' result' _ _ hperform
      obtain ⟨rfl, -⟩ := Prod.mk.inj (Except.ok.inj hperform)
      exact ⟨⟨[], .nil _⟩, rfl⟩
  | load next ih =>
      intro w w' result hhand hreads hperform
      rcases hload : w.load e with f | v
      · simp [perform, hload, bind, Except.bind] at hperform
      · simp only [perform, hload, bind, Except.bind] at hperform
        exact ih v hhand (fun he => hreads he v) hperform
  | store v next ih =>
      intro w w' result hhand hreads hperform
      rcases hstore : w.store e v with f | w₁
      · simp [perform, hstore, bind, Except.bind] at hperform
      simp only [perform, hstore, bind, Except.bind] at hperform
      have hcalls := World.calls_of_store hstore
      have hp : w.Permits (.store e v) := ⟨hhand, hwritable hreads⟩
      have hact : w.act (.store e v) = .ok (w₁, .done) := by simp [World.act, Except.map, hstore]
      refine World.run_after hp hact hcalls (ih ?_ (fun he => (hreads he).elim) hperform)
      rwa [World.InHand, hcalls]
  | exchange expected new next ih =>
      intro w w' result hhand hreads hperform
      rcases hexchange : w.exchange e expected new with f | ⟨w₁, answer⟩
      · simp [perform, hexchange, bind, Except.bind] at hperform
      simp only [perform, hexchange, bind, Except.bind] at hperform
      have hcalls := World.calls_of_exchange hexchange
      have hp : w.Permits (.exchange e expected new) := ⟨hhand, hwritable hreads⟩
      have hact : w.act (.exchange e expected new) = .ok (w₁, .exchanged answer) := by
        simp [World.act, Except.map, hexchange]
      refine World.run_after hp hact hcalls (ih answer ?_ (fun he => (hreads he).elim) hperform)
      rwa [World.InHand, hcalls]

/-- **The visitor of a job is lawful.** -/
theorem Job.lawful (job : Job ρ) : job.visitor.Lawful where
  visit := fun w log c e _ hhead hstage => by
    have hhand : w.InHand e := ⟨c, List.mem_of_mem_head? hhead, hstage⟩
    simp only [visitor]
    rcases hperform : (job.handle e).perform e w with f | ⟨w', result⟩
    · exact ⟨⟨[], .nil w⟩, rfl⟩
    · exact Handler.run_perform (job.handle e) hhand (job.reads e) hperform
  judge := fun w _ _ _ _ _ _ _ => ⟨⟨[], .nil w⟩, rfl⟩

namespace Crew

variable [DecidableEq ι] {job : Job ρ} {plan : Plan ρ} {cr cr₁ cr₂ : Crew ι ρ} {i : ι} {c : Call}
  {outcome : World × Log ρ × Ending}

/-! ## Steps of one worker -/

/-- Steps of one worker lead from here to there. -/
def Alone (job : Job ρ) (i : ι) (cr cr' : Crew ι ρ) : Prop :=
  ∃ n, cr.play job (List.replicate n i) = .ok cr'

theorem play_append (schedule schedule' : List ι) : ∀ cr : Crew ι ρ,
    cr.play job (schedule ++ schedule') = (cr.play job schedule).bind (·.play job schedule') := by
  induction schedule with
  | nil => intro cr; rfl
  | cons i schedule ih =>
      intro cr
      simp only [List.cons_append, play, bind, Except.bind]
      rcases cr.step job i with f | cr₁
      · rfl
      · exact ih cr₁

theorem Alone.refl (cr : Crew ι ρ) : cr.Alone job i cr := ⟨0, rfl⟩

theorem Alone.head (hstep : cr.step job i = .ok cr₁) (h : cr₁.Alone job i cr₂) :
    cr.Alone job i cr₂ := by
  obtain ⟨n, hn⟩ := h
  refine ⟨n + 1, ?_⟩
  simp only [List.replicate_succ, play, hstep, bind, Except.bind, hn]

theorem Alone.trans (h : cr.Alone job i cr₁) (h' : cr₁.Alone job i cr₂) : cr.Alone job i cr₂ := by
  obtain ⟨n, hn⟩ := h
  obtain ⟨m, hm⟩ := h'
  refine ⟨n + m, ?_⟩
  rw [← List.replicate_append_replicate, play_append, hn]
  exact hm

/-- By itself a worker comes to `x`, and no other moves. -/
structure ComesTo (job : Job ρ) (i : ι) (cr : Crew ι ρ) (x : Worker ρ) (cr' : Crew ι ρ) : Prop where
  /-- Its steps lead there. -/
  alone : cr.Alone job i cr'
  /-- The others are where they were. -/
  worker : cr'.worker = Function.update cr.worker i x

namespace ComesTo

variable {x y : Worker ρ}

theorem of_step (hstep : cr.step job i = .ok cr₁)
    (hworker : cr₁.worker = Function.update cr.worker i x) :
    cr.ComesTo job i x cr₁ :=
  ⟨.head hstep (.refl _), hworker⟩

theorem trans (h : cr.ComesTo job i x cr₁) (h' : cr₁.ComesTo job i y cr₂) :
    cr.ComesTo job i y cr₂ where
  alone := h.alone.trans h'.alone
  worker := by rw [h'.worker, h.worker, Function.update_idem]

theorem self (h : cr.ComesTo job i x cr₁) : cr₁.worker i = x := by
  rw [h.worker, Function.update_self]

/-- It keeps to the plan. -/
theorem onPlan (h : cr.ComesTo job i x cr₁) (hplan : cr.OnPlan job plan) : cr₁.OnPlan job plan := by
  obtain ⟨n, hn⟩ := h.alone
  obtain ⟨cr', hplay, h'⟩ := hplan.play (List.replicate n i)
  rwa [Except.ok.inj (hn.symm.trans hplay)]

end ComesTo

/-- The crew in which an entry more was visited. -/
def visited (cr : Crew ι ρ) (p : Place) (result : ρ) : Crew ι ρ :=
  { cr with visits := cr.visits ++ [(p, result)] }

/-- By itself a worker does the rest of what is done with its entry as it is done without
interruption in the world `w`. -/
def Handles (job : Job ρ) (i : ι) (cr : Crew ι ρ) (c : Call) (e : Entry) (h : Handler ρ)
    (w : World) : Prop :=
  ∃ w' result, h.perform e w = .ok (w', result) ∧ w'.calls = cr.world.calls ∧
    cr.Alone job i ((cr.visited e.place result).put i w' (.iterating c))

/-- After an access the rest is done. -/
theorem Handles.after {e : Entry} {rest : Handler ρ} {w : World} (hcalls : w.calls = cr.world.calls)
    (hstep : cr.step job i = .ok (cr.put i w (.handling c e rest)))
    (h : let cr' := cr.put i w (.handling c e rest); Handles job i cr' c e rest cr'.world) :
    Handles job i cr c e rest w := by
  obtain ⟨w', result, hperform, hcalls', halone⟩ := h
  rw [put, World.eq_of_calls hcalls] at hperform
  exact ⟨w', result, hperform, hcalls', .head hstep (by simpa [visited, put] using halone)⟩

namespace OnPlan

/-- **A worker handles its entry** as it is done without interruption. -/
theorem handle {e : Entry} (hd : Handler ρ) : ∀ {cr : Crew ι ρ}, cr.OnPlan job plan →
    cr.worker i = .handling c e hd → Handles job i cr c e hd cr.world := by
  induction hd with
  | done result =>
      intro cr h hx
      refine ⟨cr.world, result, rfl, rfl, .head ?_ (.refl _)⟩
      simp only [Crew.step, hx, visited]
      rfl
  | load next ih =>
      intro cr h hx
      obtain ⟨cr₁, hstep, h₁⟩ := h.step i
      have hstep' := hstep
      rcases hload : cr.world.load e with f | v
      · simp [Crew.step, hx, hload, bind, Except.bind] at hstep'
      simp only [Crew.step, hx, hload, bind, Except.bind, pure, Except.pure, Except.ok.injEq]
        at hstep'
      subst hstep'
      have hrest := Handles.after rfl hstep (ih v h₁ (Function.update_self ..))
      simpa only [Handles, Handler.perform, hload, bind, Except.bind] using hrest
  | store v next ih =>
      intro cr h hx
      obtain ⟨cr₁, hstep, h₁⟩ := h.step i
      have hstep' := hstep
      rcases hstore : cr.world.store e v with f | w₁
      · simp [Crew.step, hx, hstore, bind, Except.bind] at hstep'
      simp only [Crew.step, hx, hstore, bind, Except.bind, pure, Except.pure, Except.ok.injEq]
        at hstep'
      subst hstep'
      have hrest :=
        Handles.after (World.calls_of_store hstore) hstep (ih h₁ (Function.update_self ..))
      simpa only [Handles, Handler.perform, hstore, bind, Except.bind] using hrest
  | exchange expected new next ih =>
      intro cr h hx
      obtain ⟨cr₁, hstep, h₁⟩ := h.step i
      have hstep' := hstep
      rcases hexchange : cr.world.exchange e expected new with f | ⟨w₁, answer⟩
      · simp [Crew.step, hx, hexchange, bind, Except.bind] at hstep'
      simp only [Crew.step, hx, hexchange, bind, Except.bind, pure, Except.pure, Except.ok.injEq]
        at hstep'
      subst hstep'
      have hrest := Handles.after (World.calls_of_exchange hexchange) hstep
        (ih answer h₁ (Function.update_self ..))
      simpa only [Handles, Handler.perform, hexchange, bind, Except.bind] using hrest

/-! ### What the iteration makes of it -/

/-- A worker begins as an iteration does. -/
theorem begins (h : cr.OnPlan job plan) (hx : cr.worker i = .waiting) :
    let c : Call := { pass := job.pass, method := job.method }
    ∃ cr', cr.ComesTo job i (.iterating c) cr' ∧ cr'.log = cr.log ∧
      cr.world.enter job.pass job.method = .ok (cr'.world.within c) := by
  obtain ⟨q, s, rest, todo, hst⟩ := h
  obtain ⟨w, henter, ht⟩ : ∃ w, cr.world.enter job.pass job.method = .ok w ∧
    cr.world.Transition (.enter job.pass job.method) w .done := hst.sound.enter_ok hst.pass
  let c : Call := { pass := job.pass, method := job.method }
  have hcalls : w.calls = c :: cr.world.calls := by
    cases ht with
    | pinned | resumed => rfl
  refine ⟨cr.put i w (.iterating c), .of_step ?_ rfl, rfl, ?_⟩
  · simp only [Crew.step, hx, henter, bind, Except.bind, pure, Except.pure]
    rfl
  · rw [henter]
    exact congrArg Except.ok (World.within_outer hcalls).symm

/-- A worker goes on as its iteration does. -/
theorem advances (h : cr.OnPlan job plan) (hx : cr.worker i = .iterating c)
    (hstage : ∀ e object, c.stage ≠ .asking e object) : ∃ cr' progress, cr'.log = cr.log ∧
      (progress = .finished ∧ cr.ComesTo job i .done cr' ∧
          (cr.world.within c).advance = .ok (cr'.world, progress) ∨
        progress ≠ .finished ∧ ∃ c', c'.stage = progress.stage ∧
          cr.ComesTo job i (job.resume c' progress) cr' ∧
          (cr.world.within c).advance = .ok (cr'.world.within c', progress)) := by
  have hsound : (cr.world.within c).Sound := by
    obtain ⟨q, s, rest, todo, hst⟩ := h
    obtain ⟨hpass, -, hf⟩ := (hst.workers i).call c (by rw [hx]; rfl)
    exact hst.within hpass hf
  have houter : (cr.world.within c).calls = c :: cr.world.calls := rfl
  obtain ⟨w, progress, hadvance, -⟩ := hsound.advance_ok houter
  have hstep : cr.step job i = .ok (cr.put i w (job.resume (w.calls.headD c) progress)) :=
    step_advance hx hstage hadvance
  refine ⟨cr.put i w (job.resume (w.calls.headD c) progress), progress, rfl, ?_⟩
  rcases hsound.calls_of_advance houter hadvance with ⟨rfl, hcalls⟩ | ⟨hgoes, c', hcalls, hstage'⟩
  · refine Or.inl ⟨rfl, .of_step hstep rfl, ?_⟩
    rw [hadvance]
    exact congrArg (fun w => Except.ok (w, _)) (World.eq_of_calls hcalls).symm
  · rw [hcalls, List.headD_cons] at hstep ⊢
    refine Or.inr ⟨hgoes, c', hstage', .of_step hstep rfl, ?_⟩
    rw [hadvance]
    exact congrArg (fun w => Except.ok (w, _)) (World.within_outer hcalls).symm

/-- A worker takes the verdict that its iteration takes. -/
theorem judges {e : Entry} {object : Reference} (h : cr.OnPlan job plan)
    (hx : cr.worker i = .iterating c) (hstage : c.stage = .asking e object) : ∃ cr' progress c',
      (progress = .visiting e ∨ progress = .cleared e) ∧ c'.stage = progress.stage ∧
      cr.ComesTo job i (job.resume c' progress) cr' ∧
      job.visitor.judge object (cr.world.within c) cr.log =
        (cr.world.within c, cr'.log, .ok (job.alive object)) ∧
      (cr.world.within c).judge (job.alive object) = .ok (cr'.world.within c', progress) := by
  obtain ⟨cr₁, hstep, -⟩ := h.step i
  have hstep' := hstep
  rcases hjudge : (cr.world.within c).judge (job.alive object) with f | ⟨w, progress⟩
  · simp [Crew.step, hx, hstage, hjudge, bind, Except.bind] at hstep'
  obtain ⟨hpro, c', hcalls, hstage'⟩ := World.calls_of_judge (c := c) rfl hstage hjudge
  simp only [Crew.step, hx, hstage, hjudge, hcalls, List.headD_cons, bind, Except.bind, pure,
    Except.pure, Except.ok.injEq] at hstep'
  subst hstep'
  refine ⟨_, progress, c', hpro, hstage', .of_step hstep rfl, ?_, ?_⟩
  · simp only [Job.visitor, log, put, List.map_append, List.map_cons, List.map_nil]
  · exact congrArg (fun w => Except.ok (w, progress)) (World.within_outer hcalls).symm

/-- A worker does with an entry in its hand what the visitor does. -/
theorem visits {e : Entry} (h : cr.OnPlan job plan)
    (hx : cr.worker i = .handling c e (job.handle e)) :
    ∃ cr', cr.ComesTo job i (.iterating c) cr' ∧
      job.visitor.visit e (cr.world.within c) cr.log = (cr'.world.within c, cr'.log, none) := by
  obtain ⟨w', result, hperform, hcalls, halone⟩ := h.handle (job.handle e) hx
  let cr' := (cr.visited e.place result).put i w' (.iterating c)
  have hworld : cr'.world = w' := World.eq_of_calls hcalls
  refine ⟨cr', ⟨halone, rfl⟩, ?_⟩
  simp only [Job.visitor, Handler.perform_within, hperform, Except.map, hworld]
  rfl

end OnPlan

/-! ## The loop of an iteration -/

/-- The loop of an iteration ends where the worker does, unless it is cut off by its bound. -/
def Ends (job : Job ρ) (i : ι) (cr : Crew ι ρ) (outcome : World × Log ρ × Ending) : Prop :=
  outcome.2.2 = .failed (.fault .endlessWalk) ∨
    ∃ cr', cr.ComesTo job i .done cr' ∧ outcome = (cr'.world, cr'.log, .returned)

theorem Ends.after {x : Worker ρ} (h : cr.ComesTo job i x cr₁) (h' : cr₁.Ends job i outcome) :
    cr.Ends job i outcome :=
  h'.imp_right fun ⟨cr', hdone, houtcome⟩ => ⟨cr', h.trans hdone, houtcome⟩

namespace OnPlan

/-- **The loop of an iteration with the job's visitor** takes the steps that the worker takes alone.
The induction is on the turns. -/
theorem loops (turns : Nat) : ∀ {cr : Crew ι ρ} {c : Call}, cr.OnPlan job plan →
    cr.worker i = .iterating c → (∀ e object, c.stage ≠ .asking e object) →
    cr.Ends job i (World.run job.visitor turns (cr.world.within c) cr.log) := by
  induction turns with
  | zero => exact fun _ _ _ => Or.inl rfl
  | succ turns ih =>
      intro cr c h hx hstage
      obtain ⟨cr₁, progress, hlog, ⟨rfl, hdone, hadvance⟩ | ⟨hgoes, c₁, hstage₁, hto, hadvance⟩⟩ :=
        h.advances hx hstage
      · simp only [World.run, hadvance]
        exact Or.inr ⟨cr₁, hdone, by rw [hlog]⟩
      have h₁ := hto.onPlan h
      -- a turn that calls nobody only goes on
      have hon : (∀ e object, c₁.stage ≠ .asking e object) →
          job.resume c₁ progress = .iterating c₁ →
          cr.Ends job i (World.run job.visitor turns (cr₁.world.within c₁) cr.log) :=
          fun hready hgo => by
        rw [← hlog]
        exact (ih h₁ (hto.self.trans hgo) hready).after hto
      cases progress with
      | finished => exact absurd rfl hgoes
      | claimed n =>
          simp only [World.run, hadvance]
          exact hon (by simp [hstage₁, Progress.stage]) rfl
      | passedOver e =>
          simp only [World.run, hadvance]
          exact hon (by simp [hstage₁, Progress.stage]) rfl
      | cleared e =>
          simp only [World.run, hadvance]
          exact hon (by simp [hstage₁, Progress.stage]) rfl
      | visiting e =>
          obtain ⟨cr₂, hto₂, hvisit⟩ := h₁.visits hto.self
          rw [hlog] at hvisit
          simp only [World.run, hadvance, hvisit]
          exact .after (hto.trans hto₂)
            (ih (hto₂.onPlan h₁) hto₂.self (by simp [hstage₁, Progress.stage]))
      | asking e object =>
          obtain ⟨cr₂, progress, c₂, hpro, hstage₂, hto₂, hask, hjudge⟩ :=
            h₁.judges hto.self hstage₁
          have h₂ := hto₂.onPlan h₁
          rw [hlog] at hask
          rcases hpro with rfl | rfl
          · obtain ⟨cr₃, hto₃, hvisit⟩ := h₂.visits hto₂.self
            simp only [World.run, hadvance, hask, hjudge, hvisit]
            exact .after (hto.trans (hto₂.trans hto₃))
              (ih (hto₃.onPlan h₂) hto₃.self (by simp [hstage₂, Progress.stage]))
          · simp only [World.run, hadvance, hask, hjudge]
            exact .after (hto.trans hto₂) (ih h₂ hto₂.self (by simp [hstage₂, Progress.stage]))

/-! ## Whole iterations -/

/-- A worker whose iteration is under way comes to the end of it. -/
theorem done_of_iterating (h : cr.OnPlan job plan) (hx : cr.worker i = .iterating c)
    (hstage : ∀ e object, c.stage ≠ .asking e object) : ∃ cr', cr.ComesTo job i .done cr' := by
  obtain ⟨q, s, rest, todo, hst⟩ := id h
  obtain ⟨hpass, -, hf⟩ := (hst.workers i).call c (by rw [hx]; rfl)
  have hsound := hst.within hpass hf
  have hs : cr.world.storages.get? q.storage = some s := by rw [hst.walks, hst.storage]
  obtain ⟨L, hpinned, -⟩ := hsound.pinned hst.pass hs hf.started
  have hunderway : (cr.world.within c).Underway c cr.world.calls job.pass q.claimed L [] :=
    ⟨hsound, rfl, hpass, hpinned⟩
  obtain ⟨steps, hiterated⟩ := World.loopRight
    (job.lawful.keeps job.pass cr.world.calls (cr.world.within c) cr.log) q.claimed L
    (World.turnsLeft c L [] + 1) _ cr.log c [] .began hunderway hstage (Nat.lt_succ_self _)
  rcases h.loops (World.turnsLeft c L [] + 1) hx hstage with hcut | ⟨cr', hdone, -⟩
  · rcases hiterated.ending with ⟨hend, -⟩ | ⟨text, hend⟩ <;> simp [hcut] at hend
  · exact ⟨cr', hdone⟩

/-- So does a worker with an entry in its hand. -/
theorem done_of_handling {e : Entry} {hd : Handler ρ} (h : cr.OnPlan job plan)
    (hx : cr.worker i = .handling c e hd) : ∃ cr', cr.ComesTo job i .done cr' := by
  have hstage : c.stage = .visiting e := by
    obtain ⟨q, s, rest, todo, hst⟩ := h
    exact (hst.workers i).stage c e _ hx
  obtain ⟨w', result, -, -, halone⟩ := h.handle hd hx
  have hto : cr.ComesTo job i (.iterating c)
      ((cr.visited e.place result).put i w' (.iterating c)) :=
    ⟨halone, rfl⟩
  obtain ⟨cr', hdone⟩ := (hto.onPlan h).done_of_iterating hto.self (by simp [hstage])
  exact ⟨cr', hto.trans hdone⟩

/-- **Every worker comes to its end** when it is left alone. -/
theorem comes_to_done (h : cr.OnPlan job plan) (i : ι) : ∃ cr', cr.ComesTo job i .done cr' := by
  cases hx : cr.worker i with
  | waiting =>
      obtain ⟨cr₁, hto, -⟩ := h.begins hx
      obtain ⟨cr', hdone⟩ := (hto.onPlan h).done_of_iterating hto.self (by simp)
      exact ⟨cr', hto.trans hdone⟩
  | iterating c =>
      rcases hstage : c.stage with _ | ⟨e, object⟩ | e
      · exact h.done_of_iterating hx (by simp [hstage])
      · obtain ⟨cr₁, progress, c', hpro, hstage', hto, -⟩ := h.judges hx hstage
        have h₁ := hto.onPlan h
        rcases hpro with rfl | rfl
        · obtain ⟨cr', hdone⟩ := h₁.done_of_handling hto.self
          exact ⟨cr', hto.trans hdone⟩
        · obtain ⟨cr', hdone⟩ := h₁.done_of_iterating hto.self (by simp [hstage', Progress.stage])
          exact ⟨cr', hto.trans hdone⟩
      · exact h.done_of_iterating hx (by simp [hstage])
  | handling c e hd => exact h.done_of_handling hx
  | done => exact ⟨cr, .refl cr, by rw [← hx, Function.update_eq_self]⟩

/-- **Every crew can be brought to its end**, one worker after the other. -/
theorem completed [Fintype ι] (h : cr.OnPlan job plan) :
    ∃ schedule cr', cr.play job schedule = .ok cr' ∧ cr'.Finished := by
  have hsome : ∀ workers : List ι, ∃ schedule cr', cr.play job schedule = .ok cr' ∧
      cr'.OnPlan job plan ∧ ∀ i ∈ workers, cr'.worker i = .done := by
    intro workers
    induction workers with
    | nil => exact ⟨[], cr, rfl, h, by simp⟩
    | cons i workers ih =>
        obtain ⟨schedule, cr₁, hplay, h₁, hdone⟩ := ih
        obtain ⟨cr', hto⟩ := h₁.comes_to_done i
        obtain ⟨n, hn⟩ := hto.alone
        refine ⟨schedule ++ List.replicate n i, cr', ?_, hto.onPlan h₁, fun j hj => ?_⟩
        · rw [play_append, hplay]
          exact hn
        · rw [hto.worker]
          by_cases hji : j = i
          · rw [hji, Function.update_self]
          · rw [Function.update_of_ne hji]
            exact hdone j ((List.mem_cons.1 hj).resolve_left hji)
  obtain ⟨schedule, cr', hplay, -, hdone⟩ := hsome Finset.univ.toList
  exact ⟨schedule, cr', hplay, fun i => hdone i (by simp)⟩

end OnPlan

/-- **An iteration is a crew of one.** -/
theorem iterate_alone {w : World} {q : Pass} (h : (start w : Crew Unit ρ).OnPlan job plan)
    (hw : w.Sound) (hq : w.passes.get? job.pass = some q) (hoffers : q.offers job.method = true) :
    ∃ cr : Crew Unit ρ, cr.OnPlan job plan ∧ cr.Finished ∧
      w.iterate job.pass job.method job.visitor {} = (cr.world, cr.log, .returned) := by
  let c : Call := { pass := job.pass, method := job.method }
  obtain ⟨cr₁, hto, hlog, henter⟩ :
    ∃ cr₁, (start w).ComesTo job () (.iterating c) cr₁ ∧ cr₁.log = {} ∧
    w.enter job.pass job.method = .ok (cr₁.world.within c) := h.begins rfl
  have hends := (hto.onPlan h).loops (w.stepBound job.pass) hto.self (by simp [c])
  have heq : w.iterate job.pass job.method job.visitor {} =
      World.run job.visitor (w.stepBound job.pass) (cr₁.world.within c) cr₁.log := by
    simp only [World.iterate, henter, hlog]
  rw [← heq] at hends
  obtain ⟨steps, -, -, hending⟩ := World.iterate_run hw job.lawful hq hoffers {}
  rcases hends with hcut | ⟨cr, hdone, houtcome⟩
  · rcases hending with ⟨hend, -⟩ | ⟨text, hend⟩ <;> simp [hcut] at hend
  · exact ⟨cr, hdone.onPlan (hto.onPlan h), fun i => hdone.self, houtcome⟩

end Crew

end RootStore
