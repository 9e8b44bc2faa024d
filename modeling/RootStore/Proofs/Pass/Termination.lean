import RootStore.Proofs.Pass.Once
import RootStore.Proofs.Pass.Turns
import RootStore.Proofs.Storage.Walks
import RootStore.Proofs.World.Accounts

/-!
# Iterations end

Whatever a visitor does, as long as each of its calls comes to an end: an iteration of a pass claims
the blocks that were linked when the pass was first iterated, and visits the entries that were in
use when it claimed them.  A visitor may link blocks, use their entries again, and iterate the same
pass from within.  Since all iterations of a pass draw on one supply of blocks and entries, there is
no way to go on for ever.

* `World.Unstarted.not_visits` — before its first iteration a pass calls no visitor.
* `World.Sound.iterate_of_exhausted` — after its last block it calls none either.
* `World.Endless`, `World.Pinned.not_endless` — **no visitor can keep a pass going for ever.**
* `World.IterationsEnd`, `World.iterations_end` — what is said of every course.
-/

namespace RootStore

namespace World

variable {w w' : World} {p k : Nat} {L C : List Nat} {steps : List Step}

/-! ## Before the first iteration -/

/-- A pass that has not started has no iteration under way. -/
theorem Unstarted.callsOf_eq_nil (h : w.Unstarted p) (hw : w.Sound) : w.callsOf p = [] := by
  rw [List.eq_nil_iff_forall_not_mem]
  intro c hc
  obtain ⟨hmem, hpass⟩ := List.mem_filter.1 hc
  exact h.pass_ne hw hmem (decide_eq_true_iff.1 hpass)

/-- It calls no visitor and no judge. -/
theorem Unstarted.not_visits {st : Step} (h : st.before.Unstarted p) (hw : st.before.Sound)
    (htolerates : st.before.Tolerates st.event) :
    st.reply.visits p = false ∧ st.reply.asks p = false := by
  have hnone := h.callsOf_eq_nil hw
  have hturned : Turned p st.before st.event st.after st.reply :=
    (hw.transition_of_tolerates htolerates).turned p
  cases hturned with
  | aside hcalls hreply hpanic =>
      obtain ⟨hvisits, hasks, -⟩ := uncounted hreply hpanic
      exact ⟨hvisits, hasks⟩
  | entered hcalls hleft hstage hevent hreply => simp [hreply, Reply.visits, Reply.asks]
  | offered hcalls | judged hcalls | claimed hcalls | closed hcalls => simp [hnone] at hcalls

/-- Nor does it until an iteration of it is entered. -/
theorem Unstarted.countP_visits (h : w.Unstarted p) (hw : w.Sound) (hcourse : Course w steps w')
    (henter : ∀ st ∈ steps, ¬ st.Enters p) :
    steps.countP (·.reply.visits p) = 0 ∧ steps.countP (·.reply.asks p) = 0 := by
  have hone : ∀ st ∈ steps, st.reply.visits p = false ∧ st.reply.asks p = false := by
    intro st hst
    obtain ⟨before, after, rfl⟩ := List.append_of_mem hst
    obtain ⟨hbefore, htolerates, -⟩ := hcourse.split
    obtain ⟨hunstarted, -⟩ := h.course hw hbefore fun st hst => henter st (by simp [hst])
    exact hunstarted.not_visits (hbefore.sound hw) htolerates
  rw [List.countP_eq_zero, List.countP_eq_zero]
  exact ⟨fun st hst => by simp [(hone st hst).1], fun st hst => by simp [(hone st hst).2]⟩

/-! ## After the last block -/

/-- **An iteration of a pass that has no block left** returns without a call. -/
theorem Sound.iterate_of_exhausted {q : Pass} (hw : w.Sound) (hq : w.passes.get? p = some q)
    (hcursor : q.cursor = .upcoming none) (method : Method) :
    ∃ w', ∀ (σ : Type) (v : Visitor σ) (s : σ), w.iterate p method v s = (w', s, .returned) := by
  obtain ⟨w₁, henter, ht⟩ : ∃ w₁, w.enter p method = .ok w₁ ∧
    Transition w (.enter p method) w₁ .done := hw.enter_ok hq
  have hw₁ := ht.sound hw
  cases ht with
  | @pinned _ _ q₁ s hq₁ hs hcursor₁ =>
      obtain rfl := Option.some.inj (hq.symm.trans hq₁)
      simp [hcursor] at hcursor₁
  | @resumed _ _ q₁ s hq₁ hs hcursor₁ =>
      obtain rfl := Option.some.inj (hq.symm.trans hq₁)
      obtain ⟨w₂, progress, hadvance, ht₂⟩ := hw₁.advance_ok (c := { pass := p, method }) rfl
      have hfinished : progress = .finished := by
        generalize hr : Reply.progressed p progress = r at ht₂
        cases ht₂ with
        | failed hact hwhy => cases hr
        | offered hcalls hq₂ hs₂ hscan =>
            obtain ⟨rfl, rfl⟩ := List.cons.inj hcalls
            cases hscan
        | claimed hcalls hq₂ hs₂ hdone hcursor₂ =>
            obtain ⟨rfl, rfl⟩ := List.cons.inj hcalls
            obtain rfl := Option.some.inj (hq.symm.trans hq₂)
            simp [hcursor] at hcursor₂
        | finished => exact (Reply.progressed.inj hr).2
      subst hfinished
      have hbound : w.stepBound p = (blockSize + 1) * s.blocks.size + 1 := by
        simp only [stepBound, hq, Option.bind_some, hs]
      refine ⟨w₂, fun σ v st => ?_⟩
      rw [iterate, henter, hbound]
      simp only [World.run, hadvance]

/-! ## No way to go on for ever -/

/-- An endless sequence of events from the world `w`, in which every step that no iteration of the
pass takes itself is put down to some call of the pass's visitor or judge in the sequence, or to
what was going on before it, and each of these does finitely many things. -/
structure Endless (w : World) (p : Nat) (step : Nat → Step) (caller : Nat → Option Nat) : Prop where
  starts : (step 0).before = w
  goesOn : ∀ n, (step (n + 1)).before = (step n).after
  tolerated : ∀ n, (step n).before.Tolerates (step n).event
  called : ∀ n m, (step n).drives p = false → caller n = some m →
    (step m).reply.visits p = true ∨ (step m).reply.asks p = true
  finite : ∀ m, {n | (step n).drives p = false ∧ caller n = m}.Finite

variable {step : Nat → Step} {caller : Nat → Option Nat}

/-- Every beginning of an endless sequence is a course. -/
theorem Endless.course (h : Endless w p step caller) (n : Nat) :
    Course w ((List.range n).map step) (step n).before := by
  induction n with
  | zero =>
      rw [h.starts]
      exact .nil w
  | succ n ih =>
      rw [List.range_succ, List.map_append, h.goesOn]
      exact .snoc (step n).event ih (h.tolerated n)

/-- **No visitor can keep a pass going for ever** whose calls each come to an end. -/
theorem Pinned.not_endless (h : w.Pinned p k L C) (hw : w.Sound) : ¬ Endless w p step caller := by
  intro hendless
  have hcount : ∀ (f : Step → Bool) (n : Nat),
      ((List.range n).map step).countP f = (List.range n).countP fun m => f (step m) :=
    fun f n => List.countP_map
  have hpaid := fun n => h.tally hw (hendless.course n)
  -- the visitor and the judge are called finitely often, and do finitely many things each time
  have hvisits : {n | (step n).reply.visits p = true}.Finite :=
    finite_of_countP_le (f := fun n => (step n).reply.visits p) fun n => by
      have hpay := (hpaid n).visits
      rw [hcount] at hpay
      exact Nat.le_of_add_right_le hpay
  have hasks : {n | (step n).reply.asks p = true}.Finite :=
    finite_of_countP_le (f := fun n => (step n).reply.asks p) fun n => by
      have hpay := (hpaid n).asks
      rw [hcount] at hpay
      exact Nat.le_of_add_right_le hpay
  have hothers : {n | (step n).drives p = false}.Finite := by
    have hcallers := ((hvisits.union hasks).image some).insert none
    refine (hcallers.biUnion fun m _ => hendless.finite m).subset fun n hn => ?_
    refine Set.mem_biUnion ?_ ⟨hn, rfl⟩
    rcases hm : caller n with _ | m
    · exact Set.mem_insert _ _
    · exact Set.mem_insert_of_mem _ ⟨m, hendless.called n m hn hm, rfl⟩
  have henters : {n | (step n).enters p = true}.Finite := by
    refine hothers.subset fun n hn => ?_
    obtain ⟨⟨method, hevent⟩, hreply⟩ := Step.enters_iff.1 hn
    simp [Step.drives, hevent, hreply]
  -- so the iterations are entered finitely often, and take finitely many steps themselves
  have hdrives : {n | (step n).drives p = true}.Finite :=
    finite_of_countP_le (f := fun n => (step n).drives p) fun n => by
      have hpay := (hpaid n).drives
      have hentered := countP_le_of_finite henters n
      rw [hcount, hcount] at hpay
      exact (Nat.le_of_add_right_le hpay).trans (Nat.add_le_add_left hentered _)
  refine Set.infinite_univ ((hdrives.union hothers).subset fun n _ => ?_)
  cases hn : (step n).drives p
  · exact .inr hn
  · exact .inl hn

/-! ## What is said of every course -/

/-- The iteration that starts a pass is the only one of it under way, and has nothing in hand
yet. -/
theorem Unstarted.entered {st : Step} (h : st.before.Unstarted p) (hw : st.before.Sound)
    (htolerates : st.before.Tolerates st.event) (henter : st.Enters p) :
    st.after.entriesDue p = 0 ∧ st.after.questionsOpen p = 0 ∧ (st.after.callsOf p).length = 1 := by
  have hnone := h.callsOf_eq_nil hw
  obtain ⟨⟨method, hevent⟩, hdone⟩ := henter
  have ht := hw.transition_of_tolerates htolerates
  change Transition st.before st.event st.after st.reply at ht
  rw [hevent, hdone] at ht
  have hcalls : st.after.callsOf p = [{ pass := p, method }] := by
    generalize st.after = w' at ht ⊢
    cases ht <;> simpa [callsOf] using hnone
  simp [entriesDue, questionsOpen, hcalls, Call.entriesLeft, Call.questions]

/-- **There is a bound on all that a pass does** that was first iterated when the list was `L`: in
its whole life, `later` being the part of it since then, up to the world `w`. -/
structure Limited (p : Nat) (L : List Nat) (life later : List Step) (w : World) : Prop where
  /-- It claims a block of the list at most once. -/
  claims : (claims p life).length ≤ L.length
  /-- It calls its visitors with sixty-four entries of a block at most. -/
  visits : life.countP (·.reply.visits p) ≤ 64 * L.length
  /-- It asks its judges about as many objects at most. -/
  asks : life.countP (·.reply.asks p) ≤ 64 * L.length
  /-- Apart from that, its iterations take one step for each block, two for each entry and one to be
  left at most. -/
  drives : later.countP (·.drives p) ≤ 129 * L.length + 1 + later.countP (·.enters p)
  /-- Once one of them has returned, every further one returns without a call, whatever has been
  linked since. -/
  exhausted : (∃ st ∈ later, st.Returns p) → ∀ q, w.passes.get? p = some q → ∀ method,
    ∃ w', ∀ (σ : Type) (v : Visitor σ) (s : σ), w.iterate p method v s = (w', s, .returned)
  /-- There is no way to go on for ever from here, if each call of a visitor or judge comes to an
  end. -/
  ends : ∀ step caller, ¬ Endless w p step caller

/-- **Iterations end** in a course that has come to the world `w`. -/
structure IterationsEnd (steps : List Step) (w : World) : Prop where
  /-- An iteration returns, or is left by a panic, if its visitor and judge do finitely many things
  that are tolerated in each call that it makes, and are then done with the iterations that they
  have entered. -/
  finishes : ∀ (σ : Type) (v : Visitor σ) (s : σ) (p : Nat) (q : Pass) (method : Method),
    w.passes.get? p = some q → q.offers method = true →
    (∀ w', w.enter p method = .ok w' → v.Keeps p w.calls w' s (fun _ => True)) →
    ∃ more, Course w more (w.iterate p method v s).1 ∧ (w.iterate p method v s).1.calls = w.calls ∧
      ((w.iterate p method v s).2.2 = .returned ∨
        ∃ text, (w.iterate p method v s).2.2 = .panicked text)
  /-- What a pass does in all of its iterations is limited by the list that it was pinned to. -/
  limited : ∀ (p : Nat) (before between later : List Step) (start first : Step),
    steps = before ++ start :: (between ++ first :: later) → start.reply = .began p →
    (∀ st ∈ between, ¬ st.Enters p) → first.Enters p →
    ∃ q s, first.before.passes.get? p = some q ∧ first.before.storages.get? q.storage = some s ∧
      Limited p s.linked (between ++ first :: later) later w
  /-- A deletion and a disposal of a storage take one turn for each of its blocks at most. -/
  walks : ∀ (id : Nat) (s : Storage), w.storages.get? id = some s →
    (∀ yielding, ∃ d, Storage.deleteFrom yielding s.blockCount s s.head 0 = .ok d ∧
      Storage.deleteFrom yielding s.blocks.size s s.head 0 = .ok d) ∧
    ∃ s', Storage.disposeFrom s.blockCount s s.head = .ok s' ∧ s.dispose = .ok s'

/-- The counts of a storage agree with its list along every course. -/
theorem Course.balanced (h : Course {} steps w) {id : Nat} {s : Storage}
    (hs : w.storages.get? id = some s) : s.Balanced := by
  generalize hinit : ({} : World) = w₀ at h
  induction h generalizing s with
  | nil => subst hinit; simp at hs
  | @snoc w₁ steps e hcourse htolerates ih =>
      subst hinit
      have hw := hcourse.sound .init
      have ht := hw.transition_of_tolerates htolerates
      rcases ht.storages.back id s hs with ⟨s₁, hs₁, -⟩ | ⟨-, settings, rfl⟩
      · exact (ht.booked hw hs₁ hs (ih hs₁)).balanced
      · exact .make id settings

/-- **The life of a pass is limited.** -/
theorem Course.limited {before between later : List Step} {start first : Step}
    (h : Course {} (before ++ start :: (between ++ first :: later)) w)
    (hstart : start.reply = .began p)
    (hbetween : ∀ st ∈ between, ¬ st.Enters p) (henter : first.Enters p) :
    ∃ q s, first.before.passes.get? p = some q ∧ first.before.storages.get? q.storage = some s ∧
      Limited p s.linked (between ++ first :: later) later w := by
  obtain ⟨hcourse₀, htolerates₀, hcourse⟩ := h.split
  obtain ⟨hcourse₁, htolerates₁, hcourse₂⟩ := hcourse.split
  have hw₀ := hcourse₀.sound .init
  have hw₀' := (hw₀.transition_of_tolerates htolerates₀).sound hw₀
  have hw₁ := hcourse₁.sound hw₀'
  have hw₂ := (hw₁.transition_of_tolerates htolerates₁).sound hw₁
  -- until it is first iterated the pass claims nothing and calls nobody
  have hp₀ : start.before.Permits start.event := htolerates₀.resolve_right fun ⟨id, _, hreply⟩ => by
    change start.reply = _ at hreply
    simp [hstart] at hreply
  have hp₁ : first.before.Permits first.event := htolerates₁.permits fun id heq => by
    obtain ⟨⟨method, hevent⟩, -⟩ := henter
    simp [hevent] at heq
  have hbegan := unstarted_of_began hw₀ hp₀ hstart
  obtain ⟨hunstarted, hclaims⟩ := hbegan.course hw₀' hcourse₁ hbetween
  obtain ⟨hvisits, hasks⟩ := hbegan.countP_visits hw₀' hcourse₁ hbetween
  obtain ⟨hvisit, hask⟩ := hunstarted.not_visits hw₁ htolerates₁
  have hclaim : first.reply.claim? p = none := by rw [henter.2]; rfl
  obtain ⟨q, s, hq, hs, hpinned⟩ := hunstarted.pinned hw₁ hp₁ henter
  obtain ⟨hentries, hquestions, hcalls⟩ := hunstarted.entered hw₁ htolerates₁ henter
  -- since then it draws on its list
  obtain ⟨hpinned', hreturned⟩ := hpinned.course hw₂ hcourse₂
  have hpaid := hpinned.tally hw₂ hcourse₂
  have hpayVisits := hpaid.visits
  have hpayAsks := hpaid.asks
  have hpayDrives := hpaid.drives
  have hlen := hpinned'.claims_initial.length_le
  simp only [hentries, hquestions, hcalls, List.length_nil, Nat.sub_zero,
    blockSize] at hpayVisits hpayAsks hpayDrives
  refine ⟨q, s, hq, hs, ?_, ?_, ?_, by omega, ?_, fun step caller => hpinned'.not_endless
    (hcourse₂.sound hw₂)⟩
  · have hall : claims p (between ++ first :: later) = claims p later := by
      simp only [claims, List.filterMap_append, List.filterMap_cons, hclaim] at hclaims ⊢
      rw [hclaims, List.nil_append]
    rw [hall]
    simpa using hlen
  · rw [List.countP_append, List.countP_cons, hvisits, hvisit]
    simp only [Bool.false_eq_true, ↓reduceIte]
    omega
  · rw [List.countP_append, List.countP_cons, hasks, hask]
    simp only [Bool.false_eq_true, ↓reduceIte]
    omega
  · intro hreturns q' hq' method
    obtain ⟨s', rest, hs', -, hL, hcursor, -⟩ := hpinned'.alive q' hq'
    have hrest : rest = [] := by
      rw [hreturned hreturns] at hL
      simpa using hL.symm
    rw [hrest] at hcursor
    exact (hcourse₂.sound hw₂).iterate_of_exhausted hq' hcursor method

/-- **Iterations end**, in every course and whatever the visitors do. -/
theorem iterations_end (h : Course {} steps w) : IterationsEnd steps w where
  finishes := by
    intro σ v s p q method hq hoffers hv
    obtain ⟨w', more, hp, hact, hiterated⟩ := iterate_course (h.sound .init) hv hq hoffers
    refine ⟨_, (run_act hp hact).1.course.append hiterated.course, hiterated.calls, ?_⟩
    exact hiterated.ending.imp_left And.left
  limited := by
    rintro p before between later start first rfl
    exact h.limited
  walks := by
    intro id s hs
    have hsound := ((h.sound .init).storages id s hs).2
    have hcount := (h.balanced hs).blocks
    exact ⟨hsound.delete_walk hcount, hsound.dispose_walk hcount⟩

/-- A safepoint pass over a block with two entries.  The visitor of the first releases the second,
asks for empty blocks to be deleted, which removes none, allocates again, and iterates the pass once
more. -/
theorem iterations_end_of_busy_visitor :
    let events : List Event := [.create {}, .allocate 1, .allocate 1, .beginPass 1 false .writable,
      .enter 1 .every, .advance, .advance, .release 1 2]
    let later : List Event := [.allocate 1, .enter 1 .every, .advance, .advance, .advance]
    let sweep : Step := ⟨({} : World).afterAll events, .delete 1 true⟩
    let steps := ({} : World).trail events ++ [sweep] ++ sweep.after.trail later
    (¬ sweep.before.Permits sweep.event ∧ (steps.map (·.reply)).drop 8 =
      [.deleted 0, .allocated (some 3), .done, .progressed 1 .finished,
        .progressed 1 (.visiting ⟨1, ⟨1, 1⟩, .writable⟩), .progressed 1 .finished]) ∧
    IterationsEnd steps (sweep.after.afterAll later) := by
  intro events later sweep steps
  have hnone : ((({} : World).afterAll events).perform (.delete 1 true)).2 = .deleted 0 := by
    decide +kernel
  have htolerates : (({} : World).afterAll events).Tolerates (.delete 1 true) :=
    .inr ⟨1, rfl, hnone⟩
  have hbefore : ({} : World).PermitsAll events := by decide +kernel
  have hafter : sweep.after.PermitsAll later := by decide +kernel
  exact ⟨by decide +kernel, iterations_end (course_trail_split hbefore htolerates hafter)⟩

end World

end RootStore
