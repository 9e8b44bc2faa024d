import RootStore.Proofs.Pass.Frame
import RootStore.Proofs.World.Change

/-!
# Runs without their passes

Passes that only look leave nothing behind: what mutators are answered while there are such passes,
they are answered as well where there are none.  So all that is done with passes, and by them, can
be taken out of a run.

* `World.unmarked` — the world without its passes and without the marks that they leave.
* `World.perform_unmarked` — **mutators are answered the same in it.**
* `World.unmarked_of_unobtrusive` — passes that only look change nothing else of it.
* `World.Erased`, `World.Run.erased` — **a run without its passes.**
* `World.DisturbsLittle`, `World.iterations_disturb_little` — what iterations disturb, one by one
  and in whole runs.
-/

namespace RootStore

/-- Something that mutators do: all but what is done with passes and by them. -/
def Event.ofMutator : Event → Bool
  | .create _ | .drop _ | .allocate _ | .release _ _ | .get _ _ | .set _ _ _ | .delete _ _ => true
  | .beginPass _ _ _ | .endPass _ | .forgetPass _ | .enter _ _ | .advance | .judge _ | .panic
  | .load _ | .store _ _ | .exchange _ _ _ => false

/-- **What passes that only look come with**: no entry is cleared by a verdict or written by a
visitor, and no deletion asks whether it has to give way. -/
def Event.Unobtrusive : Event → Prop
  | .delete _ yielding => yielding = false
  | .enter _ method => method ≠ .alive
  | .judge _ | .store _ _ | .exchange _ _ _ => False
  | .create _ | .drop _ | .allocate _ | .release _ _ | .get _ _ | .set _ _ _ | .beginPass _ _ _
  | .endPass _ | .forgetPass _ | .advance | .panic | .load _ => True

instance (e : Event) : Decidable e.Unobtrusive :=
  match e with
  | .delete _ yielding => inferInstanceAs (Decidable (yielding = false))
  | .enter _ method => inferInstanceAs (Decidable (method ≠ .alive))
  | .judge _ | .store _ _ | .exchange _ _ _ => .isFalse False.elim
  | .create _ | .drop _ | .allocate _ | .release _ _ | .get _ _ | .set _ _ _ | .beginPass _ _ _
  | .endPass _ | .forgetPass _ | .advance | .panic | .load _ => .isTrue trivial

/-- **The world without its passes**, without their iterations and the marks that they have left,
and without their rows in the trace. -/
def World.unmarked (w : World) : World where
  storages := w.storages.mapEach fun _ s => s.unmarked
  handles := w.handles
  log := w.log.filter Row.ofMutator

namespace World

variable {w w' : World} {e : Event} {r : Reply} {steps : List Step}

/-! ## Mutators in the world without passes -/

/-- The passes are taken away. -/
def unmarking : Change where
  flag := fun _ _ => false
  count := fun _ _ => 0
  passes := fun _ => .empty
  calls := fun _ => []
  log := fun log => log.filter Row.ofMutator

theorem unmarked_eq (w : World) : w.unmarked = unmarking.apply w := rfl

/-- Rows about blocks stay. -/
theorem filter_log_append {rows : List Row} (hrows : ∀ row ∈ rows, row.ofMutator = true) :
    (w.log ++ rows).filter Row.ofMutator = w.log.filter Row.ofMutator ++ rows := by
  apply Array.toList_inj.1
  simp [List.filter_eq_self.2 hrows]

/-- That the passes are taken away is a change that mutators do not see, unless they ask for the
flag. -/
theorem respects_unmarking (he : e.ofMutator = true) (hu : e.Unobtrusive) :
    unmarking.Respects w e := by
  cases e with
  | create settings => exact fun _ => ⟨rfl, rfl⟩
  | drop id => trivial
  | allocate id => exact ⟨fun _ => filter_log_append, rfl, fun _ => rfl⟩
  | release id k => exact ⟨rfl, fun _ => rfl⟩
  | get id k | set id k v => exact Eq.refl (w.handles.get? k)
  | delete id yielding =>
      obtain rfl : yielding = false := hu
      exact ⟨fun _ => filter_log_append, nofun⟩
  | beginPass | endPass | forgetPass | enter | advance | judge | panic | load | store | exchange =>
      cases he

/-- **Mutators are answered without passes as they are with them**, and leave the same but for
these. -/
theorem perform_unmarked (he : e.ofMutator = true) (hu : e.Unobtrusive) :
    w.unmarked.perform e = ((w.perform e).1.unmarked, (w.perform e).2) := by
  rw [unmarked_eq, unmarked_eq, Change.perform_apply (respects_unmarking he hu)]
  rfl

/-- Without passes mutators may do all that they may do beside them. -/
theorem permits_unmarked (he : e.ofMutator = true) (hu : e.Unobtrusive) : w.unmarked.Permits e := by
  have hany : ∀ p : Pass → Bool, w.unmarked.passes.any p = false := fun p => by
    simp [unmarked, Registry.any, Registry.empty]
  cases e with
  | create | allocate | release | get | set => trivial
  | drop id => simp [Permits, mayDrop, hasPass, hany]
  | delete id yielding =>
      obtain rfl : yielding = false := hu
      simp [Permits, mayPurge, hasPass, hany]
  | beginPass | endPass | forgetPass | enter | advance | judge | panic | load | store | exchange =>
      cases he

/-! ## Passes that only look -/

/-- Rows of passes go. -/
theorem unmarked_record (w : World) (rows : List Row)
    (hrows : ∀ row ∈ rows, row.ofMutator = false) : (w.record rows).unmarked = w.unmarked := by
  have hlog : (w.log ++ rows).filter Row.ofMutator = w.log.filter Row.ofMutator := by
    apply Array.toList_inj.1
    simpa using hrows
  simp only [unmarked, record, hlog]

/-- **Passes that only look change nothing** but themselves, their iterations, the marks that they
leave and their rows in the trace. -/
theorem unmarked_of_unobtrusive (ht : Transition w e w' r) (he : e.ofMutator = false)
    (hu : e.Unobtrusive) : w'.unmarked = w.unmarked := by
  have hmarks : ∀ {id : Nat} {s t : Storage}, w.storages.get? id = some s →
      t.unmarked = s.unmarked → (w.setStorage id t).unmarked = w.unmarked := fun hs hsame => by
    simp only [unmarked, setStorage]
    rw [Registry.mapEach_set_of_eq hs hsame]
  cases ht with
  | failed | forgotten | offered | claimed | loaded => rfl
  | @pinned i method q s =>
      have hfirst := unmarked_record w [.entered i] (by simp [Row.ofMutator])
      have hsecond := unmarked_record (w.record [.entered i]) [.iterationStarted i s.head]
        (by simp [Row.ofMutator])
      exact hsecond.trans hfirst
  | @resumed i => exact unmarked_record w [.entered i] (by simp [Row.ofMutator])
  | @finished c | @panicked c => exact unmarked_record w [.left c.pass] (by simp [Row.ofMutator])
  | @began id concurrent access s hs =>
      have hset := hmarks (t := { s with
        iterating := s.iterating || concurrent
        counters := { s.counters with passesStarted := s.counters.passesStarted + 1 } }) hs rfl
      exact (unmarked_record _ [.passBegan (w.passes.size + 1) s.name concurrent]
        (by simp [Row.ofMutator])).trans hset
  | @ended i q s hq hs =>
      have hset := hmarks (t := { s with iterating := s.iterating && !q.concurrent }) hs rfl
      exact (unmarked_record _ [.passEnded i q.claimed, .closed i]
        (by simp [Row.ofMutator])).trans hset
  | created | dropped | refused | granted | released | lost | got | written | deleted => cases he
  | upheld | cleared | stored | exchanged => cases hu

/-! ## Runs without their passes -/

/-- What mutators do in these steps. -/
def mutations (steps : List Step) : List Step := steps.filter (·.event.ofMutator)

/-- **What is left of a run without its passes**: what mutators do in it is done from the beginning
on its own. -/
structure Erased (steps : List Step) (w : World) (alone : List Step) (w' : World) : Prop where
  /-- This is a run. -/
  run : Run {} alone w'
  /-- The same is done in it, with the same answers. -/
  answers : alone.map (fun st => (st.event, st.reply)) =
    (mutations steps).map fun st => (st.event, st.reply)
  /-- It leaves the same storages, but for the marks of passes. -/
  storages : ∀ id, w'.storages.get? id = (w.storages.get? id).map Storage.unmarked
  /-- It leaves the same handles. -/
  handles : w'.handles = w.handles
  /-- Its trace has the same rows about blocks. -/
  log : w'.log = w.log.filter Row.ofMutator
  /-- No pass has ever been begun in it. -/
  passes : w'.passes = .empty

/-- **A run whose passes only look goes the same without them.**  The induction is on the run; what
is left of it ends in the world without passes. -/
theorem Run.erased (h : Run {} steps w) (hall : ∀ st ∈ steps, st.event.Unobtrusive) :
    ∃ alone w', Erased steps w alone w' := by
  suffices hsuff : ∃ alone, Run {} alone w.unmarked ∧
      alone.map (fun st => (st.event, st.reply)) =
        (mutations steps).map fun st => (st.event, st.reply) by
    obtain ⟨alone, hrun, hanswers⟩ := hsuff
    exact ⟨alone, w.unmarked, hrun, hanswers, fun id => by simp [unmarked], rfl, rfl, rfl⟩
  induction h with
  | nil => exact ⟨[], .nil _, rfl⟩
  | @snoc w₁ steps e hrun hp ih =>
      obtain ⟨alone, halone, hanswers⟩ := ih fun st hst => hall st (by simp [hst])
      have hu : e.Unobtrusive := hall ⟨w₁, e⟩ (by simp)
      cases he : e.ofMutator with
      | true =>
          have hperform := perform_unmarked (w := w₁) he hu
          have hnext := halone.snoc e (permits_unmarked he hu)
          rw [hperform] at hnext
          have hkept : mutations (steps ++ [⟨w₁, e⟩]) = mutations steps ++ [⟨w₁, e⟩] := by
            simp [mutations, he]
          have hreply : (Step.mk w₁.unmarked e).reply = (Step.mk w₁ e).reply := by
            simp only [Step.reply, hperform]
          refine ⟨_, hnext, ?_⟩
          rw [hkept, List.map_append, List.map_append, hanswers, List.map_singleton,
            List.map_singleton, hreply]
      | false =>
          have ht := (hrun.sound .init).transition hp
          have hsame := unmarked_of_unobtrusive ht he hu
          have hkept : mutations (steps ++ [⟨w₁, e⟩]) = mutations steps := by simp [mutations, he]
          refine ⟨alone, by rwa [hsame], ?_⟩
          rw [hkept, hanswers]

/-! ## What iterations disturb -/

/-- **What iterations disturb** in a world that a run has led to, and what those in the run have
disturbed. -/
structure DisturbsLittle (steps : List Step) (w : World) : Prop where
  /-- An iteration whose visitor keeps to the entry in its hand leaves all alone but what is written
  there. -/
  contained : ∀ {σ : Type} (v : Visitor σ) (s : σ) (p : Nat) (q : Pass) (method : Method),
    v.Modest → w.passes.get? p = some q → q.offers method = true →
    ∃ own, Contained w p method own (w.iterate p method v s)
  /-- All passes can be left out of the run if they have only looked. -/
  erased : (∀ st ∈ steps, st.event.Unobtrusive) → ∃ alone w', Erased steps w alone w'

end World

end RootStore
