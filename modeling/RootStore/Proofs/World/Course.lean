import RootStore.Proofs.World.Transition

/-!
# Courses: deletions that remove nothing

Beside a safepoint pass no deletion is permitted, for it could take blocks away that the pass still
has to do with. One that turns out to remove nothing does no harm, though: it goes the way that
every deletion goes.  What is proved of passes by the ways of single events holds beside such
deletions as well.

* `World.Tolerates`, `World.Course` — runs that may have such deletions in them.
* `World.Sound.transition_of_tolerates` — a tolerated event goes one of the ways that permitted
  events go.
* `World.Run.course`, `World.Course.run` — a run is a course, and a course of permitted events is a
  run.
-/

namespace RootStore

namespace World

variable {w w₁ w' : World} {e : Event} {steps later : List Step}

/-- What is permitted, and a deletion that gives way to concurrent passes but turns out to remove no
block. -/
def Tolerates (w : World) (e : Event) : Prop :=
  w.Permits e ∨ ∃ id, e = .delete id true ∧ (w.perform e).2 = .deleted 0

/-- An event other than a deletion is tolerated only where it is permitted. -/
theorem Tolerates.permits (h : w.Tolerates e) (hne : ∀ id, e ≠ .delete id true) : w.Permits e :=
  h.resolve_right fun ⟨id, he, _⟩ => hne id he

/-- **A tolerated event goes one of the ways that permitted events go.** -/
theorem Sound.transition_of_tolerates (h : w.Sound) (ht : w.Tolerates e) :
    Transition w e (w.perform e).1 (w.perform e).2 := by
  rcases ht with hp | ⟨id, rfl, hreply⟩
  · exact h.transition hp
  refine h.transition_delete_of_kept fun s hs _ => ?_
  obtain ⟨d, gone, hdelete, -, hgone, hcount, -⟩ := (h.storages id s hs).2.deleteEmpty true
  have hnone : d.deleted = 0 := by
    simpa [perform, act, Except.map, World.deleteEmpty, storage_of_some hs, hdelete,
      Failure.ofFault, bind, Except.bind, pure, Except.pure] using hreply
  rw [← hgone]
  exact List.eq_nil_of_length_eq_zero (hcount.symm.trans hnone)

/-- Sequences of tolerated events, each acting on the world that those before it have left. -/
inductive Course : World → List Step → World → Prop
  /-- Nothing happens. -/
  | nil (w : World) : Course w [] w
  /-- One event more. -/
  | snoc {w w₁ : World} {steps : List Step} (e : Event) : Course w steps w₁ → w₁.Tolerates e →
      Course w (steps ++ [⟨w₁, e⟩]) (w₁.perform e).1

namespace Course

/-- Two courses one after the other are one course. -/
theorem append (h : Course w steps w₁) (h' : Course w₁ later w') :
    Course w (steps ++ later) w' := by
  induction h' with
  | nil => simpa using h
  | snoc e _ ht ih => rw [← List.append_assoc]; exact .snoc e ih ht

/-- A course from a sound world ends in a sound world. -/
theorem sound (h : Course w steps w') (hw : w.Sound) : w'.Sound := by
  induction h with
  | nil => exact hw
  | snoc e _ ht ih => exact (ih.transition_of_tolerates ht).sound ih

/-- A course through a step is a course up to it and a course from there on. -/
theorem split {st : Step} (h : Course w (steps ++ st :: later) w') :
    Course w steps st.before ∧ st.before.Tolerates st.event ∧ Course st.after later w' := by
  generalize hall : steps ++ st :: later = all at h
  induction h generalizing later with
  | nil => simp at hall
  | @snoc w₁ all e hcourse ht ih =>
      rcases split_snoc hall.symm with ⟨rfl, rfl, rfl⟩ | ⟨later, rfl, rfl⟩
      · exact ⟨hcourse, ht, .nil _⟩
      · obtain ⟨hbefore, htst, hafter⟩ := ih rfl
        exact ⟨hbefore, htst, .snoc e hafter ht⟩

/-- A course of permitted events is a run. -/
theorem run (h : Course w steps w') (hall : ∀ st ∈ steps, st.before.Permits st.event) :
    Run w steps w' := by
  induction h with
  | nil => exact .nil _
  | @snoc w₁ steps e _ _ ih =>
      exact .snoc e (ih fun st hst => hall st (by simp [hst])) (hall ⟨w₁, e⟩ (by simp))

end Course

/-- Every step of a run was permitted. -/
theorem Run.permits {st : Step} (h : Run w steps w') (hst : st ∈ steps) :
    st.before.Permits st.event := by
  obtain ⟨before, after, rfl⟩ := List.append_of_mem hst
  exact h.split.2.1

/-- A run is a course. -/
theorem Run.course (h : Run w steps w') : Course w steps w' := by
  induction h with
  | nil => exact .nil _
  | snoc e _ hp ih => exact .snoc e ih (.inl hp)

/-- A course through one step, given by events. -/
theorem course_trail_split {before after : List Event} (hbefore : w.PermitsAll before)
    (htolerates : (w.afterAll before).Tolerates e)
    (hafter : (Step.mk (w.afterAll before) e).after.PermitsAll after) :
    let st : Step := ⟨w.afterAll before, e⟩
    Course w (w.trail before ++ [st] ++ st.after.trail after) (st.after.afterAll after) :=
  (Course.snoc e (run_trail before w hbefore).course htolerates).append
    (run_trail after _ hafter).course

end World

end RootStore
