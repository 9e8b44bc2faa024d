import RootStore.Proofs.World.Course
import RootStore.Proofs.World.Effect

/-!
# Pinned passes claim a fixed list

A pass that has been pinned to a list claims the blocks of that list one after the other, whatever
happens in between: its cursor stands before what is left of the list, and the list stays linked
behind whatever is linked later.

* `World.claims` — the blocks that a pass claims in the course of a run.
* `World.Unstarted` — a pass before it is pinned.
* `World.Pinned` — **the invariant**: claimed so far, then still to be claimed, make up the list.
* `World.Pinned.course`, `World.Pinned.run` — the invariant along a course and along a run.
-/

namespace RootStore

/-- The block that the pass has claimed, if that is what is answered. -/
def Reply.claim? (p : Nat) : Reply → Option Nat
  | .progressed i (.claimed n) => if i = p then some n else none
  | _ => none

/-- The step enters an iteration of the pass. -/
def Step.Enters (p : Nat) (st : Step) : Prop :=
  (∃ method, st.event = .enter p method) ∧ st.reply = .done

/-- An iteration of the pass returns in the step, having found no block left. -/
def Step.Returns (p : Nat) (st : Step) : Prop := st.reply = .progressed p .finished

namespace World

variable {w w' : World} {e : Event} {r : Reply} {p k : Nat} {L C : List Nat}
  {steps : List Step}
  {q : Pass} {s : Storage}

/-- The blocks that the pass claims in these steps, in order. -/
def claims (p : Nat) (steps : List Step) : List Nat := steps.filterMap fun st => st.reply.claim? p

theorem claims_snoc (st : Step) :
    claims p (steps ++ [st]) = claims p steps ++ (st.reply.claim? p).toList := by
  unfold claims
  rw [List.filterMap_append]
  cases h : st.reply.claim? p <;> simp [h]

/-- The block that is claimed is told by the answer. -/
theorem claim?_eq_some_iff {n : Nat} : r.claim? p = some n ↔ r = .progressed p (.claimed n) := by
  constructor
  · intro h
    rcases r with _ | _ | _ | _ | _ | _ | ⟨i, progress⟩ | _ | _ | _ <;> try cases h
    cases progress <;> simp [Reply.claim?] at h
    rw [h.1, h.2]
  · rintro rfl
    simp [Reply.claim?]

theorem claim?_eq_none (h : ∀ n, r ≠ .progressed p (.claimed n)) : r.claim? p = none := by
  rcases hr : r.claim? p with _ | n
  · rfl
  · exact absurd (claim?_eq_some_iff.1 hr) (h n)

/-! ## Before the first iteration -/

/-- The pass, if it is alive, has not started. -/
def Unstarted (w : World) (p : Nat) : Prop :=
  p ≤ w.passes.size ∧ ∀ q, w.passes.get? p = some q → q.cursor = .notStarted ∧ q.claimed = 0

/-- No iteration of it is under way. -/
theorem Unstarted.pass_ne {c : Call} (h : w.Unstarted p) (hw : w.Sound) (hc : c ∈ w.calls) :
    c.pass ≠ p := by
  rintro rfl
  obtain ⟨q, s, hq, -, hf⟩ := hw.calls c hc
  exact hf.started (h.2 q hq).1

/-- Nothing but an iteration that is entered starts a pass. -/
theorem Unstarted.step (h : w.Unstarted p) (hw : w.Sound) (ht : Transition w e w' r)
    (henter : ¬ ((∃ method, e = .enter p method) ∧ r = .done)) :
    w'.Unstarted p ∧ r.claim? p = none := by
  have hsize := Nat.le_trans h.1 ht.passes_size_le
  rcases hq : w.passes.get? p with _ | q
  · obtain ⟨hq', hreply⟩ := ht.pass_gone hw hq h.1
    exact ⟨⟨hsize, by simp [hq']⟩, claim?_eq_none fun n => hreply _⟩
  · obtain ⟨hcursor, hclaimed⟩ := h.2 q hq
    cases ht.pass_cases hq with
    | same hq' hclaim =>
        refine ⟨⟨hsize, fun t ht' => ?_⟩, claim?_eq_none hclaim⟩
        rw [← Option.some.inj (hq'.symm.trans ht')]
        exact h.2 q hq
    | gone hq' hreply => exact ⟨⟨hsize, by simp [hq']⟩, claim?_eq_none fun n => hreply _⟩
    | pinned hs hcursor' hq' hevent hreply => exact absurd ⟨hevent, hreply⟩ henter
    | claimed hs hcursor' => simp [hcursor] at hcursor'

/-- A pass stays unstarted, and claims nothing, until an iteration of it is entered. -/
theorem Unstarted.course (h : w.Unstarted p) (hw : w.Sound) (hcourse : Course w steps w')
    (henter : ∀ st ∈ steps, ¬ st.Enters p) : w'.Unstarted p ∧ claims p steps = [] := by
  induction hcourse with
  | nil => exact ⟨h, rfl⟩
  | @snoc w₁ steps e hcourse htolerates ih =>
      obtain ⟨h₁, hclaims⟩ := ih fun st hst => henter st (by simp [hst])
      have hnot : ¬ Step.Enters p ⟨w₁, e⟩ := henter ⟨w₁, e⟩ (by simp)
      have hw₁ := hcourse.sound hw
      obtain ⟨h', hnone⟩ := h₁.step hw₁ (hw₁.transition_of_tolerates htolerates) hnot
      have hnone : (Step.mk w₁ e).reply.claim? p = none := hnone
      exact ⟨h', by rw [claims_snoc, hclaims, hnone]; rfl⟩

theorem Unstarted.run (h : w.Unstarted p) (hw : w.Sound) (hrun : Run w steps w')
    (henter : ∀ st ∈ steps, ¬ st.Enters p) : w'.Unstarted p ∧ claims p steps = [] :=
  h.course hw hrun.course henter

/-! ## From the first iteration on -/

/-- The pass, which had claimed `k` blocks before, stood before the list `L` and has claimed `C`
since. -/
structure Pinned (w : World) (p k : Nat) (L C : List Nat) : Prop where
  /-- The pass was begun. -/
  known : p ≤ w.passes.size
  /-- What was claimed is a first part of the list. -/
  claims_initial : C <+: L
  /-- While the pass is alive, the list is linked, the cursor stands before the rest of it, and the
  count agrees. -/
  alive : ∀ q, w.passes.get? p = some q → ∃ s rest, w.storages.get? q.storage = some s ∧
    L <:+ s.linked ∧ L = C ++ rest ∧ q.cursor = .upcoming rest.head? ∧ q.claimed = k + C.length

/-- **What one event does**: the pass claims the next block of its list or none, and an iteration of
it returns only where none is left. -/
theorem Pinned.step (h : w.Pinned p k L C) (hw : w.Sound) (ht : Transition w e w' r) :
    w'.Pinned p k L (C ++ (r.claim? p).toList) ∧ (r = .progressed p .finished → C = L) := by
  have hsize := Nat.le_trans h.known ht.passes_size_le
  rcases hq : w.passes.get? p with _ | q
  · obtain ⟨hq', hreply⟩ := ht.pass_gone hw hq h.known
    have hnone : r.claim? p = none := claim?_eq_none fun n => hreply _
    refine ⟨⟨hsize, by simpa [hnone] using h.claims_initial, by simp [hq']⟩, fun heq => ?_⟩
    exact absurd heq (hreply _)
  · obtain ⟨s, rest, hs, hsuf, hL, hcursor, hclaimed⟩ := h.alive q hq
    -- the list is still linked where the pass is still there
    have hstay : ∃ s', w'.storages.get? q.storage = some s' ∧ L <:+ s'.linked := by
      have hpass : w.hasPass q.storage = true := hasPass_eq_true_iff.2 ⟨p, q, hq, rfl⟩
      rcases ht.storages.forth _ s hs with ⟨s', hs'⟩ | ⟨-, hnone⟩
      · rcases ht.storages.back _ s' hs' with ⟨t, ht', -, hsuf'⟩ | ⟨hnew, -⟩
        · obtain rfl := Option.some.inj (hs.symm.trans ht')
          exact ⟨s', hs', hsuf.trans (hsuf' hpass)⟩
        · have := (Registry.bounds_of_get?_eq_some hs).2
          omega
      · simp [hpass] at hnone
    obtain ⟨s', hs', hsuf'⟩ := hstay
    cases ht.pass_cases hq with
    | same hq' hclaim hreturn =>
        rw [claim?_eq_none hclaim]
        refine ⟨⟨hsize, by simpa using h.claims_initial, fun t ht' => ?_⟩, fun heq => ?_⟩
        · obtain rfl := Option.some.inj (hq'.symm.trans ht')
          exact ⟨s', rest, hs', hsuf', by simpa using hL, hcursor, by simpa using hclaimed⟩
        · have hend := hreturn heq
          rw [hcursor] at hend
          have hrest : rest = [] := by simpa using hend
          simpa [hrest] using hL.symm
    | gone hq' hreply =>
        rw [claim?_eq_none fun n => hreply _]
        exact ⟨⟨hsize, by simpa using h.claims_initial, by simp [hq']⟩,
          fun heq => absurd heq (hreply _)⟩
    | pinned hs₁ hcursor' => simp [hcursor] at hcursor'
    | @claimed s₁ n b hs₁ hcursor' hb hq' hreply =>
        obtain rfl := Option.some.inj (hs.symm.trans hs₁)
        rw [hcursor'] at hcursor
        obtain ⟨tail, rfl⟩ := List.head?_eq_some_iff.1 (Cursor.upcoming.inj hcursor).symm
        -- the claimed block's older neighbour is the head of what is left
        obtain ⟨l₁, hl⟩ := hsuf
        obtain ⟨b', hb', hnext, -⟩ := (hw.storages _ s hs).2.lists.links (l₁ ++ C) n tail
          (by rw [← hl, hL]; simp)
        obtain rfl := Option.some.inj (hb.symm.trans hb')
        have hone : r.claim? p = some n := claim?_eq_some_iff.2 hreply
        rw [hone]
        refine ⟨⟨hsize, ⟨tail, by simp [hL]⟩, fun t ht' => ?_⟩, fun heq => by simp [hreply] at heq⟩
        obtain rfl := Option.some.inj (hq'.symm.trans ht')
        exact ⟨s', tail, hs', hsuf', by simp [hL], by simp [hnext],
          by simp [hclaimed, Nat.add_assoc]⟩

/-- **Along a course** a pinned pass claims blocks of its list in order, and all of them once an
iteration of it has returned. -/
theorem Pinned.course (h : w.Pinned p k L C) (hw : w.Sound) (hcourse : Course w steps w') :
    w'.Pinned p k L (C ++ claims p steps) ∧
      ((∃ st ∈ steps, st.Returns p) → C ++ claims p steps = L) := by
  induction hcourse with
  | nil => exact ⟨by simpa [claims] using h, by simp⟩
  | @snoc w₁ steps e hcourse htolerates ih =>
      obtain ⟨h₁, hreturned⟩ := ih
      have hw₁ := hcourse.sound hw
      obtain ⟨h', hreturn⟩ := h₁.step hw₁ (hw₁.transition_of_tolerates htolerates)
      have h' : (w₁.perform e).1.Pinned p k L (C ++ claims p (steps ++ [⟨w₁, e⟩])) := by
        rw [claims_snoc, ← List.append_assoc]
        exact h'
      refine ⟨h', ?_⟩
      rintro ⟨st, hst, hret⟩
      have hall : C ++ claims p steps = L := by
        rcases List.mem_append.1 hst with hmem | hlast
        · exact hreturned ⟨st, hmem, hret⟩
        · rw [List.mem_singleton.1 hlast] at hret
          exact hreturn hret
      -- nothing can follow the whole list
      apply h'.claims_initial.eq_of_length_le
      rw [claims_snoc, ← hall]
      simp

/-- So it does along a run. -/
theorem Pinned.run (h : w.Pinned p k L C) (hw : w.Sound) (hrun : Run w steps w') :
    w'.Pinned p k L (C ++ claims p steps) ∧
      ((∃ st ∈ steps, st.Returns p) → C ++ claims p steps = L) :=
  h.course hw hrun.course

/-- The event that starts a pass pins it to the list of its storage. -/
theorem Unstarted.pinned {st : Step} (h : st.before.Unstarted p) (hw : st.before.Sound)
    (hp : st.before.Permits st.event) (henter : st.Enters p) :
    ∃ q s, st.before.passes.get? p = some q ∧ st.before.storages.get? q.storage = some s ∧
      st.after.Pinned p 0 s.linked [] := by
  obtain ⟨⟨method, hevent⟩, hreply⟩ := henter
  have ht := hw.transition hp
  change Transition st.before st.event st.after st.reply at ht
  rw [hevent, hreply] at ht
  have hsize := Nat.le_trans h.1 ht.passes_size_le
  generalize st.after = w' at ht hsize ⊢
  cases ht with
  | @pinned _ _ q s hq hs hcursor =>
      refine ⟨q, s, hq, hs, hsize, ⟨s.linked, rfl⟩, fun t ht' => ?_⟩
      have hget := Registry.get?_set_of_some hq { q with cursor := .upcoming s.head } p
      replace hget := hget.symm.trans ht'
      simp only [if_true, Option.some.injEq] at hget
      subst hget
      exact ⟨s, s.linked, hs, List.suffix_refl _, by simp,
        by rw [(hw.storages _ s hs).2.lists.head_eq], by simpa using (h.2 q hq).2⟩
  | @resumed _ _ q s hq hs hcursor => exact absurd (h.2 q hq).1 hcursor

end World

end RootStore
