import RootStore.Proofs.Storage.Balance

/-!
# How long the walks of deletion and disposal are

Deletion and disposal walk the list by the links of the blocks, while they take blocks out of it.
They are given as many turns as blocks were ever linked.  They need no more of them than the storage
has blocks.

* `Storage.deleteFrom_mono`, `Storage.disposeFrom_mono` — turns to spare change nothing.
* `Storage.Sound.delete_walk`, `Storage.Sound.dispose_walk` — **a turn for each block is enough.**
-/

namespace RootStore

namespace Storage

variable {s s' : Storage}

/-- A deletion that comes to its end does so with turns to spare as well. -/
theorem deleteFrom_mono {yielding : Bool} {d : Deletion} : ∀ {turns turns' k : Nat} {s : Storage}
    {c : Option Nat}, deleteFrom yielding turns s c k = .ok d → turns ≤ turns' →
      deleteFrom yielding turns' s c k = .ok d := by
  intro turns
  induction turns with
  | zero =>
      intro turns' k s c h _
      cases c with
      | none => cases turns' <;> exact h
      | some n => cases h
  | succ turns ih =>
      intro turns' k s c h hle
      obtain ⟨turns', rfl⟩ : ∃ j, turns' = j + 1 := ⟨turns' - 1, by omega⟩
      have hle : turns ≤ turns' := by omega
      cases c with
      | none => exact h
      | some n =>
          rw [deleteFrom] at h ⊢
          rcases hinspect : s.inspect yielding n with f | ⟨s₁, next, finding⟩
          · simp [hinspect, bind, Except.bind] at h
          simp only [hinspect, bind, Except.bind] at h ⊢
          cases finding with
          | occupied => exact ih h hle
          | inhibited => exact h
          | unlinked =>
              rcases hreclaim : s₁.reclaim n with f | s₂
              · simp [hreclaim] at h
              simp only [hreclaim] at h ⊢
              exact ih h hle

/-- A disposal that comes to its end does so with turns to spare as well. -/
theorem disposeFrom_mono : ∀ {turns turns' : Nat} {s : Storage} {c : Option Nat},
    disposeFrom turns s c = .ok s' → turns ≤ turns' → disposeFrom turns' s c = .ok s' := by
  intro turns
  induction turns with
  | zero =>
      intro turns' s c h _
      cases c with
      | none => cases turns' <;> exact h
      | some n => cases h
  | succ turns ih =>
      intro turns' s c h hle
      obtain ⟨turns', rfl⟩ : ∃ j, turns' = j + 1 := ⟨turns' - 1, by omega⟩
      have hle : turns ≤ turns' := by omega
      cases c with
      | none => exact h
      | some n =>
          rw [disposeFrom] at h ⊢
          rcases hblock : s.block n with f | b
          · simp [hblock, bind, Except.bind] at h
          rcases hfree : s.free n with f | s₁
          · simp [hblock, hfree, bind, Except.bind] at h
          simp only [hblock, hfree, bind, Except.bind] at h ⊢
          exact ih h hle

/-- **A deletion needs a turn for each block at most**, and comes in so many turns to what it comes
to. -/
theorem Sound.delete_walk (h : s.Sound) (hcount : s.blockCount = s.linked.length)
    (yielding : Bool) :
    ∃ d, Storage.deleteFrom yielding s.blockCount s s.head 0 = .ok d ∧
      Storage.deleteFrom yielding s.blocks.size s s.head 0 = .ok d := by
  have hwalk : ∃ d, Storage.deleteFrom yielding s.blockCount s s.head 0 = .ok d := by
    rw [hcount, h.lists.head_eq]
    by_cases hflag : (yielding && s.iterating) = true
    · obtain ⟨rfl, hiterating⟩ := Bool.and_eq_true_iff.1 hflag
      exact ⟨_, h.deleteFrom_inhibited hiterating s.linked s.linked.length 0 (List.suffix_refl _)
        (Nat.le_refl _)⟩
    · obtain ⟨s', hrun, -⟩ := Sound.deleteFrom s.linked s.linked.length s 0 h (by simpa using hflag)
        (List.suffix_refl _) (Nat.le_refl _)
      exact ⟨_, hrun⟩
  obtain ⟨d, hd⟩ := hwalk
  have hle : s.blockCount ≤ s.blocks.size := by
    rw [hcount]
    exact h.lists.length_le
  exact ⟨d, hd, deleteFrom_mono hd hle⟩

/-- **A disposal needs a turn for each block at most**, and comes in so many turns to what it comes
to. -/
theorem Sound.dispose_walk (h : s.Sound) (hcount : s.blockCount = s.linked.length) :
    ∃ s', disposeFrom s.blockCount s s.head = .ok s' ∧ s.dispose = .ok s' := by
  have hlinks : ∀ l₁ n l₂, s.linked = l₁ ++ n :: l₂ →
      ∃ b, s.blocks.get? n = some b ∧ b.next = l₂.head? := by
    intro l₁ n l₂ hl
    obtain ⟨b, hb, hnext, -⟩ := h.lists.links l₁ n l₂ hl
    exact ⟨b, hb, hnext⟩
  obtain ⟨s', hrun, -⟩ := disposeFrom_eq s.linked s.blockCount s h.lists.nodup hlinks
    (Nat.le_of_eq hcount.symm)
  rw [← h.lists.head_eq] at hrun
  have hle : s.blockCount ≤ s.blocks.size := by
    rw [hcount]
    exact h.lists.length_le
  exact ⟨s', hrun, disposeFrom_mono hrun hle⟩

end Storage

end RootStore
