import Mathlib

/-!
# Sequences taken apart

Runs grow at their end and are taken apart anywhere; an endless one is looked at through its
beginnings.

* `split_append`, `split_snoc` — where an element stands in a sequence that is put together.
* `finite_of_countP_le`, `countP_le_of_finite` — what happens finitely often in an endless sequence.
-/

namespace RootStore

variable {α : Type}

/-- An element of a concatenation stands in its first or in its second part. -/
theorem split_append {l₁ l₂ m₁ m₂ : List α} {n : α} (h : l₁ ++ l₂ = m₁ ++ n :: m₂) :
    (∃ t, m₁ = l₁ ++ t ∧ l₂ = t ++ n :: m₂) ∨ ∃ t, l₁ = m₁ ++ n :: t ∧ m₂ = t ++ l₂ := by
  rw [List.append_eq_append_iff] at h
  rcases h with ⟨t, hm, hl⟩ | ⟨t, hl, ht⟩
  · exact Or.inl ⟨t, hm, hl⟩
  · cases t with
    | nil => exact Or.inl ⟨[], by simpa using hl.symm, by simpa using ht.symm⟩
    | cons x t =>
        obtain ⟨rfl, rfl⟩ := List.cons.inj ht
        exact Or.inr ⟨t, hl, rfl⟩

/-- An element of a sequence that has grown by one is the new one or stood there before. -/
theorem split_snoc {l before after : List α} {last n : α} (h : l ++ [last] = before ++ n :: after) :
    (after = [] ∧ before = l ∧ n = last) ∨ ∃ t, l = before ++ n :: t ∧ after = t ++ [last] := by
  rcases split_append h with ⟨t, rfl, hlast⟩ | hold
  · cases t with
    | nil =>
        obtain ⟨rfl, rfl⟩ := List.cons.inj hlast
        exact Or.inl ⟨rfl, List.append_nil l, rfl⟩
    | cons x t => simp at hlast
  · exact Or.inr hold

/-! ## Endless sequences -/

theorem countP_range (f : Nat → Bool) (n : Nat) :
    (List.range n).countP f = Nat.count (fun m => f m = true) n := by
  induction n with
  | zero => rfl
  | succ n ih =>
      rw [List.range_succ, List.countP_append, ih, Nat.count_succ]
      cases hf : f n <;> simp [hf]

/-- What is bounded in every beginning of a sequence is finite. -/
theorem finite_of_countP_le {f : Nat → Bool} {bound : Nat}
    (h : ∀ n, (List.range n).countP f ≤ bound) : {n | f n = true}.Finite := by
  by_contra hinfinite
  have hmany := Nat.count_nth_of_infinite hinfinite (bound + 1)
  have hle := h (Nat.nth (fun m => f m = true) (bound + 1))
  rw [countP_range, hmany] at hle
  omega

/-- What is finite is bounded in every beginning of a sequence. -/
theorem countP_le_of_finite {f : Nat → Bool} (h : {n | f n = true}.Finite) (n : Nat) :
    (List.range n).countP f ≤ h.toFinset.card := by
  rw [countP_range, Nat.count_eq_card_filter_range]
  refine Finset.card_le_card fun m hm => ?_
  rw [Set.Finite.mem_toFinset]
  exact (Finset.mem_filter.1 hm).2

end RootStore
