import RootStore.Proofs.Handle.Stranded
import RootStore.Proofs.Handle.Unnamed
import RootStore.Proofs.World.Attempt

/-!
# Operations that are refused

An allocation is refused at the limit or for want of memory, a concurrent pass over a storage that
is flagged, and the use of a handle on a storage that did not issue it.  Whatever else there is, a
refused operation leaves it as it was, although it is carried out step by step and what it has done
by then stays done.  The one exception is a release: it has been handed the handle.  Nothing but the
handle itself shows that, and yet it matters, since the entry that the handle stands for is now in
use for good.

* `Reply.cause?`, `Reply.Refuses` — the answer to an operation that was refused.
* `World.Loss` — **what a refused release leaves behind.**
* `World.Refusals`, `World.refusals` — **what is said of refused operations.**
-/

namespace RootStore

/-- What an operation panicked about. -/
def Reply.cause? : Reply → Option Panic
  | .panicked cause | .failed (.panic cause) => some cause
  | _ => none

/-- The limit forbade an entry, or the operation panicked. -/
def Reply.Refuses (r : Reply) : Prop := r = .allocated none ∨ r.cause?.isSome = true

instance (r : Reply) : Decidable r.Refuses :=
  inferInstanceAs (Decidable (r = .allocated none ∨ r.cause?.isSome = true))

namespace World

variable {w w' : World} {e : Event} {r : Reply} {id number : Nat} {s : Storage} {h : Handle}
  {before : List Step} {cause : Panic}

/-! ## What is refused -/

/-- A concurrent pass is refused over a storage that is flagged. -/
theorem beginPass_panics {access : Access} :
    (w.perform (.beginPass id true access)).2.cause? = some cause ↔
      ∃ s, w.storages.get? id = some s ∧ s.iterating = true ∧ cause = .iterationActive s.name := by
  rcases hs : w.storages.get? id with _ | s
  · have hnone : w.perform (.beginPass id true access) = (w, .failed .noStorage) := by
      simp [perform, act, World.beginPass, storage_of_none hs, bind, Except.bind, Except.map]
    simp [hnone, Reply.cause?]
  · cases hflag : s.iterating with
    | true =>
        simp only [refused_of_flagged access hs hflag, Reply.cause?, Option.some.injEq,
          exists_eq_left', hflag, true_and]
        exact eq_comm
    | false => simp [begins_of_clear access hs hflag, Reply.cause?, hflag]

/-- The handle is held, the storage is there, and it did not issue the handle. -/
structure Foreign (w : World) (id number : Nat) (h : Handle) (s : Storage) : Prop where
  /-- The handle has not been given back. -/
  held : w.handles.get? number = some { handle := h }
  /-- The storage has not been dropped. -/
  there : w.storages.get? id = some s
  /-- Another storage issued the handle. -/
  foreign : h.owner ≠ id

/-- The use of a handle on a storage that did not issue it panics. -/
theorem Sound.cause_of_foreign (hw : w.Sound) (hforeign : w.Foreign id number h s)
    (he : e.Uses id number) : (w.perform e).2.cause? = some (.foreignHandle h id s.name) := by
  obtain ⟨hh, hs, hne⟩ := hforeign
  have howned : w.owned id number = .error (.panic (.foreignHandle h id s.name)) := by
    simp [owned, handle_of_held hh, storage_of_some hs, (hw.storages id s hs).1, hne, bind,
      Except.bind, throw, throwThe, MonadExceptOf.throw]
  cases e with
  | release k m =>
      obtain ⟨rfl, rfl⟩ := he
      rw [hw.perform_lost hs hh hne]
      rfl
  | get k m =>
      obtain ⟨rfl, rfl⟩ := he
      simp only [perform, act, World.get, howned, bind, Except.bind, Except.map, Reply.cause?]
  | set k m v =>
      obtain ⟨rfl, rfl⟩ := he
      simp only [perform, act, World.set, howned, bind, Except.bind, Except.map, Reply.cause?]
  | _ => cases he

/-- Without the handle or the storage nothing takes place. -/
theorem perform_of_error {why : Failure} (he : e.Uses id number)
    (hwhy : (do let _ ← w.handle number; w.storage id) = .error why) :
    w.perform e = (w, .failed why) := by
  simp only [bind, Except.bind] at hwhy
  rcases hh : w.handle number with f | h <;> simp only [hh] at hwhy
  · cases e with
    | release | get | set =>
        obtain ⟨rfl, rfl⟩ := he
        cases hwhy
        simp only [perform, act, World.release, World.get, World.set, owned, hh, bind, Except.bind,
          Except.map]
    | _ => cases he
  · cases e with
    | release | get | set =>
        obtain ⟨rfl, rfl⟩ := he
        simp only [perform, act, World.release, World.get, World.set, owned, hh, hwhy, bind,
          Except.bind, Except.map]
    | _ => cases he

/-- On the storage that issued it the use of a handle does not panic. -/
theorem Sound.cause_of_owner (hw : w.Sound) (hh : w.handles.get? number = some { handle := h })
    (hs : w.storages.get? h.owner = some s) (he : e.Uses h.owner number) :
    (w.perform e).2.cause? = none := by
  have howned : w.owned h.owner number = .ok (s, h) := by
    simp [owned, handle_of_held hh, storage_of_some hs, (hw.storages _ s hs).1, bind,
      Except.bind, pure, Except.pure]
  cases e with
  | release k m =>
      obtain ⟨rfl, rfl⟩ := he
      obtain ⟨s', -, -, -, -, hperform⟩ := hw.perform_released hs hh
      rw [hperform]
      rfl
  | get k m =>
      obtain ⟨rfl, rfl⟩ := he
      simp only [perform, act, World.get, howned, bind, Except.bind]
      rcases s.load h.place with f | v <;> rfl
  | set k m v =>
      obtain ⟨rfl, rfl⟩ := he
      simp only [perform, act, World.set, howned, bind, Except.bind]
      rcases s.store h.place v with f | s' <;> rfl
  | _ => cases he

/-- **The use of a handle panics exactly on a storage that did not issue it**, whether or not the
one that did is still there. -/
theorem Sound.use_panics (hw : w.Sound) (he : e.Uses id number) :
    (w.perform e).2.cause? = some cause ↔
      ∃ h s, w.Foreign id number h s ∧ cause = .foreignHandle h id s.name := by
  constructor
  · intro hcause
    rcases handle_cases w number with ⟨h, hh⟩ | hnone
    swap
    · have hgone : (do let _ ← w.handle number; w.storage id) = .error .noHandle := by
        simp only [hnone, bind, Except.bind]
      rw [perform_of_error he hgone] at hcause
      cases hcause
    rcases hs : w.storages.get? id with _ | s
    · have hnone : (do let _ ← w.handle number; w.storage id) = .error .noStorage := by
        simp only [handle_of_held hh, storage_of_none hs, bind, Except.bind]
      rw [perform_of_error he hnone] at hcause
      cases hcause
    by_cases howner : h.owner = id
    · subst howner
      rw [hw.cause_of_owner hh hs he] at hcause
      cases hcause
    · have hforeign : w.Foreign id number h s := ⟨hh, hs, howner⟩
      rw [hw.cause_of_foreign hforeign he] at hcause
      exact ⟨h, s, hforeign, (Option.some.inj hcause).symm⟩
  · rintro ⟨h, s, hforeign, rfl⟩
    exact hw.cause_of_foreign hforeign he

/-! ## What is left as it was -/

/-- Only allocations and releases take place and are refused all the same. -/
theorem refuses_of_act (hact : w.act e = .ok (w', r)) (hr : r.Refuses) :
    (∃ id, e = .allocate id) ∨ ∃ id number, e = .release id number := by
  cases e with
  | allocate id => exact Or.inl ⟨id, rfl⟩
  | release id number => exact Or.inr ⟨id, number, rfl⟩
  | create settings =>
      cases hact
      simp [Reply.Refuses, Reply.cause?] at hr
  | _ =>
      simp only [act, Except.map] at hact
      split at hact <;> cases hact
      simp [Reply.Refuses, Reply.cause?] at hr

/-- **Whatever is refused leaves everything as it was**, unless it is a release. -/
theorem Sound.kept_of_refused (hw : w.Sound) (he : ∀ id number, e ≠ .release id number)
    (hrefuses : (w.perform e).2.Refuses) : (w.perform e).1 = w := by
  rcases hact : w.act e with why | ⟨w', r⟩
  · simp only [perform, hact]
  · have hr : r.Refuses := by simpa only [perform, hact] using hrefuses
    rcases refuses_of_act hact hr with ⟨id, rfl⟩ | ⟨id, number, rfl⟩
    swap
    · exact absurd rfl (he id number)
    have ht : Transition w (.allocate id) _ _ := hw.transition trivial
    generalize (w.perform (.allocate id)).1 = w₁ at ht ⊢
    generalize (w.perform (.allocate id)).2 = r₁ at ht hrefuses
    cases ht with
    | failed | refused => rfl
    | granted => simp [Reply.Refuses, Reply.cause?] at hrefuses

/-- So does an allocation for whose block there is no memory. -/
theorem Sound.kept_of_no_memory (hw : w.Sound)
    (hnone : ((Attempt.allocate id false).carryOut w).2 = .ok none) :
    ((Attempt.allocate id false).carryOut w).1 = w := by
  have hcases : (Attempt.allocate id false).carryOut w = (w, .ok none) ∨
      (Attempt.allocate id false).carryOut w = (Attempt.allocate id true).carryOut w :=
    allocate_without_memory
  rcases hcases with hdone | hsame
  · rw [hdone]
  · rw [hsame] at hnone ⊢
    have hperform : w.attempt (.allocate id) = w.perform (.allocate id) := hw.attempt_allocate
    rcases hcarry : (Attempt.allocate id true).carryOut w with ⟨w', r⟩
    rw [hcarry] at hnone
    obtain rfl : r = .ok none := hnone
    simp only [attempt, hcarry, answer] at hperform
    have hkept := hw.kept_of_refused (e := .allocate id) (by simp)
      (by simp [← hperform, Reply.Refuses])
    rwa [← hperform] at hkept

/-! ## What a refused release leaves behind -/

/-- **What a refused release leaves behind.** -/
structure Loss (before : List Step) (w : World) (id number : Nat) (h : Handle) : Prop where
  /-- The handle was held, and another storage had issued it. -/
  foreign : ∃ s, w.Foreign id number h s
  /-- The handle is lost; everything else is as it was. -/
  left : (w.attempt (.release id number)).1 = w.spend number h .lost
  /-- What follows goes as it would have gone, unless it names the handle, -/
  unseen : ∀ events, (∀ e ∈ events, ¬ e.Names number) → Unseen number h .lost w events
  /-- which whoever names it will not find. -/
  gone : ∀ later w', Run (w.attempt (.release id number)).1 later w' → ∀ e k, e.Uses k number →
    w'.perform e = (w', .failed .noHandle)
  /-- The entry that it stood for is stranded. -/
  stranded : ∀ later w', Run (w.attempt (.release id number)).1 later w' →
    Stranded number h (before ++ [⟨w, .release id number⟩]) later
    (w.attempt (.release id number)).1 w'

/-- A release is refused where it panics, and then the handle is lost. -/
theorem Run.loss (hrun : Run {} before w) (hrefuses : (w.perform (.release id number)).2.Refuses) :
    ∃ h, Loss before w id number h := by
  have hw := hrun.sound .init
  obtain ⟨cause, hcause⟩ : ∃ cause, (w.perform (.release id number)).2.cause? = some cause := by
    rcases hrefuses with hnone | hsome
    · have ht : Transition w (.release id number) _ _ := hw.transition trivial
      generalize (w.perform (.release id number)).1 = w₁ at ht
      rw [hnone] at ht
      cases ht
    · exact Option.isSome_iff_exists.1 hsome
  obtain ⟨h, s, hforeign, -⟩ := (hw.use_panics (e := .release id number) ⟨rfl, rfl⟩).1 hcause
  have hperform := hw.perform_lost hforeign.there hforeign.held hforeign.foreign
  have hleft : (w.attempt (.release id number)).1 = w.spend number h .lost := by
    rw [hw.attempt_eq, hperform]
  have hspent : (w.spend number h .lost).handles.get? number =
      some { handle := h, tenure := .lost } :=
    (Registry.get?_set_of_some hforeign.held _ _).trans (if_pos rfl)
  have hstep : Run {} (before ++ [⟨w, .release id number⟩]) (w.spend number h .lost) := by
    have hsnoc := hrun.snoc (.release id number) trivial
    rwa [hperform] at hsnoc
  refine ⟨h, ⟨s, hforeign⟩, hleft, fun events hevents => ?_, fun later w' hlater e k he => ?_,
    fun later w' hlater => ?_⟩
  · exact hw.unseen (Registry.bounds_of_get?_eq_some hforeign.held).2 hevents
  · rw [hleft] at hlater
    have hlost := hlater.tenure_kept (hstep.sound .init) (by simp) hspent
    have hnone : w'.handle number = .error .noHandle := by simp [handle, hlost]
    exact perform_of_error he (by simp only [hnone, bind, Except.bind])
  · rw [hleft] at hlater ⊢
    exact hstep.stranded hspent hlater

/-! ## What is said of refused operations -/

/-- **What is said of refused operations** in a world that some steps have led to. -/
structure Refusals (before : List Step) (w : World) : Prop where
  /-- It makes no difference whether an operation that breaks off keeps what it has done. -/
  attempt_eq : ∀ e, w.attempt e = w.perform e
  /-- A concurrent pass panics exactly over a storage that is flagged. -/
  active : ∀ id access cause, (w.attempt (.beginPass id true access)).2.cause? = some cause ↔
    ∃ s, w.storages.get? id = some s ∧ s.iterating = true ∧ cause = .iterationActive s.name
  /-- The use of a handle panics exactly on a storage that did not issue it. -/
  foreign : ∀ id number cause e, e.Uses id number → ((w.attempt e).2.cause? = some cause ↔
    ∃ h s, w.Foreign id number h s ∧ cause = .foreignHandle h id s.name)
  /-- Whatever is refused leaves everything as it was, unless it is a release. -/
  kept : ∀ e, (∀ id number, e ≠ .release id number) → (w.attempt e).2.Refuses → (w.attempt e).1 = w
  /-- So does an allocation that is refused because there is no memory for a block. -/
  no_memory : ∀ id, ((Attempt.allocate id false).carryOut w).2 = .ok none →
    ((Attempt.allocate id false).carryOut w).1 = w
  /-- A release that is refused loses the handle. -/
  lost : ∀ id number, (w.attempt (.release id number)).2.Refuses → ∃ h, Loss before w id number h

/-- **A refused operation leaves everything intact**, and a refused release all but its handle. -/
theorem refusals (hrun : Run {} before w) : Refusals before w := by
  have hw := hrun.sound .init
  refine ⟨hw.attempt_eq, fun id access cause => ?_, fun id number cause e he => ?_,
    fun e he hrefuses => ?_, fun id hnone => ?_, fun id number hrefuses => ?_⟩
  · rw [hw.attempt_eq]
    exact beginPass_panics
  · rw [hw.attempt_eq]
    exact hw.use_panics he
  · rw [hw.attempt_eq] at hrefuses ⊢
    exact hw.kept_of_refused he hrefuses
  · exact hw.kept_of_no_memory hnone
  · rw [hw.attempt_eq] at hrefuses
    exact hrun.loss hrefuses

/-- Of three storages the first may not have a block, the second is iterated and the third has been
dropped. Everything that can be refused is; the pass then hands out the entry whose handle was
lost. -/
theorem refusals_of_three :
    let events : List Event :=
      [.create { maxBlocks := some 0 }, .create {}, .create {}, .allocate 2, .allocate 3, .drop 3,
        .beginPass 2 true .readOnly]
    let refused : List Event := [.allocate 1, .beginPass 2 true .readOnly, .get 2 2, .set 1 1 none,
      .release 2 2, .release 1 1]
    let later : List Event := [.allocate 2, .enter 1 .every, .advance, .advance]
    let w := ({} : World).afterAll events
    let left := (w.attempt (.release 1 1)).1
    ((∀ e ∈ refused, (w.attempt e).2.Refuses) ∧ left.PermitsAll later ∧
      (left.trail later).getLast?.map Step.reply =
        some (.progressed 1 (.visiting ⟨2, ⟨1, 0⟩, .readOnly⟩))) ∧
    Refusals (({} : World).trail events) w := by
  intro events refused later w left
  exact ⟨by decide +kernel, refusals (run_trail events {} (by decide +kernel))⟩

end World

end RootStore
