import RootStore.Proofs.World.Change
import RootStore.Proofs.World.Transition

/-!
# What does not name a handle

What has become of a handle can be learned from its use alone: whatever is done without it is
answered as it would be, and leaves what it would leave, if the handle had been given back or had
not.

* `Event.Uses`, `Event.Names` — the use of a handle.
* `World.perform_spend` — **what has become of a handle makes no difference to what does not name
  it.**
* `World.Unseen`, `World.Sound.unseen` — nor does it to what follows, event after event.
-/

namespace RootStore

/-- The event uses the handle with this number on this storage. -/
def Event.Uses (id number : Nat) : Event → Prop
  | .release k m | .get k m | .set k m _ => k = id ∧ m = number
  | .create _ | .drop _ | .allocate _ | .delete _ _ | .beginPass _ _ _ | .endPass _ | .forgetPass _
  | .enter _ _ | .advance | .judge _ | .panic | .load _ | .store _ _ | .exchange _ _ _ => False

/-- The event uses the handle with this number, on whatever storage. -/
def Event.Names (number : Nat) (e : Event) : Prop := ∃ id, e.Uses id number

namespace World

variable {w : World} {e : Event} {number : Nat} {h : Handle} {tenure : Tenure}

/-! ## One event in a world with a handle given back -/

/-- A handle is given back. -/
def spent (number : Nat) (h : Handle) (tenure : Tenure) : Change where
  handles := fun handles => handles.set number { handle := h, tenure }

theorem spend_eq : w.spend number h tenure = (spent number h tenure).apply w := by
  symm
  exact Change.apply_eq rfl rfl

/-- That a handle is given back is a change that an event does not see which does not name it. -/
theorem respects_spent (he : ¬ e.Names number) (hnumber : number ≤ w.handles.size) :
    (spent number h tenure).Respects w e := by
  have hleaves : (spent number h tenure).LeavesPasses := ⟨rfl, rfl, rfl⟩
  have hother : ∀ {id k : Nat}, e.Uses id k → k ≠ number := by
    rintro id k huses rfl
    exact he ⟨id, huses⟩
  have hsees : ∀ {k : Nat}, k ≠ number → (spent number h tenure).SeesHandle w k := by
    intro k hk
    simp [Change.SeesHandle, spent, Registry.get?_set, hk]
  cases e with
  | create settings => exact fun _ => ⟨rfl, rfl⟩
  | allocate id =>
      exact ⟨fun _ _ => rfl, Registry.size_set _ _ _, fun i => (w.handles.add_set hnumber _ i).symm⟩
  | release id k =>
      have hk := hother ⟨rfl, rfl⟩
      exact ⟨hsees hk, fun i => w.handles.set_comm hk i _⟩
  | get id k | set id k v => exact hsees (hother ⟨rfl, rfl⟩)
  | delete id yielding => exact ⟨fun _ _ => rfl, fun _ _ => rfl⟩
  | beginPass id concurrent access => exact ⟨hleaves, fun _ _ => rfl, fun _ => rfl⟩
  | endPass i => exact ⟨hleaves, fun _ _ _ _ => rfl⟩
  | forgetPass | enter | advance | judge | panic => exact hleaves
  | drop | load | store | exchange => trivial

/-- **What has become of a handle makes no difference to what does not name it.** -/
theorem perform_spend (h : Handle) (tenure : Tenure) (he : ¬ e.Names number)
    (hnumber : number ≤ w.handles.size) : (w.spend number h tenure).perform e =
      ((w.perform e).1.spend number h tenure, (w.perform e).2) := by
  rw [spend_eq, spend_eq, Change.perform_apply (respects_spent he hnumber)]
  rfl

/-- What is permitted does not depend on handles. -/
theorem permits_spend : (w.spend number h tenure).Permits e ↔ w.Permits e := by
  cases e <;> exact Iff.rfl

/-! ## Event after event -/

/-- The number of a handle is not taken back. -/
theorem Transition.handles_size_le {w' : World} {r : Reply} (ht : Transition w e w' r) :
    w.handles.size ≤ w'.handles.size := by
  cases ht with
  | granted => simp [record]
  | released | lost => simp [setStorage, spend]
  | _ => exact Nat.le_refl _

/-- **That a handle has been given back goes unseen** by these events, none of which names it. -/
structure Unseen (number : Nat) (h : Handle) (tenure : Tenure) (w : World) (events : List Event) :
    Prop where
  /-- As much is permitted as otherwise, -/
  permitted : (w.spend number h tenure).PermitsAll events ↔ w.PermitsAll events
  /-- the same is answered, -/
  answered : w.PermitsAll events →
    ((w.spend number h tenure).trail events).map Step.reply = (w.trail events).map Step.reply
  /-- and the same is left, but for the handle. -/
  left : w.PermitsAll events →
    (w.spend number h tenure).afterAll events = (w.afterAll events).spend number h tenure

theorem Sound.unseen {events : List Event} (hw : w.Sound) (hnumber : number ≤ w.handles.size)
    (hevents : ∀ e ∈ events, ¬ e.Names number) : Unseen number h tenure w events := by
  induction events generalizing w with
  | nil => exact ⟨Iff.rfl, fun _ => rfl, fun _ => rfl⟩
  | cons e events ih =>
      have hperform := perform_spend h tenure (hevents e (by simp)) hnumber
      have hrest : w.Permits e → Unseen number h tenure (w.perform e).1 events := by
        intro hp
        have ht := hw.transition hp
        refine ih (ht.sound hw) ?_ fun e' he' => hevents e' (by simp [he'])
        exact hnumber.trans ht.handles_size_le
      refine ⟨?_, fun hp => ?_, fun hp => ?_⟩
      · simp only [PermitsAll, permits_spend, hperform]
        exact and_congr_right fun hp => (hrest hp).permitted
      · simp only [trail, List.map_cons, Step.reply, hperform]
        exact congrArg _ ((hrest hp.1).answered hp.2)
      · simp only [afterAll, hperform]
        exact (hrest hp.1).left hp.2

end World

end RootStore
