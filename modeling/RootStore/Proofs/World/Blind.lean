import RootStore.Proofs.World.Change

/-!
# What is blind to the flags of the storages

A pass that has the mutators stopped sets no flag and asks for none.  So nothing that happens in its
life, from its beginning to its end, would go otherwise if the flags of the storages were others,
and it leaves them as they are.

* `World.withFlags` — the same world with other flags.
* `Event.OfSafepoint` — what happens in the life of a safepoint pass.
* `World.perform_withFlags` — **the flags make no difference to it.**
* `World.iterating_of_safepoint` — and it leaves them as they are.
-/

namespace RootStore

/-- The world with other flags. -/
def World.withFlags (w : World) (flags : Nat → Bool) : World :=
  { w with storages := w.storages.mapEach fun id s => s.withFlag (flags id) }

/-- Is there such a storage, and is it flagged? -/
def World.flag (w : World) (id : Nat) : Bool := (w.storages.get? id).any (·.iterating)

/-- An event in the life of a safepoint pass: its beginning, its end, a step of an iteration, or
what a visitor does with an entry. -/
def Event.OfSafepoint (w : World) : Event → Prop
  | .beginPass _ concurrent _ => concurrent = false
  | .endPass p | .forgetPass p | .enter p _ =>
      ∃ q, w.passes.get? p = some q ∧ q.concurrent = false
  | .advance | .judge _ | .panic =>
      ∃ c q, w.calls.head? = some c ∧ w.passes.get? c.pass = some q ∧ q.concurrent = false
  | .load _ | .store _ _ | .exchange _ _ _ => True
  | .create _ | .drop _ | .allocate _ | .release _ _ | .get _ _ | .set _ _ _ | .delete _ _ => False

namespace World

variable {w : World} {e : Event} {id : Nat}

/-- The same answer, in the world with the flags. -/
def flagging (flags : Nat → Bool) {α : Type} (x : World × α) : World × α :=
  (x.1.withFlags flags, x.2)

/-- Other flags are a change that a safepoint pass does not see. -/
theorem respects_flags (flags : Nat → Bool) (h : e.OfSafepoint w) :
    ({ flag := fun id _ => flags id } : Change).Respects w e := by
  cases e with
  | create | drop | allocate | release | get | set | delete => exact h.elim
  | beginPass i concurrent access =>
      obtain rfl : concurrent = false := h
      exact ⟨⟨rfl, rfl, rfl⟩, nofun, fun _ => rfl⟩
  | endPass i =>
      obtain ⟨q, hq, hmode⟩ := h
      refine ⟨⟨rfl, rfl, rfl⟩, fun q' hq' hconcurrent => ?_⟩
      obtain rfl := Option.some.inj (hq.symm.trans hq')
      simp [hmode] at hconcurrent
  | forgetPass | enter | advance | judge | panic => exact ⟨rfl, rfl, rfl⟩
  | load | store | exchange => trivial

/-- **The flags make no difference to what a safepoint pass does.** -/
theorem perform_withFlags (flags : Nat → Bool) (h : e.OfSafepoint w) :
    (w.withFlags flags).perform e = flagging flags (w.perform e) :=
  Change.perform_apply (respects_flags flags h)

/-- With the flags that it has a world is as it is. -/
theorem withFlags_flag (w : World) : w.withFlags w.flag = w := by
  have hstorages : w.storages.mapEach (fun id s => s.withFlag (w.flag id)) = w.storages := by
    refine Registry.ext_get? (by simp) fun id => ?_
    rw [Registry.get?_mapEach]
    rcases hs : w.storages.get? id with _ | s
    · rfl
    · simp [Storage.withFlag, flag, hs]
  rw [withFlags, hstorages]

/-- A storage is flagged after such an event if it was before. -/
theorem iterating_of_safepoint {s' : Storage} (h : e.OfSafepoint w)
    (hs' : (w.perform e).1.storages.get? id = some s') : s'.iterating = w.flag id := by
  have hsame := perform_withFlags w.flag h
  rw [withFlags_flag] at hsame
  rw [hsame] at hs'
  simp only [flagging, withFlags, Registry.get?_mapEach, Option.map_eq_some_iff] at hs'
  obtain ⟨s, -, rfl⟩ := hs'
  rfl

end World

end RootStore
