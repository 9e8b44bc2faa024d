import RootStore.Proofs.World.Transition

/-!
# What single operations come to

The world that an operation of a mutator leaves, and its answer, given what the operation comes to
in its storage.

* `World.Sound.perform_granted`, `World.perform_refused` — allocations.
* `World.Sound.perform_released`, `World.Sound.perform_lost` — releases.
* `World.perform_delete` — deletions.
-/

namespace RootStore

namespace World

variable {w : World} {id number : Nat} {s : Storage} {p : Place} {h : Handle}

/-- An allocation that is granted issues the next handle. -/
theorem Sound.perform_granted {s' : Storage} {linked : Bool} (hw : w.Sound)
    (hs : w.storages.get? id = some s)
    (halloc : s.allocate = .ok { storage := s', place := some p, linked }) :
    w.perform (.allocate id) = ({ w.setStorage id s' with
      handles := w.handles.add { handle := ⟨id, p⟩ } }.record
        (if linked then [.blockLinked s.name s'.blockCount] else []),
      .allocated (some (w.handles.size + 1))) := by
  simp only [perform, act, World.allocate, storage_of_some hs, halloc, (hw.storages id s hs).1,
    Failure.ofFault, Except.map, bind, Except.bind, pure, Except.pure]
  rfl

/-- One that the limit forbids changes nothing. -/
theorem perform_refused (hs : w.storages.get? id = some s)
    (halloc : s.allocate = .ok { storage := s, place := none, linked := false }) :
    w.perform (.allocate id) = (w, .allocated none) := by
  simp [perform, act, Except.map, World.allocate, storage_of_some hs, halloc, Failure.ofFault, bind,
    Except.bind, pure, Except.pure, World.setStorage, Registry.set_eq_self hs, World.record]

/-- A release to the storage that issued the handle takes its entry out of use. -/
theorem Sound.perform_released (hw : w.Sound) (hs : w.storages.get? id = some s)
    (hheld : w.handles.get? number = some { handle := ⟨id, p⟩ }) : ∃ s', s.InUse p ∧
      s.Written s' p none ∧ (∀ q, s'.InUse q ↔ s.InUse q ∧ q ≠ p) ∧ s.release p = .ok s' ∧
      w.perform (.release id number) =
        ((w.spend number ⟨id, p⟩ .released).setStorage id s', .done) := by
  have hp := hw.inUse number _ s hheld (by simp) hs
  obtain ⟨s', hrelease, hwritten, huse⟩ := (hw.storages id s hs).2.release hp
  refine ⟨s', hp, hwritten, huse, hrelease, ?_⟩
  simp only [perform, act, World.release, handle_of_held hheld, storage_of_some hs,
    (hw.storages id s hs).1, hrelease, ne_eq, not_true_eq_false, if_false, Failure.ofFault,
    Except.map, bind, Except.bind, pure, Except.pure]
  rfl

/-- A release to another storage panics, and the handle is gone. -/
theorem Sound.perform_lost (hw : w.Sound) (hs : w.storages.get? id = some s)
    (hheld : w.handles.get? number = some { handle := h }) (hforeign : h.owner ≠ id) :
    w.perform (.release id number) =
      (w.spend number h .lost, .panicked (.foreignHandle h id s.name)) := by
  simp [perform, act, Except.map, World.release, handle_of_held hheld, storage_of_some hs,
    (hw.storages id s hs).1, hforeign, bind, Except.bind, pure, Except.pure]

/-- What comes of a deletion. -/
theorem perform_delete {yielding : Bool} {d : Deletion} (hs : w.storages.get? id = some s)
    (hdelete : s.deleteEmpty yielding = .ok d) : w.perform (.delete id yielding) =
      ((w.setStorage id d.storage).record (deletionRows s.name d), .deleted d.deleted) := by
  simp only [perform, act, deleteEmpty, storage_of_some hs, hdelete, Failure.ofFault, bind,
    Except.bind, pure, Except.pure, Except.map]

end World

end RootStore
