import RootStore.Proofs.Storage.Shape
import RootStore.Proofs.World.Effect

/-!
# Which operation an event performs on a storage

Whatever happens to the world, a storage that is there before and after is changed by one of its own
operations, or only its flag and its counters are.  So what is said of the life of a storage need
only be shown of a new storage and of each operation.

* `Storage.Operated` — the operations by which an event changes a storage.
* `World.Transition.operated` — **every event performs one of them on a storage.**
* `Storage.Operated.settings_eq` — none of them changes the settings.
* `World.Run.storage_induction` — what a new storage has and every operation keeps.
* `filter_mem_of_filter` — the order of what is left.
-/

namespace RootStore

/-- What an event does to the storage with an id. -/
inductive Storage.Operated (id : Nat) : Event → Storage → Storage → Prop
  /-- An entry is asked for. -/
  | allocated {s : Storage} {a : Allocation} (h : s.allocate = .ok a) :
      Operated id (.allocate id) s a.storage
  /-- An entry is released. -/
  | released {s s' : Storage} {p : Place} {number : Nat} (h : s.release p = .ok s') :
      Operated id (.release id number) s s'
  /-- A slot is written. -/
  | stored {e : Event} {s s' : Storage} {p : Place} {v : Option Reference}
      (h : s.store p v = .ok s') : Operated id e s s'
  /-- Empty blocks are deleted. -/
  | deleted {s : Storage} {d : Deletion} {yielding : Bool} (h : s.deleteEmpty yielding = .ok d) :
      Operated id (.delete id yielding) s d.storage
  /-- At most the flag and the counters are set. -/
  | marked {e : Event} {s : Storage} (iterating : Bool) (counters : Counters) :
      Operated id e s { s with iterating, counters }

/-- A storage keeps its name and its limit. -/
theorem Storage.Operated.settings_eq {id : Nat} {e : Event} {s s' : Storage}
    (hop : s.Operated id e s') (h : s.Sound) : s'.settings = s.settings := by
  cases hop with
  | allocated halloc =>
      rcases h.allocate with heq | ⟨t, p, linked, heq, hgranted⟩
      · obtain rfl := Except.ok.inj (halloc.symm.trans heq)
        rfl
      · obtain rfl := Except.ok.inj (halloc.symm.trans heq)
        exact hgranted.frame.settings_eq
  | released hrelease =>
      obtain ⟨b, hb, rfl⟩ := Storage.release_inv hrelease
      rfl
  | @stored _ _ _ p v hstore =>
      rcases hb : s.blocks.get? p.block with _ | b
      · simp [Storage.store, Storage.updateBlock, Storage.block, hb, bind, Except.bind] at hstore
      · obtain rfl := Except.ok.inj ((Storage.updateBlock_eq hb _).symm.trans hstore)
        rfl
  | @deleted _ d yielding hdelete =>
      obtain ⟨d', gone, heq, hwithout, -⟩ := h.deleteEmpty yielding
      obtain rfl := Except.ok.inj (heq.symm.trans hdelete)
      exact hwithout.frame.settings_eq
  | marked iterating counters => rfl

namespace World

variable {w w' : World} {e : Event} {r : Reply} {id : Nat} {s s' : Storage} {steps : List Step}

/-- **Every event performs an operation on a storage**, if it does not leave it alone. -/
theorem Transition.operated (ht : Transition w e w' r) (hs : w.storages.get? id = some s)
    (hs' : w'.storages.get? id = some s') : s.Operated id e s' := by
  have hsame : s' = s → s.Operated id e s' := fun heq => by
    subst heq
    exact .marked s'.iterating s'.counters
  cases ht with
  | failed | refused | got | loaded | lost | forgotten | pinned | resumed | offered | claimed
  | finished | upheld | panicked => exact hsame (Option.some.inj (hs'.symm.trans hs))
  | created settings =>
      refine hsame (Option.some.inj (hs'.symm.trans ?_))
      have := (Registry.bounds_of_get?_eq_some hs).2
      rw [World.create, Registry.get?_add, if_neg (by omega), hs]
  | dropped hs₀ =>
      rw [Registry.get?_erase] at hs'
      split at hs'
      · cases hs'
      · exact hsame (Option.some.inj (hs'.symm.trans hs))
  | granted hs₀ halloc =>
      rcases Registry.get?_set_cases hs₀ hs hs' with ⟨rfl, rfl, rfl⟩ | heq
      · exact .allocated halloc
      · exact hsame heq
  | released hh hs₀ hrelease =>
      rcases Registry.get?_set_cases hs₀ hs hs' with ⟨rfl, rfl, rfl⟩ | heq
      · exact .released hrelease
      · exact hsame heq
  | deleted hs₀ hdelete =>
      rcases Registry.get?_set_cases hs₀ hs hs' with ⟨rfl, rfl, rfl⟩ | heq
      · exact .deleted hdelete
      · exact hsame heq
  | written hh hs₀ hstore | cleared hcalls hstage hs₀ hstore | stored hs₀ hstore
  | exchanged hs₀ hload hstore =>
      rcases Registry.get?_set_cases hs₀ hs hs' with ⟨rfl, rfl, rfl⟩ | heq
      · exact .stored hstore
      · exact hsame heq
  | began hs₀ | ended hq hs₀ =>
      rcases Registry.get?_set_cases hs₀ hs hs' with ⟨rfl, rfl, rfl⟩ | heq
      · exact .marked _ _
      · exact hsame heq

/-- A storage was there before the event, which has performed an operation on it, or it is new. -/
theorem Transition.origin (ht : Transition w e w' r) (hs' : w'.storages.get? id = some s') :
    (∃ s, w.storages.get? id = some s ∧ s.Operated id e s') ∨
      ∃ settings, s' = Storage.make id settings := by
  rcases ht.storages.back id s' hs' with ⟨s, hs, -⟩ | ⟨hid, settings, rfl⟩
  · exact Or.inl ⟨s, hs, ht.operated hs hs'⟩
  · exact Or.inr ⟨settings, rfl⟩

/-- **The life of a storage**: what a new storage has and every operation keeps, a storage has at
any moment of a run.  What it has may depend on the steps so far. -/
theorem Run.storage_induction {P : List Step → Storage → Prop} (h : Run {} steps w)
    (hmake : ∀ steps settings, P steps (Storage.make id settings))
    (hstep : ∀ (steps : List Step) (st : Step) (s s' : Storage), Run {} (steps ++ [st]) st.after →
      st.before.storages.get? id = some s → st.after.storages.get? id = some s' → s.Sound →
      s'.Sound → s.Operated id st.event s' → P steps s → P (steps ++ [st]) s')
    (hs : w.storages.get? id = some s) : P steps s := by
  generalize hinit : ({} : World) = w₀ at h
  induction h generalizing s with
  | nil =>
      subst hinit
      simp at hs
  | @snoc w₁ steps e hrun hp ih =>
      subst hinit
      have hw := hrun.sound .init
      have ht := hw.transition hp
      rcases ht.origin hs with ⟨s₁, hs₁, hop⟩ | ⟨settings, rfl⟩
      · exact hstep steps ⟨w₁, e⟩ s₁ s (hrun.snoc e hp) hs₁ hs (hw.storages _ s₁ hs₁).2
          ((ht.sound hw).storages _ s hs).2 hop (ih hs₁)
      · exact hmake _ settings

end World

/-- What is left of a list that stands in some order stands in that order. -/
theorem filter_mem_of_filter {order old now : List Nat} {p : Nat → Bool}
    (hold : old = order.filter (· ∈ old)) (hnow : now = old.filter p) :
    now = order.filter (· ∈ now) := by
  conv_lhs => rw [hnow, hold, List.filter_filter]
  refine List.filter_congr fun n _ => ?_
  rw [hnow]
  simp [and_comm]

end RootStore
