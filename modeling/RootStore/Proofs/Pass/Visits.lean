import RootStore.Proofs.Storage.Places
import RootStore.Proofs.World.Transition
import RootStore.World.Iteration

/-!
# What an iteration calls

What an iteration does shows in the calls that it makes: which objects it asks its judge about, and
which entries it hands to its visitor, holding what.  Any visitor can note this down, and does apart
from that what it does without notes.

* `Visitor.Confined`, `Visitor.Silent` — visitors that write no more than the entry in their hand,
  or nothing.
* `Visitor.writing` — such a visitor, given by a function.
* `Visitor.noting` — **a visitor that notes down what it is called with.**
* `World.iterate_noting` — an iteration does with it what it does without it.
-/

namespace RootStore

variable {σ : Type}

/-! ## Visitors -/

/-- A visitor that judges objects by a predicate alone, without touching the world, and that writes
at most the entry in its hand and does not panic.  What it does may depend on all that it sees and
on its state. -/
structure Visitor.Confined (v : Visitor σ) (alive : Reference → Bool) : Prop where
  /-- The verdict on an object is that of the predicate. -/
  judge : ∀ (object : Reference) (w : World) (st : σ),
    (v.judge object w st).1 = w ∧ (v.judge object w st).2.2 = .ok (alive object)
  /-- An entry that can be read may be written, and nothing else is. -/
  visit : ∀ (e : Entry) (w : World) (st : σ) (found : Option Reference), w.load e = .ok found →
    (∃ left, w.store e left = .ok (v.visit e w st).1) ∧ (v.visit e w st).2.2 = none

/-- A visitor that does not even write the entry in its hand. -/
def Visitor.Silent (v : Visitor σ) : Prop :=
  ∀ (e : Entry) (w : World) (st : σ), (v.visit e w st).1 = w

/-- An entry that can be read can be written. -/
theorem World.store_ok_of_load {w : World} {e : Entry} {found : Option Reference}
    (h : w.load e = .ok found) (left : Option Reference) : ∃ w', w.store e left = .ok w' := by
  rcases hs : w.storages.get? e.storage with _ | s
  · simp [World.load, storage_of_none hs, bind, Except.bind] at h
  rcases hload : s.load e.place with f | found'
  · simp [World.load, storage_of_some hs, hload, Failure.ofFault, bind, Except.bind] at h
  obtain ⟨b, hb, -⟩ := Storage.load_eq_ok_iff.1 hload
  simp [World.store, storage_of_some hs, Storage.store, Storage.updateBlock_eq hb,
    Failure.ofFault, bind, Except.bind, pure, Except.pure]

/-- The visitor that writes what a function says, given what the entry holds and the state. -/
def Visitor.writing (alive : Reference → Bool) (f : Option Reference → σ → Option Reference × σ) :
    Visitor σ where
  visit := fun e w st =>
    match w.load e with
    | .error _ => (w, st, none)
    | .ok found =>
        match w.store e (f found st).1 with
        | .error _ => (w, st, none)
        | .ok w => (w, (f found st).2, none)
  judge := fun object w st => (w, st, .ok (alive object))

theorem Visitor.confined_writing (alive : Reference → Bool)
    (f : Option Reference → σ → Option Reference × σ) : (writing alive f).Confined alive where
  judge := fun _ _ _ => ⟨rfl, rfl⟩
  visit := fun e w st found hload => by
    obtain ⟨w', hstore⟩ := w.store_ok_of_load hload (f found st).1
    simp only [writing, hload, hstore, and_true]
    exact ⟨_, hstore⟩

/-! ## Notes -/

/-- One call of a visitor. -/
structure Visit where
  /-- The entry that it was handed. -/
  entry : Entry
  /-- What the entry held then. -/
  found : Option Reference
  /-- What it held when the visitor returned. -/
  left : Option Reference

/-- What was called in the course of an iteration. -/
structure Notes where
  /-- The objects that were judged, in order. -/
  asked : List Reference := []
  /-- The calls of the visitor, in order. -/
  visits : List Visit := []

/-- The object that an entry holds, if it does not hold null. -/
def World.object? (w : World) (e : Entry) : Option Reference := (w.load e).toOption.join

/-- **A visitor that notes down what it is called with** and leaves everything else to `v`. -/
def Visitor.noting (v : Visitor σ) : Visitor (σ × Notes) where
  visit := fun e w (st, notes) =>
    match v.visit e w st with
    | (w', st, panic) =>
        (w', (st, { notes with visits := notes.visits ++ [⟨e, w.object? e, w'.object? e⟩] }), panic)
  judge := fun object w (st, notes) =>
    match v.judge object w st with
    | (w, st, verdict) => (w, (st, { notes with asked := notes.asked ++ [object] }), verdict)

theorem Visitor.visit_noting {v : Visitor σ} {e : Entry} {w w' : World} {st st' : σ}
    {panic : Option String} (h : v.visit e w st = (w', st', panic)) (notes : Notes) :
    v.noting.visit e w (st, notes) = (w', (st', { notes with
      visits := notes.visits ++ [⟨e, w.object? e, w'.object? e⟩] }), panic) := by
  simp only [noting, h]

theorem Visitor.judge_noting {v : Visitor σ} {object : Reference} {w w' : World} {st st' : σ}
    {verdict : Except String Bool} (h : v.judge object w st = (w', st', verdict)) (notes : Notes) :
    v.noting.judge object w (st, notes) =
      (w', (st', { notes with asked := notes.asked ++ [object] }), verdict) := by
  simp only [noting, h]

namespace World

variable {v : Visitor σ}

/-- What an iteration has come to, apart from the notes. -/
def withoutNotes (outcome : World × (σ × Notes) × Ending) : World × σ × Ending :=
  (outcome.1, outcome.2.1.1, outcome.2.2)

theorem unwind_noting (w : World) (st : σ) (notes : Notes) (text : String) :
    withoutNotes (w.unwind (st, notes) text) = w.unwind st text := by
  unfold unwind
  cases w.leave <;> rfl

/-- **Noting changes nothing** of what a loop comes to. -/
theorem run_noting (turns : Nat) (w : World) (st : σ) (notes : Notes) :
    withoutNotes (World.run v.noting turns w (st, notes)) = World.run v turns w st := by
  induction turns generalizing w st notes with
  | zero => rfl
  | succ turns ih =>
      simp only [World.run]
      rcases hadvance : w.advance with f | ⟨w₁, progress⟩
      · rfl
      cases progress with
      | finished => rfl
      | claimed n | passedOver e | cleared e => exact ih w₁ st notes
      | visiting e =>
          rcases hvisit : v.visit e w₁ st with ⟨w₂, st₂, _ | text⟩
          · simpa only [Visitor.visit_noting hvisit, hvisit] using ih _ _ _
          · simpa only [Visitor.visit_noting hvisit, hvisit] using unwind_noting _ _ _ _
      | asking e object =>
          rcases hjudge : v.judge object w₁ st with ⟨w₂, st₂, text | verdict⟩
          · simpa only [Visitor.judge_noting hjudge, hjudge] using unwind_noting _ _ _ _
          simp only [Visitor.judge_noting hjudge, hjudge]
          rcases hverdict : w₂.judge verdict with f | ⟨w₃, progress⟩
          · rfl
          cases progress with
          | finished | claimed n | passedOver e | cleared e | asking e object => exact ih _ _ _
          | visiting e =>
              rcases hvisit : v.visit e w₃ st₂ with ⟨w₄, st₄, _ | text⟩
              · simpa only [Visitor.visit_noting hvisit, hvisit] using ih _ _ _
              · simpa only [Visitor.visit_noting hvisit, hvisit] using unwind_noting _ _ _ _

/-- So it changes nothing of what an iteration comes to. -/
theorem iterate_noting (w : World) (id : Nat) (method : Method) (st : σ) (notes : Notes) :
    withoutNotes (w.iterate id method v.noting (st, notes)) = w.iterate id method v st := by
  simp only [iterate]
  rcases w.enter id method with f | w₁
  · rfl
  · exact run_noting _ _ _ _

end World

end RootStore
