import RootStore.World.Collector

/-!
# Iterating with a visitor

A visitor is handed entries one after the other.  Between two entries it may do anything to the
world: use the storage, begin and end passes, or iterate the same pass again.  It may panic, which
leaves the iteration there and then; the pass goes on with the next unclaimed block.

* `Visitor` — what is done with an entry, and how an object is judged.
* `World.run` — the iteration under way, to its end, in at most so many steps.
* `World.iterate` — a whole iteration of a pass.
-/

namespace RootStore

/-- What an iteration calls: `visit` for an entry, `judge` for an object that may be dead.  Both see
the world as it is and carry a state of their own; both may panic with a text. -/
structure Visitor (σ : Type) where
  /-- Called with an entry; `some` text is a panic. -/
  visit : Entry → World → σ → World × σ × Option String
  /-- Called with an object; `.error` is a panic. -/
  judge : Reference → World → σ → World × σ × Except String Bool

/-- How an iteration ended. -/
inductive Ending where
  /-- No block was left. -/
  | returned
  /-- The visitor panicked. -/
  | panicked (text : String)
  /-- A step could not be taken. -/
  | failed (why : Failure)

namespace World

variable {σ : Type}

/-- Leaves the innermost iteration on account of a panic. -/
def unwind (w : World) (s : σ) (text : String) : World × σ × Ending :=
  match w.leave with
  | .ok w => (w, s, .panicked text)
  | .error f => (w, s, .failed f)

/-- Runs the innermost iteration in at most so many steps. -/
def run (v : Visitor σ) : Nat → World → σ → World × σ × Ending
  | 0, w, s => (w, s, .failed (.fault .endlessWalk))
  | steps + 1, w, s =>
      match w.advance with
      | .error f => (w, s, .failed f)
      | .ok (w, .finished) => (w, s, .returned)
      | .ok (w, .visiting e) =>
          match v.visit e w s with
          | (w, s, none) => run v steps w s
          | (w, s, some text) => w.unwind s text
      | .ok (w, .asking _ object) =>
          match v.judge object w s with
          | (w, s, .error text) => w.unwind s text
          | (w, s, .ok verdict) =>
              match w.judge verdict with
              | .error f => (w, s, .failed f)
              | .ok (w, .visiting e) =>
                  match v.visit e w s with
                  | (w, s, none) => run v steps w s
                  | (w, s, some text) => w.unwind s text
              | .ok (w, _) => run v steps w s
      | .ok (w, _) => run v steps w s

/-- A bound on the steps an iteration of the pass can take from here on: one for each block that is
there and each of its slots, and one to find that none is left. -/
def stepBound (w : World) (id : Nat) : Nat :=
  match (w.passes.get? id).bind fun p => w.storages.get? p.storage with
  | some s => (blockSize + 1) * s.blocks.size + 1
  | none => 0

/-- Iterates a pass with a visitor until no block is left or the visitor panics. -/
def iterate (w : World) (id : Nat) (method : Method) (v : Visitor σ) (s : σ) : World × σ × Ending :=
  let steps := w.stepBound id
  match w.enter id method with
  | .error f => (w, s, .failed f)
  | .ok w => run v steps w s

end World

end RootStore
