import RootStore.Proofs.World.Transition
import RootStore.World.Iteration

/-!
# Several workers on one pass

A pass can be iterated by several workers at once.  Each has an iteration of its own and takes its
steps when it likes: it claims a block, takes up an entry, or makes one access to the entry that it
has in hand. What is done with an entry is a program of reads, writes and exchanges of that entry
alone, and it may be interrupted by the other workers between any two of them.

A block is claimed in one step here.  The accesses to the cursor that a claim is made of, and why no
two workers claim the same block by them, are taken apart in `RootStore.Proofs.Race.Protocol`.

* `Handler` — what is done with an entry, access by access.
* `Handler.eval`, `Handler.perform` — what comes of it where nobody interrupts.
* `Job` — a method, the verdicts and the handlers: they keep no state and do not panic.
* `Job.visitor` — the job as a visitor, which records what it does.
* `Crew`, `Crew.step`, `Crew.play` — several workers at one job, and their steps in any order.
-/

namespace RootStore

variable {ι ρ : Type}

/-- What is done with an entry: reads, writes and exchanges that may depend on what was found
before, and a result in the end. -/
inductive Handler (ρ : Type) where
  /-- It is done. -/
  | done (result : ρ)
  /-- The entry is read. -/
  | load (next : Option Reference → Handler ρ)
  /-- The entry is written. -/
  | store (v : Option Reference) (next : Handler ρ)
  /-- The entry is compared and exchanged. -/
  | exchange (expected : Reference) (new : Option Reference)
      (next : Except (Option Reference) Reference → Handler ρ)

namespace Handler

/-- What comes of it where nobody else touches the entry: what the entry holds then, and the
result. -/
def eval : Handler ρ → Option Reference → Option Reference × ρ
  | done result, v => (v, result)
  | load next, v => (next v).eval v
  | store v next, _ => next.eval v
  | exchange expected new next, v =>
      (next (RootStore.exchange v expected new).2).eval (RootStore.exchange v expected new).1

/-- All of it at once, on an entry of the world. -/
def perform (e : Entry) : Handler ρ → World → Except Failure (World × ρ)
  | done result, w => .ok (w, result)
  | load next, w => do
      let v ← w.load e
      (next v).perform e w
  | store v next, w => do
      let w ← w.store e v
      next.perform e w
  | exchange expected new next, w => do
      let (w, answer) ← w.exchange e expected new
      (next answer).perform e w

/-- The entry is not written. -/
def ReadsOnly : Handler ρ → Prop
  | done _ => True
  | load next => ∀ v, (next v).ReadsOnly
  | store _ _ | exchange _ _ _ => False

end Handler

/-- What an iteration of a pass is for.  Verdicts depend on the object alone, and what is done with
an entry on the entry and what it holds; it is written only where the pass hands out writable
entries. -/
structure Job (ρ : Type) where
  /-- The id of the pass. -/
  pass : Nat
  /-- Which entries are handed out. -/
  method : Method
  /-- Is the object alive? -/
  alive : Reference → Bool
  /-- What is done with an entry. -/
  handle : Entry → Handler ρ
  /-- Entries that may not be written are not written. -/
  reads : ∀ e, e.access = .readOnly → (handle e).ReadsOnly

/-- What was done in an iteration, in order. -/
structure Log (ρ : Type) where
  /-- The entries visited, with what came of it. -/
  visits : List (Place × ρ) := []
  /-- The objects asked about. -/
  asked : List Reference := []

/-- The job as a visitor. -/
def Job.visitor (job : Job ρ) : Visitor (Log ρ) where
  visit e w log := match (job.handle e).perform e w with
    | .ok (w, result) => (w, { log with visits := log.visits ++ [(e.place, result)] }, none)
    | .error _ => (w, log, some "the entry is gone")
  judge object w log := (w, { log with asked := log.asked ++ [object] }, .ok (job.alive object))

/-! ## Workers -/

/-- Where a worker is. -/
inductive Crew.Worker (ρ : Type) where
  /-- It has not begun. -/
  | waiting
  /-- Its iteration is to take the next step. -/
  | iterating (c : Call)
  /-- It has an entry in hand, and this is left to be done with it. -/
  | handling (c : Call) (e : Entry) (h : Handler ρ)
  /-- Its iteration has found no block left. -/
  | done

/-- Workers at one job, what they have done so far and the world without their iterations. -/
structure Crew (ι ρ : Type) where
  /-- The world. -/
  world : World
  /-- Where each worker is. -/
  worker : ι → Crew.Worker ρ := fun _ => .waiting
  /-- The entries visited, with what came of it. -/
  visits : List (Place × ρ) := []
  /-- The objects asked about, with the places of the entries that held them. -/
  asked : List (Place × Reference) := []

/-- The world in which an iteration more is under way. -/
def World.within (w : World) (c : Call) : World := { w with calls := c :: w.calls }

/-- Where a worker is after a step of its iteration. -/
def Job.resume (job : Job ρ) (c : Call) : Progress → Crew.Worker ρ
  | .visiting e => .handling c e (job.handle e)
  | .finished => .done
  | .claimed _ | .passedOver _ | .asking _ _ | .cleared _ => .iterating c

namespace Crew

/-- Nobody has begun. -/
def start (w : World) : Crew ι ρ := { world := w }

/-- Everybody is done. -/
def Finished (cr : Crew ι ρ) : Prop := ∀ i, cr.worker i = .done

/-- What was done, without the places. -/
def log (cr : Crew ι ρ) : Log ρ := { visits := cr.visits, asked := cr.asked.map (·.2) }

variable [DecidableEq ι]

/-- A worker has come to another place, and has left this world. -/
def put (cr : Crew ι ρ) (i : ι) (w : World) (x : Worker ρ) : Crew ι ρ :=
  { cr with world := { w with calls := cr.world.calls }, worker := Function.update cr.worker i x }

/-- **The next step of a worker**: a step of its iteration, within which no other is, or an access
to the entry in its hand. -/
def step (job : Job ρ) (i : ι) (cr : Crew ι ρ) : Except Failure (Crew ι ρ) :=
  match cr.worker i with
  | .waiting => do
      let w ← cr.world.enter job.pass job.method
      return cr.put i w (.iterating { pass := job.pass, method := job.method })
  | .iterating c =>
      match c.stage with
      | .asking e object => do
          let (w, progress) ← (cr.world.within c).judge (job.alive object)
          let cr := { cr with asked := cr.asked ++ [(e.place, object)] }
          return cr.put i w (job.resume (w.calls.headD c) progress)
      | .ready | .visiting _ => do
          let (w, progress) ← (cr.world.within c).advance
          return cr.put i w (job.resume (w.calls.headD c) progress)
  | .handling c e (.done result) =>
      let cr := { cr with visits := cr.visits ++ [(e.place, result)] }
      return cr.put i cr.world (.iterating c)
  | .handling c e (.load next) => do
      let v ← cr.world.load e
      return cr.put i cr.world (.handling c e (next v))
  | .handling c e (.store v next) => do
      let w ← cr.world.store e v
      return cr.put i w (.handling c e next)
  | .handling c e (.exchange expected new next) => do
      let (w, answer) ← cr.world.exchange e expected new
      return cr.put i w (.handling c e (next answer))
  | .done => return cr

/-- Steps of these workers, one after the other. -/
def play (job : Job ρ) : List ι → Crew ι ρ → Except Failure (Crew ι ρ)
  | [], cr => .ok cr
  | i :: schedule, cr => do
      let cr ← cr.step job i
      cr.play job schedule

end Crew

end RootStore
