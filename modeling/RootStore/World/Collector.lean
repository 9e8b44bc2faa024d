import RootStore.World.Basic

/-!
# What the collector does

Passes are begun, iterated and ended.  An iteration is entered, advanced one step at a time and
left, and between two of its steps its visitor may do anything.

* `World.beginPass`, `World.endPass`, `World.forgetPass` — a pass's life.
* `World.enter`, `World.advance`, `World.judge`, `World.leave` — the steps of an iteration.
* `World.load`, `World.store`, `World.exchange` — the entry a visitor is handed.
-/

namespace RootStore

/-- What one step of an iteration has led to. -/
inductive Progress where
  /-- A block was claimed. -/
  | claimed (block : Nat)
  /-- An entry that holds null was passed over. -/
  | passedOver (entry : Entry)
  /-- An entry's object is to be judged. -/
  | asking (entry : Entry) (object : Reference)
  /-- An entry was cleared because its object was judged dead. -/
  | cleared (entry : Entry)
  /-- An entry is handed to the visitor. -/
  | visiting (entry : Entry)
  /-- No block is left and the iteration has ended. -/
  | finished

namespace Progress

/-- What an iteration waits for after a step. -/
def stage : Progress → Stage
  | .asking e object => .asking e object
  | .visiting e => .visiting e
  | .claimed _ | .passedOver _ | .cleared _ | .finished => .ready

/-- What an iteration does with an entry that holds `found`. -/
def offer (method : Method) (e : Entry) (found : Option Reference) : Progress :=
  match method, found with
  | .every, _ => .visiting e
  | .nonNull, some _ => .visiting e
  | .alive, some object => .asking e object
  | .nonNull, none | .alive, none => .passedOver e

end Progress

namespace World

/-- The storage a pass walks, which must be there as long as the pass is. -/
def storageOf (w : World) (p : Pass) : Except Failure Storage :=
  match w.storages.get? p.storage with
  | some s => .ok s
  | none => .error (.fault .missingStorage)

/-! ## The life of a pass -/

/-- Begins a pass over a storage and answers with its id.  A concurrent pass panics where one is
under way; then no id is taken. -/
def beginPass (w : World) (id : Nat) (concurrent : Bool) (access : Access) :
    Except Failure (World × Nat) := do
  let s ← w.storage id
  if concurrent && s.iterating then throw (.panic (.iterationActive s.name))
  let counters := { s.counters with passesStarted := s.counters.passesStarted + 1 }
  let w := w.setStorage id { s with iterating := s.iterating || concurrent, counters }
  let p := w.passes.size + 1
  let w := { w with passes := w.passes.add { storage := id, concurrent, access } }
  return (w.record [.passBegan p s.name concurrent], p)

/-- Ends a pass, and a concurrent one lets its storage be iterated again. -/
def endPass (w : World) (id : Nat) : Except Failure World := do
  let p ← w.pass id
  let s ← w.storageOf p
  if p.concurrent && !s.iterating then throw (.fault .flagNotSet)
  let w := w.setStorage p.storage { s with iterating := s.iterating && !p.concurrent }
  let w := { w with passes := w.passes.erase id }
  return w.record [.passEnded id p.claimed, .closed id]

/-- Lets go of a pass without ending it: a storage that it iterates concurrently stays so for
good. -/
def forgetPass (w : World) (id : Nat) : Except Failure World := do
  let _ ← w.pass id
  return { w with passes := w.passes.erase id }

/-! ## The steps of an iteration -/

/-- Enters an iteration of a pass; the first one pins the pass to the head of its storage's list. -/
def enter (w : World) (id : Nat) (method : Method) : Except Failure World := do
  let p ← w.pass id
  let s ← w.storageOf p
  let w := w.record [.entered id]
  let w := match p.start? s.head with
    | some p => (w.setPass id p).record [.iterationStarted id s.head]
    | none => w
  return { w with calls := { pass := id, method } :: w.calls }

/-- Leaves the innermost iteration, because it has ended or because its visitor panicked. -/
def leave (w : World) : Except Failure World :=
  match w.calls with
  | [] => .error (.fault .noCall)
  | c :: outer => .ok ({ w with calls := outer }.record [.left c.pass])

/-- Takes the innermost iteration one step on: to the next entry of the block being scanned, or else
to the next block, or else out of it. -/
def advance (w : World) : Except Failure (World × Progress) :=
  match w.calls with
  | [] => .error (.fault .noCall)
  | c :: outer => do
      let p ← w.pass c.pass
      let s ← w.storageOf p
      match c.scanning.bind fun scan => scan.snapshot.lowest?.map fun i => (scan, i) with
      | some (scan, i) =>
          let e : Entry := { storage := p.storage, place := ⟨scan.block, i⟩, access := p.access }
          let found ← Failure.ofFault (s.load e.place)
          let progress := Progress.offer c.method e found
          let c := { c with
            scanning := some { scan with snapshot := scan.snapshot.dropLowest }
            stage := progress.stage }
          return ({ w with calls := c :: outer }, progress)
      | none =>
          match ← Failure.ofFault (p.claim s) with
          | (p, some claim) =>
              let c := { c with scanning := some claim, stage := .ready }
              return ({ w.setPass c.pass p with calls := c :: outer }, .claimed claim.block)
          | (_, none) => do
              let w ← w.leave
              return (w, .finished)

/-- Writes the entry a pass has handed out. -/
def store (w : World) (e : Entry) (v : Option Reference) : Except Failure World := do
  let s ← w.storage e.storage
  let s ← Failure.ofFault (s.store e.place v)
  return w.setStorage e.storage s

/-- Reads the entry a pass has handed out. -/
def load (w : World) (e : Entry) : Except Failure (Option Reference) := do
  let s ← w.storage e.storage
  Failure.ofFault (s.load e.place)

/-- Compares and exchanges the entry a pass has handed out. -/
def exchange (w : World) (e : Entry) (expected : Reference) (new : Option Reference) :
    Except Failure (World × Except (Option Reference) Reference) := do
  let found ← w.load e
  let (v, answer) := RootStore.exchange found expected new
  let w ← w.store e v
  return (w, answer)

/-- Takes the verdict on the object that the innermost iteration asks about: an entry whose object
is alive is handed to the visitor, and any other is cleared. -/
def judge (w : World) (alive : Bool) : Except Failure (World × Progress) :=
  match w.calls with
  | c :: outer =>
      match c.stage with
      | .asking e _ => do
          let progress : Progress := if alive then .visiting e else .cleared e
          let w := { w with calls := { c with stage := progress.stage } :: outer }
          let w ← if alive then pure w else w.store e none
          return (w, progress)
      | .ready | .visiting _ => .error (.fault .noCall)
  | [] => .error (.fault .noCall)

end World

end RootStore
