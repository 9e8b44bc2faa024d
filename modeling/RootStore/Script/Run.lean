import RootStore.Script.Session
import RootStore.World.Iteration

/-!
# Running scripts

Operations run one after the other on a session.  An iteration's visitor follows the rules it was
given: in every call each rule whose condition holds runs its actions, and an action that panics
ends the call and the iteration with it.

* `runOp`, `runOps` — operations, with those that are run inside visitors.
* `runRules`, `runActions` — one call of a visitor.
* `judgeRules`, `judgeActions` — one call of a judge.
* `run` — a whole script from nothing.
-/

namespace RootStore.Script

/-- What a list of actions leads to: the session, the answers so far and perhaps a panic. -/
structure Acted where
  /-- The session afterwards. -/
  session : Session
  /-- The answers of the actions, in order. -/
  answers : List Answer := []
  /-- The text of the panic that ended the call. -/
  panic : Option String := none

/-- What a judge's actions lead to, with the verdict. -/
structure Judged extends Acted where
  /-- Is the object alive? -/
  alive : Bool := true

/-- What an iteration has recorded so far. -/
structure Record where
  /-- The stand-alone blocks, which visitors may change. -/
  blocks : Array Block
  /-- The calls of the visitor. -/
  visits : Array Visit := #[]
  /-- The calls of the judge. -/
  asked : Array Question := #[]

/-- A visitor made of what is done in a call with the entry, and of how an object is judged; both
are told how many calls went before. -/
def visitorOf (visit : Entry → Nat → Session → Acted)
    (judge : Reference → Nat → Session → Judged) : Visitor Record where
  visit e w r :=
    let before := Session.entryValue w e
    let acted := visit e r.visits.size { world := w, blocks := r.blocks }
    let r := { r with
      blocks := acted.session.blocks
      visits := r.visits.push (.mk e.place before acted.answers) }
    (acted.session.world, r, acted.panic)
  judge object w r :=
    let judged := judge object r.asked.size { world := w, blocks := r.blocks }
    let r := { r with
      blocks := judged.session.blocks
      asked := r.asked.push (.mk object judged.answers) }
    (judged.session.world, r, match judged.panic with
      | some text => .error text
      | none => .ok judged.alive)

/-- The answer of an iteration of a pass. -/
def iterationAnswer (w : World) (id : Nat) (method : Method) (visits : List Visit)
    (asked : List Question) : Ending → Answer
  | .failed why => .failed why
  | .returned => answer none
  | .panicked text => answer (some text)
where
  /-- What was recorded, with the panic that ended it. -/
  answer (panic : Option String) : Answer :=
    .iterated (((w.passes.get? id).map (·.claimed)).getD 0) visits
      (if method = .alive then some asked else none) panic

/-- Iterates a pass if it is there and offers the method. -/
def iterate (s : Session) (names : Names) (method : Method) (v : Visitor Record) :
    Session × Answer :=
  let id := names.passId
  match s.world.pass id with
  | .error why => (s, .failed why)
  | .ok p =>
      if p.offers method then
        let (w, r, ending) := s.world.iterate id method v { blocks := s.blocks }
        ({ world := w, blocks := r.blocks },
          iterationAnswer w id method r.visits.toList r.asked.toList ending)
      else (s, .complaint .unsupported)

/-- The order of slots: by block and then by index. -/
def placeLe (a b : Place) : Bool :=
  a.block < b.block || (a.block = b.block && a.slot ≤ b.slot)

/-- Iterates a pass with several workers.  Whichever worker comes first claims the blocks that are
left and the others find none, so one call does the work of all; what the workers saw is put in
order, and what they did is not traced.  Without workers the pass is not even started. -/
def iterateTogether (s : Session) (names : Names) (count : Nat) (method : Option Method)
    (parallel : Bool) (v : Visitor Record) : Session × Answer :=
  let id := names.passId
  match s.world.pass id with
  | .error why => (s, .failed why)
  | .ok p =>
      match method with
      | none => (s, .complaint .unsupported)
      | some method =>
          if !(parallel && p.offers method) then (s, .complaint .unsupported)
          else if count = 0 then (s, iterationAnswer s.world id method [] [] .returned)
          else
            let (w, r, ending) := s.world.iterate id method v { blocks := s.blocks }
            let w := { w with log := s.world.log }
            let visits := r.visits.toList.mergeSort fun a b => placeLe a.place b.place
            let asked := r.asked.toList.mergeSort fun a b =>
              a.object.address.toNat ≤ b.object.address.toNat
            ({ world := w, blocks := r.blocks }, iterationAnswer w id method visits asked ending)

mutual

/-- Runs one operation, with the state of the storage it was about. -/
def runOp : Op → Session → Session × Step
  | .simple names command, s =>
      let subject := s.subject? names
      let (s, answer) := match command with
        | .block index command => s.onBlock index command
        | command => s.perform names command
      (s, .mk answer (subject.bind s.gauge?))
  | .iterate names method rules verdicts, s =>
      let subject := s.subject? names
      let v := visitorOf (fun e n s => runRules rules e n s)
        (fun object n s => judgeRules verdicts object n s true)
      let (s, answer) := iterate s names method v
      (s, .mk answer (subject.bind s.gauge?))
  | .workers names count method rules verdicts, s =>
      let subject := s.subject? names
      let v := visitorOf (fun e n s => runRules rules e n s)
        (fun object n s => judgeRules verdicts object n s true)
      let parallel := rules.all Rule.isParallel && verdicts.all Rule.isParallel
      let (s, answer) := iterateTogether s names count method parallel v
      (s, .mk answer (subject.bind s.gauge?))

/-- Runs operations in order. -/
def runOps : List Op → Session → Session × List Step
  | [], s => (s, [])
  | op :: rest, s =>
      let (s, step) := runOp op s
      let (s, steps) := runOps rest s
      (s, step :: steps)

/-- Applies the rules to an entry, in the `n`-th call.  The entry is read anew for every rule. -/
def runRules : List Rule → Entry → Nat → Session → Acted
  | [], _, _, s => { session := s }
  | .mk condition actions :: rest, e, n, s =>
      if condition.holds n (Session.entryValue s.world e) e.place.label then
        let acted := runActions actions e s
        match acted.panic with
        | some _ => acted
        | none =>
            let after := runRules rest e n acted.session
            { after with answers := acted.answers ++ after.answers }
      else runRules rest e n s

/-- Takes actions on an entry in order, until one panics. -/
def runActions : List Action → Entry → Session → Acted
  | [], _, s => { session := s }
  | action :: rest, e, s =>
      match action with
      | .panic text => { session := s, panic := some (text.getD "handler") }
      | .entry action =>
          let (s, answer) := s.onEntry e action
          let after := runActions rest e s
          { after with answers := answer :: after.answers }
      | .ops ops =>
          let (s, steps) := runOps ops s
          let after := runActions rest e s
          { after with answers := .steps steps :: after.answers }
      | .verdict _ | .unknown =>
          let after := runActions rest e s
          { after with answers := .complaint .unknownAction :: after.answers }

/-- Applies the rules to an object, in the `n`-th question, with the verdict so far. -/
def judgeRules : List Rule → Reference → Nat → Session → Bool → Judged
  | [], _, _, s, alive => { session := s, alive }
  | .mk condition actions :: rest, object, n, s, alive =>
      if condition.holds n (some object) "" then
        let judged := judgeActions actions s alive
        match judged.panic with
        | some _ => judged
        | none =>
            let after := judgeRules rest object n judged.session judged.alive
            { after with answers := judged.answers ++ after.answers }
      else judgeRules rest object n s alive

/-- Takes a judge's actions in order, until one panics. -/
def judgeActions : List Action → Session → Bool → Judged
  | [], s, alive => { session := s, alive }
  | action :: rest, s, alive =>
      match action with
      | .panic text => { session := s, panic := some (text.getD "alive"), alive }
      | .verdict alive => judgeActions rest s alive
      | .ops ops =>
          let (s, steps) := runOps ops s
          let after := judgeActions rest s alive
          { after with answers := .steps steps :: after.answers }
      | .entry _ | .unknown => judgeActions rest s alive

end

/-- Runs a script on a session and reports every operation with the rows it left in the trace. -/
def report (s : Session) : List Op → List Report
  | [] => []
  | op :: rest =>
      let before := s.world.log.size
      let (s, step) := runOp op s
      { step, log := (s.world.log.extract before s.world.log.size).toList } :: report s rest

/-- Runs a script from nothing. -/
def run (ops : List Op) : List Report := report {} ops

end RootStore.Script
