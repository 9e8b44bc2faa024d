import RootStore.Address
import RootStore.Block.Scan
import RootStore.Script.Answer
import RootStore.Script.Syntax
import RootStore.World.Collector
import RootStore.World.Mutator
import RootStore.World.Permission

/-!
# Sessions: operations one at a time

A session is a world together with blocks that stand alone.  Here are the operations that run no
other: each checks what it names, then who may do it while passes are alive, and then does it.

* `Session` — the state.
* `Session.perform` — one command.
* `Session.onBlock` — one command on a stand-alone block.
* `Session.onEntry` — one action on the entry a visitor is handed.
-/

namespace RootStore.Script

/-- A world and the blocks that stand alone, each in order of creation. -/
structure Session where
  /-- The world. -/
  world : World := {}
  /-- The stand-alone blocks. -/
  blocks : Array Block := #[]

namespace Session

/-- Takes over the world that an operation leaves, or tells why it was not done. -/
def commit {α : Type} (s : Session) (outcome : Except Failure (World × α)) (answer : α → Answer) :
    Session × Answer :=
  match outcome with
  | .ok (w, a) => ({ s with world := w }, answer a)
  | .error why => (s, .failed why)

/-- The same for an operation that answers nothing. -/
def settle (s : Session) (outcome : Except Failure World) : Session × Answer :=
  s.commit (outcome.map fun w => (w, ())) fun _ => .done

/-- Does something with what an operation names, where that is there and no pass that is alive
forbids it. -/
def unlessForbidden {α : Type} (s : Session) (named : Except Failure α) (allowed : Bool)
    (act : Unit → Session × Answer) : Session × Answer :=
  match named with
  | .error why => (s, .failed why)
  | .ok _ => if allowed then act () else (s, .complaint .forbidden)

/-- Does something with each item in turn. -/
def onEach {α : Type} (s : Session) (act : Session → α → Session × Answer) :
    List α → Session × List Answer
  | [] => (s, [])
  | item :: rest =>
      let (s, a) := act s item
      let (s, as) := s.onEach act rest
      (s, a :: as)

/-- Does something with each handle chosen, given its position in the choice and its number, which
counts from one.  One single index has one answer, any other choice has a list of answers. -/
def onHandles (s : Session) (chosen : Selection) (act : Session → Nat → Nat → Session × Answer) :
    Session × Answer :=
  match chosen with
  | .one index => act s 0 (index + 1)
  | _ =>
      let (s, answers) := s.onEach (fun s (index, k) => act s k (index + 1)) chosen.toList.zipIdx
      (s, .many answers)

/-- The storage on which a handle is used: the one named, or else the one that issued it. -/
def storageFor (names : Names) (h : Handle) : Nat := (names.storage.map (· + 1)).getD h.owner

/-- Uses a handle that is held on the storage it is used on. -/
def withHandle (s : Session) (names : Names) (number : Nat)
    (act : (storage : Nat) → Session × Answer) : Session × Answer :=
  match s.world.handle number with
  | .error why => (s, .failed why)
  | .ok h => act (storageFor names h)

/-! ## Commands -/

/-- Allocates so many entries, one after the other; those that the limit forbids are missing. -/
def allocateMany (id : Nat) : Nat → World → Except Failure (World × List (Option Place))
  | 0, w => .ok (w, [])
  | count + 1, w => do
      let (w, number) ← w.allocate id
      let place := number.bind fun n => (w.handles.get? n).map (·.handle.place)
      let (w, rest) ← allocateMany id count w
      return (w, place :: rest)

/-- The handles that a storage has issued and that are still held, with what their entries hold. -/
def contents (w : World) (s : Storage) : List (Nat × Place × Option Reference) :=
  (List.range w.handles.size).filterMap fun index =>
    match w.handle (index + 1) with
    | .ok h =>
        if h.owner = s.id then some (index, h.place, ((s.load h.place).toOption).join) else none
    | .error _ => none

/-- One command. -/
def perform (s : Session) (names : Names) : Command → Session × Answer
  | .create settings =>
      let (w, id) := s.world.create settings
      ({ s with world := w }, .number (id - 1))
  | .drop =>
      let id := names.storageId
      s.unlessForbidden (s.world.storage id) (s.world.mayDrop id) fun _ =>
        s.settle (s.world.drop id)
  | .info =>
      match s.world.storage names.storageId with
      | .error why => (s, .failed why)
      | .ok st =>
          (s, .storage { settings := st.settings, shown := st.display, metrics := st.metrics })
  | .compare other =>
      match s.world.storage names.storageId, s.world.storage (other + 1) with
      | .ok a, .ok b =>
          (s, .comparison (a.settings = b.settings) (a.metrics = b.metrics) (a.metrics = {}))
      | .error why, _ | _, .error why => (s, .failed why)
  | .allocate count =>
      let first := s.world.handles.size
      s.commit (allocateMany names.storageId count s.world) (.allocated first)
  | .release => s.onHandles names.handles fun s _ number =>
      s.withHandle names number fun id =>
        s.commit (s.world.release id number) fun
          | none => .done
          | some panic => .failed (.panic panic)
  | .get => s.onHandles names.handles fun s _ number =>
      s.withHandle names number fun id =>
        s.commit ((s.world.get id number).map fun v => (s.world, v)) .value
  | .set value step =>
      match value.read?, step.read? with
      | some value, some step => s.onHandles names.handles fun s k number =>
          s.withHandle names number fun id =>
            let word := Reference.word value + BitVec.ofNat 64 k * Reference.word step
            s.settle (s.world.set id number (Reference.ofWord? word))
      | _, _ => (s, .complaint .badValue)
  | .handle => s.onHandles names.handles fun s _ number =>
      match s.world.handle number with
      | .error why => (s, .failed why)
      | .ok h => (s, .handle h)
  | .dump =>
      match s.world.storage names.storageId with
      | .error why => (s, .failed why)
      | .ok st => (s, .contents (contents s.world st))
  | .delete =>
      let id := names.storageId
      s.unlessForbidden (s.world.storage id) (s.world.mayDelete id) fun _ =>
        s.commit (s.world.deleteEmpty id true) .number
  | .purge =>
      let id := names.storageId
      s.unlessForbidden (s.world.storage id) (s.world.mayPurge id) fun _ =>
        s.commit (s.world.deleteEmpty id false) .number
  | .beginPass concurrent access =>
      let id := names.storageId
      s.unlessForbidden (s.world.storage id) (s.world.mayBegin id concurrent) fun _ =>
        s.commit (s.world.beginPass id concurrent access) fun p => .began (p - 1) p
  | .endPass =>
      let id := names.passId
      s.unlessForbidden (s.world.pass id) (s.world.mayEnd id) fun _ => s.settle (s.world.endPass id)
  | .forgetPass =>
      let id := names.passId
      s.unlessForbidden (s.world.pass id) (s.world.mayEnd id) fun _ =>
        s.settle (s.world.forgetPass id)
  | .passInfo =>
      let id := names.passId
      match s.world.pass id with
      | .error why => (s, .failed why)
      | .ok p =>
          match s.world.storageOf p with
          | .error why => (s, .failed why)
          | .ok st => (s, .pass { id, pass := p, storage := st.name })
  | .constants => (s, .constants)
  | .settings a b => (s, .settings a (a = b))
  | .reference value other =>
      match value.read?, other.read? with
      | some a, some b => (s, .reference a (a = b))
      | _, _ => (s, .complaint .badValue)
  | .block _ _ => (s, .complaint .noBlock)
  | .unknown => (s, .complaint .unknownOperation)

/-! ## Stand-alone blocks -/

/-- An entry in use of a stand-alone block, if the index is that of one. -/
def entryInUse? (b : Block) (index : Nat) : Option SlotIndex :=
  if h : index < 64 then if b.inUse ⟨index, h⟩ then some ⟨index, h⟩ else none else none

/-- Allocates so many entries of a block, one after the other. -/
def allocateEntries : Nat → Block → Block × List (Option SlotIndex)
  | 0, b => (b, [])
  | count + 1, b =>
      match b.allocateEntry with
      | none =>
          let (b, rest) := allocateEntries count b
          (b, none :: rest)
      | some (b, i) =>
          let (b, rest) := allocateEntries count b
          (b, some i :: rest)

/-- Does something with each chosen entry that is in use. -/
def onEntries (act : Block → SlotIndex → Block × Answer) : List Nat → Block → Block × List Answer
  | [], b => (b, [])
  | index :: rest, b =>
      let (b, a) := match entryInUse? b index with
        | none => (b, .complaint .freeEntry)
        | some i => act b i
      let (b, as) := onEntries act rest b
      (b, a :: as)

/-- Releases every entry in use. -/
def releaseAll (b : Block) : Block :=
  b.mask.indices.foldl (fun b i => (b.releaseEntry i).1) b

/-- The visitor of a scan that notes what it sees, may release every entry or allocate one at a
given visit, and stops once it has seen so many entries. -/
def scanner (stop releaseAllAt allocateAt : Option Nat) :
    Block.Visitor (List (SlotIndex × Option Reference)) := fun i b seen =>
  let n := seen.length
  let seen := seen ++ [(i, b.load i)]
  let b := if releaseAllAt = some n then releaseAll b else b
  let b := if allocateAt = some n then (b.allocateEntry.map Prod.fst).getD b else b
  (b, seen, stop.all (seen.length < ·))

/-- The operand of an exchange that must be a reference. -/
def readReference (operand : Operand) : Except Complaint Reference :=
  match operand.read? with
  | none => .error .badValue
  | some none => .error .nullReference
  | some (some r) => .ok r

/-- Both operands of an exchange, the expected reference first. -/
def readExchange (expected new : Operand) :
    Except Complaint (Reference × Option Reference) := do
  let expected ← readReference expected
  match new.read? with
  | none => .error .badValue
  | some new => .ok (expected, new)

/-- What is told about an entry of the block with the given index among the stand-alone ones.  The
block is taken to lie at the block-sized stretch of memory with its number. -/
def slotInfo (index : Nat) (b : Block) (i : SlotIndex) : SlotInfo :=
  let base : Address := BitVec.ofNat 64 (Address.blockBytes * (index + 1))
  let address := Address.ofSlot base i
  { value := b.load i
    shown := Display.slot i (b.load i)
    contained := Address.blockOf address = base
    index := (Address.indexOf base address).toNat }

/-- One command on a stand-alone block that is there. -/
def onOneBlock (index : Nat) (b : Block) : BlockCommand → Block × Answer
  | .create _ => (b, .complaint .unknownOperation)
  | .allocate count =>
      let (b, entries) := allocateEntries count b
      (b, .entries entries)
  | .release slots =>
      let (b, answers) := onEntries (fun b i =>
        let (b, wasFull) := b.releaseEntry i
        (b, .truth wasFull)) slots.toList b
      (b, .many answers)
  | .set slots value =>
      match value.read? with
      | none => (b, .complaint .badValue)
      | some v =>
          let (b, answers) := onEntries (fun b i => (b.store i v, .done)) slots.toList b
          (b, .many answers)
  | .exchange slot expected new =>
      match entryInUse? b slot with
      | none => (b, .complaint .freeEntry)
      | some i =>
          match readExchange expected new with
          | .error why => (b, .complaint why)
          | .ok (expected, new) =>
              let (v, outcome) := RootStore.exchange (b.load i) expected new
              (b.store i v, .exchanged outcome)
  | .slot slot =>
      match entryInUse? b slot with
      | none => (b, .complaint .freeEntry)
      | some i => (b, .slot (slotInfo index b i))
  | .iterate stop releaseAllAt allocateAt =>
      let (b, seen, done) := b.scan (scanner stop releaseAllAt allocateAt) []
      (b, .scanned seen done)
  | .info =>
      (b, .block
        { owner := b.owner
          mask := b.mask.bits.toNat
          empty := b.isEmpty
          full := b.isFull
          linked := b.next.isSome || b.prev.isSome })
  | .unknown => (b, .complaint .unknownOperation)

/-- One command on the stand-alone block with an index, or the creation of one. -/
def onBlock (s : Session) (index : Nat) (command : BlockCommand) : Session × Answer :=
  match command with
  | .create owner =>
      ({ s with blocks := s.blocks.push (Block.fresh owner) }, .number s.blocks.size)
  | command =>
      match s.blocks[index]? with
      | none => (s, .complaint .noBlock)
      | some b =>
          let (b, answer) := onOneBlock index b command
          ({ s with blocks := s.blocks.setIfInBounds index b }, answer)

/-! ## Actions on an entry -/

/-- What the entry that a pass has handed out holds. -/
def entryValue (w : World) (e : Entry) : Option Reference := (w.load e).toOption.join

/-- One action on the entry that a pass has handed out. -/
def onEntry (s : Session) (e : Entry) : EntryAction → Session × Answer
  | .load => (s, .value (entryValue s.world e))
  | .isNull => (s, .truth (entryValue s.world e).isNone)
  | .display => (s, .text (e.display (entryValue s.world e)))
  | .store value =>
      if e.access = .readOnly then (s, .complaint .unsupported)
      else match readReference value with
        | .error why => (s, .complaint why)
        | .ok r => s.settle (s.world.store e (some r))
  | .clear =>
      if e.access = .readOnly then (s, .complaint .unsupported)
      else s.settle (s.world.store e none)
  | .exchange expected new =>
      if e.access = .readOnly then (s, .complaint .unsupported)
      else match readExchange expected new with
        | .error why => (s, .complaint why)
        | .ok (expected, new) => s.commit (s.world.exchange e expected new) .exchanged
  | .same index =>
      match index with
      | none => (s, .failed .noHandle)
      | some index =>
          match s.world.handle (index + 1) with
          | .error why => (s, .failed why)
          | .ok h => (s, .truth (h.owner = e.storage ∧ h.place = e.place))

/-! ## The state that goes with an answer -/

/-- The storage an operation is about: that of the pass it names, or else the one it names, or else
the one that issued the first handle it names. -/
def subject? (s : Session) (names : Names) : Option Nat :=
  match names.pass, names.storage with
  | some p, _ => (s.world.passes.get? (p + 1)).map (·.storage)
  | none, some id => some (id + 1)
  | none, none =>
      (names.handles.first?.bind fun index => s.world.handles.get? (index + 1)).map (·.handle.owner)

/-- The state of a storage, if it is there. -/
def gauge? (s : Session) (id : Nat) : Option Gauge :=
  (s.world.storages.get? id).map fun st => { metrics := st.metrics, iterating := st.iterating }

end Session

end RootStore.Script
