import RootStore.Pass
import RootStore.Text.Hex

/-!
# Scripts

A script is a list of operations on a world.  Operations name storages, passes, handles and
stand-alone blocks by their index in order of creation, counted from zero.  An iteration carries
rules for its visitor: each rule has a condition and a list of actions, and an action may run
operations in its turn.

* `Op`, `Rule`, `Action` — operations, rules and actions, each inside the other.
* `Command`, `BlockCommand`, `EntryAction` — the ones that hold no operations in their turn.
* `Operand`, `Selection`, `Condition` — what they are given.
-/

namespace RootStore.Script

/-- A cell's content as a script gives it. -/
inductive Operand where
  /-- Given as null, or not given. -/
  | null
  /-- Given as a text. -/
  | text (t : String)
  /-- Given as something that no content can be. -/
  | malformed

namespace Operand

/-- The content that an operand stands for, if it stands for one. -/
def read? : Operand → Option (Option Reference)
  | .null => some none
  | .text t => (Hex.read? t).map Reference.ofWord?
  | .malformed => none

end Operand

/-- A choice of indices in a certain order. -/
inductive Selection where
  /-- One index; what is done to it has a single answer. -/
  | one (index : Nat)
  /-- The listed indices. -/
  | list (indices : List Nat)
  /-- The indices from `first` on in steps of `step`, below `past`. -/
  | range (first past step : Nat)

namespace Selection

/-- The chosen indices in order.  A step of zero counts as one. -/
def toList : Selection → List Nat
  | .one index => [index]
  | .list indices => indices
  | .range first past step =>
      let step := max step 1
      (List.range ((past - first + (step - 1)) / step)).map fun k => first + k * step

/-- The first chosen index. -/
def first? : Selection → Option Nat
  | .one index => some index
  | .list indices => indices.head?
  | .range first past _ => if first < past then some first else none

end Selection

/-- The indices an operation names. -/
structure Names where
  /-- A storage. -/
  storage : Option Nat := none
  /-- A pass. -/
  pass : Option Nat := none
  /-- Handles. -/
  handles : Selection := .list []

namespace Names

/-- The id of the storage named, which is the first one by default.  Ids count from one. -/
def storageId (names : Names) : Nat := names.storage.getD 0 + 1

/-- The id of the pass named, which is the first one by default. -/
def passId (names : Names) : Nat := names.pass.getD 0 + 1

end Names

/-- When a rule applies: every part that is given must hold. -/
structure Condition where
  /-- The call is the one with this index, from zero, within its iteration. -/
  nth : Option Nat := none
  /-- The value is null, or is not. -/
  isNull : Option Bool := none
  /-- The value is this one. -/
  value : Option Operand := none
  /-- The value is a reference whose address leaves this remainder by this modulus. -/
  residue : Option (Nat × Nat) := none
  /-- The entry has this label. -/
  label : Option String := none

namespace Condition

/-- Does the condition hold of the `n`-th call, made with a value and a label? -/
def holds (c : Condition) (n : Nat) (value : Option Reference) (label : String) : Bool :=
  c.nth.all (· = n) &&
    c.isNull.all (· = value.isNone) &&
    c.value.all (fun operand => operand.read? = some value) &&
    c.residue.all (fun (m, r) => m ≠ 0 && value.any fun v => v.address.toNat % m = r) &&
    c.label.all (· = label)

/-- The condition that always holds. -/
def always : Condition := {}

end Condition

/-- An operation on a block that stands alone. -/
inductive BlockCommand where
  | create (owner : Nat)
  | allocate (count : Nat)
  | release (slots : Selection)
  | set (slots : Selection) (value : Operand)
  | exchange (slot : Nat) (expected new : Operand)
  | slot (slot : Nat)
  | iterate (stop releaseAllAt allocateAt : Option Nat)
  | info
  | unknown

/-- An operation that runs no other. -/
inductive Command where
  | create (settings : Settings)
  | drop
  | info
  | compare (other : Nat)
  | allocate (count : Nat)
  | release
  | get
  | set (value step : Operand)
  | handle
  | dump
  | delete
  | purge
  | beginPass (concurrent : Bool) (access : Access)
  | endPass
  | forgetPass
  | passInfo
  | constants
  | settings (settings other : Settings)
  | reference (value other : Operand)
  | block (index : Nat) (command : BlockCommand)
  | unknown

/-- What a visitor does with the entry it is handed. -/
inductive EntryAction where
  | load
  | isNull
  | display
  | store (value : Operand)
  | clear
  | exchange (expected new : Operand)
  | same (handle : Option Nat)

mutual

/-- An operation. -/
inductive Op where
  /-- One that runs no other. -/
  | simple (names : Names) (command : Command)
  /-- An iteration of a pass, with the rules of its visitor and of its judge. -/
  | iterate (names : Names) (method : Method) (rules verdicts : List Rule)
  /-- The same iteration made by so many workers at once; no method means an unknown one. -/
  | workers (names : Names) (count : Nat) (method : Option Method) (rules verdicts : List Rule)

/-- A condition and what is done where it holds. -/
inductive Rule where
  | mk (condition : Condition) (actions : List Action)

/-- What a rule does. -/
inductive Action where
  /-- Something with the entry at hand. -/
  | entry (action : EntryAction)
  /-- Operations. -/
  | ops (ops : List Op)
  /-- A panic, with a text of its own if one is given. -/
  | panic (text : Option String)
  /-- The verdict on the object at hand. -/
  | verdict (alive : Bool)
  /-- Nothing known. -/
  | unknown

end

instance : Inhabited Op := ⟨.simple {} .unknown⟩

instance : Inhabited Action := ⟨.unknown⟩

/-- Can several workers follow the rule without their order showing?  Not where it counts calls,
runs operations, panics or compares addresses. -/
def Rule.isParallel : Rule → Bool
  | .mk condition actions => condition.nth.isNone && actions.all fun
      | .ops _ | .panic _ | .entry (.same _) => false
      | _ => true

end RootStore.Script
