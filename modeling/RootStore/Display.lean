import RootStore.Text.Hex
import RootStore.Text.Quoted
import RootStore.World.Basic

/-!
# How values are shown

Every type has one text form: a name with its fields between braces, or with its content between
parentheses.  Texts are quoted, addresses of objects are hexadecimal, and the address of a slot is
shown as its label.

* `Place.label` — a slot's label, `B.S` for slot `S` of block `B`.
* `display` in the namespace of each type — its text form.
* `Panic.message` — the text of a panic.
-/

namespace RootStore

namespace Display

/-- A name with fields between braces; `rest` stands at the end where not every field is shown. -/
def record (name : String) (fields : List (String × String)) (rest : Bool) : String :=
  let shown := fields.map fun (field, value) => field ++ ": " ++ value
  let shown := if rest then shown ++ [".."] else shown
  name ++ " \x7b " ++ ", ".intercalate shown ++ " \x7d"

/-- A name with its content between parentheses. -/
def wrapped (name content : String) : String := name ++ "(" ++ content ++ ")"

/-- A value that may be missing. -/
def optional : Option String → String
  | none => "None"
  | some content => wrapped "Some" content

/-- A yes or a no. -/
def flag (b : Bool) : String := if b then "true" else "false"

/-- A reference to an object. -/
def reference (r : Reference) : String := wrapped "Oop" (Hex.write r.address.toNat)

/-- What a cell holds. -/
def cell (v : Option Reference) : String := optional (v.map reference)

/-- A slot of a block that stands alone, by its index. -/
def slot (i : SlotIndex) (v : Option Reference) : String :=
  record "Slot" [("addr", s!"@{i.val}"), ("value", cell v)] false

/-- The id of a pass. -/
def passId (id : Nat) : String := wrapped "PassId" (toString id)

end Display

open Display

/-- The label of a slot: its block's number and its index. -/
def Place.label (p : Place) : String := s!"{p.block}.{p.slot.val}"

/-- The address of a slot. -/
def Place.address (p : Place) : String := "@" ++ p.label

/-- The text form of settings. -/
def Settings.display (s : Settings) : String :=
  record "StorageConfig"
    [("name", Text.quote s.name), ("max_blocks", optional (s.maxBlocks.map toString))] false

/-- The text form of metrics. -/
def Metrics.display (m : Metrics) : String :=
  record "StorageMetrics"
    [("allocation_count", toString m.allocationCount),
      ("block_count", toString m.blockCount),
      ("blocks_allocated", toString m.blocksAllocated),
      ("blocks_deleted", toString m.blocksDeleted),
      ("deletions_inhibited", toString m.deletionsInhibited),
      ("passes_started", toString m.passesStarted)] false

/-- The text form of a storage, which does not show its blocks. -/
def Storage.display (s : Storage) : String :=
  record "OopStorage"
    [("name", Text.quote s.name),
      ("allocation_count", toString s.allocationCount),
      ("block_count", toString s.blockCount)] true

/-- The text form of a pass over a storage with the given name. -/
def Pass.display (p : Pass) (storage : String) : String :=
  record "ParState"
    [("storage", Text.quote storage),
      ("concurrent", flag p.concurrent),
      ("const", flag (p.access = .readOnly)),
      ("blocks_claimed", toString p.claimed)] false

/-- The text form of an entry that holds `found`. -/
def Entry.display (e : Entry) (found : Option Reference) : String :=
  record "Entry"
    [("addr", e.place.address), ("value", cell found),
      ("const", flag (e.access = .readOnly))] false

/-- The text form of a handle. -/
def Handle.display (h : Handle) : String :=
  record "OopHandle" [("addr", h.place.address), ("owner_id", toString h.owner)] false

/-- The text of a panic. -/
def Panic.message : Panic → String
  | .foreignHandle h storage name =>
      s!"assertion `left == right` failed: handle {h.place.address} " ++
        s!"does not belong to storage {name}"
        ++ s!"\n  left: {h.owner}\n right: {storage}"
  | .iterationActive name => s!"{name}: a concurrent iteration is already active"

end RootStore
