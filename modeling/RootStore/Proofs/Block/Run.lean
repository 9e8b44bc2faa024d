import RootStore.Block.Scan
import RootStore.Proofs.Sequences

/-!
# Runs of a block

A block is worked on by four operations: an entry is handed out, taken back, written, or compared
and exchanged.  A scan is none of them: it calls a visitor, which works on the block by these
operations, and what the scan does to the block is what its visits do, one after the other.

* `Block.Op`, `Block.Answer`, `Block.perform` — the operations and what they answer.
* `Block.Run` — **sequences of operations**, each on the block that those before it have left.
* `Block.noting`, `Block.visits` — the calls that a scan makes, noted down by its visitor.
* `Block.Threaded` — each call finds the block as the one before it has left it.
* `Block.run_of_threaded` — **a scan is a run** of the operations that its visitor performs.
* `Block.releasing` — a visitor that does so: it takes every entry back.
-/

namespace RootStore

/-- The indices of a mask ascend. -/
theorem Mask.pairwise_indices (m : Mask) : m.indices.Pairwise (· < ·) :=
  (List.pairwise_lt_finRange 64).filter _

namespace Block

/-! ## Operations -/

/-- What is done to the entries of a block. -/
inductive Op where
  /-- An entry is handed out. -/
  | allocate
  /-- An entry is taken back. -/
  | release (i : SlotIndex)
  /-- An entry is written. -/
  | store (i : SlotIndex) (v : Option Reference)
  /-- An entry is compared and exchanged. -/
  | exchange (i : SlotIndex) (expected : Reference) (new : Option Reference)
  deriving DecidableEq

/-- What a block answers. -/
inductive Answer where
  /-- The entry that was handed out. -/
  | handedOut (i : SlotIndex)
  /-- There was none to hand out. -/
  | noneFree
  /-- The entry was taken back; was the block full before? -/
  | released (wasFull : Bool)
  /-- The entry was written. -/
  | stored
  /-- How the exchange went. -/
  | exchanged (outcome : Except (Option Reference) Reference)
  deriving DecidableEq

/-- One operation, with its answer. -/
def perform (b : Block) : Op → Block × Answer
  | .allocate =>
      match b.allocateEntry with
      | some (b, i) => (b, .handedOut i)
      | none => (b, .noneFree)
  | .release i => ((b.releaseEntry i).1, .released (b.releaseEntry i).2)
  | .store i v => (b.store i v, .stored)
  | .exchange i expected new =>
      let outcome := RootStore.exchange (b.load i) expected new
      (b.store i outcome.1, .exchanged outcome.2)

/-- The operation writes slot `i`. -/
def Op.Writes (op : Op) (i : SlotIndex) : Prop :=
  (∃ v, op = .store i v) ∨ ∃ expected new, op = .exchange i expected new

/-- Only an entry in use is taken back, and only such an entry is written, unless it is among those
that whoever operates on the block has in hand. -/
def Op.Permitted (hand : Set SlotIndex) (b : Block) : Op → Prop
  | .allocate => True
  | .release i => b.inUse i = true
  | .store i _ | .exchange i _ _ => b.inUse i = true ∨ i ∈ hand

/-- An operation with the answer that it got. -/
structure Step where
  /-- The operation. -/
  op : Op
  /-- What the block answered. -/
  answer : Answer
  deriving DecidableEq

/-- Sequences of permitted operations, each on the block that those before it have left. -/
inductive Run (hand : Set SlotIndex) (b : Block) : List Step → Block → Prop
  /-- Nothing is done. -/
  | nil : Run hand b [] b
  /-- One operation more. -/
  | snoc {c : Block} {steps : List Step} (op : Op) : Run hand b steps c → op.Permitted hand c →
      Run hand b (steps ++ [⟨op, (c.perform op).2⟩]) (c.perform op).1

variable {hand hand' : Set SlotIndex} {b c d : Block} {steps steps' : List Step}

/-- Two runs one after the other are one run. -/
theorem Run.append (h : Run hand b steps c) (h' : Run hand c steps' d) :
    Run hand b (steps ++ steps') d := by
  induction h' with
  | nil => simpa using h
  | snoc op _ hp ih => rw [← List.append_assoc]; exact .snoc op ih hp

theorem Op.Permitted.mono {op : Op} (h : op.Permitted hand c) (hsub : hand ⊆ hand') :
    op.Permitted hand' c := by
  cases op with
  | allocate | release i => exact h
  | store i v | exchange i expected new => exact h.imp_right fun hi => hsub hi

/-- Whoever has more in hand may do as much. -/
theorem Run.mono (h : Run hand b steps c) (hsub : hand ⊆ hand') : Run hand' b steps c := by
  induction h with
  | nil => exact .nil
  | snoc op _ hp ih => exact .snoc op ih (hp.mono hsub)

/-- Operations that are permitted one after the other make a run. -/
theorem Run.cons (op : Op) (hp : op.Permitted hand b)
    (h : Run hand (b.perform op).1 steps c) :
    Run hand b (⟨op, (b.perform op).2⟩ :: steps) c :=
  (Run.snoc op .nil hp).append h

/-- **What an operation does**: it hands the lowest free entry out or finds none, takes an entry
back, or writes a slot. -/
theorem perform_cases (b : Block) (op : Op) :
    (∃ i, op = .allocate ∧ b.inUse i = false ∧ (∀ j, j < i → b.inUse j = true) ∧
      b.perform op = ({ b with mask := b.mask.insert i }, .handedOut i)) ∨
    (op = .allocate ∧ b.isFull = true ∧ b.perform op = (b, .noneFree)) ∨
    (∃ i, op = .release i ∧ b.perform op = ((b.releaseEntry i).1, .released b.isFull)) ∨
    (∃ i v, op = .store i v ∧ b.perform op = (b.store i v, .stored)) ∨
    ∃ i expected new, op = .exchange i expected new ∧ b.perform op =
      (b.store i (RootStore.exchange (b.load i) expected new).1,
        .exchanged (RootStore.exchange (b.load i) expected new).2) := by
  cases op with
  | allocate =>
      rcases h : b.allocateEntry with _ | ⟨b', i⟩
      · exact .inr (.inl ⟨rfl, allocateEntry_eq_none_iff.1 h, by simp [perform, h]⟩)
      · obtain ⟨hfree, hbelow, rfl⟩ := allocateEntry_eq_some h
        exact .inl ⟨i, rfl, hfree, hbelow, by simp [perform, h]⟩
  | release i => exact .inr (.inr (.inl ⟨i, rfl, rfl⟩))
  | store i v => exact .inr (.inr (.inr (.inl ⟨i, v, rfl, rfl⟩)))
  | exchange i expected new => exact .inr (.inr (.inr (.inr ⟨i, expected, new, rfl, rfl⟩)))

/-! ## The calls of a scan -/

variable {σ : Type}

/-- One call of a visitor. -/
structure Visit (σ : Type) where
  /-- The index that it was handed. -/
  index : SlotIndex
  /-- The block that it found. -/
  before : Block
  /-- The state that it was called with. -/
  given : σ
  /-- The block that it left. -/
  after : Block
  /-- The state that it returned. -/
  returned : σ
  /-- Is the scan to go on? -/
  goOn : Bool

/-- **A visitor that notes down what it is called with** and does otherwise what `visit` does. -/
def noting (visit : Visitor σ) : Visitor (σ × List (Visit σ)) := fun i b state =>
  let out := visit i b state.1
  (out.1, (out.2.1, state.2 ++ [⟨i, b, state.1, out.1, out.2.1, out.2.2⟩]), out.2.2)

/-- The calls that a scan makes. -/
def visits (b : Block) (visit : Visitor σ) (s : σ) : List (Visit σ) :=
  (b.scan (noting visit) (s, [])).2.1.2

/-- The calls that the visits along a list of indices make. -/
def callsAlong (visit : Visitor σ) : List SlotIndex → Block → σ → List (Visit σ)
  | [], _, _ => []
  | i :: rest, b, s =>
      let out := visit i b s
      ⟨i, b, s, out.1, out.2.1, out.2.2⟩ ::
        if out.2.2 then callsAlong visit rest out.1 out.2.1 else []

theorem visitInOrder_noting (visit : Visitor σ) (rest : List SlotIndex) (b : Block) (s : σ)
    (notes : List (Visit σ)) :
    visitInOrder (noting visit) rest b (s, notes) =
      ((visitInOrder visit rest b s).1,
        ((visitInOrder visit rest b s).2.1, notes ++ callsAlong visit rest b s),
        (visitInOrder visit rest b s).2.2) := by
  induction rest generalizing b s notes with
  | nil => simp [visitInOrder, callsAlong]
  | cons i rest ih =>
      rcases hv : visit i b s with ⟨b', s', _ | _⟩
      · simp [visitInOrder, noting, callsAlong, hv]
      · simp [visitInOrder, noting, callsAlong, hv, ih]

theorem visits_eq (b : Block) (visit : Visitor σ) (s : σ) :
    b.visits visit s = callsAlong visit b.mask.indices b s := by
  simp [visits, scan_eq_visitInOrder, visitInOrder_noting]

/-- **Noting changes nothing** of what a scan comes to. -/
theorem scan_noting (b : Block) (visit : Visitor σ) (s : σ) :
    b.scan (noting visit) (s, []) =
      ((b.scan visit s).1, ((b.scan visit s).2.1, b.visits visit s), (b.scan visit s).2.2) := by
  rw [visits_eq, scan_eq_visitInOrder, scan_eq_visitInOrder, visitInOrder_noting, List.nil_append]

/-- Each of these calls is one of `visit`, and finds the block and the state as the one before it
has left them; the first finds those at the head, and the last leaves those at the end. -/
def Threaded (visit : Visitor σ) : Block → σ → List (Visit σ) → Block → σ → Prop
  | b, s, [], c, t => b = c ∧ s = t
  | b, s, v :: rest, c, t =>
      (v.before = b ∧ v.given = s ∧ visit v.index b s = (v.after, v.returned, v.goOn)) ∧
        Threaded visit v.after v.returned rest c t

theorem threaded_callsAlong (visit : Visitor σ) (rest : List SlotIndex) (b : Block) (s : σ) :
    Threaded visit b s (callsAlong visit rest b s) (visitInOrder visit rest b s).1
      (visitInOrder visit rest b s).2.1 := by
  induction rest generalizing b s with
  | nil => exact ⟨rfl, rfl⟩
  | cons i rest ih =>
      rcases hv : visit i b s with ⟨b', s', _ | _⟩
      · simp [callsAlong, visitInOrder, hv, Threaded]
      · simpa [callsAlong, visitInOrder, hv, Threaded] using ih b' s'

/-- The calls of a scan begin on the block that it is given and end on the one that it leaves. -/
theorem threaded_visits (b : Block) (visit : Visitor σ) (s : σ) :
    Threaded visit b s (b.visits visit s) (b.scan visit s).1 (b.scan visit s).2.1 := by
  rw [visits_eq, scan_eq_visitInOrder]
  exact threaded_callsAlong visit b.mask.indices b s

/-- The calls before one of them end on the block that it finds. -/
theorem Threaded.up_to {visit : Visitor σ} {s t : σ} {earlier later : List (Visit σ)} {v : Visit σ}
    (h : Threaded visit b s (earlier ++ v :: later) c t) :
    Threaded visit b s earlier v.before v.given := by
  induction earlier generalizing b s with
  | nil => exact ⟨h.1.1.symm, h.1.2.1.symm⟩
  | cons u earlier ih => exact ⟨h.1, ih h.2⟩

/-! ## Visitors that work on the block by its operations -/

/-- Each of these calls works on the block that it finds by operations, with the entries `hand i` in
hand when it was handed the index `i`. -/
def Operates (visits : List (Visit σ)) (hand : SlotIndex → Set SlotIndex) : Prop :=
  ∀ v ∈ visits, ∃ steps, Run (hand v.index) v.before steps v.after

/-- The entries that were in hand in the course of some calls. -/
def inHand (hand : SlotIndex → Set SlotIndex) (visits : List (Visit σ)) : Set SlotIndex :=
  {j | ∃ v ∈ visits, j ∈ hand v.index}

/-- **A scan is a run** of the operations that its visitor performs, one call after the other. -/
theorem run_of_threaded {visit : Visitor σ} {hand : SlotIndex → Set SlotIndex} {s t : σ}
    {visits : List (Visit σ)} (hvisits : Operates visits hand)
    (h : Threaded visit b s visits c t) : ∃ steps, Run (inHand hand visits) b steps c := by
  induction visits generalizing b s with
  | nil =>
      obtain ⟨rfl, -⟩ := h
      exact ⟨[], .nil⟩
  | cons v rest ih =>
      obtain ⟨⟨rfl, -, -⟩, hrest⟩ := h
      obtain ⟨steps, hsteps⟩ := hvisits v (by simp)
      obtain ⟨more, hmore⟩ := ih (fun u hu => hvisits u (by simp [hu])) hrest
      have hfirst : hand v.index ⊆ inHand hand (v :: rest) := fun j hj => ⟨v, by simp, hj⟩
      have hothers : inHand hand rest ⊆ inHand hand (v :: rest) := by
        rintro j ⟨u, hu, hj⟩
        exact ⟨u, by simp [hu], hj⟩
      exact ⟨steps ++ more, (hsteps.mono hfirst).append (hmore.mono hothers)⟩

/-- The visitor that takes every entry back. -/
def releasing : Visitor σ := fun i b s => ((b.releaseEntry i).1, s, true)

/-- It works by operations: each entry is still in use when it is handed out, for only those visited
before have been taken back. -/
theorem operates_releasing (b : Block) (s : σ) :
    Operates (b.visits releasing s) fun _ => ∅ := by
  rw [visits_eq]
  have hnodup : b.mask.indices.Nodup := b.mask.pairwise_indices.imp ne_of_lt
  have hinUse : ∀ i ∈ b.mask.indices, b.inUse i = true := fun i => Mask.mem_indices.1
  generalize b.mask.indices = rest at hnodup hinUse
  induction rest generalizing b with
  | nil => simp [callsAlong, Operates]
  | cons i rest ih =>
      obtain ⟨hi, hnodup⟩ := List.nodup_cons.1 hnodup
      have hrest : ∀ j ∈ rest, (b.releaseEntry i).1.inUse j = true := by
        intro j hj
        have hne : j ≠ i := ne_of_mem_of_not_mem hj hi
        simp [hne, hinUse j (by simp [hj])]
      rintro v hv
      rcases List.mem_cons.1 hv with rfl | hv
      · have hpermitted : (Op.release i).Permitted ∅ b := hinUse i (by simp)
        exact ⟨_, .cons (.release i) hpermitted .nil⟩
      · exact ih (b.releaseEntry i).1 hnodup hrest v hv

end Block

end RootStore
