import RootStore.Address
import RootStore.Proofs.Storage.Removal
import RootStore.Pass

/-!
# Workers that race for blocks

Any number of workers iterate one concurrent pass at the same time.  Each takes one step at a time:
it reads or exchanges the cursor, reads the head of the list or the link of a block, or counts a
block; between any two steps the others take theirs, and mutators allocate, release and delete.  A
cursor is a pointer, so what is compared and exchanged is an address, and an address may have
belonged to another block before.

* `Race.Worker` — where a worker stands in its program.
* `Race` — the storage, where its blocks lie, the pass and the workers.
* `Race.compareExchange` — the cursor is exchanged by address.
* `Race.work` — one step of a worker.
* `Race.act`, `Race.Run` — one step of anybody, and sequences of them.
* `Race.play` — the race that some steps lead to.
* `Race.start_alone`, `Race.claim_alone`, `Race.exhaust_alone` — a worker that is left alone starts
  the pass and claims its blocks as an iteration does.
-/

namespace RootStore

/-- Where a worker stands in its program: it makes sure that the pass has started, then claims
blocks until none is left, and may start all over. -/
inductive Race.Worker where
  /-- It is about to look whether the pass has started. -/
  | entering
  /-- It is about to read the head of the list. -/
  | reading
  /-- It has read the head, when the list was `seen`, and is about to start the pass there. -/
  | starting (head : Option Nat) (seen : List Nat)
  /-- It is about to read the cursor. -/
  | fetching
  /-- It has read the cursor, and is about to read the link of the block there. -/
  | holding (cursor : Cursor)
  /-- It has read the link of block `n`, and is about to move the cursor from the block past it. -/
  | moving (n : Nat) (next : Option Nat)
  /-- It has moved the cursor past block `n`, and is about to count the block. -/
  | counting (n : Nat)
  /-- It has found no block left. -/
  | finished
  deriving DecidableEq

/-- A storage that workers named in `ι` iterate.  The last four parts only note what has
happened. -/
structure Race (ι : Type) where
  /-- The storage. -/
  storage : Storage
  /-- Where the blocks lie. -/
  address : Nat → Address
  /-- The pass, whose cursor and count the workers share. -/
  pass : Pass
  /-- The workers. -/
  worker : ι → Race.Worker
  /-- The list when its head was read by the worker that has started the pass. -/
  pinned : Option (List Nat) := none
  /-- Who has moved the cursor past which block. -/
  won : List (ι × Nat) := []
  /-- To whom which block has been returned. -/
  returned : List (ι × Nat) := []
  /-- Who has found no block left. -/
  exhausted : List ι := []

namespace Race

variable {ι : Type} [DecidableEq ι]

/-- The workers set about a pass that has not started. -/
def begin (s : Storage) (address : Nat → Address) (p : Pass) : Race ι where
  storage := s
  address := address
  pass := p
  worker := fun _ => .entering

/-- The word that a cursor is. -/
def word (r : Race ι) : Cursor → Address
  | .notStarted => 1#64
  | .upcoming none => 0#64
  | .upcoming (some n) => r.address n

/-- Exchanges the cursor where it is the same word as expected. -/
def compareExchange (r : Race ι) (expected new : Cursor) : Option Pass :=
  if r.word r.pass.cursor = r.word expected then some { r.pass with cursor := new } else none

/-- A worker has come to another place in its program. -/
def goto (r : Race ι) (i : ι) (place : Worker) : Race ι :=
  { r with worker := Function.update r.worker i place }

/-- One step of a worker.  An exchange that may fail without reason does so where `spurious`
says. -/
def work (r : Race ι) (i : ι) (spurious : Bool) : Except Fault (Race ι) :=
  match r.worker i with
  | .entering =>
      .ok (r.goto i (if r.word r.pass.cursor = r.word .notStarted then .reading else .fetching))
  | .reading => .ok (r.goto i (.starting r.storage.head r.storage.linked))
  | .starting head seen =>
      match r.compareExchange .notStarted (.upcoming head) with
      | some p => .ok { r.goto i .fetching with pass := p, pinned := some seen }
      | none => .ok (r.goto i .fetching)
  | .fetching =>
      if r.word r.pass.cursor = r.word .notStarted then .error .notStarted
      else .ok (r.goto i (.holding r.pass.cursor))
  | .holding .notStarted => .error .notStarted
  | .holding (.upcoming none) =>
      .ok { r.goto i .finished with exhausted := r.exhausted ++ [i] }
  | .holding (.upcoming (some n)) => do
      let b ← r.storage.block n
      return r.goto i (.moving n b.next)
  | .moving n next =>
      match if spurious then none else r.compareExchange (.upcoming (some n)) (.upcoming next) with
      | some p => .ok { r.goto i (.counting n) with pass := p, won := r.won ++ [(i, n)] }
      | none => .ok (r.goto i (.holding r.pass.cursor))
  | .counting n =>
      .ok { r.goto i .fetching with
        pass := { r.pass with claimed := r.pass.claimed + 1 }
        returned := r.returned ++ [(i, n)] }
  | .finished => .ok (r.goto i .entering)

/-- What can happen. -/
inductive Action (ι : Type) where
  /-- A worker takes a step. -/
  | work (i : ι) (spurious : Bool)
  /-- An entry is allocated, in a new block at the address given if one is needed. -/
  | allocate (a : Address)
  /-- An entry is released. -/
  | release (p : Place)
  /-- Empty blocks are deleted, giving way to the pass. -/
  | delete

/-- Blocks in memory lie at addresses of their own. -/
structure Placed (s : Storage) (address : Nat → Address) : Prop where
  block : ∀ n ∈ s.linked, (address n).IsBlock
  injective : ∀ m ∈ s.linked, ∀ n ∈ s.linked, address m = address n → m = n

/-- A new block lies where none lies, and an entry that is released is in use. -/
def Permits (r : Race ι) : Action ι → Prop
  | .allocate a => a.IsBlock ∧ ∀ n ∈ r.storage.linked, r.address n ≠ a
  | .release p => r.storage.InUse p
  | .work _ _ | .delete => True

/-- One step of anybody. -/
def act (r : Race ι) : Action ι → Except Fault (Race ι)
  | .work i spurious => r.work i spurious
  | .allocate a => do
      let s ← r.storage.allocate
      return { r with
        storage := s.storage
        address :=
          if s.linked then Function.update r.address s.storage.blocks.size a else r.address }
  | .release p => do
      let s ← r.storage.release p
      return { r with storage := s }
  | .delete => do
      let d ← r.storage.deleteEmpty true
      return { r with storage := d.storage }

/-- Sequences of permitted steps, in any order. -/
inductive Run : Race ι → List (Action ι) → Race ι → Prop
  /-- Nothing happens. -/
  | nil (r : Race ι) : Run r [] r
  /-- One step more. -/
  | snoc {r r₁ r₂ : Race ι} {actions : List (Action ι)} (a : Action ι) : Run r actions r₁ →
      r₁.Permits a → r₁.act a = .ok r₂ → Run r (actions ++ [a]) r₂

variable {r r' r₁ : Race ι} {actions later : List (Action ι)} {i : ι}

/-- Two runs one after the other are one run. -/
theorem Run.append (h : Run r actions r₁) (h' : Run r₁ later r') : Run r (actions ++ later) r' := by
  induction h' with
  | nil => simpa using h
  | snoc a _ ha heq ih => rw [← List.append_assoc]; exact .snoc a ih ha heq

/-! ## Runs that are worked out -/

instance (a : Address) : Decidable a.IsBlock :=
  inferInstanceAs (Decidable (_ ∧ _ ∧ _))

instance (s : Storage) (p : Place) : Decidable (s.InUse p) :=
  decidable_of_iff (∃ b ∈ s.blocks.get? p.block, b.inUse p.slot = true) (by
    simp [Storage.InUse])

instance (s : Storage) (address : Nat → Address) : Decidable (Placed s address) :=
  decidable_of_iff ((∀ n ∈ s.linked, (address n).IsBlock) ∧
    ∀ m ∈ s.linked, ∀ n ∈ s.linked, address m = address n → m = n)
    ⟨fun h => ⟨h.1, h.2⟩, fun h => ⟨h.block, h.injective⟩⟩

/-- Whether a step is permitted can be told. -/
instance (r : Race ι) (a : Action ι) : Decidable (r.Permits a) :=
  match a with
  | .allocate a =>
      inferInstanceAs (Decidable (a.IsBlock ∧ ∀ n ∈ r.storage.linked, r.address n ≠ a))
  | .release p => inferInstanceAs (Decidable (r.storage.InUse p))
  | .work _ _ | .delete => .isTrue trivial

/-- The race that some steps lead to, if they are permitted and succeed. -/
def play (r : Race ι) : List (Action ι) → Option (Race ι)
  | [] => some r
  | a :: actions =>
      if r.Permits a then
        match r.act a with
        | .ok r' => r'.play actions
        | .error _ => none
      else none

/-- Steps that lead somewhere make a run. -/
theorem run_play : ∀ (actions : List (Action ι)) (r : Race ι), r.play actions = some r' →
    Run r actions r' := by
  intro actions
  induction actions with
  | nil =>
      intro r h
      obtain rfl := Option.some.inj h
      exact .nil r
  | cons a actions ih =>
      intro r h
      unfold play at h
      split at h
      · rename_i ha
        rcases heq : r.act a with f | r₁ <;> simp only [heq] at h
        · cases h
        · exact (Run.snoc a (.nil r) ha heq).append (ih r₁ h)
      · cases h

/-! ## A worker that is left alone -/

/-- Some steps of one worker, with nothing in between and no exchange that fails without reason. -/
def workAlone (r : Race ι) (i : ι) : Nat → Except Fault (Race ι)
  | 0 => .ok r
  | k + 1 => do
      let r ← r.work i false
      r.workAlone i k

/-- No block lies where the word is that stands for a pass that has not started. -/
theorem ne_one_of_isBlock {a : Address} (h : a.IsBlock) : a ≠ 1#64 := by
  rintro rfl
  exact absurd h.2.1 (by decide)

/-- A worker that comes upon a pass which has not started starts it at the head of the list. -/
theorem start_alone (hi : r.worker i = .entering) (hcursor : r.pass.cursor = .notStarted) :
    ∃ r', r.workAlone i 3 = .ok r' ∧ r'.worker i = .fetching ∧ r'.storage = r.storage ∧
      r.pass.start? r.storage.head = some r'.pass := by
  refine ⟨{ r.goto i .fetching with
    pass := { r.pass with cursor := .upcoming r.storage.head }, pinned := some r.storage.linked },
    ?_, ?_, rfl, ?_⟩
  · simp [workAlone, work, goto, compareExchange, hi, hcursor, bind, Except.bind]
  · simp [goto]
  · simp [Pass.start?, Pass.moveCursor, hcursor]

/-- A worker claims the block that a claim of the pass yields, and leaves the pass as the claim
does. -/
theorem claim_alone {q : Pass} {c : Pass.Claim} (hi : r.worker i = .fetching)
    (hplaced : (r.address c.block).IsBlock) (hclaim : r.pass.claim r.storage = .ok (q, some c)) :
    ∃ r', r.workAlone i 4 = .ok r' ∧ r'.worker i = .fetching ∧ r'.storage = r.storage ∧
      r'.pass = q ∧ r'.returned = r.returned ++ [(i, c.block)] := by
  obtain ⟨hcursor, b, hb, -, rfl⟩ := Pass.claim_eq_some hclaim
  have hne := ne_one_of_isBlock hplaced
  refine ⟨{ r.goto i .fetching with
    pass := { r.pass with cursor := .upcoming b.next, claimed := r.pass.claimed + 1 }
    won := r.won ++ [(i, c.block)]
    returned := r.returned ++ [(i, c.block)] }, ?_, ?_, rfl, rfl, rfl⟩
  · simp [workAlone, work, goto, compareExchange, word, Storage.block, hi, hcursor, hb, hne, bind,
      Except.bind, pure, Except.pure]
  · simp [goto]

/-- A worker finds no block left where a claim of the pass finds none. -/
theorem exhaust_alone {q : Pass} (hi : r.worker i = .fetching)
    (hclaim : r.pass.claim r.storage = .ok (q, none)) :
    ∃ r', r.workAlone i 2 = .ok r' ∧ r'.worker i = .finished ∧ r'.storage = r.storage ∧
      r'.pass = q ∧ r'.exhausted = r.exhausted ++ [i] := by
  obtain ⟨hcursor, rfl⟩ := Pass.claim_eq_none_iff.1 hclaim
  refine ⟨{ r.goto i .finished with exhausted := r.exhausted ++ [i] }, ?_, ?_, rfl, rfl, rfl⟩
  · simp [workAlone, work, goto, word, hi, hcursor, bind, Except.bind]
  · simp [goto]

end Race

end RootStore
