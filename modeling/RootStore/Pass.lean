import RootStore.Storage.Basic

/-!
# Passes

A pass walks one storage's list a block at a time.  Its cursor is pinned to the head of the list at
the first call of an iteration and from then on only moves along the list: to claim a block is to
move the cursor past it, so no block is claimed twice, and blocks linked after the pinning, which
stand in front of the pinned head, are never claimed.

* `Pass.moveCursor` — moves the cursor from where it is expected to stand.
* `Pass.start?` — pins the cursor, the first time.
* `Pass.claim` — the next block, with the entries in use at that moment.
* `Method`, `Pass.offers` — the ways of visiting, and which pass offers which.
-/

namespace RootStore

/-- Which entries an iteration hands to its visitor. -/
inductive Method where
  /-- Every entry in use. -/
  | every
  /-- Every entry that does not hold null. -/
  | nonNull
  /-- Every entry whose object is judged alive; an entry whose object is judged dead is cleared. -/
  | alive
  deriving DecidableEq

/-- Where a pass stands. -/
inductive Cursor where
  /-- No iteration has begun. -/
  | notStarted
  /-- The next block to claim, if any is left. -/
  | upcoming (block : Option Nat)
  deriving DecidableEq

/-- One walk over a storage. -/
structure Pass where
  /-- The id of the storage. -/
  storage : Nat
  /-- Does it run beside the mutators? -/
  concurrent : Bool
  /-- May its visitors write entries? -/
  access : Access
  /-- Where it stands. -/
  cursor : Cursor := .notStarted
  /-- How many blocks it has claimed. -/
  claimed : Nat := 0
  deriving DecidableEq

namespace Pass

/-- The methods that pass over entries by their content need the mutators stopped and the entries
writable; visiting every entry is always offered. -/
def offers (p : Pass) : Method → Bool
  | .every => true
  | .nonNull | .alive => !p.concurrent && p.access = .writable

/-- Moves the cursor from where it is expected to stand, and fails where it stands elsewhere. -/
def moveCursor (p : Pass) (expected new : Cursor) : Option Pass :=
  if p.cursor = expected then some { p with cursor := new } else none

/-- Pins the cursor to the head of the list; fails where it was pinned before. -/
def start? (p : Pass) (head : Option Nat) : Option Pass :=
  p.moveCursor .notStarted (.upcoming head)

/-- A claimed block: its number and the entries in use at that moment. -/
structure Claim where
  /-- The block's number. -/
  block : Nat
  /-- The entries to visit. -/
  snapshot : Mask

/-- Claims the next block of the pass's storage, if any is left. -/
def claim (p : Pass) (s : Storage) : Except Fault (Pass × Option Claim) :=
  match p.cursor with
  | .notStarted => .error .notStarted
  | .upcoming none => .ok (p, none)
  | .upcoming (some n) => do
      let b ← s.block n
      return ({ p with cursor := .upcoming b.next, claimed := p.claimed + 1 }, some ⟨n, b.mask⟩)

/-! ## Pinning -/

/-- The cursor is pinned once: after that it stands elsewhere than before the start. -/
theorem start?_eq_none_iff {p : Pass} {head : Option Nat} :
    p.start? head = none ↔ p.cursor ≠ .notStarted := by
  simp [start?, moveCursor]

theorem start?_eq_some_iff {p q : Pass} {head : Option Nat} :
    p.start? head = some q ↔
      p.cursor = .notStarted ∧ q = { p with cursor := .upcoming head } := by
  simp [start?, moveCursor, eq_comm]

/-- A claim that succeeds takes the block at the cursor, moves the cursor to the block's older
neighbour and counts one block more. -/
theorem claim_eq_some {p q : Pass} {s : Storage} {c : Claim} (h : p.claim s = .ok (q, some c)) :
    p.cursor = .upcoming (some c.block) ∧ ∃ b, s.blocks.get? c.block = some b ∧
      c.snapshot = b.mask ∧
      q = { p with cursor := .upcoming b.next, claimed := p.claimed + 1 } := by
  simp only [claim] at h
  split at h
  · simp at h
  · simp at h
  · rename_i n hn
    rcases hb : s.block n with f | b
    · simp [hb, bind, Except.bind] at h
    · simp only [hb, bind, Except.bind, pure, Except.pure, Except.ok.injEq, Prod.mk.injEq,
        Option.some.injEq] at h
      obtain ⟨rfl, rfl⟩ := h
      exact ⟨hn, b, Storage.block_eq_ok_iff.1 hb, rfl, rfl⟩

/-- A claim finds nothing exactly where the cursor has come to the end; nothing changes then. -/
theorem claim_eq_none_iff {p q : Pass} {s : Storage} :
    p.claim s = .ok (q, none) ↔ p.cursor = .upcoming none ∧ q = p := by
  simp only [claim]
  split
  · rename_i h; simp [h]
  · rename_i h; simp [h, eq_comm]
  · rename_i n h
    rcases s.block n with f | b <;> simp [h, bind, Except.bind, pure, Except.pure]

end Pass

end RootStore
