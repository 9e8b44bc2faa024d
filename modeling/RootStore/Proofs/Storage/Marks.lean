import RootStore.Pass
import RootStore.Storage.Allocation
import RootStore.Storage.Deletion

/-!
# The marks that passes leave

A pass leaves two marks on its storage: the flag, while it runs beside the mutators, and its count
among the passes begun.  Nothing that is done to a storage asks for the count, and only the deletion
that gives way to passes asks for the flag.  All else goes the same way whatever the marks are, down
to the fault that it would end in.

* `Storage.marking` — the storage with other marks; `Storage.withFlag` and `Storage.unmarked` are
  cases of it.
* `Storage.allocate_marking`, `Storage.release_marking`, `Storage.store_marking`,
  `Storage.deleteEmpty_marking`, `Storage.dispose_marking` — **what is done to it is done all the
  same.**
-/

namespace RootStore

/-- The storage with other marks, given what becomes of its flag and of its count of passes. -/
def Storage.marking (flag : Bool → Bool) (count : Nat → Nat) (s : Storage) : Storage :=
  { s with
    iterating := flag s.iterating
    counters := { s.counters with passesStarted := count s.counters.passesStarted } }

/-- The storage with another flag. -/
def Storage.withFlag (s : Storage) (flag : Bool) : Storage := { s with iterating := flag }

/-- The storage without the marks of passes: it is not flagged, and has counted none. -/
def Storage.unmarked (s : Storage) : Storage :=
  { s with iterating := false, counters := { s.counters with passesStarted := 0 } }

section

variable (flag : Bool → Bool) (count : Nat → Nat)

/-- The same outcome, with other marks. -/
def Allocation.marking (a : Allocation) : Allocation :=
  { a with storage := a.storage.marking flag count }

/-- The same outcome, with other marks. -/
def Inspection.marking (i : Inspection) : Inspection :=
  { i with storage := i.storage.marking flag count }

/-- The same outcome, with other marks. -/
def Deletion.marking (d : Deletion) : Deletion :=
  { d with storage := d.storage.marking flag count }

end

namespace Storage

variable (flag : Bool → Bool) (count : Nat → Nat) (s : Storage) (n : Nat) (p : Place)

@[simp] theorem block_marking : (s.marking flag count).block n = s.block n := rfl

@[simp] theorem load_marking : (s.marking flag count).load p = s.load p := rfl

@[simp] theorem claim_marking (q : Pass) : q.claim (s.marking flag count) = q.claim s := rfl

/-! ## Links -/

theorem updateBlock_marking (change : Block → Block) :
    (s.marking flag count).updateBlock n change =
      (s.updateBlock n change).map (marking flag count) := by
  simp only [updateBlock, block_marking, bind, Except.bind]
  rcases s.block n with f | b <;> rfl

theorem link_marking :
    (s.marking flag count).link = s.link.map fun x => (x.1.marking flag count, x.2) := by
  rcases hhead : s.head with _ | old
  · simp only [link, marking, hhead, bind, Except.bind, pure, Except.pure, Except.map]
  · have hupdate := updateBlock_marking flag count
      { s with blocks := s.blocks.add { Block.fresh s.id with next := some old } } old
      fun b => { b with prev := some (s.blocks.size + 1) }
    simp only [marking, hhead] at hupdate
    simp only [link, marking, hhead, hupdate, bind, Except.bind, pure, Except.pure]
    rcases updateBlock _ old _ with f | s' <;> rfl

theorem unlink_marking :
    (s.marking flag count).unlink n = (s.unlink n).map (marking flag count) := by
  simp only [unlink, block_marking, bind, Except.bind]
  rcases s.block n with f | b
  · rfl
  dsimp only
  rcases b.prev with _ | newer
  · rcases b.next with _ | older
    · rfl
    · exact updateBlock_marking flag count { s with head := some older } older _
  · simp only [updateBlock_marking]
    rcases s.updateBlock newer _ with f | t
    · rfl
    · rcases b.next with _ | older
      · rfl
      · exact updateBlock_marking flag count t older _

theorem free_marking : (s.marking flag count).free n = (s.free n).map (marking flag count) := by
  simp only [free, block_marking, bind, Except.bind]
  rcases s.block n with f | b <;> rfl

theorem reclaim_marking :
    (s.marking flag count).reclaim n = (s.reclaim n).map (marking flag count) := by
  have hfree := free_marking flag count { s with available := s.available.filter (· ≠ n) } n
  simp only [marking] at hfree
  simp only [reclaim, marking, hfree, bind, Except.bind]
  rcases free _ n with f | s' <;> rfl

/-! ## Entries -/

theorem store_marking (v : Option Reference) :
    (s.marking flag count).store p v = (s.store p v).map (marking flag count) :=
  updateBlock_marking flag count s p.block _

theorem takeEntry_marking : (s.marking flag count).takeEntry n =
    (s.takeEntry n).map fun x => (x.1.marking flag count, x.2) := by
  simp only [takeEntry, block_marking, bind, Except.bind]
  rcases s.block n with f | b
  · rfl
  dsimp only
  rcases b.allocateEntry with _ | ⟨b', i⟩ <;> rfl

theorem allocate_marking :
    (s.marking flag count).allocate = s.allocate.map (Allocation.marking flag count) := by
  rcases havailable : s.available with _ | ⟨n, rest⟩
  · have hlimit : (s.marking flag count).atLimit = s.atLimit := rfl
    have havailable' : (s.marking flag count).available = [] := havailable
    simp only [allocate, havailable, havailable', hlimit, link_marking, bind, Except.bind]
    split
    · rfl
    · rcases s.link with f | ⟨t, n⟩
      · rfl
      · have htake := takeEntry_marking flag count { t with available := t.available ++ [n] } n
        simp only [Except.map, marking] at htake ⊢
        rw [htake]
        rcases takeEntry _ n with f | ⟨t', place⟩ <;> rfl
  · have havailable' : (s.marking flag count).available = n :: rest := havailable
    simp only [allocate, havailable, havailable', takeEntry_marking, bind, Except.bind]
    rcases s.takeEntry n with f | ⟨t, place⟩ <;> rfl

theorem release_marking :
    (s.marking flag count).release p = (s.release p).map (marking flag count) := by
  simp only [release, block_marking, bind, Except.bind]
  rcases s.block p.block with f | b
  · rfl
  have hid : (s.marking flag count).id = s.id := rfl
  simp only [hid]
  split <;> rfl

/-! ## Deletion and disposal -/

variable {flag} {yielding : Bool}

/-- Only a deletion that gives way asks for the flag. -/
theorem inspect_marking (hflag : yielding = true → ∀ b, flag b = b) :
    (s.marking flag count).inspect yielding n =
      (s.inspect yielding n).map (Inspection.marking flag count) := by
  have hasks : (yielding && (s.marking flag count).iterating) = (yielding && s.iterating) := by
    cases yielding with
    | false => rfl
    | true => exact hflag rfl s.iterating
  simp only [inspect, block_marking, unlink_marking, hasks, bind, Except.bind]
  rcases s.block n with f | b
  · rfl
  dsimp only
  split
  · rfl
  · split
    · rfl
    · rcases s.unlink n with f | t <;> rfl

/-- The walk of a deletion.  The induction is on the turns that it is given. -/
theorem deleteFrom_marking (hflag : yielding = true → ∀ b, flag b = b) (turns : Nat) :
    ∀ (s : Storage) (c : Option Nat) (deleted : Nat),
      deleteFrom yielding turns (s.marking flag count) c deleted =
        (deleteFrom yielding turns s c deleted).map (Deletion.marking flag count) := by
  induction turns with
  | zero => rintro s (_ | n) deleted <;> rfl
  | succ turns ih =>
      rintro s (_ | n) deleted
      · rfl
      simp only [deleteFrom, inspect_marking count s n hflag, bind, Except.bind]
      rcases s.inspect yielding n with f | ⟨t, next, _ | _ | _⟩
      · rfl
      · exact ih t next deleted
      · rfl
      · simp only [Except.map, Inspection.marking, reclaim_marking]
        rcases t.reclaim n with f | u
        · rfl
        · exact ih u next (deleted + 1)

theorem deleteEmpty_marking (hflag : yielding = true → ∀ b, flag b = b) :
    (s.marking flag count).deleteEmpty yielding =
      (s.deleteEmpty yielding).map (Deletion.marking flag count) := by
  have hwalk := deleteFrom_marking count hflag s.blocks.size s s.head 0
  have hsize : (s.marking flag count).blocks.size = s.blocks.size := rfl
  have hhead : (s.marking flag count).head = s.head := rfl
  simp only [deleteEmpty, hsize, hhead, hwalk, bind, Except.bind]
  rcases deleteFrom yielding s.blocks.size s s.head 0 with f | d <;> rfl

/-- The walk of a disposal.  The induction is on the turns that it is given. -/
theorem disposeFrom_marking (turns : Nat) : ∀ (s : Storage) (c : Option Nat),
    disposeFrom turns (s.marking flag count) c =
      (disposeFrom turns s c).map (marking flag count) := by
  induction turns with
  | zero => rintro s (_ | n) <;> rfl
  | succ turns ih =>
      rintro s (_ | n)
      · rfl
      simp only [disposeFrom, block_marking, free_marking, bind, Except.bind]
      rcases s.block n with f | b
      · rfl
      rcases s.free n with f | t
      · rfl
      · exact ih t b.next

theorem dispose_marking :
    (s.marking flag count).dispose = s.dispose.map (marking flag count) :=
  disposeFrom_marking count s.blocks.size s s.head

end Storage

end RootStore
