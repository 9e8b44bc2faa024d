import RootStore.Proofs.Race.Protocol
import RootStore.Proofs.World.Transition

/-!
# Passes and deletions that contend for a storage

A deletion that may run beside passes has mutators locked out from its beginning to its end, but
passes only while it looks at a block: between any two of its turns a pass may be begun, be worked
on or be ended.  Mutators take their steps whenever no deletion is under way.

* `Deleter` — where a deletion stands.
* `Contest` — a race together with a deletion; one pass after another may be raced for.
* `Contest.turn` — one turn of the deletion.
* `Contest.act`, `Contest.Run` — one step of anybody, and sequences of them.
* `Contest.play` — the contest that some steps lead to.
* `Contest.deletion_alone` — a deletion that is left alone does what `Storage.deleteEmpty` does.
* `Contest.beginPass_world`, `Contest.endPass_world` — passes begin and end as in a world.
-/

namespace RootStore

/-- Where a deletion stands. -/
inductive Deleter where
  /-- None is under way. -/
  | idle
  /-- It is about to look at the block at the cursor, if there is one; so many have been deleted. -/
  | looking (cursor : Option Nat) (deleted : Nat)
  /-- It has unlinked block `n`, whose `next` it has read, and is about to free it. -/
  | reclaiming (n : Nat) (next : Option Nat) (deleted : Nat)
  deriving DecidableEq

namespace Deleter

/-- The block that it looks at next. -/
def next? : Deleter → Option Nat
  | .idle => none
  | .looking cursor _ => cursor
  | .reclaiming _ next _ => next

/-- The block that it has taken out of the list, but not out of memory yet. -/
def detached? : Deleter → Option Nat
  | .idle | .looking _ _ => none
  | .reclaiming n _ _ => some n

end Deleter

/-- A storage with a pass that workers named in `ι` race for, if one is alive, and a deletion. -/
structure Contest (ι : Type) extends Race ι where
  /-- Is the pass alive? -/
  alive : Bool := false
  /-- The deletion, which locks mutators out. -/
  deleter : Deleter := .idle

namespace Contest

variable {ι : Type} [DecidableEq ι]

/-- A storage that no pass is alive over and no deletion is under way in. -/
def calm (s : Storage) (address : Nat → Address) : Contest ι where
  toRace := .begin s address { storage := s.id, concurrent := true, access := .readOnly }

/-- A pass begins: the flag is tested and set.  Nothing happens where it is set already. -/
def beginPass (c : Contest ι) (access : Access) : Contest ι :=
  if c.storage.iterating then c
  else
    let counters :=
      { c.storage.counters with passesStarted := c.storage.counters.passesStarted + 1 }
    { c with
      toRace := .begin { c.storage with iterating := true, counters } c.address
        { storage := c.storage.id, concurrent := true, access }
      alive := true }

/-- The pass ends: the flag, which must be set, is cleared. -/
def endPass (c : Contest ι) : Except Fault (Contest ι) :=
  if c.storage.iterating then
    .ok { c with storage := { c.storage with iterating := false }, alive := false }
  else .error .flagNotSet

/-- The deletion is over, and lets mutators in. -/
def close (c : Contest ι) (deleted : Nat) (inhibited : Bool) : Contest ι :=
  let counters := { c.storage.counters with
    blocksDeleted := c.storage.counters.blocksDeleted + deleted
    deletionsInhibited := c.storage.counters.deletionsInhibited + inhibited.toNat }
  { c with storage := { c.storage with counters }, deleter := .idle }

/-- One turn of the deletion: it looks at a block, having passes locked out, or frees one. -/
def turn (c : Contest ι) : Except Fault (Contest ι) :=
  match c.deleter with
  | .idle => .ok c
  | .looking none deleted => .ok (c.close deleted false)
  | .looking (some n) deleted => do
      let i ← c.storage.inspect true n
      match i.finding with
      | .occupied => return { c with storage := i.storage, deleter := .looking i.next deleted }
      | .inhibited => return { c with storage := i.storage }.close deleted true
      | .unlinked => return { c with storage := i.storage, deleter := .reclaiming n i.next deleted }
  | .reclaiming n next deleted => do
      let s ← c.storage.reclaim n
      return { c with storage := s, deleter := .looking next (deleted + 1) }

/-- What can happen. -/
inductive Action (ι : Type) where
  /-- A pass is begun. -/
  | beginPass (access : Access)
  /-- The pass ends. -/
  | endPass
  /-- A worker of the pass takes a step. -/
  | work (i : ι) (spurious : Bool)
  /-- An entry is allocated, in a new block at the address given if one is needed. -/
  | allocate (a : Address)
  /-- An entry is released. -/
  | release (p : Place)
  /-- A deletion begins at the head of the list. -/
  | beginDeletion
  /-- The deletion takes a turn. -/
  | turn
  deriving DecidableEq

/-- A pass that has ended is not worked on, and while a deletion is under way no other begins and no
mutator takes a step. -/
def Permits (c : Contest ι) : Action ι → Prop
  | .beginPass _ => True
  | .endPass | .work _ _ => c.alive = true
  | .allocate a => c.deleter = .idle ∧ c.toRace.Permits (.allocate a)
  | .release p => c.deleter = .idle ∧ c.toRace.Permits (.release p)
  | .beginDeletion => c.deleter = .idle
  | .turn => c.deleter ≠ .idle

/-- One step of anybody. -/
def act (c : Contest ι) : Action ι → Except Fault (Contest ι)
  | .beginPass access => .ok (c.beginPass access)
  | .endPass => c.endPass
  | .work i spurious => (c.toRace.work i spurious).map fun r => { c with toRace := r }
  | .allocate a => (c.toRace.act (.allocate a)).map fun r => { c with toRace := r }
  | .release p => (c.toRace.act (.release p)).map fun r => { c with toRace := r }
  | .beginDeletion => .ok { c with deleter := .looking c.storage.head 0 }
  | .turn => c.turn

/-- Sequences of permitted steps, in any order. -/
inductive Run : Contest ι → List (Action ι) → Contest ι → Prop
  /-- Nothing happens. -/
  | nil (c : Contest ι) : Run c [] c
  /-- One step more. -/
  | snoc {c c₁ c₂ : Contest ι} {actions : List (Action ι)} (a : Action ι) : Run c actions c₁ →
      c₁.Permits a → c₁.act a = .ok c₂ → Run c (actions ++ [a]) c₂

variable {c c' c₁ : Contest ι} {actions later : List (Action ι)}

/-- Two runs one after the other are one run. -/
theorem Run.append (h : Run c actions c₁) (h' : Run c₁ later c') : Run c (actions ++ later) c' := by
  induction h' with
  | nil => simpa using h
  | snoc a _ ha heq ih => rw [← List.append_assoc]; exact .snoc a ih ha heq

/-! ## Runs that are worked out -/

/-- Whether a step is permitted can be told. -/
instance (c : Contest ι) (a : Action ι) : Decidable (c.Permits a) :=
  match a with
  | .beginPass _ => .isTrue trivial
  | .endPass | .work _ _ => inferInstanceAs (Decidable (c.alive = true))
  | .allocate a => inferInstanceAs (Decidable (c.deleter = .idle ∧ c.toRace.Permits (.allocate a)))
  | .release p => inferInstanceAs (Decidable (c.deleter = .idle ∧ c.toRace.Permits (.release p)))
  | .beginDeletion => inferInstanceAs (Decidable (c.deleter = .idle))
  | .turn => inferInstanceAs (Decidable (c.deleter ≠ .idle))

/-- The contest that some steps lead to, if they are permitted and succeed. -/
def play (c : Contest ι) : List (Action ι) → Option (Contest ι)
  | [] => some c
  | a :: actions =>
      if c.Permits a then
        match c.act a with
        | .ok c' => c'.play actions
        | .error _ => none
      else none

/-- Steps that lead somewhere make a run. -/
theorem run_play : ∀ (actions : List (Action ι)) (c : Contest ι), c.play actions = some c' →
    Run c actions c' := by
  intro actions
  induction actions with
  | nil =>
      intro c h
      obtain rfl := Option.some.inj h
      exact .nil c
  | cons a actions ih =>
      intro c h
      unfold play at h
      split at h
      · rename_i ha
        rcases heq : c.act a with f | c₁ <;> simp only [heq] at h
        · cases h
        · exact (Run.snoc a (.nil c) ha heq).append (ih c₁ h)
      · cases h

/-! ## A deletion that is left alone -/

/-- Some turns of the deletion, with nothing in between. -/
def turns (c : Contest ι) : Nat → Except Fault (Contest ι)
  | 0 => .ok c
  | k + 1 => do
      let c ← c.turn
      c.turns k

omit [DecidableEq ι] in
/-- From where a deletion stands its turns lead to where `Storage.deleteFrom` leads.  The induction
is on the turns that `Storage.deleteFrom` may take; those in which it deletes a block are two of the
deleter's. -/
theorem turns_of_deleteFrom : ∀ (bound : Nat) (c : Contest ι) (cursor : Option Nat) (k : Nat)
    (d : Deletion), c.deleter = .looking cursor k →
    Storage.deleteFrom true bound c.storage cursor k = .ok d →
    ∃ j, c.turns j = .ok ({ c with storage := d.storage }.close d.deleted d.inhibited) := by
  intro bound
  induction bound with
  | zero =>
      intro c cursor k d hlooking hdelete
      cases cursor with
      | none =>
          obtain rfl := Except.ok.inj hdelete
          exact ⟨1, by simp only [turns, turn, hlooking, bind, Except.bind]; rfl⟩
      | some n => cases hdelete
  | succ bound ih =>
      intro c cursor k d hlooking hdelete
      cases cursor with
      | none =>
          obtain rfl := Except.ok.inj hdelete
          exact ⟨1, by simp only [turns, turn, hlooking, bind, Except.bind]; rfl⟩
      | some n =>
          rw [Storage.deleteFrom] at hdelete
          rcases hi : c.storage.inspect true n with f | i
          · simp [hi, bind, Except.bind] at hdelete
          simp only [hi, bind, Except.bind] at hdelete
          rcases hfinding : i.finding with _ | _ | _ <;> simp only [hfinding] at hdelete
          · obtain ⟨j, hj⟩ := ih { c with storage := i.storage, deleter := .looking i.next k } _ _ d
              rfl hdelete
            refine ⟨j + 1, ?_⟩
            simp only [turns, turn, hlooking, hi, hfinding, bind, Except.bind, pure, Except.pure]
            rw [hj]
            rfl
          · obtain rfl := Except.ok.inj hdelete
            exact ⟨1, by
              simp [turns, turn, hlooking, hi, hfinding, bind, Except.bind, pure, Except.pure]⟩
          · rcases hs : i.storage.reclaim n with f | s
            · simp [hs] at hdelete
            simp only [hs] at hdelete
            obtain ⟨j, hj⟩ := ih { c with storage := s, deleter := .looking i.next (k + 1) } _ _ d
              rfl hdelete
            refine ⟨j + 2, ?_⟩
            simp only [turns, turn, hlooking, hi, hfinding, hs, bind, Except.bind, pure,
              Except.pure]
            rw [hj]
            rfl

omit [DecidableEq ι] in
/-- **A deletion that is left alone** does what `Storage.deleteEmpty` does, and lets mutators in. -/
theorem deletion_alone {d : Deletion} (hdelete : c.storage.deleteEmpty true = .ok d) :
    ∃ k, { c with deleter := .looking c.storage.head 0 }.turns k =
      .ok { c with storage := d.storage, deleter := .idle } := by
  rw [Storage.deleteEmpty] at hdelete
  rcases hd : Storage.deleteFrom true c.storage.blocks.size c.storage c.storage.head 0 with f | d₁
  · simp [hd, bind, Except.bind] at hdelete
  simp only [hd, bind, Except.bind, pure, Except.pure] at hdelete
  obtain rfl := Except.ok.inj hdelete
  obtain ⟨k, hk⟩ := turns_of_deleteFrom _ { c with deleter := .looking c.storage.head 0 } _ _ d₁
    rfl hd
  exact ⟨k, hk⟩

/-! ## Passes begin and end as in a world -/

section World

variable {w w' : World} {id p : Nat} {access : Access}

omit [DecidableEq ι] in
/-- A concurrent pass that begins in a world does to the storage what one does that begins in a
contest, and is the same pass. -/
theorem beginPass_world (hw : w.Sound) (hs : w.storages.get? id = some c.storage)
    (hbegin : w.beginPass id true access = .ok (w', p)) : (c.beginPass access).alive = true ∧
      w'.storages.get? id = some (c.beginPass access).storage ∧
      w'.passes.get? p = some (c.beginPass access).pass := by
  have hid := (hw.storages id _ hs).1
  by_cases hflag : c.storage.iterating = true
  · simp [World.beginPass, World.storage_of_some hs, hflag, bind, Except.bind, throw, throwThe,
      MonadExceptOf.throw] at hbegin
  · simp only [World.beginPass, World.storage_of_some hs, bind, Except.bind, pure, Except.pure,
      Bool.true_and, hflag] at hbegin
    obtain ⟨rfl, rfl⟩ := Prod.mk.inj (Except.ok.inj hbegin)
    simp only [beginPass, hflag, Race.begin, World.record, World.setStorage]
    refine ⟨rfl, (Registry.get?_set_of_some hs _ _).trans (if_pos rfl), ?_⟩
    rw [hid]
    exact (Registry.get?_add _ _ _).trans (if_pos rfl)

omit [DecidableEq ι] in
/-- Where no concurrent pass can begin in a world, for another one, nothing happens in a contest. -/
theorem beginPass_refused {cause : Panic} (hs : w.storages.get? id = some c.storage)
    (hbegin : w.beginPass id true access = .error (.panic cause)) : c.beginPass access = c := by
  by_cases hflag : c.storage.iterating = true
  · simp [beginPass, hflag]
  · simp [World.beginPass, World.storage_of_some hs, hflag, bind, Except.bind, pure,
      Except.pure] at hbegin

omit [DecidableEq ι] in
/-- A concurrent pass that ends in a world does to the storage what one does that ends in a
contest. -/
theorem endPass_world {q : Pass} (hq : w.passes.get? p = some q) (hconcurrent : q.concurrent = true)
    (hs : w.storages.get? q.storage = some c.storage) (hend : w.endPass p = .ok w') :
    ∃ c', c.endPass = .ok c' ∧ c'.alive = false ∧
      w'.storages.get? q.storage = some c'.storage := by
  by_cases hflag : c.storage.iterating = true
  · simp only [World.endPass, World.pass_of_some hq, World.storageOf_of_some hs, hconcurrent, hflag,
      bind, Except.bind, pure, Except.pure] at hend
    obtain rfl := Except.ok.inj hend
    refine ⟨_, by simp only [endPass, hflag, if_true]; rfl, rfl, ?_⟩
    exact (Registry.get?_set_of_some hs _ _).trans (if_pos rfl)
  · simp [World.endPass, World.pass_of_some hq, World.storageOf_of_some hs, hconcurrent,
      hflag, bind, Except.bind, throw, throwThe, MonadExceptOf.throw] at hend

end World

end Contest

end RootStore
