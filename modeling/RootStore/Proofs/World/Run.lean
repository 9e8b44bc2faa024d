import Mathlib
import RootStore.World.Collector
import RootStore.World.Mutator
import RootStore.World.Permission

/-!
# Runs of the world

A program acts on the world one event at a time.  Mutators allocate, release, read and write; the
collector begins and ends passes and iterates them; a visitor acts between two steps of the
iteration that called it, and may iterate in its turn.  So every nesting of iterations, whatever
their visitors do and wherever they panic, is one sequence of events on one world, whose stack of
calls says which iterations are under way.

* `Event`, `Reply` — what can be asked of the world, and what it answers.
* `World.perform` — one event; one that fails leaves the world as it was.
* `World.Permits` — what exclusion between passes and mutators allows.
* `Step`, `World.Run` — an event in the world it found, and sequences of permitted events.
-/

namespace RootStore

/-- One thing asked of the world. -/
inductive Event where
  /-- A storage is made. -/
  | create (settings : Settings)
  /-- A storage is dropped. -/
  | drop (storage : Nat)
  /-- An entry is allocated. -/
  | allocate (storage : Nat)
  /-- A handle is given back to a storage. -/
  | release (storage handle : Nat)
  /-- An entry is read through its handle. -/
  | get (storage handle : Nat)
  /-- An entry is written through its handle. -/
  | set (storage handle : Nat) (v : Option Reference)
  /-- Empty blocks are deleted, giving way to a concurrent pass where `yielding` says so. -/
  | delete (storage : Nat) (yielding : Bool)
  /-- A pass begins. -/
  | beginPass (storage : Nat) (concurrent : Bool) (access : Access)
  /-- A pass ends. -/
  | endPass (pass : Nat)
  /-- A pass is let go of without being ended. -/
  | forgetPass (pass : Nat)
  /-- An iteration of a pass is entered. -/
  | enter (pass : Nat) (method : Method)
  /-- The innermost iteration takes a step; its visitor, if it was called, has returned. -/
  | advance
  /-- The judge that the innermost iteration has called returns its verdict. -/
  | judge (alive : Bool)
  /-- The visitor or judge that the innermost iteration has called panics out of it. -/
  | panic
  /-- A visitor reads an entry in its hand. -/
  | load (e : Entry)
  /-- A visitor writes an entry in its hand. -/
  | store (e : Entry) (v : Option Reference)
  /-- A visitor compares and exchanges an entry in its hand. -/
  | exchange (e : Entry) (expected : Reference) (new : Option Reference)
  deriving DecidableEq

deriving instance DecidableEq for Progress

/-- What the world answers. -/
inductive Reply where
  /-- It is done. -/
  | done
  /-- The storage that was made. -/
  | created (storage : Nat)
  /-- The handle that was issued, unless the limit forbade it. -/
  | allocated (handle : Option Nat)
  /-- What an entry holds. -/
  | content (v : Option Reference)
  /-- How many blocks were deleted. -/
  | deleted (count : Nat)
  /-- The pass that began. -/
  | began (pass : Nat)
  /-- What a step of an iteration of the pass has led to. -/
  | progressed (pass : Nat) (progress : Progress)
  /-- How an exchange went. -/
  | exchanged (outcome : Except (Option Reference) Reference)
  /-- The operation took effect and panicked. -/
  | panicked (cause : Panic)
  /-- The operation did not take place. -/
  | failed (why : Failure)
  deriving DecidableEq

namespace World

/-- The pass that the innermost iteration belongs to. -/
def innermost (w : World) : Nat := (w.calls.head?.map (·.pass)).getD 0

/-- One event, where it takes place. -/
def act (w : World) : Event → Except Failure (World × Reply)
  | .create settings => .ok ((w.create settings).1, .created (w.create settings).2)
  | .drop id => (w.drop id).map fun w => (w, .done)
  | .allocate id => (w.allocate id).map fun (w, handle) => (w, .allocated handle)
  | .release id number => (w.release id number).map fun (w, panic) =>
      (w, panic.elim .done .panicked)
  | .get id number => (w.get id number).map fun v => (w, .content v)
  | .set id number v => (w.set id number v).map fun w => (w, .done)
  | .delete id yielding => (w.deleteEmpty id yielding).map fun (w, count) => (w, .deleted count)
  | .beginPass id concurrent access =>
      (w.beginPass id concurrent access).map fun (w, pass) => (w, .began pass)
  | .endPass pass => (w.endPass pass).map fun w => (w, .done)
  | .forgetPass pass => (w.forgetPass pass).map fun w => (w, .done)
  | .enter pass method => (w.enter pass method).map fun w => (w, .done)
  | .advance => w.advance.map fun (w', progress) => (w', .progressed w.innermost progress)
  | .judge alive => (w.judge alive).map fun (w', progress) => (w', .progressed w.innermost progress)
  | .panic => w.leave.map fun w => (w, .done)
  | .load e => (w.load e).map fun v => (w, .content v)
  | .store e v => (w.store e v).map fun w => (w, .done)
  | .exchange e expected new =>
      (w.exchange e expected new).map fun (w, outcome) => (w, .exchanged outcome)

/-- One event, with its answer; one that fails leaves the world as it was. -/
def perform (w : World) (e : Event) : World × Reply :=
  match w.act e with
  | .ok outcome => outcome
  | .error why => (w, .failed why)

/-- The entry is in the hand of a visitor that has not returned yet. -/
def InHand (w : World) (e : Entry) : Prop := ∃ c ∈ w.calls, c.stage = .visiting e

/-- The entry is in use. -/
def EntryInUse (w : World) (e : Entry) : Prop :=
  ∃ s b, w.storages.get? e.storage = some s ∧ s.blocks.get? e.place.block = some b ∧
    b.inUse e.place.slot = true

/-- **What is allowed.**  A storage is dropped, purged or taken over by a safepoint pass only where
no pass over it is alive, and blocks are deleted only where no safepoint pass over it is; a pass is
not ended by its own visitor; an iteration uses a method that its pass offers, goes on when its
visitor or judge has returned, and is left by a panic only of these; entries are used only by
visitors that have them in hand, and written only in writable passes. -/
def Permits (w : World) : Event → Prop
  | .drop id => w.mayDrop id = true
  | .delete id yielding => (if yielding then w.mayDelete id else w.mayPurge id) = true
  | .beginPass id concurrent _ => w.mayBegin id concurrent = true
  | .endPass pass | .forgetPass pass => w.mayEnd pass = true
  | .enter pass method => ∀ p, w.passes.get? pass = some p → p.offers method = true
  | .advance => ∃ c, w.calls.head? = some c ∧ ∀ e object, c.stage ≠ .asking e object
  | .judge _ => ∃ c e object, w.calls.head? = some c ∧ c.stage = .asking e object
  | .panic => ∃ c, w.calls.head? = some c ∧ c.stage ≠ .ready
  | .load e => w.InHand e
  | .store e _ | .exchange e _ _ => w.InHand e ∧ e.access = .writable
  | .create _ | .allocate _ | .release _ _ | .get _ _ | .set _ _ _ => True

instance (stage : Stage) : Decidable (∀ e object, stage ≠ .asking e object) :=
  match stage with
  | .asking e object => .isFalse fun h => h e object rfl
  | .ready | .visiting _ => .isTrue (by simp)

instance (stage : Stage) : Decidable (∃ e object, stage = .asking e object) :=
  match stage with
  | .asking e object => .isTrue ⟨e, object, rfl⟩
  | .ready | .visiting _ => .isFalse (by simp)

instance (w : World) (e : Entry) : Decidable (w.InHand e) :=
  inferInstanceAs (Decidable (∃ c ∈ w.calls, c.stage = .visiting e))

/-- Whether an event is permitted can be told. -/
instance (w : World) (e : Event) : Decidable (w.Permits e) :=
  match e with
  | .drop id => inferInstanceAs (Decidable (w.mayDrop id = true))
  | .delete id yielding =>
      inferInstanceAs (Decidable ((if yielding then w.mayDelete id else w.mayPurge id) = true))
  | .beginPass id concurrent _ => inferInstanceAs (Decidable (w.mayBegin id concurrent = true))
  | .endPass pass | .forgetPass pass => inferInstanceAs (Decidable (w.mayEnd pass = true))
  | .enter pass method =>
      inferInstanceAs (Decidable (∀ p ∈ w.passes.get? pass, p.offers method = true))
  | .advance =>
      inferInstanceAs (Decidable (∃ c ∈ w.calls.head?, ∀ e object, c.stage ≠ .asking e object))
  | .judge _ =>
      decidable_of_iff (∃ c ∈ w.calls.head?, ∃ e object, c.stage = .asking e object) (by
        simp [Permits])
  | .panic => inferInstanceAs (Decidable (∃ c ∈ w.calls.head?, c.stage ≠ .ready))
  | .load e => inferInstanceAs (Decidable (w.InHand e))
  | .store e _ | .exchange e _ _ => inferInstanceAs (Decidable (w.InHand e ∧ e.access = .writable))
  | .create _ | .allocate _ | .release _ _ | .get _ _ | .set _ _ _ => .isTrue trivial

/-- An event that gives no value to an entry which is not in use. -/
def Careful (w : World) : Event → Prop
  | .store e (some _) => w.EntryInUse e
  | _ => True

instance (w : World) (e : Entry) : Decidable (w.EntryInUse e) :=
  decidable_of_iff (∃ s ∈ w.storages.get? e.storage, ∃ b ∈ s.blocks.get? e.place.block,
    b.inUse e.place.slot = true) (by simp [EntryInUse])

instance (w : World) (e : Event) : Decidable (w.Careful e) :=
  match e with
  | .store e (some _) => inferInstanceAs (Decidable (w.EntryInUse e))
  | .store _ none | .create _ | .drop _ | .allocate _ | .release _ _ | .get _ _ | .set _ _ _
  | .delete _ _ | .beginPass _ _ _ | .endPass _ | .forgetPass _ | .enter _ _ | .advance | .judge _
  | .panic | .load _ | .exchange _ _ _ => .isTrue trivial

end World

/-- An event together with the world that it found. -/
structure Step where
  /-- The world that the event found. -/
  before : World
  /-- The event. -/
  event : Event

namespace Step

/-- The world that the event left. -/
def after (st : Step) : World := (st.before.perform st.event).1

/-- What was answered. -/
def reply (st : Step) : Reply := (st.before.perform st.event).2

end Step

namespace World

/-- Sequences of permitted events, each acting on the world that those before it have left. -/
inductive Run : World → List Step → World → Prop
  /-- Nothing happens. -/
  | nil (w : World) : Run w [] w
  /-- One event more. -/
  | snoc {w w₁ : World} {steps : List Step} (e : Event) : Run w steps w₁ → w₁.Permits e →
      Run w (steps ++ [⟨w₁, e⟩]) (w₁.perform e).1

/-- A world that a run from nothing can lead to. -/
def Reachable (w : World) : Prop := ∃ steps, Run {} steps w

/-- Two runs one after the other are one run. -/
theorem Run.append {w w₁ w₂ : World} {steps steps' : List Step} (h : Run w steps w₁)
    (h' : Run w₁ steps' w₂) : Run w (steps ++ steps') w₂ := by
  induction h' with
  | nil => simpa using h
  | snoc e _ hp ih => rw [← List.append_assoc]; exact .snoc e ih hp

/-- The steps that some events make, one after the other. -/
def trail (w : World) : List Event → List Step
  | [] => []
  | e :: events => ⟨w, e⟩ :: (w.perform e).1.trail events

/-- The world that some events leave, one after the other. -/
def afterAll (w : World) : List Event → World
  | [] => w
  | e :: events => (w.perform e).1.afterAll events

/-- Each of these events is permitted when its turn comes. -/
def PermitsAll (w : World) : List Event → Prop
  | [] => True
  | e :: events => w.Permits e ∧ (w.perform e).1.PermitsAll events

instance (w : World) (events : List Event) : Decidable (w.PermitsAll events) :=
  match events with
  | [] => .isTrue trivial
  | e :: events =>
      haveI : Decidable ((w.perform e).1.PermitsAll events) := instDecidablePermitsAll _ _
      inferInstanceAs (Decidable (w.Permits e ∧ (w.perform e).1.PermitsAll events))

theorem trail_append (events events' : List Event) (w : World) :
    w.trail (events ++ events') = w.trail events ++ (w.afterAll events).trail events' := by
  induction events generalizing w with
  | nil => rfl
  | cons e events ih => simp [trail, afterAll, ih]

theorem afterAll_append (events events' : List Event) (w : World) :
    w.afterAll (events ++ events') = (w.afterAll events).afterAll events' := by
  induction events generalizing w with
  | nil => rfl
  | cons e events ih => simp [afterAll, ih]

/-- Permitted events make a run. -/
theorem run_trail : ∀ (events : List Event) (w : World), w.PermitsAll events →
    Run w (w.trail events) (w.afterAll events) := by
  intro events
  induction events with
  | nil => intro w _; exact .nil w
  | cons e events ih =>
      rintro w ⟨hp, hrest⟩
      exact (Run.snoc e (.nil w) hp).append (ih _ hrest)

/-- A run that ends with a step, given by events. -/
theorem run_trail_last {w : World} {events : List Event} {e : Event}
    (h : w.PermitsAll (events ++ [e])) :
    let last : Step := ⟨w.afterAll events, e⟩
    Run w (w.trail events ++ [last]) last.after := by
  have hrun := run_trail _ _ h
  rw [trail_append, trail, afterAll_append, afterAll] at hrun
  exact hrun

/-- A run through two steps, given by events. -/
theorem run_trail_split {w : World} {before between later : List Event} {e f : Event}
    (h : w.PermitsAll (before ++ e :: (between ++ f :: later))) :
    let start : Step := ⟨w.afterAll before, e⟩
    let first : Step := ⟨start.after.afterAll between, f⟩
    Run w (w.trail before ++
      start :: (start.after.trail between ++ first :: first.after.trail later))
      (first.after.afterAll later) := by
  have hrun := run_trail _ _ h
  rw [trail_append, trail, trail_append, trail, afterAll_append, afterAll, afterAll_append,
    afterAll] at hrun
  exact hrun

/-- A run that ends with a step. -/
theorem Run.snoc_inv {w w' : World} {steps : List Step} {st : Step}
    (h : Run w (steps ++ [st]) w') :
    Run w steps st.before ∧ st.before.Permits st.event ∧ w' = st.after := by
  generalize hall : steps ++ [st] = all at h
  cases h with
  | nil => simp at hall
  | @snoc w₁ steps' e hrun hp =>
      obtain ⟨rfl, hst⟩ := List.append_inj' hall rfl
      obtain rfl := List.singleton_inj.1 hst
      exact ⟨hrun, hp, rfl⟩

/-- A run through a step is a run up to it and a run from there on. -/
theorem Run.split {w w' : World} {before after : List Step} {st : Step}
    (h : Run w (before ++ st :: after) w') :
    Run w before st.before ∧ st.before.Permits st.event ∧ Run st.after after w' := by
  induction after using List.reverseRecOn generalizing w' with
  | nil =>
      obtain ⟨hrun, hp, rfl⟩ := h.snoc_inv
      exact ⟨hrun, hp, .nil _⟩
  | append_singleton after last ih =>
      have h' : Run w ((before ++ st :: after) ++ [last]) w' := by simpa using h
      obtain ⟨hrun, hp, rfl⟩ := h'.snoc_inv
      obtain ⟨hbefore, hpst, hafter⟩ := ih hrun
      exact ⟨hbefore, hpst, .snoc last.event hafter hp⟩

/-- What holds at the beginning and is kept by every permitted event holds all along. -/
theorem Run.invariant {P : World → Prop} {w w' : World} {steps : List Step} (h : Run w steps w')
    (hinit : P w) (hstep : ∀ w e, P w → w.Permits e → P (w.perform e).1) : P w' := by
  induction h with
  | nil => exact hinit
  | snoc e _ hp ih => exact hstep _ e ih hp

end World

end RootStore
