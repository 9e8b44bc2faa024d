import RootStore.Proofs.Pass.Flag
import RootStore.Proofs.Storage.Shape
import RootStore.Proofs.World.Outcome

/-!
# Operations that keep what they have done

An operation that fails leaves the world as it was: this is how `World.perform` is set up.  Whether
it is so because nothing had been done yet, or because what had been done was forgotten, cannot be
told from that.  Here the operations that can be refused act on the world as they go, in the order
in which they have their effects, and what is done when one of them breaks off stays done.  It comes
to the same.

* `Attempt` — an operation on the world that may break off.
* `Attempt.allocate`, `Attempt.release`, `Attempt.get`, `Attempt.set`, `Attempt.beginPass` — those
  that can be refused.
* `World.attempt`, `World.Sound.attempt_eq` — **to carry them out step by step is to perform them.**
-/

namespace RootStore

/-- An operation on the world that may break off; what it has done by then stays done. -/
abbrev Attempt := ExceptT Failure (StateM World)

namespace Attempt

variable {α : Type}

/-- What an attempt leaves of the world, and its answer or why it broke off. -/
def carryOut (a : Attempt α) (w : World) : World × Except Failure α := (a.run.run w).swap

/-- Something that is worked out without touching the world. -/
def ofExcept (r : Except Failure α) : Attempt α := MonadExcept.ofExcept r

/-- The storage with an id. -/
def storage (id : Nat) : Attempt Storage := do ofExcept ((← get).storage id)

/-- The handle with a number, if it is still held. -/
def handle (number : Nat) : Attempt Handle := do ofExcept ((← get).handle number)

/-- The assertion that a handle was issued by the storage that it is used on. -/
def checkOwner (s : Storage) (h : Handle) : Attempt Unit :=
  if h.owner = s.id then pure () else throw (.panic (.foreignHandle h s.id s.name))

/-! ## Entries -/

/-- The number of the block in front of the queue.  Where none is queued one is linked, unless the
limit forbids it or there is no memory for it. -/
def front (id : Nat) (memory : Bool) : Attempt (Option Nat) := do
  let s ← storage id
  match s.available with
  | n :: _ => return some n
  | [] =>
      if s.atLimit || !memory then return none
      else
        let (s, n) ← ofExcept (Failure.ofFault s.link)
        modify (·.setStorage id { s with available := s.available ++ [n] })
        modify (·.record [.blockLinked s.name s.blockCount])
        return some n

/-- Allocates an entry and answers with the number of its handle.  There may be memory for a block,
should one be needed, or not. -/
def allocate (id : Nat) (memory : Bool) : Attempt (Option Nat) := do
  match ← front id memory with
  | none => return none
  | some n =>
      let s ← storage id
      let (s, place) ← ofExcept (Failure.ofFault (s.takeEntry n))
      modify (·.setStorage id s)
      modifyGet fun w => (some (w.handles.size + 1),
        { w with handles := w.handles.add { handle := ⟨s.id, place⟩ } })

/-- Releases the entry behind a handle.  The handle is handed over before anything else, and gone
whatever comes of it. -/
def release (id number : Nat) : Attempt Unit := do
  let h ← handle number
  let s ← storage id
  modify (·.spend number h (if h.owner = s.id then .released else .lost))
  checkOwner s h
  let s ← ofExcept (Failure.ofFault (s.release h.place))
  modify (·.setStorage id s)

/-- The handle with a number and the storage with an id, which must have issued it. -/
def owned (id number : Nat) : Attempt (Storage × Handle) := do
  let h ← handle number
  let s ← storage id
  checkOwner s h
  return (s, h)

/-- Reads the entry behind a handle. -/
def get (id number : Nat) : Attempt (Option Reference) := do
  let (s, h) ← owned id number
  ofExcept (Failure.ofFault (s.load h.place))

/-- Writes the entry behind a handle. -/
def set (id number : Nat) (v : Option Reference) : Attempt Unit := do
  let (s, h) ← owned id number
  let s ← ofExcept (Failure.ofFault (s.store h.place v))
  modify (·.setStorage id s)

/-! ## Passes -/

/-- Sets the flag of a storage, which must be clear. -/
def raiseFlag (id : Nat) : Attempt Unit := do
  let s ← storage id
  if s.iterating then throw (.panic (.iterationActive s.name))
  else modify (·.setStorage id { s with iterating := true })

/-- Counts a pass, gives it the next id and records it. -/
def enroll (id : Nat) (concurrent : Bool) (access : Access) : Attempt Nat := do
  let s ← storage id
  let counters := { s.counters with passesStarted := s.counters.passesStarted + 1 }
  modify (·.setStorage id { s with counters })
  let p ← modifyGet fun w => (w.passes.size + 1,
    { w with passes := w.passes.add { storage := id, concurrent, access } })
  modify (·.record [.passBegan p s.name concurrent])
  return p

/-- Begins a pass over a storage and answers with its id.  A concurrent one has set the flag before
it is counted. -/
def beginPass (id : Nat) (concurrent : Bool) (access : Access) : Attempt Nat := do
  if concurrent then raiseFlag id
  enroll id concurrent access

/-! ## One step after the other -/

variable {β : Type} (w : World)

@[simp] theorem carryOut_pure (a : α) : (pure a : Attempt α).carryOut w = (w, .ok a) := rfl

@[simp] theorem carryOut_throw (why : Failure) :
    (throw why : Attempt α).carryOut w = (w, .error why) := rfl

@[simp] theorem carryOut_modify (f : World → World) :
    (modify f : Attempt PUnit).carryOut w = (f w, .ok ()) := rfl

@[simp] theorem carryOut_modifyGet (f : World → α × World) :
    (modifyGet f : Attempt α).carryOut w = ((f w).2, .ok (f w).1) := rfl

@[simp] theorem carryOut_ofExcept (r : Except Failure α) : (ofExcept r).carryOut w = (w, r) := by
  cases r <;> rfl

/-- The second of two steps finds what the first one has left, unless that broke off. -/
@[simp] theorem carryOut_bind (a : Attempt α) (f : α → Attempt β) :
    (a >>= f).carryOut w = match a.carryOut w with
      | (w', .ok x) => (f x).carryOut w'
      | (w', .error why) => (w', .error why) := by
  simp only [carryOut, bind, ExceptT.run, ExceptT.bind, ExceptT.mk, StateT.run, StateT.bind]
  rcases a w with ⟨_ | _, w'⟩ <;> rfl

@[simp] theorem carryOut_storage (id : Nat) : (storage id).carryOut w = (w, w.storage id) := by
  unfold storage
  exact carryOut_ofExcept w (w.storage id)

@[simp] theorem carryOut_handle (number : Nat) :
    (handle number).carryOut w = (w, w.handle number) := by
  unfold handle
  exact carryOut_ofExcept w (w.handle number)

@[simp] theorem carryOut_checkOwner (s : Storage) (h : Handle) : (checkOwner s h).carryOut w =
    (w, if h.owner = s.id then .ok () else .error (.panic (.foreignHandle h s.id s.name))) := by
  unfold checkOwner
  split <;> rfl

@[simp] theorem carryOut_owned (id number : Nat) :
    (owned id number).carryOut w = (w, w.owned id number) := by
  simp only [owned, carryOut_bind, carryOut_handle, carryOut_storage]
  unfold World.owned
  rcases hh : w.handle number with f | h
  · rfl
  rcases hs : w.storage id with f | s
  · simp only [hs]
    rfl
  simp only [hs, carryOut_checkOwner]
  by_cases howner : h.owner = s.id
  · rw [if_pos howner]
    simp only [carryOut_pure, howner, ne_eq, not_true_eq_false, if_false, bind, Except.bind]
    rfl
  · rw [if_neg howner]
    simp [howner, bind, Except.bind, throw, throwThe, MonadExceptOf.throw]

end Attempt

namespace World

open Attempt

variable {w : World} {id number : Nat} {s : Storage}

/-- What is answered to an attempt. -/
def answer {α : Type} (done : α → Reply) : World × Except Failure α → World × Reply
  | (w, .ok a) => (w, done a)
  | (w, .error why) => (w, .failed why)

/-- One event, step by step where it can be refused; there is memory for as many blocks as are
needed. -/
def attempt (w : World) : Event → World × Reply
  | .allocate id => answer .allocated ((Attempt.allocate id true).carryOut w)
  | .release id number =>
      match (Attempt.release id number).carryOut w with
      | (w, .ok ()) => (w, .done)
      | (w, .error (.panic cause)) => (w, .panicked cause)
      | (w, .error why) => (w, .failed why)
  | .get id number => answer .content ((Attempt.get id number).carryOut w)
  | .set id number v => answer (fun _ => .done) ((Attempt.set id number v).carryOut w)
  | .beginPass id concurrent access =>
      answer .began ((Attempt.beginPass id concurrent access).carryOut w)
  | e => w.perform e

/-! ## It comes to the same -/

theorem attempt_get : w.attempt (.get id number) = w.perform (.get id number) := by
  simp only [attempt, Attempt.get, carryOut_bind, carryOut_owned]
  simp only [perform, act, World.get]
  rcases w.owned id number with f | ⟨s, h⟩
  · rfl
  · simp only [carryOut_ofExcept, bind, Except.bind]
    rcases s.load h.place with f | v <;> rfl

theorem attempt_set {v : Option Reference} :
    w.attempt (.set id number v) = w.perform (.set id number v) := by
  simp only [attempt, Attempt.set, carryOut_bind, carryOut_owned]
  simp only [perform, act, World.set]
  rcases w.owned id number with f | ⟨s, h⟩
  · rfl
  · simp only [carryOut_ofExcept, carryOut_modify, bind, Except.bind]
    rcases s.store h.place v with f | s' <;> rfl

theorem Sound.attempt_release (hw : w.Sound) :
    w.attempt (.release id number) = w.perform (.release id number) := by
  simp only [attempt, Attempt.release, carryOut_bind, carryOut_handle, carryOut_storage]
  rcases handle_cases w number with ⟨⟨owner, p⟩, hh⟩ | hnone
  swap
  · simp only [hnone, perform, act, World.release]
    rfl
  simp only [handle_of_held hh]
  rcases hs : w.storages.get? id with _ | s
  · simp only [storage_of_none hs, perform, act, World.release, handle_of_held hh]
    rfl
  have hid := (hw.storages id s hs).1
  simp only [storage_of_some hs, carryOut_modify, carryOut_checkOwner, carryOut_ofExcept, hid]
  by_cases howner : owner = id
  · subst howner
    obtain ⟨s', -, -, -, hrelease, hperform⟩ := hw.perform_released hs hh
    simp only [if_true, hrelease, Failure.ofFault, hperform]
  · simp only [if_neg howner, hw.perform_lost hs hh howner]

/-- The block that an allocation takes its entry from. -/
theorem carryOut_front (hs : w.storages.get? id = some s) {n : Nat} {queue : List Nat}
    (hq : s.available = n :: queue) (memory : Bool) :
    (front id memory).carryOut w = (w, .ok (some n)) := by
  simp only [front, carryOut_bind, carryOut_storage, storage_of_some hs, hq, carryOut_pure]

/-- What an allocation does once the block is found. -/
theorem carryOut_allocate_of_front {w₁ : World} {t t' : Storage} {n : Nat} {p : Place}
    {memory : Bool}
    (hfront : (front id memory).carryOut w = (w₁, .ok (some n))) (ht : w₁.storages.get? id = some t)
    (htake : t.takeEntry n = .ok (t', p)) : (Attempt.allocate id memory).carryOut w =
      ({ w₁.setStorage id t' with handles := w₁.handles.add { handle := ⟨t'.id, p⟩ } },
        .ok (some (w₁.handles.size + 1))) := by
  simp only [Attempt.allocate, carryOut_bind, hfront, carryOut_storage, storage_of_some ht, htake,
    Failure.ofFault, carryOut_ofExcept, carryOut_modify, carryOut_modifyGet]
  rfl

theorem Sound.attempt_allocate (hw : w.Sound) :
    w.attempt (.allocate id) = w.perform (.allocate id) := by
  rcases hs : w.storages.get? id with _ | s
  · simp only [attempt, Attempt.allocate, front, carryOut_bind, carryOut_storage,
      storage_of_none hs, perform, act, World.allocate]
    rfl
  obtain ⟨hid, hsound⟩ := hw.storages id s hs
  rcases hq : s.available with _ | ⟨n, queue⟩
  · rcases hlimit : s.atLimit with _ | _
    · obtain ⟨s₁, hlink, hext⟩ := hsound.link
      obtain ⟨s', i, htake, hent⟩ := hext.sound.takeEntry (n := s.blocks.size + 1)
        (show _ = _ :: [] by rw [hext.available_eq, hq]; rfl)
      have hfront : (front id true).carryOut w =
          ((w.setStorage id { s₁ with available := s₁.available ++ [s.blocks.size + 1] }).record
            [.blockLinked s₁.name s₁.blockCount], .ok (some (s.blocks.size + 1))) := by
        simp only [front, carryOut_bind, carryOut_storage, storage_of_some hs, hq, hlimit, hlink,
          Bool.not_true, Bool.or_false, Bool.false_eq_true, if_false, Failure.ofFault,
          carryOut_ofExcept, carryOut_modify, carryOut_pure]
      have halloc : s.allocate =
          .ok { storage := s', place := some ⟨s.blocks.size + 1, i⟩, linked := true } := by
        simp only [Storage.allocate, hq, hlimit, hlink, htake, Bool.false_eq_true, if_false, bind,
          Except.bind, pure, Except.pure]
      have hname : s₁.name = s.name := congrArg Settings.name hext.frame.settings_eq
      obtain ⟨b, d, -, -, -, hs'⟩ := Storage.takeEntry_inv htake
      have hcount : s'.blockCount = s₁.blockCount := by rw [hs']
      have hsame : s'.id = id := by rw [hent.frame.id_eq, hext.frame.id_eq, hid]
      rw [attempt, carryOut_allocate_of_front hfront
        ((Registry.get?_set_of_some hs _ _).trans (if_pos rfl)) htake, hw.perform_granted hs halloc]
      simp [answer, World.setStorage, World.record, Registry.set_set, hname, hcount, hsame]
    · have halloc : s.allocate = .ok { storage := s, place := none, linked := false } := by
        simp only [Storage.allocate, hq, hlimit, if_true, pure, Except.pure]
      rw [perform_refused hs halloc]
      simp only [attempt, Attempt.allocate, front, carryOut_bind, carryOut_storage,
        storage_of_some hs, hq, hlimit, Bool.true_or, if_true, carryOut_pure, answer]
  · obtain ⟨s', i, htake, hent⟩ := hsound.takeEntry hq
    have halloc : s.allocate = .ok { storage := s', place := some ⟨n, i⟩, linked := false } := by
      simp only [Storage.allocate, hq, htake, bind, Except.bind, pure, Except.pure]
    rw [attempt, carryOut_allocate_of_front (carryOut_front hs hq true) hs htake,
      hw.perform_granted hs halloc, hent.frame.id_eq, hid]
    simp [answer, World.record]

/-- Where there is no memory for a block nothing is done, or none was needed. -/
theorem allocate_without_memory : (Attempt.allocate id false).carryOut w = (w, .ok none) ∨
    (Attempt.allocate id false).carryOut w = (Attempt.allocate id true).carryOut w := by
  rcases hs : w.storages.get? id with _ | s
  · right
    simp only [Attempt.allocate, front, carryOut_bind, carryOut_storage, storage_of_none hs]
  rcases hq : s.available with _ | ⟨n, queue⟩
  · left
    simp only [Attempt.allocate, front, carryOut_bind, carryOut_storage, storage_of_some hs, hq,
      Bool.not_false, Bool.or_true, if_true, carryOut_pure]
  · right
    simp only [Attempt.allocate, carryOut_bind, carryOut_front hs hq]

theorem carryOut_enroll {concurrent : Bool} {access : Access} (hs : w.storages.get? id = some s) :
    (enroll id concurrent access).carryOut w =
      ({ w.setStorage id { s with
          counters := { s.counters with passesStarted := s.counters.passesStarted + 1 } } with
        passes := w.passes.add { storage := id, concurrent, access } }.record
          [.passBegan (w.passes.size + 1) s.name concurrent], .ok (w.passes.size + 1)) := by
  simp only [enroll, carryOut_bind, carryOut_storage, storage_of_some hs, carryOut_modify,
    carryOut_modifyGet]
  rfl

theorem attempt_beginPass {concurrent : Bool} {access : Access} :
    w.attempt (.beginPass id concurrent access) = w.perform (.beginPass id concurrent access) := by
  rcases hs : w.storages.get? id with _ | s
  · cases concurrent <;>
      simp only [attempt, Attempt.beginPass, Bool.false_eq_true, if_false, if_true,
        raiseFlag, enroll, carryOut_bind, carryOut_storage, storage_of_none hs, perform, act,
        World.beginPass] <;> rfl
  cases concurrent with
  | false =>
      have hattempt : (Attempt.beginPass id false access).carryOut w =
          (enroll id false access).carryOut w := rfl
      rw [attempt, hattempt, carryOut_enroll hs]
      simp [perform, act, World.beginPass, storage_of_some hs, answer, bind, Except.bind, pure,
        Except.pure, Except.map, World.setStorage, World.record]
  | true =>
      simp only [attempt, Attempt.beginPass, if_true, raiseFlag, carryOut_bind, carryOut_storage,
        storage_of_some hs]
      cases hflag : s.iterating with
      | true =>
          simp only [if_true, carryOut_throw, refused_of_flagged access hs hflag]
          rfl
      | false =>
          have hs₁ : (w.setStorage id { s with iterating := true }).storages.get? id =
              some { s with iterating := true } :=
            (Registry.get?_set_of_some hs _ _).trans (if_pos rfl)
          simp only [Bool.false_eq_true, if_false, carryOut_modify, carryOut_enroll hs₁]
          simp [perform, act, World.beginPass, storage_of_some hs, answer, bind, Except.bind, pure,
            Except.pure, Except.map, World.setStorage, World.record, hflag, Registry.set_set]
          rfl

/-- **To carry out an operation step by step is to perform it**, and where it is refused nothing had
been done but that a handle was handed over. -/
theorem Sound.attempt_eq (hw : w.Sound) (e : Event) : w.attempt e = w.perform e := by
  cases e with
  | allocate id => exact hw.attempt_allocate
  | release id number => exact hw.attempt_release
  | get id number => exact attempt_get
  | set id number v => exact attempt_set
  | beginPass id concurrent access => exact attempt_beginPass
  | _ => rfl

end World

end RootStore
