import RootStore.Proofs.Storage.Marks
import RootStore.Proofs.World.Run

/-!
# Changes of the world that events do not see

An event looks at some parts of the world and writes some.  If the world is changed in the others,
the event is answered as it would be, and leaves what it would leave, changed in the same way.  What
a change must respect for that is said here once, event by event.

* `World.Change`, `World.Change.apply` — a change of the world, part by part.
* `World.Change.Respects` — **what a change must respect of an event.**
* `World.Change.act_apply`, `World.Change.perform_apply` — then the event goes the same way.
-/

namespace RootStore

/-- A row about blocks: it is left by what mutators do, all others by passes. -/
def Row.ofMutator : Row → Bool
  | .blockLinked _ _ | .blocksDeleted _ _ | .deletionInhibited _ => true
  | .passBegan _ _ _ | .entered _ | .left _ | .closed _ | .iterationStarted _ _ | .passEnded _ _ =>
      false

namespace World

/-- **A change of the world, part by part.**  A part that is not mentioned stays as it is. -/
structure Change where
  /-- What becomes of the flag of each storage. -/
  flag : Nat → Bool → Bool := fun _ b => b
  /-- What becomes of the count of passes of each storage. -/
  count : Nat → Nat → Nat := fun _ n => n
  /-- What becomes of the handles. -/
  handles : Registry Issued → Registry Issued := fun r => r
  /-- What becomes of the passes. -/
  passes : Registry Pass → Registry Pass := fun r => r
  /-- What becomes of the iterations under way. -/
  calls : List Call → List Call := fun l => l
  /-- What becomes of the trace. -/
  log : Array Row → Array Row := fun l => l

namespace Change

/-- What becomes of a storage. -/
def mark (f : Change) (id : Nat) : Storage → Storage := Storage.marking (f.flag id) (f.count id)

/-- What becomes of the world. -/
def apply (f : Change) (w : World) : World where
  storages := w.storages.mapEach f.mark
  handles := f.handles w.handles
  passes := f.passes w.passes
  calls := f.calls w.calls
  log := f.log w.log

/-- The same answer, in the changed world. -/
def applied (f : Change) {α : Type} (x : World × α) : World × α := (f.apply x.1, x.2)

/-- The handle with this number is the same. -/
def SeesHandle (f : Change) (w : World) (k : Nat) : Prop :=
  (f.handles w.handles).get? k = w.handles.get? k

/-- Rows about blocks are added to the trace as they are. -/
def Records (f : Change) (w : World) : Prop :=
  ∀ rows : List Row, (∀ row ∈ rows, row.ofMutator = true) →
    f.log (w.log ++ rows) = f.log w.log ++ rows

/-- Passes, their iterations and the trace are left alone. -/
structure LeavesPasses (f : Change) : Prop where
  passes : f.passes = fun r => r
  calls : f.calls = fun l => l
  log : f.log = fun l => l

/-- **What a change must respect of an event**: it leaves alone what the event looks at, and it can
be made before what the event writes as well as after that. -/
def Respects (f : Change) (w : World) : Event → Prop
  | .create _ => ∀ id, f.flag id false = false ∧ f.count id 0 = 0
  | .allocate _ => f.Records w ∧ (f.handles w.handles).size = w.handles.size ∧
      ∀ i, f.handles (w.handles.add i) = (f.handles w.handles).add i
  | .release _ k => f.SeesHandle w k ∧
      ∀ i, f.handles (w.handles.set k i) = (f.handles w.handles).set k i
  | .get _ k | .set _ k _ => f.SeesHandle w k
  | .delete id yielding => f.Records w ∧ (yielding = true → ∀ b, f.flag id b = b)
  | .beginPass id concurrent _ => f.LeavesPasses ∧ (concurrent = true → ∀ b, f.flag id b = b) ∧
      ∀ n, f.count id (n + 1) = f.count id n + 1
  | .endPass i => f.LeavesPasses ∧
      ∀ q, w.passes.get? i = some q → q.concurrent = true → ∀ b, f.flag q.storage b = b
  | .forgetPass _ | .enter _ _ | .advance | .judge _ | .panic => f.LeavesPasses
  | .drop _ | .load _ | .store _ _ | .exchange _ _ _ => True

variable {f : Change} {w : World} {id k : Nat}

/-! ## Parts of the changed world -/

theorem storage_apply : (f.apply w).storage id = (w.storage id).map (f.mark id) := by
  simp only [storage, apply, Registry.get?_mapEach]
  rcases w.storages.get? id with _ | s <;> rfl

/-- A change that leaves the marks alone leaves the storages alone. -/
theorem apply_eq (hflag : f.flag = fun _ b => b) (hcount : f.count = fun _ n => n) :
    f.apply w = ⟨w.storages, f.passes w.passes, f.handles w.handles, f.calls w.calls,
      f.log w.log⟩ := by
  have hmark : f.mark = fun _ s => s := by
    funext id s
    simp only [mark, hflag, hcount]
    rfl
  simp only [apply, hmark, Registry.mapEach_self]

theorem storageOf_apply (q : Pass) :
    (f.apply w).storageOf q = (w.storageOf q).map (f.mark q.storage) := by
  simp only [storageOf, apply, Registry.get?_mapEach]
  rcases w.storages.get? q.storage with _ | s <;> rfl

theorem setStorage_apply (w : World) (id : Nat) (s : Storage) :
    (f.apply w).setStorage id (f.mark id s) = f.apply (w.setStorage id s) := by
  simp only [setStorage, apply, Registry.set_mapEach]

theorem handle_apply (hk : f.SeesHandle w k) : (f.apply w).handle k = w.handle k := by
  unfold SeesHandle at hk
  simp only [handle, apply, hk]

theorem owned_apply (hk : f.SeesHandle w k) :
    (f.apply w).owned id k = (w.owned id k).map fun x => (f.mark id x.1, x.2) := by
  simp only [owned, handle_apply hk, storage_apply, bind, Except.bind]
  rcases w.handle k with e | h
  · rfl
  rcases w.storage id with e | s
  · rfl
  have hid : (f.mark id s).id = s.id := rfl
  simp only [Except.map, hid]
  split <;> rfl

/-- A storage is replaced and rows about blocks are added in the changed world. -/
theorem record_apply (hlog : f.Records w) {rows : List Row}
    (hrows : ∀ row ∈ rows, row.ofMutator = true) (id : Nat) (s : Storage) :
    ((f.apply w).setStorage id (f.mark id s)).record rows =
      f.apply ((w.setStorage id s).record rows) := by
  have hadded : f.log ((w.setStorage id s).log ++ rows) = f.log w.log ++ rows := hlog rows hrows
  rw [setStorage_apply]
  simp only [record, apply, hadded]
  rfl

/-! ## What mutators do -/

theorem create_apply {settings : Settings} (h : f.Respects w (.create settings)) :
    (f.apply w).create settings = f.applied (w.create settings) := by
  have hmake : f.mark (w.storages.size + 1) (.make (w.storages.size + 1) settings) =
      .make (w.storages.size + 1) settings := by
    simp [mark, Storage.marking, Storage.make, (h _).1, (h _).2]
  have hadd := Registry.add_mapEach w.storages f.mark (.make (w.storages.size + 1) settings)
  rw [hmake] at hadd
  simp only [create, applied, apply, Registry.size_mapEach, hadd]

theorem drop_apply : (f.apply w).drop id = (w.drop id).map f.apply := by
  simp only [drop, storage_apply, bind, Except.bind]
  rcases w.storage id with e | s
  · rfl
  simp only [Except.map, mark, Storage.dispose_marking]
  rcases s.dispose with e | s'
  · rfl
  · simp only [Failure.ofFault, pure, Except.pure, apply, Registry.erase_mapEach]

theorem allocate_apply (h : f.Respects w (.allocate id)) :
    (f.apply w).allocate id = (w.allocate id).map f.applied := by
  obtain ⟨hlog, hsize, hadd⟩ := h
  simp only [allocate, storage_apply, bind, Except.bind]
  rcases w.storage id with e | s
  · rfl
  simp only [Except.map, mark, Storage.allocate_marking]
  rcases s.allocate with e | ⟨s', place, linked⟩
  · rfl
  have hrows : ∀ row ∈ (if linked = true then [Row.blockLinked s.name s'.blockCount] else []),
      row.ofMutator = true := by cases linked <;> simp [Row.ofMutator]
  have hchanged := record_apply hlog hrows id s'
  rcases place with _ | p
  · exact congrArg (fun x : World => Except.ok (x, none)) hchanged
  · refine (congrArg (fun x : World => Except.ok ({ x with
      handles := (f.handles w.handles).add { handle := ⟨s.id, p⟩ } },
      some ((f.handles w.handles).size + 1))) hchanged).trans ?_
    rw [hsize, ← hadd]
    rfl

theorem release_apply (h : f.Respects w (.release id k)) :
    (f.apply w).release id k = (w.release id k).map f.applied := by
  obtain ⟨hk, hspend⟩ := h
  have hspent : ∀ i t, (f.apply w).spend k i t = f.apply (w.spend k i t) := fun i t => by
    simp only [spend, apply, hspend]
  simp only [release, handle_apply hk, storage_apply, bind, Except.bind]
  rcases w.handle k with e | i
  · rfl
  rcases w.storage id with e | s
  · rfl
  have hid : (f.mark id s).id = s.id := rfl
  have hname : (f.mark id s).name = s.name := rfl
  simp only [Except.map, hid, hname, hspent]
  split
  · rfl
  · simp only [mark, Storage.release_marking]
    rcases s.release i.place with e | s'
    · rfl
    · exact congrArg (fun x : World => Except.ok (x, none)) (setStorage_apply _ id s')

theorem get_apply (hk : f.SeesHandle w k) : (f.apply w).get id k = w.get id k := by
  simp only [get, owned_apply hk, bind, Except.bind]
  rcases w.owned id k with e | ⟨s, i⟩ <;> rfl

theorem set_apply (hk : f.SeesHandle w k) (v : Option Reference) :
    (f.apply w).set id k v = (w.set id k v).map f.apply := by
  simp only [set, owned_apply hk, bind, Except.bind]
  rcases w.owned id k with e | ⟨s, i⟩
  · rfl
  simp only [Except.map, mark, Storage.store_marking]
  rcases s.store i.place v with e | s'
  · rfl
  · exact congrArg Except.ok (setStorage_apply w id s')

/-- All rows that a deletion leaves are about blocks. -/
theorem ofMutator_deletionRows (name : String) (d : Deletion) :
    ∀ row ∈ deletionRows name d, row.ofMutator = true := by
  intro row hrow
  simp only [deletionRows, List.mem_append] at hrow
  rcases hrow with hrow | hrow <;> split at hrow <;> simp_all [Row.ofMutator]

theorem deleteEmpty_apply {yielding : Bool} (h : f.Respects w (.delete id yielding)) :
    (f.apply w).deleteEmpty id yielding = (w.deleteEmpty id yielding).map f.applied := by
  obtain ⟨hlog, hflag⟩ := h
  simp only [deleteEmpty, storage_apply, bind, Except.bind]
  rcases w.storage id with e | s
  · rfl
  simp only [Except.map, mark, Storage.deleteEmpty_marking (f.count id) s hflag]
  rcases s.deleteEmpty yielding with e | d
  · rfl
  · exact congrArg (fun x : World => Except.ok (x, d.deleted))
      (record_apply hlog (ofMutator_deletionRows s.name d) id d.storage)

/-! ## What the collector does -/

/-- A change that leaves the passes alone is one of marks and handles. -/
theorem LeavesPasses.eq (h : f.LeavesPasses) :
    f = { flag := f.flag, count := f.count, handles := f.handles } := by
  obtain ⟨flag, count, handles, passes, calls, log⟩ := f
  obtain ⟨rfl, rfl, rfl⟩ := h
  rfl

theorem beginPass_apply {concurrent : Bool} {access : Access}
    (h : f.Respects w (.beginPass id concurrent access)) :
    (f.apply w).beginPass id concurrent access =
      (w.beginPass id concurrent access).map f.applied := by
  obtain ⟨hleaves, hflag, hcount⟩ := h
  simp only [beginPass, storage_apply, bind, Except.bind]
  rcases w.storage id with e | s
  · rfl
  have hasks : (concurrent && (f.mark id s).iterating) = (concurrent && s.iterating) := by
    cases concurrent with
    | false => rfl
    | true => exact hflag rfl s.iterating
  have hmarked : ({ f.mark id s with
      iterating := (f.mark id s).iterating || concurrent
      counters := { (f.mark id s).counters with
        passesStarted := (f.mark id s).counters.passesStarted + 1 } } : Storage) =
      f.mark id { s with
        iterating := s.iterating || concurrent
        counters := { s.counters with passesStarted := s.counters.passesStarted + 1 } } := by
    cases concurrent with
    | false => simp [mark, Storage.marking, hcount]
    | true => simp [mark, Storage.marking, hcount, hflag]
  simp only [Except.map, hasks, hmarked, setStorage_apply]
  rw [hleaves.eq]
  split <;> rfl

theorem pass_apply (h : f.LeavesPasses) (i : Nat) : (f.apply w).pass i = w.pass i := by
  rw [h.eq]
  rfl

theorem calls_apply (h : f.LeavesPasses) : (f.apply w).calls = w.calls := by
  rw [h.eq]
  rfl

theorem innermost_apply (h : f.LeavesPasses) : (f.apply w).innermost = w.innermost := by
  simp only [innermost, calls_apply h]

theorem endPass_apply {i : Nat} (h : f.Respects w (.endPass i)) :
    (f.apply w).endPass i = (w.endPass i).map f.apply := by
  obtain ⟨hleaves, hflag⟩ := h
  simp only [endPass, pass_apply hleaves, storageOf_apply, bind, Except.bind]
  rcases hq : w.passes.get? i with _ | q
  · simp only [pass, hq, Except.map]
  simp only [pass, hq]
  rcases w.storageOf q with e | s
  · rfl
  have hasks : (q.concurrent && !(f.mark q.storage s).iterating) =
      (q.concurrent && !s.iterating) := by
    cases hmode : q.concurrent with
    | false => rfl
    | true => exact congrArg (!·) (hflag q hq hmode s.iterating)
  have hmarked : ({ f.mark q.storage s with
      iterating := (f.mark q.storage s).iterating && !q.concurrent } : Storage) =
      f.mark q.storage { s with iterating := s.iterating && !q.concurrent } := by
    cases hmode : q.concurrent with
    | false => simp [mark, Storage.marking]
    | true => simp [mark, Storage.marking, hflag q hq hmode]
  simp only [Except.map, hasks, hmarked, setStorage_apply]
  rw [hleaves.eq]
  split <;> rfl

theorem forgetPass_apply (h : f.LeavesPasses) (i : Nat) :
    (f.apply w).forgetPass i = (w.forgetPass i).map f.apply := by
  simp only [forgetPass, pass_apply h, bind, Except.bind]
  rw [h.eq]
  rcases w.pass i with e | q <;> rfl

theorem enter_apply (h : f.LeavesPasses) (i : Nat) (method : Method) :
    (f.apply w).enter i method = (w.enter i method).map f.apply := by
  simp only [enter, pass_apply h, storageOf_apply, bind, Except.bind]
  rcases w.pass i with e | q
  · rfl
  dsimp only
  rcases w.storageOf q with e | s
  · rfl
  have hhead : (f.mark q.storage s).head = s.head := rfl
  simp only [Except.map, hhead]
  rw [h.eq]
  rcases q.start? s.head with _ | q' <;> rfl

theorem leave_apply (h : f.LeavesPasses) : (f.apply w).leave = w.leave.map f.apply := by
  simp only [leave, calls_apply h]
  rw [h.eq]
  rcases w.calls with _ | ⟨c, outer⟩ <;> rfl

theorem advance_apply (h : f.LeavesPasses) : (f.apply w).advance = w.advance.map f.applied := by
  simp only [advance, calls_apply h, pass_apply h, storageOf_apply, leave_apply h, bind,
    Except.bind]
  rcases w.calls with _ | ⟨c, outer⟩
  · rfl
  dsimp only
  rcases w.pass c.pass with e | q
  · rfl
  dsimp only
  rcases w.storageOf q with e | s
  · rfl
  simp only [Except.map, mark, Storage.load_marking, Storage.claim_marking]
  rw [h.eq]
  split
  · rename_i k slot hscan
    rcases s.load ⟨k.block, slot⟩ with e | v <;> rfl
  · rcases q.claim s with e | ⟨q', _ | k⟩
    · rfl
    · rcases w.leave with e | w' <;> rfl
    · rfl

/-! ## What visitors do with entries -/

theorem load_apply (e : Entry) : (f.apply w).load e = w.load e := by
  simp only [load, storage_apply, bind, Except.bind]
  rcases w.storage e.storage with _ | s <;> rfl

theorem store_apply (e : Entry) (v : Option Reference) :
    (f.apply w).store e v = (w.store e v).map f.apply := by
  simp only [store, storage_apply, bind, Except.bind]
  rcases w.storage e.storage with _ | s
  · rfl
  simp only [Except.map, mark, Storage.store_marking]
  rcases s.store e.place v with _ | s'
  · rfl
  · exact congrArg Except.ok (setStorage_apply w e.storage s')

theorem exchange_apply (e : Entry) (expected : Reference) (new : Option Reference) :
    (f.apply w).exchange e expected new = (w.exchange e expected new).map f.applied := by
  simp only [exchange, load_apply, store_apply, bind, Except.bind]
  rcases w.load e with _ | found
  · rfl
  dsimp only
  rcases w.store e (RootStore.exchange found expected new).1 with _ | w' <;> rfl

theorem judge_apply (h : f.LeavesPasses) (alive : Bool) :
    (f.apply w).judge alive = (w.judge alive).map f.applied := by
  simp only [judge, calls_apply h]
  rcases w.calls with _ | ⟨c, outer⟩
  · rfl
  cases hstage : c.stage with
  | ready | visiting => simp only [hstage, Except.map]
  | asking e object =>
      have hcalls : ∀ calls, ({ f.apply w with calls } : World) = f.apply { w with calls } := by
        intro calls
        rw [h.eq]
        rfl
      simp only [hstage, hcalls, store_apply, bind, Except.bind, pure, Except.pure]
      cases alive with
      | true => rfl
      | false =>
          simp only [Bool.false_eq_true, if_false]
          rcases ({ w with calls := _ } : World).store e none with _ | w' <;> rfl

/-! ## One event -/

/-- **A change that respects an event is not seen by it.** -/
theorem act_apply {e : Event} (h : f.Respects w e) :
    (f.apply w).act e = (w.act e).map f.applied := by
  cases e with
  | create settings =>
      simp only [act, create_apply h]
      rfl
  | drop id =>
      simp only [act, drop_apply]
      rcases w.drop id with _ | w' <;> rfl
  | allocate id =>
      simp only [act, allocate_apply h]
      rcases w.allocate id with _ | ⟨w', issued⟩ <;> rfl
  | release id k =>
      simp only [act, release_apply h]
      rcases w.release id k with _ | ⟨w', cause⟩ <;> rfl
  | get id k =>
      simp only [act, get_apply h]
      rcases w.get id k with _ | v <;> rfl
  | set id k v =>
      simp only [act, set_apply h]
      rcases w.set id k v with _ | w' <;> rfl
  | delete id yielding =>
      simp only [act, deleteEmpty_apply h]
      rcases w.deleteEmpty id yielding with _ | ⟨w', count⟩ <;> rfl
  | beginPass id concurrent access =>
      simp only [act, beginPass_apply h]
      rcases w.beginPass id concurrent access with _ | ⟨w', i⟩ <;> rfl
  | endPass i =>
      simp only [act, endPass_apply h]
      rcases w.endPass i with _ | w' <;> rfl
  | forgetPass i =>
      simp only [act, forgetPass_apply h]
      rcases w.forgetPass i with _ | w' <;> rfl
  | enter i method =>
      simp only [act, enter_apply h]
      rcases w.enter i method with _ | w' <;> rfl
  | advance =>
      simp only [act, advance_apply h, innermost_apply h]
      rcases w.advance with _ | ⟨w', progress⟩ <;> rfl
  | judge alive =>
      simp only [act, judge_apply h, innermost_apply h]
      rcases w.judge alive with _ | ⟨w', progress⟩ <;> rfl
  | panic =>
      simp only [act, leave_apply h]
      rcases w.leave with _ | w' <;> rfl
  | load e =>
      simp only [act, load_apply]
      rcases w.load e with _ | v <;> rfl
  | store e v =>
      simp only [act, store_apply]
      rcases w.store e v with _ | w' <;> rfl
  | exchange e expected new =>
      simp only [act, exchange_apply]
      rcases w.exchange e expected new with _ | ⟨w', outcome⟩ <;> rfl

/-- **It is answered as it would be**, and leaves what it would leave, changed in the same way. -/
theorem perform_apply {e : Event} (h : f.Respects w e) :
    (f.apply w).perform e = f.applied (w.perform e) := by
  simp only [perform, act_apply h]
  rcases w.act e with _ | ⟨w', r⟩ <;> rfl

end Change

end World

end RootStore
