import RootStore.Proofs.World.Run
import RootStore.Proofs.World.Sound

/-!
# What an event can come to

In a sound world every permitted event goes in one of a few ways, and every one of them leaves a
sound world.  What is proved of single events is proved by cases on these ways, and what is proved
of runs follows by induction.

* `World.Transition` — the ways, each with all that it changes.
* `World.Sound.transition` — **every permitted event in a sound world goes in one of these ways.**
* `World.Transition.sound` — a sound world is left.
* `World.Run.sound`, `World.Reachable.sound` — so every world that can be reached is sound.
-/

namespace RootStore

/-- Whatever is done with an entry, it is that entry that is waited for. -/
theorem Progress.eq_of_entry?_stage_offer {method : Method} {e e' : Entry} {v : Option Reference}
    (h : (Progress.offer method e v).stage.entry? = some e') : e' = e := by
  cases method <;> cases v <;> simp_all [Progress.offer, Progress.stage, Stage.entry?]

namespace World

variable {w w' : World} {e : Event} {r : Reply} {id i number : Nat}

/-! ## The ways an event can go -/

/-- **What an event can come to.** -/
inductive Transition (w : World) : Event → World → Reply → Prop
  /-- It does not take place, but no invariant is broken. -/
  | failed {e : Event} {why : Failure} (hact : w.act e = .error why)
      (hwhy : ∀ f, why ≠ .fault f) : Transition w e w (.failed why)
  /-- A storage is there. -/
  | created (settings : Settings) :
      Transition w (.create settings) (w.create settings).1 (.created (w.create settings).2)
  /-- A storage is gone, with all its blocks. -/
  | dropped {id : Nat} {s s' : Storage} (hs : w.storages.get? id = some s)
      (hfree : w.hasPass id = false) (hdispose : s.dispose = .ok s')
      (hgone : ∀ m, s'.blocks.get? m = none) :
      Transition w (.drop id) { w with storages := w.storages.erase id } .done
  /-- The limit forbids an entry. -/
  | refused {id : Nat} {s : Storage} (hs : w.storages.get? id = some s)
      (halloc : s.allocate = .ok { storage := s, place := none, linked := false }) :
      Transition w (.allocate id) w (.allocated none)
  /-- An entry is put in use and a handle is issued for it. -/
  | granted {id : Nat} {s s' : Storage} {p : Place} {linked : Bool}
      (hs : w.storages.get? id = some s)
      (halloc : s.allocate = .ok { storage := s', place := some p, linked })
      (hgranted : s.Granted s' p) :
      Transition w (.allocate id)
        ({ w.setStorage id s' with handles := w.handles.add { handle := ⟨id, p⟩ } }.record
          (if linked then [.blockLinked s.name s'.blockCount] else []))
        (.allocated (some (w.handles.size + 1)))
  /-- An entry is taken out of use and its handle is spent. -/
  | released {number : Nat} {h : Handle} {s s' : Storage}
      (hh : w.handles.get? number = some { handle := h })
      (hs : w.storages.get? h.owner = some s) (hrelease : s.release h.place = .ok s')
      (hwritten : s.Written s' h.place none)
      (huse : ∀ p, s'.InUse p ↔ s.InUse p ∧ p ≠ h.place) :
      Transition w (.release h.owner number)
        ((w.spend number h .released).setStorage h.owner s') .done
  /-- A handle is spent on a storage that did not issue it. -/
  | lost {id number : Nat} {h : Handle} {s : Storage}
      (hh : w.handles.get? number = some { handle := h }) (hs : w.storages.get? id = some s)
      (hforeign : h.owner ≠ id) :
      Transition w (.release id number) (w.spend number h .lost)
        (.panicked (.foreignHandle h id s.name))
  /-- An entry is read through its handle. -/
  | got {number : Nat} {h : Handle} {s : Storage} {v : Option Reference}
      (hh : w.handles.get? number = some { handle := h })
      (hs : w.storages.get? h.owner = some s) (hload : s.load h.place = .ok v) :
      Transition w (.get h.owner number) w (.content v)
  /-- An entry is written through its handle. -/
  | written {number : Nat} {h : Handle} {s s' : Storage} {v : Option Reference}
      (hh : w.handles.get? number = some { handle := h })
      (hs : w.storages.get? h.owner = some s) (hstore : s.store h.place v = .ok s')
      (hwritten : s.Written s' h.place v) (huse : ∀ p, s'.InUse p ↔ s.InUse p) :
      Transition w (.set h.owner number v) (w.setStorage h.owner s') .done
  /-- Empty blocks are gone, none of them of a storage that has a pass. -/
  | deleted {id : Nat} {yielding : Bool} {s : Storage} {d : Deletion} {gone : List Nat}
      (hs : w.storages.get? id = some s) (hdelete : s.deleteEmpty yielding = .ok d)
      (hwithout : s.Without d.storage gone)
      (hgone : gone = if (yielding && s.iterating) = true then [] else s.linked.filter s.isEmptyAt)
      (hcount : d.deleted = gone.length) (hfree : w.hasPass id = true → gone = []) :
      Transition w (.delete id yielding)
        ((w.setStorage id d.storage).record (deletionRows s.name d)) (.deleted d.deleted)
  /-- A pass is alive. -/
  | began {id : Nat} {concurrent : Bool} {access : Access} {s : Storage}
      (hs : w.storages.get? id = some s) (hfree : w.hasPass id = false)
      (hflag : (concurrent && s.iterating) = false) :
      Transition w (.beginPass id concurrent access)
        ({ w.setStorage id { s with
            iterating := s.iterating || concurrent
            counters := { s.counters with passesStarted := s.counters.passesStarted + 1 } } with
          passes := w.passes.add { storage := id, concurrent, access } }.record
          [.passBegan (w.passes.size + 1) s.name concurrent])
        (.began (w.passes.size + 1))
  /-- A pass has ended. -/
  | ended {i : Nat} {q : Pass} {s : Storage} (hq : w.passes.get? i = some q)
      (hs : w.storages.get? q.storage = some s) (hidle : w.isRunning i = false) :
      Transition w (.endPass i)
        ({ w.setStorage q.storage { s with iterating := s.iterating && !q.concurrent } with
          passes := w.passes.erase i }.record [.passEnded i q.claimed, .closed i]) .done
  /-- A pass is let go of. -/
  | forgotten {i : Nat} {q : Pass} (hq : w.passes.get? i = some q)
      (hidle : w.isRunning i = false) :
      Transition w (.forgetPass i) { w with passes := w.passes.erase i } .done
  /-- The first iteration of a pass pins it to the head of the list. -/
  | pinned {i : Nat} {method : Method} {q : Pass} {s : Storage} (hq : w.passes.get? i = some q)
      (hs : w.storages.get? q.storage = some s) (hcursor : q.cursor = .notStarted) :
      Transition w (.enter i method)
        { ((w.record [.entered i]).setPass i { q with cursor := .upcoming s.head }).record
            [.iterationStarted i s.head] with
          calls := { pass := i, method } :: w.calls } .done
  /-- Another iteration of a pass goes on where the pass stands. -/
  | resumed {i : Nat} {method : Method} {q : Pass} {s : Storage} (hq : w.passes.get? i = some q)
      (hs : w.storages.get? q.storage = some s) (hcursor : q.cursor ≠ .notStarted) :
      Transition w (.enter i method)
        { w.record [.entered i] with calls := { pass := i, method } :: w.calls } .done
  /-- An iteration takes up an entry of the block that it scans. -/
  | offered {c : Call} {outer : List Call} {q : Pass} {s : Storage} {k : Pass.Claim}
      {slot : SlotIndex} {v : Option Reference} (hcalls : w.calls = c :: outer)
      (hq : w.passes.get? c.pass = some q) (hs : w.storages.get? q.storage = some s)
      (hscan : c.scanning = some k) (hslot : k.snapshot.lowest? = some slot)
      (hload : s.load ⟨k.block, slot⟩ = .ok v) :
      Transition w .advance
        { w with calls := { c with
            scanning := some { k with snapshot := k.snapshot.dropLowest }
            stage := (Progress.offer c.method ⟨q.storage, ⟨k.block, slot⟩, q.access⟩ v).stage }
              :: outer }
        (.progressed c.pass (Progress.offer c.method ⟨q.storage, ⟨k.block, slot⟩, q.access⟩ v))
  /-- An iteration claims the next block. -/
  | claimed {c : Call} {outer : List Call} {q : Pass} {s : Storage} {n : Nat} {b : Block}
      (hcalls : w.calls = c :: outer) (hq : w.passes.get? c.pass = some q)
      (hs : w.storages.get? q.storage = some s)
      (hdone : ∀ k, c.scanning = some k → k.snapshot = .empty)
      (hcursor : q.cursor = .upcoming (some n)) (hb : s.blocks.get? n = some b) :
      Transition w .advance
        { w.setPass c.pass { q with cursor := .upcoming b.next, claimed := q.claimed + 1 } with
          calls := { c with scanning := some ⟨n, b.mask⟩, stage := .ready } :: outer }
        (.progressed c.pass (.claimed n))
  /-- An iteration finds no block left and returns. -/
  | finished {c : Call} {outer : List Call} {q : Pass} {s : Storage}
      (hcalls : w.calls = c :: outer) (hq : w.passes.get? c.pass = some q)
      (hs : w.storages.get? q.storage = some s)
      (hdone : ∀ k, c.scanning = some k → k.snapshot = .empty)
      (hcursor : q.cursor = .upcoming none) :
      Transition w .advance ({ w with calls := outer }.record [.left c.pass])
        (.progressed c.pass .finished)
  /-- An object is judged alive, and its entry is handed to the visitor. -/
  | upheld {c : Call} {outer : List Call} {e : Entry} {object : Reference}
      (hcalls : w.calls = c :: outer) (hstage : c.stage = .asking e object) :
      Transition w (.judge true) { w with calls := { c with stage := .visiting e } :: outer }
        (.progressed c.pass (.visiting e))
  /-- An object is judged dead, and its entry is cleared. -/
  | cleared {c : Call} {outer : List Call} {e : Entry} {object : Reference} {s s' : Storage}
      (hcalls : w.calls = c :: outer) (hstage : c.stage = .asking e object)
      (hs : w.storages.get? e.storage = some s) (hstore : s.store e.place none = .ok s')
      (hwritten : s.Written s' e.place none) (huse : ∀ p, s'.InUse p ↔ s.InUse p) :
      Transition w (.judge false)
        ({ w with calls := { c with stage := .ready } :: outer }.setStorage e.storage s')
        (.progressed c.pass (.cleared e))
  /-- A visitor or judge panics, and its iteration is left. -/
  | panicked {c : Call} {outer : List Call} (hcalls : w.calls = c :: outer)
      (hstage : c.stage ≠ .ready) :
      Transition w .panic ({ w with calls := outer }.record [.left c.pass]) .done
  /-- A visitor reads its entry. -/
  | loaded {e : Entry} {s : Storage} {v : Option Reference}
      (hs : w.storages.get? e.storage = some s) (hload : s.load e.place = .ok v) :
      Transition w (.load e) w (.content v)
  /-- A visitor writes its entry. -/
  | stored {e : Entry} {v : Option Reference} {s s' : Storage}
      (hs : w.storages.get? e.storage = some s) (hstore : s.store e.place v = .ok s')
      (hwritten : s.Written s' e.place v) (huse : ∀ p, s'.InUse p ↔ s.InUse p) :
      Transition w (.store e v) (w.setStorage e.storage s') .done
  /-- A visitor compares and exchanges its entry. -/
  | exchanged {e : Entry} {expected : Reference} {new found : Option Reference} {s s' : Storage}
      (hs : w.storages.get? e.storage = some s) (hload : s.load e.place = .ok found)
      (hstore : s.store e.place (RootStore.exchange found expected new).1 = .ok s')
      (hwritten : s.Written s' e.place (RootStore.exchange found expected new).1)
      (huse : ∀ p, s'.InUse p ↔ s.InUse p) :
      Transition w (.exchange e expected new) (w.setStorage e.storage s')
        (.exchanged (RootStore.exchange found expected new).2)

/-- An event that takes place. -/
theorem Transition.of_ok (hact : w.act e = .ok (w', r)) (ht : Transition w e w' r) :
    Transition w e (w.perform e).1 (w.perform e).2 := by
  simpa only [perform, hact] using ht

/-- An event that does not take place. -/
theorem Transition.of_error (why : Failure) (hact : w.act e = .error why)
    (hwhy : ∀ f, why ≠ .fault f) : Transition w e (w.perform e).1 (w.perform e).2 := by
  have ht := Transition.failed hact hwhy
  simpa only [perform, hact] using ht

/-! ## Every event goes in one of these ways -/

section Lookup

variable {s : Storage} {q : Pass} {h : Handle}

theorem storage_of_some (hs : w.storages.get? id = some s) : w.storage id = .ok s := by
  simp [storage, hs]

theorem storage_of_none (hs : w.storages.get? id = none) : w.storage id = .error .noStorage := by
  simp [storage, hs]

theorem pass_of_some (hq : w.passes.get? i = some q) : w.pass i = .ok q := by
  simp [pass, hq]

theorem pass_of_none (hq : w.passes.get? i = none) : w.pass i = .error .noPass := by
  simp [pass, hq]

theorem storageOf_of_some (hs : w.storages.get? q.storage = some s) : w.storageOf q = .ok s := by
  simp [storageOf, hs]

theorem handle_of_held (hh : w.handles.get? number = some { handle := h }) :
    w.handle number = .ok h := by
  simp [handle, hh]

/-- Looking up a handle finds one that is held, or fails. -/
theorem handle_cases (w : World) (number : Nat) :
    (∃ h, w.handles.get? number = some { handle := h }) ∨ w.handle number = .error .noHandle := by
  rcases hh : w.handles.get? number with _ | ⟨h, tenure⟩
  · exact Or.inr (by simp [handle, hh])
  · cases tenure with
    | held => exact Or.inl ⟨h, rfl⟩
    | released => exact Or.inr (by simp [handle, hh])
    | lost => exact Or.inr (by simp [handle, hh])

end Lookup

/-! ### Mutators -/

namespace Sound

variable {s : Storage} {v : Option Reference} {en : Entry}

theorem transition_drop (h : w.Sound) (hp : w.Permits (.drop id)) :
    Transition w (.drop id) (w.perform (.drop id)).1 (w.perform (.drop id)).2 := by
  rcases hs : w.storages.get? id with _ | s
  · exact .of_error .noStorage
      (by simp [act, Except.map, World.drop, storage_of_none hs, bind, Except.bind]) (by simp)
  obtain ⟨s', hdispose, hgone⟩ := (h.storages id s hs).2.dispose
  have hfree : w.hasPass id = false := by simpa [Permits, mayDrop] using hp
  refine .of_ok ?_ (.dropped hs hfree hdispose hgone)
  simp [act, Except.map, World.drop, storage_of_some hs, hdispose, Failure.ofFault, bind,
    Except.bind, pure, Except.pure]

theorem transition_allocate (h : w.Sound) :
    Transition w (.allocate id) (w.perform (.allocate id)).1 (w.perform (.allocate id)).2 := by
  rcases hs : w.storages.get? id with _ | s
  · exact .of_error .noStorage
      (by simp [act, Except.map, World.allocate, storage_of_none hs, bind, Except.bind]) (by simp)
  obtain ⟨hid, hsound⟩ := h.storages id s hs
  rcases hsound.allocate with halloc | ⟨s', p, linked, halloc, hgranted⟩
  · refine .of_ok ?_ (.refused hs halloc)
    simp [act, Except.map, World.allocate, storage_of_some hs, halloc, Failure.ofFault, bind,
      Except.bind, pure, Except.pure, World.setStorage, Registry.set_eq_self hs, World.record]
  · refine .of_ok ?_ (.granted hs halloc hgranted)
    simp [act, Except.map, World.allocate, storage_of_some hs, halloc, Failure.ofFault, bind,
      Except.bind, pure, Except.pure, hid, World.setStorage, World.record]

theorem transition_release (h : w.Sound) :
    Transition w (.release id number) (w.perform (.release id number)).1
      (w.perform (.release id number)).2 := by
  rcases handle_cases w number with ⟨k, hk⟩ | hnone
  swap
  · exact .of_error .noHandle
      (by simp [act, Except.map, World.release, hnone, bind, Except.bind]) (by simp)
  rcases hs : w.storages.get? id with _ | s
  · exact .of_error .noStorage (by
      simp [act, Except.map, World.release, handle_of_held hk, storage_of_none hs, bind,
        Except.bind]) (by simp)
  obtain ⟨hid, hsound⟩ := h.storages id s hs
  by_cases howner : k.owner = id
  · subst howner
    obtain ⟨s', hrelease, hwritten, huse⟩ :=
      hsound.release (h.inUse number { handle := k } s hk (by simp) hs)
    refine .of_ok ?_ (.released hk hs hrelease hwritten huse)
    simp [act, Except.map, World.release, handle_of_held hk, storage_of_some hs, hid, hrelease,
      Failure.ofFault, bind, Except.bind, pure, Except.pure]
  · refine .of_ok ?_ (.lost hk hs howner)
    simp [act, Except.map, World.release, handle_of_held hk, storage_of_some hs, hid, howner, bind,
      Except.bind, pure, Except.pure]

theorem transition_get (h : w.Sound) :
    Transition w (.get id number) (w.perform (.get id number)).1
      (w.perform (.get id number)).2 := by
  rcases handle_cases w number with ⟨k, hk⟩ | hnone
  swap
  · exact .of_error .noHandle
      (by simp [act, Except.map, World.get, owned, hnone, bind, Except.bind]) (by simp)
  rcases hs : w.storages.get? id with _ | s
  · exact .of_error .noStorage (by
      simp [act, Except.map, World.get, owned, handle_of_held hk, storage_of_none hs, bind,
        Except.bind]) (by simp)
  obtain ⟨hid, hsound⟩ := h.storages id s hs
  by_cases howner : k.owner = id
  · subst howner
    obtain ⟨v, hload⟩ := (h.inUse number { handle := k } s hk (by simp) hs).load
    refine .of_ok ?_ (.got hk hs hload)
    simp [act, Except.map, World.get, owned, handle_of_held hk, storage_of_some hs, hid, hload,
      Failure.ofFault, bind, Except.bind, pure, Except.pure]
  · refine .of_error (.panic (.foreignHandle k id s.name)) ?_ (by simp)
    simp [act, Except.map, World.get, owned, handle_of_held hk, storage_of_some hs, hid, howner,
      bind, Except.bind, throw, throwThe, MonadExceptOf.throw]

theorem transition_set (h : w.Sound) : Transition w (.set id number v)
    (w.perform (.set id number v)).1 (w.perform (.set id number v)).2 := by
  rcases handle_cases w number with ⟨k, hk⟩ | hnone
  swap
  · exact .of_error .noHandle
      (by simp [act, Except.map, World.set, owned, hnone, bind, Except.bind]) (by simp)
  rcases hs : w.storages.get? id with _ | s
  · exact .of_error .noStorage (by
      simp [act, Except.map, World.set, owned, handle_of_held hk, storage_of_none hs, bind,
        Except.bind]) (by simp)
  obtain ⟨hid, hsound⟩ := h.storages id s hs
  by_cases howner : k.owner = id
  · subst howner
    obtain ⟨b, hb, -⟩ := h.inUse number { handle := k } s hk (by simp) hs
    obtain ⟨s', hstore, hwritten, huse⟩ := hsound.store (hsound.mem_linked _ b hb) v
    refine .of_ok ?_ (.written hk hs hstore hwritten huse)
    simp [act, Except.map, World.set, owned, handle_of_held hk, storage_of_some hs, hid, hstore,
      Failure.ofFault, bind, Except.bind, pure, Except.pure]
  · refine .of_error (.panic (.foreignHandle k id s.name)) ?_ (by simp)
    simp [act, Except.map, World.set, owned, handle_of_held hk, storage_of_some hs, hid, howner,
      bind, Except.bind, throw, throwThe, MonadExceptOf.throw]

/-- A deletion goes well as long as it finds nothing to delete in a storage that has a pass. -/
theorem transition_delete_of_kept {yielding : Bool} (h : w.Sound)
    (hkept : ∀ s, w.storages.get? id = some s → w.hasPass id = true →
      (if (yielding && s.iterating) = true then [] else s.linked.filter s.isEmptyAt) = []) :
    Transition w (.delete id yielding) (w.perform (.delete id yielding)).1
      (w.perform (.delete id yielding)).2 := by
  rcases hs : w.storages.get? id with _ | s
  · exact .of_error .noStorage
      (by simp [act, Except.map, World.deleteEmpty, storage_of_none hs, bind,
        Except.bind]) (by simp)
  obtain ⟨hid, hsound⟩ := h.storages id s hs
  obtain ⟨d, gone, hdelete, hwithout, hgone, hcount, -⟩ := hsound.deleteEmpty yielding
  refine .of_ok ?_ (.deleted hs hdelete hwithout hgone hcount fun hpass =>
    hgone.trans (hkept s hs hpass))
  simp [act, Except.map, World.deleteEmpty, storage_of_some hs, hdelete, Failure.ofFault, bind,
    Except.bind, pure, Except.pure]

theorem transition_delete {yielding : Bool} (h : w.Sound) (hp : w.Permits (.delete id yielding)) :
    Transition w (.delete id yielding) (w.perform (.delete id yielding)).1
      (w.perform (.delete id yielding)).2 := by
  refine h.transition_delete_of_kept fun s hs hpass => ?_
  -- a storage with a pass is concurrently iterated, and the deletion gives way
  obtain ⟨i, q, hq, hqid⟩ := hasPass_eq_true_iff.1 hpass
  cases yielding with
  | false => simp [Permits, mayPurge, hpass] at hp
  | true =>
      simp only [Permits, mayDelete, if_true, Bool.not_eq_true',
        hasSafepointPass_eq_false_iff] at hp
      have hflag := (h.storage_of_pass hq (by rw [hqid, hs])).flagged (hp i q hq hqid)
      simp [hflag]

/-! ### Passes -/

theorem transition_beginPass {concurrent : Bool} {access : Access} (h : w.Sound)
    (hp : w.Permits (.beginPass id concurrent access)) :
    Transition w (.beginPass id concurrent access) (w.perform (.beginPass id concurrent access)).1
      (w.perform (.beginPass id concurrent access)).2 := by
  rcases hs : w.storages.get? id with _ | s
  · exact .of_error .noStorage
      (by simp [act, Except.map, World.beginPass, storage_of_none hs, bind, Except.bind]) (by simp)
  by_cases hflag : (concurrent && s.iterating) = true
  · refine .of_error (.panic (.iterationActive s.name)) ?_ (by simp)
    simp only [act, Except.map, World.beginPass, storage_of_some hs, bind, Except.bind, hflag,
      if_true, throw, throwThe, MonadExceptOf.throw]
  rw [Bool.not_eq_true] at hflag
  have hfree : w.hasPass id = false := by
    cases concurrent with
    | false => simpa [Permits, mayBegin] using hp
    | true =>
        simp only [Permits, mayBegin, if_true, Bool.not_eq_true',
          hasSafepointPass_eq_false_iff] at hp
        rw [hasPass_eq_false_iff]
        intro i q hq hqid
        have := (h.storage_of_pass hq (by rw [hqid, hs])).flagged (hp i q hq hqid)
        simp [this] at hflag
  refine .of_ok ?_ (.began hs hfree hflag)
  simp [act, Except.map, World.beginPass, storage_of_some hs, hflag, bind, Except.bind, pure,
    Except.pure, World.setStorage]

theorem transition_endPass (h : w.Sound) (hp : w.Permits (.endPass i)) :
    Transition w (.endPass i) (w.perform (.endPass i)).1 (w.perform (.endPass i)).2 := by
  rcases hq : w.passes.get? i with _ | q
  · exact .of_error .noPass
      (by simp [act, Except.map, World.endPass, pass_of_none hq, bind, Except.bind]) (by simp)
  obtain ⟨s, hs, hf⟩ := h.passes i q hq
  have hflag : (q.concurrent && !s.iterating) = false := by
    cases hc : q.concurrent with
    | false => rfl
    | true => simp [hf.flagged hc]
  refine .of_ok ?_ (.ended hq hs (by simpa [Permits, mayEnd] using hp))
  simp [act, Except.map, World.endPass, pass_of_some hq, storageOf_of_some hs, hflag, bind,
    Except.bind, pure, Except.pure, World.setStorage]

theorem transition_forgetPass (hp : w.Permits (.forgetPass i)) :
    Transition w (.forgetPass i) (w.perform (.forgetPass i)).1 (w.perform (.forgetPass i)).2 := by
  rcases hq : w.passes.get? i with _ | q
  · exact .of_error .noPass
      (by simp [act, Except.map, World.forgetPass, pass_of_none hq, bind, Except.bind]) (by simp)
  refine .of_ok ?_ (.forgotten hq (by simpa [Permits, mayEnd] using hp))
  simp [act, Except.map, World.forgetPass, pass_of_some hq, bind, Except.bind, pure, Except.pure]

/-! ### Iterations -/

/-- **An iteration of a pass that is there can be entered.** -/
theorem enter_ok {method : Method} {q : Pass} (h : w.Sound) (hq : w.passes.get? i = some q) :
    ∃ w', w.enter i method = .ok w' ∧ Transition w (.enter i method) w' .done := by
  obtain ⟨s, hs, -⟩ := h.passes i q hq
  by_cases hcursor : q.cursor = .notStarted
  · have hstart : q.start? s.head = some { q with cursor := .upcoming s.head } :=
      Pass.start?_eq_some_iff.2 ⟨hcursor, rfl⟩
    refine ⟨_, ?_, .pinned hq hs hcursor⟩
    simp [World.enter, pass_of_some hq, storageOf_of_some hs, hstart, bind, Except.bind, pure,
      Except.pure, World.record, World.setPass]
  · have hstart : q.start? s.head = none := Pass.start?_eq_none_iff.2 hcursor
    refine ⟨_, ?_, .resumed hq hs hcursor⟩
    simp [World.enter, pass_of_some hq, storageOf_of_some hs, hstart, bind, Except.bind, pure,
      Except.pure, World.record]

theorem transition_enter {method : Method} (h : w.Sound) : Transition w (.enter i method)
    (w.perform (.enter i method)).1 (w.perform (.enter i method)).2 := by
  rcases hq : w.passes.get? i with _ | q
  · exact .of_error .noPass
      (by simp [act, Except.map, World.enter, pass_of_none hq, bind, Except.bind]) (by simp)
  obtain ⟨w', henter, ht⟩ := h.enter_ok hq
  exact .of_ok (by simp [act, Except.map, henter]) ht

/-- **The innermost iteration can always take a step.** -/
theorem advance_ok {c : Call} {outer : List Call} (h : w.Sound) (hcalls : w.calls = c :: outer) :
    ∃ w' progress, w.advance = .ok (w', progress) ∧
      Transition w .advance w' (.progressed c.pass progress) := by
  obtain ⟨q, s, hq, hs, hf⟩ := h.calls c (by simp [hcalls])
  have hsound := (h.storages _ s hs).2
  rcases hnext : (c.scanning.bind fun k => k.snapshot.lowest?.map fun slot => (k, slot)) with
    _ | ⟨k, slot⟩
  · -- the snapshot is exhausted, and the next block is to be claimed
    have hdone : ∀ k, c.scanning = some k → k.snapshot = .empty := by
      intro k hk
      rw [hk] at hnext
      simpa [Mask.lowest?_eq_none_iff] using hnext
    rcases hcursor : q.cursor with _ | n
    · exact absurd hcursor hf.started
    obtain ⟨rest, hsuf, hrest⟩ := (h.storage_of_pass hq hs).on_list n hcursor
    cases n with
    | none =>
        have hclaim : q.claim s = .ok (q, none) := Pass.claim_eq_none_iff.2 ⟨hcursor, rfl⟩
        refine ⟨_, _, ?_, .finished hcalls hq hs hdone hcursor⟩
        simp [World.advance, hcalls, pass_of_some hq, storageOf_of_some hs, hnext,
          hclaim, Failure.ofFault, World.leave, bind, Except.bind, pure, Except.pure]
    | some n =>
        obtain ⟨b, hb⟩ := hsound.lists.isSome (hsuf.subset (List.mem_of_mem_head? hrest.symm))
        have hclaim : q.claim s = .ok ({ q with
            cursor := .upcoming b.next, claimed := q.claimed + 1 }, some ⟨n, b.mask⟩) := by
          simp [Pass.claim, hcursor, Storage.block, hb, bind, Except.bind, pure, Except.pure]
        refine ⟨_, _, ?_, .claimed hcalls hq hs hdone hcursor hb⟩
        simp [World.advance, hcalls, pass_of_some hq, storageOf_of_some hs, hnext,
          hclaim, Failure.ofFault, bind, Except.bind, pure, Except.pure]
  · -- an entry of the snapshot is taken up
    obtain ⟨k, hscan, hslot⟩ : ∃ k', c.scanning = some k' ∧ k' = k ∧
        k'.snapshot.lowest? = some slot := by
      simpa [Option.bind_eq_some_iff, and_assoc] using hnext
    obtain ⟨rfl, hslot⟩ := hslot
    obtain ⟨b, hb⟩ := hsound.lists.isSome (hf.scanning _ hscan)
    have hload : s.load ⟨k.block, slot⟩ = .ok (b.load slot) := Storage.load_eq_ok_iff.2 ⟨b, hb, rfl⟩
    refine ⟨_, _, ?_, .offered hcalls hq hs hscan hslot hload⟩
    simp [World.advance, hcalls, pass_of_some hq, storageOf_of_some hs, hnext,
      hload, Failure.ofFault, bind, Except.bind, pure, Except.pure]

theorem transition_advance (h : w.Sound) (hp : w.Permits .advance) :
    Transition w .advance (w.perform .advance).1 (w.perform .advance).2 := by
  obtain ⟨c, hhead, -⟩ := hp
  obtain ⟨outer, hcalls⟩ := List.head?_eq_some_iff.1 hhead
  obtain ⟨w', progress, hadvance, ht⟩ := h.advance_ok hcalls
  have hinner : w.innermost = c.pass := by simp [innermost, hcalls]
  exact .of_ok (by simp [act, Except.map, hadvance, hinner]) ht

/-- The entry that an iteration waits for can be written. -/
theorem store_of_entry {c : Call} {e : Entry} (h : w.Sound) (hc : c ∈ w.calls)
    (he : c.stage.entry? = some e) : ∃ s, w.storages.get? e.storage = some s ∧
      (∃ v, s.load e.place = .ok v) ∧ ∀ v, ∃ s', s.store e.place v = .ok s' ∧
        s.Written s' e.place v ∧ ∀ p, s'.InUse p ↔ s.InUse p := by
  obtain ⟨q, s, hq, hs, hf⟩ := h.calls c hc
  obtain ⟨hstorage, hmem⟩ := hf.entry e he
  have hsound := (h.storages _ s hs).2
  obtain ⟨b, hb⟩ := hsound.lists.isSome hmem
  exact ⟨s, by rw [hstorage, hs], ⟨b.load e.place.slot, Storage.load_eq_ok_iff.2 ⟨b, hb, rfl⟩⟩,
    hsound.store hmem⟩

/-- **A verdict can always be taken.** -/
theorem judge_ok {c : Call} {outer : List Call} {e : Entry} {object : Reference} (alive : Bool)
    (h : w.Sound) (hcalls : w.calls = c :: outer) (hstage : c.stage = .asking e object) :
    ∃ w' progress, w.judge alive = .ok (w', progress) ∧
      Transition w (.judge alive) w' (.progressed c.pass progress) := by
  cases alive with
  | true =>
      refine ⟨_, _, ?_, .upheld hcalls hstage⟩
      simp [World.judge, hcalls, hstage, Progress.stage, bind, Except.bind, pure, Except.pure]
  | false =>
      obtain ⟨s, hs, -, hstore⟩ := h.store_of_entry (c := c) (e := e) (by simp [hcalls])
        (by simp [hstage, Stage.entry?])
      obtain ⟨s', hstore, hwritten, huse⟩ := hstore none
      refine ⟨_, _, ?_, .cleared hcalls hstage hs hstore hwritten huse⟩
      simp [World.judge, hcalls, hstage, Progress.stage, World.store, World.storage, hs, hstore,
        Failure.ofFault, bind, Except.bind, pure, Except.pure, World.setStorage]

theorem transition_judge {alive : Bool} (h : w.Sound) (hp : w.Permits (.judge alive)) :
    Transition w (.judge alive) (w.perform (.judge alive)).1 (w.perform (.judge alive)).2 := by
  obtain ⟨c, e, object, hhead, hstage⟩ := hp
  obtain ⟨outer, hcalls⟩ := List.head?_eq_some_iff.1 hhead
  obtain ⟨w', progress, hjudge, ht⟩ := h.judge_ok alive hcalls hstage
  have hinner : w.innermost = c.pass := by simp [innermost, hcalls]
  exact .of_ok (by simp [act, Except.map, hjudge, hinner]) ht

theorem transition_panic (hp : w.Permits .panic) :
    Transition w .panic (w.perform .panic).1 (w.perform .panic).2 := by
  obtain ⟨c, hhead, hstage⟩ := hp
  obtain ⟨outer, hcalls⟩ := List.head?_eq_some_iff.1 hhead
  exact .of_ok (by simp [act, Except.map, World.leave, hcalls]) (.panicked hcalls hstage)

/-! ### Entries in hand -/

/-- An entry in a visitor's hand can be read and written. -/
theorem store_of_inHand (h : w.Sound) (hp : w.InHand en) : ∃ s,
    w.storages.get? en.storage = some s ∧ (∃ v, s.load en.place = .ok v) ∧
      ∀ v, ∃ s', s.store en.place v = .ok s' ∧ s.Written s' en.place v ∧
        ∀ p, s'.InUse p ↔ s.InUse p := by
  obtain ⟨c, hc, hstage⟩ := hp
  exact h.store_of_entry hc (by rw [hstage]; rfl)

theorem transition_load (h : w.Sound) (hp : w.Permits (.load en)) :
    Transition w (.load en) (w.perform (.load en)).1 (w.perform (.load en)).2 := by
  obtain ⟨s, hs, ⟨v, hload⟩, -⟩ := h.store_of_inHand hp
  refine .of_ok ?_ (.loaded hs hload)
  simp [act, Except.map, World.load, storage_of_some hs, hload, Failure.ofFault, bind, Except.bind]

theorem transition_store (h : w.Sound) (hp : w.Permits (.store en v)) :
    Transition w (.store en v) (w.perform (.store en v)).1 (w.perform (.store en v)).2 := by
  obtain ⟨s, hs, -, hstore⟩ := h.store_of_inHand hp.1
  obtain ⟨s', hstore, hwritten, huse⟩ := hstore v
  refine .of_ok ?_ (.stored hs hstore hwritten huse)
  simp [act, Except.map, World.store, storage_of_some hs, hstore, Failure.ofFault, bind,
    Except.bind, pure, Except.pure]

theorem transition_exchange {expected : Reference} {new : Option Reference} (h : w.Sound)
    (hp : w.Permits (.exchange en expected new)) : Transition w (.exchange en expected new)
      (w.perform (.exchange en expected new)).1 (w.perform (.exchange en expected new)).2 := by
  obtain ⟨s, hs, ⟨found, hload⟩, hstore⟩ := h.store_of_inHand hp.1
  obtain ⟨s', hstore, hwritten, huse⟩ := hstore (RootStore.exchange found expected new).1
  refine .of_ok ?_ (.exchanged hs hload hstore hwritten huse)
  simp [act, Except.map, World.exchange, World.load, World.store, storage_of_some hs, hload, hstore,
    Failure.ofFault, bind, Except.bind, pure, Except.pure]

/-- **Every permitted event in a sound world goes in one of these ways.** -/
theorem transition (h : w.Sound) (hp : w.Permits e) :
    Transition w e (w.perform e).1 (w.perform e).2 := by
  cases e with
  | create settings => exact .of_ok rfl (.created settings)
  | drop id => exact h.transition_drop hp
  | allocate id => exact h.transition_allocate
  | release id number => exact h.transition_release
  | get id number => exact h.transition_get
  | set id number v => exact h.transition_set
  | delete id yielding => exact h.transition_delete hp
  | beginPass id concurrent access => exact h.transition_beginPass hp
  | endPass i => exact h.transition_endPass hp
  | forgetPass i => exact transition_forgetPass hp
  | enter i method => exact h.transition_enter
  | advance => exact h.transition_advance hp
  | judge alive => exact h.transition_judge hp
  | panic => exact transition_panic hp
  | load en => exact h.transition_load hp
  | store en v => exact h.transition_store hp
  | exchange en expected new => exact h.transition_exchange hp

end Sound

/-! ## Every way leaves a sound world -/

namespace Sound

variable {s s' : Storage} {c : Call}

/-- The trace does not matter. -/
theorem record (h : w.Sound) (rows : List Row) : (w.record rows).Sound :=
  ⟨h.toCoherent.congr rfl rfl rfl, h.toEntitled.congr rfl rfl⟩

/-- Changing a storage and none of its entries in use. -/
theorem setStorage (h : w.Sound) (hs : w.storages.get? id = some s) (hid : s'.id = s.id)
    (hsound : s'.Sound) (hkeeps : w.hasPass id = true → s.Keeps s')
    (huse : ∀ p, s'.InUse p ↔ s.InUse p) : (w.setStorage id s').Sound :=
  ⟨h.toCoherent.setStorage hs hid hsound hkeeps, h.toEntitled.setStorage hs huse⟩

/-- Writing a slot. -/
theorem write {p : Place} {v : Option Reference} (h : w.Sound) (hs : w.storages.get? id = some s)
    (hwritten : s.Written s' p v) (huse : ∀ p, s'.InUse p ↔ s.InUse p) :
    (w.setStorage id s').Sound :=
  h.setStorage hs hwritten.frame.id_eq hwritten.sound (fun _ => .of_written hwritten) huse

/-- Other iterations are under way. -/
theorem setCalls {calls : List Call} (h : w.Sound)
    (hcalls : ∀ c ∈ calls, c ∈ w.calls ∨ ∃ q s, w.passes.get? c.pass = some q ∧
      w.storages.get? q.storage = some s ∧ c.Follows q s) : { w with calls }.Sound :=
  ⟨h.toCoherent.setCalls hcalls, h.toEntitled.congr rfl rfl⟩

/-- Leaving the innermost iteration. -/
theorem leave {outer : List Call} (h : w.Sound) (hcalls : w.calls = c :: outer) :
    { w with calls := outer }.Sound :=
  h.setCalls fun d hd => Or.inl (by rw [hcalls]; exact List.mem_cons_of_mem _ hd)

/-- The innermost iteration goes on. -/
theorem setInnermost {outer : List Call} {q : Pass} {d : Call} (h : w.Sound)
    (hcalls : w.calls = c :: outer) (hq : w.passes.get? d.pass = some q)
    (hs : w.storages.get? q.storage = some s) (hf : d.Follows q s) :
    { w with calls := d :: outer }.Sound := by
  refine h.setCalls fun d' hd' => ?_
  rcases List.mem_cons.1 hd' with rfl | hmem
  · exact Or.inr ⟨q, s, hq, hs, hf⟩
  · exact Or.inl (by rw [hcalls]; exact List.mem_cons_of_mem _ hmem)

end Sound

/-- **Every way leaves a sound world.** -/
theorem Transition.sound (ht : Transition w e w' r) (h : w.Sound) : w'.Sound := by
  cases ht with
  | failed | refused | got | loaded => exact h
  | created settings => exact ⟨h.toCoherent.addStorage settings, h.toEntitled.addStorage settings⟩
  | dropped hs hfree => exact ⟨h.toCoherent.eraseStorage hfree, h.toEntitled.eraseStorage⟩
  | granted hs halloc hgranted =>
      refine Sound.record ⟨?_, h.toEntitled.grant hs hgranted⟩ _
      exact (h.toCoherent.setStorage hs hgranted.frame.id_eq hgranted.sound
        fun _ => .of_granted hgranted).congr rfl rfl rfl
  | released hh hs hrelease hwritten huse =>
      refine ⟨?_, h.toEntitled.release hh hs huse⟩
      exact (h.toCoherent.setStorage hs hwritten.frame.id_eq hwritten.sound
        fun _ => .of_written hwritten).congr rfl rfl rfl
  | lost hh hs hforeign => exact ⟨h.toCoherent.congr rfl rfl rfl, h.toEntitled.lose hh⟩
  | written hh hs hstore hwritten huse => exact h.write hs hwritten huse
  | deleted hs hdelete hwithout hgone hcount hfree =>
      have hold := (h.storages _ _ hs).2
      refine (h.setStorage hs hwithout.frame.id_eq hwithout.sound (fun hpass => ?_)
        fun p => hwithout.inUse_iff hold).record _
      rw [hfree hpass] at hwithout
      exact .of_without hwithout
  | @began id concurrent access s hs hfree hflag =>
      obtain ⟨hid, hsound⟩ := h.storages _ _ hs
      set s' : Storage := { s with
        iterating := s.iterating || concurrent
        counters := { s.counters with passesStarted := s.counters.passesStarted + 1 } } with hs'
      have hsound' : s'.Sound := hsound.congr rfl rfl rfl rfl
      have hmid : (w.setStorage id s').Sound := by
        refine h.setStorage hs rfl hsound' (fun _ => ?_) fun _ => Iff.rfl
        exact ⟨by rw [show s'.linked = s.linked from Storage.linked_congr rfl rfl],
          fun hi => by simp [hs', hi]⟩
      refine Sound.record ⟨hmid.toCoherent.addPass (q := { storage := id, concurrent, access }) ?_
        hfree (s := s') ?_, hmid.toEntitled.congr rfl rfl⟩ _
      · rw [World.setStorage, Registry.get?_set_of_some hs, if_pos rfl]
      · exact ⟨fun hc => by simp only at hc; simp [hs', hc], by simp⟩
  | @ended i q s hq hs hidle =>
      obtain ⟨hid, hsound⟩ := h.storages _ _ hs
      have hmid := h.toCoherent.erasePass hidle
      have hfree : { w with passes := w.passes.erase i }.hasPass q.storage = false := by
        rw [hasPass_eq_false_iff]
        intro j t hj hjt
        rw [Registry.get?_erase] at hj
        split at hj
        · cases hj
        · exact absurd (h.alone j i t q hj hq hjt) ‹_›
      set s' : Storage := { s with iterating := s.iterating && !q.concurrent } with hs'
      have hsound' : s'.Sound := hsound.congr rfl rfl rfl rfl
      have huse : ∀ p, s'.InUse p ↔ s.InUse p := fun _ => Iff.rfl
      have hmid' : ({ w with passes := w.passes.erase i }.setStorage q.storage s').Coherent :=
        hmid.setStorage hs rfl hsound' fun hpass => by
          rw [hfree] at hpass
          cases hpass
      have hlast : ({ w with passes := w.passes.erase i }.setStorage q.storage s').Sound :=
        ⟨hmid', (h.toEntitled.setStorage hs huse).congr rfl rfl⟩
      exact hlast.record _
  | forgotten hq hidle => exact ⟨h.toCoherent.erasePass hidle, h.toEntitled.congr rfl rfl⟩
  | @pinned i method q s hq hs hcursor =>
      have hsound := (h.storages _ _ hs).2
      have hfollow := h.storage_of_pass hq hs
      set q' : Pass := { q with cursor := .upcoming s.head } with hq'
      have hf' : q'.Follows s :=
        ⟨hfollow.flagged, fun n hn => ⟨s.linked, List.suffix_refl _, by
          rw [← hsound.lists.head_eq]
          simpa [hq'] using hn.symm⟩⟩
      have hmid : (w.setPass i q').Sound :=
        ⟨h.toCoherent.setPass hq hs rfl (by simp [hq']) hf', h.toEntitled.congr rfl rfl⟩
      refine ((hmid.record [.entered i]).record [.iterationStarted i s.head]).setCalls
        fun d hd => ?_
      rcases List.mem_cons.1 hd with rfl | hmem
      · refine Or.inr ⟨q', s, ?_, hs, by simp [hq'], by simp, by simp [Stage.entry?]⟩
        exact (Registry.get?_set_of_some hq q' i).trans (if_pos rfl)
      · exact Or.inl hmem
  | @resumed i method q s hq hs hcursor =>
      refine (h.record [.entered i]).setCalls fun d hd => ?_
      rcases List.mem_cons.1 hd with rfl | hmem
      · exact Or.inr ⟨q, s, hq, hs, hcursor, by simp, by simp [Stage.entry?]⟩
      · exact Or.inl hmem
  | @offered c outer q s k slot v hcalls hq hs hscan hslot hload =>
      have hf : c.Follows q s := by
        obtain ⟨q', s', hq', hs', hf⟩ := h.calls c (by simp [hcalls])
        obtain rfl := Option.some.inj (hq.symm.trans hq')
        obtain rfl := Option.some.inj (hs.symm.trans hs')
        exact hf
      refine h.setInnermost hcalls hq hs ⟨hf.started, ?_, ?_⟩
      · intro k' hk'
        obtain rfl := Option.some.inj hk'
        exact hf.scanning k hscan
      · intro e he
        rw [Progress.eq_of_entry?_stage_offer he]
        exact ⟨rfl, hf.scanning k hscan⟩
  | @claimed c outer q s n b hcalls hq hs hdone hcursor hb =>
      have hsound := (h.storages _ _ hs).2
      have hfollow := h.storage_of_pass hq hs
      set q' : Pass := { q with cursor := .upcoming b.next, claimed := q.claimed + 1 } with hq'
      have hf' : q'.Follows s := by
        refine ⟨hfollow.flagged, fun m hm => ?_⟩
        obtain ⟨rest, hsuf, hrest⟩ := hfollow.on_list _ hcursor
        obtain ⟨tail, rfl⟩ := List.head?_eq_some_iff.1 hrest.symm
        obtain ⟨l₁, hl⟩ := hsuf
        obtain ⟨b', hb', hnext, -⟩ := hsound.lists.links l₁ n tail hl.symm
        obtain rfl := Option.some.inj (hb.symm.trans hb')
        refine ⟨tail, ⟨l₁ ++ [n], by rw [← hl]; simp⟩, ?_⟩
        simpa [hq', hnext] using hm.symm
      have hmid : (w.setPass c.pass q').Sound :=
        ⟨h.toCoherent.setPass hq hs rfl (by simp [hq']) hf', h.toEntitled.congr rfl rfl⟩
      refine hmid.setInnermost (q := q') hcalls ?_ hs ⟨by simp [hq'], ?_, by simp [Stage.entry?]⟩
      · exact (Registry.get?_set_of_some hq q' c.pass).trans (if_pos rfl)
      · intro k hk
        obtain rfl := Option.some.inj hk
        exact hsound.mem_linked n b hb
  | finished hcalls hq hs hdone hcursor => exact (h.leave hcalls).record _
  | @upheld c outer en object hcalls hstage =>
      obtain ⟨q, s, hq, hs, hf⟩ := h.calls c (by simp [hcalls])
      refine h.setInnermost hcalls hq hs ⟨hf.started, hf.scanning, ?_⟩
      intro en' hen'
      obtain rfl := Option.some.inj hen'
      exact hf.entry _ (by rw [hstage]; rfl)
  | @cleared c outer en object s s' hcalls hstage hs hstore hwritten huse =>
      obtain ⟨q, t, hq, ht, hf⟩ := h.calls c (by simp [hcalls])
      have hmid := h.setInnermost (d := { c with stage := .ready }) hcalls hq ht
        ⟨hf.started, hf.scanning, by simp [Stage.entry?]⟩
      exact hmid.write hs hwritten huse
  | panicked hcalls hstage => exact (h.leave hcalls).record _
  | stored hs hstore hwritten huse => exact h.write hs hwritten huse
  | exchanged hs hload hstore hwritten huse => exact h.write hs hwritten huse

/-- A run from a sound world ends in a sound world. -/
theorem Run.sound {steps : List Step} (h : Run w steps w') (hw : w.Sound) : w'.Sound :=
  h.invariant hw fun _ _ hs hp => (hs.transition hp).sound hs

/-- **Every world that can be reached is sound.** -/
theorem Reachable.sound (h : w.Reachable) : w.Sound := by
  obtain ⟨steps, hrun⟩ := h
  exact hrun.sound .init

end World

end RootStore
