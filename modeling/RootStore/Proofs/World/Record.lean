import RootStore.Proofs.World.Accounts

/-!
# What is recorded

Rows are added to the trace at many places: where a pass begins and ends, where an iteration is
entered and left, where a block is linked and where a deletion comes to an end.  Here it is told
event by event.  What an event adds follows from what was asked, what was answered and the worlds
before and after; the trace of a run is what its steps have added, one after the other.

* `Event.rows` — what an event adds to the trace.
* `Event.Records`, `Event.mem_rows` — **where a row can come from.**
* `World.Transition.log_eq` — **every event adds these rows.**
* `World.Run.log_eq` — **the trace is what the steps have added.**
* `World.Run.row_origin` — every row was recorded by a step.
-/

namespace RootStore

/-- The row of pinning a pass, which is added where the pass has not started. -/
def World.pinning (w : World) (p : Nat) : List Row :=
  match w.passes.get? p with
  | some q =>
      if q.cursor = .notStarted then
        [.iterationStarted p ((w.storages.get? q.storage).bind (·.head))]
      else []
  | none => []

/-- **What an event adds to the trace.** -/
def Event.rows (w : World) (e : Event) (w' : World) (r : Reply) : List Row :=
  match e, r with
  | .allocate id, .allocated (some _) =>
      match w.storages.get? id, w'.storages.get? id with
      | some s, some s' =>
          if s.blockCount < s'.blockCount then [.blockLinked s.name s'.blockCount] else []
      | _, _ => []
  | .delete id _, .deleted count =>
      match w.storages.get? id with
      | some s => (if w.givesWay id e then [.deletionInhibited s.name] else []) ++
          if count = 0 then [] else [.blocksDeleted s.name count]
      | none => []
  | .beginPass id concurrent _, .began p =>
      match w.storages.get? id with
      | some s => [.passBegan p s.name concurrent]
      | none => []
  | .enter p _, .done => .entered p :: w.pinning p
  | .advance, .progressed p .finished => [.left p]
  | .panic, .done => [.left w.innermost]
  | .endPass p, .done =>
      match w.passes.get? p with
      | some q => [.passEnded p q.claimed, .closed p]
      | none => []
  | _, _ => []

/-- What a step adds to the trace. -/
def Step.rows (st : Step) : List Row := st.event.rows st.before st.after st.reply

/-- **Where a row can come from**: which event has added it, with which answer. -/
inductive Event.Records (w w' : World) : Event → Reply → Row → Prop
  /-- A block has been linked for an entry. -/
  | linked {id handle : Nat} {s s' : Storage} (hs : w.storages.get? id = some s)
      (hs' : w'.storages.get? id = some s') (hless : s.blockCount < s'.blockCount) :
      Records w w' (.allocate id) (.allocated (some handle)) (.blockLinked s.name s'.blockCount)
  /-- A deletion has given way. -/
  | inhibited {id count : Nat} {yielding : Bool} {s : Storage} (hs : w.storages.get? id = some s)
      (hgives : w.givesWay id (.delete id yielding) = true) :
      Records w w' (.delete id yielding) (.deleted count) (.deletionInhibited s.name)
  /-- A deletion has deleted blocks. -/
  | deleted {id count : Nat} {yielding : Bool} {s : Storage} (hs : w.storages.get? id = some s)
      (hcount : count ≠ 0) :
      Records w w' (.delete id yielding) (.deleted count) (.blocksDeleted s.name count)
  /-- A pass has begun. -/
  | began {id p : Nat} {concurrent : Bool} {access : Access} {s : Storage}
      (hs : w.storages.get? id = some s) :
      Records w w' (.beginPass id concurrent access) (.began p) (.passBegan p s.name concurrent)
  /-- An iteration is entered. -/
  | entered (p : Nat) (method : Method) : Records w w' (.enter p method) .done (.entered p)
  /-- It is the first one of its pass. -/
  | started {p : Nat} {method : Method} {row : Row} (hrow : row ∈ w.pinning p) :
      Records w w' (.enter p method) .done row
  /-- An iteration has come to its end. -/
  | returned (p : Nat) : Records w w' .advance (.progressed p .finished) (.left p)
  /-- A panic has left an iteration. -/
  | panicked : Records w w' .panic .done (.left w.innermost)
  /-- A pass has ended. -/
  | ended {p : Nat} {q : Pass} (hq : w.passes.get? p = some q) :
      Records w w' (.endPass p) .done (.passEnded p q.claimed)
  /-- Then its span is closed. -/
  | closed {p : Nat} {q : Pass} (hq : w.passes.get? p = some q) :
      Records w w' (.endPass p) .done (.closed p)

/-- Every row that an event adds has such a source. -/
theorem Event.mem_rows {w w' : World} {e : Event} {r : Reply} {row : Row}
    (h : row ∈ e.rows w w' r) :
    Event.Records w w' e r row := by
  unfold Event.rows at h
  split at h
  · split at h
    · split at h
      · obtain rfl := List.mem_singleton.1 h
        exact .linked ‹_› ‹_› ‹_›
      · cases h
    · cases h
  · split at h
    · rcases List.mem_append.1 h with h | h <;> split at h
      · obtain rfl := List.mem_singleton.1 h
        exact .inhibited ‹_› ‹_›
      · cases h
      · cases h
      · obtain rfl := List.mem_singleton.1 h
        exact .deleted ‹_› ‹_›
    · cases h
  · split at h
    · obtain rfl := List.mem_singleton.1 h
      exact .began ‹_›
    · cases h
  · rcases List.mem_cons.1 h with rfl | h
    · exact .entered _ _
    · exact .started h
  · obtain rfl := List.mem_singleton.1 h
    exact .returned _
  · obtain rfl := List.mem_singleton.1 h
    exact .panicked
  · split at h
    · rcases List.mem_pair.1 h with rfl | rfl
      · exact .ended ‹_›
      · exact .closed ‹_›
    · cases h
  · cases h

/-- The row of a first iteration names its pass. -/
theorem World.mem_pinning {w : World} {p : Nat} {row : Row} (h : row ∈ w.pinning p) :
    ∃ head, row = .iterationStarted p head := by
  unfold World.pinning at h
  split at h
  · split at h
    · exact ⟨_, List.mem_singleton.1 h⟩
    · cases h
  · cases h

/-- An allocation counts one block more where it links one. -/
theorem Storage.Sound.allocate_blockCount {s : Storage} {a : Allocation} (h : s.Sound)
    (halloc : s.allocate = .ok a) : a.storage.blockCount = s.blockCount + a.linked.toNat := by
  have htake : ∀ {t t' : Storage} {n : Nat} {p : Place}, t.takeEntry n = .ok (t', p) →
      t'.blockCount = t.blockCount := fun htake => by
    obtain ⟨b, d, -, -, -, rfl⟩ := takeEntry_inv htake
    rfl
  rcases hqueue : s.available with _ | ⟨n, queue⟩
  · by_cases hlimit : s.atLimit = true
    · simp only [Storage.allocate, hqueue, hlimit, if_true, pure, Except.pure] at halloc
      obtain rfl := Except.ok.inj halloc
      rfl
    · obtain ⟨blocks, hlink, -⟩ := h.lists.link_eq
      simp only [Storage.allocate, hqueue, if_neg hlimit, hlink, bind, Except.bind, pure,
        Except.pure] at halloc
      split at halloc
      · cases halloc
      · rename_i x hx
        obtain rfl := Except.ok.inj halloc
        exact htake hx
  · simp only [Storage.allocate, hqueue, bind, Except.bind, pure, Except.pure] at halloc
    split at halloc
    · cases halloc
    · rename_i x hx
      obtain rfl := Except.ok.inj halloc
      exact htake hx

namespace World

variable {w w' : World} {e : Event} {r : Reply} {steps : List Step}

/-- **Every event adds these rows.** -/
theorem Transition.log_eq (ht : Transition w e w' r) (h : w.Sound) :
    w'.log.toList = w.log.toList ++ e.rows w w' r := by
  cases ht with
  | failed => cases e <;> simp [Event.rows]
  | created | dropped | refused | released | lost | got | written | forgotten | upheld | cleared
  | loaded | stored | exchanged =>
      simp [Event.rows, World.create, World.spend, World.setStorage]
  | @granted id s s' p linked hs halloc hgranted =>
      have hcount : s'.blockCount = s.blockCount + linked.toNat :=
        (h.storages id s hs).2.allocate_blockCount halloc
      have hs' : (w.storages.set id s').get? id = some s' := by
        rw [Registry.get?_set_of_some hs, if_pos rfl]
      cases linked <;> simp [Event.rows, World.record, World.setStorage, hs, hs', hcount]
  | @deleted id yielding s d gone hs hdelete hwithout hgone hcount hfree =>
      obtain ⟨d', -, hdelete', -, -, -, hinhibited⟩ := (h.storages id s hs).2.deleteEmpty yielding
      obtain rfl := Except.ok.inj (hdelete.symm.trans hdelete')
      have hgives : w.givesWay id (.delete id yielding) = d.inhibited := by
        simp [givesWay, hs, hinhibited, Bool.and_assoc]
      simp [Event.rows, World.record, World.setStorage, deletionRows, hs, hgives]
  | began hs => simp [Event.rows, World.record, World.setStorage, hs]
  | ended hq => simp [Event.rows, World.record, World.setStorage, hq]
  | pinned hq hs hcursor => simp [Event.rows, World.record, World.setPass, pinning, hq, hs, hcursor]
  | resumed hq hs hcursor => simp [Event.rows, World.record, pinning, hq, hcursor]
  | @offered c outer q s k slot v =>
      rcases hm : c.method <;> rcases v <;> simp [Event.rows, Progress.offer]
  | claimed => simp [Event.rows, World.setPass]
  | finished => simp [Event.rows, World.record]
  | panicked hcalls => simp [Event.rows, World.record, innermost, hcalls]

/-- A step adds its rows. -/
theorem Sound.log_eq (h : w.Sound) (hp : w.Permits e) :
    (w.perform e).1.log.toList = w.log.toList ++ (Step.mk w e).rows :=
  (h.transition hp).log_eq h

/-- **The trace is what the steps have added**, one after the other. -/
theorem Run.log_eq (h : Run w steps w') (hw : w.Sound) :
    w'.log.toList = w.log.toList ++ steps.flatMap Step.rows := by
  induction h with
  | nil => simp
  | @snoc w₁ steps e hrun hp ih =>
      rw [(hrun.sound hw).log_eq hp, ih, List.flatMap_append, List.flatMap_singleton,
        List.append_assoc]

/-- **Every row was recorded by a step**, which found the rows before it. -/
theorem Run.row_origin {l₁ l₂ : List Row} {row : Row} (h : Run {} steps w)
    (hlog : w.log.toList = l₁ ++ row :: l₂) : ∃ before st after r₁ r₂,
      steps = before ++ st :: after ∧ st.rows = r₁ ++ row :: r₂ ∧
        l₁ = st.before.log.toList ++ r₁ := by
  generalize hinit : ({} : World) = w₀ at h
  induction h generalizing l₂ with
  | nil =>
      subst hinit
      simp at hlog
  | @snoc w₁ steps e hrun hp ih =>
      subst hinit
      have hlast := (hrun.sound .init).log_eq hp
      have hsplit : w₁.log.toList ++ (Step.mk w₁ e).rows = l₁ ++ row :: l₂ := hlast.symm.trans hlog
      rcases List.append_eq_append_iff.1 hsplit with ⟨r₁, hl₁, hrows⟩ | ⟨rest, hbefore, hrest⟩
      · exact ⟨steps, ⟨w₁, e⟩, [], r₁, l₂, rfl, hrows, hl₁⟩
      · rcases rest with _ | ⟨row', rest⟩
        · exact ⟨steps, ⟨w₁, e⟩, [], [], l₂, rfl, hrest.symm, by simpa using hbefore.symm⟩
        · obtain ⟨rfl, -⟩ := List.cons.inj hrest
          obtain ⟨before, st, after, r₁, r₂, rfl, hst, hl₁⟩ := ih hbefore
          exact ⟨before, st, after ++ [⟨w₁, e⟩], r₁, r₂, by simp, hst, hl₁⟩

end World

end RootStore
