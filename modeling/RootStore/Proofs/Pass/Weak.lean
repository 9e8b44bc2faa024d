import RootStore.Proofs.Pass.Culled
import RootStore.Proofs.Pass.Iterate

/-!
# Weak entries

An iteration by `Method.alive` asks about the object of every entry that holds one, hands the entry
to its visitor where the object is alive and clears the entry where it is dead.  Clearing and
visiting happen in the middle of the walk, and the visitor may write the entry in its hand; still
every entry is asked about once, in the order of the list, and by what it held before.

* `World.Sweeping` — **the invariant of the loop**: which entries are still to be taken up.
* `World.Sweeping.advance`, `World.Turn` — how a turn begins.
* `World.Sweeping.run`, `World.Weeding` — the loop goes through the entries that are left.
* `Storage.Weeded` — what is said of the storage afterwards.
* `World.Settled` — what is left to do where the visitor wrote nothing.
* `World.weak_entries` — **all this holds of every iteration of weak entries.**
-/

namespace RootStore

variable {σ : Type}

/-! ## The loop -/

theorem Pass.offers_alive_iff {q : Pass} :
    q.offers .alive = true ↔ q.concurrent = false ∧ q.access = .writable := by
  simp [offers]

/-- The entries that are left to be taken up in the block that is scanned. -/
def Call.placesLeft (c : Call) : List Place :=
  (c.scanning.map fun k => k.snapshot.indices.map (Place.mk k.block)).getD []

theorem Call.placesLeft_eq_nil (c : Call) (h : ∀ k, c.scanning = some k → k.snapshot = .empty) :
    c.placesLeft = [] := by
  rcases hscan : c.scanning with _ | k
  · simp [placesLeft, hscan]
  · simp [placesLeft, hscan, h k hscan]

namespace World

variable {v : Visitor σ} {alive : Reference → Bool} {w w' w₁ w₂ : World} {id sid : Nat}
  {outer : List Call} {c c' : Call} {s s' : Storage} {rest : List Nat} {p : Place}
  {left : Option Reference}

/-- Everything but one pass, one storage and the iterations is the same. -/
structure Aside (id sid : Nat) (w w' : World) : Prop where
  storages : ∀ i, i ≠ sid → w'.storages.get? i = w.storages.get? i
  passes : ∀ i, i ≠ id → w'.passes.get? i = w.passes.get? i
  handles : w'.handles = w.handles

theorem Aside.trans (h₁ : Aside id sid w w₁) (h₂ : Aside id sid w₁ w₂) : Aside id sid w w₂ where
  storages := fun i hi => (h₂.storages i hi).trans (h₁.storages i hi)
  passes := fun i hi => (h₂.passes i hi).trans (h₁.passes i hi)
  handles := h₂.handles.trans h₁.handles

/-- **An iteration of weak entries is under way** within the iterations `outer`; its pass stands
before the blocks `rest` of the storage `s`. -/
structure Sweeping (w : World) (id sid : Nat) (outer : List Call) (c : Call) (s : Storage)
    (rest : List Nat) : Prop where
  sound : w.Sound
  calls : w.calls = c :: outer
  pass : c.pass = id
  method : c.method = .alive
  storage : w.storages.get? sid = some s
  /-- The pass stands before these blocks. -/
  pass_alive : ∃ q, w.passes.get? id = some q ∧ q.storage = sid ∧ q.offers .alive = true ∧
    q.cursor = .upcoming rest.head?
  /-- They are the last ones of the list. -/
  suffix : rest <:+ s.linked

/-- The entries that are still to be taken up. -/
def todo (c : Call) (s : Storage) (rest : List Nat) : List Place :=
  c.placesLeft ++ rest.flatMap s.placesAt

/-- What a turn of the loop begins with. -/
inductive Turn (w : World) (id sid : Nat) (outer : List Call) (c : Call) (s : Storage)
    (rest : List Nat) : World → Progress → Prop
  /-- Nothing is left, and the iteration is over. -/
  | finished {w' : World} (hcalls : w'.calls = outer) (hsound : w'.Sound)
      (hstorage : w'.storages.get? sid = some s)
      (hpass : ∃ q, w'.passes.get? id = some q ∧ q.storage = sid ∧ q.offers .alive = true)
      (htodo : todo c s rest = []) (haside : Aside id sid w w') :
      Turn w id sid outer c s rest w' .finished
  /-- The next block is claimed. -/
  | claimed {w' : World} {c' : Call} {n : Nat} {rest' : List Nat} (hrest : rest = n :: rest')
      (h : w'.Sweeping id sid outer c' s rest') (htodo : todo c' s rest' = todo c s rest)
      (haside : Aside id sid w w') : Turn w id sid outer c s rest w' (.claimed n)
  /-- The next entry is taken up. -/
  | offered {w' : World} {c' : Call} {p : Place} {found : Option Reference}
      (hload : s.load p = .ok found) (h : w'.Sweeping id sid outer c' s rest)
      (hstage : c'.stage = (Progress.offer .alive ⟨sid, p, .writable⟩ found).stage)
      (htodo : todo c s rest = p :: todo c' s rest) (haside : Aside id sid w w') :
      Turn w id sid outer c s rest w' (Progress.offer .alive ⟨sid, p, .writable⟩ found)

/-- **How a turn of the loop begins.** -/
theorem Sweeping.advance (h : w.Sweeping id sid outer c s rest) :
    ∃ w' progress, w.advance = .ok (w', progress) ∧ Turn w id sid outer c s rest w' progress := by
  obtain ⟨w', progress, hadvance, ht⟩ := h.sound.advance_ok h.calls
  refine ⟨w', progress, hadvance, ?_⟩
  obtain rfl := h.pass
  obtain ⟨q, hq, rfl, hoffers, hcursor⟩ := h.pass_alive
  have haccess := (Pass.offers_alive_iff.1 hoffers).2
  have hsound := ht.sound h.sound
  have hcalls := h.calls
  generalize hr : Reply.progressed c.pass progress = r at ht
  cases ht with
  | failed hact hwhy => cases hr
  | @offered c₁ outer₁ q₁ s₁ k slot found hcalls₁ hq₁ hs₁ hscan hslot hload =>
      obtain ⟨rfl, rfl⟩ := List.cons.inj (hcalls.symm.trans hcalls₁)
      obtain ⟨-, rfl⟩ := Reply.progressed.inj hr
      obtain rfl := Option.some.inj (hq.symm.trans hq₁)
      obtain rfl := Option.some.inj (h.storage.symm.trans hs₁)
      -- it is the lowest entry of what is left of the block that is scanned
      rw [haccess, h.method] at hsound ⊢
      refine .offered hload ⟨hsound, rfl, rfl, rfl, h.storage, ⟨q, hq, rfl, hoffers, hcursor⟩,
        h.suffix⟩ rfl ?_ ⟨fun _ _ => rfl, fun _ _ => rfl, rfl⟩
      simp [todo, Call.placesLeft, hscan, Mask.indices_eq_cons hslot]
  | @claimed c₁ outer₁ q₁ s₁ n b hcalls₁ hq₁ hs₁ hdone hcursor₁ hb =>
      obtain ⟨rfl, rfl⟩ := List.cons.inj (hcalls.symm.trans hcalls₁)
      obtain ⟨-, rfl⟩ := Reply.progressed.inj hr
      obtain rfl := Option.some.inj (hq.symm.trans hq₁)
      obtain rfl := Option.some.inj (h.storage.symm.trans hs₁)
      rw [hcursor₁] at hcursor
      obtain ⟨tail, rfl⟩ := List.head?_eq_some_iff.1 (Cursor.upcoming.inj hcursor).symm
      have hget := Registry.get?_set_of_some hq
        { q with cursor := .upcoming b.next, claimed := q.claimed + 1 }
      -- the older neighbour of the claimed block is the next one
      have hnext : b.next = tail.head? := by
        obtain ⟨l₁, hl⟩ := h.suffix
        obtain ⟨b', hb', hnext, -⟩ :=
          (h.sound.storages _ s h.storage).2.lists.links l₁ n tail hl.symm
        rw [Option.some.inj (hb.symm.trans hb'), hnext]
      refine .claimed rfl ⟨hsound, rfl, rfl, h.method, h.storage,
        ⟨_, (hget _).trans (if_pos rfl), rfl, hoffers, by rw [hnext]⟩,
        (List.suffix_cons n tail).trans h.suffix⟩ ?_
        ⟨fun _ _ => rfl, fun i hi => (hget i).trans (if_neg hi), rfl⟩
      rw [todo, todo, c.placesLeft_eq_nil hdone]
      simp [Call.placesLeft, Storage.placesAt, hb]
  | @finished c₁ outer₁ q₁ s₁ hcalls₁ hq₁ hs₁ hdone hcursor₁ =>
      obtain ⟨rfl, rfl⟩ := List.cons.inj (hcalls.symm.trans hcalls₁)
      obtain ⟨-, rfl⟩ := Reply.progressed.inj hr
      obtain rfl := Option.some.inj (hq.symm.trans hq₁)
      rw [hcursor₁] at hcursor
      have hrest : rest = [] := by simpa using (Cursor.upcoming.inj hcursor).symm
      refine .finished rfl hsound h.storage ⟨q, hq, rfl, hoffers⟩ ?_
        ⟨fun _ _ => rfl, fun _ _ => rfl, rfl⟩
      rw [todo, c.placesLeft_eq_nil hdone, hrest]
      rfl

/-- Which entries are to be taken up does not depend on what they hold. -/
theorem todo_of_retouched (h : s.Retouched s') : todo c s' rest = todo c s rest := by
  rw [todo, todo, h.placesAt_eq]

/-- Writing a slot of the storage lets the iteration go on where it stands. -/
theorem Sweeping.write (h : w.Sweeping id sid outer c s rest) (hstore : s.store p left = .ok s') :
    (w.setStorage sid s').Sweeping id sid outer c s' rest ∧ todo c s' rest = todo c s rest ∧
      Aside id sid w (w.setStorage sid s') := by
  have hretouched := (Storage.retouched_of_store hstore).1
  have hget := Registry.get?_set_of_some h.storage s'
  have hs := (h.sound.storages sid s h.storage).2
  have hlinked : p.block ∈ s.linked := by
    rcases hb : s.blocks.get? p.block with _ | b
    · simp [Storage.store, Storage.updateBlock, Storage.block, hb, bind, Except.bind] at hstore
    · exact hs.mem_linked _ b hb
  obtain ⟨s₁, hstore₁, hwritten, huse⟩ := hs.store hlinked left
  obtain rfl := Except.ok.inj (hstore.symm.trans hstore₁)
  refine ⟨⟨h.sound.write h.storage hwritten huse, h.calls, h.pass, h.method,
    (hget sid).trans (if_pos rfl), h.pass_alive, ?_⟩, todo_of_retouched hretouched,
    fun i hi => (hget i).trans (if_neg hi), fun _ _ => rfl, rfl⟩
  rw [hwritten.linked_eq]
  exact h.suffix

theorem Sweeping.load_eq (h : w.Sweeping id sid outer c s rest) (p : Place) (access : Access) :
    w.load ⟨sid, p, access⟩ = Failure.ofFault (s.load p) := by
  simp [World.load, storage_of_some h.storage, bind, Except.bind]

theorem Sweeping.object?_eq (h : w.Sweeping id sid outer c s rest) {access : Access}
    (hload : s.load p = .ok left) : w.object? ⟨sid, p, access⟩ = left := by
  simp [World.object?, h.load_eq, hload, Failure.ofFault, Except.toOption]

/-- An entry in the hand of the visitor is written. -/
theorem Sweeping.store {access : Access} (h : w.Sweeping id sid outer c s rest)
    (hstore : w.store ⟨sid, p, access⟩ left = .ok w') : ∃ s', s.store p left = .ok s' ∧
      w'.Sweeping id sid outer c s' rest ∧ todo c s' rest = todo c s rest ∧ Aside id sid w w' := by
  rcases hslot : s.store p left with f | s'
  · simp [World.store, storage_of_some h.storage, hslot, Failure.ofFault, bind, Except.bind]
      at hstore
  · simp only [World.store, storage_of_some h.storage, hslot, Failure.ofFault, bind,
      Except.bind, pure, Except.pure] at hstore
    obtain rfl := Except.ok.inj hstore
    exact ⟨s', rfl, h.write hslot⟩

/-- An object is judged alive, and its entry is handed to the visitor. -/
theorem Sweeping.uphold {e : Entry} {object : Reference} (h : w.Sweeping id sid outer c s rest)
    (hstage : c.stage = .asking e object) : ∃ w' c', w.judge true = .ok (w', .visiting e) ∧
      w'.Sweeping id sid outer c' s rest ∧ todo c' s rest = todo c s rest ∧ Aside id sid w w' := by
  obtain ⟨w', progress, hjudge, ht⟩ := h.sound.judge_ok true h.calls hstage
  have hsound := ht.sound h.sound
  have hcalls := h.calls
  generalize hr : Reply.progressed c.pass progress = r at ht
  cases ht with
  | failed hact hwhy => cases hr
  | @upheld c₁ outer₁ e₁ object₁ hcalls₁ hstage₁ =>
      obtain ⟨rfl, rfl⟩ := List.cons.inj (hcalls.symm.trans hcalls₁)
      obtain ⟨rfl, rfl⟩ := Stage.asking.inj (hstage.symm.trans hstage₁)
      obtain ⟨-, rfl⟩ := Reply.progressed.inj hr
      exact ⟨_, _, hjudge, ⟨hsound, rfl, h.pass, h.method, h.storage, h.pass_alive, h.suffix⟩, rfl,
        fun _ _ => rfl, fun _ _ => rfl, rfl⟩

/-- An object is judged dead, and its entry is cleared. -/
theorem Sweeping.clear {access : Access} {object : Reference}
    (h : w.Sweeping id sid outer c s rest) (hstage : c.stage = .asking ⟨sid, p, access⟩ object) :
    ∃ w' c' s', w.judge false = .ok (w', .cleared ⟨sid, p, access⟩) ∧ s.store p none = .ok s' ∧
      w'.Sweeping id sid outer c' s' rest ∧ todo c' s' rest = todo c s rest ∧
      Aside id sid w w' := by
  obtain ⟨w', progress, hjudge, ht⟩ := h.sound.judge_ok false h.calls hstage
  have hsound := ht.sound h.sound
  have hcalls := h.calls
  generalize hr : Reply.progressed c.pass progress = r at ht
  cases ht with
  | failed hact hwhy => cases hr
  | @cleared c₁ outer₁ e₁ object₁ s₁ s' hcalls₁ hstage₁ hs₁ hstore hwritten huse =>
      obtain ⟨rfl, rfl⟩ := List.cons.inj (hcalls.symm.trans hcalls₁)
      obtain ⟨rfl, rfl⟩ := Stage.asking.inj (hstage.symm.trans hstage₁)
      obtain ⟨-, rfl⟩ := Reply.progressed.inj hr
      obtain rfl := Option.some.inj (h.storage.symm.trans hs₁)
      obtain ⟨hwrite, htodo, haside⟩ := h.write hstore
      exact ⟨_, _, s', hjudge, hstore, ⟨hsound, rfl, h.pass, h.method, hwrite.storage, h.pass_alive,
        hwrite.suffix⟩, htodo, haside.storages, haside.passes, haside.handles⟩

/-- **What comes of the loop**: it returns, and it has gone through the entries that were to be
taken up. -/
structure Weeding (alive : Reference → Bool) (silent : Prop) (w : World) (id sid : Nat)
    (outer : List Call) (places : List Place) (s : Storage) (notes : Notes)
    (outcome : World × (σ × Notes) × Ending) (asked : List Reference) (visits : List Visit)
    (s' : Storage) : Prop where
  returned : outcome.2.2 = .returned
  /-- What was called is noted behind what was noted before. -/
  notes : outcome.2.1.2 = ⟨notes.asked ++ asked, notes.visits ++ visits⟩
  culled : Storage.Culled alive sid places s asked visits s'
  /-- Visitors that write nothing leave what they find. -/
  silent : silent → ∀ v ∈ visits, v.left = v.found
  sound : outcome.1.Sound
  calls : outcome.1.calls = outer
  storage : outcome.1.storages.get? sid = some s'
  pass : ∃ q, outcome.1.passes.get? id = some q ∧ q.storage = sid ∧ q.offers .alive = true
  aside : Aside id sid w outcome.1

namespace Weeding

variable {silent : Prop} {places : List Place} {notes : Notes}
  {outcome : World × (σ × Notes) × Ending}
  {asked : List Reference} {visits : List Visit} {s₁ : Storage} {object : Reference}

/-- What was done before has changed nothing else. -/
theorem after (haside : Aside id sid w w₁)
    (h : Weeding alive silent w₁ id sid outer places s notes outcome asked visits s') :
    Weeding alive silent w id sid outer places s notes outcome asked visits s' :=
  { h with aside := haside.trans h.aside }

/-- An entry that holds null comes first. -/
theorem null (hload : s.load p = .ok none)
    (h : Weeding alive silent w id sid outer places s notes outcome asked visits s') :
    Weeding alive silent w id sid outer (p :: places) s notes outcome asked visits s' :=
  { h with culled := .null hload h.culled }

/-- An entry whose object is dead comes first. -/
theorem dead (hload : s.load p = .ok (some object)) (hdead : alive object = false)
    (hstore : s.store p none = .ok s₁)
    (h : Weeding alive silent w id sid outer places s₁
      ⟨notes.asked ++ [object], notes.visits⟩ outcome
      asked visits s') :
    Weeding alive silent w id sid outer (p :: places) s notes outcome (object :: asked) visits s' :=
  { h with
    notes := by simpa using h.notes
    culled := .dead hload hdead hstore h.culled }

/-- An entry whose object is alive comes first. -/
theorem kept (hload : s.load p = .ok (some object)) (halive : alive object = true)
    (hstore : s.store p left = .ok s₁) (hleft : silent → left = some object)
    (h : Weeding alive silent w id sid outer places s₁ ⟨notes.asked ++ [object],
      notes.visits ++ [⟨⟨sid, p, .writable⟩, some object, left⟩]⟩ outcome asked visits s') :
    Weeding alive silent w id sid outer (p :: places) s notes outcome (object :: asked)
      (⟨⟨sid, p, .writable⟩, some object, left⟩ :: visits) s' :=
  { h with
    notes := by simpa using h.notes
    culled := .kept hload halive hstore h.culled
    silent := fun hs => List.forall_mem_cons.2 ⟨hleft hs, h.silent hs⟩ }

end Weeding

/-- The visitor is called with an entry whose object is alive. -/
theorem Sweeping.visit {object : Reference} (hv : v.Confined alive)
    (h : w.Sweeping id sid outer c s rest) (hload : s.load p = .ok (some object)) (st : σ) :
    ∃ w' st' left s', v.visit ⟨sid, p, .writable⟩ w st = (w', st', none) ∧
      s.store p left = .ok s' ∧ w'.Sweeping id sid outer c s' rest ∧
      todo c s' rest = todo c s rest ∧ Aside id sid w w' ∧
      w.object? ⟨sid, p, .writable⟩ = some object ∧ w'.object? ⟨sid, p, .writable⟩ = left ∧
      (v.Silent → left = some object) := by
  obtain ⟨⟨left, hstore⟩, hquiet⟩ := hv.visit ⟨sid, p, .writable⟩ w st (some object) <| by
    rw [h.load_eq, hload]
    rfl
  have hfound : w.object? ⟨sid, p, .writable⟩ = some object := h.object?_eq hload
  rcases hvisit : v.visit ⟨sid, p, .writable⟩ w st with ⟨w', st', panic⟩
  obtain rfl : panic = none := by simpa [hvisit] using hquiet
  rw [hvisit] at hstore
  obtain ⟨s', hslot, h', htodo, haside⟩ := h.store hstore
  have hleft : w'.object? ⟨sid, p, .writable⟩ = left := h'.object?_eq <| by
    rw [(Storage.retouched_of_store hslot).2, if_pos rfl]
  refine ⟨w', st', left, s', rfl, hslot, h', htodo, haside, hfound, hleft, fun hsilent => ?_⟩
  have hsame : w' = w := by simpa [hvisit] using hsilent ⟨sid, p, .writable⟩ w st
  rw [← hleft, ← hfound, hsame]

/-- **The loop goes through the entries that are left**, in order.  The induction is on its
turns. -/
theorem Sweeping.run (hv : v.Confined alive) : ∀ (turns : Nat) (w : World) (st : σ) (notes : Notes)
    (c : Call) (s : Storage) (rest : List Nat), w.Sweeping id sid outer c s rest →
    (todo c s rest).length + rest.length < turns → ∃ asked visits s',
      Weeding alive v.Silent w id sid outer (todo c s rest) s notes
        (World.run v.noting turns w (st, notes)) asked visits s' := by
  intro turns
  induction turns with
  | zero => intro w st notes c s rest h hturns; omega
  | succ turns ih =>
      intro w st notes c s rest h hturns
      obtain ⟨w₁, progress, hadvance, hturn⟩ := h.advance
      cases hturn with
      | finished hcalls hsound hstorage hpass htodo haside =>
          simp only [World.run, hadvance, htodo]
          exact ⟨[], [], s, rfl, by simp, .done s, by simp, hsound, hcalls, hstorage, hpass, haside⟩
      | @claimed c₁ n rest₁ hrest h₁ htodo haside =>
          have hless : (todo c₁ s rest₁).length + rest₁.length < turns := by
            rw [htodo]
            rw [hrest, List.length_cons, ← hrest] at hturns
            omega
          obtain ⟨asked, visits, s', hw⟩ := ih w₁ st notes c₁ s rest₁ h₁ hless
          simp only [World.run, hadvance]
          rw [htodo] at hw
          exact ⟨asked, visits, s', hw.after haside⟩
      | @offered c₁ p found hload h₁ hstage htodo haside =>
          rw [htodo, List.length_cons] at hturns
          rw [htodo]
          rcases found with _ | object
          · -- an entry that holds null is passed over
            obtain ⟨asked, visits, s', hw⟩ := ih w₁ st notes c₁ s rest h₁ (by omega)
            simp only [World.run, hadvance, Progress.offer]
            exact ⟨asked, visits, s', (hw.after haside).null hload⟩
          obtain ⟨hworld, hverdict⟩ := hv.judge object w₁ st
          rcases hjudge : v.judge object w₁ st with ⟨w₂, st₂, verdict⟩
          rw [hjudge] at hworld hverdict
          obtain rfl : w₂ = w₁ := hworld
          obtain rfl : verdict = .ok (alive object) := hverdict
          simp only [World.run, hadvance, Progress.offer, Visitor.judge_noting hjudge]
          rcases halive : alive object with _ | _
          · -- a dead object has its entry cleared
            obtain ⟨w₃, c₃, s₃, hclear, hstore, h₃, htodo₃, haside₃⟩ := h₁.clear hstage
            obtain ⟨asked, visits, s', hw⟩ := ih w₃ st₂ ⟨notes.asked ++ [object], notes.visits⟩
              c₃ s₃ rest h₃ (by
                rw [htodo₃]
                omega)
            rw [htodo₃] at hw
            simp only [hclear]
            exact ⟨_, visits, s', (hw.after (haside.trans haside₃)).dead hload halive hstore⟩
          · -- a live one has its entry handed to the visitor
            obtain ⟨w₃, c₃, huphold, h₃, htodo₃, haside₃⟩ := h₁.uphold hstage
            obtain ⟨w₄, st₄, left, s₄, hvisit, hstore, h₄, htodo₄, haside₄, hfound, hleft,
                hsilent⟩ :=
              h₃.visit hv hload st₂
            obtain ⟨asked, visits, s', hw⟩ := ih w₄ st₄ ⟨notes.asked ++ [object],
                notes.visits ++ [⟨⟨sid, p, .writable⟩, some object, left⟩]⟩ c₃ s₄ rest h₄ (by
              rw [htodo₄, htodo₃]
              omega)
            rw [htodo₄, htodo₃] at hw
            simp only [huphold, Visitor.visit_noting hvisit, hfound, hleft]
            exact ⟨_, _, s', (hw.after (haside.trans (haside₃.trans haside₄))).kept hload
              halive hstore hsilent⟩

/-! ## Whole iterations -/

variable {q : Pass}

/-- A pass that has not started has all entries before it. -/
theorem Sound.sweeping (hw : w.Sound) (hq : w.passes.get? id = some q)
    (hs : w.storages.get? q.storage = some s) (hfresh : q.cursor = .notStarted)
    (hoffers : q.offers .alive = true) : ∃ w', w.enter id .alive = .ok w' ∧
      w'.Sweeping id q.storage w.calls { pass := id, method := .alive } s s.linked ∧
      Aside id q.storage w w' := by
  obtain ⟨w', henter, ht⟩ : ∃ w', w.enter id .alive = .ok w' ∧
    Transition w (.enter id .alive) w' .done := hw.enter_ok hq
  have hsound := ht.sound hw
  refine ⟨w', henter, ?_⟩
  cases ht with
  | @pinned _ _ q₁ s₁ hq₁ hs₁ hcursor =>
      obtain rfl := Option.some.inj (hq.symm.trans hq₁)
      obtain rfl := Option.some.inj (hs.symm.trans hs₁)
      have hget := Registry.get?_set_of_some hq { q with cursor := .upcoming s.head }
      have hhead := (hw.storages _ s hs).2.lists.head_eq
      exact ⟨⟨hsound, rfl, rfl, rfl, hs,
        ⟨_, (hget id).trans (if_pos rfl), rfl, hoffers, by rw [hhead]⟩,
        List.suffix_rfl⟩, fun _ _ => rfl, fun i hi => (hget i).trans (if_neg hi), rfl⟩
  | @resumed _ _ q₁ s₁ hq₁ hs₁ hcursor =>
      obtain rfl := Option.some.inj (hq.symm.trans hq₁)
      exact absurd hfresh hcursor

/-- **An iteration of a pass that has not started goes through all entries.** -/
theorem Sound.weeding (hw : w.Sound) (hq : w.passes.get? id = some q)
    (hs : w.storages.get? q.storage = some s) (hfresh : q.cursor = .notStarted)
    (hoffers : q.offers .alive = true) (hv : v.Confined alive) (st : σ) : ∃ w' st' notes s',
      w.iterate id .alive v.noting (st, {}) = (w', (st', notes), .returned) ∧
      Weeding alive v.Silent w id q.storage w.calls s.places s {} (w', (st', notes), .returned)
        notes.asked notes.visits s' := by
  obtain ⟨w₁, henter, hsweeping, haside⟩ := hw.sweeping hq hs hfresh hoffers
  have hplaces := s.length_places_le
  have hlinked := (hw.storages _ s hs).2.lists.length_le
  have hbound : w.stepBound id = (blockSize + 1) * s.blocks.size + 1 := by
    simp only [stepBound, hq, Option.bind_some, hs]
  have hturns : s.places.length + s.linked.length < w.stepBound id := by
    rw [hbound]
    simp only [blockSize] at hplaces ⊢
    omega
  obtain ⟨asked, visits, s', h⟩ := hsweeping.run hv (w.stepBound id) w₁ st {} _ s s.linked hturns
  have hrun : w.iterate id .alive v.noting (st, {}) =
      World.run v.noting (w.stepBound id) w₁ (st, {}) := by
    simp only [iterate, henter]
  rw [← hrun] at h
  have hreturned := h.returned
  have hnotes := h.notes
  rcases houtcome : w.iterate id .alive v.noting (st, {}) with ⟨w', ⟨st', notes⟩, ending⟩
  rw [houtcome] at h hreturned hnotes
  obtain rfl : ending = .returned := hreturned
  obtain rfl : notes = ⟨asked, visits⟩ := by simpa using hnotes
  exact ⟨w', st', _, s', rfl, h.after haside⟩

end World

/-- **What an iteration of weak entries does** to a storage `s` that it leaves as `s'`. -/
structure Storage.Weeded (s s' : Storage) (sid : Nat) (alive : Reference → Bool) (notes : Notes) :
    Prop where
  /-- Every entry in use that does not hold null is asked about once, in order, by its object. -/
  asked : notes.asked = s.weakEntries.map (·.2)
  /-- Of these entries the visitor is called with those whose objects are alive, in the same order,
  and sees these objects. -/
  visited : notes.visits.map (fun v => (v.entry, v.found)) =
    (s.weakEntries.filter fun e => alive e.2).map fun e => (⟨sid, e.1, .writable⟩, some e.2)
  /-- An entry whose object is dead is cleared. -/
  dead : ∀ p object, s.InUse p → s.load p = .ok (some object) → alive object = false →
    s'.load p = .ok none
  /-- An entry that was visited holds what the visitor has left in it. -/
  kept : ∀ v ∈ notes.visits, s'.load v.entry.place = .ok v.left
  /-- An entry that held null still does. -/
  null : ∀ p, s.InUse p → s.load p = .ok none → s'.load p = .ok none
  /-- A slot that is not in use is as it was. -/
  unused : ∀ p, ¬ s.InUse p → s'.load p = s.load p
  /-- Nothing but the contents of slots is different: the entries in use, the list, the queue, the
  counts and the counters are the same. -/
  retouched : s.Retouched s'

/-- The storage once a safepoint pass over it has begun. -/
def Storage.begun (s : Storage) : Storage :=
  { s with counters := { s.counters with passesStarted := s.counters.passesStarted + 1 } }

theorem Storage.weakEntries_begun (s : Storage) : s.begun.weakEntries = s.weakEntries := by
  have hlinked : s.begun.linked = s.linked := linked_congr rfl rfl
  rw [weakEntries, weakEntries, places, places, hlinked]
  rfl

namespace World

variable {v : Visitor σ} {alive : Reference → Bool} {w w' : World} {id sid : Nat} {q : Pass}
  {s s' : Storage} {outer : List Call} {silent : Prop} {notes : Notes} {asked : List Reference}
  {visits : List Visit} {outcome : World × (σ × Notes) × Ending}

theorem Weeding.weeded (hs : s.Sound)
    (h : Weeding alive silent w id sid outer s.places s {} outcome asked visits s') :
    s.Weeded s' sid alive ⟨asked, visits⟩ where
  asked := h.culled.asked_eq hs.nodup_places
  visited := h.culled.visits_eq hs.nodup_places
  dead := fun p object huse hload hdead =>
    h.culled.load_of_dead hs.nodup_places (hs.mem_weakEntries.2 ⟨huse, hload⟩) hdead
  kept := fun v hv => h.culled.load_of_visit hs.nodup_places hv
  null := fun p huse hload => by
    rw [h.culled.load_of_other hs.nodup_places fun object hmem => ?_, hload]
    have hobject := (hs.mem_weakEntries.1 hmem).2
    simp [hload] at hobject
  unused := fun p huse => h.culled.load_of_other hs.nodup_places fun object hmem =>
    huse (hs.mem_weakEntries.1 hmem).1
  retouched := h.culled.retouched

/-- A pass is ended, and a new one is begun over the same storage. -/
def renewal (id sid : Nat) : List Event := [.endPass id, .beginPass sid false .writable]

/-- The end of a safepoint pass leaves the storages as they are. -/
theorem perform_endPass (hq : w.passes.get? id = some q) (hs : w.storages.get? q.storage = some s)
    (hsafe : q.concurrent = false) : ∃ w', w.perform (.endPass id) = (w', .done) ∧
      w'.storages = w.storages ∧ w'.passes = w.passes.erase id := by
  refine ⟨{ w with passes := w.passes.erase id }.record [.passEnded id q.claimed, .closed id], ?_,
    rfl, rfl⟩
  simp [perform, act, Except.map, World.endPass, pass_of_some hq, storageOf_of_some hs, hsafe, bind,
    Except.bind, pure, Except.pure, World.setStorage, Registry.set_eq_self hs]

/-- The beginning of one counts it. -/
theorem perform_beginPass (hs : w.storages.get? sid = some s) (access : Access) :
    ∃ w', w.perform (.beginPass sid false access) = (w', .began (w.passes.size + 1)) ∧
      w'.storages = w.storages.set sid s.begun ∧
      w'.passes = w.passes.add { storage := sid, concurrent := false, access } := by
  refine ⟨{ w.setStorage sid s.begun with
    passes := w.passes.add { storage := sid, concurrent := false, access } }.record
      [.passBegan (w.passes.size + 1) s.name false], ?_, rfl, rfl⟩
  simp [perform, act, Except.map, World.beginPass, storage_of_some hs, bind, Except.bind, pure,
    Except.pure, World.setStorage, Storage.begun]

/-- **A safepoint pass can be repeated.** -/
theorem Sound.renewed (hw : w.Sound) (hq : w.passes.get? id = some q)
    (hs : w.storages.get? q.storage = some s) (hsafe : q.concurrent = false)
    (hidle : w.isRunning id = false) : w.PermitsAll (renewal id q.storage) ∧
      (w.afterAll (renewal id q.storage)).passes.get? (w.passes.size + 1) =
        some { storage := q.storage, concurrent := false, access := .writable } ∧
      (w.afterAll (renewal id q.storage)).storages.get? q.storage = some s.begun := by
  obtain ⟨w₁, hend, hstorages₁, hpasses₁⟩ := perform_endPass hq hs hsafe
  have hs₁ : w₁.storages.get? q.storage = some s := by rw [hstorages₁, hs]
  obtain ⟨w₂, hbegin, hstorages₂, hpasses₂⟩ := perform_beginPass hs₁ .writable
  -- no other pass walks the storage
  have hfree : w₁.hasPass q.storage = false := by
    refine hasPass_eq_false_iff.2 fun i r hr heq => ?_
    rw [hpasses₁, Registry.get?_erase] at hr
    split at hr
    · cases hr
    · exact absurd (hw.alone i id r q hr hq heq) ‹_›
  refine ⟨⟨by simp [Permits, mayEnd, hidle], by simp [Permits, mayBegin, hend, hfree], trivial⟩, ?_⟩
  simp only [renewal, afterAll, hend, hbegin]
  rw [hstorages₂, hpasses₂, hpasses₁, ← Registry.size_erase w.passes id]
  exact ⟨(Registry.get?_add _ _ _).trans (if_pos rfl),
    (Registry.get?_set_of_some hs₁ _ _).trans (if_pos rfl)⟩

/-- **What is left to do** for an iteration of weak entries after one whose visitor wrote
nothing. -/
structure Settled (w : World) (id sid : Nat) (alive : Reference → Bool) (s : Storage) : Prop where
  /-- No entry holds an object that is dead. -/
  survivors : ∀ p object, s.InUse p → s.load p = .ok (some object) → alive object = true
  /-- The pass may be ended and another one begun. -/
  permitted : w.PermitsAll (renewal id sid)
  /-- Of the storage nothing but the count of passes is different then. -/
  renewed : (w.afterAll (renewal id sid)).storages.get? sid = some s.begun
  /-- An iteration of the new pass by the same predicate asks about what is left, all of which is
  alive, and changes nothing. -/
  repeated : ∀ {τ : Type} (v : Visitor τ), v.Confined alive → v.Silent → ∀ st : τ, ∃ w' st' notes,
    (w.afterAll (renewal id sid)).iterate (w.passes.size + 1) .alive v.noting (st, {}) =
      (w', (st', notes), .returned) ∧
    notes.asked = s.weakEntries.map (·.2) ∧ (∀ object ∈ notes.asked, alive object = true) ∧
    w'.handles = (w.afterAll (renewal id sid)).handles ∧
    ∀ i, w'.storages.get? i = (w.afterAll (renewal id sid)).storages.get? i

/-- **Where the visitor wrote nothing, nothing is left to do.** -/
theorem Weeding.settled (hs : s.Sound) (hidle : ∀ c ∈ outer, c.pass ≠ id)
    (h : Weeding alive silent w id sid outer s.places s {} outcome asked visits s')
    (hsilent : silent) : s'.weakEntries = (s.weakEntries.filter fun e => alive e.2) ∧
      outcome.1.Settled id sid alive s' := by
  have hkept : s'.weakEntries = (s.weakEntries.filter fun e => alive e.2) := by
    rw [Storage.weakEntries, h.culled.retouched.places_eq]
    exact h.culled.weakIn_eq hs.nodup_places (h.silent hsilent)
  have hs' := (h.sound.storages sid s' h.storage).2
  have hall : ∀ e ∈ s'.weakEntries, alive e.2 = true := fun e he => by
    rw [hkept] at he
    exact (List.mem_filter.1 he).2
  obtain ⟨q, hq, rfl, hoffers⟩ := h.pass
  obtain ⟨hpermits, hpass, hstorage⟩ :=
    h.sound.renewed hq h.storage (Pass.offers_alive_iff.1 hoffers).1
    (isRunning_eq_false_iff.2 fun c hc => hidle c (h.calls ▸ hc))
  refine ⟨hkept, fun p object huse hload => hall _ (hs'.mem_weakEntries.2 ⟨huse, hload⟩), hpermits,
    hstorage, fun v hv hquiet st => ?_⟩
  have hsound := (run_trail _ _ hpermits).sound h.sound
  obtain ⟨w₂, st₂, notes, s₂, hrun, h₂⟩ := hsound.weeding hpass hstorage rfl rfl hv st
  have hasked : notes.asked = s'.weakEntries.map (·.2) := by
    rw [h₂.culled.asked_eq (hsound.storages _ _ hstorage).2.nodup_places, ← s'.weakEntries_begun]
    rfl
  have halive : ∀ object ∈ notes.asked, alive object = true := by
    rw [hasked]
    exact List.forall_mem_map.2 hall
  obtain rfl := h₂.culled.eq_self (h₂.silent hquiet) halive
  refine ⟨w₂, st₂, notes, hrun, hasked, halive, h₂.aside.handles, fun i => ?_⟩
  by_cases hi : i = q.storage
  · rw [hi, hstorage]
    exact h₂.storage
  · exact h₂.aside.storages i hi

/-- **An iteration of weak entries does exactly what it should**: whatever world it begins in, its
pass being a safepoint pass over writable entries that has not started, and whatever visitor it
calls, as long as that writes nothing but the entry in its hand.  It is the same whether it is noted
down or not. -/
theorem weak_entries (hw : w.Reachable) (hq : w.passes.get? id = some q)
    (hfresh : q.cursor = .notStarted)
    (hoffers : q.offers .alive = true) (hv : v.Confined alive) (st : σ) :
    ∃ s w' st' notes s', w.storages.get? q.storage = some s ∧
      w.iterate id .alive v st = (w', st', .returned) ∧
      w.iterate id .alive v.noting (st, {}) = (w', (st', notes), .returned) ∧
      w'.storages.get? q.storage = some s' ∧ s.Weeded s' q.storage alive notes ∧
      Aside id q.storage w w' ∧ w'.calls = w.calls ∧
      (v.Silent → s'.weakEntries = (s.weakEntries.filter fun e => alive e.2) ∧
        w'.Settled id q.storage alive s') := by
  have hsound := hw.sound
  obtain ⟨s, hs, -⟩ := hsound.passes id q hq
  have hstorage := (hsound.storages _ s hs).2
  -- an iteration under way belongs to a pass that has started
  have hidle : ∀ c ∈ w.calls, c.pass ≠ id := by
    rintro c hc rfl
    obtain ⟨q', t, hq', -, hfollows⟩ := hsound.calls c hc
    obtain rfl := Option.some.inj (hq.symm.trans hq')
    exact hfollows.started hfresh
  obtain ⟨w', st', notes, s', hrun, h⟩ := hsound.weeding hq hs hfresh hoffers hv st
  have hplain := iterate_noting (v := v) w id .alive st {}
  rw [hrun] at hplain
  exact ⟨s, w', st', notes, s', hs, hplain.symm, hrun, h.storage, h.weeded hstorage,
    h.aside, h.calls, h.settled hstorage hidle⟩

/-- Three of the 65 entries of two blocks hold objects.  The first is moved when it is visited, the
second is left, and the last is dead. -/
theorem weak_entries_of_moved_object :
    let r₁ : Reference := ⟨1, by decide⟩
    let r₂ : Reference := ⟨2, by decide⟩
    let r₃ : Reference := ⟨3, by decide⟩
    let w := ({} : World).afterAll (.create {} :: List.replicate 65 (.allocate 1) ++
      [.set 1 65 (some r₁), .set 1 1 (some r₂), .set 1 2 (some r₃), .beginPass 1 false .writable])
    let alive : Reference → Bool := fun object => object != r₃
    let v : Visitor Nat := .writing alive fun found visits =>
      (if visits = 0 then some ⟨9, by decide⟩ else found, visits + 1)
    w.Reachable ∧ w.passes.get? 1 =
      some { storage := 1, concurrent := false, access := .writable } ∧
      v.Confined alive ∧ ∃ w' st notes s', w.iterate 1 .alive v 0 = (w', st, .returned) ∧
        w.iterate 1 .alive v.noting (0, {}) = (w', (st, notes), .returned) ∧
        notes.asked = [r₁, r₂, r₃] ∧ notes.visits.map (·.found) = [some r₁, some r₂] ∧
        w'.storages.get? 1 = some s' ∧ s'.load ⟨1, 1⟩ = .ok none := by
  intro r₁ r₂ r₃ w alive v
  have hw : w.Reachable := ⟨_, run_trail _ _ (by decide +kernel)⟩
  have hq : w.passes.get? 1 = some { storage := 1, concurrent := false, access := .writable } := by
    decide +kernel
  have hv : v.Confined alive := Visitor.confined_writing alive _
  have hweak : (w.storages.get? 1).map Storage.weakEntries =
      some [(⟨2, 0⟩, r₁), (⟨1, 0⟩, r₂), (⟨1, 1⟩, r₃)] := by decide +kernel
  obtain ⟨s, w', st, notes, s', hs, hrun, hnoted, hs', hweeded, -⟩ :=
    weak_entries hw hq rfl rfl hv 0
  have hweak : s.weakEntries = [(⟨2, 0⟩, r₁), (⟨1, 0⟩, r₂), (⟨1, 1⟩, r₃)] := by
    simpa only [hs, Option.map_some, Option.some.injEq] using hweak
  have hsound := (hw.sound.storages 1 s hs).2
  obtain ⟨huse, hload⟩ := hsound.mem_weakEntries.1 (hweak ▸ by simp : (⟨1, 1⟩, r₃) ∈ s.weakEntries)
  refine ⟨hw, hq, hv, w', st, notes, s', hrun, hnoted, ?_, ?_, hs',
    hweeded.dead _ _ huse hload (by decide)⟩
  · rw [hweeded.asked, hweak]
    rfl
  · have hfound := congrArg (List.map Prod.snd) hweeded.visited
    rw [hweak, List.map_map] at hfound
    exact hfound

end World

end RootStore
