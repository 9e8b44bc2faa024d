import RootStore.Proofs.World.Capacity
import RootStore.Proofs.World.Outcome

/-!
# What a deletion leaves

One walk along the list takes out of it whatever is empty, and edits the queue and the counts block
by block.  What it comes to can be said without the walk: list and queue lose their empty blocks and
keep the rest in order, and nobody who holds a handle can tell that it took place.

* `Storage.vacant` — the linked blocks without an entry in use.
* `Storage.Cleared`, `Storage.Sound.cleared` — **exactly these go.**
* `Storage.Sound.deleteEmpty_of_vacant_nil` — where there are none, nothing changes.
* `World.Clearance`, `World.clearance` — **what is said of deletion, and that it holds of every
  world that can be reached.**
-/

namespace RootStore

namespace Storage

variable {s s' : Storage} {n : Nat} {p : Place}

/-- The linked blocks without an entry in use, newest first. -/
def vacant (s : Storage) : List Nat := s.linked.filter s.isEmptyAt

/-- A block is vacant where none of its entries is in use. -/
theorem Sound.mem_vacant (h : s.Sound) :
    n ∈ s.vacant ↔ n ∈ s.linked ∧ ∀ i, ¬ s.InUse ⟨n, i⟩ := by
  rw [vacant, List.mem_filter]
  refine and_congr_right fun hn => ?_
  obtain ⟨b, hb⟩ := h.lists.isSome hn
  simp [isEmptyAt, InUse, hb, Block.isEmpty_iff]

/-- The storage `s'` is `s` without its vacant blocks. -/
structure Cleared (s s' : Storage) : Prop where
  /-- The list keeps the other blocks, in order. -/
  linked_eq : s'.linked = s.linked.filter fun n => !s.isEmptyAt n
  /-- So does the queue. -/
  available_eq : s'.available = s.available.filter fun n => !s.isEmptyAt n
  /-- They have the entries that they had, and hold what they held. -/
  kept : ∀ n b, s.blocks.get? n = some b → b.isEmpty = false → ∃ b', s'.blocks.get? n = some b' ∧
    b'.mask = b.mask ∧ b'.slots = b.slots ∧ b'.owner = b.owner
  /-- The vacant ones are no longer in memory. -/
  freed : ∀ n ∈ s.vacant, s'.blocks.get? n = none
  /-- Their numbers are not given out again. -/
  size_eq : s'.blocks.size = s.blocks.size
  /-- As many are taken off the count of blocks. -/
  blockCount_eq : s'.blockCount + s.vacant.length = s.blockCount
  allocationCount_eq : s'.allocationCount = s.allocationCount
  /-- Identity, settings and flag stay. -/
  frame : s.SameFrame s'
  /-- Only the count of blocks deleted goes up. -/
  counters_eq : s'.counters =
    { s.counters with blocksDeleted := s.counters.blocksDeleted + s.vacant.length }

/-! ## A deletion that gives way to nothing -/

theorem iterating_of_updateBlock {change : Block → Block} (h : s.updateBlock n change = .ok s') :
    s'.iterating = s.iterating := by
  rcases hb : s.blocks.get? n with _ | b
  · simp [updateBlock, block, hb, bind, Except.bind] at h
  · obtain rfl := Except.ok.inj ((updateBlock_eq hb change).symm.trans h)
    rfl

/-- Taking a block out of the list leaves the flag as it is. -/
theorem iterating_of_unlink (h : s.unlink n = .ok s') : s'.iterating = s.iterating := by
  rcases hb : s.blocks.get? n with _ | b
  · simp [unlink, block, hb, bind, Except.bind] at h
  rw [unlink_eq_bypass hb] at h
  rcases hnewer : s.bypassNewer b with f | s₁
  · simp [hnewer, bind, Except.bind] at h
  have h₁ : s₁.iterating = s.iterating := by
    unfold bypassNewer at hnewer
    rcases hprev : b.prev with _ | newer
    · simp only [hprev] at hnewer
      obtain rfl := Except.ok.inj hnewer
      rfl
    · simp only [hprev] at hnewer
      exact iterating_of_updateBlock hnewer
  simp only [hnewer, bind, Except.bind] at h
  unfold bypassOlder at h
  rcases hnext : b.next with _ | older
  · simp only [hnext] at h
    obtain rfl := Except.ok.inj h
    exact h₁
  · simp only [hnext] at h
    exact (iterating_of_updateBlock h).trans h₁

/-- Looking at a block leaves the flag as it is. -/
theorem iterating_of_inspect {yielding : Bool} {i : Inspection} (h : s.inspect yielding n = .ok i) :
    i.storage.iterating = s.iterating := by
  rcases hb : s.blocks.get? n with _ | b
  · simp [inspect, block, hb, bind, Except.bind] at h
  rcases hempty : b.isEmpty with _ | _
  · obtain rfl := Except.ok.inj ((inspect_of_occupied hb hempty).symm.trans h)
    rfl
  rcases hflag : yielding && s.iterating with _ | _
  · rcases hunlink : s.unlink n with f | s'
    · simp [inspect, block, hb, hempty, hflag, hunlink, bind, Except.bind] at h
    · obtain rfl := Except.ok.inj ((inspect_of_unlinked hb hempty hflag hunlink).symm.trans h)
      exact iterating_of_unlink hunlink
  · obtain rfl := Except.ok.inj ((inspect_of_inhibited hb hempty hflag).symm.trans h)
    rfl

/-- Where nothing is given way to, it does not matter which deletion it is.  The induction is on the
turns of the walk; taking a block out leaves the flag as it is. -/
theorem deleteFrom_yielding_of_clear : ∀ (turns : Nat) (s : Storage) (c : Option Nat) (k : Nat),
    s.iterating = false → deleteFrom true turns s c k = deleteFrom false turns s c k := by
  intro turns
  induction turns with
  | zero => intro s c k _; cases c <;> rfl
  | succ turns ih =>
      intro s c k hclear
      cases c with
      | none => rfl
      | some n =>
          have hsame : s.inspect true n = s.inspect false n := by simp [inspect, hclear]
          simp only [deleteFrom, hsame, bind, Except.bind]
          rcases hinspect : s.inspect false n with f | i
          · rfl
          have hflag : i.storage.iterating = false := (iterating_of_inspect hinspect).trans hclear
          rcases hfinding : i.finding with _ | _ | _
          · simp only [hfinding]
            exact ih _ _ _ hflag
          · simp only [hfinding]
          · simp only [hfinding]
            rcases hreclaim : i.storage.reclaim n with f | t
            · rfl
            · obtain ⟨b, -, rfl⟩ := reclaim_inv hreclaim
              exact ih _ _ _ hflag

theorem deleteEmpty_yielding_of_clear (hclear : s.iterating = false) :
    s.deleteEmpty true = s.deleteEmpty false := by
  rw [deleteEmpty, deleteFrom_yielding_of_clear _ _ _ _ hclear, deleteEmpty]

/-- **A deletion that gives way to nothing takes out the vacant blocks** and no more. -/
theorem Sound.cleared {yielding : Bool} (h : s.Sound) (hbalanced : s.Balanced)
    (hflag : (yielding && s.iterating) = false) : ∃ s', s.Cleared s' ∧ s'.Sound ∧
      s.deleteEmpty yielding =
        .ok { storage := s', deleted := s.vacant.length, inhibited := false } := by
  obtain ⟨d, gone, hdelete, hwithout, hgone, hcount, hinhibited⟩ := h.deleteEmpty yielding
  obtain ⟨hbalanced', hentries, hcounters⟩ := hbalanced.deleteEmpty h hdelete
  rw [if_neg (by simp [hflag])] at hgone
  change gone = s.vacant at hgone
  subst hgone
  rw [hflag, Bool.false_and] at hinhibited hcounters
  have hnot : ∀ n ∈ s.linked, decide (n ∉ s.vacant) = !s.isEmptyAt n := fun n hn => by
    simp [vacant, hn]
  have hlinked : d.storage.linked = s.linked.filter fun n => !s.isEmptyAt n :=
    hwithout.linked_eq.trans (List.filter_congr hnot)
  refine ⟨d.storage, ⟨hlinked, ?_, ?_, ?_, hwithout.size_eq, ?_, hentries, hwithout.frame, ?_⟩,
    hwithout.sound, ?_⟩
  · rw [hwithout.available_eq]
    refine List.filter_congr fun n hn => hnot n ?_
    obtain ⟨b, hb, -⟩ := (h.mem_available n).1 hn
    exact h.mem_linked n b hb
  · intro n b hb hempty
    have hn : n ∉ s.vacant := by simp [vacant, isEmptyAt, hb, hempty]
    obtain ⟨b', hb', hslots, hmask⟩ := hwithout.kept n hn b hb
    refine ⟨b', hb', hmask, hslots, ?_⟩
    rw [hwithout.sound.owner n b' hb', h.owner n b hb, hwithout.frame.id_eq]
  · intro n hn
    rcases hb : d.storage.blocks.get? n with _ | b
    · rfl
    · exact absurd hn (hwithout.get?_of_get? h hb).1
  · rw [hbalanced'.blocks, hbalanced.blocks, hlinked, vacant, Nat.add_comm]
    exact (List.length_eq_length_filter_add s.isEmptyAt).symm
  · simpa [hcount] using hcounters
  · rw [hdelete, ← hcount, ← hinhibited]

/-! ## Where nothing is vacant -/

/-- A walk that meets no empty block changes nothing. -/
theorem Sound.deleteFrom_of_occupied (h : s.Sound) (yielding : Bool) : ∀ (rest : List Nat)
    (turns k : Nat), rest <:+ s.linked → rest.length ≤ turns →
      (∀ n ∈ rest, s.isEmptyAt n = false) → Storage.deleteFrom yielding turns s rest.head? k =
        .ok { storage := s, deleted := k, inhibited := false } := by
  intro rest
  induction rest with
  | nil => intro turns k _ _ _; cases turns <;> rfl
  | cons n rest ih =>
      intro turns k hsuf hturns hoccupied
      obtain ⟨turns, rfl⟩ : ∃ j, turns = j + 1 :=
        ⟨turns - 1, by simp only [List.length_cons] at hturns; omega⟩
      simp only [List.length_cons, Nat.add_le_add_iff_right] at hturns
      obtain ⟨l₁, hl⟩ := hsuf
      obtain ⟨b, hb, hnext, -⟩ := h.lists.links l₁ n rest hl.symm
      have hempty : b.isEmpty = false := by
        simpa [isEmptyAt, hb] using hoccupied n List.mem_cons_self
      rw [List.head?_cons, Storage.deleteFrom, inspect_of_occupied hb hempty, hnext]
      exact ih turns k ⟨l₁ ++ [n], by rw [← hl]; simp⟩ hturns
        fun m hm => hoccupied m (List.mem_cons_of_mem _ hm)

/-- **Where nothing is vacant a deletion changes nothing**, whether it would give way or not. -/
theorem Sound.deleteEmpty_of_vacant_nil (h : s.Sound) (yielding : Bool) (hnone : s.vacant = []) :
    s.deleteEmpty yielding = .ok { storage := s, deleted := 0, inhibited := false } := by
  have hoccupied : ∀ n ∈ s.linked, s.isEmptyAt n = false := by
    simpa [vacant, List.filter_eq_nil_iff] using hnone
  have hwalk := h.deleteFrom_of_occupied yielding s.linked s.blocks.size 0
    (List.suffix_refl _) h.lists.length_le hoccupied
  rw [← h.lists.head_eq] at hwalk
  simp only [Storage.deleteEmpty, hwalk, bind, Except.bind]
  rfl

/-- Nothing is vacant once the vacant blocks have gone. -/
theorem Cleared.vacant_eq (h : s.Cleared s') (hs : s.Sound) : s'.vacant = [] := by
  rw [vacant, List.filter_eq_nil_iff]
  intro n hn
  rw [h.linked_eq, List.mem_filter, Bool.not_eq_true'] at hn
  obtain ⟨b, hb⟩ := hs.lists.isSome hn.1
  obtain ⟨b', hb', hmask, -⟩ := h.kept n b hb (by simpa [isEmptyAt, hb] using hn.2)
  have hsame : b'.isEmpty = b.isEmpty := by simp [Block.isEmpty, hmask]
  simpa [isEmptyAt, hb, hb', hsame] using hn.2

/-- An entry in use holds what it held. -/
theorem Cleared.load_eq (h : s.Cleared s') (hp : s.InUse p) : s'.load p = s.load p := by
  obtain ⟨b, hb, hi⟩ := hp
  have hempty : b.isEmpty = false := by
    rw [Bool.eq_false_iff, ne_eq, Block.isEmpty_iff]
    exact fun hnone => by simp [hnone p.slot] at hi
  obtain ⟨b', hb', -, hslots, -⟩ := h.kept p.block b hb hempty
  rw [load_eq_ok_iff.2 ⟨b', hb', rfl⟩, load_eq_ok_iff.2 ⟨b, hb, rfl⟩, Block.load,
    Block.load, hslots]

/-! ## A deletion that gives way -/

/-- The storage with a deletion counted that gave way, if it met a vacant block. -/
def gaveWay (s : Storage) : Storage := { s with counters := { s.counters with
  deletionsInhibited := s.counters.deletionsInhibited + (!s.vacant.isEmpty).toNat } }

/-- **A deletion that gives way** does so exactly where there is a vacant block, and only counts
it. -/
theorem Sound.deleteEmpty_of_flagged (h : s.Sound) (hset : s.iterating = true) :
    s.deleteEmpty true =
      .ok { storage := s.gaveWay, deleted := 0, inhibited := !s.vacant.isEmpty } := by
  have hwalk := h.deleteFrom_inhibited hset s.linked s.blocks.size 0 (List.suffix_refl _)
    h.lists.length_le
  rw [← h.lists.head_eq] at hwalk
  have hany : s.linked.any s.isEmptyAt = !s.vacant.isEmpty := by
    rw [Bool.eq_iff_iff]
    simp [vacant, List.filter_eq_nil_iff]
  simp only [Storage.deleteEmpty, hwalk, hany, bind, Except.bind, pure, Except.pure, gaveWay,
    Nat.add_zero]

end Storage

namespace World

variable {w : World} {id : Nat} {s s' : Storage} {steps : List Step}

/-! ## In the world -/

/-- What handles read does not change with a storage whose entries in use hold what they held. -/
theorem Entitled.get_eq {rows : List Row} (h : w.Entitled) (hs : w.storages.get? id = some s)
    (hframe : s.SameFrame s') (hload : ∀ p, s.InUse p → s'.load p = s.load p) (j number : Nat)
    (hid : s.id = id) : ((w.setStorage id s').record rows).get j number = w.get j number := by
  have hhandle : ((w.setStorage id s').record rows).handle number = w.handle number := rfl
  unfold get owned
  rw [hhandle]
  rcases handle_cases w number with ⟨k, hk⟩ | hnone
  swap
  · simp only [hnone, bind, Except.bind]
  by_cases hj : j = id
  · subst hj
    have hs' : ((w.setStorage j s').record rows).storages.get? j = some s' := by
      exact (Registry.get?_set_of_some hs _ _).trans (if_pos rfl)
    have hname : s'.name = s.name := by rw [Storage.name, Storage.name, hframe.settings_eq]
    simp only [handle_of_held hk, storage_of_some hs, storage_of_some hs', hframe.id_eq, hname, hid,
      bind, Except.bind]
    by_cases howner : k.owner = j
    · subst howner
      simp only [ne_eq, not_true_eq_false, if_false, pure, Except.pure]
      rw [hload _ (h.inUse number { handle := k } s hk (by simp) hs)]
    · simp [howner, throw, throwThe, MonadExceptOf.throw]
  · have hs' : ((w.setStorage id s').record rows).storage j = w.storage j := by
      simp only [storage]
      rw [show ((w.setStorage id s').record rows).storages.get? j = w.storages.get? j from
        (Registry.get?_set_of_some hs _ _).trans (if_neg hj)]
    rw [hs']

/-- **What a deletion comes to**, whichever it is and whatever state its storage is in. -/
structure Clearance (w : World) (id : Nat) (s : Storage) : Prop where
  /-- A linked block is vacant where none of its entries is in use. -/
  vacant_iff : ∀ n, n ∈ s.vacant ↔ n ∈ s.linked ∧ ∀ i, ¬ s.InUse ⟨n, i⟩
  /-- A deletion that has nothing to give way to removes the vacant blocks and answers how many
  there were.  Nothing else in the world changes, but for a row in the trace. -/
  cleared : ∀ yielding, (yielding && s.iterating) = false → ∃ s', s.Cleared s' ∧
    w.perform (.delete id yielding) =
      ((w.setStorage id s').record
        (if s.vacant = [] then [] else [.blocksDeleted s.name s.vacant.length]),
        .deleted s.vacant.length)
  /-- Then it does not matter which deletion it is. -/
  alike : s.iterating = false → w.perform (.delete id true) = w.perform (.delete id false)
  /-- Another deletion right after it finds nothing and changes nothing. -/
  again : ∀ yielding yielding', (yielding && s.iterating) = false →
    ((w.perform (.delete id yielding)).1.perform (.delete id yielding')) =
      ((w.perform (.delete id yielding)).1, .deleted 0)
  /-- A deletion that gives way to a pass removes nothing; that it gave way is counted, and noted in
  the trace, exactly where there is a vacant block. -/
  gives_way : s.iterating = true → w.perform (.delete id true) =
    ((w.setStorage id s.gaveWay).record
      (if s.vacant = [] then [] else [.deletionInhibited s.name]), .deleted 0)
  /-- After either of them every handle reads on every storage what it read before. -/
  reads : ∀ yielding j number,
    (w.perform (.delete id yielding)).1.get j number = w.get j number

/-- **Deletion removes exactly the empty blocks**, in every world that can be reached. -/
theorem clearance (h : w.Reachable) (hs : w.storages.get? id = some s) : Clearance w id s := by
  have hw := h.sound
  obtain ⟨steps, hrun⟩ := h
  have hbalanced := (hrun.account hs).balanced
  obtain ⟨hid, hsound⟩ := hw.storages id s hs
  have hflagged : s.iterating = true → w.perform (.delete id true) =
      ((w.setStorage id s.gaveWay).record
        (if s.vacant = [] then [] else [.deletionInhibited s.name]), .deleted 0) := fun hset => by
    rw [perform_delete hs (hsound.deleteEmpty_of_flagged hset)]
    cases hvacant : s.vacant <;> simp [deletionRows]
  refine ⟨fun n => hsound.mem_vacant, ?_, ?_, ?_, hflagged, ?_⟩
  · intro yielding hflag
    obtain ⟨s', hcleared, -, hdelete⟩ := hsound.cleared hbalanced hflag
    refine ⟨s', hcleared, ?_⟩
    rw [perform_delete hs hdelete]
    cases hvacant : s.vacant <;> simp [deletionRows]
  · intro hclear
    simp only [perform, act, deleteEmpty, storage_of_some hs,
      Storage.deleteEmpty_yielding_of_clear hclear, bind, Except.bind]
  · intro yielding yielding' hflag
    obtain ⟨s', hcleared, hsound', hdelete⟩ := hsound.cleared hbalanced hflag
    have hs' : (w.perform (.delete id yielding)).1.storages.get? id = some s' := by
      rw [perform_delete hs hdelete]
      exact (Registry.get?_set_of_some hs _ _).trans (if_pos rfl)
    rw [perform_delete hs'
      (hsound'.deleteEmpty_of_vacant_nil yielding' (hcleared.vacant_eq hsound))]
    simp [deletionRows, setStorage, record, Registry.set_eq_self hs']
  · intro yielding j number
    rcases hflag : yielding && s.iterating with _ | _
    · obtain ⟨s', hcleared, -, hdelete⟩ := hsound.cleared hbalanced hflag
      rw [perform_delete hs hdelete]
      exact hw.get_eq hs hcleared.frame (fun p hp => hcleared.load_eq hp) j number hid
    · obtain ⟨rfl, hset⟩ := Bool.and_eq_true_iff.1 hflag
      rw [hflagged hset]
      have hframe : s.SameFrame s.gaveWay := ⟨rfl, rfl, rfl⟩
      exact hw.get_eq hs hframe (fun p _ => Storage.load_congr rfl) j number hid

/-- The newer of two blocks is empty, and a forgotten pass has left the flag set: one deletion gives
way and only counts that, the other removes the block. -/
theorem clearance_of_forgotten_pass :
    let events := Event.create {} :: List.replicate 65 (Event.allocate 1) ++
      [Event.release 1 65, Event.beginPass 1 true .readOnly, Event.forgetPass 1]
    let w := ({} : World).afterAll events
    ∃ s, w.storages.get? 1 = some s ∧ s.iterating = true ∧ s.linked = [2, 1] ∧ s.vacant = [2] ∧
      (w.perform (.delete 1 true)).2 = .deleted 0 ∧ (w.perform (.delete 1 false)).2 = .deleted 1 ∧
      Clearance w 1 s := by
  intro events w
  have hviews : ({} : World).PermitsAll events ∧
      (w.storages.get? 1).map (fun s => (s.iterating, s.linked, s.vacant)) =
        some (true, [2, 1], [2]) ∧
      (w.perform (.delete 1 true)).2 = .deleted 0 ∧
      (w.perform (.delete 1 false)).2 = .deleted 1 := by decide +kernel
  obtain ⟨hpermits, hviews, hyielding, hpurging⟩ := hviews
  have hreach : w.Reachable := ⟨_, run_trail events {} hpermits⟩
  obtain ⟨s, hs, hviews⟩ := Option.map_eq_some_iff.1 hviews
  simp only [Prod.mk.injEq] at hviews
  obtain ⟨hset, hlinked, hvacant⟩ := hviews
  refine ⟨s, hs, hset, hlinked, hvacant, hyielding, hpurging, ?_⟩
  exact clearance hreach hs

end World

end RootStore
