import RootStore.Proofs.World.Record

/-!
# The counters of a storage and its trace

A storage counts its blocks, deletions and passes in one place and the trace tells of them in
another, and operations are refused, give way or find nothing to do in between.  Still the two
agree: whoever reads the trace alone can tell what the storage counts, at every moment of a run.

* `Counters.replay` — what the rows that name a storage amount to.
* `World.Transition.counters_eq` — **an event counts what it records.**
* `World.Run.counters_eq` — the counters are what the trace amounts to.
* `World.Reconciled`, `World.reconciled` — **what is said of the two, and that it holds of every
  run.**
-/

namespace RootStore

/-! ## Reading the trace -/

namespace Row

/-- The storage that a row names, if it names one. -/
def storage? : Row → Option String
  | .passBegan _ name _ | .blockLinked name _ | .blocksDeleted name _ | .deletionInhibited name =>
      some name
  | .entered _ | .left _ | .closed _ | .iterationStarted _ _ | .passEnded _ _ => none

/-- How many blocks the storage has after the block that a row says was linked. -/
def linked? (name : String) : Row → Option Nat
  | .blockLinked n count => if n = name then some count else none
  | _ => none

/-- How many blocks of the storage a row says were deleted. -/
def deleted? (name : String) : Row → Option Nat
  | .blocksDeleted n count => if n = name then some count else none
  | _ => none

/-- Does the row say that a deletion in the storage gave way? -/
def inhibits (name : String) : Row → Bool
  | .deletionInhibited n => n = name
  | _ => false

/-- Does the row say that a pass over the storage began? -/
def begins (name : String) : Row → Bool
  | .passBegan _ n _ => n = name
  | _ => false

/-- A row that does not name the storage says none of this. -/
theorem unsaid {name : String} {row : Row} (h : row.storage? ≠ some name) :
    row.linked? name = none ∧
    row.deleted? name = none ∧ row.inhibits name = false ∧ row.begins name = false := by
  cases row with
  | entered | left | closed | iterationStarted | passEnded => exact ⟨rfl, rfl, rfl, rfl⟩
  | blockLinked n count => exact ⟨if_neg fun heq => h (congrArg some heq), rfl, rfl, rfl⟩
  | blocksDeleted n count => exact ⟨rfl, if_neg fun heq => h (congrArg some heq), rfl, rfl⟩
  | deletionInhibited n => exact ⟨rfl, rfl, decide_eq_false fun heq => h (congrArg some heq), rfl⟩
  | passBegan p n concurrent =>
      exact ⟨rfl, rfl, rfl, decide_eq_false fun heq => h (congrArg some heq)⟩

end Row

namespace Counters

/-- **What the rows that name a storage amount to.** -/
def replay (name : String) (rows : List Row) : Counters where
  blocksAllocated := (rows.filterMap (·.linked? name)).length
  blocksDeleted := (rows.filterMap (·.deleted? name)).sum
  deletionsInhibited := rows.countP (·.inhibits name)
  passesStarted := rows.countP (·.begins name)

/-- Counts put together. -/
def add (c d : Counters) : Counters where
  blocksAllocated := c.blocksAllocated + d.blocksAllocated
  blocksDeleted := c.blocksDeleted + d.blocksDeleted
  deletionsInhibited := c.deletionsInhibited + d.deletionsInhibited
  passesStarted := c.passesStarted + d.passesStarted

variable {name : String} {rows rows' : List Row}

@[simp] theorem add_zero (c : Counters) : c.add {} = c := rfl

theorem replay_append :
    replay name (rows ++ rows') = (replay name rows).add (replay name rows') := by
  simp [replay, add]

/-- Rows that do not name the storage amount to nothing. -/
theorem replay_eq_zero (h : ∀ row ∈ rows, row.storage? ≠ some name) : replay name rows = {} := by
  have hlinked : rows.filterMap (·.linked? name) = [] :=
    List.filterMap_eq_nil_iff.2 fun row hrow => (Row.unsaid (h row hrow)).1
  have hdeleted : rows.filterMap (·.deleted? name) = [] :=
    List.filterMap_eq_nil_iff.2 fun row hrow => (Row.unsaid (h row hrow)).2.1
  have hinhibits : rows.countP (·.inhibits name) = 0 :=
    List.countP_eq_zero.2 fun row hrow => by simp [(Row.unsaid (h row hrow)).2.2.1]
  have hbegins : rows.countP (·.begins name) = 0 :=
    List.countP_eq_zero.2 fun row hrow => by simp [(Row.unsaid (h row hrow)).2.2.2]
  rw [replay, hlinked, hdeleted, hinhibits, hbegins]
  rfl

end Counters

/-- The event is asked of the storage, and if something is recorded then under the storage's
name. -/
def Event.isNamed (id : Nat) : Event → Bool
  | .allocate i | .delete i _ | .beginPass i _ _ => i = id
  | _ => false

namespace World

variable {w w' : World} {e : Event} {r : Reply} {id : Nat} {s s' : Storage} {steps : List Step}
  {name : String} {row : Row}

/-- Rows that name a storage are recorded by an event that is asked of it. -/
theorem storage_of_row (hrow : row ∈ e.rows w w' r) (hname : row.storage? = some name) :
    ∃ i t, e.isNamed i = true ∧ w.storages.get? i = some t ∧ t.name = name := by
  cases Event.mem_rows hrow with
  | @linked id handle s s' hs =>
      exact ⟨id, s, by simp [Event.isNamed], hs, by simpa [Row.storage?] using hname⟩
  | @inhibited id count yielding s hs | @deleted id count yielding s hs =>
      exact ⟨id, s, by simp [Event.isNamed], hs, by simpa [Row.storage?] using hname⟩
  | @began id p concurrent access s hs =>
      exact ⟨id, s, by simp [Event.isNamed], hs, by simpa [Row.storage?] using hname⟩
  | started hpinning =>
      obtain ⟨head, rfl⟩ := mem_pinning hpinning
      cases hname
  | entered | returned | panicked | ended | closed => cases hname

/-- A block is recorded by the allocation that has linked it, with the count that it left. -/
theorem rows_of_linked {count : Nat} (hrow : Row.blockLinked name count ∈ e.rows w w' r) :
    ∃ i s s', e = .allocate i ∧ w.storages.get? i = some s ∧ s.name = name ∧
      w'.storages.get? i = some s' ∧ s'.blockCount = count ∧
        e.rows w w' r = [.blockLinked name count] := by
  generalize hlinked : Row.blockLinked name count = row at hrow
  cases Event.mem_rows hrow with
  | @linked id handle s s' hs hs' hless =>
      obtain ⟨rfl, rfl⟩ := Row.blockLinked.inj hlinked
      exact ⟨id, s, s', rfl, hs, rfl, hs', rfl, by simp [Event.rows, hs, hs', hless]⟩
  | started hpinning =>
      obtain ⟨head, rfl⟩ := mem_pinning hpinning
      cases hlinked
  | inhibited | deleted | began | entered | returned | panicked | ended | closed => cases hlinked

/-- Deleted blocks are recorded by a deletion. -/
theorem delete_of_row (hrow : row ∈ e.rows w w' r) (hdeleted : row.deleted? name ≠ none) :
    ∃ i yielding, e = .delete i yielding := by
  cases Event.mem_rows hrow with
  | inhibited | deleted => exact ⟨_, _, rfl⟩
  | started hpinning =>
      obtain ⟨head, rfl⟩ := mem_pinning hpinning
      exact absurd rfl hdeleted
  | linked | began | entered | returned | panicked | ended | closed => exact absurd rfl hdeleted

/-- An event that is not asked of a storage records nothing under its name, if no other has it. -/
theorem replay_of_not_named (hnamed : e.isNamed id = false)
    (honly : ∀ i t, w.storages.get? i = some t → t.name = name → i = id) :
    Counters.replay name (e.rows w w' r) = {} := by
  refine Counters.replay_eq_zero fun row hrow hname => ?_
  obtain ⟨i, t, hi, ht, htname⟩ := storage_of_row hrow hname
  rw [honly i t ht htname, hnamed] at hi
  cases hi

/-- **An event counts what it records.** -/
theorem Transition.counters_eq (ht : Transition w e w' r) (hw : w.Sound) (h : s.Balanced)
    (hs : w.storages.get? id = some s) (hs' : w'.storages.get? id = some s')
    (honly : ∀ i t, w.storages.get? i = some t → t.name = s.name → i = id) :
    s'.counters = s.counters.add (.replay s.name (e.rows w w' r)) := by
  have hsound := (hw.storages id s hs).2
  have hstay : e.isNamed id = false → s'.counters = s.counters →
      s'.counters = s.counters.add (.replay s.name (e.rows w w' r)) := fun hnamed heq => by
    rw [replay_of_not_named hnamed honly, heq, Counters.add_zero]
  have hsame : e.isNamed id = false → w.storages.get? id = some s' →
      s'.counters = s.counters.add (.replay s.name (e.rows w w' r)) := fun hnamed hs₁ =>
    hstay hnamed (congrArg _ (Option.some.inj (hs₁.symm.trans hs)))
  have hsilent : e.rows w w' r = [] → w.storages.get? id = some s' →
      s'.counters = s.counters.add (.replay s.name (e.rows w w' r)) := fun hrows hs₁ => by
    rw [hrows, Option.some.inj (hs₁.symm.trans hs)]
    rfl
  cases ht with
  | failed => exact hsilent (by cases e <;> rfl) hs'
  | refused => exact hsilent rfl hs'
  | got | loaded | lost | forgotten | pinned | resumed | offered | claimed | finished | upheld
  | panicked => exact hsame rfl hs'
  | created settings =>
      rcases Registry.get?_add_inv hs' with ⟨rfl, -⟩ | hs₁
      · have := (Registry.bounds_of_get?_eq_some hs).2
        omega
      · exact hsame rfl hs₁
  | dropped hs₀ => exact hsame rfl (Registry.get?_erase_inv hs').2
  | @granted i s₀ s₁ p linked hs₀ halloc hgranted =>
      rcases Registry.get?_set_inv hs₀ hs' with ⟨rfl, rfl⟩ | ⟨hne, hs₁⟩
      · obtain rfl := Option.some.inj (hs.symm.trans hs₀)
        obtain ⟨-, -, hcounters⟩ := h.allocate hsound halloc
        have hcount : s'.blockCount = s.blockCount + linked.toNat :=
          hsound.allocate_blockCount halloc
        have hset : (w.storages.set id s').get? id = some s' := hs'
        dsimp only at hcounters
        rw [hcounters]
        cases linked <;> simp [Event.rows, World.record, World.setStorage, hs, hset, hcount,
          Counters.replay, Counters.add, Row.linked?, Row.deleted?, Row.inhibits, Row.begins]
      · exact hsame (by simp [Event.isNamed, hne.symm]) hs₁
  | released hh hs₀ hrelease =>
      rcases Registry.get?_set_inv hs₀ hs' with ⟨rfl, rfl⟩ | ⟨hne, hs₁⟩
      · obtain rfl := Option.some.inj (hs.symm.trans hs₀)
        exact hstay rfl (h.release hsound (hw.inUse _ _ s hh (by simp) hs) hrelease).2.2
      · exact hsame rfl hs₁
  | @deleted i yielding s₀ d gone hs₀ hdelete hwithout hgone hcount hfree =>
      rcases Registry.get?_set_inv hs₀ hs' with ⟨rfl, rfl⟩ | ⟨hne, hs₁⟩
      · obtain rfl := Option.some.inj (hs.symm.trans hs₀)
        obtain ⟨-, -, hcounters⟩ := h.deleteEmpty hsound hdelete
        have hgives : w.givesWay id (.delete id yielding) =
            (yielding && s.iterating && s.linked.any s.isEmptyAt) := by
          simp [givesWay, hs, Bool.and_assoc]
        rw [hcounters, ← hgives]
        rcases hyields : w.givesWay id (.delete id yielding) <;> rcases hd : d.deleted <;>
          simp [Event.rows, hs, hyields, Counters.replay, Counters.add, Row.linked?, Row.deleted?,
            Row.inhibits, Row.begins]
      · exact hsame (by simp [Event.isNamed, hne.symm]) hs₁
  | @began i concurrent access s₀ hs₀ hfree hflag =>
      rcases Registry.get?_set_inv hs₀ hs' with ⟨rfl, rfl⟩ | ⟨hne, hs₁⟩
      · obtain rfl := Option.some.inj (hs.symm.trans hs₀)
        simp [Event.rows, hs, Counters.replay, Counters.add, Row.linked?, Row.deleted?,
          Row.inhibits, Row.begins]
      · exact hsame (by simp [Event.isNamed, hne.symm]) hs₁
  | ended hq hs₀ hidle =>
      rcases Registry.get?_set_inv hs₀ hs' with ⟨rfl, rfl⟩ | ⟨hne, hs₁⟩
      · obtain rfl := Option.some.inj (hs.symm.trans hs₀)
        exact hstay rfl rfl
      · exact hsame rfl hs₁
  | written hh hs₀ hstore | cleared hcalls hstage hs₀ hstore | stored hs₀ hstore
  | exchanged hs₀ hload hstore =>
      rcases Registry.get?_set_inv hs₀ hs' with ⟨rfl, rfl⟩ | ⟨hne, hs₁⟩
      · obtain rfl := Option.some.inj (hs.symm.trans hs₀)
        exact hstay rfl (h.store hsound hstore).2.2
      · exact hsame rfl hs₁

/-- The rows of a deletion that has deleted something say how many blocks there were. -/
theorem Transition.deleted_rows (ht : Transition w e w' r)
    (hname : ∀ s, w.storages.get? id = some s → s.name = name)
    (honly : ∀ i t, w.storages.get? i = some t → t.name = name → i = id) :
    (e.rows w w' r).filterMap (·.deleted? name) = [e.deletes id r].filter (0 < ·) := by
  cases ht with
  | @deleted i yielding s d gone hs =>
      rcases eq_or_ne i id with rfl | hne
      · rcases hd : d.deleted <;>
          simp [Event.rows, hs, Event.deletes, Row.deleted?, hname s hs]
      · have hother : s.name ≠ name := fun h => hne (honly i s hs h)
        rcases hd : d.deleted <;>
          simp [Event.rows, hs, Event.deletes, Row.deleted?, hother, hne]
  | failed => cases e <;> rfl
  | created | dropped | refused | granted | released | lost | got | written | began | ended
  | forgotten | pinned | resumed | offered | claimed | finished | upheld | cleared
  | panicked | loaded | stored | exchanged =>
      refine List.filterMap_eq_nil_iff.2 fun row hrow => ?_
      by_contra hdeleted
      obtain ⟨i, yielding, hevent⟩ := delete_of_row hrow hdeleted
      cases hevent

/-! ## Along a run -/

/-- At no moment is the name that of another storage. -/
def OnlyNamed (steps : List Step) (id : Nat) (name : String) : Prop :=
  ∀ st ∈ steps, ∀ i t, st.before.storages.get? i = some t → t.name = name → i = id

theorem OnlyNamed.mono {steps' : List Step} (h : OnlyNamed steps id name)
    (hsub : ∀ st ∈ steps', st ∈ steps) : OnlyNamed steps' id name :=
  fun st hst => h st (hsub st hst)

instance (steps : List Step) (id : Nat) (name : String) : Decidable (OnlyNamed steps id name) :=
  decidable_of_iff (∀ st ∈ steps, ∀ i < st.before.storages.size + 1, i ≠ id →
      ((st.before.storages.get? i).all fun t => t.name ≠ name) = true) <| by
    refine forall₂_congr fun st hst => forall_congr' fun i => ?_
    rcases ht : st.before.storages.get? i with _ | t
    · simp
    · have := (Registry.bounds_of_get?_eq_some ht).2
      simp only [Option.all_some, decide_eq_true_eq, Option.some.injEq, forall_eq']
      grind

/-- A storage keeps its name and its limit. -/
theorem Run.settings_eq (h : Run w steps w') (hw : w.Sound) (hs : w.storages.get? id = some s)
    (hs' : w'.storages.get? id = some s') : s'.settings = s.settings := by
  induction h generalizing s' with
  | nil => rw [Option.some.inj (hs'.symm.trans hs)]
  | @snoc w₁ steps e hrun hp ih =>
      have hw₁ := hrun.sound hw
      have ht := hw₁.transition hp
      rcases ht.storages.back id s' hs' with ⟨s₁, hs₁, -⟩ | ⟨hid, -⟩
      · exact ((ht.operated hs₁ hs').settings_eq (hw₁.storages id s₁ hs₁).2).trans (ih hs₁)
      · have hsize := hrun.storages_size_le hw
        have hbound := (Registry.bounds_of_get?_eq_some hs).2
        omega

/-- Before a storage is made nothing is recorded under its name. -/
theorem Run.replay_of_new (h : Run {} steps w) (hid : w.storages.size < id)
    (honly : OnlyNamed steps id name) : Counters.replay name w.log.toList = {} := by
  refine Counters.replay_eq_zero fun row hrow hname => ?_
  rw [h.log_eq .init] at hrow
  obtain ⟨st, hst, hrow⟩ := List.mem_flatMap.1 (by simpa using hrow)
  obtain ⟨i, t, -, ht, htname⟩ := storage_of_row hrow hname
  obtain rfl := honly st hst i t ht htname
  obtain ⟨before, after, rfl⟩ := List.append_of_mem hst
  obtain ⟨hbefore, hp, hafter⟩ := h.split
  have hw := hbefore.sound .init
  have ht' := hw.transition hp
  have hle := Nat.le_trans ht'.storages.size_le (hafter.storages_size_le (ht'.sound hw))
  have hbound := (Registry.bounds_of_get?_eq_some ht).2
  omega

/-- **The counters are what the trace amounts to.** -/
theorem Run.counters_eq (h : Run {} steps w) (hs : w.storages.get? id = some s)
    (honly : OnlyNamed steps id s.name) : s.counters = .replay s.name w.log.toList := by
  generalize hinit : ({} : World) = w₀ at h
  induction h generalizing s with
  | nil =>
      subst hinit
      simp at hs
  | @snoc w₁ steps e hrun hp ih =>
      subst hinit
      have hw := hrun.sound .init
      have ht := hw.transition hp
      have honly' : OnlyNamed steps id s.name := honly.mono fun _ => List.mem_append_left _
      rw [hw.log_eq hp, Counters.replay_append]
      rcases ht.storages.back id s hs with ⟨s₁, hs₁, -⟩ | ⟨hid, settings, rfl⟩
      · have hname : s₁.name = s.name :=
          congrArg Settings.name ((ht.operated hs₁ hs).settings_eq (hw.storages id s₁ hs₁).2).symm
        rw [← hname] at honly honly' ⊢
        rw [← ih hs₁ honly']
        exact ht.counters_eq hw (hrun.account hs₁).balanced hs₁ hs (honly ⟨w₁, e⟩ (by simp))
      · rw [hrun.replay_of_new (by omega) honly', Counters.replay_eq_zero]
        · rfl
        · intro row hrow hname
          obtain ⟨i, t, -, ht', htname⟩ := storage_of_row hrow hname
          have hi := honly ⟨w₁, e⟩ (by simp) i t ht' htname
          have hbound : i ≤ w₁.storages.size := (Registry.bounds_of_get?_eq_some ht').2
          omega

/-- The deletions that the trace tells of are those that have deleted something, in order. -/
theorem Run.deleted_rows (h : Run {} steps w) (hs : w.storages.get? id = some s)
    (honly : OnlyNamed steps id s.name) : w.log.toList.filterMap (·.deleted? s.name) =
      (steps.map fun st => st.event.deletes id st.reply).filter (0 < ·) := by
  have hstep : ∀ st ∈ steps, st.rows.filterMap (·.deleted? s.name) =
      [st.event.deletes id st.reply].filter (0 < ·) := by
    intro st hst
    obtain ⟨before, after, rfl⟩ := List.append_of_mem hst
    obtain ⟨hbefore, hp, hafter⟩ := h.split
    have hw := hbefore.sound .init
    refine (hw.transition hp).deleted_rows (fun s₁ hs₁ => ?_) (honly st hst)
    have hrun : Run st.before (st :: after) w := (Run.snoc st.event (.nil _) hp).append hafter
    exact (congrArg Settings.name (hrun.settings_eq hw hs₁ hs)).symm
  have hlog : w.log.toList = steps.flatMap Step.rows := by simpa using h.log_eq .init
  rw [hlog, List.filterMap_flatMap, List.map_eq_flatMap, List.filter_flatMap]
  exact List.flatMap_congr hstep

/-- Where the trace tells of a block that was linked, an allocation has linked it, and the count is
the one it left. -/
theorem Run.linked_row (h : Run {} steps w) (honly : OnlyNamed steps id name) {l₁ l₂ : List Row}
    {count : Nat} (hlog : w.log.toList = l₁ ++ .blockLinked name count :: l₂) :
    ∃ st ∈ steps, ∃ s', st.event = .allocate id ∧ st.before.log.toList = l₁ ∧
      st.after.log.toList = l₁ ++ [.blockLinked name count] ∧
        st.after.storages.get? id = some s' ∧ s'.blockCount = count := by
  obtain ⟨before, st, after, r₁, r₂, rfl, hrows, rfl⟩ := h.row_origin hlog
  obtain ⟨hbefore, hp, -⟩ := h.split
  have hmem : Row.blockLinked name count ∈ st.event.rows st.before st.after st.reply := by
    change _ ∈ st.rows
    simp [hrows]
  obtain ⟨i, t, t', hevent, ht, hname, ht', hcount, hone⟩ := rows_of_linked hmem
  obtain rfl := honly st (by simp) i t ht hname
  change st.rows = _ at hone
  rw [hone] at hrows
  obtain rfl : r₁ = [] := by
    rcases r₁ with _ | ⟨row, r₁⟩
    · rfl
    · simp at hrows
  refine ⟨st, by simp, t', hevent, by simp, ?_, ht', hcount⟩
  have hlog' : st.after.log.toList = st.before.log.toList ++ st.rows :=
    (hbefore.sound .init).log_eq hp
  rw [hlog', hone, List.append_nil]

/-- **The trace and the counts of a storage**: the counters are what the trace amounts to, and so is
the count of blocks. -/
structure Counted (name : String) (log : List Row) (s : Storage) : Prop where
  counters : s.counters = .replay name log
  blocks : s.blockCount + (Counters.replay name log).blocksDeleted =
    (Counters.replay name log).blocksAllocated

theorem Run.counted (h : Run {} steps w) (hs : w.storages.get? id = some s)
    (honly : OnlyNamed steps id s.name) : Counted s.name w.log.toList s := by
  have hcounters := h.counters_eq hs honly
  refine ⟨hcounters, ?_⟩
  rw [← hcounters]
  exact (h.account hs).blocks

/-- **What is said of a storage and the trace** in the course of a run. -/
structure Reconciled (steps : List Step) (id : Nat) (s : Storage) (w : World) : Prop where
  /-- The trace alone tells what the storage counts. -/
  counted : Counted s.name w.log.toList s
  /-- So did what there was of it after each step. -/
  earlier : ∀ st ∈ steps, ∀ s₁, st.after.storages.get? id = some s₁ →
    st.after.log.toList <+: w.log.toList ∧ Counted s.name st.after.log.toList s₁
  /-- The count that is recorded with a block is the one just after it was linked. -/
  linked : ∀ l₁ count l₂, w.log.toList = l₁ ++ .blockLinked s.name count :: l₂ →
    ∃ st ∈ steps, ∃ s₁, st.event = .allocate id ∧ st.before.log.toList = l₁ ∧
      st.after.log.toList = l₁ ++ [.blockLinked s.name count] ∧
        st.after.storages.get? id = some s₁ ∧ s₁.blockCount = count
  /-- A deletion is recorded exactly if it has deleted something, with the number of blocks. -/
  deleted : w.log.toList.filterMap (·.deleted? s.name) =
    (steps.map fun st => st.event.deletes id st.reply).filter (0 < ·)

/-- **The trace reconciles with the state** in every run. -/
theorem reconciled (h : Run {} steps w) (hs : w.storages.get? id = some s)
    (honly : OnlyNamed steps id s.name) : Reconciled steps id s w where
  counted := h.counted hs honly
  earlier := by
    intro st hst s₁ hs₁
    obtain ⟨before, after, rfl⟩ := List.append_of_mem hst
    obtain ⟨hbefore, hp, hafter⟩ := h.split
    have hrun := Run.snoc st.event hbefore hp
    have hw : st.after.Sound := hrun.sound .init
    have hname : s.name = s₁.name := congrArg Settings.name (hafter.settings_eq hw hs₁ hs)
    refine ⟨⟨_, (hafter.log_eq hw).symm⟩, ?_⟩
    rw [hname] at honly ⊢
    refine hrun.counted hs₁ (honly.mono fun st' hst' => ?_)
    rw [List.append_cons]
    exact List.mem_append_left _ hst'
  linked := fun l₁ count l₂ => h.linked_row honly
  deleted := h.deleted_rows hs honly

/-- A storage that may have one block has it deleted and linked again.  In between a deletion gives
way to a concurrent pass, beside which a second one is refused; another deletion finds nothing; a
visitor panics; and an allocation is refused.  There is another storage with another name. -/
theorem reconciled_of_refusals :
    let events : List Event := [.create { name := "strong", maxBlocks := some 1 },
      .create { name := "weak" }, .allocate 1, .release 1 1, .beginPass 1 true .readOnly,
      .beginPass 1 true .readOnly, .delete 1 true, .endPass 1, .delete 1 true, .delete 1 false,
      .allocate 1, .allocate 2, .beginPass 1 false .writable, .enter 2 .every, .advance, .advance,
      .panic]
    let w := ({} : World).afterAll events
    OnlyNamed (({} : World).trail events) 1 "strong" ∧
    ∃ s, w.storages.get? 1 = some s ∧ s.counters = ⟨2, 1, 1, 2⟩ ∧ s.blockCount = 1 ∧
      Reconciled (({} : World).trail events) 1 s w := by
  intro events w
  have honly : OnlyNamed (({} : World).trail events) 1 "strong" := by decide +kernel
  refine ⟨honly, ?_⟩
  obtain ⟨s, hs⟩ : ∃ s, w.storages.get? 1 = some s := Option.isSome_iff_exists.1 (by decide +kernel)
  have hname : ∀ t ∈ w.storages.get? 1, t.name = "strong" ∧ t.counters = ⟨2, 1, 1, 2⟩ ∧
      t.blockCount = 1 := by decide +kernel
  obtain ⟨hstrong, hcounters, hblocks⟩ := hname s hs
  refine ⟨s, hs, hcounters, hblocks, ?_⟩
  exact reconciled (run_trail _ _ (by decide +kernel)) hs (hstrong ▸ honly)

end World

end RootStore
