import RootStore.Proofs.Storage.Balance
import RootStore.Proofs.World.Operation

/-!
# The counts of a storage along a run

A storage keeps two gauges, of its entries in use and of its blocks, and four counters, of what has
happened to it.  They are set at other places than what they count, and operations are refused,
panic or are cut short; still each count is what the history of the run says.

* `Event.allocates`, `Event.releases`, `Event.deletes`, `Event.begins`, `World.givesWay` — what the
  history says of one event.
* `Storage.Booked`, `World.Transition.booked` — **one event changes every count by what it says.**
* `Account`, `World.Run.account` — the counts of a storage after a run.
* `Accounts`, `World.accounts` — **what is said of the counts, and that it holds of every run.**
-/

namespace RootStore

/-! ## What is counted -/

namespace Event

/-- An entry of the storage was allocated. -/
def allocates (id : Nat) : Event → Reply → Bool
  | .allocate i, .allocated (some _) => i = id
  | _, _ => false

/-- An entry of the storage was released. -/
def releases (id : Nat) : Event → Reply → Bool
  | .release i _, .done => i = id
  | _, _ => false

/-- How many blocks of the storage a deletion says that it has deleted. -/
def deletes (id : Nat) : Event → Reply → Nat
  | .delete i _, .deleted count => if i = id then count else 0
  | _, _ => 0

/-- A pass over the storage has begun. -/
def begins (id : Nat) : Event → Reply → Bool
  | .beginPass i _ _, .began _ => i = id
  | _, _ => false

end Event

/-- A deletion that gives way is asked for while the storage is iterated concurrently and one of its
linked blocks is empty. -/
def World.givesWay (id : Nat) (w : World) (e : Event) : Bool :=
  e = .delete id true && (w.storages.get? id).any fun s => s.iterating && s.linked.any s.isEmptyAt

/-- Nothing that is counted happens to the storage. -/
structure Event.Idle (id : Nat) (w : World) (e : Event) (r : Reply) : Prop where
  allocates : e.allocates id r = false
  releases : e.releases id r = false
  deletes : e.deletes id r = 0
  begins : e.begins id r = false
  givesWay : w.givesWay id e = false

/-- **What one event does to the counts of a storage.** -/
structure Storage.Booked (id : Nat) (w : World) (e : Event) (r : Reply)
    (s s' : Storage) : Prop where
  balanced : s'.Balanced
  entries : s'.allocationCount + (e.releases id r).toNat =
    s.allocationCount + (e.allocates id r).toNat
  linked : s.counters.blocksAllocated ≤ s'.counters.blocksAllocated
  deleted : s'.counters.blocksDeleted = s.counters.blocksDeleted + e.deletes id r
  inhibited : s'.counters.deletionsInhibited =
    s.counters.deletionsInhibited + (w.givesWay id e).toNat
  started : s'.counters.passesStarted = s.counters.passesStarted + (e.begins id r).toNat

/-- Where nothing is counted and the counts are the same, the books are right. -/
theorem Event.Idle.booked {id : Nat} {w : World} {e : Event} {r : Reply} {s s' : Storage}
    (h : e.Idle id w r) (hbalanced : s'.Balanced)
    (hentries : s'.allocationCount = s.allocationCount) (hcounters : s'.counters = s.counters) :
    s.Booked id w e r s' where
  balanced := hbalanced
  entries := by rw [h.releases, h.allocates, hentries]
  linked := by rw [hcounters]
  deleted := by rw [h.deletes, hcounters, Nat.add_zero]
  inhibited := by rw [h.givesWay, hcounters]; rfl
  started := by rw [h.begins, hcounters]; rfl

namespace World

variable {w w' : World} {e : Event} {r : Reply} {id : Nat} {s s' : Storage} {steps : List Step}

/-! ## One event -/

section Idle

attribute [local simp] Event.allocates Event.releases Event.deletes Event.begins givesWay

/-- Nothing is counted of a storage that is not there. -/
theorem Transition.idle_of_none (ht : Transition w e w' r) (hs : w.storages.get? id = none) :
    e.Idle id w r := by
  have hne : ∀ {i t}, w.storages.get? i = some t → i ≠ id := by
    rintro i t ht rfl
    simp [hs] at ht
  cases ht with
  | failed hact hwhy => cases e <;> constructor <;> simp [hs]
  | granted hs₀ | deleted hs₀ | began hs₀ => constructor <;> simp [hs, hne hs₀]
  | released hh hs₀ => constructor <;> simp [hs, hne hs₀]
  | created | dropped | refused | lost | got | written | ended | forgotten | pinned | resumed
  | offered | claimed | finished | upheld | cleared | panicked | loaded | stored | exchanged =>
      constructor <;> simp [hs]

/-- **Every event keeps the books of a storage.** -/
theorem Transition.booked (ht : Transition w e w' r) (hw : w.Sound)
    (hs : w.storages.get? id = some s) (hs' : w'.storages.get? id = some s') (h : s.Balanced) :
    s.Booked id w e r s' := by
  have hsound := (hw.storages id s hs).2
  have hself : ∀ {t}, (w.storages.set id t).get? id = some s' → s' = t := fun ht => by
    rw [Registry.get?_set_of_some hs, if_pos rfl] at ht
    exact (Option.some.inj ht).symm
  have hother : ∀ {i t t'}, w.storages.get? i = some t → id ≠ i →
      (w.storages.set i t').get? id = some s' → s' = s := fun hi hne ht => by
    rw [Registry.get?_set_of_some hi, if_neg hne] at ht
    exact Option.some.inj (ht.symm.trans hs)
  have hstay : e.Idle id w r → s' = s → s.Booked id w e r s' := fun hidle heq => by
    subst heq
    exact hidle.booked h rfl rfl
  have hwrite : ∀ {i t t' p v}, e.Idle id w r → w.storages.get? i = some t → t.store p v = .ok t' →
      (w.storages.set i t').get? id = some s' → s.Booked id w e r s' := by
    intro i t t' p v hidle hi hstore ht
    rcases eq_or_ne id i with rfl | hne
    · obtain rfl := Option.some.inj (hs.symm.trans hi)
      obtain rfl := hself ht
      obtain ⟨hbalanced, hentries, hcounters⟩ := h.store hsound hstore
      exact hidle.booked hbalanced hentries hcounters
    · exact hstay hidle (hother hi hne ht)
  cases ht with
  | failed hact hwhy =>
      refine hstay ?_ (Option.some.inj (hs'.symm.trans hs))
      have hne : e ≠ .delete id true := by
        rintro rfl
        obtain ⟨d, -, hdelete, -⟩ := hsound.deleteEmpty true
        simp [act, Except.map, World.deleteEmpty, storage_of_some hs, hdelete, Failure.ofFault,
          bind, Except.bind, pure, Except.pure] at hact
      cases e <;> constructor <;> simp [hne]
  | refused | got | loaded | lost | forgotten | pinned | resumed | offered | claimed | finished
  | upheld | panicked =>
      exact hstay (by constructor <;> simp) (Option.some.inj (hs'.symm.trans hs))
  | created settings =>
      refine hstay (by constructor <;> simp) (Option.some.inj (hs'.symm.trans ?_))
      have := (Registry.bounds_of_get?_eq_some hs).2
      rw [World.create, Registry.get?_add, if_neg (by omega), hs]
  | dropped hs₀ =>
      refine hstay (by constructor <;> simp) ?_
      exact Option.some.inj ((Registry.get?_erase_inv hs').2.symm.trans hs)
  | @granted i s₀ s₁ p linked hs₀ halloc hgranted =>
      rcases eq_or_ne id i with rfl | hne
      · obtain rfl := Option.some.inj (hs.symm.trans hs₀)
        obtain rfl := hself hs'
        obtain ⟨hbalanced, hentries, hcounters⟩ := h.allocate hsound halloc
        dsimp only at hbalanced hentries hcounters
        refine ⟨hbalanced, ?_, ?_, ?_, ?_, ?_⟩ <;> simp [hentries, hcounters]
      · exact hstay (by constructor <;> simp [hne.symm]) (hother hs₀ hne hs')
  | @released number k s₀ s₁ hh hs₀ hrelease hwritten huse =>
      rcases eq_or_ne id k.owner with rfl | hne
      · obtain rfl := Option.some.inj (hs.symm.trans hs₀)
        obtain rfl := hself hs'
        obtain ⟨hbalanced, hentries, hcounters⟩ :=
          h.release hsound (hw.inUse number _ s hh (by simp) hs) hrelease
        refine ⟨hbalanced, ?_, ?_, ?_, ?_, ?_⟩ <;> simp [hentries, hcounters]
      · exact hstay (by constructor <;> simp [hne.symm]) (hother hs₀ hne hs')
  | @deleted i yielding s₀ d gone hs₀ hdelete hwithout hgone hcount hfree =>
      rcases eq_or_ne id i with rfl | hne
      · obtain rfl := Option.some.inj (hs.symm.trans hs₀)
        obtain rfl := hself hs'
        obtain ⟨hbalanced, hentries, hcounters⟩ := h.deleteEmpty hsound hdelete
        refine ⟨hbalanced, ?_, ?_, ?_, ?_, ?_⟩ <;>
          simp [hs, hentries, hcounters, Bool.and_assoc]
      · exact hstay (by constructor <;> simp [hne.symm]) (hother hs₀ hne hs')
  | @began i concurrent access s₀ hs₀ hfree hflag =>
      rcases eq_or_ne id i with rfl | hne
      · obtain rfl := Option.some.inj (hs.symm.trans hs₀)
        obtain rfl := hself hs'
        refine ⟨h.congr rfl rfl rfl rfl rfl rfl, ?_, ?_, ?_, ?_, ?_⟩ <;> simp
      · exact hstay (by constructor <;> simp [hne.symm]) (hother hs₀ hne hs')
  | @ended i q s₀ hq hs₀ hidle =>
      have hidle : (Event.endPass i).Idle id w .done := by constructor <;> simp
      rcases eq_or_ne id q.storage with rfl | hne
      · obtain rfl := Option.some.inj (hs.symm.trans hs₀)
        obtain rfl := hself hs'
        exact hidle.booked (h.congr rfl rfl rfl rfl rfl rfl) rfl rfl
      · exact hstay hidle (hother hs₀ hne hs')
  | written hh hs₀ hstore | cleared hcalls hstage hs₀ hstore | stored hs₀ hstore
  | exchanged hs₀ hload hstore => exact hwrite (by constructor <;> simp) hs₀ hstore hs'

end Idle

end World

/-! ## A storage and its history -/

/-- **The counts of a storage** and the history of the run. -/
structure Account (steps : List Step) (id : Nat) (s : Storage) : Prop where
  /-- The entries counted are those whose bits are set in the masks of the linked blocks. -/
  entries : s.allocationCount = (s.linked.map s.entriesAt).sum
  /-- They are those that were allocated and have not been released. -/
  allocated : s.allocationCount + steps.countP (fun st => st.event.releases id st.reply) =
    steps.countP (fun st => st.event.allocates id st.reply)
  /-- The blocks counted are those of the list. -/
  linked : s.blockCount = s.linked.length
  /-- They are those that were linked and have not been deleted. -/
  blocks : s.blockCount + s.counters.blocksDeleted = s.counters.blocksAllocated
  /-- A pass is counted where it has begun. -/
  started : s.counters.passesStarted = steps.countP fun st => st.event.begins id st.reply
  /-- The blocks deleted are those that deletions have answered. -/
  deleted : s.counters.blocksDeleted = (steps.map fun st => st.event.deletes id st.reply).sum
  /-- A deletion is counted where a concurrent pass keeps it from deleting a block. -/
  inhibited : s.counters.deletionsInhibited =
    steps.countP fun st => st.before.givesWay id st.event

namespace Account

variable {id : Nat} {s s' : Storage} {steps : List Step}

theorem balanced (h : Account steps id s) : s.Balanced := ⟨h.entries, h.linked, h.blocks⟩

/-- A storage that was just made. -/
theorem make {settings : Settings} (h : ∀ st ∈ steps, st.event.Idle id st.before st.reply) :
    Account steps id (Storage.make id settings) where
  entries := rfl
  allocated := by
    rw [List.countP_eq_zero.2 fun st hst => by simp [(h st hst).releases],
      List.countP_eq_zero.2 fun st hst => by simp [(h st hst).allocates]]
    rfl
  linked := rfl
  blocks := rfl
  started := (List.countP_eq_zero.2 fun st hst => by simp [(h st hst).begins]).symm
  deleted := by
    refine (List.sum_eq_zero fun n hn => ?_).symm
    obtain ⟨st, hst, rfl⟩ := List.mem_map.1 hn
    exact (h st hst).deletes
  inhibited := (List.countP_eq_zero.2 fun st hst => by simp [(h st hst).givesWay]).symm

theorem countP_snoc (p : Step → Bool) (steps : List Step) (st : Step) :
    (steps ++ [st]).countP p = steps.countP p + (p st).toNat := by
  rw [List.countP_append, List.countP_singleton, Bool.toNat, Bool.cond_eq_ite]

/-- **One step more** is one line more in the books. -/
theorem snoc {st : Step} (h : Account steps id s)
    (hbooked : s.Booked id st.before st.event st.reply s') : Account (steps ++ [st]) id s' where
  entries := hbooked.balanced.entries
  allocated := by
    have hbefore := h.allocated
    have hstep := hbooked.entries
    rw [countP_snoc, countP_snoc]
    omega
  linked := hbooked.balanced.blocks
  blocks := hbooked.balanced.ever
  started := by rw [hbooked.started, h.started, countP_snoc]
  deleted := by
    rw [hbooked.deleted, h.deleted, List.map_append, List.sum_append, List.map_singleton,
      List.sum_singleton]
  inhibited := by rw [hbooked.inhibited, h.inhibited, countP_snoc]

end Account

/-- None of the four counters is smaller. -/
structure Counters.AtMost (c d : Counters) : Prop where
  blocksAllocated : c.blocksAllocated ≤ d.blocksAllocated
  blocksDeleted : c.blocksDeleted ≤ d.blocksDeleted
  deletionsInhibited : c.deletionsInhibited ≤ d.deletionsInhibited
  passesStarted : c.passesStarted ≤ d.passesStarted

theorem Storage.Booked.growing {id : Nat} {w : World} {e : Event} {r : Reply} {s s' : Storage}
    (h : s.Booked id w e r s') : s.counters.AtMost s'.counters where
  blocksAllocated := h.linked
  blocksDeleted := h.deleted ▸ Nat.le_add_right _ _
  deletionsInhibited := h.inhibited ▸ Nat.le_add_right _ _
  passesStarted := h.started ▸ Nat.le_add_right _ _

/-- **What is said of the counts** in the course of a run. -/
structure Accounts (steps : List Step) (w : World) : Prop where
  /-- Every storage counts what there is and what has happened. -/
  account : ∀ id s, w.storages.get? id = some s → Account steps id s
  /-- A release finds an entry to take off the count of entries. -/
  release_pos : ∀ st ∈ steps, ∀ id number s, st.event = .release id number → st.reply = .done →
    st.before.storages.get? id = some s → 0 < s.allocationCount
  /-- Whenever a deletion is about to free a block it finds a block to take off the count of
  blocks. -/
  free_pos : ∀ st ∈ steps, ∀ id yielding s k t n i, st.event = .delete id yielding →
    st.before.storages.get? id = some s → s.Deleting yielding k t (some n) →
    t.inspect yielding n = .ok i → i.finding = .unlinked → 0 < i.storage.blockCount
  /-- No step makes a counter smaller. -/
  growing : ∀ st ∈ steps, ∀ id s s', st.before.storages.get? id = some s →
    st.after.storages.get? id = some s' → s.counters.AtMost s'.counters

/-! ## Along a run -/

namespace World

variable {w : World} {id : Nat} {s s' : Storage} {steps : List Step} {st : Step}

/-- Before a storage is made nothing is counted of it. -/
theorem Run.idle (h : Run {} steps w) (hid : w.storages.size < id) (hst : st ∈ steps) :
    st.event.Idle id st.before st.reply := by
  obtain ⟨before, after, rfl⟩ := List.append_of_mem hst
  obtain ⟨hbefore, hp, hafter⟩ := h.split
  have hw := hbefore.sound .init
  have ht := hw.transition hp
  have hle := Nat.le_trans ht.storages.size_le (hafter.storages_size_le (ht.sound hw))
  exact ht.idle_of_none (Registry.get?_eq_none_of_size_lt (by omega))

/-- **The books of a storage are right after every run.** -/
theorem Run.account (h : Run {} steps w) (hs : w.storages.get? id = some s) :
    Account steps id s := by
  generalize hinit : ({} : World) = w₀ at h
  induction h generalizing s with
  | nil => subst hinit; simp at hs
  | @snoc w₁ steps e hrun hp ih =>
      subst hinit
      have hw := hrun.sound .init
      have ht := hw.transition hp
      rcases ht.storages.back id s hs with ⟨s₁, hs₁, -⟩ | ⟨hid, settings, rfl⟩
      · exact (ih hs₁).snoc (ht.booked hw hs₁ hs (ih hs₁).balanced)
      · refine .make fun st hst => ?_
        rcases List.mem_append.1 hst with hst | hst
        · exact hrun.idle (by omega) hst
        · rw [List.mem_singleton.1 hst]
          exact ht.idle_of_none (Registry.get?_eq_none_of_size_lt (by omega))

/-- Every step of a run is booked. -/
theorem Run.booked (h : Run {} steps w) (hst : st ∈ steps)
    (hs : st.before.storages.get? id = some s) (hs' : st.after.storages.get? id = some s') :
    s.Booked id st.before st.event st.reply s' := by
  obtain ⟨before, after, rfl⟩ := List.append_of_mem hst
  obtain ⟨hbefore, hp, -⟩ := h.split
  have hw := hbefore.sound .init
  exact (hw.transition hp).booked hw hs hs' (hbefore.account hs).balanced

/-- **Accounting is exact** in every run. -/
theorem accounts (h : Run {} steps w) : Accounts steps w where
  account := fun id s hs => h.account hs
  release_pos := by
    intro st hst id number s hevent hreply hs
    obtain ⟨before, after, rfl⟩ := List.append_of_mem hst
    obtain ⟨hbefore, hp, -⟩ := h.split
    obtain ⟨s', hs'⟩ := (((hbefore.sound .init).transition hp).storages.forth id s hs).resolve_right
      fun hdrop => by simp [hevent] at hdrop
    have hentries := (h.booked hst hs hs').entries
    have hreleases : st.event.releases id st.reply = true := by
      simp [hevent, hreply, Event.releases]
    rw [hreleases, Bool.toNat_true] at hentries
    have hnone : st.event.allocates id st.reply = false := by rw [hevent]; rfl
    rw [hnone, Bool.toNat_false] at hentries
    omega
  free_pos := by
    intro st hst id yielding s k t n i hevent hs hmoment hinspect hfinding
    obtain ⟨before, after, rfl⟩ := List.append_of_mem hst
    obtain ⟨hbefore, hp, -⟩ := h.split
    have hsound := ((hbefore.sound .init).storages id s hs).2
    exact (hmoment.halfway hsound (hbefore.account hs).balanced).blockCount_pos hinspect hfinding
  growing := fun st hst id s s' hs hs' => (h.booked hst hs hs').growing

/-- A block is emptied; a second concurrent pass is refused beside the first, a deletion gives way
to it, a later one deletes the block, and a release panics on the storage that did not issue the
handle. -/
theorem accounts_of_refusals :
    let events : List Event := [.create { maxBlocks := some 1 }, .create {}, .allocate 1,
      .release 1 1, .beginPass 1 true .readOnly, .beginPass 1 true .readOnly, .delete 1 true,
      .endPass 1, .delete 1 true, .allocate 1, .release 2 2]
    (({} : World).trail events).countP (fun st => st.before.givesWay 1 st.event) = 1 ∧
    (({} : World).trail events).countP (fun st => st.event.allocates 1 st.reply) = 2 ∧
    (({} : World).trail events).countP (fun st => st.event.begins 1 st.reply) = 1 ∧
    Accounts (({} : World).trail events) (({} : World).afterAll events) := by
  refine ⟨by decide +kernel, by decide +kernel, by decide +kernel, ?_⟩
  exact accounts (run_trail _ _ (by decide +kernel))

end World

end RootStore
