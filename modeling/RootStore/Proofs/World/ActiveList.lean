import RootStore.Proofs.Storage.Shape
import RootStore.Proofs.World.Memory
import RootStore.Proofs.World.Operation

/-!
# The list of a storage in the course of a run

In every world that can be reached the pointers of a storage make up one list of the blocks that it
has in memory, newest first.  An allocation may put a block in front, a deletion takes blocks out,
and nothing else touches the list.

* `Storage.Relinked` — what an event can do to the list of a storage.
* `World.linkings` — the blocks linked in the course of a run, in order.
* `World.Run.linked_eq` — **the list is in the order of linking.**
* `World.ActiveList`, `World.active_list` — **what is said of lists, and that it holds of every
  run.**
-/

namespace RootStore

/-- What an event does to the list of the storage with an id. -/
inductive Storage.Relinked (id : Nat) : Event → Storage → Storage → Prop
  /-- Nothing. -/
  | kept {e : Event} {s s' : Storage} (h : s'.linked = s.linked) : Relinked id e s s'
  /-- An allocation has linked a block, whose number no block has had before. -/
  | linked {s s₁ s' : Storage} {n : Nat} (hnew : s.blocks.get? n = none)
      (hlink : s.link = .ok (s₁, n))
      (h : s'.linked = n :: s.linked) : Relinked id (.allocate id) s s'
  /-- A deletion has unlinked the blocks that were empty. -/
  | unlinked {s s' : Storage} {yielding : Bool}
      (h : s'.linked = s.linked.filter fun n => !s.isEmptyAt n) :
      Relinked id (.delete id yielding) s s'

/-- The blocks of the storage that are linked in the step. -/
def Step.linkings (id : Nat) (st : Step) : List Nat :=
  ((st.after.storages.get? id).map fun s => s.linked.filter fun n => st.Links id n).getD []

namespace Storage

variable {s s' : Storage} {id : Nat} {e : Event}

/-- **Every operation does one of these things to the list.** -/
theorem Operated.relinked (hop : s.Operated id e s') (h : s.Sound) : s.Relinked id e s' := by
  cases hop with
  | allocated halloc =>
      rcases h.allocate_cases with ⟨-, -, heq⟩ | ⟨s₁, p, -, hent, heq⟩ |
          ⟨s₁, s₂, p, -, -, -, hext, hent, heq⟩
      · obtain rfl := Except.ok.inj (heq.symm.trans halloc)
        exact .kept rfl
      · obtain rfl := Except.ok.inj (heq.symm.trans halloc)
        exact .kept hent.linked_eq
      · obtain rfl := Except.ok.inj (heq.symm.trans halloc)
        obtain ⟨s₃, hlink, hnew, -⟩ := h.shape.link
        exact .linked hnew hlink (hent.linked_eq.trans hext.linked_eq)
  | released hrelease => exact .kept (h.shape.release hrelease).linked_eq
  | stored hstore => exact .kept (h.shape.store hstore).linked_eq
  | deleted hdelete =>
      obtain ⟨d, gone, heq, hwithout, hgone, -⟩ := h.deleteEmpty _
      obtain rfl := Except.ok.inj (heq.symm.trans hdelete)
      rw [hgone] at hwithout
      split at hwithout
      · exact .kept (by simpa using hwithout.linked_eq)
      · refine .unlinked (hwithout.linked_eq.trans (List.filter_congr fun n hn => ?_))
        simp [hn]
  | marked iterating counters => exact .kept (linked_congr rfl rfl)

end Storage

namespace World

variable {w : World} {id : Nat} {s s' : Storage} {steps : List Step} {st : Step}

/-- The blocks of the storage that were linked in these steps, in order. -/
def linkings (id : Nat) (steps : List Step) : List Nat := steps.flatMap (·.linkings id)

theorem linkings_snoc (id : Nat) (steps : List Step) (st : Step) :
    linkings id (steps ++ [st]) = linkings id steps ++ st.linkings id := by
  simp [linkings]

/-- A step links the blocks that are new in the list. -/
theorem linkings_step (hs : st.before.storages.get? id = some s)
    (hs' : st.after.storages.get? id = some s') :
    st.linkings id = s'.linked.filter fun n => n ∉ s.linked := by
  simp only [Step.linkings, hs', Option.map_some, Option.getD_some]
  refine List.filter_congr fun n hn => ?_
  simp [Step.Links, hs, hs', hn]

/-- A block occurs among those linked at most as often as it is linked. -/
theorem count_linkings_le {n : Nat} (hsteps : ∀ st ∈ steps, st.after.Sound) :
    (linkings id steps).count n ≤ steps.countP fun st => st.Links id n := by
  induction steps with
  | nil => simp [linkings]
  | cons st steps ih =>
      have hone : (st.linkings id).count n ≤ if st.Links id n then 1 else 0 := by
        rcases hs : st.after.storages.get? id with _ | s
        · simp [Step.linkings, hs]
        simp only [Step.linkings, hs, Option.map_some, Option.getD_some]
        split
        · have hnodup := ((hsteps st (by simp)).storages id s hs).2.lists.nodup
          exact List.nodup_iff_count_le_one.1 (hnodup.filter _) n
        · rename_i hlinks
          rw [Nat.le_zero, List.count_eq_zero]
          exact fun hn => hlinks (by simpa using List.of_mem_filter hn)
      have := ih fun st hst => hsteps st (by simp [hst])
      simp only [linkings, List.flatMap_cons, List.count_append, List.countP_cons,
        decide_eq_true_eq] at this ⊢
      omega

/-- No block is linked twice. -/
theorem Run.linkings_nodup (h : Run {} steps w) (id : Nat) : (linkings id steps).Nodup := by
  refine List.nodup_iff_count_le_one.2 fun n => ?_
  refine (count_linkings_le fun st hst => ?_).trans (h.linked_once id n)
  obtain ⟨l₁, l₂, rfl⟩ := List.append_of_mem hst
  obtain ⟨hbefore, hp, -⟩ := h.split
  have hw := hbefore.sound .init
  exact (hw.transition hp).sound hw

/-- **The list is in the order of linking**: it is what was linked and is still in memory, the
newest first. -/
theorem Run.linked_eq (h : Run {} steps w) (hs : w.storages.get? id = some s) :
    s.linked = (linkings id steps).reverse.filter fun n => (s.blocks.get? n).isSome := by
  refine h.storage_induction (P := fun steps s =>
    s.linked = (linkings id steps).reverse.filter fun n => (s.blocks.get? n).isSome)
    (fun steps settings => ?_) (fun steps st s s' hrun hs hs' hsound hsound' hop ih => ?_) hs
  · simp [Storage.make, Storage.linked, Storage.walk]
  have hnodup := hrun.linkings_nodup id
  rw [linkings_snoc, linkings_step hs hs'] at hnodup ⊢
  rw [List.reverse_append, List.filter_append]
  -- what is in memory is what is in the list
  have hlive : ∀ {t : Storage}, t.Sound → ∀ n, (t.blocks.get? n).isSome = decide (n ∈ t.linked) :=
    fun ht n => by
      rw [Bool.eq_iff_iff, decide_eq_true_iff, ht.mem_linked_iff, Option.isSome_iff_exists]
  simp only [hlive hsound] at ih
  simp only [hlive hsound']
  have hshrunk : (∃ p : Nat → Bool, s'.linked = s.linked.filter p) →
      s'.linked = (s'.linked.filter (· ∉ s.linked)).reverse.filter (· ∈ s'.linked) ++
        (linkings id steps).reverse.filter (· ∈ s'.linked) := by
    rintro ⟨p, hp⟩
    have hnone : s'.linked.filter (· ∉ s.linked) = [] := by
      rw [List.filter_eq_nil_iff, hp]
      intro n hn
      simpa using List.mem_of_mem_filter hn
    rw [hnone]
    exact filter_mem_of_filter ih hp
  have hre := hop.relinked hsound
  generalize st.event = e at hre
  cases hre with
  | kept heq => exact hshrunk ⟨fun _ => true, by simpa using heq⟩
  | unlinked heq => exact hshrunk ⟨_, heq⟩
  | @linked _ s₁ _ n hnew hlink heq =>
      have hn : n ∉ s.linked := fun hn => by
        obtain ⟨b, hb⟩ := (hsound.mem_linked_iff n).1 hn
        simp [hnew] at hb
      have hone : s'.linked.filter (· ∉ s.linked) = [n] := by
        rw [heq, List.filter_cons_of_pos (by simpa using hn), List.filter_eq_nil_iff.2]
        intro m hm
        simpa using hm
      rw [hone] at hnodup ⊢
      have hfresh : n ∉ linkings id steps := fun hmem =>
        (List.nodup_append.1 hnodup).2.2 n hmem n (by simp) rfl
      rw [List.reverse_singleton, List.filter_cons_of_pos (by simp [heq]), List.filter_nil,
        List.singleton_append]
      conv_lhs => rw [heq, ih]
      refine congrArg (n :: ·) (List.filter_congr fun m hm => ?_)
      have hmn : m ≠ n := fun heq => hfresh (heq ▸ List.mem_reverse.1 hm)
      simp [heq, hmn]

/-- **The list of a storage in the course of a run.** -/
structure ActiveList (steps : List Step) (w : World) : Prop where
  /-- The pointers of a storage spell a list that is whole. -/
  shape : ∀ id s, w.storages.get? id = some s → s.Shape s.linked
  /-- In it is every block that the storage has in memory, and no other. -/
  live : ∀ id s, w.storages.get? id = some s →
    ∀ n, n ∈ s.linked ↔ ∃ b, s.blocks.get? n = some b
  /-- No block is linked twice. -/
  once : ∀ id, (linkings id steps).Nodup
  /-- The blocks are in the order of linking, the newest first. -/
  in_order : ∀ id s, w.storages.get? id = some s →
    s.linked = (linkings id steps).reverse.filter fun n => (s.blocks.get? n).isSome
  /-- A step of the run puts a new block in front or takes empty ones out, if it touches the
  list. -/
  changes : ∀ st ∈ steps, ∀ id s s', st.before.storages.get? id = some s →
    st.after.storages.get? id = some s' → s.Relinked id st.event s'

/-- **In every world that can be reached the lists have their shape**, in the order of linking, and
whatever is done to a list of this shape is done by putting a number in front or erasing one. -/
theorem active_list (h : Run {} steps w) :
    ActiveList steps w ∧ ∀ (s : Storage) (l : List Nat), s.Shape l → s.Refined l where
  left :=
    { shape := fun id s hs => (((h.sound .init).storages id s hs).2).shape
      live := fun id s hs => (((h.sound .init).storages id s hs).2).mem_linked_iff
      once := h.linkings_nodup
      in_order := fun id s hs => h.linked_eq hs
      changes := fun st hst id s s' hs hs' => by
        obtain ⟨l₁, l₂, rfl⟩ := List.append_of_mem hst
        obtain ⟨hbefore, hp, -⟩ := h.split
        have hw := hbefore.sound .init
        exact ((hw.transition hp).operated hs hs').relinked (hw.storages id s hs).2 }
  right := fun _ _ hs => hs.refined

/-- Three blocks are linked; the one in the middle is deleted, and then the one in front, after
which another comes to stand there. -/
theorem active_list_of_removals :
    let middle : List Event :=
      (List.range 64).map (fun i => .release 1 (65 + i)) ++ [.delete 1 false]
    let front : List Event := [.release 1 129, .delete 1 true, .allocate 1]
    let events := .create {} :: List.replicate 129 (.allocate 1) ++ middle ++ front
    ((({} : World).afterAll events).storages.get? 1).map Storage.linked = some [4, 1] ∧
    (ActiveList (({} : World).trail events) (({} : World).afterAll events) ∧
      ∀ (s : Storage) (l : List Nat), s.Shape l → s.Refined l) := by
  refine ⟨by decide +kernel, ?_⟩
  exact active_list (run_trail _ _ (by decide +kernel))

end World

end RootStore
