import Mathlib.Data.List.Dedup
import RootStore.Proofs.Storage.Shape
import RootStore.Proofs.World.Operation

/-!
# The queue of a storage in the course of a run

The queue holds the blocks with a free entry, each once.  A block that is linked or that comes to
have a free entry again goes to the end, one that is filled leaves from the front, and one that is
deleted leaves from wherever it stands; so the blocks stand in the order in which they came to be
open.

* `Storage.Requeued` — what an event can do to the queue of a storage.
* `Storage.Operated.requeued` — **every operation does one of these things.**
* `World.openings` — the blocks that came to be open in the course of a run, in order.
* `World.Run.available_eq` — **the queue is in that order.**
* `World.Queue`, `World.queue` — **what is said of queues, and that it holds of every run.**
-/

namespace RootStore

/-- Is there a block with this number, and has it a free entry? -/
def Storage.isOpenAt (s : Storage) (n : Nat) : Bool := (s.blocks.get? n).any fun b => !b.isFull

/-- What an event does to the queue of the storage with an id. -/
inductive Storage.Requeued (id : Nat) : Event → Storage → Storage → Prop
  /-- Nothing. -/
  | kept {e : Event} {s s' : Storage} (h : s'.available = s.available) : Requeued id e s s'
  /-- An allocation has filled the block in front, which has left the queue. -/
  | filled {s s' : Storage} {n : Nat} (hfull : ∀ i, s'.InUse ⟨n, i⟩)
      (h : s.available = n :: s'.available) : Requeued id (.allocate id) s s'
  /-- An allocation has linked a block, which stands last. -/
  | linked {s s' : Storage} {n : Nat} (hold : n ∉ s.linked) (hnew : n ∈ s'.linked)
      (h : s'.available = s.available ++ [n]) : Requeued id (.allocate id) s s'
  /-- A release has opened a full block, which stands last. -/
  | opened {s s' : Storage} {n number : Nat} (hfull : ∀ i, s.InUse ⟨n, i⟩)
      (hopen : ∃ i, ¬ s'.InUse ⟨n, i⟩) (h : s'.available = s.available ++ [n]) :
      Requeued id (.release id number) s s'
  /-- A deletion has taken out the blocks that it has deleted. -/
  | deleted {s s' : Storage} {yielding : Bool}
      (h : s'.available = s.available.filter fun n => n ∈ s'.linked) :
      Requeued id (.delete id yielding) s s'

/-- The blocks of the storage that are open after the step and were not before. -/
def Step.openings (id : Nat) (st : Step) : List Nat :=
  ((st.after.storages.get? id).map fun s => s.linked.filter fun n =>
    s.isOpenAt n && !(st.before.storages.get? id).any fun s => s.isOpenAt n).getD []

namespace Storage

variable {s s' : Storage} {id n : Nat} {e : Event}

/-- The blocks in the queue are the open ones. -/
theorem Sound.isOpenAt_eq (h : s.Sound) (n : Nat) : s.isOpenAt n = decide (n ∈ s.available) := by
  rw [Bool.eq_iff_iff, decide_eq_true_iff, h.mem_available]
  rcases hb : s.blocks.get? n with _ | b <;> simp [isOpenAt, hb]

/-- **In the queue are the linked blocks of which some entry is free.** -/
theorem Sound.mem_available_iff (h : s.Sound) (n : Nat) :
    n ∈ s.available ↔ n ∈ s.linked ∧ ∃ i, ¬ s.InUse ⟨n, i⟩ := by
  rw [h.mem_available]
  constructor
  · rintro ⟨b, hb, hfull⟩
    refine ⟨h.mem_linked n b hb, ?_⟩
    by_contra hall
    simp only [not_exists, not_not] at hall
    rw [Bool.eq_false_iff] at hfull
    refine hfull (Block.isFull_iff.2 fun i => ?_)
    obtain ⟨d, hd, hi⟩ := hall i
    obtain rfl := Option.some.inj (hb.symm.trans hd)
    exact hi
  · rintro ⟨hn, i, hi⟩
    obtain ⟨b, hb⟩ := h.lists.isSome hn
    refine ⟨b, hb, Bool.eq_false_iff.2 fun hfull => hi ⟨b, hb, ?_⟩⟩
    exact Block.isFull_iff.1 hfull i

/-- A linked block that is not in the queue is full. -/
theorem Sound.inUse_of_not_mem (h : s.Sound) (hn : n ∈ s.linked) (hqueue : n ∉ s.available)
    (i : SlotIndex) : s.InUse ⟨n, i⟩ := by
  by_contra hi
  exact hqueue ((h.mem_available_iff n).2 ⟨hn, i, hi⟩)

/-- Taking an entry of the block in front leaves the queue as it was, or that block leaves it. -/
theorem takeEntry_available {p : Place} (h : s.takeEntry n = .ok (s', p)) :
    s'.available = s.available ∨ s'.available = s.available.tail := by
  obtain ⟨b, d, -, -, -, rfl⟩ := takeEntry_inv h
  by_cases hfull : d.isFull = true <;> simp [hfull]

/-- **What an allocation does to the queue.** -/
theorem Sound.requeued_allocate {a : Allocation} (h : s.Sound) (halloc : s.allocate = .ok a) :
    s.Requeued id (.allocate id) a.storage := by
  rcases hq : s.available with _ | ⟨n, queue⟩
  · by_cases hlimit : s.atLimit = true
    · simp only [Storage.allocate, hq, hlimit, if_true] at halloc
      obtain rfl := Except.ok.inj halloc
      exact .kept rfl
    · obtain ⟨s₁, hlink, hext⟩ := h.link
      obtain ⟨s', i, htake, hent⟩ := hext.sound.takeEntry (n := s.blocks.size + 1)
        (show _ = _ :: [] by rw [hext.available_eq, hq]; rfl)
      simp only [Storage.allocate, hq, hlimit, hlink, htake, bind, Except.bind] at halloc
      obtain rfl := Except.ok.inj halloc
      have hold : s.blocks.size + 1 ∉ s.linked := fun hn => by
        have := (h.lists.bounds hn).2
        omega
      have hnew : s.blocks.size + 1 ∈ s'.linked := by
        rw [hent.linked_eq, hext.linked_eq]
        exact List.mem_cons_self
      refine .linked hold hnew ?_
      -- of the new block one entry is in use, so it is still open
      have hopen : s.blocks.size + 1 ∈ s'.available := by
        obtain ⟨j, hj⟩ := exists_ne i
        refine (hent.sound.mem_available_iff _).2 ⟨hnew, j, fun huse => ?_⟩
        rcases (hent.inUse_iff _).1 huse with huse | heq
        · obtain ⟨b, hb, -⟩ := (hext.inUse_iff _).1 huse
          exact hold (h.mem_linked _ b hb)
        · exact hj (Place.mk.inj heq).2
      rcases takeEntry_available htake with heq | heq
      · rw [heq, hext.available_eq]
      · rw [heq, hext.available_eq, hq] at hopen
        cases hopen
  · obtain ⟨s', i, htake, hent⟩ := h.takeEntry hq
    simp only [Storage.allocate, hq, htake, bind, Except.bind] at halloc
    obtain rfl := Except.ok.inj halloc
    rcases takeEntry_available htake with heq | heq
    · exact .kept heq
    · rw [hq, List.tail_cons] at heq
      have hnd := h.nodup_available
      rw [hq, List.nodup_cons] at hnd
      have hn : n ∈ s'.linked := by
        rw [hent.linked_eq]
        exact ((h.mem_available_iff n).1 (by simp [hq])).1
      refine .filled (hent.sound.inUse_of_not_mem hn ?_) (by rw [hq, heq])
      rw [heq]
      exact hnd.1

/-- **What a release does to the queue.** -/
theorem requeued_release {p : Place} {number : Nat} (hrelease : s.release p = .ok s') :
    s.Requeued id (.release id number) s' := by
  obtain ⟨b, hb, hs'⟩ := release_inv hrelease
  have hfree : ¬ s'.InUse p := by
    rw [inUse_set hb (by rw [hs'])]
    simp
  by_cases hfull : b.isFull = true
  · refine .opened (n := p.block) (fun i => ⟨b, hb, Block.isFull_iff.1 hfull i⟩) ⟨p.slot, hfree⟩ ?_
    rw [hs']
    simp [hfull]
  · refine .kept ?_
    rw [hs']
    simp [hfull]

/-- **What a deletion does to the queue.** -/
theorem Sound.requeued_delete {d : Deletion} {yielding : Bool} (h : s.Sound)
    (hdelete : s.deleteEmpty yielding = .ok d) : s.Requeued id (.delete id yielding) d.storage := by
  obtain ⟨d', gone, heq, hwithout, -⟩ := h.deleteEmpty yielding
  obtain rfl := Except.ok.inj (heq.symm.trans hdelete)
  refine .deleted (hwithout.available_eq.trans (List.filter_congr fun n hn => ?_))
  have hlinked := ((h.mem_available_iff n).1 hn).1
  rw [hwithout.linked_eq]
  simp [hlinked]

/-- **Every operation does one of these things to the queue.** -/
theorem Operated.requeued (hop : s.Operated id e s') (h : s.Sound) : s.Requeued id e s' := by
  cases hop with
  | allocated halloc => exact h.requeued_allocate halloc
  | released hrelease => exact requeued_release hrelease
  | @stored _ _ _ p v hstore =>
      rcases hb : s.blocks.get? p.block with _ | b
      · simp [Storage.store, updateBlock, block, hb, bind, Except.bind] at hstore
      · obtain rfl := Except.ok.inj ((updateBlock_eq hb _).symm.trans hstore)
        exact .kept rfl
  | deleted hdelete => exact h.requeued_delete hdelete
  | marked iterating counters => exact .kept rfl

/-- However a queue changes, blocks leave it or one comes to stand last. -/
theorem Requeued.available_cases (hre : s.Requeued id e s') (h : s.Sound) :
    (∃ p : Nat → Bool, s'.available = s.available.filter p) ∨
      ∃ n, n ∉ s.available ∧ s'.available = s.available ++ [n] := by
  cases hre with
  | kept heq => exact Or.inl ⟨fun _ => true, by simpa using heq⟩
  | @filled _ _ n hfull heq =>
      have hnd := h.nodup_available
      rw [heq, List.nodup_cons] at hnd
      refine Or.inl ⟨(· ≠ n), ?_⟩
      rw [heq, List.filter_cons_of_neg (by simp), List.filter_eq_self.2]
      intro m hm
      have hmn : m ≠ n := fun e => hnd.1 (e ▸ hm)
      simpa using hmn
  | linked hold hnew heq =>
      exact Or.inr ⟨_, fun hn => hold ((h.mem_available_iff _).1 hn).1, heq⟩
  | opened hfull hopen heq =>
      refine Or.inr ⟨_, fun hn => ?_, heq⟩
      obtain ⟨-, i, hi⟩ := (h.mem_available_iff _).1 hn
      exact hi (hfull i)
  | deleted heq => exact Or.inl ⟨_, heq⟩

end Storage

/-- A number that comes last is kept there, and nowhere else. -/
theorem dedup_concat (l : List Nat) (n : Nat) :
    (l ++ [n]).dedup = l.dedup.filter (· ≠ n) ++ [n] := by
  induction l with
  | nil => simp
  | cons m l ih =>
      rw [List.cons_append]
      by_cases hm : m ∈ l
      · rw [List.dedup_cons_of_mem (by simp [hm]), List.dedup_cons_of_mem hm, ih]
      · rw [List.dedup_cons_of_notMem hm]
        by_cases hmn : m = n
        · subst hmn
          rw [List.dedup_cons_of_mem (by simp), ih, List.filter_cons_of_neg (by simp)]
        · rw [List.dedup_cons_of_notMem (by simp [hm, hmn]), ih,
            List.filter_cons_of_pos (by simpa using hmn), List.cons_append]

namespace World

variable {w : World} {id : Nat} {s s' : Storage} {steps : List Step} {st : Step}

/-- The blocks of the storage that came to be open in these steps, in order. -/
def openings (id : Nat) (steps : List Step) : List Nat := steps.flatMap (·.openings id)

theorem openings_snoc (id : Nat) (steps : List Step) (st : Step) :
    openings id (steps ++ [st]) = openings id steps ++ st.openings id := by
  simp [openings]

/-- A step opens the blocks that are new in the queue. -/
theorem openings_step (hs : st.before.storages.get? id = some s)
    (hs' : st.after.storages.get? id = some s') (h : s.Sound) (h' : s'.Sound) :
    st.openings id = s'.linked.filter fun n => n ∈ s'.available ∧ n ∉ s.available := by
  simp only [Step.openings, hs, hs', Option.map_some, Option.getD_some, Option.any_some,
    h.isOpenAt_eq, h'.isOpenAt_eq]
  exact List.filter_congr fun n _ => by simp

/-- **The queue is in the order of opening**: it is the blocks that came to be open and still are,
each at the place of its last opening. -/
theorem Run.available_eq (h : Run {} steps w) (hs : w.storages.get? id = some s) :
    s.available = (openings id steps).dedup.filter s.isOpenAt := by
  refine h.storage_induction (P := fun steps s =>
    s.available = (openings id steps).dedup.filter s.isOpenAt)
    (fun steps settings => ?_) (fun steps st s s' hrun hs hs' hsound hsound' hop ih => ?_) hs
  · simp [Storage.make, Storage.isOpenAt]
  have hisOpenAt : ∀ {t : Storage}, t.Sound → t.isOpenAt = fun n => decide (n ∈ t.available) :=
    fun ht => funext ht.isOpenAt_eq
  rw [hisOpenAt hsound] at ih
  rw [openings_snoc, openings_step hs hs' hsound hsound', hisOpenAt hsound']
  rcases (hop.requeued hsound).available_cases hsound with ⟨p, hp⟩ | ⟨n, hn, hlast⟩
  · -- no block has come to be open
    have hnone : s'.linked.filter (fun n => n ∈ s'.available ∧ n ∉ s.available) = [] := by
      rw [List.filter_eq_nil_iff, hp]
      intro n _
      simp +contextual [List.mem_filter]
    rw [hnone, List.append_nil]
    exact filter_mem_of_filter ih hp
  · -- one has, and stands last in both
    have hone : s'.linked.filter (fun n => n ∈ s'.available ∧ n ∉ s.available) = [n] := by
      have hlinked := ((hsound'.mem_available_iff n).1 (by simp [hlast])).1
      have hcount := List.count_eq_one_of_mem hsound'.lists.nodup hlinked
      rw [← List.replicate_one, ← hcount, ← List.filter_eq, hlast]
      refine List.filter_congr fun m _ => ?_
      by_cases hm : m = n <;> simp [hm, hn]
    rw [hone, dedup_concat, List.filter_append, List.filter_filter, hlast]
    congr 1
    · conv_lhs => rw [ih]
      refine List.filter_congr fun m _ => ?_
      by_cases hm : m = n <;> simp [hm, hn]
    · simp

/-- **The queue of a storage in the course of a run.** -/
structure Queue (steps : List Step) (w : World) : Prop where
  /-- In the queue are the linked blocks of which some entry is free, and no other block. -/
  open_blocks : ∀ id s, w.storages.get? id = some s →
    ∀ n, n ∈ s.available ↔ n ∈ s.linked ∧ ∃ i, ¬ s.InUse ⟨n, i⟩
  /-- None is there twice. -/
  once : ∀ id s, w.storages.get? id = some s → s.available.Nodup
  /-- They are in the order in which they came to be open. -/
  in_order : ∀ id s, w.storages.get? id = some s →
    s.available = (openings id steps).dedup.filter s.isOpenAt
  /-- A step of the run takes the block in front that it has filled, puts one last that it has
  linked or opened, or takes out those it has deleted, if it touches the queue. -/
  changes : ∀ st ∈ steps, ∀ id s s', st.before.storages.get? id = some s →
    st.after.storages.get? id = some s' → s.Requeued id st.event s'

/-- **In every world that can be reached the queues hold the open blocks**, first the one that has
been open longest. -/
theorem queue (h : Run {} steps w) : Queue steps w where
  open_blocks := fun id s hs => ((h.sound .init).storages id s hs).2.mem_available_iff
  once := fun id s hs => ((h.sound .init).storages id s hs).2.nodup_available
  in_order := fun id s hs => h.available_eq hs
  changes := fun st hst id s s' hs hs' => by
    obtain ⟨l₁, l₂, rfl⟩ := List.append_of_mem hst
    obtain ⟨hbefore, hp, -⟩ := h.split
    have hw := hbefore.sound .init
    exact ((hw.transition hp).operated hs hs').requeued (hw.storages id s hs).2

/-- A full block is opened while another one is open, and stands behind it until that one is
deleted; then it is filled again and a new one comes to stand there. -/
theorem queue_of_opened :
    let opened : List Event :=
      .create {} :: List.replicate 65 (.allocate 1) ++ [.release 1 7, .release 1 65]
    let events := opened ++ [.delete 1 true, .allocate 1, .allocate 1]
    let available (events : List Event) : Option (List Nat) :=
      ((({} : World).afterAll events).storages.get? 1).map Storage.available
    available opened = some [2, 1] ∧ available events = some [3] ∧
      Queue (({} : World).trail events) (({} : World).afterAll events) := by
  refine ⟨by decide +kernel, by decide +kernel, ?_⟩
  exact queue (run_trail _ _ (by decide +kernel))

end World

end RootStore
