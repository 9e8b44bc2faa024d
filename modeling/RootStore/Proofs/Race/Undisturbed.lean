import RootStore.Proofs.Race.Contest
import RootStore.Proofs.Race.Partition
import RootStore.Proofs.Storage.Shape

/-!
# No deletion disturbs a pass

However the turns of a deletion fall between the steps of a pass: a block is unlinked only where the
flag was found clear, so before the pass began, and what has been unlinked cannot be reached from
the list any more.  The pass is pinned to a list that it has read afterwards, and of that list no
block goes.

* `Storage.Detached` — a storage in which one block has been unlinked and not freed yet.
* `Storage.Sound.inspect_ok` — what a deletion does at a block.
* `Contest.Inv` — the invariant.
* `Contest.Inv.act` — **every permitted step succeeds** and keeps it.
* `Contest.Undisturbed`, `Contest.no_pass_disturbed` — **what is said of a contest, and that it
  holds.**
-/

namespace RootStore

namespace Storage

variable {s s' : Storage} {n m : Nat} {l rest : List Nat}

/-- Following `next` from one block on leads to the other. -/
def Reaches (s : Storage) : Nat → Nat → Prop :=
  Relation.ReflTransGen fun m n => ∃ b, s.blocks.get? m = some b ∧ b.next = some n

/-- What can be reached from the list is in the list. -/
theorem Shape.mem_of_reaches (h : s.Shape l) (hm : m ∈ l) (hreach : s.Reaches m n) : n ∈ l := by
  induction hreach with
  | refl => exact hm
  | tail _ hnext ih =>
      obtain ⟨b, hb, hnext⟩ := hnext
      exact h.closed _ ih b hb _ (Or.inl hnext)

/-- The flag and the counters do not matter for the list. -/
@[simp] theorem linked_marked (s : Storage) (iterating : Bool) (counters : Counters) :
    ({ s with iterating, counters } : Storage).linked = s.linked :=
  linked_congr rfl rfl

/-! ## A block between list and memory -/

/-- A block has been taken out of the list, and nothing is left but to free it. -/
structure Detached (s : Storage) (n : Nat) : Prop where
  /-- It is not in the list. -/
  unlinked : n ∉ s.linked
  /-- Freeing it leaves nothing to be done. -/
  reclaim : ∃ s', s.reclaim n = .ok s' ∧ s'.Sound

/-- The blocks in memory are those of the list and the one detached. -/
theorem Detached.mem_memory_iff (h : s.Detached n) (hlists : s.Lists s.linked) :
    (∃ b, s.blocks.get? m = some b) ↔ m ∈ s.linked ∨ m = n := by
  obtain ⟨s', hreclaim, hsound⟩ := h.reclaim
  have hlinked := (hlists.shape.reclaim h.unlinked hreclaim).linked_eq
  obtain ⟨b, hb, rfl⟩ := reclaim_inv hreclaim
  rw [← hlinked, hsound.mem_linked_iff]
  simp only [Registry.get?_erase]
  by_cases hm : m = n
  · simp [hm, hb]
  · simp [hm]

/-- The flag and the counters do not matter. -/
theorem Detached.marked (h : s.Detached n) (iterating : Bool) (counters : Counters) :
    Detached { s with iterating, counters } n := by
  obtain ⟨s', hreclaim, hsound⟩ := h.reclaim
  obtain ⟨b, hb, rfl⟩ := reclaim_inv hreclaim
  refine ⟨by rw [linked_marked]; exact h.unlinked, ?_⟩
  exact ⟨_, reclaim_eq (s := { s with iterating, counters }) hb, hsound.congr rfl rfl rfl rfl⟩

/-- **What a deletion does at a block of the list**: it leaves everything as it is, or it unlinks
the block, which it does only where it need not give way. -/
theorem Sound.inspect_ok (h : s.Sound) (hsuf : n :: rest <:+ s.linked) (yielding : Bool) :
    ∃ i, s.inspect yielding n = .ok i ∧ i.next = rest.head? ∧
      (i.finding ≠ .unlinked ∧ i.storage = s ∨
        i.finding = .unlinked ∧ (yielding && s.iterating) = false ∧ i.storage.Detached n ∧
          i.storage.Shape (s.linked.erase n) ∧ rest <:+ s.linked.erase n) := by
  obtain ⟨l₁, hl⟩ := hsuf
  obtain ⟨b, hb, hnext, -⟩ := h.lists.links l₁ n rest hl.symm
  have hn : n ∈ s.linked := by simp [← hl]
  rcases hempty : b.isEmpty with _ | _
  · exact ⟨_, inspect_of_occupied hb hempty, hnext, Or.inl ⟨by simp, rfl⟩⟩
  rcases hflag : yielding && s.iterating with _ | _
  · obtain ⟨s₁, s', hunlink, hreclaim, hwithout⟩ := h.remove hn (by simp [isEmptyAt, hb, hempty])
    obtain ⟨s₁', hunlink', hshape⟩ := h.shape.unlink hn
    obtain rfl := Except.ok.inj (hunlink.symm.trans hunlink')
    have hnotMem : n ∉ s.linked.erase n := h.lists.nodup.not_mem_erase
    refine ⟨_, inspect_of_unlinked hb hempty hflag hunlink, hnext,
      Or.inr ⟨rfl, rfl, ⟨?_, ?_⟩, hshape, ?_⟩⟩
    · rwa [hshape.linked_eq]
    · exact ⟨s', hreclaim, hwithout.sound⟩
    · have hn₁ : n ∉ l₁ := by
        have hnd := h.lists.nodup
        rw [← hl, List.nodup_append] at hnd
        exact fun hmem => hnd.2.2 n hmem n (by simp) rfl
      rw [← hl, List.erase_append_right _ hn₁, List.erase_cons_head]
      exact List.suffix_append l₁ rest
  · exact ⟨_, inspect_of_inhibited hb hempty hflag, hnext, Or.inl ⟨by simp, rfl⟩⟩

end Storage

namespace Race

variable {ι : Type} {s s' : Storage} {address : Nat → Address}

/-- What a worker has in hand of the list: blocks that it may follow next. -/
def Worker.inHand : Worker → List Nat
  | .entering | .reading | .fetching | .finished | .holding .notStarted => []
  | .starting head _ => head.toList
  | .holding (.upcoming n) => n.toList
  | .moving n next => n :: next.toList
  | .counting n => [n]

/-- What a worker has in hand of a list that was started on is linked. -/
theorem Started.mem_of_inHand {r : Race ι} {i : ι} {L : List Nat} {m : Nat} (h : r.Started L)
    (hreading : ∀ head seen, r.worker i = .starting head seen →
      head = seen.head? ∧ seen <:+ r.storage.linked)
    (hm : m ∈ (r.worker i).inHand) : m ∈ r.storage.linked := by
  have hright := h.right i
  cases hi : r.worker i with
  | entering | reading | fetching | finished =>
      rw [hi] at hm
      cases hm
  | starting head seen =>
      rw [hi] at hm
      obtain ⟨rfl, hsuf⟩ := hreading head seen hi
      exact hsuf.subset (List.mem_of_mem_head? (Option.mem_toList.1 hm))
  | holding cursor =>
      rw [hi] at hm hright
      rcases cursor with _ | _ | n
      · cases hm
      · cases hm
      · obtain rfl := List.mem_singleton.1 hm
        exact h.suffix.subset hright
  | moving n next =>
      rw [hi] at hm hright
      obtain ⟨l₁, l₂, rfl, rfl⟩ := hright
      refine h.suffix.subset (List.mem_append_right _ ?_)
      rcases List.mem_cons.1 hm with rfl | hm
      · exact List.mem_cons_self
      · exact List.mem_cons_of_mem _ (List.mem_of_mem_head? (Option.mem_toList.1 hm))
  | counting n =>
      rw [hi] at hm
      obtain rfl := List.mem_singleton.1 hm
      obtain ⟨rest, hrest, -⟩ := h.cursor
      have hwon := List.mem_map_of_mem (f := Prod.snd) ((h.won i m).2 (Or.inr hi))
      exact h.suffix.subset (by rw [hrest]; exact List.mem_append_left _ hwon)

theorem Placed.subset (h : Placed s address) (hsub : s'.linked ⊆ s.linked) : Placed s' address :=
  ⟨fun n hn => h.block n (hsub hn), fun m hm n hn => h.injective m (hsub hm) n (hsub hn)⟩

end Race

/-- A deletion agrees with its storage, whose blocks lie at these addresses. -/
structure Deleter.Agrees (d : Deleter) (s : Storage) (address : Nat → Address) : Prop where
  lists : s.Lists s.linked
  placed : Race.Placed s address
  /-- Where no block is detached nothing is amiss. -/
  sound : d.detached? = none → s.Sound
  /-- Where one is, nothing else is. -/
  detached : ∀ n, d.detached? = some n → s.Detached n
  /-- It stands before a rest of the list. -/
  on_list : ∃ rest, rest <:+ s.linked ∧ d.next? = rest.head?

namespace Deleter.Agrees

variable {d : Deleter} {s : Storage} {address : Nat → Address}

/-- Where no deletion is under way. -/
theorem idle (hs : s.Sound) (hplaced : Race.Placed s address) :
    Deleter.idle.Agrees s address where
  lists := hs.lists
  placed := hplaced
  sound := fun _ => hs
  detached := fun n hn => by cases hn
  on_list := ⟨[], List.nil_suffix, rfl⟩

/-- Where one is about to look at a block of the list. -/
theorem looking {rest : List Nat} {deleted : Nat} (hs : s.Sound) (hplaced : Race.Placed s address)
    (hsuf : rest <:+ s.linked) : (Deleter.looking rest.head? deleted).Agrees s address where
  lists := hs.lists
  placed := hplaced
  sound := fun _ => hs
  detached := fun n hn => by cases hn
  on_list := ⟨rest, hsuf, rfl⟩

/-- Where a block has just been unlinked. -/
theorem unlinked {l rest : List Nat} {n deleted : Nat} {next : Option Nat} (hshape : s.Shape l)
    (hdetached : s.Detached n) (hplaced : Race.Placed s address) (hsuf : rest <:+ s.linked)
    (hnext : next = rest.head?) : (Deleter.reclaiming n next deleted).Agrees s address where
  lists := by
    rw [hshape.linked_eq]
    exact Storage.shape_iff_lists.1 hshape
  placed := hplaced
  sound := fun hd => by cases hd
  detached := fun m hm => by
    obtain rfl := Option.some.inj hm
    exact hdetached
  on_list := ⟨rest, hsuf, hnext⟩

/-- The flag and the counters do not matter. -/
theorem marked (h : d.Agrees s address) (iterating : Bool) (counters : Counters) :
    d.Agrees { s with iterating, counters } address := by
  refine ⟨?_, h.placed.congr (s.linked_marked _ _), fun hd => (h.sound hd).congr rfl rfl rfl rfl,
    fun n hn => (h.detached n hn).marked _ _, ?_⟩
  · rw [Storage.linked_marked]
    exact h.lists.congr rfl fun m _ b hb => ⟨b, hb, rfl, rfl⟩
  · rw [Storage.linked_marked]
    exact h.on_list

end Deleter.Agrees

namespace Contest

open Race

variable {ι : Type} {c c' c₀ : Contest ι} {i : ι} {L seen : List Nat} {m n : Nat}

/-! ## The invariant -/

/-- A pass that is alive agrees with the storage. -/
structure Iterated (c : Contest ι) : Prop where
  flagged : c.storage.iterating = true
  phase : c.toRace.Unstarted ∨ ∃ L, c.toRace.Started L
  /-- Who has read the head of the list has seen a rest of the list that now is, though it may come
  too late to start the pass there. -/
  reading : ∀ i head seen, c.worker i = .starting head seen →
    head = seen.head? ∧ seen <:+ c.storage.linked

/-- **What holds at any moment of a contest.** -/
structure Inv (c : Contest ι) : Prop where
  agrees : c.deleter.Agrees c.storage c.address
  iterated : c.alive = true → c.Iterated

/-- The contest `c'` is `c` after a step that keeps the invariant and, where the pass is alive, the
list. -/
structure Kept (c c' : Contest ι) : Prop where
  inv : c'.Inv
  linked : c.alive = true → c.storage.linked <:+ c'.storage.linked

/-- Where no deletion is under way the storage is sound. -/
theorem Inv.sound (h : c.Inv) (hidle : c.deleter = .idle) : c.storage.Sound :=
  h.agrees.sound (by rw [hidle]; rfl)

/-- A pass can live with a change that leaves the list as it was but for new blocks in front. -/
theorem Inv.mutate {s : Storage} {address : Nat → Address} {d : Deleter} (h : c.Inv)
    (hagrees : d.Agrees s address) (hflag : s.iterating = c.storage.iterating)
    (hlinked : c.alive = true → c.storage.linked <:+ s.linked) :
    Kept c { c with storage := s, address := address, deleter := d } := by
  refine ⟨⟨hagrees, fun halive => ?_⟩, hlinked⟩
  obtain ⟨hflagged, hphase, hreading⟩ := h.iterated halive
  exact ⟨hflag.trans hflagged, phase_of_suffix hphase (hlinked halive), fun i head seen hi =>
    ⟨(hreading i head seen hi).1, (hreading i head seen hi).2.trans (hlinked halive)⟩⟩

/-! ## Turns of the deletion -/

/-- A deletion that has no block detached can be over. -/
theorem Inv.close (h : c.Inv) (hd : c.deleter.detached? = none) (deleted : Nat) (inhibited : Bool) :
    Kept c (c.close deleted inhibited) := by
  refine h.mutate (.idle ((h.agrees.sound hd).congr rfl rfl rfl rfl) ?_) rfl fun _ => ?_
  · exact h.agrees.placed.congr (c.storage.linked_marked _ _)
  · exact ⟨[], (c.storage.linked_marked _ _).symm⟩

/-- **A turn of the deletion** succeeds.  It unlinks no block while the pass is alive. -/
theorem Inv.turn (h : c.Inv) : ∃ c', c.turn = .ok c' ∧ Kept c c' := by
  obtain ⟨rest, hsuf, hrest⟩ := h.agrees.on_list
  rcases hd : c.deleter with _ | ⟨_ | n, deleted⟩ | ⟨n, next, deleted⟩
  · exact ⟨c, by simp [Contest.turn, hd], h, fun _ => List.suffix_refl _⟩
  · exact ⟨_, by simp only [Contest.turn, hd], h.close (by rw [hd]; rfl) deleted false⟩
  · have hsound := h.agrees.sound (by rw [hd]; rfl)
    rw [hd] at hrest
    obtain ⟨rest, rfl⟩ := List.head?_eq_some_iff.1 hrest.symm
    obtain ⟨i, hi, hnext, ⟨hfinding, hstorage⟩ | ⟨hfinding, hflag, hdetached, hshape, hsuf'⟩⟩ :=
      hsound.inspect_ok hsuf true
    · -- the block is left alone, and the deletion goes on or gives way
      have hlooking : (Deleter.looking i.next deleted).Agrees c.storage c.address := by
        rw [hnext]
        exact .looking hsound h.agrees.placed ((List.suffix_cons n rest).trans hsuf)
      rcases hf : i.finding with _ | _ | _
      · refine ⟨{ c with storage := i.storage, deleter := .looking i.next deleted }, by
          simp [Contest.turn, hd, hi, hf, bind, Except.bind, pure, Except.pure], ?_⟩
        rw [hstorage]
        exact h.mutate hlooking rfl fun _ => List.suffix_refl _
      · refine ⟨{ c with storage := i.storage }.close deleted true, by
          simp [Contest.turn, hd, hi, hf, bind, Except.bind, pure, Except.pure], ?_⟩
        rw [hstorage]
        exact h.close (by rw [hd]; rfl) deleted true
      · exact absurd hf hfinding
    · -- the block is unlinked, so the flag was found clear and the pass is not alive
      have hdead : c.alive ≠ true := fun halive => by
        simp [(h.iterated halive).flagged] at hflag
      refine ⟨{ c with storage := i.storage, deleter := .reclaiming n i.next deleted }, by
        simp [Contest.turn, hd, hi, hfinding, bind, Except.bind, pure, Except.pure],
        ⟨.unlinked hshape hdetached ?_ ?_ hnext, fun halive => absurd halive hdead⟩,
        fun halive => absurd halive hdead⟩
      · exact h.agrees.placed.subset (by rw [hshape.linked_eq]; exact List.erase_subset)
      · rwa [hshape.linked_eq]
  · -- freeing the detached block leaves the list alone
    have hdetached := h.agrees.detached n (by rw [hd]; rfl)
    obtain ⟨s', hreclaim, hsound⟩ := hdetached.reclaim
    have hlinked := (h.agrees.lists.shape.reclaim hdetached.unlinked hreclaim).linked_eq
    have hflag : s'.iterating = c.storage.iterating := by
      obtain ⟨b, -, rfl⟩ := Storage.reclaim_inv hreclaim
      rfl
    rw [hd] at hrest
    refine ⟨{ c with storage := s', deleter := .looking next (deleted + 1) }, by
      simp [Contest.turn, hd, hreclaim, bind, Except.bind, pure, Except.pure], h.mutate ?_ hflag ?_⟩
    · rw [show next = rest.head? from hrest]
      exact .looking hsound (h.agrees.placed.congr hlinked) (by rwa [hlinked])
    · exact fun _ => ⟨[], hlinked.symm⟩

/-! ## Steps of everybody else -/

/-- **A pass begins** where none is alive, and nothing happens where one is. -/
theorem Inv.beginPass (h : c.Inv) (access : Access) : Kept c (c.beginPass access) := by
  by_cases hflag : c.storage.iterating = true
  · rw [Contest.beginPass, if_pos hflag]
    exact ⟨h, fun _ => List.suffix_refl _⟩
  · have hdead : c.alive ≠ true := fun halive => hflag (h.iterated halive).flagged
    rw [Contest.beginPass, if_neg hflag]
    refine ⟨⟨h.agrees.marked _ _, fun _ => ⟨rfl, Or.inl ?_, fun i head seen hi => ?_⟩⟩,
      fun halive => absurd halive hdead⟩
    · exact ⟨rfl, rfl, rfl, rfl, rfl, rfl, fun i => Or.inl rfl⟩
    · cases hi

/-- **A pass that is alive can end.** -/
theorem Inv.endPass (h : c.Inv) (halive : c.alive = true) :
    ∃ c', c.endPass = .ok c' ∧ Kept c c' := by
  have hflag := (h.iterated halive).flagged
  refine ⟨{ c with storage := { c.storage with iterating := false }, alive := false },
    by rw [Contest.endPass, if_pos hflag], ⟨h.agrees.marked false _, fun hdead => ?_⟩,
    fun _ => ⟨[], (c.storage.linked_marked _ _).symm⟩⟩
  cases hdead

variable [DecidableEq ι]

/-- **A worker of a pass that is alive can take its step**, whatever the deletion is at. -/
theorem Inv.work (h : c.Inv) (halive : c.alive = true) (i : ι) (spurious : Bool) :
    ∃ r, c.toRace.work i spurious = .ok r ∧ Kept c { c with toRace := r } ∧
      ∀ L, c.pinned = some L → r.pinned = some L := by
  obtain ⟨hflagged, hphase, hreading⟩ := h.iterated halive
  obtain ⟨r, hwork, hstorage, haddress, hphase', hpinned⟩ :=
    work_ok h.agrees.lists h.agrees.placed hphase i spurious
  refine ⟨r, hwork, ⟨⟨?_, fun _ => ⟨?_, hphase', fun j head seen hj => ?_⟩⟩, fun _ => ?_⟩, hpinned⟩
  · change c.deleter.Agrees r.storage r.address
    rw [hstorage, haddress]
    exact h.agrees
  · change r.storage.iterating = true
    rw [hstorage, hflagged]
  · obtain ⟨place, hworker, hread, -⟩ := work_starting hwork
    change r.worker j = _ at hj
    change _ ∧ seen <:+ r.storage.linked
    rw [hworker, Function.update_apply] at hj
    rw [hstorage]
    split at hj
    · obtain ⟨-, rfl, rfl⟩ := hread head seen hj
      exact ⟨h.agrees.lists.head_eq, List.suffix_refl _⟩
    · exact hreading j head seen hj
  · change c.storage.linked <:+ r.storage.linked
    rw [hstorage]

/-- **Every permitted step succeeds.** -/
theorem Inv.act {a : Action ι} (h : c.Inv) (ha : c.Permits a) :
    ∃ c', c.act a = .ok c' ∧ Kept c c' := by
  cases a with
  | beginPass access => exact ⟨_, rfl, h.beginPass access⟩
  | endPass => exact h.endPass ha
  | work i spurious =>
      obtain ⟨r, hwork, hkept, -⟩ := h.work ha i spurious
      exact ⟨_, by simp only [Contest.act, hwork]; rfl, hkept⟩
  | allocate a =>
      obtain ⟨hidle, hblock, hfree⟩ := ha
      obtain ⟨s, address, hact, hsound, hframe, hplaced, hlinked⟩ :=
        allocate_ok (h.sound hidle) h.agrees.placed hblock hfree
      refine ⟨_, by simp only [Contest.act, hact]; rfl,
        h.mutate ?_ hframe.iterating_eq fun _ => hlinked⟩
      rw [hidle]
      exact .idle hsound hplaced
  | release p =>
      obtain ⟨hidle, hp⟩ := ha
      obtain ⟨s, hact, hsound, hframe, hlinked⟩ := release_ok (h.sound hidle) hp
      refine ⟨_, by simp only [Contest.act, hact]; rfl, h.mutate ?_ hframe.iterating_eq
        fun _ => ⟨[], hlinked.symm⟩⟩
      rw [hidle]
      exact .idle hsound (h.agrees.placed.congr hlinked)
  | beginDeletion =>
      have hsound := h.sound ha
      refine ⟨_, rfl, h.mutate ?_ rfl fun _ => List.suffix_refl _⟩
      rw [hsound.lists.head_eq]
      exact .looking hsound h.agrees.placed (List.suffix_refl _)
  | turn => exact h.turn

/-- **A whole run** keeps the invariant. -/
theorem Run.inv {actions : List (Action ι)} (hrun : Run c actions c') (h : c.Inv) : c'.Inv := by
  induction hrun with
  | nil => exact h
  | snoc a _ ha heq ih =>
      obtain ⟨c₂, heq₂, hkept⟩ := ih.act ha
      obtain rfl := Except.ok.inj (heq.symm.trans heq₂)
      exact hkept.inv

/-! ## The start of a pass, looked back upon -/

variable {actions : List (Action ι)} {a : Action ι}

/-- Worker `i` has read the head of the list for the pass that is alive, when the list was `seen`,
and has not moved since. -/
def HasRead (c₀ : Contest ι) (actions : List (Action ι)) (i : ι) (seen : List Nat) : Prop :=
  ∃ before between spurious m, actions = before ++ .work i spurious :: between ∧
    Run c₀ before m ∧ m.alive = true ∧ m.worker i = .reading ∧ m.storage.linked = seen ∧
    .endPass ∉ between ∧ ∀ spurious, .work i spurious ∉ between

/-- The worker that has started the pass that is alive had read the head of the list for it, when
the list was `L`. -/
def StartedOn (c₀ : Contest ι) (actions : List (Action ι)) (L : List Nat) : Prop :=
  ∃ before later i spurious m head, actions = before ++ .work i spurious :: later ∧
    Run c₀ before m ∧ m.worker i = .starting head L ∧ m.pass.cursor = .notStarted ∧
    HasRead c₀ before i L ∧ .endPass ∉ later

/-- Who is about to start the pass has read the head of the list, and who has started it had. -/
structure Remembers (c₀ : Contest ι) (actions : List (Action ι)) (c : Contest ι) : Prop where
  reading : c.alive = true → ∀ i head seen, c.worker i = .starting head seen →
    HasRead c₀ actions i seen
  started : c.alive = true → ∀ L, c.pinned = some L → StartedOn c₀ actions L

theorem HasRead.snoc (h : HasRead c₀ actions i seen) (ha : ∀ spurious, a ≠ .work i spurious)
    (hend : a ≠ .endPass) : HasRead c₀ (actions ++ [a]) i seen := by
  obtain ⟨before, between, spurious, m, hactions, hrun, halive, hreading, hseen, hgoes, hstays⟩ := h
  refine ⟨before, between ++ [a], spurious, m, by simp [hactions], hrun, halive, hreading,
    hseen, ?_, fun spurious hmem => ?_⟩
  · simp [hgoes, hend.symm]
  · rcases List.mem_append.1 hmem with hmem | hmem
    · exact hstays spurious hmem
    · exact ha spurious (List.mem_singleton.1 hmem).symm

theorem StartedOn.snoc (h : StartedOn c₀ actions L) (hend : a ≠ .endPass) :
    StartedOn c₀ (actions ++ [a]) L := by
  obtain ⟨before, later, i, spurious, m, head, hactions, hrun, hi, hcursor, hread, hgoes⟩ := h
  exact ⟨before, later ++ [a], i, spurious, m, head, by simp [hactions], hrun, hi, hcursor, hread,
    by simp [hgoes, hend.symm]⟩

omit [DecidableEq ι] in
/-- What the deletion does means nothing for the pass. -/
theorem turn_pass (h : c.turn = .ok c') :
    c'.alive = c.alive ∧ c'.worker = c.worker ∧ c'.pinned = c.pinned := by
  rcases hd : c.deleter with _ | ⟨_ | n, deleted⟩ | ⟨n, next, deleted⟩ <;>
    simp only [Contest.turn, hd] at h
  · obtain rfl := Except.ok.inj h
    exact ⟨rfl, rfl, rfl⟩
  · obtain rfl := Except.ok.inj h
    exact ⟨rfl, rfl, rfl⟩
  · obtain ⟨i, -, hi⟩ := bind_eq_ok h
    rcases hf : i.finding with _ | _ | _ <;> simp only [hf] at hi <;>
      obtain rfl := Except.ok.inj hi <;> exact ⟨rfl, rfl, rfl⟩
  · obtain ⟨s, -, hs⟩ := bind_eq_ok h
    obtain rfl := Except.ok.inj hs
    exact ⟨rfl, rfl, rfl⟩

omit [DecidableEq ι] in
/-- A step of the race that succeeds is one of the contest. -/
theorem map_eq_ok {x : Except Fault (Race ι)}
    (h : (x.map fun r => { c with toRace := r }) = .ok c') :
    ∃ r, x = .ok r ∧ c' = { c with toRace := r } := by
  rcases x with f | r
  · cases h
  · exact ⟨r, rfl, (Except.ok.inj h).symm⟩

/-- What mutators and deletions do means nothing for the pass. -/
theorem act_pass (h : c.act a = .ok c') (hbegin : ∀ access, a ≠ .beginPass access)
    (hend : a ≠ .endPass) (hwork : ∀ i spurious, a ≠ .work i spurious) :
    c'.alive = c.alive ∧ c'.worker = c.worker ∧ c'.pinned = c.pinned := by
  cases a with
  | beginPass access => exact absurd rfl (hbegin access)
  | endPass => exact absurd rfl hend
  | work i spurious => exact absurd rfl (hwork i spurious)
  | allocate a =>
      obtain ⟨r, hr, rfl⟩ := map_eq_ok h
      exact ⟨rfl, act_of_ne_work (by simp) hr⟩
  | release p =>
      obtain ⟨r, hr, rfl⟩ := map_eq_ok h
      exact ⟨rfl, act_of_ne_work (by simp) hr⟩
  | beginDeletion =>
      obtain rfl := Except.ok.inj h
      exact ⟨rfl, rfl, rfl⟩
  | turn => exact turn_pass h

/-- A step that leaves the pass alone leaves what can be looked back upon. -/
theorem Remembers.same (h : Remembers c₀ actions c) (halive : c'.alive = c.alive)
    (hworker : c'.worker = c.worker) (hpinned : c'.pinned = c.pinned) (hend : a ≠ .endPass)
    (hwork : ∀ i spurious, a ≠ .work i spurious) : Remembers c₀ (actions ++ [a]) c' := by
  constructor
  · intro halive' i head seen hi
    rw [halive] at halive'
    rw [hworker] at hi
    exact (h.reading halive' i head seen hi).snoc (hwork i) hend
  · intro halive' L hL
    rw [halive] at halive'
    rw [hpinned] at hL
    exact (h.started halive' L hL).snoc hend

/-- One step more to look back upon. -/
theorem Remembers.snoc (h : Remembers c₀ actions c) (hrun : Run c₀ actions c) (hinv : c.Inv)
    (ha : c.Permits a) (hact : c.act a = .ok c') : Remembers c₀ (actions ++ [a]) c' := by
  cases a with
  | beginPass access =>
      obtain rfl := Except.ok.inj hact
      by_cases hflag : c.storage.iterating = true
      · rw [Contest.beginPass, if_pos hflag]
        exact h.same rfl rfl rfl (by simp) (by simp)
      · rw [Contest.beginPass, if_neg hflag]
        constructor
        · intro _ i head seen hi
          cases hi
        · intro _ L hL
          cases hL
  | endPass =>
      have hdead : c'.alive ≠ true := by
        rw [Contest.act, Contest.endPass, if_pos (hinv.iterated ha).flagged] at hact
        obtain rfl := Except.ok.inj hact
        simp
      exact ⟨fun halive => absurd halive hdead, fun halive => absurd halive hdead⟩
  | work i spurious =>
      obtain ⟨r, hr, rfl⟩ := map_eq_ok hact
      have halive : c.alive = true := ha
      obtain ⟨place, hworker, hreading, hpinned⟩ := work_starting hr
      constructor
      · intro _ j head seen hj
        change r.worker j = _ at hj
        rw [hworker, Function.update_apply] at hj
        split at hj
        · rename_i hji
          obtain ⟨hi, -, hseen⟩ := hreading head seen hj
          exact ⟨actions, [], spurious, c, by simp [hji], hrun, halive, by rw [hji, hi], hseen.symm,
            by simp, by simp⟩
        · rename_i hji
          exact (h.reading halive j head seen hj).snoc
            (fun _ heq => hji (Action.work.inj heq).1.symm) (by simp)
      · intro _ L hL
        change r.pinned = some L at hL
        rcases (hinv.iterated halive).phase with hu | ⟨L₀, hs⟩
        · rcases hpinned with heq | ⟨head, seen, hi, heq⟩
          · rw [heq, hu.pinned] at hL
            cases hL
          · obtain rfl := Option.some.inj (heq.symm.trans hL)
            exact ⟨actions, [], i, spurious, c, head, rfl, hrun, hi, hu.cursor,
              h.reading halive i head _ hi, by simp⟩
        · obtain ⟨r', hr', -, hkept⟩ := hinv.work halive i spurious
          obtain rfl := Except.ok.inj (hr.symm.trans hr')
          obtain rfl := Option.some.inj ((hkept L₀ hs.pinned).symm.trans hL)
          exact (h.started halive _ hs.pinned).snoc (by simp)
  | allocate a | release p | beginDeletion | turn =>
      obtain ⟨halive, hworker, hpinned⟩ := act_pass hact (by simp) (by simp) (by simp)
      exact h.same halive hworker hpinned (by simp) (by simp)

/-- **Every run can be looked back upon** to the start of the pass that is alive. -/
theorem Run.remembers (hrun : Run c₀ actions c) (hinv : c₀.Inv) (hnew : Remembers c₀ [] c₀) :
    Remembers c₀ actions c := by
  induction hrun with
  | nil => exact hnew
  | snoc a hrun ha hact ih => exact ih.snoc hrun (hrun.inv hinv) ha hact

/-! ## What is said of a contest -/

/-- A block that the pass may follow next, or that it has claimed. -/
def InSight (c : Contest ι) (m : Nat) : Prop :=
  c.pass.cursor = .upcoming (some m) ∨ (∃ i, m ∈ (c.worker i).inHand) ∨ m ∈ c.won.map Prod.snd

namespace Iterated

omit [DecidableEq ι]

/-- Everything that a pass has in sight is linked. -/
theorem mem_of_inSight (h : c.Iterated) (hm : c.InSight m) : m ∈ c.storage.linked := by
  have hread : ∀ i head seen, c.worker i = .starting head seen → head = some m →
      m ∈ c.storage.linked := fun i head seen hi hhead => by
    obtain ⟨heq, hsuf⟩ := h.reading i head seen hi
    exact hsuf.subset (List.mem_of_mem_head? (heq.symm.trans hhead))
  rcases h.phase with hu | ⟨L, hs⟩
  · rcases hm with hm | ⟨i, hm⟩ | hm
    · simp [hu.cursor] at hm
    · rcases hu.worker i with hi | hi | ⟨seen, hi, -⟩ <;> rw [hi] at hm
      · cases hm
      · cases hm
      · exact hread i _ seen hi (Option.mem_toList.1 hm)
    · simp [hu.won] at hm
  · obtain ⟨rest, hrest, -⟩ := hs.cursor
    rcases hm with hm | ⟨i, hm⟩ | hm
    · exact hs.valid m hm
    · exact hs.mem_of_inHand (h.reading i) hm
    · exact hs.suffix.subset (by rw [hrest]; exact List.mem_append_left _ hm)

/-- Where the pass is pinned to a list it was started there. -/
theorem started (h : c.Iterated) (hL : c.pinned = some L) : c.toRace.Started L := by
  rcases h.phase with hu | ⟨L', hs⟩
  · simp [hu.pinned] at hL
  · obtain rfl := Option.some.inj (hs.pinned.symm.trans hL)
    exact hs

/-- Before that nothing is claimed. -/
theorem waits (h : c.Iterated) (hnone : c.pinned = none) :
    c.pass.cursor = .notStarted ∧ c.won = [] ∧ c.returned = [] ∧ c.exhausted = [] := by
  rcases h.phase with hu | ⟨L, hs⟩
  · exact ⟨hu.cursor, hu.won, hu.returned, hu.exhausted⟩
  · simp [hs.pinned] at hnone

theorem given (h : c.Iterated) (i : ι) (n : Nat) :
    (i, n) ∈ c.won ↔ (i, n) ∈ c.returned ∨ c.worker i = .counting n := by
  rcases h.phase with hu | ⟨L, hs⟩
  · rcases hu.worker i with hi | hi | ⟨seen, hi, -⟩ <;> simp [hu.won, hu.returned, hi]
  · exact hs.won i n

theorem once (h : c.Iterated) : (c.returned.map Prod.snd).Nodup := by
  rcases h.phase with hu | ⟨L, hs⟩
  · simp [hu.returned]
  · exact hs.returned

theorem exhausts (h : c.Iterated) (hne : c.exhausted ≠ []) :
    ∃ L, c.pinned = some L ∧ c.won.map Prod.snd = L := by
  rcases h.phase with hu | ⟨L, hs⟩
  · exact absurd hu.exhausted hne
  · exact ⟨L, hs.pinned, hs.exhausted hne⟩

/-- A worker that exchanges the cursor compares it with a block that is still linked. -/
theorem no_reuse (h : c.Iterated) (hplaced : Placed c.storage c.address) {next : Option Nat}
    (hi : c.worker i = .moving n next) (new : Cursor) :
    c.compareExchange (.upcoming (some n)) new = c.pass.moveCursor (.upcoming (some n)) new := by
  rcases h.phase with hu | ⟨L, hs⟩
  · rcases hu.worker i with hi' | hi' | ⟨seen, hi', -⟩ <;> simp [hi] at hi'
  · refine compareExchange_eq hplaced hs.valid (fun m hm => ?_) new
    obtain rfl := Option.some.inj (Cursor.upcoming.inj hm)
    exact h.mem_of_inSight (Or.inr (Or.inl ⟨i, by simp [hi, Worker.inHand]⟩))

end Iterated

omit [DecidableEq ι] in
/-- The blocks in memory in the middle of a deletion. -/
theorem Inv.mem_memory_iff (h : c.Inv) (n : Nat) : (∃ b, c.storage.blocks.get? n = some b) ↔
    n ∈ c.storage.linked ∨ c.deleter.detached? = some n := by
  rcases hd : c.deleter.detached? with _ | m
  · rw [← (h.agrees.sound hd).mem_linked_iff]
    simp
  · rw [(h.agrees.detached m hd).mem_memory_iff h.agrees.lists]
    simp [eq_comm]

/-- **What is said of a contest** that these actions have led from `c₀` to `c`. -/
structure Undisturbed (c₀ : Contest ι) (actions : List (Action ι)) (c : Contest ι) : Prop where
  /-- Whoever takes a step next, it succeeds: no number is followed to a block that has been freed,
  and no pass ends that finds its flag cleared. -/
  succeeds : ∀ a, c.Permits a → ∃ c', c.act a = .ok c'
  /-- While a pass is alive no other begins. -/
  alone : c.alive = true → ∀ access, c.beginPass access = c
  /-- While a pass is alive no block is unlinked: whatever step is taken, the list stays as it is
  but for a new block in front. -/
  keeps : c.alive = true → ∀ a c', c.Permits a → c.act a = .ok c' →
    c.storage.linked <:+ c'.storage.linked
  /-- Whatever can be reached from a block that the pass has in sight is linked and has not been
  freed. -/
  reachable : c.alive = true → ∀ m n, c.InSight m → c.storage.Reaches m n →
    n ∈ c.storage.linked ∧ ∃ b, c.storage.blocks.get? n = some b
  /-- The pass was started on the list as it was when the worker that has started it read its head,
  while this pass was alive. -/
  started : c.alive = true → ∀ L, c.pinned = some L → StartedOn c₀ actions L
  /-- Nothing is claimed before. -/
  waits : c.alive = true → c.pinned = none →
    c.pass.cursor = .notStarted ∧ c.won = [] ∧ c.returned = [] ∧ c.exhausted = []
  /-- What has been claimed of that list is a prefix of it, and the cursor stands behind. -/
  in_order : c.alive = true → ∀ L, c.pinned = some L →
    ∃ rest, L = c.won.map Prod.snd ++ rest ∧ c.pass.cursor = .upcoming rest.head?
  /-- A worker is given what it has claimed, once it has counted it. -/
  given : c.alive = true → ∀ i n,
    (i, n) ∈ c.won ↔ (i, n) ∈ c.returned ∨ c.worker i = .counting n
  /-- No block is given twice. -/
  once : c.alive = true → (c.returned.map Prod.snd).Nodup
  /-- When a worker has found no block left, the prefix is the whole list. -/
  exhausts : c.alive = true → c.exhausted ≠ [] → ∃ L, c.pinned = some L ∧ c.won.map Prod.snd = L
  /-- That the cursor is at the same address means that it is at the same block. -/
  no_reuse : c.alive = true → ∀ i n next, c.worker i = .moving n next → ∀ new,
    c.compareExchange (.upcoming (some n)) new = c.pass.moveCursor (.upcoming (some n)) new
  /-- The pointers spell a list that is whole, also between two turns of a deletion. -/
  shape : c.storage.Shape c.storage.linked
  /-- In memory are the blocks of the list and the one that a deletion is about to free. -/
  memory : ∀ n, (∃ b, c.storage.blocks.get? n = some b) ↔
    n ∈ c.storage.linked ∨ c.deleter.detached? = some n
  /-- That one is not in the list any more. -/
  detached : ∀ n, c.deleter.detached? = some n → n ∉ c.storage.linked
  /-- The block that a deletion looks at next is linked and has not been freed. -/
  saved : ∀ n, c.deleter.next? = some n →
    n ∈ c.storage.linked ∧ ∃ b, c.storage.blocks.get? n = some b
  /-- Where no deletion is under way, nothing is amiss. -/
  settled : c.deleter = .idle → c.storage.Sound

/-- The invariant and what can be looked back upon say all of it. -/
theorem Inv.undisturbed (h : c.Inv) (hmemory : Remembers c₀ actions c) :
    Undisturbed c₀ actions c := by
  have hinMemory : ∀ n ∈ c.storage.linked, ∃ b, c.storage.blocks.get? n = some b :=
    fun n hn => (h.mem_memory_iff n).2 (Or.inl hn)
  exact {
    succeeds := fun a ha => by
      obtain ⟨c', hact, -⟩ := h.act ha
      exact ⟨c', hact⟩
    alone := fun halive access => if_pos (h.iterated halive).flagged
    keeps := fun halive a c' ha hact => by
      obtain ⟨c₂, hact₂, hkept⟩ := h.act ha
      obtain rfl := Except.ok.inj (hact.symm.trans hact₂)
      exact hkept.linked halive
    reachable := fun halive m n hm hreach => by
      have hn := h.agrees.lists.shape.mem_of_reaches ((h.iterated halive).mem_of_inSight hm) hreach
      exact ⟨hn, hinMemory n hn⟩
    started := hmemory.started
    waits := fun halive => (h.iterated halive).waits
    in_order := fun halive L hL => ((h.iterated halive).started hL).cursor
    given := fun halive => (h.iterated halive).given
    once := fun halive => (h.iterated halive).once
    exhausts := fun halive => (h.iterated halive).exhausts
    no_reuse := fun halive i n next hi => (h.iterated halive).no_reuse h.agrees.placed hi
    shape := h.agrees.lists.shape
    memory := h.mem_memory_iff
    detached := fun n hn => (h.agrees.detached n hn).unlinked
    saved := fun n hn => by
      obtain ⟨rest, hsuf, hrest⟩ := h.agrees.on_list
      have hmem := hsuf.subset (List.mem_of_mem_head? (hrest.symm.trans hn))
      exact ⟨hmem, hinMemory n hmem⟩
    settled := h.sound }

/-- **No deletion disturbs a pass**: over any storage of any world that can be reached, however many
passes and deletions come one after the other, whoever takes the steps and in whatever order. -/
theorem no_pass_disturbed {w : World} {steps : List Step} {id : Nat} {s : Storage}
    {address : Nat → Address} {actions : List (Action ι)} (hrun : World.Run {} steps w)
    (hs : w.storages.get? id = some s) (hplaced : Placed s address)
    (hcontest : Run (calm s address) actions c) : Undisturbed (calm s address) actions c := by
  have hsound := ((hrun.sound .init).storages id s hs).2
  have hinv : (calm s address : Contest ι).Inv :=
    ⟨.idle hsound hplaced, fun halive => by cases halive⟩
  refine (hcontest.inv hinv).undisturbed (hcontest.remembers hinv ?_)
  exact ⟨fun halive => (by cases halive), fun halive => (by cases halive)⟩

/-- The second of two passes begins between the two turns by which a deletion unlinks and frees a
block, whose address is then used again.  One worker has read the head of the list between the turns
and claims that list; another one reads the new block there, at which the next deletion gives way,
and is too late. -/
theorem no_pass_disturbed_of_reuse :
    let events : List Event := .create {} :: List.replicate 65 (.allocate 1) ++ [.release 1 65]
    let address : Nat → Address := fun n => BitVec.ofNat 64 (1024 * n)
    let first : Action Bool := .work true false
    let second : Action Bool := .work false false
    let actions : List (Action Bool) :=
      [.beginPass .readOnly, .endPass, .beginDeletion, .turn, .beginPass .writable, first, first,
        .turn, .turn, .turn, .allocate 2048#64, second, second, .release ⟨3, 0⟩, .beginDeletion,
        .turn, .beginPass .readOnly, first, second] ++ List.replicate 6 first
    let w := ({} : World).afterAll events
    ∃ s c, w.storages.get? 1 = some s ∧
      (c.alive = true ∧ c.storage.linked = [3, 1] ∧ c.won = [(true, 1)] ∧ c.exhausted = [true]) ∧
      Undisturbed (calm s address) actions c := by
  intro events address first second actions w
  have hplay : ((w.storages.get? 1).bind fun s => ((calm s address).play actions).map fun c =>
      (c.alive, c.storage.linked, c.won, c.exhausted)) =
      some (true, [3, 1], [(true, 1)], [true]) := by decide +kernel
  obtain ⟨s, hs, hplay⟩ := Option.bind_eq_some_iff.1 hplay
  obtain ⟨c, hc, heq⟩ := Option.map_eq_some_iff.1 hplay
  have hall : (w.storages.get? 1).all fun s => decide (Placed s address) := by decide +kernel
  have hplaced : Placed s address := by simpa [hs] using hall
  refine ⟨s, c, hs, by simpa only [Prod.mk.injEq] using heq, ?_⟩
  exact no_pass_disturbed (World.run_trail events {} (by decide +kernel)) hs hplaced
    (run_play _ _ hc)

end Contest

end RootStore
