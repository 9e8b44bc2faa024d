import Mathlib
import RootStore.Proofs.Block.Entries

/-!
# A scan goes through a snapshot

Which indices a scan hands to its visitor is settled when it begins: the bits set then, lowest
first, up to the call that stops it.  What the visitor does to the block meanwhile decides only what
the later calls find there.

* `Block.map_index_initial`, `Block.map_index_eq`, `Block.goOn_of_earlier`, `Block.finished_iff` —
  the calls of a scan against the snapshot, and what it answers.
* `Block.Reused`, `Block.Run.reused` — what was released holds a value only if it has been handed
  out and written again.
* `Block.scans_snapshot` — **a scan goes through its snapshot**, whatever the visitor does.
-/

namespace RootStore

namespace Block

variable {σ : Type} {visit : Visitor σ} {b c : Block} {s : σ}

/-! ## The calls against the snapshot -/

theorem callsAlong_initial (rest : List SlotIndex) (b : Block) (s : σ) :
    (callsAlong visit rest b s).map (·.index) <+: rest := by
  induction rest generalizing b s with
  | nil => simp [callsAlong]
  | cons i rest ih =>
      rcases hv : visit i b s with ⟨b', s', _ | _⟩
      · simp [callsAlong, hv]
      · simpa [callsAlong, hv] using ih b' s'

theorem callsAlong_whole {rest : List SlotIndex}
    (h : ∀ v ∈ callsAlong visit rest b s, v.goOn = true) :
    (callsAlong visit rest b s).map (·.index) = rest := by
  induction rest generalizing b s with
  | nil => simp [callsAlong]
  | cons i rest ih =>
      rcases hv : visit i b s with ⟨b', s', _ | _⟩
      · simp [callsAlong, hv] at h
      · simp only [callsAlong, hv, ↓reduceIte, List.mem_cons, forall_eq_or_imp, true_and] at h
        simp [callsAlong, hv, ih h]

theorem callsAlong_earlier {rest : List SlotIndex} {earlier later : List (Visit σ)} {v : Visit σ}
    (h : callsAlong visit rest b s = earlier ++ v :: later) : ∀ u ∈ earlier, u.goOn = true := by
  induction rest generalizing b s earlier with
  | nil => simp [callsAlong] at h
  | cons i rest ih =>
      cases earlier with
      | nil => simp
      | cons first earlier =>
          rcases hv : visit i b s with ⟨b', s', _ | _⟩
          · simp [callsAlong, hv] at h
          · simp only [callsAlong, hv, ↓reduceIte, List.cons_append, List.cons.injEq] at h
            obtain ⟨rfl, hrest⟩ := h
            simpa using ih hrest

theorem visitInOrder_finished (rest : List SlotIndex) (b : Block) (s : σ) :
    (visitInOrder visit rest b s).2.2 = true ↔
      ∀ v ∈ callsAlong visit rest b s, v.goOn = true := by
  induction rest generalizing b s with
  | nil => simp [visitInOrder, callsAlong]
  | cons i rest ih =>
      rcases hv : visit i b s with ⟨b', s', _ | _⟩
      · simp [visitInOrder, callsAlong, hv]
      · simp [visitInOrder, callsAlong, hv, ih]

/-- The indices visited are the first of the snapshot. -/
theorem map_index_initial (visit : Visitor σ) (b : Block) (s : σ) :
    (b.visits visit s).map (·.index) <+: b.mask.indices := by
  rw [visits_eq]
  exact callsAlong_initial _ _ _

/-- Where no call stops the scan, the whole snapshot is visited. -/
theorem map_index_eq (h : ∀ v ∈ b.visits visit s, v.goOn = true) :
    (b.visits visit s).map (·.index) = b.mask.indices := by
  rw [visits_eq] at h ⊢
  exact callsAlong_whole h

/-- A call that others follow has let the scan go on. -/
theorem goOn_of_earlier {earlier later : List (Visit σ)} {v : Visit σ}
    (h : b.visits visit s = earlier ++ v :: later) : ∀ u ∈ earlier, u.goOn = true := by
  rw [visits_eq] at h
  exact callsAlong_earlier h

/-- **What a scan answers**: that no call stopped it. -/
theorem finished_iff (visit : Visitor σ) (b : Block) (s : σ) :
    (b.scan visit s).2.2 = true ↔ ∀ v ∈ b.visits visit s, v.goOn = true := by
  rw [visits_eq, scan_eq_visitInOrder]
  exact visitInOrder_finished _ _ _

/-- Nothing follows the call that stops the scan. -/
theorem last_of_stop {earlier later : List (Visit σ)} {v : Visit σ}
    (h : b.visits visit s = earlier ++ v :: later) (hstop : v.goOn = false) : later = [] := by
  cases later with
  | nil => rfl
  | cons next later =>
      have hsplit : b.visits visit s = (earlier ++ [v]) ++ next :: later := by simp [h]
      have hgo := goOn_of_earlier hsplit v (by simp)
      rw [hstop] at hgo
      cases hgo

/-- No index is visited twice. -/
theorem nodup_index (visit : Visitor σ) (b : Block) (s : σ) :
    ((b.visits visit s).map (·.index)).Nodup :=
  (map_index_initial visit b s).sublist.nodup (b.mask.pairwise_indices.imp fun hlt => ne_of_lt hlt)

/-- **An index of the snapshot is visited**, in use or not when its turn comes, unless a call at a
lower index has stopped the scan. -/
theorem visited_or_stopped {i : SlotIndex} (hi : b.inUse i = true) :
    (∃ v ∈ b.visits visit s, v.index = i) ∨
      ∃ v ∈ b.visits visit s, v.goOn = false ∧ v.index < i := by
  by_cases hall : ∀ v ∈ b.visits visit s, v.goOn = true
  · have hmem : i ∈ (b.visits visit s).map (·.index) := by
      rw [map_index_eq hall]
      exact Mask.mem_indices.2 hi
    exact .inl (List.mem_map.1 hmem)
  · push Not at hall
    obtain ⟨v, hv, hstop⟩ := hall
    by_cases hvisited : ∃ u ∈ b.visits visit s, u.index = i
    · exact .inl hvisited
    · refine .inr ⟨v, hv, by simpa using hstop, ?_⟩
      -- what is not visited comes after all that is, for the visits are the first of an ascending
      -- list
      obtain ⟨others, hothers⟩ := map_index_initial visit b s
      have hmem : i ∈ (b.visits visit s).map (·.index) ++ others := by
        rw [hothers]
        exact Mask.mem_indices.2 hi
      have hleft : i ∈ others :=
        (List.mem_append.1 hmem).resolve_left fun h => hvisited (List.mem_map.1 h)
      have hsorted := b.mask.pairwise_indices
      rw [← hothers] at hsorted
      exact (List.pairwise_append.1 hsorted).2.2 _ (List.mem_map_of_mem hv) _ hleft

/-! ## What was released in the meantime -/

variable {hand : Set SlotIndex} {steps : List Step} {i : SlotIndex}

/-- The entry was handed out and after that written. -/
def Reused (steps : List Step) (i : SlotIndex) : Prop :=
  ∃ earlier again between write later, steps = earlier ++ again :: (between ++ write :: later) ∧
    again.answer = .handedOut i ∧ write.op.Writes i

theorem Reused.append (h : Reused steps i) (more : List Step) : Reused (steps ++ more) i := by
  obtain ⟨earlier, again, between, write, later, rfl, hagain, hwrite⟩ := h
  exact ⟨earlier, again, between, write, later ++ more, by simp, hagain, hwrite⟩

/-- A slot that holds null holds a value only after it is written. -/
theorem load_perform_of_null {op : Op} (hnull : b.load i = none) (hop : ¬ op.Writes i) :
    (b.perform op).1.load i = none := by
  obtain ⟨j, rfl, -, -, he⟩ | ⟨rfl, -, he⟩ | ⟨j, rfl, he⟩ | ⟨j, v, rfl, he⟩ |
    ⟨j, expected, new, rfl, he⟩ := b.perform_cases op
  · rw [he]
    exact hnull
  · rw [he]
    exact hnull
  · rw [he, load_releaseEntry, hnull, ite_self]
  · have hne : i ≠ j := fun e => hop (.inl ⟨v, by rw [e]⟩)
    rw [he, load_store, if_neg hne, hnull]
  · have hne : i ≠ j := fun e => hop (.inr ⟨expected, new, by rw [e]⟩)
    rw [he, load_store, if_neg hne, hnull]

/-- An entry that is neither in use nor in hand is not written. -/
theorem Op.Permitted.not_writes {op : Op} (hp : op.Permitted hand b) (hfree : b.inUse i = false)
    (hi : i ∉ hand) : ¬ op.Writes i := by
  rintro (⟨v, rfl⟩ | ⟨expected, new, rfl⟩)
  all_goals
    rcases hp with huse | hin
    · rw [hfree] at huse
      cases huse
    · exact hi hin

/-- From a slot that is free and null: it stays so until it is handed out, and null until it is then
written. -/
theorem Run.free_until_reused (h : Run hand b steps c) (hi : i ∉ hand) (hfree : b.inUse i = false)
    (hnull : b.load i = none) :
    (c.inUse i = false ∧ c.load i = none) ∨
      ((∃ earlier again later, steps = earlier ++ again :: later ∧ again.answer = .handedOut i) ∧
        c.load i = none) ∨ Reused steps i := by
  induction h with
  | nil => exact .inl ⟨hfree, hnull⟩
  | @snoc c steps op _ hp ih =>
      obtain ⟨hfree, hnull⟩ | ⟨⟨earlier, again, later, rfl, hagain⟩, hnull⟩ | hreused := ih
      · have hstays := load_perform_of_null hnull (hp.not_writes hfree hi)
        by_cases huse : (c.perform op).1.inUse i = true
        · have hop := ((c.inUse_perform op i).1 huse).resolve_right (by simp [hfree])
          exact .inr (.inl ⟨⟨steps, _, [], rfl, by rw [hop]⟩, hstays⟩)
        · exact .inl ⟨by simpa using huse, hstays⟩
      · by_cases hwrites : op.Writes i
        · exact .inr (.inr ⟨earlier, again, later, ⟨op, (c.perform op).2⟩, [], by simp, hagain,
            hwrites⟩)
        · exact .inr (.inl ⟨⟨earlier, again, later ++ [⟨op, (c.perform op).2⟩], by simp, hagain⟩,
            load_perform_of_null hnull hwrites⟩)
      · exact .inr (.inr (hreused.append _))

/-- A run through a step is a run up to it and a run from there on. -/
theorem Run.split {earlier later : List Step} {st : Step}
    (h : Run hand b (earlier ++ st :: later) c) :
    ∃ d, Run hand b earlier d ∧ Run hand (d.perform st.op).1 later c := by
  generalize hall : earlier ++ st :: later = all at h
  induction h generalizing later with
  | nil => simp at hall
  | @snoc c steps op hrun hp ih =>
      rcases split_snoc hall.symm with ⟨rfl, rfl, rfl⟩ | ⟨later, rfl, rfl⟩
      · exact ⟨c, hrun, .nil⟩
      · obtain ⟨d, hbefore, hafter⟩ := ih rfl
        exact ⟨d, hbefore, .snoc op hafter hp⟩

/-- **What was released holds null**, unless it has been handed out and written again since. -/
theorem Run.reused {earlier later : List Step} {st : Step}
    (h : Run hand b (earlier ++ st :: later) c) (hi : i ∉ hand) (hst : st.op = .release i)
    (hload : c.load i ≠ none) : Reused later i := by
  obtain ⟨d, -, hafter⟩ := h.split
  rw [hst] at hafter
  have hfree : (d.perform (.release i)).1.inUse i = false := by simp [perform]
  have hnull : (d.perform (.release i)).1.load i = none := by simp [perform]
  obtain ⟨-, hnone⟩ | ⟨-, hnone⟩ | hreused := hafter.free_until_reused hi hfree hnull
  · exact absurd hnone hload
  · exact absurd hnone hload
  · exact hreused

/-! ## The scan -/

/-- **A scan that goes through its snapshot.** -/
structure ScansSnapshot (visit : Visitor σ) (b : Block) (s : σ) : Prop where
  /-- The visits are the calls that the scan makes: noting them down changes nothing. -/
  noted : b.scan (noting visit) (s, []) =
    ((b.scan visit s).1, ((b.scan visit s).2.1, b.visits visit s), (b.scan visit s).2.2)
  /-- Each call finds the block as the one before it has left it. -/
  threaded : Threaded visit b s (b.visits visit s) (b.scan visit s).1 (b.scan visit s).2.1
  /-- The snapshot: the bits set when the scan began, in ascending order. -/
  snapshot : b.mask.indices.Pairwise (· < ·) ∧ ∀ i, i ∈ b.mask.indices ↔ b.mask.contains i = true
  /-- The indices visited are the first of the snapshot. -/
  initial : (b.visits visit s).map (·.index) <+: b.mask.indices
  /-- None is visited twice. -/
  once : ((b.visits visit s).map (·.index)).Nodup
  /-- They are the whole snapshot, if no call stops the scan. -/
  whole : (∀ v ∈ b.visits visit s, v.goOn = true) →
    (b.visits visit s).map (·.index) = b.mask.indices
  /-- Otherwise they go up to the call that stops it, and include it. -/
  upTo : ∀ earlier v later, b.visits visit s = earlier ++ v :: later → v.goOn = false →
    later = [] ∧ ∀ u ∈ earlier, u.goOn = true
  /-- The answer is that no call stopped the scan. -/
  answer : (b.scan visit s).2.2 = true ↔ ∀ v ∈ b.visits visit s, v.goOn = true
  /-- An index outside of the snapshot is not visited, whatever has been allocated since. -/
  outside : ∀ v ∈ b.visits visit s, b.inUse v.index = true
  /-- An index of the snapshot is visited, whatever has been released since, unless a call at a
  lower index stopped the scan. -/
  inside : ∀ i, b.inUse i = true → (∃ v ∈ b.visits visit s, v.index = i) ∨
    ∃ v ∈ b.visits visit s, v.goOn = false ∧ v.index < i
  /-- A visitor that has worked on the block by its operations, each time with the entry that it was
  handed in hand, has brought a visit about by a run of them, in which only entries visited earlier
  were in hand. -/
  run : ∀ earlier v later, b.visits visit s = earlier ++ v :: later →
    Operates earlier (fun i => {i}) → ∃ steps, Run {j | ∃ u ∈ earlier, j = u.index} b steps v.before
  /-- In any such run, what was released before its visit holds null then, unless it has been handed
  out and written again since. -/
  released : ∀ earlier v later, b.visits visit s = earlier ++ v :: later →
    ∀ steps, Run {j | ∃ u ∈ earlier, j = u.index} b steps v.before →
      ∀ before st after, steps = before ++ st :: after → st.op = .release v.index →
        v.before.load v.index ≠ none → Reused after v.index

/-- **A scan goes through its snapshot**, for every block and every visitor. -/
theorem scans_snapshot (visit : Visitor σ) (b : Block) (s : σ) : ScansSnapshot visit b s where
  noted := b.scan_noting visit s
  threaded := b.threaded_visits visit s
  snapshot := ⟨b.mask.pairwise_indices, fun _ => Mask.mem_indices⟩
  initial := map_index_initial visit b s
  once := nodup_index visit b s
  whole := map_index_eq
  upTo := fun _ _ _ h hstop => ⟨last_of_stop h hstop, goOn_of_earlier h⟩
  answer := finished_iff visit b s
  outside := by
    intro v hv
    have hmem := (map_index_initial visit b s).subset (List.mem_map_of_mem hv)
    exact Mask.mem_indices.1 hmem
  inside := fun _ => visited_or_stopped
  run := by
    intro earlier v later hsplit hearlier
    have hthread := b.threaded_visits visit s
    rw [hsplit] at hthread
    exact run_of_threaded hearlier hthread.up_to
  released := by
    intro earlier v later hsplit steps hrun before st after hsteps hst hload
    have hnodup := nodup_index visit b s
    rw [hsplit, List.map_append, List.map_cons] at hnodup
    have hnew : v.index ∉ {j | ∃ u ∈ earlier, j = u.index} := by
      rintro ⟨u, hu, heq⟩
      exact (List.nodup_append.1 hnodup).2.2 u.index (List.mem_map_of_mem hu) v.index (by simp)
        heq.symm
    rw [hsteps] at hrun
    exact hrun.reused hnew hst hload

end Block

end RootStore
