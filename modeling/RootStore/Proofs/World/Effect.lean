import RootStore.Proofs.World.Transition

/-!
# The effect of an event on one storage, one pass and the iterations

An event in a sound world can go in many ways, but a single storage, a single pass and the stack of
iterations change in few ways each.

* `Storage.Changed` — how a storage can change.
* `World.Transition.storage_cases` — **a storage is new or has changed in one of these ways**, and
  keeps its linked blocks where it has a pass.
* `World.Transition.pass_cases` — a pass is pinned, claims a block, is gone or stays as it is.
* `World.Transition.calls_cases` — an iteration is entered or left, or the innermost one goes on.
* `World.Run.linked_suffix` — **while a pass is alive no block of its storage goes.**
-/

namespace RootStore

/-! ## Storages -/

/-- How a storage can change by an event. -/
inductive Storage.Changed (s s' : Storage) : Prop
  /-- An entry was allocated. -/
  | granted (p : Place) (h : s.Granted s' p)
  /-- An entry was released. -/
  | released (p : Place) (h : s.Written s' p none) (huse : ∀ q, s'.InUse q ↔ s.InUse q ∧ q ≠ p)
  /-- An entry was written. -/
  | written (p : Place) (v : Option Reference) (h : s.Written s' p v)
      (huse : ∀ q, s'.InUse q ↔ s.InUse q)
  /-- Empty blocks were deleted. -/
  | reduced (gone : List Nat) (h : s.Without s' gone)
  /-- At most the flag and the counters have changed. -/
  | marked (hid : s'.id = s.id) (hblocks : s'.blocks = s.blocks) (hhead : s'.head = s.head)
      (hqueue : s'.available = s.available)

namespace Storage.Changed

variable {s s' : Storage} {n : Nat}

/-- No number is handed out twice. -/
theorem size_le (h : s.Changed s') : s.blocks.size ≤ s'.blocks.size := by
  cases h with
  | granted p h => exact h.size_le
  | released p h => exact Nat.le_of_eq h.size_eq.symm
  | written p v h => exact Nat.le_of_eq h.size_eq.symm
  | reduced gone h => exact Nat.le_of_eq h.size_eq.symm
  | marked hid hblocks => rw [hblocks]

/-- A block that was not linked before has a new number. -/
theorem mem_linked (h : s.Changed s') (hn : n ∈ s'.linked) : n ∈ s.linked ∨ s.blocks.size < n := by
  cases h with
  | granted p h =>
      rcases h.linked_eq with heq | ⟨hsize, heq⟩
      · exact Or.inl (by rwa [heq] at hn)
      · rw [heq] at hn
        rcases List.mem_cons.1 hn with rfl | hmem
        · exact Or.inr (by omega)
        · exact Or.inl hmem
  | released p h => exact Or.inl (by rwa [h.linked_eq] at hn)
  | written p v h => exact Or.inl (by rwa [h.linked_eq] at hn)
  | reduced gone h =>
      rw [h.linked_eq] at hn
      exact Or.inl (List.mem_of_mem_filter hn)
  | marked hid hblocks hhead => exact Or.inl (by rwa [linked_congr hblocks hhead] at hn)

end Storage.Changed

/-- The step links a block of the storage: the block is linked after it and was not before. -/
def Step.Links (id n : Nat) (st : Step) : Prop :=
  ∃ s', st.after.storages.get? id = some s' ∧ n ∈ s'.linked ∧
    ∀ s, st.before.storages.get? id = some s → n ∉ s.linked

/-- The entry that an iteration takes up in a step of its own. -/
def Progress.entry? : Progress → Option Entry
  | .passedOver e | .asking e _ | .visiting e => some e
  | .claimed _ | .cleared _ | .finished => none

namespace World

variable {w w' : World} {e : Event} {r : Reply} {id i : Nat} {s s' : Storage} {q : Pass}

/-- What became of the storages: each is one that was there and has changed, or is new; one that has
a pass keeps its linked blocks, and no other storage is gone. -/
structure StoragesChanged (w : World) (e : Event) (w' : World) : Prop where
  /-- A storage was there and has changed, or is new. -/
  back : ∀ id s', w'.storages.get? id = some s' → (∃ s, w.storages.get? id = some s ∧
    s.Changed s' ∧ (w.hasPass id = true → s.linked <:+ s'.linked)) ∨
    id = w.storages.size + 1 ∧ ∃ settings, s' = Storage.make id settings
  /-- A storage is still there, or was dropped and had no pass. -/
  forth : ∀ id s, w.storages.get? id = some s →
    (∃ s', w'.storages.get? id = some s') ∨ e = .drop id ∧ w.hasPass id = false
  /-- No id is given twice. -/
  size_le : w.storages.size ≤ w'.storages.size

namespace StoragesChanged

theorem of_eq (h : w'.storages = w.storages) : StoragesChanged w e w' where
  back := fun id s' hs' => by
    rw [h] at hs'
    exact Or.inl ⟨s', hs', .marked rfl rfl rfl rfl, fun _ => List.suffix_refl _⟩
  forth := fun id s hs => Or.inl ⟨s, by rw [h, hs]⟩
  size_le := Nat.le_of_eq (by rw [h])

theorem of_set (hs : w.storages.get? id = some s) (h : w'.storages = w.storages.set id s')
    (hchanged : s.Changed s') (hkeeps : w.hasPass id = true → s.linked <:+ s'.linked) :
    StoragesChanged w e w' where
  back := fun m t ht => by
    rw [h, Registry.get?_set_of_some hs] at ht
    split at ht
    · rename_i hm
      obtain rfl := Option.some.inj ht
      exact Or.inl ⟨s, by rw [hm, hs], hchanged, by rwa [hm]⟩
    · exact Or.inl ⟨t, ht, .marked rfl rfl rfl rfl, fun _ => List.suffix_refl _⟩
  forth := fun m t ht => by
    rw [h, Registry.get?_set_of_some hs]
    split
    · exact Or.inl ⟨s', rfl⟩
    · exact Or.inl ⟨t, ht⟩
  size_le := Nat.le_of_eq (by rw [h, Registry.size_set])

end StoragesChanged

/-- **A storage is new or has changed in one of few ways.** -/
theorem Transition.storages (ht : Transition w e w' r) : StoragesChanged w e w' := by
  cases ht with
  | failed | refused | got | loaded | lost | forgotten | pinned | resumed | offered | claimed
  | finished | upheld | panicked => exact .of_eq rfl
  | created settings =>
      refine ⟨fun id s' hs' => ?_, fun id s hs => Or.inl ⟨s, ?_⟩, ?_⟩
      · unfold World.create at hs'
        rw [Registry.get?_add] at hs'
        split at hs'
        · rename_i hid
          obtain rfl := Option.some.inj hs'
          exact Or.inr ⟨hid, settings, by rw [hid]⟩
        · exact Or.inl ⟨s', hs', .marked rfl rfl rfl rfl, fun _ => List.suffix_refl _⟩
      · have := (Registry.bounds_of_get?_eq_some hs).2
        rw [World.create, Registry.get?_add, if_neg (by omega), hs]
      · simp [World.create]
  | @dropped id s s' hs hfree hdispose hgone =>
      refine ⟨fun m t ht => Or.inl ⟨t, ?_, .marked rfl rfl rfl rfl, fun _ => List.suffix_refl _⟩,
        fun m t ht => ?_, by simp⟩
      · rw [Registry.get?_erase] at ht
        split at ht
        · cases ht
        · exact ht
      · by_cases hm : m = id
        · exact Or.inr ⟨by rw [hm], by rw [hm]; exact hfree⟩
        · exact Or.inl ⟨t, by rw [Registry.get?_erase, if_neg hm, ht]⟩
  | granted hs halloc hgranted =>
      exact .of_set hs rfl (.granted _ hgranted) fun _ => (Storage.Keeps.of_granted hgranted).suffix
  | released hh hs hrelease hwritten huse =>
      exact .of_set hs rfl (.released _ hwritten huse)
        fun _ => (Storage.Keeps.of_written hwritten).suffix
  | written hh hs hstore hwritten huse =>
      exact .of_set hs rfl (.written _ _ hwritten huse)
        fun _ => (Storage.Keeps.of_written hwritten).suffix
  | deleted hs hdelete hwithout hgone hcount hfree =>
      refine .of_set hs rfl (.reduced _ hwithout) fun hpass => ?_
      rw [hfree hpass] at hwithout
      exact (Storage.Keeps.of_without hwithout).suffix
  | @began id concurrent access s hs hfree hflag =>
      refine .of_set hs rfl (.marked rfl rfl rfl rfl) fun hpass => ?_
      rw [hfree] at hpass
      cases hpass
  | @ended i q s hq hs hidle =>
      set s' : Storage := { s with iterating := s.iterating && !q.concurrent } with hs'
      have hlinked : s'.linked = s.linked := Storage.linked_congr rfl rfl
      refine .of_set hs (show _ = w.storages.set q.storage s' from rfl)
        (.marked rfl rfl rfl rfl) fun _ => ?_
      rw [hlinked]
  | cleared hcalls hstage hs hstore hwritten huse =>
      exact .of_set hs rfl (.written _ _ hwritten huse)
        fun _ => (Storage.Keeps.of_written hwritten).suffix
  | stored hs hstore hwritten huse =>
      exact .of_set hs rfl (.written _ _ hwritten huse)
        fun _ => (Storage.Keeps.of_written hwritten).suffix
  | exchanged hs hload hstore hwritten huse =>
      exact .of_set hs rfl (.written _ _ hwritten huse)
        fun _ => (Storage.Keeps.of_written hwritten).suffix

/-! ## Passes -/

/-- What became of a pass that was alive. -/
inductive PassChanged (w : World) (e : Event) (w' : World) (r : Reply) (i : Nat) (q : Pass) : Prop
  /-- It stands where it stood. -/
  | same (hq' : w'.passes.get? i = some q) (hclaim : ∀ n, r ≠ .progressed i (.claimed n))
      (hreturn : r = .progressed i .finished → q.cursor = .upcoming none)
  /-- It is gone. -/
  | gone (hq' : w'.passes.get? i = none) (hreply : ∀ progress, r ≠ .progressed i progress)
  /-- It was pinned. -/
  | pinned {s : Storage} (hs : w.storages.get? q.storage = some s)
      (hcursor : q.cursor = .notStarted)
      (hq' : w'.passes.get? i = some { q with cursor := .upcoming s.head })
      (hevent : ∃ method, e = .enter i method) (hreply : r = .done)
  /-- It claimed a block. -/
  | claimed {s : Storage} {n : Nat} {b : Block} (hs : w.storages.get? q.storage = some s)
      (hcursor : q.cursor = .upcoming (some n)) (hb : s.blocks.get? n = some b)
      (hq' : w'.passes.get? i =
        some { q with cursor := .upcoming b.next, claimed := q.claimed + 1 })
      (hreply : r = .progressed i (.claimed n))

/-- **A pass that is alive** stays as it is, or it is gone, or pinned, or has claimed a block. -/
theorem Transition.pass_cases (ht : Transition w e w' r) (hq : w.passes.get? i = some q) :
    PassChanged w e w' r i q := by
  cases ht with
  | failed | created | dropped | refused | granted | released | lost | got | written | deleted
  | panicked | loaded | stored | exchanged => exact .same hq (by simp) (by simp)
  | resumed | upheld | cleared => exact .same hq (by simp) (by simp)
  | offered =>
      rename_i c outer q' s k slot v hcalls hq' hs hscan hslot hload
      refine .same hq (fun n heq => ?_) fun heq => ?_
      all_goals
        rcases hm : c.method <;> rcases v <;> simp [Progress.offer, hm] at heq
  | began hs hfree hflag =>
      refine .same ?_ (by simp) (by simp)
      have := (Registry.bounds_of_get?_eq_some hq).2
      exact (Registry.get?_add _ _ _).trans ((if_neg (by omega)).trans hq)
  | @ended j q' s hq' hs hidle =>
      by_cases hij : i = j
      · exact .gone ((Registry.get?_erase _ _ _).trans (if_pos hij)) (by simp)
      · exact .same ((Registry.get?_erase _ _ _).trans ((if_neg hij).trans hq)) (by simp) (by simp)
  | @forgotten j q' hq' hidle =>
      by_cases hij : i = j
      · exact .gone ((Registry.get?_erase _ _ _).trans (if_pos hij)) (by simp)
      · exact .same ((Registry.get?_erase _ _ _).trans ((if_neg hij).trans hq)) (by simp) (by simp)
  | @pinned j method q' s hq' hs hcursor =>
      have hget := Registry.get?_set_of_some hq' { q' with cursor := .upcoming s.head } i
      by_cases hij : i = j
      · subst hij
        obtain rfl := Option.some.inj (hq.symm.trans hq')
        exact .pinned hs hcursor (hget.trans (if_pos rfl)) ⟨method, rfl⟩ rfl
      · exact .same (hget.trans ((if_neg hij).trans hq)) (by simp) (by simp)
  | @claimed c outer q' s n b hcalls hq' hs hdone hcursor hb =>
      have hget := Registry.get?_set_of_some hq'
        { q' with cursor := .upcoming b.next, claimed := q'.claimed + 1 } i
      by_cases hij : i = c.pass
      · subst hij
        obtain rfl := Option.some.inj (hq.symm.trans hq')
        exact .claimed hs hcursor hb (hget.trans (if_pos rfl)) rfl
      · refine .same (hget.trans ((if_neg hij).trans hq)) (fun m heq => ?_) (by simp)
        simp only [Reply.progressed.injEq] at heq
        exact hij heq.1.symm
  | @finished c outer q' s hcalls hq' hs hdone hcursor =>
      refine .same hq (by simp) fun heq => ?_
      simp only [Reply.progressed.injEq, and_true] at heq
      rw [heq] at hq'
      obtain rfl := Option.some.inj (hq.symm.trans hq')
      exact hcursor

/-- A pass that is gone stays so, and iterates no more. -/
theorem Transition.pass_gone (ht : Transition w e w' r) (h : w.Sound)
    (hi : w.passes.get? i = none) (hsize : i ≤ w.passes.size) :
    w'.passes.get? i = none ∧ ∀ progress, r ≠ .progressed i progress := by
  have hcall : ∀ c ∈ w.calls, c.pass ≠ i := by
    rintro c hc rfl
    obtain ⟨q, s, hq, -⟩ := h.calls c hc
    simp [hi] at hq
  cases ht with
  | failed | created | dropped | refused | granted | released | lost | got | written | deleted
  | resumed | panicked | loaded | stored | exchanged => exact ⟨hi, by simp⟩
  | began hs hfree hflag =>
      exact ⟨(Registry.get?_add _ _ _).trans ((if_neg (by omega)).trans hi), by simp⟩
  | ended hq hs hidle =>
      refine ⟨(Registry.get?_erase _ _ _).trans ?_, by simp⟩
      split
      · rfl
      · exact hi
  | forgotten hq hidle =>
      refine ⟨(Registry.get?_erase _ _ _).trans ?_, by simp⟩
      split
      · rfl
      · exact hi
  | @pinned j method q' s hq hs hcursor =>
      have hij : i ≠ j := by
        rintro rfl
        simp [hi] at hq
      exact ⟨(Registry.get?_set_of_some hq _ i).trans ((if_neg hij).trans hi), by simp⟩
  | @claimed c outer q' s n b hcalls hq hs hdone hcursor hb =>
      have hij := hcall c (by simp [hcalls])
      exact ⟨(Registry.get?_set_of_some hq _ i).trans ((if_neg (Ne.symm hij)).trans hi), by
        simp [hij]⟩
  | offered hcalls | finished hcalls | upheld hcalls | cleared hcalls =>
      have hij := hcall _ (by rw [hcalls]; exact List.mem_cons_self)
      exact ⟨hi, by simp [hij]⟩

/-- No pass id is given twice. -/
theorem Transition.passes_size_le (ht : Transition w e w' r) : w.passes.size ≤ w'.passes.size := by
  cases ht <;> simp [World.create, World.setStorage, World.setPass, World.record, World.spend]

/-! ## Iterations -/

/-- The entry that an iteration of the pass takes up, if that is what happens. -/
def taken? (p : Nat) : Event → Reply → Option Place
  | .advance, .progressed i progress => if i = p then progress.entry?.map (·.place) else none
  | _, _ => none

/-- What became of the iterations under way. -/
inductive CallsChanged (w : World) (e : Event) (w' : World) (r : Reply) : Prop
  /-- They are the same. -/
  | same (hcalls' : w'.calls = w.calls) (htaken : ∀ p, taken? p e r = none)
  /-- One was entered. -/
  | entered {c : Call} (hcalls' : w'.calls = c :: w.calls) (hscan : c.scanning = none)
      (htaken : ∀ p, taken? p e r = none)
  /-- The innermost one was left, by a panic or because no block was left. -/
  | left {c : Call} {outer : List Call} (hcalls : w.calls = c :: outer) (hcalls' : w'.calls = outer)
      (hwhy : e = .panic ∨ ∀ k, c.scanning = some k → k.snapshot = .empty)
      (htaken : ∀ p, taken? p e r = none)
  /-- The innermost one had a verdict. -/
  | judged {c : Call} {outer : List Call} {stage : Stage} (hcalls : w.calls = c :: outer)
      (hcalls' : w'.calls = { c with stage } :: outer) (htaken : ∀ p, taken? p e r = none)
  /-- The innermost one took up the lowest slot that was left of its snapshot. -/
  | offered {c : Call} {outer : List Call} {k : Pass.Claim} {slot : SlotIndex} {stage : Stage}
      (hcalls : w.calls = c :: outer) (hscan : c.scanning = some k)
      (hslot : k.snapshot.lowest? = some slot)
      (hcalls' : w'.calls = { c with
        scanning := some { k with snapshot := k.snapshot.dropLowest }, stage } :: outer)
      (htaken : ∀ p, taken? p e r = if c.pass = p then some ⟨k.block, slot⟩ else none)
  /-- The innermost one claimed a block, with the entries then in use as its snapshot. -/
  | claimed {c : Call} {outer : List Call} {q : Pass} {s : Storage} {n : Nat} {b : Block}
      (hcalls : w.calls = c :: outer) (hq : w.passes.get? c.pass = some q)
      (hs : w.storages.get? q.storage = some s) (hb : s.blocks.get? n = some b)
      (hdone : ∀ k, c.scanning = some k → k.snapshot = .empty)
      (hcalls' : w'.calls = { c with scanning := some ⟨n, b.mask⟩, stage := .ready } :: outer)
      (hreply : r = .progressed c.pass (.claimed n)) (htaken : ∀ p, taken? p e r = none)

/-- **The iterations under way change in few ways.** -/
theorem Transition.calls_cases (ht : Transition w e w' r) : CallsChanged w e w' r := by
  cases ht with
  | failed =>
      refine .same rfl fun p => ?_
      cases e <;> rfl
  | created | dropped | refused | granted | released | lost | got | written | deleted
  | began | ended | forgotten | loaded | stored | exchanged => exact .same rfl fun _ => rfl
  | pinned | resumed => exact .entered rfl rfl fun _ => rfl
  | @offered c outer q s k slot v hcalls hq hs hscan hslot hload =>
      refine .offered hcalls hscan hslot rfl fun p => ?_
      rcases hm : c.method <;> rcases v <;> simp [taken?, Progress.offer, Progress.entry?]
  | @claimed c outer q s n b hcalls hq hs hdone hcursor hb =>
      exact .claimed hcalls hq hs hb hdone rfl rfl fun p => by simp [taken?, Progress.entry?]
  | finished hcalls hq hs hdone hcursor =>
      exact .left hcalls rfl (Or.inr hdone) fun p => by simp [taken?, Progress.entry?]
  | upheld hcalls hstage => exact .judged hcalls rfl fun _ => rfl
  | cleared hcalls hstage hs hstore hwritten huse => exact .judged hcalls rfl fun _ => rfl
  | panicked hcalls hstage => exact .left hcalls rfl (Or.inl rfl) fun _ => rfl

/-! ## Along a run -/

namespace Run

variable {steps : List Step} {q' : Pass}

theorem storages_size_le (h : Run w steps w') (hw : w.Sound) :
    w.storages.size ≤ w'.storages.size := by
  induction h with
  | nil => exact Nat.le_refl _
  | snoc e hrun hp ih => exact Nat.le_trans ih ((hrun.sound hw).transition hp).storages.size_le

theorem passes_size_le (h : Run w steps w') (hw : w.Sound) : w.passes.size ≤ w'.passes.size := by
  induction h with
  | nil => exact Nat.le_refl _
  | snoc e hrun hp ih => exact Nat.le_trans ih ((hrun.sound hw).transition hp).passes_size_le

/-- A storage that is there was there before, with no more blocks ever linked. -/
theorem storage_before (h : Run w steps w') (hw : w.Sound) (hid : id ≤ w.storages.size)
    (hs' : w'.storages.get? id = some s') :
    ∃ s, w.storages.get? id = some s ∧ s.blocks.size ≤ s'.blocks.size := by
  induction h generalizing s' with
  | nil => exact ⟨s', hs', Nat.le_refl _⟩
  | snoc e hrun hp ih =>
      rcases ((hrun.sound hw).transition hp).storages.back id s' hs' with
        ⟨s₁, hs₁, hchanged, -⟩ | ⟨hnew, -⟩
      · obtain ⟨s, hs, hle⟩ := ih hs₁
        exact ⟨s, hs, Nat.le_trans hle hchanged.size_le⟩
      · have := hrun.storages_size_le hw
        omega

/-- A block with a number from before is not linked later. -/
theorem not_links {st : Step} {before after : List Step} {n : Nat}
    (h : Run w (before ++ st :: after) w') (hw : w.Sound) (hs : w.storages.get? id = some s)
    (hlinks : st.Links id n) : s.blocks.size < n := by
  obtain ⟨hbefore, hp, -⟩ := h.split
  obtain ⟨s', hs', hn, hnew⟩ := hlinks
  have hid := (Registry.bounds_of_get?_eq_some hs).2
  rcases ((hbefore.sound hw).transition hp).storages.back id s' hs' with
    ⟨s₁, hs₁, hchanged, -⟩ | ⟨hfresh, -⟩
  · obtain ⟨s₀, hs₀, hle⟩ := hbefore.storage_before hw hid hs₁
    obtain rfl := Option.some.inj (hs.symm.trans hs₀)
    exact Nat.lt_of_le_of_lt hle ((hchanged.mem_linked hn).resolve_left (hnew s₁ hs₁))
  · have := hbefore.storages_size_le hw
    omega

/-- A pass that is alive was alive before, over the same storage. -/
theorem pass_before (h : Run w steps w') (hw : w.Sound) (hi : i ≤ w.passes.size)
    (hq' : w'.passes.get? i = some q') :
    ∃ q, w.passes.get? i = some q ∧ q.storage = q'.storage := by
  induction h generalizing q' with
  | nil => exact ⟨q', hq', rfl⟩
  | @snoc w₁ steps e hrun hp ih =>
      have ht := (hrun.sound hw).transition hp
      rcases hq₁ : w₁.passes.get? i with _ | q₁
      · have := (ht.pass_gone (hrun.sound hw) hq₁ (Nat.le_trans hi (hrun.passes_size_le hw))).1
        simp [this] at hq'
      · obtain ⟨q, hq, hstorage⟩ := ih hq₁
        refine ⟨q, hq, hstorage.trans ?_⟩
        cases ht.pass_cases hq₁ with
        | same hq₂ => rw [Option.some.inj (hq₂.symm.trans hq')]
        | gone hq₂ => simp [hq₂] at hq'
        | pinned hs hcursor hq₂ => rw [← Option.some.inj (hq₂.symm.trans hq')]
        | claimed hs hcursor hb hq₂ => rw [← Option.some.inj (hq₂.symm.trans hq')]

/-- **While a pass is alive no block of its storage goes**: what was linked stays linked, behind
what has been linked since. -/
theorem linked_suffix (h : Run w steps w') (hw : w.Sound) (hi : i ≤ w.passes.size)
    (hq' : w'.passes.get? i = some q') (hs : w.storages.get? q'.storage = some s) :
    ∃ s', w'.storages.get? q'.storage = some s' ∧ s.linked <:+ s'.linked := by
  induction h generalizing q' with
  | nil => exact ⟨s, hs, List.suffix_refl _⟩
  | @snoc w₁ steps e hrun hp ih =>
      have ht := (hrun.sound hw).transition hp
      have hone : Run w₁ [⟨w₁, e⟩] (w₁.perform e).1 := .snoc e (.nil w₁) hp
      obtain ⟨q₁, hq₁, hstorage⟩ := hone.pass_before (hrun.sound hw)
        (Nat.le_trans hi (hrun.passes_size_le hw)) hq'
      obtain ⟨s₁, hs₁, hsuf₁⟩ := ih hq₁ (by rw [hstorage, hs])
      have hpass : w₁.hasPass q'.storage = true := hasPass_eq_true_iff.2 ⟨i, q₁, hq₁, hstorage⟩
      rw [hstorage] at hs₁
      rcases ht.storages.forth _ s₁ hs₁ with ⟨s', hs'⟩ | ⟨-, hnone⟩
      · refine ⟨s', hs', hsuf₁.trans ?_⟩
        rcases ht.storages.back _ s' hs' with ⟨s₂, hs₂, -, hsuf₂⟩ | ⟨hnew, -⟩
        · obtain rfl := Option.some.inj (hs₁.symm.trans hs₂)
          exact hsuf₂ hpass
        · have := (Registry.bounds_of_get?_eq_some hs₁).2
          omega
      · simp [hpass] at hnone

end Run

end World

end RootStore
