import RootStore.Proofs.Pass.Scans

/-!
# A pass visits every block once

The whole life of a pass: it is begun, other things happen, an iteration of it is entered for the
first time, and other things happen again, among them further iterations of the same pass one after
the other or from within each other's visitors.  What the pass claims is the list of blocks that
were linked when it was first iterated.

* `World.Visiting` — pinned, and scanning different blocks.
* `World.VisitsOnce` — what is said of a pass.
* `World.visits_once` — **it holds of every pass in every run.**
-/

namespace RootStore

namespace World

variable {w w' : World} {e : Event} {r : Reply} {p n : Nat} {L C : List Nat} {steps : List Step}
  {m : Mask} {T : List SlotIndex}

/-! ## Pinned and scanning -/

/-- The pass is pinned to a list of different blocks, and its iterations scan different ones of
those that it has claimed. -/
structure Visiting (w : World) (p : Nat) (L C : List Nat) : Prop extends
    Pinned w p 0 L C, Scanning w p C where
  nodup : L.Nodup

theorem Visiting.fresh (h : w.Visiting p L C) (hw : w.Sound) (ht : Transition w e w' r)
    (hclaim : r.claim? p = some n) : n ∉ C := by
  have hnd := h.nodup.sublist (h.toPinned.step hw ht).1.claims_initial.sublist
  rw [hclaim] at hnd
  exact fun hn => (List.nodup_append.1 hnd).2.2 n hn n (by simp) rfl

theorem Visiting.step (h : w.Visiting p L C) (hw : w.Sound) (ht : Transition w e w' r) :
    w'.Visiting p L (C ++ (r.claim? p).toList) :=
  ⟨(h.toPinned.step hw ht).1, h.toScanning.step ht fun _ hclaim => h.fresh hw ht hclaim, h.nodup⟩

theorem Visiting.run (h : w.Visiting p L C) (hw : w.Sound) (hrun : Run w steps w') :
    w'.Visiting p L (C ++ claims p steps) := by
  induction hrun with
  | nil => simpa [claims] using h
  | @snoc w₁ steps e hrun hp ih =>
      rw [claims_snoc, ← List.append_assoc]
      exact ih.step (hrun.sound hw) ((hrun.sound hw).transition hp)

/-- What is taken up in a block that was claimed before. -/
theorem Scanned.run (h : w.Scanned p n m T False) (hv : w.Visiting p L C) (hn : n ∈ C)
    (hw : w.Sound) (hrun : Run w steps w') :
    w'.Scanned p n m (T ++ slots p n steps) (∃ st ∈ steps, st.Abandons p n) := by
  induction hrun with
  | nil => simpa [slots] using h
  | @snoc w₁ steps e hrun hp ih =>
      have hw₁ := hrun.sound hw
      have hv₁ := hv.run hw hrun
      have ht := hw₁.transition hp
      have hnot : (w₁.perform e).2.claim? p ≠ some n := fun hclaim =>
        hv₁.fresh hw₁ ht hclaim (List.mem_append_left _ hn)
      obtain ⟨rest, hrest, hstate⟩ := ih.step hv₁.distinct ht hnot
      rw [slots_snoc, ← List.append_assoc]
      refine ⟨rest, hrest, hstate.imp_right fun hdone => ⟨hdone.1, hdone.2.imp_right ?_⟩⟩
      rintro (⟨st, hst, hab⟩ | hab)
      · exact ⟨st, List.mem_append_left _ hst, hab⟩
      · exact ⟨⟨w₁, e⟩, by simp, hab⟩

/-! ## The life of a pass -/

/-- A pass that has just begun has not started. -/
theorem unstarted_of_began {st : Step} (hw : st.before.Sound) (hp : st.before.Permits st.event)
    (hbegan : st.reply = .began p) : st.after.Unstarted p := by
  have ht := hw.transition hp
  change Transition st.before st.event st.after st.reply at ht
  rw [hbegan] at ht
  generalize st.after = w' at ht ⊢
  generalize st.event = e at ht
  cases ht with
  | @began id concurrent access s hs hfree hflag =>
      refine ⟨Nat.le_of_eq (Registry.size_add _ _).symm, fun q hq => ?_⟩
      obtain rfl := Option.some.inj (((Registry.get?_add _ _ _).trans (if_pos rfl)).symm.trans hq)
      exact ⟨rfl, rfl⟩

/-- A pass that is iterated for the first time is pinned, and none of its iterations scans a
block. -/
theorem Unstarted.visiting {st : Step} (h : st.before.Unstarted p) (hw : st.before.Sound)
    (hp : st.before.Permits st.event) (henter : st.Enters p) :
    ∃ q s, st.before.passes.get? p = some q ∧ st.before.storages.get? q.storage = some s ∧
      st.after.Visiting p s.linked [] := by
  obtain ⟨q, s, hq, hs, hpinned⟩ := h.pinned hw hp henter
  refine ⟨q, s, hq, hs, hpinned, ?_, (hw.storages _ s hs).2.lists.nodup⟩
  have hidle : scans p st.before.calls = [] := by
    rw [List.eq_nil_iff_forall_not_mem]
    intro n hn
    obtain ⟨c, hc, hcp, -⟩ := mem_scans.1 hn
    exact h.pass_ne hw hc hcp
  have hscanning : st.before.Scanning p [] := ⟨by simp [hidle], by simp [hidle]⟩
  have hnone : st.reply.claim? p = none := by rw [henter.2]; rfl
  have hstep := hscanning.step (hw.transition hp) (by simp)
  change st.after.Scanning p ([] ++ (st.reply.claim? p).toList) at hstep
  simpa [hnone] using hstep

/-- **What is said of a pass** over the storage `id`, whose list was `L` when an iteration of the
pass was first entered, where `between` has happened since the pass began and `later` since that
iteration was entered, up to the world `w`. -/
structure VisitsOnce (p id : Nat) (L : List Nat) (between later : List Step)
    (w : World) : Prop where
  /-- No block is listed twice. -/
  nodup : L.Nodup
  /-- No block was claimed before. -/
  unclaimed : claims p between = []
  /-- The blocks claimed so far are the first ones of the list. -/
  claims_initial : claims p later <+: L
  /-- They are all of the list as soon as some iteration has returned. -/
  all_claimed : (∃ st ∈ later, st.Returns p) → claims p later = L
  /-- No block linked later is claimed. -/
  not_later : ∀ st ∈ later, ∀ n, st.Links id n → n ∉ claims p later
  /-- Every block linked since the pass began is listed. -/
  included : ∀ st ∈ between, ∀ n, st.Links id n → n ∈ L
  /-- The pass counts the blocks that it has claimed. -/
  counted : ∀ q, w.passes.get? p = some q → q.claimed = (claims p later).length
  /-- What is taken up in a claimed block are the entries that were in use when it was claimed, from
  the lowest on, and all of them unless the scan is under way or a panic has cut it short. -/
  scanned : ∀ earlier st rest n, later = earlier ++ st :: rest → st.reply.claim? p = some n →
    ∃ s b, st.before.storages.get? id = some s ∧ s.blocks.get? n = some b ∧
      w.Scanned p n b.mask (slots p n rest) (∃ st' ∈ rest, st'.Abandons p n)

/-- A claim takes the snapshot of the block, and its scan begins. -/
theorem scanned_of_claim {st : Step} {q : Pass} (hw : st.before.Sound)
    (hp : st.before.Permits st.event) (hq : st.before.passes.get? p = some q)
    (hclaim : st.reply.claim? p = some n) :
    ∃ s b, st.before.storages.get? q.storage = some s ∧ s.blocks.get? n = some b ∧
      st.after.Scanned p n b.mask [] False := by
  have ht := hw.transition hp
  change Transition st.before st.event st.after st.reply at ht
  generalize st.after = w' at ht ⊢
  generalize st.reply = r at ht hclaim
  generalize st.event = e at ht
  cases ht with
  | @claimed c outer q' s n' b hcalls hq' hs hdone hcursor hb =>
      have heq := claim?_eq_some_iff.1 hclaim
      simp only [Reply.progressed.injEq, Progress.claimed.injEq] at heq
      obtain ⟨rfl, rfl⟩ := heq
      obtain rfl := Option.some.inj (hq.symm.trans hq')
      refine ⟨s, b, hs, hb, b.mask.indices, by simp, Or.inl ?_⟩
      exact ⟨{ c with scanning := some ⟨n', b.mask⟩, stage := .ready }, List.mem_cons_self, rfl,
        ⟨n', b.mask⟩, rfl, rfl, rfl⟩
  | @offered c outer q' s k slot v =>
      rcases hm : c.method <;> rcases v <;> simp [Reply.claim?, Progress.offer, hm] at hclaim
  | _ => simp [Reply.claim?] at hclaim

/-- What is linked while a pass is alive stays linked. -/
theorem Run.linked_of_links {st : Step} {q : Pass} {s : Storage} (hrun : Run w steps w')
    (hw : w.Sound) (hknown : p ≤ w.passes.size) (hq : w'.passes.get? p = some q)
    (hs : w'.storages.get? q.storage = some s) (hst : st ∈ steps) (hlinks : st.Links q.storage n) :
    n ∈ s.linked := by
  obtain ⟨s', hs', hn, -⟩ := hlinks
  obtain ⟨l₁, l₂, rfl⟩ := List.append_of_mem hst
  obtain ⟨hrun₁, hp, hrun₂⟩ := hrun.split
  have hw₁ := hrun₁.sound hw
  have hw₂ := (hw₁.transition hp).sound hw₁
  have hknown' : p ≤ st.after.passes.size := Nat.le_trans hknown
    (Nat.le_trans (hrun₁.passes_size_le hw) (hw₁.transition hp).passes_size_le)
  obtain ⟨s₂, hs₂, hsuf⟩ := hrun₂.linked_suffix hw₂ hknown' hq hs'
  obtain rfl := Option.some.inj (hs.symm.trans hs₂)
  exact hsuf.subset hn

/-- **A pass visits every block once**, in every run: one that begins the pass, first iterates it
and goes on in any way that is permitted. -/
theorem visits_once {before between later : List Step} {start first : Step}
    (hrun : Run {} (before ++ start :: (between ++ first :: later)) w)
    (hstart : start.reply = .began p) (hbetween : ∀ st ∈ between, ¬ st.Enters p)
    (hfirst : first.Enters p) : ∃ q s, first.before.passes.get? p = some q ∧
      first.before.storages.get? q.storage = some s ∧
      VisitsOnce p q.storage s.linked between later w := by
  obtain ⟨hrun₀, hp₀, hrun₁⟩ := hrun.split
  obtain ⟨hrun₂, hp₁, hrun₃⟩ := hrun₁.split
  have hw₀ := hrun₀.sound .init
  have hstarted := (hw₀.transition hp₀).sound hw₀
  have hw₁ := hrun₂.sound hstarted
  have hw₂ := (hw₁.transition hp₁).sound hw₁
  have hnew := unstarted_of_began hw₀ hp₀ hstart
  obtain ⟨hunstarted, hunclaimed⟩ := hnew.run hstarted hrun₂ hbetween
  obtain ⟨q, s, hq, hs, hvisiting⟩ := hunstarted.visiting hw₁ hp₁ hfirst
  obtain ⟨hpinned, hreturned⟩ := hvisiting.toPinned.run hw₂ hrun₃
  rw [List.nil_append] at hpinned hreturned
  have hlists := (hw₁.storages _ s hs).2.lists
  refine ⟨q, s, hq, hs, ⟨hvisiting.nodup, hunclaimed, hpinned.claims_initial, hreturned, ?_,
    ?_, ?_, ?_⟩⟩
  · -- what is linked later has a number beyond those of the list
    intro st hst n hlinks hn
    obtain ⟨l₁, l₂, rfl⟩ := List.append_of_mem hst
    have hall : Run first.before ((first :: l₁) ++ st :: l₂) w :=
      (Run.snoc first.event (.nil _) hp₁).append hrun₃
    have hlt := hall.not_links hw₁ hs hlinks
    have hle := (hlists.bounds (hpinned.claims_initial.subset hn)).2
    omega
  · exact fun st hst n => hrun₂.linked_of_links hstarted hnew.1 hq hs hst
  · intro t ht
    obtain ⟨-, -, -, -, -, -, hclaimed⟩ := hpinned.alive t ht
    rwa [Nat.zero_add] at hclaimed
  · intro earlier st rest n hlater hclaim
    rw [hlater] at hrun₃
    obtain ⟨hrun₄, hp₄, hrun₅⟩ := hrun₃.split
    have hw₄ := hrun₄.sound hw₂
    have hw₅ := (hw₄.transition hp₄).sound hw₄
    have hv₄ := hvisiting.run hw₂ hrun₄
    have hv₅ := hv₄.step hw₄ (hw₄.transition hp₄)
    change st.after.Visiting p s.linked (_ ++ (st.reply.claim? p).toList) at hv₅
    -- the pass that claims is alive, over the storage that it began over
    obtain ⟨t, ht⟩ : ∃ t, st.before.passes.get? p = some t := by
      rcases ht : st.before.passes.get? p with _ | t
      · exact absurd (claim?_eq_some_iff.1 hclaim)
          (((hw₄.transition hp₄).pass_gone hw₄ ht hv₄.known).2 _)
      · exact ⟨t, rfl⟩
    obtain ⟨q', hq', hstorage⟩ := Run.pass_before
      ((Run.snoc first.event (.nil _) hp₁).append hrun₄) hw₁ hunstarted.1 ht
    obtain rfl := Option.some.inj (hq.symm.trans hq')
    obtain ⟨s₁, b, hs₁, hb, hscanned⟩ := scanned_of_claim hw₄ hp₄ ht hclaim
    refine ⟨s₁, b, by rw [hstorage, hs₁], hb, ?_⟩
    simpa using hscanned.run hv₅ (by simp [hclaim]) hw₅ hrun₅

/-- A pass over three entries of one block.  One of them is allocated after the pass began; the
visitor of the first releases the second and iterates the pass once more, and the visitor of the
second panics. -/
theorem visits_once_of_nested_iteration :
    let later : List Event :=
      [.advance, .advance, .release 1 2, .enter 1 .every, .advance, .advance, .panic]
    let start : Step :=
      ⟨({} : World).afterAll [.create {}, .allocate 1, .allocate 1], .beginPass 1 true .readOnly⟩
    let first : Step := ⟨start.after.afterAll [.allocate 1], .enter 1 .every⟩
    (claims 1 (first.after.trail later) = [1] ∧ slots 1 1 (first.after.trail later) = [0, 1]) ∧
    ∃ q s, first.before.passes.get? 1 = some q ∧ first.before.storages.get? q.storage = some s ∧
      VisitsOnce 1 q.storage s.linked (start.after.trail [.allocate 1]) (first.after.trail later)
        (first.after.afterAll later) := by
  refine ⟨by decide +kernel, ?_⟩
  refine visits_once (run_trail_split (by decide +kernel)) (by decide +kernel) ?_
    ⟨⟨.every, rfl⟩, by decide +kernel⟩
  intro st hst
  rw [List.mem_singleton.1 hst]
  rintro ⟨⟨method, hmethod⟩, -⟩
  cases hmethod

end World

end RootStore
