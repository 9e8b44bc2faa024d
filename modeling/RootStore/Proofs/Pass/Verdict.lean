import RootStore.Proofs.Handle.Null
import RootStore.Proofs.Handle.Overwritten

/-!
# What a verdict acts on

An iteration of weak entries asks about an object, and then hands its entry to the visitor or clears
it. Between question and verdict the judge may do anything with the storage, and nothing is looked
at again: the verdict is on the object, but it is the entry that is acted on, with whatever the
judge has left in it.

* `Step.ActsOn` — an entry is handed out or cleared on account of a verdict.
* `World.Run.asked` — **every judge at work has been asked**, and its iteration has waited ever
  since.
* `World.Verdict`, `World.verdict` — **what a verdict acts on.**
* `World.verdict_misplaced` — it need not be what was judged.
-/

namespace RootStore

/-- The iteration hands the entry to its visitor or clears it, on account of a verdict. -/
def Step.ActsOn (p : Nat) (e : Entry) (st : Step) : Prop :=
  (st.reply = .progressed p (.visiting e) ∧ ∃ c ∈ st.before.calls.head?, c.method = .alive) ∨
    st.reply = .progressed p (.cleared e)

/-- The slot of an entry, named like the handle that stands for it. -/
def Entry.slot (e : Entry) : Handle := ⟨e.storage, e.place⟩

theorem Progress.eq_of_stage_asking {progress : Progress} {e : Entry} {object : Reference}
    (h : progress.stage = .asking e object) : progress = .asking e object := by
  cases progress <;> simp_all [stage]

namespace World

variable {w w' : World} {e : Event} {r : Reply} {p : Nat} {en : Entry} {object : Reference}
  {c : Call} {outer : List Call} {steps earlier : List Step} {st : Step}

/-! ## Judges at work -/

/-- An iteration that waits for a verdict was waiting already, or it has asked in this step. -/
theorem Transition.asking (ht : Transition w e w' r) (hcalls : c :: outer <:+ w'.calls)
    (hstage : c.stage = .asking en object) : c :: outer <:+ w.calls ∨
      w'.calls = c :: outer ∧ r = .progressed c.pass (.asking en object) := by
  have hcons : ∀ {d : Call} {rest : List Call}, w'.calls = d :: rest → d.stage ≠ c.stage →
      c :: outer <:+ rest := by
    intro d rest heq hne
    rw [heq, List.suffix_cons_iff] at hcalls
    refine hcalls.resolve_left fun h => hne ?_
    rw [(List.cons.inj h).1]
  cases ht with
  | failed | created | dropped | refused | granted | released | lost | got | written
  | deleted | began | ended | forgotten | loaded | stored | exchanged => exact Or.inl hcalls
  | pinned | resumed => exact Or.inl (hcons rfl (by simp [hstage]))
  | claimed hcalls' | upheld hcalls' | cleared hcalls' =>
      rw [hcalls']
      exact Or.inl ((hcons rfl (by simp [hstage])).trans (List.suffix_cons _ _))
  | finished hcalls' | panicked hcalls' =>
      rw [hcalls']
      exact Or.inl (hcalls.trans (List.suffix_cons _ _))
  | offered hcalls' =>
      rcases List.suffix_cons_iff.1 hcalls with heq | hrest
      · obtain ⟨rfl, rfl⟩ := List.cons.inj heq
        exact Or.inr ⟨rfl, by rw [Progress.eq_of_stage_asking hstage]⟩
      · rw [hcalls']
        exact Or.inl (hrest.trans (List.suffix_cons _ _))

/-- **A judge at work was asked in some step**, and its iteration has waited for it ever since,
beneath those that the judge has entered. -/
structure Asked (ask : Step) (between : List Step) (c : Call) (outer : List Call) (e : Entry)
    (object : Reference) : Prop where
  /-- The judge was asked. -/
  asked : ask.reply = .progressed c.pass (.asking e object)
  /-- The iteration was the innermost one. -/
  calls : ask.after.calls = c :: outer
  /-- It has not gone on, nor has any of those that it is nested in. -/
  waiting : ∀ st ∈ between, c :: outer <:+ st.before.calls ∧ c :: outer <:+ st.after.calls

theorem Run.asked (hrun : Run {} steps w) (hcalls : c :: outer <:+ w.calls)
    (hstage : c.stage = .asking en object) : ∃ before ask between,
      steps = before ++ ask :: between ∧ Asked ask between c outer en object := by
  generalize hinit : ({} : World) = w₀ at hrun
  induction hrun with
  | nil =>
      subst hinit
      simp at hcalls
  | @snoc w₁ steps e hrun hp ih =>
      subst hinit
      rcases ((hrun.sound .init).transition hp).asking hcalls hstage with hold | ⟨hnew, hreply⟩
      · obtain ⟨before, ask, between, rfl, hasked⟩ := ih hold
        refine ⟨before, ask, between ++ [⟨w₁, e⟩], by simp, hasked.asked, hasked.calls, ?_⟩
        intro st hst
        rcases List.mem_append.1 hst with hst | hst
        · exact hasked.waiting st hst
        · obtain rfl := List.mem_singleton.1 hst
          exact ⟨hold, hcalls⟩
      · exact ⟨steps, ⟨w₁, e⟩, [], rfl, hreply, hnew, by simp⟩

/-! ## What the judge leaves -/

/-- The slot of an entry that is asked about can be read. -/
theorem Sound.slot_there (hw : w.Sound) (hcalls : c :: outer <:+ w.calls)
    (hstage : c.stage = .asking en object) : ∃ v, w.SlotHolds en.slot v := by
  have hmem : c ∈ w.calls := hcalls.subset List.mem_cons_self
  obtain ⟨s, hs, ⟨v, hload⟩, -⟩ := hw.store_of_entry hmem (by rw [hstage]; rfl)
  exact ⟨v, s, hs, hload⟩

/-- The judge is asked about what the entry holds. -/
theorem Transition.slot_of_asked (ht : Transition w e w' r)
    (hr : r = .progressed p (.asking en object)) :
    w.SlotHolds en.slot (some object) ∧ w'.SlotHolds en.slot (some object) := by
  cases ht with
  | offered hcalls hq hs hscan hslot hload =>
      obtain ⟨rfl, rfl⟩ := Progress.of_offer_asking (Reply.progressed.inj hr).2
      exact ⟨⟨_, hs, hload⟩, ⟨_, hs, hload⟩⟩
  | _ => simp at hr

/-- What acts on an entry on account of a verdict is the verdict of the judge that was asked about
it. -/
theorem Transition.judge_of_acts (ht : Transition w e w' r)
    (hacts : (r = .progressed p (.visiting en) ∧ ∃ c ∈ w.calls.head?, c.method = .alive) ∨
      r = .progressed p (.cleared en)) :
    ∃ alive c outer object, e = .judge alive ∧ w.calls = c :: outer ∧ c.pass = p ∧
      c.stage = .asking en object := by
  cases ht with
  | upheld hcalls hstage =>
      simp only [Reply.progressed.injEq, Progress.visiting.injEq, reduceCtorEq, and_false,
        or_false] at hacts
      obtain ⟨⟨rfl, rfl⟩, -⟩ := hacts
      exact ⟨true, _, _, _, rfl, hcalls, rfl, hstage⟩
  | cleared hcalls hstage =>
      simp only [Reply.progressed.injEq, Progress.cleared.injEq, reduceCtorEq, and_false, false_and,
        false_or] at hacts
      obtain ⟨rfl, rfl⟩ := hacts
      exact ⟨false, _, _, _, rfl, hcalls, rfl, hstage⟩
  | @offered c outer q s k slot v hcalls =>
      -- an iteration that asks does not hand out the entry without a verdict
      simp only [hcalls, List.head?_cons, Option.mem_some_iff, exists_eq_left'] at hacts
      rcases v <;> rcases hm : c.method <;> simp [Progress.offer, hm] at hacts
  | _ => simp at hacts

/-- What a verdict leaves of the slots, and of the handles. -/
theorem Sound.slots_of_judge {k : Handle} {v : Option Reference} (hw : w.Sound) (alive : Bool)
    (hcalls : w.calls = c :: outer) (hstage : c.stage = .asking en object) (h : w.SlotHolds k v) :
    (w.perform (.judge alive)).1.SlotHolds k (if k = en.slot ∧ alive = false then none else v) ∧
    (w.perform (.judge alive)).1.handles = w.handles ∧
    (w.perform (.judge alive)).2 =
      .progressed c.pass (if alive then .visiting en else .cleared en) := by
  obtain ⟨w', progress, hjudge, ht⟩ := hw.judge_ok alive hcalls hstage
  have hperform : w.perform (.judge alive) = (w', .progressed c.pass progress) := by
    simp [perform, act, Except.map, hjudge, innermost, hcalls]
  rw [hperform]
  generalize hr : Reply.progressed c.pass progress = r at ht
  cases ht with
  | failed => cases hr
  | upheld hcalls' hstage' =>
      obtain ⟨rfl, rfl⟩ := List.cons.inj (hcalls.symm.trans hcalls')
      obtain ⟨rfl, -⟩ := Stage.asking.inj (hstage.symm.trans hstage')
      refine ⟨?_, rfl, rfl⟩
      simp only [Bool.true_eq_false, and_false, if_false]
      exact h
  | cleared hcalls' hstage' hs hstore hwritten =>
      obtain ⟨rfl, rfl⟩ := List.cons.inj (hcalls.symm.trans hcalls')
      obtain ⟨rfl, -⟩ := Stage.asking.inj (hstage.symm.trans hstage')
      refine ⟨?_, rfl, rfl⟩
      simp only [and_true]
      exact h.of_written hs rfl hwritten

/-! ## What is said of verdicts -/

/-- **What a verdict acts on**: the judge is asked in the step `ask`, works in the steps `between`
and gives the verdict in the step `st`. -/
structure Verdict (ask : Step) (between : List Step) (st : Step) (p : Nat) (e : Entry)
    (object : Reference) (alive : Bool) : Prop where
  /-- The step is the verdict of the judge that was asked, whose iteration has waited for it. -/
  judged : ∃ c outer, st.event = .judge alive ∧ st.before.calls = c :: outer ∧ c.pass = p ∧
    Asked ask between c outer e object
  /-- The judge is asked about what the entry holds. -/
  held : ask.before.SlotHolds e.slot (some object)
  /-- The verdict finds there what was last written meanwhile, by whomever. -/
  found : st.before.SlotHolds e.slot (overwritten between e.slot (some object))
  /-- So it finds what was judged exactly if that is what was left there, -/
  kept : st.before.SlotHolds e.slot (some object) ↔
    overwritten between e.slot (some object) = some object
  /-- as it is where nobody has written there. -/
  untouched : (∀ st' ∈ between,
    overwrites? st'.before st'.event st'.after st'.reply e.slot = none) →
    st.before.SlotHolds e.slot (some object)
  /-- If the object is alive, the visitor is handed the entry with what was found. -/
  upheld : alive = true → st.reply = .progressed p (.visiting e) ∧
    st.after.SlotHolds e.slot (overwritten between e.slot (some object))
  /-- If it is dead, what was found is erased, and nothing else. -/
  cleared : alive = false → st.reply = .progressed p (.cleared e) ∧ st.after.SlotHolds e.slot none ∧
    ∀ k v, k ≠ e.slot → st.before.SlotHolds k v → st.after.SlotHolds k v
  /-- Whoever holds a handle to the slot by then, which may have been issued meanwhile, reads what
  was found, and null when it has been erased. -/
  taken_over : ∀ number, st.before.handles.get? number = some { handle := e.slot } →
    st.before.get e.storage number = .ok (overwritten between e.slot (some object)) ∧
      (alive = false → st.after.get e.storage number = .ok none)

/-- **A verdict acts on what the judge has left in the entry**, whatever that is. -/
theorem verdict (hrun : Run {} (earlier ++ [st]) w) (hacts : st.ActsOn p en) :
    ∃ before ask between object alive, earlier = before ++ ask :: between ∧
      Verdict ask between st p en object alive := by
  obtain ⟨hbefore, hp, -⟩ := hrun.snoc_inv
  have hw := hbefore.sound .init
  obtain ⟨alive, c, outer, object, hevent, hcalls, rfl, hstage⟩ :=
    (hw.transition hp).judge_of_acts hacts
  obtain ⟨before, ask, between, rfl, hasked⟩ := hbefore.asked (by rw [hcalls]) hstage
  obtain ⟨hrun₁, hask, hrun₂⟩ := hbefore.split
  have hw₁ := hrun₁.sound .init
  have ht := hw₁.transition hask
  have hw₂ : ask.after.Sound := ht.sound hw₁
  obtain ⟨hheld, hheld'⟩ := ht.slot_of_asked hasked.asked
  -- the iteration waits, so that the entry is there all along
  have hfound : st.before.SlotHolds en.slot (World.overwritten between en.slot (some object)) := by
    refine hrun₂.overwritten hw₂ hheld' fun st' hst' => ?_
    obtain ⟨l₁, l₂, rfl⟩ := List.append_of_mem hst'
    obtain ⟨hrun₃, hp₃, -⟩ := hrun₂.split
    have hw₃ : st'.after.Sound := ((hrun₃.sound hw₂).transition hp₃).sound (hrun₃.sound hw₂)
    exact hw₃.slot_there (hasked.waiting st' (by simp)).2 hstage
  have hafter : ∀ {k v}, st.before.SlotHolds k v →
      st.after.SlotHolds k (if k = en.slot ∧ alive = false then none else v) ∧
      st.after.handles = st.before.handles ∧
      st.reply = .progressed c.pass (if alive then .visiting en else .cleared en) := by
    intro k v h
    have hjudge := hw.slots_of_judge alive hcalls hstage h
    rwa [← hevent] at hjudge
  have hw' : st.after.Sound := (hw.transition hp).sound hw
  obtain ⟨hleft, hhandles, hreply⟩ := hafter hfound
  refine ⟨before, ask, between, object, alive, rfl,
    ⟨c, outer, hevent, hcalls, rfl, hasked⟩, hheld, hfound, ⟨fun h => ?_, fun h => h ▸ hfound⟩,
    fun huntouched => ?_, fun halive => ?_, fun hdead => ?_,
    fun number hheld => ⟨hfound.get_eq hw hheld, fun hdead => ?_⟩⟩
  · exact h.unique hfound
  · rwa [overwritten_eq_self huntouched] at hfound
  · subst halive
    exact ⟨hreply, by simpa using hleft⟩
  · subst hdead
    refine ⟨hreply, by simpa using hleft, fun k v hk h => ?_⟩
    simpa [hk] using (hafter h).1
  · subst hdead
    have hnull : st.after.SlotHolds en.slot none := by simpa using hleft
    exact hnull.get_eq hw' (by rwa [hhandles])

/-- A judge iterates the same pass in its turn, in vain, and writes another entry; its verdict
erases what it has judged. -/
theorem verdict_of_nested_iteration :
    let object : Reference := ⟨5#64, by decide⟩
    let events : List Event := [.create {}, .allocate 1, .allocate 1, .set 1 1 (some object),
      .set 1 2 (some object), .beginPass 1 false .writable, .enter 1 .alive, .advance, .advance,
      .enter 1 .alive, .advance, .set 1 2 none]
    let w := ({} : World).afterAll events
    let e : Entry := ⟨1, ⟨1, 0⟩, .writable⟩
    let st : Step := ⟨w, .judge false⟩
    (({} : World).PermitsAll (events ++ [.judge false]) ∧ st.reply = .progressed 1 (.cleared e) ∧
      (w.perform (.get 1 1)).2 = .content (some object)) ∧
    ∃ before ask between object alive, ({} : World).trail events = before ++ ask :: between ∧
      Verdict ask between st 1 e object alive := by
  intro object events w e st
  refine ⟨by decide +kernel, ?_⟩
  exact verdict (run_trail_last (by decide +kernel)) (Or.inr (by decide +kernel))

/-- **A verdict can miss what was judged.**  The first judge writes null and says that the object is
alive: the visitor is handed an entry that holds null.  The second one releases its entry, allocates
one, which is in the same slot, and writes it before it says that the object is dead: what is erased
is what was written to the new entry. -/
theorem verdict_misplaced :
    let judged : Reference := ⟨5#64, by decide⟩
    let other : Reference := ⟨9#64, by decide⟩
    let events : List Event := [.create {}, .allocate 1, .allocate 1, .set 1 1 (some judged),
      .set 1 2 (some judged), .beginPass 1 false .writable, .enter 1 .alive, .advance]
    let writes : List Event := [.set 1 1 none]
    let reuses : List Event := [.release 1 2, .allocate 1, .set 1 3 (some other)]
    let asked₁ : Step := ⟨({} : World).afterAll events, .advance⟩
    let alive : Step := ⟨asked₁.after.afterAll writes, .judge true⟩
    let asked₂ : Step := ⟨alive.after, .advance⟩
    let dead : Step := ⟨asked₂.after.afterAll reuses, .judge false⟩
    ({} : World).PermitsAll (events ++ .advance :: writes ++ .judge true :: .advance :: reuses ++
      [.judge false]) ∧
    (asked₁.reply = .progressed 1 (.asking ⟨1, ⟨1, 0⟩, .writable⟩ judged) ∧
      alive.reply = .progressed 1 (.visiting ⟨1, ⟨1, 0⟩, .writable⟩) ∧
      (alive.after.perform (.get 1 1)).2 = .content none) ∧
    asked₂.reply = .progressed 1 (.asking ⟨1, ⟨1, 1⟩, .writable⟩ judged) ∧
      dead.reply = .progressed 1 (.cleared ⟨1, ⟨1, 1⟩, .writable⟩) ∧
      (dead.before.perform (.get 1 3)).2 = .content (some other) ∧
      (dead.after.perform (.get 1 3)).2 = .content none := by
  decide +kernel

end World

end RootStore
