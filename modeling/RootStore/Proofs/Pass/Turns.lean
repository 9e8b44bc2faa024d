import RootStore.Proofs.Pass.Iterate

/-!
# What the iterations of a pass have yet to do

The list that an iteration goes through grows at its front while it is gone through, and the masks
of its blocks change.  What there is yet to do is not seen in any of that: it is what is left of the
list that the pass was pinned to, and what is left of the snapshots that its iterations have in
hand, all of them together, for one may have entered another.  Every step of an iteration takes
something away from it, and nothing else adds to it.

* `Reply.visits`, `Reply.asks`, `Step.drives` — the steps that are counted.
* `World.Transition.turned` — what one event does to the iterations of one pass.
* `World.Paid`, `World.Turned.paid` — **one event** uses up what it does.
* `World.Pinned.tally` — so there is a bound on all that a pass does in the course of its life.
-/

namespace RootStore

/-- A visitor of the pass is called with an entry. -/
def Reply.visits (p : Nat) : Reply → Bool
  | .progressed i (.visiting _) => i = p
  | _ => false

/-- A judge of the pass is asked about an object. -/
def Reply.asks (p : Nat) : Reply → Bool
  | .progressed i (.asking _ _) => i = p
  | _ => false

/-- An iteration of the pass takes a step of its own, or is left by a panic. -/
def Step.drives (p : Nat) (st : Step) : Bool :=
  match st.event, st.reply with
  | _, .progressed i _ => i = p
  | .panic, .done => st.before.calls.head?.any (·.pass = p)
  | _, _ => false

/-- An iteration of the pass is entered. -/
def Step.enters (p : Nat) (st : Step) : Bool :=
  match st.event, st.reply with
  | .enter i _, .done => i = p
  | _, _ => false

theorem Step.enters_iff {p : Nat} {st : Step} : st.enters p = true ↔ st.Enters p := by
  unfold enters Enters
  split
  · rename_i i method hevent hreply
    simp [hevent, hreply]
  · rename_i hne
    simp only [Bool.false_eq_true, false_iff]
    rintro ⟨⟨method, hevent⟩, hreply⟩
    exact hne p method hevent hreply

/-- How many questions the iteration has open. -/
def Call.questions (c : Call) : Nat :=
  match c.stage with
  | .asking _ _ => 1
  | .ready | .visiting _ => 0

namespace World

variable {w w' : World} {e : Event} {r : Reply} {p k : Nat} {L C : List Nat} {steps : List Step}

/-! ## The iterations of one pass -/

/-- The iterations of the pass that are under way. -/
def callsOf (p : Nat) (w : World) : List Call := w.calls.filter (·.pass = p)

/-- What an event does to the iterations of the pass. -/
inductive Turned (p : Nat) (w : World) (e : Event) (w' : World) (r : Reply) : Prop
  /-- They are the same, and none of them has taken a step. -/
  | aside (hcalls : w'.callsOf p = w.callsOf p) (hreply : ∀ progress, r ≠ .progressed p progress)
      (hpanic : e = .panic → r = .done → ∀ c, w.calls.head? = some c → c.pass ≠ p)
  /-- One was entered. -/
  | entered {c : Call} (hcalls : w'.callsOf p = c :: w.callsOf p) (hleft : c.entriesLeft = 0)
      (hstage : c.stage = .ready) (hevent : ∃ method, e = .enter p method) (hreply : r = .done)
  /-- The innermost one has taken up an entry. -/
  | offered {c c' : Call} {rest : List Call} {progress : Progress}
      (hcalls : w.callsOf p = c :: rest)
      (hcalls' : w'.callsOf p = c' :: rest) (hleft : c.entriesLeft = c'.entriesLeft + 1)
      (hstage : c'.stage = progress.stage) (hreply : r = .progressed p progress)
      (hclaim : ∀ n, progress ≠ .claimed n)
  /-- The innermost one had a verdict. -/
  | judged {c c' : Call} {rest : List Call} {progress : Progress} (hcalls : w.callsOf p = c :: rest)
      (hcalls' : w'.callsOf p = c' :: rest) (hleft : c.entriesLeft = c'.entriesLeft)
      (hask : c.questions = 1) (hstage : c'.questions = 0) (hreply : r = .progressed p progress)
      (hkind : (∃ en, progress = .visiting en) ∨ ∃ en, progress = .cleared en)
  /-- The innermost one has claimed a block. -/
  | claimed {c c' : Call} {rest : List Call} {n : Nat} (hcalls : w.callsOf p = c :: rest)
      (hcalls' : w'.callsOf p = c' :: rest) (hleft : c'.entriesLeft ≤ blockSize)
      (hstage : c'.stage = .ready) (hreply : r = .progressed p (.claimed n))
  /-- The innermost one is over. -/
  | closed {c : Call} {rest : List Call} (hcalls : w.callsOf p = c :: rest)
      (hcalls' : w'.callsOf p = rest) (hwhy : r = .progressed p .finished ∨ e = .panic ∧ r = .done)

section CallsOf

variable {c c' : Call} {outer : List Call}

theorem callsOf_cons (h : w.calls = c :: outer) (hp : c.pass = p) :
    w.callsOf p = c :: outer.filter (·.pass = p) := by
  simp [callsOf, h, hp]

theorem callsOf_cons_ne (h : w.calls = c :: outer) (hp : c.pass ≠ p) :
    w.callsOf p = outer.filter (·.pass = p) := by
  simp [callsOf, h, hp]

/-- A step of an iteration of another pass. -/
theorem Turned.of_other {progress : Progress} (hcalls : w.calls = c :: outer)
    (hcalls' : w'.calls = c' :: outer ∨ w'.calls = outer) (hpass : c'.pass = c.pass)
    (hne : c.pass ≠ p) (hevent : e ≠ .panic) : Turned p w e w' (.progressed c.pass progress) := by
  refine .aside ?_ (fun progress' heq => hne (Reply.progressed.inj heq).1)
    fun hpanic => absurd hpanic hevent
  rw [callsOf_cons_ne hcalls hne]
  rcases hcalls' with h | h
  · exact callsOf_cons_ne h (by rwa [hpass])
  · simp [callsOf, h]

end CallsOf

/-- **What an event does to the iterations of one pass.** -/
theorem Transition.turned (ht : Transition w e w' r) (p : Nat) : Turned p w e w' r := by
  cases ht with
  | failed => exact .aside rfl (by simp) (by simp)
  | created | dropped | refused | granted | released | lost | got | written | deleted
  | began | ended | forgotten | loaded | stored | exchanged => exact .aside rfl (by simp) (by simp)
  | @pinned i method q s hq hs hcursor =>
      by_cases hi : i = p
      · subst hi
        exact .entered (c := { pass := i, method }) (by simp [callsOf]) rfl rfl
          ⟨method, rfl⟩ rfl
      · exact .aside (by simp [callsOf, hi]) (by simp) (by simp)
  | @resumed i method q s hq hs hcursor =>
      by_cases hi : i = p
      · subst hi
        exact .entered (c := { pass := i, method }) (by simp [callsOf]) rfl rfl
          ⟨method, rfl⟩ rfl
      · exact .aside (by simp [callsOf, hi]) (by simp) (by simp)
  | @offered c outer q s claim slot v hcalls hq hs hscan hslot hload =>
      by_cases hp : c.pass = p
      · subst hp
        have hleft := Mask.indices_eq_cons hslot
        refine .offered (callsOf_cons hcalls rfl) (callsOf_cons rfl rfl) ?_ rfl rfl fun n => ?_
        · simp [Call.entriesLeft, hscan, hleft]
        · rcases hm : c.method <;> rcases v <;> simp [Progress.offer]
      · exact .of_other hcalls (.inl rfl) rfl hp (by simp)
  | @claimed c outer q s n b hcalls hq hs hdone hcursor hb =>
      by_cases hp : c.pass = p
      · subst hp
        refine .claimed (callsOf_cons hcalls rfl) (callsOf_cons rfl rfl) ?_ rfl rfl
        simpa [Call.entriesLeft] using b.mask.length_indices_le
      · exact .of_other hcalls (.inl rfl) rfl hp (by simp)
  | @finished c outer q s hcalls hq hs hdone hcursor =>
      by_cases hp : c.pass = p
      · subst hp
        exact .closed (callsOf_cons hcalls rfl) rfl (.inl rfl)
      · exact .of_other hcalls (.inr rfl) rfl hp (by simp)
  | @upheld c outer en object hcalls hstage =>
      by_cases hp : c.pass = p
      · subst hp
        exact .judged (callsOf_cons hcalls rfl) (callsOf_cons rfl rfl) rfl
          (by simp [Call.questions, hstage]) (by simp [Call.questions]) rfl (.inl ⟨en, rfl⟩)
      · exact .of_other hcalls (.inl rfl) rfl hp (by simp)
  | @cleared c outer en object s s' hcalls hstage hs hstore hwritten huse =>
      by_cases hp : c.pass = p
      · subst hp
        exact .judged (callsOf_cons hcalls rfl) (callsOf_cons rfl rfl) rfl
          (by simp [Call.questions, hstage]) (by simp [Call.questions]) rfl (.inr ⟨en, rfl⟩)
      · exact .of_other hcalls (.inl rfl) rfl hp (by simp)
  | @panicked c outer hcalls hstage =>
      by_cases hp : c.pass = p
      · subst hp
        exact .closed (callsOf_cons hcalls rfl) rfl (.inr ⟨rfl, rfl⟩)
      · refine .aside ?_ (by simp) fun _ _ c' hc' => ?_
        · rw [callsOf_cons_ne hcalls hp]
          rfl
        · rw [hcalls] at hc'
          rwa [← Option.some.inj hc']

/-! ## What is left to do -/

/-- How many entries the iterations of the pass have yet to take up in the blocks that they scan. -/
def entriesDue (p : Nat) (w : World) : Nat := ((w.callsOf p).map (·.entriesLeft)).sum

/-- How many questions the iterations of the pass have open. -/
def questionsOpen (p : Nat) (w : World) : Nat := ((w.callsOf p).map (·.questions)).sum

/-- What some steps have done for the pass, and what there was to do for it in the world `w` with
`n` blocks to be claimed, pay for what there is yet to do in the world `w'` with `n'` blocks to be
claimed. -/
structure Paid (p : Nat) (w : World) (n : Nat) (steps : List Step) (w' : World)
    (n' : Nat) : Prop where
  /-- There is one visit at most for each entry that is left, and for each open question. -/
  visits : steps.countP (·.reply.visits p) +
    (blockSize * n' + w'.entriesDue p + w'.questionsOpen p) ≤
    blockSize * n + w.entriesDue p + w.questionsOpen p
  /-- There is one question at most for each entry that is left. -/
  asks : steps.countP (·.reply.asks p) + (blockSize * n' + w'.entriesDue p) ≤
    blockSize * n + w.entriesDue p
  /-- A block takes one step to be claimed, an entry two at most, and an iteration one to be
  left. -/
  drives : steps.countP (·.drives p) +
      ((2 * blockSize + 1) * n' + 2 * w'.entriesDue p + w'.questionsOpen p +
        (w'.callsOf p).length) ≤
    (2 * blockSize + 1) * n + 2 * w.entriesDue p + w.questionsOpen p + (w.callsOf p).length +
      steps.countP (·.enters p)

theorem Paid.refl (p : Nat) (w : World) (n : Nat) : Paid p w n [] w n :=
  ⟨by simp, by simp, by simp⟩

theorem Paid.append {w₁ : World} {n n₁ n' : Nat} {later : List Step} (h : Paid p w n steps w₁ n₁)
    (h' : Paid p w₁ n₁ later w' n') : Paid p w n (steps ++ later) w' n' := by
  obtain ⟨hvisits, hasks, hdrives⟩ := h
  obtain ⟨hvisits', hasks', hdrives'⟩ := h'
  constructor <;> rw [List.countP_append]
  · omega
  · omega
  · rw [List.countP_append]
    omega

section Counts

variable {st : Step} {progress : Progress}

theorem drives_of_progressed (h : st.reply = .progressed p progress) : st.drives p = true := by
  simp [Step.drives, h]

theorem enters_of_progressed (h : st.reply = .progressed p progress) : st.enters p = false := by
  simp [Step.enters, h]

/-- A step that is none of the pass's iterations is not counted. -/
theorem uncounted (hreply : ∀ progress, st.reply ≠ .progressed p progress)
    (hpanic : st.event = .panic → st.reply = .done → ∀ c, st.before.calls.head? = some c →
      c.pass ≠ p) :
    st.reply.visits p = false ∧ st.reply.asks p = false ∧ st.drives p = false := by
  refine ⟨?_, ?_, ?_⟩
  · unfold Reply.visits
    split
    · rename_i i en heq
      simpa using fun hi : i = p => hreply (.visiting en) (by rw [heq, hi])
    · rfl
  · unfold Reply.asks
    split
    · rename_i i en object heq
      simpa using fun hi : i = p => hreply (.asking en object) (by rw [heq, hi])
    · rfl
  · unfold Step.drives
    split
    · rename_i i progress heq
      simpa using fun hi : i = p => hreply progress (by rw [heq, hi])
    · rename_i hevent heq
      rcases hhead : st.before.calls.head? with _ | c
      · rfl
      · simpa using hpanic hevent heq c hhead
    · rfl

end Counts

/-- What one step has to pay. -/
theorem Paid.one {st : Step} {n n' : Nat}
    (hvisits : (st.reply.visits p).toNat +
      (blockSize * n' + st.after.entriesDue p + st.after.questionsOpen p) ≤
        blockSize * n + st.before.entriesDue p + st.before.questionsOpen p)
    (hasks : (st.reply.asks p).toNat + (blockSize * n' + st.after.entriesDue p) ≤
      blockSize * n + st.before.entriesDue p)
    (hdrives : (st.drives p).toNat + ((2 * blockSize + 1) * n' + 2 * st.after.entriesDue p +
        st.after.questionsOpen p + (st.after.callsOf p).length) ≤
      (2 * blockSize + 1) * n + 2 * st.before.entriesDue p + st.before.questionsOpen p +
        (st.before.callsOf p).length + (st.enters p).toNat) :
    Paid p st.before n [st] st.after n' := by
  have hcount : ∀ f : Step → Bool, [st].countP f = (f st).toNat := fun f => by
    cases hf : f st <;> simp [hf]
  refine ⟨?_, ?_, ?_⟩ <;> simpa only [hcount]

/-- A step of the innermost iteration of the pass, which goes on. -/
theorem Paid.of_head {st : Step} {n n' : Nat} {c c' : Call} {rest : List Call} {progress : Progress}
    (hcalls : st.before.callsOf p = c :: rest) (hcalls' : st.after.callsOf p = c' :: rest)
    (hreply : st.reply = .progressed p progress)
    (hvisits : (st.reply.visits p).toNat + (blockSize * n' + c'.entriesLeft + c'.questions) ≤
      blockSize * n + c.entriesLeft + c.questions)
    (hasks : (st.reply.asks p).toNat +
      (blockSize * n' + c'.entriesLeft) ≤ blockSize * n + c.entriesLeft)
    (hdrives : 1 + ((2 * blockSize + 1) * n' + 2 * c'.entriesLeft + c'.questions) ≤
      (2 * blockSize + 1) * n + 2 * c.entriesLeft + c.questions) :
    Paid p st.before n [st] st.after n' := by
  have hdrive := drives_of_progressed hreply
  have henter := enters_of_progressed hreply
  apply Paid.one
  all_goals
    simp only [entriesDue, questionsOpen, hcalls, hcalls', hdrive, henter, List.map_cons,
      List.sum_cons, List.length_cons, Bool.toNat_true, Bool.toNat_false]
    omega

/-- **One event** takes from what there is to do what it does, where it leaves a block less to be
claimed if it claims one. -/
theorem Turned.paid (st : Step) {n n' : Nat} (h : Turned p st.before st.event st.after st.reply)
    (hn : n' + (st.reply.claim? p).toList.length = n) : Paid p st.before n [st] st.after n' := by
  cases h with
  | aside hcalls hreply hpanic =>
      obtain ⟨hvisits, hasks, hdrives⟩ := uncounted hreply hpanic
      obtain rfl : n' = n := by simpa [claim?_eq_none fun m => hreply (.claimed m)] using hn
      apply Paid.one <;> simp [entriesDue, questionsOpen, hcalls, hvisits, hasks, hdrives]
  | @entered c hcalls hleft hstage hevent hreply =>
      obtain ⟨method, hevent⟩ := hevent
      obtain rfl : n' = n := by simpa [hreply, Reply.claim?] using hn
      have hnone : c.questions = 0 := by simp [Call.questions, hstage]
      have henters : st.enters p = true := by simp [Step.enters, hevent, hreply]
      have hdrives : st.drives p = false := by simp [Step.drives, hevent, hreply]
      apply Paid.one
      all_goals
        simp [entriesDue, questionsOpen, hcalls, hleft, hnone, henters, hdrives, hreply,
          Reply.visits, Reply.asks, Nat.add_assoc]
  | @offered c c' rest progress hcalls hcalls' hleft hstage hreply hclaim =>
      obtain rfl : n' = n := by simpa [hreply, claim?_eq_none, hclaim] using hn
      have hkind : (st.reply.visits p).toNat + c'.questions ≤ 1 ∧ (st.reply.asks p).toNat ≤ 1 ∧
          c'.questions ≤ 1 := by
        rw [hreply]
        cases progress <;> simp_all [Reply.visits, Reply.asks, Call.questions, Progress.stage]
      obtain ⟨hvisits, hasks, hopen⟩ := hkind
      refine .of_head hcalls hcalls' hreply ?_ ?_ ?_ <;> omega
  | @judged c c' rest progress hcalls hcalls' hleft hask hstage hreply hkind =>
      have hclaim : st.reply.claim? p = none := by
        rcases hkind with ⟨en, rfl⟩ | ⟨en, rfl⟩ <;> simp [hreply, Reply.claim?]
      obtain rfl : n' = n := by simpa [hclaim] using hn
      have hasks : (st.reply.asks p).toNat = 0 := by
        rcases hkind with ⟨en, rfl⟩ | ⟨en, rfl⟩ <;> simp [hreply, Reply.asks]
      have hvisits := (st.reply.visits p).toNat_le
      refine .of_head hcalls hcalls' hreply ?_ ?_ ?_ <;> omega
  | @claimed c c' rest m hcalls hcalls' hleft hstage hreply =>
      obtain rfl : n' + 1 = n := by simpa [hreply, Reply.claim?] using hn
      have hnone : c'.questions = 0 := by simp [Call.questions, hstage]
      have hcounts : (st.reply.visits p).toNat = 0 ∧ (st.reply.asks p).toNat = 0 := by
        simp [hreply, Reply.visits, Reply.asks]
      obtain ⟨hvisits, hasks⟩ := hcounts
      refine .of_head hcalls hcalls' hreply ?_ ?_ ?_
      all_goals
        rw [Nat.mul_add]
        omega
  | @closed c rest hcalls hcalls' hwhy =>
      have hcounts :
          st.reply.visits p = false ∧ st.reply.asks p = false ∧ st.reply.claim? p = none := by
        rcases hwhy with hreply | ⟨-, hreply⟩ <;>
          simp [hreply, Reply.visits, Reply.asks, Reply.claim?]
      obtain ⟨hvisits, hasks, hclaim⟩ := hcounts
      obtain rfl : n' = n := by simpa [hclaim] using hn
      have hdrives := (st.drives p).toNat_le
      apply Paid.one
      all_goals
        simp only [entriesDue, questionsOpen, hcalls, hcalls', hvisits, hasks, List.map_cons,
          List.sum_cons, List.length_cons, Bool.toNat_false]
        omega

/-- **In the course of its life** a pinned pass does not more than there was to do for it. -/
theorem Pinned.tally (h : w.Pinned p k L C) (hw : w.Sound) (hcourse : Course w steps w') :
    Paid p w (L.length - C.length) steps w' (L.length - (C ++ claims p steps).length) := by
  induction hcourse with
  | nil => simpa [claims] using Paid.refl p w (L.length - C.length)
  | @snoc w₁ steps e hcourse htolerates ih =>
      refine ih.append ?_
      have hw₁ := hcourse.sound hw
      have ht := hw₁.transition_of_tolerates htolerates
      have h₁ := (h.course hw hcourse).1
      have hlen := (h₁.step hw₁ ht).1.claims_initial.length_le
      refine Turned.paid ⟨w₁, e⟩ (ht.turned p) ?_
      rw [claims_snoc]
      simp only [List.length_append, Step.reply] at hlen ⊢
      omega

end World

end RootStore
