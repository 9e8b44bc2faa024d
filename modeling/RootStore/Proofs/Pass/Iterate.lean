import RootStore.Block.Scan
import RootStore.Proofs.Pass.Pinned
import RootStore.Proofs.Storage.Balance
import RootStore.World.Iteration

/-!
# Iterations are courses

An iteration is written as a loop that calls a visitor, and the visitor may do anything, iterate the
same pass included.  As long as it does what is tolerated and is done with the iterations that it
enters, the loop makes a course, and it comes to an end within its bound: at every turn there is one
entry less to visit in the block that is scanned, or one block less to claim.

* `World.Meets` — what an iteration comes to.
* `Visitor.Keeps`, `Visitor.Lawful` — what is asked of a visitor.
* `World.Underway` — **the invariant of the loop**.
* `Step.OfLoop`, `World.Iterated` — what comes of an iteration.
* `World.iterate_course` — **every iteration of a pass is a course and ends**, whatever its visitor
  keeps to.
* `World.iterate_run` — it is a run, if its visitor does only what is permitted.
-/

namespace RootStore

variable {σ : Type}

/-- **What the loop of an iteration comes to** that stands in the world `w₀` with the state `s₀` of
its visitor: a world, a state, and what the loop waits for there. -/
inductive World.Meets (v : Visitor σ) (w₀ : World) (s₀ : σ) : World → σ → Stage → Prop
  /-- It has not gone on yet. -/
  | began : Meets v w₀ s₀ w₀ s₀ .ready
  /-- It has taken a step. -/
  | advanced {w w' : World} {s : σ} {progress : Progress} (h : Meets v w₀ s₀ w s .ready)
      (hadvance : w.advance = .ok (w', progress)) (hgoes : progress ≠ .finished) :
      Meets v w₀ s₀ w' s progress.stage
  /-- The visitor has returned. -/
  | visited {w w' : World} {s s' : σ} {e : Entry} (h : Meets v w₀ s₀ w s (.visiting e))
      (hvisit : v.visit e w s = (w', s', none)) : Meets v w₀ s₀ w' s' .ready
  /-- The judge has returned and its verdict has been taken. -/
  | judged {w w₁ w' : World} {s s' : σ} {e : Entry} {object : Reference} {alive : Bool}
      {progress : Progress} (h : Meets v w₀ s₀ w s (.asking e object))
      (hask : v.judge object w s = (w₁, s', .ok alive))
      (hjudge : w₁.judge alive = .ok (w', progress)) : Meets v w₀ s₀ w' s' progress.stage

/-- **A visitor that keeps to steps of which `P` holds** in an iteration of the pass `p` within the
iterations `outer`, from the world `w₀` on where the loop of that iteration stands: each call that
the loop comes to is a course of such steps, and the visitor is done with the iterations that it has
entered when it returns or panics. -/
structure Visitor.Keeps (v : Visitor σ) (p : Nat) (outer : List Call) (w₀ : World) (s₀ : σ)
    (P : Step → Prop) : Prop where
  visit : ∀ (w : World) (s : σ) (c : Call) (e : Entry), World.Meets v w₀ s₀ w s (.visiting e) →
    w.Sound → w.calls = c :: outer → c.pass = p → c.stage = .visiting e →
    (∃ steps, World.Course w steps (v.visit e w s).1 ∧ ∀ st ∈ steps, P st) ∧
      (v.visit e w s).1.calls = w.calls
  judge : ∀ (w : World) (s : σ) (c : Call) (e : Entry) (object : Reference),
    World.Meets v w₀ s₀ w s (.asking e object) →
    w.Sound → w.calls = c :: outer → c.pass = p → c.stage = .asking e object →
    (∃ steps, World.Course w steps (v.judge object w s).1 ∧ ∀ st ∈ steps, P st) ∧
      (v.judge object w s).1.calls = w.calls

/-- A visitor that does what is permitted, and is done with the iterations that it has entered when
it returns or panics. -/
structure Visitor.Lawful (v : Visitor σ) : Prop where
  visit : ∀ (w : World) (s : σ) (c : Call) (e : Entry), w.Sound → w.calls.head? = some c →
    c.stage = .visiting e →
    (∃ steps, World.Run w steps (v.visit e w s).1) ∧ (v.visit e w s).1.calls = w.calls
  judge : ∀ (w : World) (s : σ) (c : Call) (e : Entry) (object : Reference), w.Sound →
    w.calls.head? = some c → c.stage = .asking e object →
    (∃ steps, World.Run w steps (v.judge object w s).1) ∧ (v.judge object w s).1.calls = w.calls

/-- A lawful visitor keeps to what is permitted. -/
theorem Visitor.Lawful.keeps {v : Visitor σ} (h : v.Lawful) (p : Nat) (outer : List Call)
    (w₀ : World) (s₀ : σ) : v.Keeps p outer w₀ s₀ fun st => st.before.Permits st.event where
  visit := fun w s c e _ hw hcalls _ hstage => by
    obtain ⟨⟨steps, hrun⟩, hsame⟩ := h.visit w s c e hw (by simp [hcalls]) hstage
    exact ⟨⟨steps, hrun.course, fun _ => hrun.permits⟩, hsame⟩
  judge := fun w s c e object _ hw hcalls _ hstage => by
    obtain ⟨⟨steps, hrun⟩, hsame⟩ := h.judge w s c e object hw (by simp [hcalls]) hstage
    exact ⟨⟨steps, hrun.course, fun _ => hrun.permits⟩, hsame⟩

/-- The step is one that an iteration of the pass `p` within the iterations `outer` takes itself. -/
structure Step.OfLoop (p : Nat) (outer : List Call) (st : Step) : Prop where
  permitted : st.before.Permits st.event
  event : st.event = .advance ∨ (∃ alive, st.event = .judge alive) ∨ st.event = .panic
  innermost : ∃ c, st.before.calls = c :: outer ∧ c.pass = p

/-- How many entries are left in the block that is scanned. -/
def Call.entriesLeft (c : Call) : Nat := (c.scanning.map (·.snapshot.indices.length)).getD 0

namespace World

variable {w w' w₀ : World} {p k id : Nat} {method : Method} {s₀ : σ} {c : Call} {outer : List Call}
  {L C : List Nat} {steps later : List Step} {e : Event} {r : Reply} {P : Step → Prop}

/-- An event that takes place is a run of one step. -/
theorem run_act (hp : w.Permits e) (hact : w.act e = .ok (w', r)) :
    Run w [⟨w, e⟩] w' ∧ (Step.mk w e).reply = r := by
  have hrun := Run.snoc e (.nil w) hp
  have hperform : w.perform e = (w', r) := by simp only [perform, hact]
  rw [hperform] at hrun
  exact ⟨hrun, by simp only [Step.reply, hperform]⟩

/-! ## The invariant of the loop -/

/-- An iteration of the pass `p` is under way within the iterations `outer`; the pass has claimed
`C` of the list `L` since the iteration was entered. -/
structure Underway (w : World) (c : Call) (outer : List Call) (p k : Nat)
    (L C : List Nat) : Prop where
  sound : w.Sound
  calls : w.calls = c :: outer
  pass : c.pass = p
  pinned : w.Pinned p k L C

/-- How many turns the loop has before it at most, but for the last one. -/
def turnsLeft (c : Call) (L C : List Nat) : Nat :=
  (blockSize + 1) * (L.length - C.length) + c.entriesLeft

/-- What a visitor does may bring the iteration nearer to its end. -/
theorem Underway.course (h : w.Underway c outer p k L C) (hcourse : Course w steps w')
    (hcalls : w'.calls = w.calls) : ∃ C', w'.Underway c outer p k L C' ∧
      turnsLeft c L C' ≤ turnsLeft c L C := by
  refine ⟨C ++ claims p steps, ⟨hcourse.sound h.sound, hcalls.trans h.calls, h.pass,
    (h.pinned.course h.sound hcourse).1⟩, ?_⟩
  have hle : L.length - (C ++ claims p steps).length ≤ L.length - C.length := by
    rw [List.length_append]
    omega
  exact Nat.add_le_add_right (Nat.mul_le_mul_left _ hle) _

/-- **One turn** returns from the iteration, or there are fewer turns left. -/
theorem Underway.advance (h : w.Underway c outer p k L C)
    (hstage : ∀ e object, c.stage ≠ .asking e object) :
    ∃ w' progress, w.advance = .ok (w', progress) ∧ Run w [⟨w, .advance⟩] w' ∧
      (Step.mk w .advance).OfLoop p outer ∧
      (progress = .finished ∧ w'.calls = outer ∧ (Step.mk w .advance).Returns p ∨
        progress ≠ .finished ∧ ∃ c' C', w'.Underway c' outer p k L C' ∧
          c'.stage = progress.stage ∧ turnsLeft c' L C' < turnsLeft c L C) := by
  obtain ⟨w', progress, hadvance, ht⟩ := h.sound.advance_ok h.calls
  have hinner : w.innermost = c.pass := by simp [innermost, h.calls]
  have hact : w.act .advance = .ok (w', .progressed c.pass progress) := by
    simp [act, Except.map, hadvance, hinner]
  have hp : w.Permits .advance := ⟨c, by simp [h.calls], hstage⟩
  obtain ⟨hrun, hreply⟩ := run_act hp hact
  refine ⟨w', progress, hadvance, hrun, ⟨hp, .inl rfl, c, h.calls, h.pass⟩, ?_⟩
  have hsound := ht.sound h.sound
  have hpinned := (h.pinned.step h.sound ht).1
  rw [h.pass] at hpinned hreply
  have hcalls := h.calls
  generalize hr : Reply.progressed c.pass progress = r at ht
  cases ht with
  | failed hact hwhy => cases hr
  | @offered c₁ outer₁ q s scan slot v hcalls₁ hq hs hscan hslot hload =>
      obtain ⟨rfl, rfl⟩ := List.cons.inj (hcalls.symm.trans hcalls₁)
      obtain ⟨-, rfl⟩ := Reply.progressed.inj hr
      have hnone : Reply.claim? p (.progressed p
          (Progress.offer c.method ⟨q.storage, ⟨scan.block, slot⟩, q.access⟩ v)) = none := by
        rcases hm : c.method <;> rcases v <;> simp [Reply.claim?, Progress.offer]
      rw [hnone] at hpinned
      refine Or.inr ⟨?_, _, C, ⟨hsound, rfl, h.pass, by simpa using hpinned⟩, rfl, ?_⟩
      · rcases hm : c.method <;> rcases v <;> simp [Progress.offer]
      · have hleft := Mask.indices_eq_cons hslot
        simp only [turnsLeft, Call.entriesLeft, hscan, Option.map_some, Option.getD_some, hleft,
          List.length_cons]
        omega
  | @claimed c₁ outer₁ q s n b hcalls₁ hq hs hdone hcursor hb =>
      obtain ⟨rfl, rfl⟩ := List.cons.inj (hcalls.symm.trans hcalls₁)
      obtain ⟨-, rfl⟩ := Reply.progressed.inj hr
      have hone : Reply.claim? p (.progressed p (.claimed n)) = some n := by simp [Reply.claim?]
      rw [hone] at hpinned
      refine Or.inr ⟨by simp, _, _, ⟨hsound, rfl, h.pass, hpinned⟩, rfl, ?_⟩
      have hlen := hpinned.claims_initial.length_le
      have hmask : b.mask.indices.length ≤ blockSize := b.mask.length_indices_le
      simp only [turnsLeft, Call.entriesLeft, Option.map_some, Option.getD_some, Option.toList_some,
        List.length_append, List.length_cons, List.length_nil] at hlen ⊢
      have hless : L.length - C.length = L.length - (C.length + (0 + 1)) + 1 := by omega
      rw [hless, Nat.mul_add]
      omega
  | @finished c₁ outer₁ q s hcalls₁ hq hs hdone hcursor =>
      obtain ⟨rfl, rfl⟩ := List.cons.inj (hcalls.symm.trans hcalls₁)
      obtain ⟨-, rfl⟩ := Reply.progressed.inj hr
      exact Or.inl ⟨rfl, rfl, hreply⟩

/-- **A verdict** hands the entry to the visitor or clears it. -/
theorem Underway.judge {en : Entry} {object : Reference} (alive : Bool)
    (h : w.Underway c outer p k L C) (hstage : c.stage = .asking en object) :
    ∃ w' progress, w.judge alive = .ok (w', progress) ∧ Run w [⟨w, .judge alive⟩] w' ∧
      (Step.mk w (.judge alive)).OfLoop p outer ∧
      (progress = .visiting en ∨ progress = .cleared en) ∧ ∃ c', w'.Underway c' outer p k L C ∧
        c'.stage = progress.stage ∧ turnsLeft c' L C = turnsLeft c L C := by
  obtain ⟨w', progress, hjudge, ht⟩ := h.sound.judge_ok alive h.calls hstage
  have hinner : w.innermost = c.pass := by simp [innermost, h.calls]
  have hact : w.act (.judge alive) = .ok (w', .progressed c.pass progress) := by
    simp [act, Except.map, hjudge, hinner]
  have hp : w.Permits (.judge alive) := ⟨c, en, object, by simp [h.calls], hstage⟩
  obtain ⟨hrun, -⟩ := run_act hp hact
  refine ⟨w', progress, hjudge, hrun, ⟨hp, .inr (.inl ⟨alive, rfl⟩), c, h.calls, h.pass⟩, ?_⟩
  have hsound := ht.sound h.sound
  have hpinned := (h.pinned.step h.sound ht).1
  have hcalls := h.calls
  generalize hr : Reply.progressed c.pass progress = r at ht hpinned
  cases ht with
  | failed hact hwhy => cases hr
  | @upheld c₁ outer₁ en₁ object₁ hcalls₁ hstage₁ =>
      obtain ⟨rfl, rfl⟩ := List.cons.inj (hcalls.symm.trans hcalls₁)
      obtain ⟨rfl, rfl⟩ := Stage.asking.inj (hstage.symm.trans hstage₁)
      obtain ⟨-, rfl⟩ := Reply.progressed.inj hr
      exact ⟨Or.inl rfl, _, ⟨hsound, rfl, h.pass, by simpa [Reply.claim?] using hpinned⟩, rfl, rfl⟩
  | @cleared c₁ outer₁ en₁ object₁ s s' hcalls₁ hstage₁ hs hstore hwritten huse =>
      obtain ⟨rfl, rfl⟩ := List.cons.inj (hcalls.symm.trans hcalls₁)
      obtain ⟨rfl, rfl⟩ := Stage.asking.inj (hstage.symm.trans hstage₁)
      obtain ⟨-, rfl⟩ := Reply.progressed.inj hr
      exact ⟨Or.inr rfl, _, ⟨hsound, rfl, h.pass, by simpa [Reply.claim?] using hpinned⟩, rfl, rfl⟩

/-! ## The loop -/

/-- What comes of an iteration of the pass `p` within the iterations `outer`, where the visitor
keeps to steps of which `P` holds. -/
structure Iterated (w : World) (p : Nat) (outer : List Call) (P : Step → Prop) (steps : List Step)
    (outcome : World × σ × Ending) : Prop where
  /-- It has been a course. -/
  course : Course w steps outcome.1
  /-- Each step is one of the visitor or one of the iteration. -/
  kept : ∀ st ∈ steps, P st ∨ st.OfLoop p outer
  /-- It is over, and those around it are as they were. -/
  calls : outcome.1.calls = outer
  /-- It has found no block left, or its visitor or judge has panicked. -/
  ending : outcome.2.2 = .returned ∧ (∃ st ∈ steps, st.Returns p) ∨
    ∃ text, outcome.2.2 = .panicked text

variable {outcome : World × σ × Ending} {v : Visitor σ}

theorem Iterated.after (h : Course w steps w') (hkept : ∀ st ∈ steps, P st ∨ st.OfLoop p outer)
    (h' : Iterated w' p outer P later outcome) : Iterated w p outer P (steps ++ later) outcome where
  course := h.append h'.course
  kept := fun st hst => (List.mem_append.1 hst).elim (hkept st) (h'.kept st)
  calls := h'.calls
  ending := h'.ending.imp_left fun ⟨hend, st, hst, hreturns⟩ =>
    ⟨hend, st, List.mem_append_right _ hst, hreturns⟩

/-- A step of the iteration, and what comes after it. -/
theorem Iterated.afterStep {st : Step} (h : Run w [st] w') (hloop : st.OfLoop p outer)
    (h' : Iterated w' p outer P later outcome) : Iterated w p outer P ([st] ++ later) outcome :=
  .after h.course (fun st' hst' => .inr (by rwa [List.mem_singleton.1 hst'])) h'

/-- A panic leaves the iteration. -/
theorem Underway.unwind (h : w.Underway c outer p k L C) (hstage : c.stage ≠ .ready) (s : σ)
    (text : String) : ∃ steps, Iterated w p outer P steps (w.unwind s text) := by
  have hleave : w.leave = .ok ({ w with calls := outer }.record [.left c.pass]) := by
    simp [leave, h.calls]
  have hact : w.act .panic = .ok ({ w with calls := outer }.record [.left c.pass], .done) := by
    simp [act, Except.map, hleave]
  have hp : w.Permits .panic := ⟨c, by simp [h.calls], hstage⟩
  have hunwind : w.unwind s text =
      ({ w with calls := outer }.record [.left c.pass], s, .panicked text) := by
    rw [World.unwind, hleave]
  have hloop : (Step.mk w .panic).OfLoop p outer := ⟨hp, .inr (.inr rfl), c, h.calls, h.pass⟩
  rw [hunwind]
  exact ⟨_, (run_act hp hact).1.course, fun st hst => .inr (by rwa [List.mem_singleton.1 hst]), rfl,
    Or.inr ⟨text, rfl⟩⟩

/-- The loop is right from any world that it comes to and where so few turns are left. -/
def LoopRight (v : Visitor σ) (p : Nat) (outer : List Call) (w₀ : World) (s₀ : σ) (k : Nat)
    (P : Step → Prop) (L : List Nat) (turns : Nat) : Prop :=
  ∀ (w : World) (s : σ) (c : Call) (C : List Nat), Meets v w₀ s₀ w s .ready →
    w.Underway c outer p k L C → (∀ e object, c.stage ≠ .asking e object) →
    turnsLeft c L C < turns → ∃ steps, Iterated w p outer P steps (run v turns w s)

/-- The visitor is called, and the loop goes on unless it panics. -/
theorem Underway.visit {turns : Nat} {en : Entry} {s : σ} (h : w.Underway c outer p k L C)
    (hv : v.Keeps p outer w₀ s₀ P) (hloop : LoopRight v p outer w₀ s₀ k P L turns)
    (hmeets : Meets v w₀ s₀ w s (.visiting en)) (hstage : c.stage = .visiting en)
    (hturns : turnsLeft c L C < turns) :
    ∃ steps, Iterated w p outer P steps (match v.visit en w s with
      | (w, s, none) => World.run v turns w s
      | (w, s, some text) => w.unwind s text) := by
  obtain ⟨⟨steps, hcourse, hkept⟩, hcalls⟩ := hv.visit w s c en hmeets h.sound h.calls h.pass hstage
  rcases hvisit : v.visit en w s with ⟨w', s', panic⟩
  rw [hvisit] at hcourse hcalls
  obtain ⟨C', h', hle⟩ := h.course hcourse hcalls
  cases panic with
  | none =>
      obtain ⟨later, hlater⟩ :=
        hloop w' s' c C' (hmeets.visited hvisit) h' (by simp [hstage]) (by omega)
      exact ⟨_, .after hcourse (fun st hst => .inl (hkept st hst)) hlater⟩
  | some text =>
      obtain ⟨later, hlater⟩ := h'.unwind (by simp [hstage]) s' text
      exact ⟨_, .after hcourse (fun st hst => .inl (hkept st hst)) hlater⟩

/-- **The loop makes a course and ends** before its turns are used up.  The induction is on the
turns. -/
theorem loopRight (hv : v.Keeps p outer w₀ s₀ P) (k : Nat) (L : List Nat) :
    ∀ turns, LoopRight v p outer w₀ s₀ k P L turns := by
  intro turns
  induction turns with
  | zero => intro w s c C hmeets h hstage hturns; omega
  | succ turns ih =>
      intro w s c C hmeets h hstage hturns
      obtain ⟨w', progress, hadvance, hrun, hown, hprogress⟩ := h.advance hstage
      rcases hprogress with ⟨rfl, hcalls, hreturns⟩ | ⟨hgoes, c', C', h', hstage', hless⟩
      · refine ⟨[⟨w, .advance⟩], ?_, fun st hst => .inr (by rwa [List.mem_singleton.1 hst]), ?_,
          Or.inl ⟨?_, _, List.mem_singleton_self _, hreturns⟩⟩
        all_goals simp only [World.run, hadvance]
        · exact hrun.course
        · exact hcalls
      · have hturns' : turnsLeft c' L C' < turns := by omega
        have hmeets' := hmeets.advanced hadvance hgoes
        -- a turn that calls nobody only goes on
        have hon : progress.stage = .ready →
            ∃ steps, Iterated w p outer P steps (World.run v turns w' s) := fun hready => by
          rw [hready] at hmeets' hstage'
          obtain ⟨steps, hsteps⟩ := ih w' s c' C' hmeets' h' (by simp [hstage']) hturns'
          exact ⟨_, .afterStep hrun hown hsteps⟩
        cases progress with
        | finished => exact absurd rfl hgoes
        | claimed n =>
            simp only [World.run, hadvance]
            exact hon rfl
        | passedOver en =>
            simp only [World.run, hadvance]
            exact hon rfl
        | cleared en =>
            simp only [World.run, hadvance]
            exact hon rfl
        | visiting en =>
            simp only [World.run, hadvance]
            obtain ⟨steps, hsteps⟩ := h'.visit hv ih hmeets' hstage' hturns'
            exact ⟨_, .afterStep hrun hown hsteps⟩
        | asking en object =>
            simp only [World.run, hadvance]
            obtain ⟨⟨asked, hasked, hkept⟩, hcalls⟩ :=
              hv.judge w' s c' en object hmeets' h'.sound h'.calls h'.pass hstage'
            have hkept : ∀ st ∈ asked, P st ∨ st.OfLoop p outer := fun st hst => .inl (hkept st hst)
            rcases hask : v.judge object w' s with ⟨w₁, s₁, verdict⟩
            rw [hask] at hasked hcalls
            obtain ⟨C₁, h₁, hle⟩ := h'.course hasked hcalls
            rcases verdict with text | alive
            · obtain ⟨later, hlater⟩ := h₁.unwind (by simp [hstage', Progress.stage]) s₁ text
              exact ⟨_, .afterStep hrun hown (.after hasked hkept hlater)⟩
            · obtain ⟨w₂, progress, hjudge, hrun₂, hown₂, hpro, c₂, h₂, hstage₂, heq⟩ :=
                h₁.judge alive hstage'
              have hturns₂ : turnsLeft c₂ L C₁ < turns := by omega
              have hmeets₂ := hmeets'.judged hask hjudge
              rcases hpro with rfl | rfl
              · simp only [hjudge]
                obtain ⟨later, hlater⟩ := h₂.visit hv ih hmeets₂ hstage₂ hturns₂
                exact ⟨_, .afterStep hrun hown
                  (.after hasked hkept (.afterStep hrun₂ hown₂ hlater))⟩
              · simp only [hjudge]
                obtain ⟨later, hlater⟩ :=
                  ih w₂ s₁ c₂ C₁ hmeets₂ h₂ (by simp [hstage₂, Progress.stage]) hturns₂
                exact ⟨_, .afterStep hrun hown
                  (.after hasked hkept (.afterStep hrun₂ hown₂ hlater))⟩

/-! ## Whole iterations -/

/-- A pass that has started stands before some list. -/
theorem Sound.pinned {q : Pass} {s : Storage} (h : w.Sound) (hq : w.passes.get? p = some q)
    (hs : w.storages.get? q.storage = some s) (hstarted : q.cursor ≠ .notStarted) :
    ∃ L, w.Pinned p q.claimed L [] ∧ L.length ≤ s.blocks.size := by
  rcases hcursor : q.cursor with _ | next
  · exact absurd hcursor hstarted
  obtain ⟨L, hsuf, hL⟩ := (h.storage_of_pass hq hs).on_list next hcursor
  refine ⟨L, ⟨(Registry.bounds_of_get?_eq_some hq).2, List.nil_prefix, fun t ht => ?_⟩, ?_⟩
  · obtain rfl := Option.some.inj (hq.symm.trans ht)
    exact ⟨s, L, hs, hsuf, rfl, by rw [hcursor, hL], rfl⟩
  · exact hsuf.length_le.trans (h.storages _ s hs).2.lists.length_le

/-- An iteration that has been entered is under way, with fewer turns before it than its bound
says. -/
theorem Sound.underway {q : Pass} (hw : w.Sound)
    (hq : w.passes.get? id = some q) (ht : Transition w (.enter id method) w' .done) :
    ∃ k L, w'.Underway { pass := id, method } w.calls id k L [] ∧
      turnsLeft { pass := id, method } L [] < w.stepBound id := by
  have hw' := ht.sound hw
  have hbound : ∀ s, w.storages.get? q.storage = some s →
      w.stepBound id = (blockSize + 1) * s.blocks.size + 1 := fun s hs => by
    simp only [stepBound, hq, Option.bind_some, hs]
  cases ht with
  | @pinned _ _ q₁ s hq₁ hs hcursor =>
      obtain rfl := Option.some.inj (hq.symm.trans hq₁)
      have hget := Registry.get?_set_of_some hq { q with cursor := .upcoming s.head } id
      obtain ⟨L, hpinned, hlen⟩ := hw'.pinned (hget.trans (if_pos rfl)) hs (by simp)
      refine ⟨_, L, ⟨hw', rfl, rfl, hpinned⟩, ?_⟩
      rw [hbound s hs]
      exact Nat.lt_succ_of_le (Nat.mul_le_mul_left _ hlen)
  | @resumed _ _ q₁ s hq₁ hs hcursor =>
      obtain rfl := Option.some.inj (hq.symm.trans hq₁)
      obtain ⟨L, hpinned, hlen⟩ := hw'.pinned hq hs hcursor
      refine ⟨_, L, ⟨hw', rfl, rfl, hpinned⟩, ?_⟩
      rw [hbound s hs]
      exact Nat.lt_succ_of_le (Nat.mul_le_mul_left _ hlen)

/-- **Every iteration of a pass is a course and ends**: it is entered, and it returns, having found
no block left, or a panic of its visitor or judge leaves it. -/
theorem iterate_course {q : Pass} {s : σ} (hw : w.Sound)
    (hv : ∀ w', w.enter id method = .ok w' → v.Keeps id w.calls w' s P)
    (hq : w.passes.get? id = some q) (hoffers : q.offers method = true) :
    ∃ w' steps, w.Permits (.enter id method) ∧ w.act (.enter id method) = .ok (w', .done) ∧
      Iterated w' id w.calls P steps (w.iterate id method v s) := by
  obtain ⟨w', henter, ht⟩ : ∃ w', w.enter id method = .ok w' ∧
    Transition w (.enter id method) w' .done := hw.enter_ok hq
  have hact : w.act (.enter id method) = .ok (w', .done) := by simp [act, Except.map, henter]
  have hp : w.Permits (.enter id method) := fun p hpass => by
    rwa [← Option.some.inj (hq.symm.trans hpass)]
  obtain ⟨k, L, hunderway, hturns⟩ := hw.underway hq ht
  obtain ⟨steps, hsteps⟩ :=
    loopRight (hv w' henter) k L _ w' s _ [] .began hunderway (by simp) hturns
  have heq : w.iterate id method v s = World.run v (w.stepBound id) w' s := by
    simp only [iterate, henter]
  rw [heq]
  exact ⟨w', steps, hp, hact, hsteps⟩

/-- **Every iteration with a lawful visitor is a run and ends.**  So a visitor that iterates passes
lawfully is lawful itself. -/
theorem iterate_run {q : Pass} (hw : w.Sound) (hv : v.Lawful)
    (hq : w.passes.get? id = some q) (hoffers : q.offers method = true) (s : σ) :
    ∃ steps, Run w steps (w.iterate id method v s).1 ∧ (w.iterate id method v s).1.calls = w.calls ∧
      ((w.iterate id method v s).2.2 = .returned ∧ (∃ st ∈ steps, st.Returns id) ∨
        ∃ text, (w.iterate id method v s).2.2 = .panicked text) := by
  obtain ⟨w', steps, hp, hact, hiterated⟩ :=
    iterate_course hw (fun w' _ => hv.keeps id w.calls w' s) hq hoffers
  have hpermitted : ∀ st ∈ steps, st.before.Permits st.event := fun st hst =>
    (hiterated.kept st hst).elim (fun h => h) (·.permitted)
  refine ⟨[⟨w, .enter id method⟩] ++ steps,
    (run_act hp hact).1.append (hiterated.course.run hpermitted), hiterated.calls, ?_⟩
  exact hiterated.ending.imp_left fun ⟨hend, st, hst, hreturns⟩ =>
    ⟨hend, st, List.mem_append_right _ hst, hreturns⟩

/-- A visitor that does nothing is lawful. -/
example : Visitor.Lawful (σ := Unit)
    ⟨fun _ w s => (w, s, none), fun _ w s => (w, s, .ok true)⟩ where
  visit := fun w _ _ _ _ _ _ => ⟨⟨[], .nil w⟩, rfl⟩
  judge := fun w _ _ _ _ _ _ _ => ⟨⟨[], .nil w⟩, rfl⟩

end World

end RootStore
