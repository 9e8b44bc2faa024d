import RootStore.Proofs.Pass.Flag
import RootStore.Proofs.Pass.Once
import RootStore.Proofs.World.Record

/-!
# The trace of a pass

The rows about one pass stand among those about all others, and they come from many places: where
the pass begins and ends, and where its iterations, one after the other or one from within the
visitor of another, are entered, return or are left by a panic.  Taken together they are one
well-formed story.

* `Row.Nested` — rows of iterations that are entered and left, properly nested.
* `World.Iterations`, `World.Ending` — what is recorded of a pass's iterations and of its end.
* `World.PassRecorded`, `World.Transition.pass_recorded` — what one event records of a pass.
* `World.PassTrace.step` — **a well-formed trace stays well formed.**
* `World.Traced`, `World.traced` — **what is said of the trace, and that it holds of every run.**
-/

namespace RootStore

/-! ## Rows that nest -/

namespace Row

/-- The pass that a row is about, if it is about one. -/
def pass? : Row → Option Nat
  | .passBegan p _ _ | .entered p | .left p | .closed p | .iterationStarted p _
  | .passEnded p _ => some p
  | .blockLinked _ _ | .blocksDeleted _ _ | .deletionInhibited _ => none

/-- **Iterations of a pass that are properly nested**, `n` of them still under way. -/
inductive Nested (p : Nat) : Nat → List Row → Prop
  /-- There is none. -/
  | nil : Nested p 0 []
  /-- The first one has been left, with whole iterations inside it. -/
  | pair {n : Nat} {inner rest : List Row} (hinner : Nested p 0 inner) (hrest : Nested p n rest) :
      Nested p n (.entered p :: (inner ++ .left p :: rest))
  /-- The first one is under way, with all others inside it. -/
  | under {n : Nat} {rest : List Row} (hrest : Nested p n rest) :
      Nested p (n + 1) (.entered p :: rest)

namespace Nested

variable {p n : Nat} {rows : List Row}

/-- One more iteration is entered. -/
theorem enter (h : Nested p n rows) : Nested p (n + 1) (rows ++ [.entered p]) := by
  induction h with
  | nil => exact .under .nil
  | pair hinner hrest ih ih' =>
      rw [List.cons_append, List.append_assoc]
      exact .pair hinner ih'
  | under hrest ih => exact .under ih

/-- The innermost iteration is left. -/
theorem leave (h : Nested p (n + 1) rows) : Nested p n (rows ++ [.left p]) := by
  generalize hk : n + 1 = k at h
  induction h generalizing n with
  | nil => cases hk
  | pair hinner hrest ih ih' =>
      rw [List.cons_append, List.append_assoc]
      exact .pair hinner (ih' hk)
  | @under k rest hrest ih =>
      obtain rfl := Nat.succ.inj hk
      cases n with
      | zero => exact .pair hrest .nil
      | succ n => exact .under (ih rfl)

end Nested

end Row

/-! ## What is said of one pass -/

/-- An iteration of the pass is left: it returns, or its visitor or judge panics out of it. -/
def Event.Leaves (p : Nat) (w : World) (e : Event) (r : Reply) : Prop :=
  r = .progressed p .finished ∨ e = .panic ∧ r = .done ∧ w.innermost = p

instance (p : Nat) (e : Event) : Decidable (∃ method, e = .enter p method) :=
  match e with
  | .enter i method => decidable_of_iff (i = p)
      ⟨by rintro rfl; exact ⟨method, rfl⟩, by rintro ⟨_, h⟩; cases h; rfl⟩
  | .create _ | .drop _ | .allocate _ | .release _ _ | .get _ _ | .set _ _ _ | .delete _ _
  | .beginPass _ _ _ | .endPass _ | .forgetPass _ | .advance | .judge _ | .panic | .load _
  | .store _ _ | .exchange _ _ _ => .isFalse (by rintro ⟨_, h⟩; cases h)

instance (p : Nat) (st : Step) : Decidable (st.Enters p) :=
  inferInstanceAs (Decidable ((∃ method, st.event = .enter p method) ∧ st.reply = .done))

instance (p : Nat) (w : World) (e : Event) (r : Reply) : Decidable (e.Leaves p w r) :=
  inferInstanceAs (Decidable (r = .progressed p .finished ∨
    e = .panic ∧ r = .done ∧ w.innermost = p))

section

variable {p : Nat} {w : World} {e : Event} {r : Reply} {st : Step}

theorem Step.Enters.not_leaves (h : st.Enters p) : ¬ st.event.Leaves p st.before st.reply := by
  obtain ⟨⟨method, hevent⟩, hreply⟩ := h
  simp [Event.Leaves, hevent, hreply]

theorem Step.Enters.not_ends (h : st.Enters p) : ¬ st.event.Ends p st.reply := by
  obtain ⟨⟨method, hevent⟩, -⟩ := h
  simp [Event.Ends, hevent]

theorem Event.Leaves.not_ends (h : e.Leaves p w r) : ¬ e.Ends p r := by
  rcases h with rfl | ⟨rfl, -⟩ <;> simp [Event.Ends]

theorem Event.Leaves.claim?_eq_none (h : e.Leaves p w r) : r.claim? p = none := by
  rcases h with rfl | ⟨-, rfl, -⟩ <;> rfl

end

/-- The pass that has begun, if that is what is answered. -/
def Reply.began? : Reply → Option Nat
  | .began p => some p
  | _ => none

namespace World

variable {w w' : World} {e : Event} {r : Reply} {p : Nat} {q : Pass} {s : Storage} {row : Row}
  {later steps : List Step} {st : Step} {calls ending : List Row}

/-- The rows about a pass. -/
def rowsOf (w : World) (p : Nat) : List Row := w.log.toList.filter (·.pass? = some p)

/-- How many iterations of the pass are under way. -/
def depth (w : World) (p : Nat) : Nat := w.calls.countP (·.pass = p)

/-- The passes that begin in these steps, in order. -/
def begun (steps : List Step) : List Nat := steps.filterMap (·.reply.began?)

/-- **What is recorded of the iterations of a pass**, where `later` has happened since it began, up
to the world `w`. -/
inductive Iterations (p : Nat) (later : List Step) (w : World) : List Row → Prop
  /-- It has not been iterated. -/
  | unstarted (henter : ∀ st ∈ later, ¬ st.Enters p)
      (hleave : ∀ st ∈ later, ¬ st.event.Leaves p st.before st.reply) (hdepth : w.depth p = 0) :
      Iterations p later w []
  /-- Its first iteration has pinned it to the head of its storage's list, which is recorded just
  after the entry; apart from that there is one entry for each iteration and one exit for each that
  was left, by returning or by a panic, and they nest. -/
  | started {between after : List Step} {first : Step} {q : Pass} {s : Storage} {rest : List Row}
      (hlater : later = between ++ first :: after) (hbetween : ∀ st ∈ between, ¬ st.Enters p)
      (hfirst : first.Enters p) (hq : first.before.passes.get? p = some q)
      (hs : first.before.storages.get? q.storage = some s)
      (hpinned : first.after.passes.get? p = some { q with cursor := .upcoming s.head })
      (hnested : Row.Nested p (w.depth p) (.entered p :: rest))
      (hentered : (Row.entered p :: rest).count (.entered p) = later.countP fun st => st.Enters p)
      (hleft : (Row.entered p :: rest).count (.left p) =
        later.countP fun st => st.event.Leaves p st.before st.reply) :
      Iterations p later w (.entered p :: .iterationStarted p s.head :: rest)

/-- **What is recorded of the end of a pass.** -/
inductive Ending (p : Nat) (later : List Step) (w : World) : List Row → Prop
  /-- It was not dropped. -/
  | undropped (hends : ∀ st ∈ later, ¬ st.event.Ends p st.reply) : Ending p later w []
  /-- It was dropped when none of its iterations was under way; the blocks recorded are those that
  it had claimed. -/
  | dropped {before after : List Step} {last : Step} {q : Pass}
      (hlater : later = before ++ last :: after)
      (hends : last.event.Ends p last.reply) (hq : last.before.passes.get? p = some q)
      (hclaimed : q.claimed = (claims p before).length) (hdepth : w.depth p = 0) :
      Ending p later w [.passEnded p q.claimed, .closed p]

/-- **The rows about a pass**: `row`, its iterations and its end.  While the pass is alive it has
not ended, has been iterated if it has started, and counts the blocks that it has claimed. -/
structure PassTrace (p : Nat) (row : Row) (later : List Step) (w : World) : Prop where
  known : p ≤ w.passes.size
  rows : ∃ calls ending, w.rowsOf p = row :: (calls ++ ending) ∧ Iterations p later w calls ∧
    Ending p later w ending ∧ ∀ q, w.passes.get? p = some q →
      ending = [] ∧ (calls = [] ↔ q.cursor = .notStarted) ∧ q.claimed = (claims p later).length

/-! ## One event -/

/-- An event records nothing about a pass and neither begins, enters, leaves nor ends it. -/
structure Silent (w : World) (e : Event) (w' : World) (r : Reply) (p : Nat) : Prop where
  rows : (e.rows w w' r).filter (·.pass? = some p) = []
  depth : w'.depth p = w.depth p
  begins : r ≠ .began p
  enters : ¬ ((∃ method, e = .enter p method) ∧ r = .done)
  leaves : ¬ e.Leaves p w r
  ends : ¬ e.Ends p r

/-- What an event records of a pass. -/
inductive PassRecorded (w : World) (e : Event) (w' : World) (r : Reply) (p : Nat) : Prop
  /-- Nothing. -/
  | silent (h : Silent w e w' r p)
  /-- The pass begins. -/
  | began {id : Nat} {concurrent : Bool} {access : Access} {s : Storage}
      (hp : p = w.passes.size + 1)
      (hbegan : r = .began p) (hevent : e = .beginPass id concurrent access)
      (hs : w.storages.get? id = some s)
      (hrows : (e.rows w w' r).filter (·.pass? = some p) = [.passBegan p s.name concurrent])
      (hdepth : w'.depth p = 0)
      (hq' : w'.passes.get? p = some { storage := id, concurrent, access })
  /-- An iteration is entered, for the first time where the pass has not started. -/
  | entered {q : Pass} {s : Storage} (hq : w.passes.get? p = some q)
      (hs : w.storages.get? q.storage = some s)
      (henter : (∃ method, e = .enter p method) ∧ r = .done)
      (hrows : (e.rows w w' r).filter (·.pass? = some p) = .entered p ::
        if q.cursor = .notStarted then [.iterationStarted p s.head] else [])
      (hq' : w'.passes.get? p =
        some (if q.cursor = .notStarted then { q with cursor := .upcoming s.head } else q))
      (hdepth : w'.depth p = w.depth p + 1)
  /-- An iteration is left. -/
  | left {q : Pass} (hq : w.passes.get? p = some q) (hleave : e.Leaves p w r)
      (hrows : (e.rows w w' r).filter (·.pass? = some p) = [.left p])
      (hq' : w'.passes.get? p = some q) (hdepth : w.depth p = w'.depth p + 1)
  /-- The pass ends. -/
  | ended {q : Pass} (hq : w.passes.get? p = some q) (hends : e.Ends p r)
      (hrows : (e.rows w w' r).filter (·.pass? = some p) = [.passEnded p q.claimed, .closed p])
      (hq' : w'.passes.get? p = none) (hdepth : w.depth p = 0) (hdepth' : w'.depth p = 0)

/-- A step adds to the rows about a pass what it records of it. -/
theorem Sound.rowsOf_eq (h : w.Sound) (hp : w.Permits e) :
    (w.perform e).1.rowsOf p = w.rowsOf p ++ (Step.mk w e).rows.filter (·.pass? = some p) := by
  rw [rowsOf, h.log_eq hp, List.filter_append]
  rfl

theorem depth_of_calls {c : Call} {outer : List Call} (h : w.calls = c :: outer) :
    w.depth p = outer.countP (·.pass = p) + if c.pass = p then 1 else 0 := by
  rw [depth, h, List.countP_cons]
  simp

theorem depth_congr {c d : Call} {outer : List Call} (h : w.calls = c :: outer)
    (h' : w'.calls = d :: outer) (hpass : d.pass = c.pass) : w'.depth p = w.depth p := by
  rw [depth_of_calls h, depth_of_calls h', hpass]

/-- A pass that is not alive is not iterated. -/
theorem Sound.depth_of_gone (h : w.Sound) (hq : w.passes.get? p = none) : w.depth p = 0 := by
  refine List.countP_eq_zero.2 fun c hc => ?_
  obtain ⟨q, s, hq', -⟩ := h.calls c hc
  rintro hcp
  simp [← of_decide_eq_true hcp, hq'] at hq

/-- **What an event records of a pass.** -/
theorem Transition.pass_recorded (ht : Transition w e w' r) (hw : w.Sound) (p : Nat) :
    PassRecorded w e w' r p := by
  cases ht with
  | failed =>
      exact .silent ⟨by cases e <;> rfl, rfl, by simp, by simp, by simp [Event.Leaves],
        by simp [Event.Ends]⟩
  | created | dropped | refused | released | lost | got | written | forgotten | loaded | stored
  | exchanged =>
      exact .silent ⟨rfl, rfl, by simp, by simp, by simp [Event.Leaves], by simp [Event.Ends]⟩
  | granted | deleted =>
      refine .silent ⟨?_, rfl, by simp, by simp, by simp [Event.Leaves], by simp [Event.Ends]⟩
      refine List.filter_eq_nil_iff.2 fun row hrow => ?_
      cases Event.mem_rows hrow <;> simp [Row.pass?]
  | @began id concurrent access s hs =>
      rcases eq_or_ne p (w.passes.size + 1) with rfl | hne
      · refine .began rfl rfl rfl hs (by simp [Event.rows, hs, Row.pass?]) ?_
          ((Registry.get?_add _ _ _).trans (if_pos rfl))
        exact hw.depth_of_gone (Registry.get?_eq_none_of_size_lt (Nat.lt_succ_self _))
      · refine .silent ⟨?_, rfl, by simp [hne.symm], by simp, by simp [Event.Leaves],
          by simp [Event.Ends]⟩
        simp [Event.rows, hs, Row.pass?, hne.symm]
  | @ended i q s hq hs hidle =>
      rcases eq_or_ne i p with rfl | hne
      · have hdepth : w.depth i = 0 :=
          List.countP_eq_zero.2 fun c hc => by simpa using List.any_eq_false.1 hidle c hc
        exact .ended hq ⟨rfl, rfl⟩ (by simp [Event.rows, hq, Row.pass?])
          ((Registry.get?_erase _ _ _).trans (if_pos rfl)) hdepth hdepth
      · refine .silent ⟨?_, rfl, by simp, by simp, by simp [Event.Leaves],
          by simp [Event.Ends, hne]⟩
        simp [Event.rows, hq, Row.pass?, hne]
  | @pinned i method q s hq hs hcursor =>
      rcases eq_or_ne i p with rfl | hne
      · refine .entered hq hs ⟨⟨method, rfl⟩, rfl⟩ ?_ ?_ (by simp [depth])
        · simp [Event.rows, pinning, hq, hs, hcursor, Row.pass?]
        · rw [if_pos hcursor]
          exact (Registry.get?_set_of_some hq _ i).trans (if_pos rfl)
      · refine .silent ⟨?_, by simp [depth, hne], by simp, by simp [hne], by simp [Event.Leaves],
          by simp [Event.Ends]⟩
        simp [Event.rows, pinning, hq, hs, hcursor, Row.pass?, hne]
  | @resumed i method q s hq hs hcursor =>
      rcases eq_or_ne i p with rfl | hne
      · refine .entered hq hs ⟨⟨method, rfl⟩, rfl⟩ ?_ ?_ (by simp [depth])
        · simp [Event.rows, pinning, hq, hcursor, Row.pass?]
        · rw [if_neg hcursor]
          exact hq
      · refine .silent ⟨?_, by simp [depth, hne], by simp, by simp [hne], by simp [Event.Leaves],
          by simp [Event.Ends]⟩
        simp [Event.rows, pinning, hq, hcursor, Row.pass?, hne]
  | @offered c outer q s k slot v hcalls =>
      have hoffer : ∀ e v, Progress.offer c.method e v ≠ .finished := fun e v => by
        rcases c.method <;> rcases v <;> simp [Progress.offer]
      refine .silent ⟨?_, depth_congr hcalls rfl rfl, by simp, by simp,
        by simp [Event.Leaves, hoffer], by simp [Event.Ends]⟩
      rcases hm : c.method <;> rcases v <;> simp [Event.rows, Progress.offer]
  | @claimed c outer q s n b hcalls | @upheld c outer en object hcalls
  | @cleared c outer en object s s' hcalls =>
      exact .silent ⟨rfl, depth_congr hcalls rfl rfl, by simp, by simp, by simp [Event.Leaves],
        by simp [Event.Ends]⟩
  | @finished c outer q s hcalls hq =>
      rcases eq_or_ne c.pass p with rfl | hne
      · refine .left hq (Or.inl rfl) (by simp [Event.rows, Row.pass?]) hq ?_
        rw [depth_of_calls hcalls, if_pos rfl]
        rfl
      · refine .silent ⟨by simp [Event.rows, Row.pass?, hne], ?_, by simp, by simp,
          by simp [Event.Leaves, hne], by simp [Event.Ends]⟩
        rw [depth_of_calls hcalls, if_neg hne]
        rfl
  | @panicked c outer hcalls =>
      have hinnermost : w.innermost = c.pass := by simp [innermost, hcalls]
      rcases eq_or_ne c.pass p with rfl | hne
      · obtain ⟨q, s, hq, -⟩ := hw.calls c (by simp [hcalls])
        refine .left hq (Or.inr ⟨rfl, rfl, hinnermost⟩)
          (by simp [Event.rows, Row.pass?, hinnermost]) hq ?_
        rw [depth_of_calls hcalls, if_pos rfl]
        rfl
      · refine .silent ⟨by simp [Event.rows, Row.pass?, hinnermost, hne], ?_, by simp, by simp,
          by simp [Event.Leaves, hinnermost, hne], by simp [Event.Ends]⟩
        rw [depth_of_calls hcalls, if_neg hne]
        rfl

/-! ## One step more -/

namespace Iterations

/-- A pass that has started goes on. -/
theorem extend {rows : List Row} (h : Iterations p later st.before calls) (hcalls : calls ≠ [])
    (hnested : ∀ rest, Row.Nested p (st.before.depth p) rest →
      Row.Nested p (st.after.depth p) (rest ++ rows))
    (hentered : rows.count (.entered p) = (decide (st.Enters p)).toNat)
    (hleft : rows.count (.left p) = (decide (st.event.Leaves p st.before st.reply)).toNat) :
    Iterations p (later ++ [st]) st.after (calls ++ rows) := by
  cases h with
  | unstarted => exact absurd rfl hcalls
  | @started between after first q s rest hlater hbetween hfirst hq hs hpinned hnest hin hout =>
      have hlater' : later ++ [st] = between ++ first :: (after ++ [st]) := by simp [hlater]
      have hin' : (Row.entered p :: (rest ++ rows)).count (.entered p) =
          (later ++ [st]).countP fun st => st.Enters p := by
        rw [← List.cons_append, List.count_append, hin, hentered, Account.countP_snoc]
      have hout' : (Row.entered p :: (rest ++ rows)).count (.left p) =
          (later ++ [st]).countP fun st => st.event.Leaves p st.before st.reply := by
        rw [← List.cons_append, List.count_append, hout, hleft, Account.countP_snoc]
      exact .started hlater' hbetween hfirst hq hs hpinned (hnested _ hnest) hin' hout'

/-- Where no iteration is entered or left nothing is recorded of them. -/
theorem silent (h : Iterations p later st.before calls)
    (hdepth : st.after.depth p = st.before.depth p)
    (henter : ¬ st.Enters p) (hleave : ¬ st.event.Leaves p st.before st.reply) :
    Iterations p (later ++ [st]) st.after calls := by
  rcases eq_or_ne calls [] with rfl | hcalls
  · cases h with
    | unstarted henter' hleave' hidle =>
        refine .unstarted ?_ ?_ (hdepth.trans hidle)
        · simpa [or_imp, forall_and] using ⟨henter', henter⟩
        · simpa [or_imp, forall_and] using ⟨hleave', hleave⟩
  · rw [← List.append_nil calls]
    exact h.extend hcalls (fun rest hrest => by rwa [hdepth, List.append_nil]) (by simp [henter])
      (by simp [hleave])

/-- The first iteration is entered. -/
theorem first (h : Iterations p later st.before []) (henter : st.Enters p)
    (hleave : ¬ st.event.Leaves p st.before st.reply) (hq : st.before.passes.get? p = some q)
    (hs : st.before.storages.get? q.storage = some s)
    (hpinned : st.after.passes.get? p = some { q with cursor := .upcoming s.head })
    (hdepth : st.after.depth p = st.before.depth p + 1) :
    Iterations p (later ++ [st]) st.after [.entered p, .iterationStarted p s.head] := by
  cases h with
  | unstarted henter' hleave' hidle =>
      have hlater : later ++ [st] = later ++ st :: [] := rfl
      refine .started hlater henter' henter hq hs hpinned ?_ ?_ ?_
      · rw [hdepth, hidle]
        exact .under .nil
      · rw [Account.countP_snoc, List.countP_eq_zero.2 (by simpa using henter')]
        simp [henter]
      · rw [Account.countP_snoc, List.countP_eq_zero.2 (by simpa using hleave')]
        simp [hleave]

/-- Another iteration is entered. -/
theorem again (h : Iterations p later st.before calls) (hcalls : calls ≠ []) (henter : st.Enters p)
    (hleave : ¬ st.event.Leaves p st.before st.reply)
    (hdepth : st.after.depth p = st.before.depth p + 1) :
    Iterations p (later ++ [st]) st.after (calls ++ [.entered p]) :=
  h.extend hcalls (fun _ hrest => hdepth ▸ hrest.enter) (by simp [henter]) (by simp [hleave])

/-- The innermost iteration is left. -/
theorem leave (h : Iterations p later st.before calls) (henter : ¬ st.Enters p)
    (hleave : st.event.Leaves p st.before st.reply)
    (hdepth : st.before.depth p = st.after.depth p + 1) :
    Iterations p (later ++ [st]) st.after (calls ++ [.left p]) := by
  have hcalls : calls ≠ [] := by
    rintro rfl
    cases h with
    | unstarted henter' hleave' hidle => simp [hidle] at hdepth
  refine h.extend hcalls (fun rest hrest => ?_) (by simp [henter]) (by simp [hleave])
  rw [hdepth] at hrest
  exact hrest.leave

end Iterations

/-- Where the pass does not end nothing is recorded of its end. -/
theorem Ending.silent (h : Ending p later st.before ending) (hends : ¬ st.event.Ends p st.reply)
    (hdepth : ending ≠ [] → st.after.depth p = st.before.depth p) :
    Ending p (later ++ [st]) st.after ending := by
  cases h with
  | undropped hends' => exact .undropped (by simpa [or_imp, forall_and] using ⟨hends', hends⟩)
  | @dropped before after last q hlater hends' hq hclaimed hidle =>
      have hlater' : later ++ [st] = before ++ last :: (after ++ [st]) := by simp [hlater]
      exact .dropped hlater' hends' hq hclaimed ((hdepth (by simp)).trans hidle)

/-- **A well-formed trace stays well formed.** -/
theorem PassTrace.step (h : PassTrace p row later st.before) (hw : st.before.Sound)
    (hp : st.before.Permits st.event) : PassTrace p row (later ++ [st]) st.after := by
  have ht : Transition st.before st.event st.after st.reply := hw.transition hp
  obtain ⟨calls, ending, hrows, hcalls, hending, halive⟩ := h.rows
  have hsize := Nat.le_trans h.known ht.passes_size_le
  have hadd : st.after.rowsOf p = st.before.rowsOf p ++ st.rows.filter (·.pass? = some p) :=
    hw.rowsOf_eq hp
  refine ⟨hsize, ?_⟩
  rw [hrows] at hadd
  cases ht.pass_recorded hw p with
  | silent hsilent =>
      refine ⟨calls, ending, ?_, hcalls.silent hsilent.depth hsilent.enters hsilent.leaves,
        hending.silent hsilent.ends fun _ => hsilent.depth, fun q' hq' => ?_⟩
      · rw [hadd, show st.rows.filter (·.pass? = some p) = [] from hsilent.rows, List.append_nil]
      · rw [claims_snoc, List.length_append]
        rcases hq : st.before.passes.get? p with _ | q
        · rw [(ht.pass_gone hw hq h.known).1] at hq'
          cases hq'
        obtain ⟨hopen, hstarted, hclaimed⟩ := halive q hq
        cases ht.pass_cases hq with
        | same hq₁ hclaim =>
            obtain rfl := Option.some.inj (hq₁.symm.trans hq')
            rw [claim?_eq_none hclaim]
            exact ⟨hopen, hstarted, hclaimed⟩
        | gone hq₁ => simp [hq₁] at hq'
        | pinned hs hcursor hq₁ hevent hreply => exact absurd ⟨hevent, hreply⟩ hsilent.enters
        | claimed hs hcursor hb hq₁ hreply =>
            obtain rfl := Option.some.inj (hq₁.symm.trans hq')
            rw [claim?_eq_some_iff.2 hreply, hclaimed]
            exact ⟨hopen, by simpa [hcursor] using hstarted, rfl⟩
  | began hnew =>
      have := h.known
      omega
  | @entered q s hq hs henter hrows' hq' hdepth =>
      replace henter : st.Enters p := henter
      obtain ⟨rfl, hstarted, hclaimed⟩ := halive q hq
      rw [show st.rows.filter (·.pass? = some p) = _ from hrows', List.append_nil] at hadd
      have hending' := hending.silent henter.not_ends (by simp)
      have hclaims : claims p (later ++ [st]) = claims p later := by
        rw [claims_snoc, henter.2]
        exact List.append_nil _
      by_cases hcursor : q.cursor = .notStarted
      · obtain rfl := hstarted.2 hcursor
        rw [if_pos hcursor] at hadd hq'
        refine ⟨_, [], by simpa using hadd, hcalls.first henter henter.not_leaves hq hs hq' hdepth,
          hending', ?_⟩
        intro q' hq''
        obtain rfl := Option.some.inj (hq'.symm.trans hq'')
        exact ⟨rfl, by simp, by rw [hclaims]; exact hclaimed⟩
      · have hne : calls ≠ [] := fun h => hcursor (hstarted.1 h)
        rw [if_neg hcursor] at hadd hq'
        refine ⟨calls ++ [.entered p], [], by simpa using hadd,
          hcalls.again hne henter henter.not_leaves hdepth, hending', ?_⟩
        intro q' hq''
        obtain rfl := Option.some.inj (hq'.symm.trans hq'')
        exact ⟨rfl, by simp [hcursor], by rw [hclaims]; exact hclaimed⟩
  | @left q hq hleave hrows' hq' hdepth =>
      obtain ⟨rfl, hstarted, hclaimed⟩ := halive q hq
      rw [show st.rows.filter (·.pass? = some p) = _ from hrows', List.append_nil] at hadd
      have henter : ¬ st.Enters p := fun henter => henter.not_leaves hleave
      refine ⟨calls ++ [.left p], [], by simpa using hadd, hcalls.leave henter hleave hdepth,
        hending.silent hleave.not_ends (by simp), fun q' hq'' => ?_⟩
      obtain rfl := Option.some.inj (hq'.symm.trans hq'')
      have hne : calls ≠ [] := by
        rintro rfl
        cases hcalls with
        | unstarted henter' hleave' hidle => simp [hidle] at hdepth
      exact ⟨rfl, by simp [← hstarted, hne],
        by simpa [claims_snoc, hleave.claim?_eq_none] using hclaimed⟩
  | @ended q hq hends hrows' hq' hdepth hdepth' =>
      obtain ⟨rfl, -, hclaimed⟩ := halive q hq
      rw [show st.rows.filter (·.pass? = some p) = _ from hrows', List.append_nil] at hadd
      refine ⟨calls, _, hadd, hcalls.silent (hdepth'.trans hdepth.symm) ?_ ?_,
        .dropped rfl hends hq hclaimed hdepth', by simp [hq']⟩
      · exact fun henter => henter.not_ends hends
      · exact fun hleave => hleave.not_ends hends

/-! ## Along a run -/

/-- A pass that begins takes the next id, and nothing else takes one. -/
theorem Transition.began_cases (ht : Transition w e w' r) :
    r.began? = none ∧ w'.passes.size = w.passes.size ∨
      r.began? = some (w.passes.size + 1) ∧ w'.passes.size = w.passes.size + 1 := by
  cases ht with
  | began => exact Or.inr ⟨rfl, by simp [World.record, World.setStorage]⟩
  | _ => exact Or.inl ⟨rfl, by simp [World.create, World.setStorage, World.setPass, World.record,
      World.spend]⟩

/-- **The ids of the passes** are given one after the other, over all storages. -/
theorem Run.begun_eq (h : Run {} steps w) : begun steps = List.range' 1 w.passes.size := by
  generalize hinit : ({} : World) = w₀ at h
  induction h with
  | nil =>
      subst hinit
      rfl
  | @snoc w₁ steps e hrun hp ih =>
      subst hinit
      have hone : begun [⟨w₁, e⟩] = ((w₁.perform e).2.began?).toList := by
        rcases h : (w₁.perform e).2.began? <;> simp [begun, Step.reply, h]
      rw [begun, List.filterMap_append, ← begun, ← begun, ih, hone]
      rcases ((hrun.sound .init).transition hp).began_cases with ⟨hnone, hsize⟩ | ⟨hsome, hsize⟩
      · rw [hnone, hsize]
        simp
      · rw [hsome, hsize, List.range'_1_concat, Nat.add_comm 1]
        rfl

/-- Nothing is recorded of a pass that has not begun. -/
theorem Run.rowsOf_eq_nil (h : Run {} steps w) (hp : p = 0 ∨ w.passes.size < p) :
    w.rowsOf p = [] := by
  generalize hinit : ({} : World) = w₀ at h
  induction h with
  | nil =>
      subst hinit
      rfl
  | @snoc w₁ steps e hrun hp' ih =>
      subst hinit
      have hw := hrun.sound .init
      have ht := hw.transition hp'
      have hsize := ht.passes_size_le
      have hgone : ∀ q, w₁.passes.get? p ≠ some q := fun q hq => by
        have := Registry.bounds_of_get?_eq_some hq
        omega
      rw [hw.rowsOf_eq hp', ih (by omega), List.nil_append]
      cases ht.pass_recorded hw p with
      | silent h => exact h.rows
      | began hnew hbegan hevent hs hrows hdepth hq' =>
          have := (Registry.bounds_of_get?_eq_some hq').2
          omega
      | entered hq | left hq | ended hq => exact absurd hq (hgone _)

/-- **The rows about a pass stay well formed** along a run. -/
theorem PassTrace.run (h : PassTrace p row [] w) (hw : w.Sound) (hrun : Run w later w') :
    PassTrace p row later w' := by
  induction hrun with
  | nil => exact h
  | @snoc w₁ later e hrun hp ih => exact ih.step (hrun.sound hw) hp

/-- The trace of a pass that has just begun. -/
theorem Run.passTrace (h : Run {} steps st.before) (hp : st.before.Permits st.event)
    (hbegan : st.reply = .began p) : ∃ id concurrent access s,
      st.event = .beginPass id concurrent access ∧ st.before.storages.get? id = some s ∧
        PassTrace p (.passBegan p s.name concurrent) [] st.after := by
  have hw := h.sound .init
  have ht : Transition st.before st.event st.after st.reply := hw.transition hp
  cases ht.pass_recorded hw p with
  | silent h => exact absurd hbegan h.begins
  | @began id concurrent access s hnew _ hevent hs hrows hdepth hq' =>
      refine ⟨id, concurrent, access, s, hevent, hs, (Registry.bounds_of_get?_eq_some hq').2,
        [], [], ?_, .unstarted (by simp) (by simp) hdepth, .undropped (by simp), fun q hq => ?_⟩
      · refine (hw.rowsOf_eq hp).trans ?_
        rw [h.rowsOf_eq_nil (by omega)]
        exact hrows
      · obtain rfl := Option.some.inj (hq'.symm.trans hq)
        exact ⟨rfl, by simp, rfl⟩
  | entered hq hs henter => simp [henter.2] at hbegan
  | left hq hleave => rcases hleave with hleave | ⟨-, hleave, -⟩ <;> simp [hleave] at hbegan
  | ended hq hends => simp [hends.2] at hbegan

/-- **What is said of the trace** of a run. -/
structure Traced (steps : List Step) (w : World) : Prop where
  /-- The rows about a pass that began are its beginning, its iterations and its end. -/
  passes : ∀ before start later p, steps = before ++ start :: later → start.reply = .began p →
    ∃ id concurrent access s, start.event = .beginPass id concurrent access ∧
      start.before.storages.get? id = some s ∧
        PassTrace p (.passBegan p s.name concurrent) later w
  /-- There are no rows about any other pass. -/
  others : ∀ p, p ∉ begun steps → w.rowsOf p = []
  /-- A pass that is refused records nothing and takes no id. -/
  refused : ∀ st ∈ steps, ∀ id concurrent access, st.event = .beginPass id concurrent access →
    (∀ p, st.reply ≠ .began p) → st.after = st.before
  /-- The ids are given one after the other in order of beginning, over all storages. -/
  numbered : begun steps = List.range' 1 w.passes.size
  /-- So they increase. -/
  increasing : (begun steps).Pairwise (· < ·)

/-- **The trace of every pass is well formed** in every run. -/
theorem traced (h : Run {} steps w) : Traced steps w where
  passes := by
    rintro before start later p rfl hbegan
    obtain ⟨hbefore, hp, hlater⟩ := h.split
    obtain ⟨id, concurrent, access, s, hevent, hs, htrace⟩ := hbefore.passTrace hp hbegan
    have hw := hbefore.sound .init
    exact ⟨id, concurrent, access, s, hevent, hs,
      htrace.run ((hw.transition hp).sound hw) hlater⟩
  others := fun p hp => h.rowsOf_eq_nil (by rw [h.begun_eq, List.mem_range'_1] at hp; omega)
  refused := by
    rintro st hst id concurrent access hevent hreply
    obtain ⟨before, after, rfl⟩ := List.append_of_mem hst
    obtain ⟨hbefore, hp, -⟩ := h.split
    have ht := (hbefore.sound .init).transition hp
    change Transition st.before st.event st.after st.reply at ht
    rw [hevent] at ht
    generalize st.after = w' at ht ⊢
    generalize st.reply = r at ht hreply
    cases ht with
    | failed => rfl
    | began => exact absurd rfl (hreply _)
  numbered := h.begun_eq
  increasing := by
    rw [h.begun_eq]
    exact List.pairwise_lt_range'

/-- A pass is iterated from within its own visitor, which then panics, and is dropped; meanwhile
another one is refused beside it, and a third one, over another storage, is forgotten. -/
theorem traced_of_nested_iteration :
    let events : List Event := [.create { name := "strong" }, .create { name := "weak" },
      .allocate 1, .beginPass 1 true .readOnly, .enter 1 .every, .advance, .advance,
      .beginPass 1 true .readOnly, .beginPass 2 false .writable, .enter 1 .every, .advance, .panic,
      .forgetPass 2, .endPass 1, .endPass 1]
    (({} : World).afterAll events).rowsOf 1 = [.passBegan 1 "strong" true, .entered 1,
      .iterationStarted 1 (some 1), .entered 1, .left 1, .left 1, .passEnded 1 1, .closed 1] ∧
    (({} : World).afterAll events).rowsOf 2 = [.passBegan 2 "weak" false] ∧
    begun (({} : World).trail events) = [1, 2] ∧
    Traced (({} : World).trail events) (({} : World).afterAll events) := by
  refine ⟨by decide +kernel, by decide +kernel, by decide +kernel, ?_⟩
  exact traced (run_trail _ _ (by decide +kernel))

end World

end RootStore
