import RootStore.Proofs.Race.Workers

/-!
# What becomes of every place

However the steps of the workers follow each other, every place fares in one way, which depends on
what its slot holds and on nothing else: only one worker ever has to do with it.  So what was done
at a place, taken together with what is still to be done there, is the same all along.

* `Job.outcome` — what becomes of a place, by what is left to be done there.
* `Plan`, `Plan.Stands` — what the workers are to bring about, and where the pass stands.
* `Crew.Worker.Right` — what holds of one worker.
* `Crew.Standing` — **the invariant**: what was done and what is left make up what is planned.
* `Crew.Standing.works`, `Crew.Standing.moves` — **whatever a worker does to one entry of its block,
  or without touching any**, the others are not affected.
-/

namespace RootStore

variable {ι ρ : Type}

/-! ## What becomes of a place -/

/-- What is left to be done at a place. -/
inductive Todo (ρ : Type) where
  /-- Nothing. -/
  | nothing
  /-- The entry is yet to be taken up. -/
  | offer
  /-- The verdict on its object. -/
  | asking (object : Reference)
  /-- The rest of what is done with it. -/
  | handling (h : Handler ρ)

/-- What is recorded of a place, and what its slot holds in the end. -/
structure Outcome (ρ : Type) where
  /-- The results of its visits. -/
  visits : List ρ := []
  /-- The objects asked about. -/
  asked : List Reference := []
  /-- What the slot holds. -/
  value : Option Reference

namespace Outcome

/-- More was recorded before. -/
def after (o : Outcome ρ) (visits : List ρ) (asked : List Reference) : Outcome ρ :=
  { o with visits := visits ++ o.visits, asked := asked ++ o.asked }

@[simp] theorem after_nil (o : Outcome ρ) : o.after [] [] = o := rfl

theorem after_after (o : Outcome ρ) (visits visits' : List ρ) (asked asked' : List Reference) :
    (o.after visits asked).after visits' asked' =
      o.after (visits' ++ visits) (asked' ++ asked) := by
  simp [after]

end Outcome

/-- What comes of the rest of what is done with an entry that holds `v`. -/
def Handler.outcome (h : Handler ρ) (v : Option Reference) : Outcome ρ :=
  { visits := [(h.eval v).2], value := (h.eval v).1 }

/-- An entry that is taken up is handed out, asked about or passed over. -/
theorem Progress.offer_cases (method : Method) (e : Entry) (v : Option Reference) :
    Progress.offer method e v = .visiting e ∨
      (∃ object, Progress.offer method e v = .asking e object) ∨
      Progress.offer method e v = .passedOver e := by
  cases method <;> cases v <;> simp [offer]

namespace Job

variable (job : Job ρ)

/-- What comes of an entry whose object is judged. -/
def judged (e : Entry) (object : Reference) (v : Option Reference) : Outcome ρ :=
  if job.alive object then ((job.handle e).outcome v).after [] [object]
  else { asked := [object], value := none }

/-- What a step of an iteration leaves to be done at the entry that it takes up. -/
def todo : Progress → Todo ρ
  | .asking _ object => .asking object
  | .visiting e => .handling (job.handle e)
  | .claimed _ | .passedOver _ | .cleared _ | .finished => .nothing

/-- **What becomes of an entry** that holds `v`, by what is left to be done there. -/
def outcome (e : Entry) : Todo ρ → Option Reference → Outcome ρ
  | .nothing, v => { value := v }
  | .handling h, v => h.outcome v
  | .asking object, v => job.judged e object v
  | .offer, v =>
      match Progress.offer job.method e v with
      | .visiting _ => (job.handle e).outcome v
      | .asking _ object => job.judged e object v
      | .claimed _ | .passedOver _ | .cleared _ | .finished => { value := v }

/-- An entry is visited once at most. -/
theorem length_visits_le (e : Entry) (t : Todo ρ) (v : Option Reference) :
    (job.outcome e t v).visits.length ≤ 1 := by
  have hjudged : ∀ object, (job.judged e object v).visits.length ≤ 1 := fun object => by
    unfold judged
    split
    · exact Nat.le_refl 1
    · exact Nat.zero_le 1
  cases t with
  | nothing => exact Nat.zero_le 1
  | handling h => exact Nat.le_refl 1
  | asking object => exact hjudged object
  | offer =>
      rcases Progress.offer_cases job.method e v with hoffer | ⟨object, hoffer⟩ | hoffer <;>
        simp only [outcome, hoffer]
      · exact Nat.le_refl 1
      · exact hjudged object
      · exact Nat.zero_le 1

/-- An entry that is taken up fares as what is left to be done then says. -/
theorem outcome_offer (e : Entry) (v : Option Reference) :
    job.outcome e .offer v = job.outcome e (job.todo (Progress.offer job.method e v)) v := by
  rcases Progress.offer_cases job.method e v with hoffer | ⟨object, hoffer⟩ | hoffer <;>
    simp [outcome, todo, hoffer]

end Job

/-! ## What was recorded -/

/-- What was recorded at a place, in order. -/
def recordedAt {α : Type} (records : List (Place × α)) (p : Place) : List α :=
  (records.filter (·.1 = p)).map (·.2)

/-- More is recorded at one place. -/
theorem recordedAt_append {α : Type} (records : List (Place × α)) (new : List α) (p p' : Place) :
    recordedAt (records ++ new.map (p, ·)) p' =
      recordedAt records p' ++ if p' = p then new else [] := by
  unfold recordedAt
  rw [List.filter_append, List.map_append]
  by_cases hp : p' = p
  · simp [hp, List.filter_map, Function.comp_def]
  · simp [hp, Ne.symm hp, List.filter_map, Function.comp_def]

/-- At other places nothing is recorded. -/
theorem recordedAt_eq_nil {α : Type} {records : List (Place × α)} {p : Place}
    (h : ∀ r ∈ records, r.1 ≠ p) :
    recordedAt records p = [] := by
  unfold recordedAt
  rw [List.filter_eq_nil_iff.2 fun r hr => by simpa using h r hr, List.map_nil]

/-! ## Workers -/

/-- What an iteration that waits has to do with an entry. -/
def Stage.todo? : Stage → Option (Entry × Todo ρ)
  | .asking e object => some (e, .asking object)
  | .ready | .visiting _ => none

/-- What the workers of a job are to bring about. -/
structure Plan (ρ : Type) where
  /-- The storage. -/
  storage : Nat
  /-- May its entries be written? -/
  access : Access
  /-- Does the pass run beside the mutators? -/
  concurrent : Bool
  /-- The blocks of the storage. -/
  linked : List Nat
  /-- How many blocks the pass has claimed in the end. -/
  claimed : Nat
  /-- What becomes of each place. -/
  outcome : Place → Outcome ρ
  /-- The other storages. -/
  others : Nat → Option Storage

namespace Plan

variable {plan : Plan ρ} {pass id : Nat} {w w' : World} {q q' : Pass} {s s' : Storage}
  {rest : List Nat}

/-- The entry at a place. -/
def entry (plan : Plan ρ) (p : Place) : Entry :=
  { storage := plan.storage, place := p, access := plan.access }

/-- The pass in the end. -/
def lastPass (plan : Plan ρ) : Pass where
  storage := plan.storage
  concurrent := plan.concurrent
  access := plan.access
  cursor := .upcoming none
  claimed := plan.claimed

/-- What reading a slot of any storage finds in the end. -/
def lastLoad (plan : Plan ρ) (e : Entry) : Except Failure (Option Reference) :=
  if e.storage = plan.storage then
    if e.place.block ∈ plan.linked then .ok (plan.outcome e.place).value
    else .error (.fault (.missingBlock e.place.block))
  else
    match plan.others e.storage with
    | some s => Failure.ofFault (s.load e.place)
    | none => .error .noStorage

/-- Where the pass stands: it is at `q`, and has still to claim `rest` of its storage `s`. -/
structure Stands (plan : Plan ρ) (pass : Nat) (w : World) (q : Pass) (s : Storage)
    (rest : List Nat) :
    Prop where
  /-- The world is sound. -/
  sound : w.Sound
  /-- The pass is there. -/
  pass : w.passes.get? pass = some q
  /-- So is its storage. -/
  storage : w.storages.get? plan.storage = some s
  /-- The pass walks that storage. -/
  walks : q.storage = plan.storage
  /-- It hands out such entries. -/
  access : q.access = plan.access
  /-- It is of that mode. -/
  concurrent : q.concurrent = plan.concurrent
  /-- The blocks are as they were. -/
  linked : s.linked = plan.linked
  /-- So are the other storages. -/
  others : ∀ id, id ≠ plan.storage → w.storages.get? id = plan.others id
  /-- What is left to claim is a rest of the list. -/
  suffix : rest <:+ s.linked
  /-- The cursor stands before it. -/
  cursor : q.cursor = .upcoming rest.head? ∨ q.cursor = .notStarted ∧ rest = s.linked
  /-- Each block is counted when it is claimed. -/
  claimed : q.claimed + rest.length = plan.claimed

namespace Stands

/-- The storage is sound. -/
theorem sound_storage (h : plan.Stands pass w q s rest) : s.Sound :=
  (h.sound.storages _ s h.storage).2

/-- Iterations that agree with the pass can be under way. -/
theorem within (h : plan.Stands pass w q s rest) {c : Call} (hpass : c.pass = pass)
    (hf : c.Follows q s) :
    (w.within c).Sound := by
  refine h.sound.setCalls fun d hd => ?_
  rcases List.mem_cons.1 hd with rfl | hmem
  · exact Or.inr ⟨q, s, by rw [hpass, h.pass], by rw [h.walks, h.storage], hf⟩
  · exact Or.inl hmem

/-- Other iterations and another trace make no difference. -/
theorem congr (h : plan.Stands pass w q s rest) (hsound : w'.Sound) (hpasses : w'.passes = w.passes)
    (hstorages : w'.storages = w.storages) : plan.Stands pass w' q s rest where
  sound := hsound
  pass := by rw [hpasses, h.pass]
  storage := by rw [hstorages, h.storage]
  walks := h.walks
  access := h.access
  concurrent := h.concurrent
  linked := h.linked
  others := by rw [hstorages]; exact h.others
  suffix := h.suffix
  cursor := h.cursor
  claimed := h.claimed

/-- The slots of the blocks can be read. -/
theorem load_ok (h : plan.Stands pass w q s rest) {p : Place} (hp : p.block ∈ plan.linked) :
    ∃ v, s.load p = .ok v := by
  rw [← h.linked] at hp
  obtain ⟨b, hb⟩ := h.sound_storage.lists.isSome hp
  exact ⟨_, Storage.load_eq_ok_iff.2 ⟨b, hb, rfl⟩⟩

/-- Other slots cannot. -/
theorem load_missing (h : plan.Stands pass w q s rest) {p : Place} (hp : p.block ∉ plan.linked) :
    s.load p = .error (.missingBlock p.block) := by
  refine Storage.load_eq_error_iff.2 ⟨Option.eq_none_iff_forall_ne_some.2 fun b hb => hp ?_, rfl⟩
  rw [← h.linked]
  exact h.sound_storage.mem_linked _ b hb

/-- Where the slots hold what is planned, reading finds it. -/
theorem load_eq (h : plan.Stands pass w q s rest)
    (hvalue : ∀ p v, s.load p = .ok v → (plan.outcome p).value = v) (e : Entry) :
    w.load e = plan.lastLoad e := by
  unfold lastLoad World.load
  by_cases hstorage : e.storage = plan.storage
  · rw [if_pos hstorage, hstorage, World.storage_of_some h.storage]
    by_cases hp : e.place.block ∈ plan.linked
    · obtain ⟨v, hv⟩ := h.load_ok hp
      simp [if_pos hp, hv, hvalue _ v hv, Failure.ofFault, bind, Except.bind]
    · simp [if_neg hp, h.load_missing hp, Failure.ofFault, bind, Except.bind]
  · rw [if_neg hstorage, World.storage, h.others _ hstorage]
    rcases plan.others e.storage with _ | t <;> rfl

/-- Where no block is left to claim the pass is as it is in the end. -/
theorem eq_lastPass (h : plan.Stands pass w q s []) (hcursor : q.cursor = .upcoming none) :
    q = plan.lastPass := by
  have hclaimed := h.claimed
  rw [List.length_nil, Nat.add_zero] at hclaimed
  rcases q with ⟨storage, concurrent, access, cursor, claimed⟩
  simp only [lastPass, Pass.mk.injEq]
  exact ⟨h.walks, h.concurrent, h.access, hcursor, hclaimed⟩

/-- A slot is written. -/
theorem write (h : plan.Stands pass w q s rest) {p : Place} {v : Option Reference}
    (hwritten : s.Written s' p v) (huse : ∀ p, s'.InUse p ↔ s.InUse p) :
    plan.Stands pass (w.setStorage plan.storage s') q s' rest where
  sound := h.sound.write h.storage hwritten huse
  pass := h.pass
  storage := (Registry.get?_set_of_some h.storage s' _).trans (if_pos rfl)
  walks := h.walks
  access := h.access
  concurrent := h.concurrent
  linked := hwritten.linked_eq.trans h.linked
  others := fun id hid =>
    ((Registry.get?_set_of_some h.storage s' id).trans (if_neg hid)).trans (h.others id hid)
  suffix := by rw [hwritten.linked_eq]; exact h.suffix
  cursor := by rw [hwritten.linked_eq]; exact h.cursor
  claimed := h.claimed

/-- The pass is pinned to the head of the list. -/
theorem pin (h : plan.Stands pass w q s rest) (hcursor : q.cursor = .notStarted) (hsound : w'.Sound)
    (hpasses : w'.passes = w.passes.set pass { q with cursor := .upcoming s.head })
    (hstorages : w'.storages = w.storages) :
    plan.Stands pass w' { q with cursor := .upcoming s.head } s rest where
  sound := hsound
  pass := by rw [hpasses, Registry.get?_set_of_some h.pass, if_pos rfl]
  storage := by rw [hstorages, h.storage]
  walks := h.walks
  access := h.access
  concurrent := h.concurrent
  linked := h.linked
  others := by rw [hstorages]; exact h.others
  suffix := h.suffix
  cursor := by
    rcases h.cursor with hup | ⟨-, hrest⟩
    · rw [hcursor] at hup
      cases hup
    · rw [hrest]
      exact Or.inl (congrArg Cursor.upcoming h.sound_storage.lists.head_eq)
  claimed := h.claimed

/-- The pass claims a block. -/
theorem claim {n : Nat} {b : Block} (h : plan.Stands pass w q s rest)
    (hcursor : q.cursor = .upcoming (some n)) (hb : s.blocks.get? n = some b) (hsound : w'.Sound)
    (hpasses : w'.passes =
      w.passes.set pass { q with cursor := .upcoming b.next, claimed := q.claimed + 1 })
    (hstorages : w'.storages = w.storages) : ∃ rest', rest = n :: rest' ∧ n ∉ rest' ∧
      plan.Stands pass w' { q with cursor := .upcoming b.next, claimed := q.claimed + 1 }
        s rest' := by
  have hhead : rest.head? = some n := by
    rcases h.cursor with hup | ⟨hnot, -⟩
    · exact (Cursor.upcoming.inj (hcursor.symm.trans hup)).symm
    · rw [hcursor] at hnot
      cases hnot
  obtain ⟨rest', rfl⟩ := List.head?_eq_some_iff.1 hhead
  obtain ⟨front, hfront⟩ := h.suffix
  obtain ⟨b', hb', hnext, -⟩ := h.sound_storage.lists.links front n rest' hfront.symm
  obtain rfl := Option.some.inj (hb.symm.trans hb')
  have hnodup := h.sound_storage.lists.nodup
  rw [← hfront] at hnodup
  refine ⟨rest', rfl, (List.nodup_cons.1 (List.nodup_append.1 hnodup).2.1).1, ?_⟩
  have hclaimed := h.claimed
  rw [List.length_cons] at hclaimed
  exact
    { sound := hsound
      pass := by rw [hpasses, Registry.get?_set_of_some h.pass, if_pos rfl]
      storage := by rw [hstorages, h.storage]
      walks := h.walks
      access := h.access
      concurrent := h.concurrent
      linked := h.linked
      others := by rw [hstorages]; exact h.others
      suffix := (List.suffix_cons n rest').trans h.suffix
      cursor := Or.inl (congrArg Cursor.upcoming hnext)
      claimed := by
        show q.claimed + 1 + rest'.length = plan.claimed
        omega }

end Stands

end Plan

namespace Crew

variable {job : Job ρ} {plan : Plan ρ} {q q' : Pass} {s s' : Storage} {rest rest' : List Nat}
  {todo todo' : Place → Todo ρ}

namespace Worker

/-- The iteration of a worker. -/
def call? : Worker ρ → Option Call
  | .iterating c | .handling c _ _ => some c
  | .waiting | .done => none

/-- The block that a worker scans. -/
def scan? (x : Worker ρ) : Option Pass.Claim := x.call?.bind (·.scanning)

/-- The entry that a worker has taken up, and what it has left to do with it. -/
def todo? : Worker ρ → Option (Entry × Todo ρ)
  | .iterating c => c.stage.todo?
  | .handling _ e h => some (e, .handling h)
  | .waiting | .done => none

/-- **What holds of a worker**, where the pass has still to claim `rest` and `todo` is left to be
done. -/
structure Right (job : Job ρ) (plan : Plan ρ) (q : Pass) (s : Storage) (rest : List Nat)
    (todo : Place → Todo ρ) (x : Worker ρ) : Prop where
  /-- Its iteration is one of the pass and agrees with it. -/
  call : ∀ c, x.call? = some c → c.pass = job.pass ∧ c.method = job.method ∧ c.Follows q s
  /-- Its iteration waits for it while it has an entry in hand. -/
  stage : ∀ c e h, x = .handling c e h → c.stage = .visiting e
  /-- It is done when no block is left. -/
  done : x = .done → q.cursor = .upcoming none
  /-- The block that it scans has been claimed. -/
  behind : ∀ k, x.scan? = some k → k.block ∉ rest
  /-- The entry that it has taken up is one of that block, and is not to be taken up again. -/
  taken : ∀ e t, x.todo? = some (e, t) → ∃ p, e = plan.entry p ∧ todo p = t ∧
    ∃ k, x.scan? = some k ∧ k.block = p.block ∧ k.snapshot.contains p.slot = false
  /-- In that block the entries of the snapshot are still to be taken up. -/
  ahead : ∀ k i, x.scan? = some k → k.snapshot.contains i = true → todo ⟨k.block, i⟩ = .offer
  /-- Nothing is left to be done at its other places. -/
  past : ∀ k i, x.scan? = some k → k.snapshot.contains i = false →
    (∀ t, x.todo? ≠ some (plan.entry ⟨k.block, i⟩, t)) → todo ⟨k.block, i⟩ = .nothing

variable {x x' : Worker ρ} {k k' : Pass.Claim} {p : Place} {t : Todo ρ}

/-- A worker without an iteration. -/
theorem Right.of_call?_eq_none (hx : x.call? = none)
    (hdone : x = .done → q.cursor = .upcoming none) :
    x.Right job plan q s rest todo := by
  have hscan : x.scan? = none := by rw [scan?, hx]; rfl
  have htodo : x.todo? = none := by
    cases x with
    | waiting | done => rfl
    | iterating | handling => cases hx
  refine ⟨by simp [hx], ?_, hdone, by simp [hscan], by simp [htodo], by simp [hscan],
    by simp [hscan]⟩
  rintro c e h rfl
  cases hx

/-- What the others do makes no difference to a worker. -/
theorem Right.frame (h : x.Right job plan q s rest todo)
    (hfollows : ∀ c : Call, c.Follows q s → c.Follows q' s') (hrest : rest' ⊆ rest)
    (hend : q.cursor = .upcoming none → q'.cursor = .upcoming none)
    (htodo : ∀ k p, x.scan? = some k → k.block = p.block → todo' p = todo p) :
    x.Right job plan q' s' rest' todo' where
  call := fun c hc => ⟨(h.call c hc).1, (h.call c hc).2.1, hfollows c (h.call c hc).2.2⟩
  stage := h.stage
  done := fun hdone => hend (h.done hdone)
  behind := fun k hk hmem => h.behind k hk (hrest hmem)
  taken := fun e t ht => by
    obtain ⟨p, he, htodo', k, hk, hblock, hslot⟩ := h.taken e t ht
    exact ⟨p, he, (htodo k p hk hblock).trans htodo', k, hk, hblock, hslot⟩
  ahead := fun k i hk hi => (htodo k ⟨k.block, i⟩ hk rfl).trans (h.ahead k i hk hi)
  past := fun k i hk hi hnone => (htodo k ⟨k.block, i⟩ hk rfl).trans (h.past k i hk hi hnone)

/-- **A worker has done something with an entry** of the block that it scans, and has left `t` to
do. -/
theorem Right.works (h : x.Right job plan q s rest todo) (hk : x.scan? = some k)
    (hblock : k.block = p.block) (hmine : ∀ e t, x.todo? = some (e, t) → e = plan.entry p)
    (hcall : ∀ c, x'.call? = some c → c.pass = job.pass ∧ c.method = job.method ∧ c.Follows q s')
    (hstage : ∀ c e h, x' = .handling c e h → c.stage = .visiting e) (hdone : x' ≠ .done)
    (hk' : x'.scan? = some k') (hblock' : k'.block = k.block)
    (hslots : ∀ i, k'.snapshot.contains i = (k.snapshot.contains i && decide (i ≠ p.slot)))
    (htodo : x'.todo? = none ∧ t = .nothing ∨ x'.todo? = some (plan.entry p, t)) :
    x'.Right job plan q s' rest (Function.update todo p t) := by
  have hp : ∀ i, (⟨k'.block, i⟩ : Place) = p ↔ i = p.slot := fun i => by
    rw [hblock', hblock]
    exact ⟨fun h => congrArg Place.slot h, fun h => by rw [h]⟩
  have hscan : ∀ l, x'.scan? = some l → l = k' := fun l hl => Option.some.inj (hl.symm.trans hk')
  refine ⟨hcall, hstage, fun hx => absurd hx hdone, ?_, ?_, ?_, ?_⟩
  · intro l hl
    rw [hscan l hl, hblock']
    exact h.behind k hk
  · intro e u hu
    rcases htodo with ⟨hnone, -⟩ | hsome
    · simp [hnone] at hu
    · obtain ⟨rfl, rfl⟩ := Prod.mk.inj (Option.some.inj (hsome.symm.trans hu))
      exact ⟨p, rfl, Function.update_self .., k', hk', hblock'.trans hblock, by simp [hslots]⟩
  · intro l i hl hi
    rw [hscan l hl] at hi ⊢
    rw [hslots, Bool.and_eq_true, decide_eq_true_iff] at hi
    rw [Function.update_of_ne (fun heq => hi.2 ((hp i).1 heq)), hblock']
    exact h.ahead k i hk hi.1
  · intro l i hl hi hnot
    rw [hscan l hl] at hi hnot ⊢
    by_cases heq : (⟨k'.block, i⟩ : Place) = p
    · rw [heq, Function.update_self]
      rw [heq] at hnot
      exact (htodo.resolve_right (hnot t)).2
    · rw [Function.update_of_ne heq, hblock']
      have hne : i ≠ p.slot := fun hi => heq ((hp i).2 hi)
      refine h.past k i hk (by simpa [hslots, hne] using hi) fun u hu => heq ?_
      rw [hblock']
      exact congrArg Entry.place (hmine _ u hu)

end Worker

/-- **The invariant.**  The pass stands at `q` and has still to claim `rest` of its storage `s`, and
`todo` is left to be done at the places. -/
structure Standing (job : Job ρ) (plan : Plan ρ) (cr : Crew ι ρ) (q : Pass) (s : Storage)
    (rest : List Nat)
    (todo : Place → Todo ρ) : Prop extends plan.Stands job.pass cr.world q s rest where
  /-- Every worker is right. -/
  workers : ∀ i, (cr.worker i).Right job plan q s rest todo
  /-- No block is scanned by two workers. -/
  apart : ∀ i j k l, (cr.worker i).scan? = some k → (cr.worker j).scan? = some l →
    k.block = l.block → i = j
  /-- In a block that is left to claim the entries in use are to be taken up. -/
  waiting : ∀ p, p.block ∈ rest → (s.InUse p → todo p = .offer) ∧ (¬ s.InUse p → todo p = .nothing)
  /-- Where nobody scans and nothing is left to claim there is nothing to be done. -/
  idle : ∀ p, p.block ∉ rest → (∀ i k, (cr.worker i).scan? = some k → k.block ≠ p.block) →
    todo p = .nothing
  /-- **What was done and what is left make up the plan.** -/
  outcome : ∀ p v, s.load p = .ok v →
    plan.outcome p = (job.outcome (plan.entry p) (todo p) v).after (recordedAt cr.visits p)
      (recordedAt cr.asked p)
  /-- What was done was done at places of the storage's blocks. -/
  recorded : (∀ x ∈ cr.visits, x.1.block ∈ plan.linked) ∧ ∀ x ∈ cr.asked, x.1.block ∈ plan.linked

variable [DecidableEq ι] {cr cr' : Crew ι ρ} {i : ι} {x : Worker ρ}

/-- **A worker goes on**, and only places of the block that it scans are affected. -/
theorem Standing.replace (h : Standing job plan cr q s rest todo)
    (hstands : plan.Stands job.pass cr'.world q' s' rest')
    (hworker : cr'.worker = Function.update cr.worker i x)
    (hright : x.Right job plan q' s' rest' todo')
    (hfollows : ∀ c : Call, c.Follows q s → c.Follows q' s') (hrest : rest' ⊆ rest)
    (hend : q.cursor = .upcoming none → q'.cursor = .upcoming none)
    (hscan : ∀ k, x.scan? = some k →
      k.block ∈ rest ∨ ∃ l, (cr.worker i).scan? = some l ∧ l.block = k.block)
    (huse : ∀ p, s'.InUse p ↔ s.InUse p)
    (htodo : ∀ p, todo' p = todo p ∨ ∃ k, (cr.worker i).scan? = some k ∧ k.block = p.block)
    (hidle : ∀ p, p.block ∉ rest' → (∀ k, x.scan? = some k → k.block ≠ p.block) →
      (p.block ∈ rest ∨ ∃ k, (cr.worker i).scan? = some k ∧ k.block = p.block) → todo' p = .nothing)
    (houtcome : ∀ p v, s'.load p = .ok v →
      plan.outcome p = (job.outcome (plan.entry p) (todo' p) v).after (recordedAt cr'.visits p)
        (recordedAt cr'.asked p))
    (hrecorded : (∀ x ∈ cr'.visits, x.1.block ∈ plan.linked) ∧ ∀ x ∈ cr'.asked,
      x.1.block ∈ plan.linked) :
    Standing job plan cr' q' s' rest' todo' := by
  have hself : cr'.worker i = x := by rw [hworker, Function.update_self]
  have hother : ∀ {j}, j ≠ i → cr'.worker j = cr.worker j := fun hj => by
    rw [hworker, Function.update_of_ne hj]
  -- nobody else scans the block of the worker, before or after its step
  have hnew : ∀ {j k l}, j ≠ i → x.scan? = some k → (cr.worker j).scan? = some l →
      k.block ≠ l.block := by
    intro j k l hj hk hl heq
    rcases hscan k hk with hmem | ⟨m, hm, hblock⟩
    · exact (h.workers j).behind l hl (heq ▸ hmem)
    · exact hj (h.apart i j m l hm hl (hblock.trans heq)).symm
  refine ⟨hstands, ?_, ?_, ?_, ?_, houtcome, hrecorded⟩
  · intro j
    by_cases hj : j = i
    · rw [hj, hself]
      exact hright
    · rw [hother hj]
      refine (h.workers j).frame hfollows hrest hend fun l p hl hblock => ?_
      refine (htodo p).resolve_right fun ⟨k, hk, hkp⟩ => hj ?_
      exact (h.apart i j k l hk hl (hkp.trans hblock.symm)).symm
  · intro j₁ j₂ k l hk hl heq
    by_cases h₁ : j₁ = i <;> by_cases h₂ : j₂ = i
    · exact h₁.trans h₂.symm
    · rw [h₁, hself] at hk
      rw [hother h₂] at hl
      exact absurd heq (hnew h₂ hk hl)
    · rw [hother h₁] at hk
      rw [h₂, hself] at hl
      exact absurd heq.symm (hnew h₁ hl hk)
    · rw [hother h₁] at hk
      rw [hother h₂] at hl
      exact h.apart j₁ j₂ k l hk hl heq
  · intro p hp
    have hsame : todo' p = todo p := (htodo p).resolve_right fun ⟨k, hk, hkp⟩ =>
      (h.workers i).behind k hk (hkp ▸ hrest hp)
    rw [hsame, huse]
    exact h.waiting p (hrest hp)
  · intro p hp hnone
    have hx : ∀ k, x.scan? = some k → k.block ≠ p.block := fun k hk => hnone i k (by rw [hself, hk])
    by_cases hmine : p.block ∈ rest ∨ ∃ k, (cr.worker i).scan? = some k ∧ k.block = p.block
    · exact hidle p hp hx hmine
    · rw [not_or] at hmine
      rw [(htodo p).resolve_right hmine.2]
      refine h.idle p hmine.1 fun j k hk hblock => ?_
      by_cases hj : j = i
      · exact hmine.2 ⟨k, hj ▸ hk, hblock⟩
      · exact hnone j k (by rw [hother hj, hk]) hblock

variable {k k' : Pass.Claim} {p : Place} {v v' : Option Reference} {t : Todo ρ}

/-- **A worker has done something with an entry** of the block that it scans: `t` is left to do, the
slot holds `v'` instead of `v`, and what was recorded makes up for the difference. -/
theorem Standing.works (h : Standing job plan cr q s rest todo) (visits : List ρ)
    (asked : List Reference) (hk : (cr.worker i).scan? = some k) (hblock : k.block = p.block)
    (hright : x.Right job plan q s' rest (Function.update todo p t)) (hk' : x.scan? = some k')
    (hblock' : k'.block = k.block) (hload : s.load p = .ok v)
    (hwritten : s.Written s' p v') (huse : ∀ p, s'.InUse p ↔ s.InUse p)
    (hworld : cr'.world = cr.world.setStorage plan.storage s')
    (hworker : cr'.worker = Function.update cr.worker i x)
    (hvisits : cr'.visits = cr.visits ++ visits.map (p, ·))
    (hasked : cr'.asked = cr.asked ++ asked.map (p, ·))
    (houtcome : job.outcome (plan.entry p) (todo p) v =
      (job.outcome (plan.entry p) t v').after visits asked) :
    Standing job plan cr' q s' rest (Function.update todo p t) := by
  have hlinked : p.block ∈ plan.linked := by
    obtain ⟨c, hc, hck⟩ := Option.bind_eq_some_iff.1 hk
    rw [← hblock, ← h.linked]
    exact ((h.workers i).call c hc).2.2.scanning k hck
  refine h.replace ?_ hworker hright (fun c hc => hc.keeps (.of_written hwritten))
    (List.Subset.refl _) id (fun l hl => Or.inr ⟨k, hk, ?_⟩) huse (fun p' => ?_)
    (fun p' hrest hnone hmine => ?_) (fun p' u hu => ?_) ⟨fun y hy => ?_, fun y hy => ?_⟩
  · rw [hworld]
    exact h.write hwritten huse
  · rw [Option.some.inj (hl.symm.trans hk'), hblock']
  · by_cases hp : p' = p
    · exact Or.inr ⟨k, hk, hp ▸ hblock⟩
    · exact Or.inl (Function.update_of_ne hp ..)
  · obtain ⟨l, hl, hlp⟩ := hmine.resolve_left hrest
    rw [← Option.some.inj (hk.symm.trans hl), ← hblock'] at hlp
    exact absurd hlp (hnone k' hk')
  · rw [hvisits, hasked, recordedAt_append, recordedAt_append]
    rw [hwritten.load_eq] at hu
    by_cases hp : p' = p
    · subst hp
      rw [if_pos rfl] at hu
      obtain rfl := Except.ok.inj hu
      simp only [if_true, Function.update_self]
      rw [h.outcome p' v hload, houtcome, Outcome.after_after]
    · rw [if_neg hp] at hu
      simp only [if_neg hp, List.append_nil, Function.update_of_ne hp]
      exact h.outcome p' u hu
  · rw [hvisits] at hy
    rcases List.mem_append.1 hy with hy | hy
    · exact h.recorded.1 y hy
    · obtain ⟨r, -, rfl⟩ := List.mem_map.1 hy
      exact hlinked
  · rw [hasked] at hy
    rcases List.mem_append.1 hy with hy | hy
    · exact h.recorded.2 y hy
    · obtain ⟨r, -, rfl⟩ := List.mem_map.1 hy
      exact hlinked

/-- **A worker has moved on**, and no place is affected. -/
theorem Standing.moves (h : Standing job plan cr q s rest todo)
    (hstands : plan.Stands job.pass cr'.world q' s rest')
    (hworker : cr'.worker = Function.update cr.worker i x)
    (hright : x.Right job plan q' s rest' todo)
    (hfollows : ∀ c : Call, c.Follows q s → c.Follows q' s) (hrest : rest' ⊆ rest)
    (hend : q.cursor = .upcoming none → q'.cursor = .upcoming none)
    (hscan : ∀ k, x.scan? = some k → k.block ∈ rest)
    (hidle : ∀ p, p.block ∉ rest' → (∀ k, x.scan? = some k → k.block ≠ p.block) →
      (p.block ∈ rest ∨ ∃ k, (cr.worker i).scan? = some k ∧ k.block = p.block) → todo p = .nothing)
    (hvisits : cr'.visits = cr.visits) (hasked : cr'.asked = cr.asked) :
    Standing job plan cr' q' s rest' todo := by
  refine h.replace hstands hworker hright hfollows hrest hend (fun k hk => Or.inl (hscan k hk))
    (fun _ => Iff.rfl) (fun _ => Or.inl rfl) hidle ?_ ?_
  · intro p v hv
    rw [hvisits, hasked]
    exact h.outcome p v hv
  · rw [hvisits, hasked]
    exact h.recorded

end Crew

end RootStore
