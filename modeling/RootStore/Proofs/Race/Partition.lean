import RootStore.Proofs.Pass.Once
import RootStore.Proofs.Race.Invariant

/-!
# Racing workers partition the pinned list

Whatever any number of workers and the mutators do, in any order, the blocks that the workers are
given are the blocks of one list, each of them given once: the list as it was when the worker that
has started the pass has read its head.

* `Race.HasRead`, `Race.StartedOn` — what a run has seen of the start of a pass.
* `Race.Partitioned` — what is said of a race.
* `Race.partition` — **every race is so**.
-/

namespace RootStore

namespace Race

variable {ι : Type} [DecidableEq ι] {r₀ r r' : Race ι} {actions : List (Action ι)} {a : Action ι}
  {i j : ι} {L seen : List Nat}

/-! ## The start of a pass, looked back upon -/

/-- Worker `i` has read the head of the list when the list was `seen`, and has not moved since. -/
def HasRead (r₀ : Race ι) (actions : List (Action ι)) (i : ι) (seen : List Nat) : Prop :=
  ∃ before between spurious m, actions = before ++ .work i spurious :: between ∧
    Run r₀ before m ∧ m.worker i = .reading ∧ m.storage.linked = seen ∧
    ∀ spurious, .work i spurious ∉ between

/-- The worker that has started the pass had read the head of the list when the list was `L`. -/
def StartedOn (r₀ : Race ι) (actions : List (Action ι)) (L : List Nat) : Prop :=
  ∃ before later i spurious m head, actions = before ++ .work i spurious :: later ∧
    Run r₀ before m ∧ m.worker i = .starting head L ∧ m.pass.cursor = .notStarted ∧
    HasRead r₀ before i L

/-- Who is about to start the pass has read the head of the list, and who has started it had. -/
structure Remembers (r₀ : Race ι) (actions : List (Action ι)) (r : Race ι) : Prop where
  reading : ∀ i head seen, r.worker i = .starting head seen → HasRead r₀ actions i seen
  started : ∀ L, r.pinned = some L → StartedOn r₀ actions L

theorem HasRead.snoc (h : HasRead r₀ actions i seen) (ha : ∀ spurious, a ≠ .work i spurious) :
    HasRead r₀ (actions ++ [a]) i seen := by
  obtain ⟨before, between, spurious, m, hactions, hrun, hreading, hseen, hbetween⟩ := h
  refine ⟨before, between ++ [a], spurious, m, by simp [hactions], hrun, hreading, hseen, ?_⟩
  intro spurious hmem
  rcases List.mem_append.1 hmem with hmem | hmem
  · exact hbetween spurious hmem
  · exact ha spurious (List.mem_singleton.1 hmem).symm

theorem StartedOn.snoc (h : StartedOn r₀ actions L) (a : Action ι) :
    StartedOn r₀ (actions ++ [a]) L := by
  obtain ⟨before, later, i, spurious, m, head, hactions, hrest⟩ := h
  exact ⟨before, later ++ [a], i, spurious, m, head, by simp [hactions], hrest⟩

/-- A step through an operation that succeeds goes on with what the operation has yielded. -/
theorem bind_eq_ok {α β : Type} {x : Except Fault α} {f : α → Except Fault β} {y : β}
    (h : x >>= f = .ok y) : ∃ z, x = .ok z ∧ f z = .ok y := by
  cases x with
  | error why => cases h
  | ok z => exact ⟨z, rfl, h⟩

/-- What a step of a worker means for the start of the pass: the worker is about to start it only
where it has just read the head of the list, and starts it only where it was about to. -/
theorem work_starting {spurious : Bool} (h : r.work i spurious = .ok r') :
    ∃ place, r'.worker = Function.update r.worker i place ∧
      (∀ head seen, place = .starting head seen → r.worker i = .reading ∧
        head = r.storage.head ∧ seen = r.storage.linked) ∧
      (r'.pinned = r.pinned ∨
        ∃ head seen, r.worker i = .starting head seen ∧ r'.pinned = some seen) := by
  rcases hi : r.worker i with _ | _ | ⟨head, seen⟩ | _ | c | ⟨n, next⟩ | n | _ <;>
    simp only [work, hi] at h
  · obtain rfl := Except.ok.inj h
    refine ⟨_, rfl, fun head seen heq => ?_, Or.inl rfl⟩
    split at heq <;> cases heq
  · obtain rfl := Except.ok.inj h
    refine ⟨_, rfl, fun head seen heq => ?_, Or.inl rfl⟩
    cases heq
    exact ⟨rfl, rfl, rfl⟩
  · split at h <;> obtain rfl := Except.ok.inj h
    · exact ⟨_, rfl, by simp, Or.inr ⟨head, seen, rfl, rfl⟩⟩
    · exact ⟨_, rfl, by simp, Or.inl rfl⟩
  · split at h
    · cases h
    · obtain rfl := Except.ok.inj h
      exact ⟨_, rfl, by simp, Or.inl rfl⟩
  · rcases c with _ | _ | n
    · cases h
    · obtain rfl := Except.ok.inj h
      exact ⟨_, rfl, by simp, Or.inl rfl⟩
    · obtain ⟨b, -, hb⟩ := bind_eq_ok h
      obtain rfl := Except.ok.inj hb
      exact ⟨_, rfl, by simp, Or.inl rfl⟩
  · split at h <;> obtain rfl := Except.ok.inj h
    · exact ⟨_, rfl, by simp, Or.inl rfl⟩
    · exact ⟨_, rfl, by simp, Or.inl rfl⟩
  · obtain rfl := Except.ok.inj h
    exact ⟨_, rfl, by simp, Or.inl rfl⟩
  · obtain rfl := Except.ok.inj h
    exact ⟨_, rfl, by simp, Or.inl rfl⟩

/-- What mutators do means nothing for the start of the pass. -/
theorem act_of_ne_work (ha : ∀ i spurious, a ≠ .work i spurious) (h : r.act a = .ok r') :
    r'.worker = r.worker ∧ r'.pinned = r.pinned := by
  cases a with
  | work i spurious => exact absurd rfl (ha i spurious)
  | allocate a | release p | delete =>
      obtain ⟨s, -, hs⟩ := bind_eq_ok h
      obtain rfl := Except.ok.inj hs
      exact ⟨rfl, rfl⟩

/-- One step more to look back upon. -/
theorem Remembers.snoc (h : Remembers r₀ actions r) (hrun : Run r₀ actions r) (hinv : r.Inv)
    (ha : r.Permits a) (hact : r.act a = .ok r') : Remembers r₀ (actions ++ [a]) r' := by
  by_cases hwork : ∃ i spurious, a = .work i spurious
  · obtain ⟨i, spurious, rfl⟩ := hwork
    obtain ⟨place, hworker, hreading, hpinned⟩ := work_starting hact
    constructor
    · intro j head seen hj
      rw [hworker, Function.update_apply] at hj
      split at hj
      · rename_i hji
        obtain ⟨hi, -, hseen⟩ := hreading head seen hj
        exact ⟨actions, [], spurious, r, by simp [hji], hrun, by rw [hji, hi], hseen.symm, by simp⟩
      · rename_i hji
        exact (h.reading j head seen hj).snoc fun _ heq => hji (Action.work.inj heq).1.symm
    · intro L hL
      obtain ⟨r₂, hact₂, -, hkept⟩ := hinv.act ha
      obtain rfl := Except.ok.inj (hact.symm.trans hact₂)
      rcases hinv.phase with hu | ⟨L₀, hs⟩
      · rcases hpinned with heq | ⟨head, seen, hi, heq⟩
        · rw [heq, hu.pinned] at hL
          cases hL
        · obtain rfl := Option.some.inj (heq.symm.trans hL)
          exact ⟨actions, [], i, spurious, r, head, rfl, hrun, hi, hu.cursor, h.reading i head _ hi⟩
      · obtain rfl := Option.some.inj ((hkept L₀ hs.pinned).symm.trans hL)
        exact (h.started _ hs.pinned).snoc _
  · have hmutator : ∀ i spurious, a ≠ .work i spurious := fun i spurious heq =>
      hwork ⟨i, spurious, heq⟩
    obtain ⟨hworker, hpinned⟩ := act_of_ne_work hmutator hact
    constructor
    · intro j head seen hj
      rw [hworker] at hj
      exact (h.reading j head seen hj).snoc (hmutator j)
    · intro L hL
      rw [hpinned] at hL
      exact (h.started L hL).snoc a

/-- **Every run can be looked back upon** to the start of its pass. -/
theorem Run.remembers (hrun : Run r₀ actions r) (hinv : r₀.Inv) (hnew : Remembers r₀ [] r₀) :
    Remembers r₀ actions r := by
  induction hrun with
  | nil => exact hnew
  | snoc a hrun ha hact ih => exact ih.snoc hrun (hrun.inv hinv).1 ha hact

/-! ## The partition -/

/-- The worker has made sure that the pass has started. -/
def Worker.claiming : Worker → Bool
  | .entering | .reading | .starting _ _ => false
  | .fetching | .holding _ | .moving _ _ | .counting _ | .finished => true

/-- **What is said of a race** that these actions have led from `r₀` to `r`. -/
structure Partitioned (r₀ : Race ι) (actions : List (Action ι)) (r : Race ι) : Prop where
  /-- Whoever takes a step next, it succeeds: no cursor that has not started and no block that is
  not there is ever followed. -/
  succeeds : ∀ a, r.Permits a → ∃ r', r.act a = .ok r'
  /-- Nothing is claimed before the pass has started. -/
  waits : r.pinned = none → (∀ i, (r.worker i).claiming = false) ∧ r.won = [] ∧ r.returned = [] ∧
    r.exhausted = [] ∧ r.pass.cursor = .notStarted ∧ r.pass.claimed = 0
  /-- The pass was started on the list as it was when the worker that has started it read its
  head. -/
  started : ∀ L, r.pinned = some L → StartedOn r₀ actions L
  /-- It was started once for all. -/
  pinned : ∀ L, r.pinned = some L → ∀ later r', Run r later r' → r'.pinned = some L
  /-- The blocks of that list are won in its order, and the cursor stands before the next one. -/
  in_order : ∀ L, r.pinned = some L →
    ∃ rest, L = r.won.map Prod.snd ++ rest ∧ r.pass.cursor = .upcoming rest.head?
  /-- A worker is given what it has won, once it has counted it. -/
  given : ∀ i n, (i, n) ∈ r.won ↔ (i, n) ∈ r.returned ∨ r.worker i = .counting n
  /-- No block is given to two workers, nor to one twice. -/
  once : (r.returned.map Prod.snd).Nodup
  /-- Every block given is one of that list. -/
  listed : ∀ i n, (i, n) ∈ r.returned → ∃ L, r.pinned = some L ∧ n ∈ L
  /-- The count is that of the blocks given. -/
  counted : r.pass.claimed = r.returned.length
  /-- When any worker has found no block left, the whole list has been won. -/
  exhausts : r.exhausted ≠ [] → ∃ L, r.pinned = some L ∧ r.won.map Prod.snd = L
  /-- When moreover nobody is still counting, the whole list has been given and counted. -/
  settles : r.exhausted ≠ [] → (∀ i n, r.worker i ≠ .counting n) →
    ∃ L, r.pinned = some L ∧ (r.returned.map Prod.snd).Perm L ∧ r.pass.claimed = L.length
  /-- That a cursor is at the same address means that it is at the same block. -/
  no_reuse : ∀ i n next, r.worker i = .moving n next → ∀ new,
    r.compareExchange (.upcoming (some n)) new = r.pass.moveCursor (.upcoming (some n)) new

/-- A race whose pass nobody has started. -/
theorem Unstarted.partitioned (h : r.Unstarted) (hinv : r.Inv)
    (hmemory : Remembers r₀ actions r) : Partitioned r₀ actions r := by
  have hwaits : ∀ i, (r.worker i).claiming = false := fun i => by
    rcases h.worker i with hi | hi | ⟨seen, hi, -⟩ <;> rw [hi] <;> rfl
  have hidle : ∀ i n, r.worker i ≠ .counting n := fun i n hi => by
    simpa [hi, Worker.claiming] using hwaits i
  exact {
    succeeds := fun a ha => by
      obtain ⟨r', hact, -⟩ := hinv.act ha
      exact ⟨r', hact⟩
    waits := fun _ => ⟨hwaits, h.won, h.returned, h.exhausted, h.cursor, h.claimed⟩
    started := hmemory.started
    pinned := fun L hL later r' hrun => (hrun.inv hinv).2 L hL
    in_order := fun L hL => by simp [h.pinned] at hL
    given := fun i n => by simp [h.won, h.returned, hidle]
    once := by simp [h.returned]
    listed := fun i n hn => by simp [h.returned] at hn
    counted := by simp [h.returned, h.claimed]
    exhausts := fun hne => absurd h.exhausted hne
    settles := fun hne => absurd h.exhausted hne
    no_reuse := fun i n next hi => by
      have := hwaits i
      simp [hi, Worker.claiming] at this }

omit [DecidableEq ι] in
/-- What was won has been returned when nobody is counting. -/
theorem Started.settles (h : r.Started L) (hnd : L.Nodup) (hne : r.exhausted ≠ [])
    (hidle : ∀ i n, r.worker i ≠ .counting n) :
    (r.returned.map Prod.snd).Perm L ∧ r.pass.claimed = L.length := by
  have hperm : (r.returned.map Prod.snd).Perm L := by
    rw [List.perm_ext_iff_of_nodup h.returned hnd, ← h.exhausted hne]
    intro n
    simp only [List.mem_map, Prod.exists, exists_eq_right, h.won, hidle, or_false]
  exact ⟨hperm, by rw [h.claimed, ← hperm.length_eq, List.length_map]⟩

/-- A race whose pass was started on the list `L`. -/
theorem Started.partitioned (h : r.Started L) (hinv : r.Inv)
    (hmemory : Remembers r₀ actions r) : Partitioned r₀ actions r := by
  have hnd : L.Nodup := hinv.sound.lists.nodup.sublist h.suffix.sublist
  obtain ⟨rest, hrest, hcursor⟩ := h.cursor
  have hlisted : ∀ i n, (i, n) ∈ r.won → n ∈ L := fun i n hn => by
    rw [hrest]
    exact List.mem_append_left _ (List.mem_map_of_mem hn)
  exact {
    succeeds := fun a ha => by
      obtain ⟨r', hact, -⟩ := hinv.act ha
      exact ⟨r', hact⟩
    waits := fun hnone => by simp [h.pinned] at hnone
    started := hmemory.started
    pinned := fun L hL later r' hrun => (hrun.inv hinv).2 L hL
    in_order := fun L' hL' => by
      obtain rfl := Option.some.inj (h.pinned.symm.trans hL')
      exact h.cursor
    given := h.won
    once := h.returned
    listed := fun i n hn => ⟨L, h.pinned, hlisted i n ((h.won i n).2 (Or.inl hn))⟩
    counted := h.claimed
    exhausts := fun hne => ⟨L, h.pinned, h.exhausted hne⟩
    settles := fun hne hidle => ⟨L, h.pinned, h.settles hnd hne hidle⟩
    no_reuse := fun i n next hi => by
      have hright := h.right i
      rw [hi] at hright
      obtain ⟨l₁, l₂, hsplit, -⟩ := hright
      refine compareExchange_eq hinv.placed h.valid fun m hm => ?_
      obtain rfl := Option.some.inj (Cursor.upcoming.inj hm)
      exact h.suffix.subset (by simp [hsplit]) }

omit [DecidableEq ι] in
/-- Before anybody has taken a step. -/
theorem inv_begin {s : Storage} {address : Nat → Address} {q : Pass} (hs : s.Sound)
    (hflag : s.iterating = true) (hplaced : Placed s address) (hcursor : q.cursor = .notStarted)
    (hclaimed : q.claimed = 0) : (begin s address q : Race ι).Inv :=
  ⟨hs, hflag, hplaced, Or.inl ⟨hcursor, hclaimed, rfl, rfl, rfl, rfl, fun _ => Or.inl rfl⟩⟩

/-- **Racing workers partition the pinned list**: over any storage of any world that can be reached
and that a concurrent pass is about to iterate, whoever takes the steps and in whatever order. -/
theorem partition {w : World} {p : Nat} {before between : List Step} {start : Step} {q : Pass}
    {s : Storage} {address : Nat → Address}
    (hrun : World.Run {} (before ++ start :: between) w) (hstart : start.reply = .began p)
    (hbetween : ∀ st ∈ between, ¬ st.Enters p) (hq : w.passes.get? p = some q)
    (hconcurrent : q.concurrent = true) (hs : w.storages.get? q.storage = some s)
    (hplaced : Placed s address) (hrace : Run (begin s address q) actions r) :
    Partitioned (begin s address q) actions r := by
  obtain ⟨hrun₀, hp₀, hrun₁⟩ := hrun.split
  have hw₀ := hrun₀.sound .init
  have hw₁ := (hw₀.transition hp₀).sound hw₀
  have hnew := World.unstarted_of_began hw₀ hp₀ hstart
  obtain ⟨hunstarted, -⟩ := hnew.run hw₁ hrun₁ hbetween
  obtain ⟨hcursor, hclaimed⟩ := hunstarted.2 q hq
  have hw := hrun₁.sound hw₁
  obtain ⟨s', hs', hfollows⟩ := hw.passes p q hq
  obtain rfl := Option.some.inj (hs.symm.trans hs')
  have hinv : (begin s address q : Race ι).Inv := inv_begin (hw.storages _ s hs).2
    (hfollows.flagged hconcurrent) hplaced hcursor hclaimed
  have hmemory : Remembers (begin s address q) actions r := by
    refine hrace.remembers hinv ⟨fun i head seen hi => ?_, fun L hL => ?_⟩
    · cases hi
    · cases hL
  have hinv' := (hrace.inv hinv).1
  rcases hinv'.phase with hu | ⟨L, hs⟩
  · exact hu.partitioned hinv' hmemory
  · exact hs.partitioned hinv' hmemory

/-- Two workers race for the two blocks of a list.  The first reads its head, the second reads a
newer one and is too late; both read the link of the first block, which the second wins. -/
theorem partition_of_two_workers :
    let start : Step :=
      ⟨({} : World).afterAll (.create {} :: List.replicate 65 (.allocate 1)),
        .beginPass 1 true .readOnly⟩
    let q : Pass := { storage := 1, concurrent := true, access := .readOnly }
    let address : Nat → Address := fun n => BitVec.ofNat 64 (1024 * n)
    let first : Action Bool := .work true false
    let second : Action Bool := .work false false
    let actions : List (Action Bool) :=
      [first, first, second] ++ List.replicate 64 (.allocate 3072#64) ++
      [second, first, second, .delete, first, second, first, second, second, first, second, first,
        first, second, first, first, second, first, second]
    ∃ s r, start.after.storages.get? 1 = some s ∧ r.storage.linked = [3, 2, 1] ∧
      r.returned = [(false, 2), (true, 1)] ∧ r.exhausted = [false, true] ∧
      Partitioned (begin s address q) actions r := by
  intro start q address first second actions
  have hplay : ((start.after.storages.get? 1).bind fun s =>
      ((begin s address q).play actions).map fun r =>
        (r.storage.linked, r.returned, r.exhausted)) =
      some ([3, 2, 1], [(false, 2), (true, 1)], [false, true]) := by decide +kernel
  obtain ⟨s, hs, hplay⟩ := Option.bind_eq_some_iff.1 hplay
  obtain ⟨r, hr, heq⟩ := Option.map_eq_some_iff.1 hplay
  have hall : (start.after.storages.get? 1).all fun s => decide (Placed s address) := by
    decide +kernel
  have hplaced : Placed s address := by simpa [hs] using hall
  obtain ⟨hlinked, hreturned, hexhausted⟩ := by simpa only [Prod.mk.injEq] using heq
  refine ⟨s, r, hs, hlinked, hreturned, hexhausted, ?_⟩
  refine partition (p := 1) (World.run_trail_last (by decide +kernel)) (by decide +kernel) (by simp)
    (by decide +kernel) rfl hs hplaced (run_play _ _ hr)

end Race

end RootStore
