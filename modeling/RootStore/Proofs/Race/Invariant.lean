import RootStore.Proofs.Race.Protocol
import RootStore.Proofs.World.Transition

/-!
# What holds in the middle of a race

However the steps of the workers and of the mutators are interleaved, one worker starts the pass,
and from then on what the workers win one after the other is the list that this worker has seen.  No
block is freed while the pass is alive, so no address is used again, and to exchange the cursor by
address is to exchange it by what it stands for.

* `Race.compareExchange_eq` — **addresses do as well as blocks**.
* `Race.Unstarted`, `Race.Started` — the two phases of a pass.
* `Race.Inv` — the invariant.
* `Race.Inv.act` — **every permitted step succeeds** and keeps it.
* `Race.Run.inv` — so a whole run does.
-/

namespace RootStore

namespace Race

variable {ι : Type} {r r' : Race ι} {i j : ι} {L : List Nat} {n : Nat}

/-! ## Words -/

/-- The block at a cursor, if there is one, is linked. -/
def Valid (r : Race ι) (c : Cursor) : Prop := ∀ n, c = .upcoming (some n) → n ∈ r.storage.linked

/-- **Cursors at linked blocks are the same word only if they are the same.** -/
theorem word_eq_iff (h : Placed r.storage r.address) {c d : Cursor} (hc : r.Valid c)
    (hd : r.Valid d) : r.word c = r.word d ↔ c = d := by
  refine ⟨fun heq => ?_, fun heq => by rw [heq]⟩
  rcases c with _ | _ | m <;> rcases d with _ | _ | k <;> simp only [word] at heq
  · rfl
  · exact absurd heq (by decide)
  · exact absurd heq.symm (ne_one_of_isBlock (h.block k (hd k rfl)))
  · exact absurd heq (by decide)
  · rfl
  · exact absurd heq.symm (h.block k (hd k rfl)).1
  · exact absurd heq (ne_one_of_isBlock (h.block m (hc m rfl)))
  · exact absurd heq (h.block m (hc m rfl)).1
  · rw [h.injective m (hc m rfl) k (hd k rfl) heq]

/-- **To exchange the cursor by address is to move it**, where both cursors are at linked blocks. -/
theorem compareExchange_eq (h : Placed r.storage r.address) {expected : Cursor}
    (hcursor : r.Valid r.pass.cursor) (hexpected : r.Valid expected) (new : Cursor) :
    r.compareExchange expected new = r.pass.moveCursor expected new := by
  simp only [compareExchange, Pass.moveCursor, word_eq_iff h hcursor hexpected]

/-! ## The two phases -/

/-- Nobody has started the pass. -/
structure Unstarted (r : Race ι) : Prop where
  cursor : r.pass.cursor = .notStarted
  claimed : r.pass.claimed = 0
  pinned : r.pinned = none
  won : r.won = []
  returned : r.returned = []
  exhausted : r.exhausted = []
  /-- Who has read the head of the list has seen a rest of the list that now is. -/
  worker : ∀ i, r.worker i = .entering ∨ r.worker i = .reading ∨ ∃ seen,
    r.worker i = .starting seen.head? seen ∧ seen <:+ r.storage.linked

/-- The place of a worker in its program is right, where the pass was pinned to `L` and the blocks
`W` have been won. -/
def Worker.Right (L W : List Nat) : Worker → Prop
  | .holding .notStarted => False
  | .holding (.upcoming none) => W = L
  | .holding (.upcoming (some n)) => n ∈ L
  | .moving n next => ∃ l₁ l₂, L = l₁ ++ n :: l₂ ∧ next = l₂.head?
  | .entering | .reading | .starting _ _ | .fetching | .counting _ | .finished => True

/-- The pass was started on the list `L`. -/
structure Started (r : Race ι) (L : List Nat) : Prop where
  pinned : r.pinned = some L
  /-- The list stays linked. -/
  suffix : L <:+ r.storage.linked
  /-- What was won and what is left are the list, and the cursor stands between. -/
  cursor : ∃ rest, L = r.won.map Prod.snd ++ rest ∧ r.pass.cursor = .upcoming rest.head?
  right : ∀ i, (r.worker i).Right L (r.won.map Prod.snd)
  /-- What was won has been returned or is being counted. -/
  won : ∀ i n, (i, n) ∈ r.won ↔ (i, n) ∈ r.returned ∨ r.worker i = .counting n
  /-- What is being counted has not been returned. -/
  counting : ∀ i n, r.worker i = .counting n → (i, n) ∉ r.returned
  returned : (r.returned.map Prod.snd).Nodup
  claimed : r.pass.claimed = r.returned.length
  exhausted : r.exhausted ≠ [] → r.won.map Prod.snd = L

/-- **What holds at any moment of a race.** -/
structure Inv (r : Race ι) : Prop where
  sound : r.storage.Sound
  flagged : r.storage.iterating = true
  placed : Placed r.storage r.address
  phase : r.Unstarted ∨ ∃ L, r.Started L

/-- A pass is in one of its phases with a cursor at a linked block, if at any. -/
theorem Started.valid (h : r.Started L) : r.Valid r.pass.cursor := by
  intro n hn
  obtain ⟨rest, hL, hcursor⟩ := h.cursor
  rw [hcursor] at hn
  have hmem : n ∈ rest := List.mem_of_mem_head? (Cursor.upcoming.inj hn)
  exact h.suffix.subset (by rw [hL]; exact List.mem_append_right _ hmem)

theorem Started.ne_notStarted (h : r.Started L) : r.pass.cursor ≠ .notStarted := by
  obtain ⟨rest, -, hcursor⟩ := h.cursor
  simp [hcursor]

/-- A worker that finds the cursor at the end of the list has seen everything won. -/
theorem Started.right_holding (h : r.Started L) :
    (Worker.holding r.pass.cursor).Right L (r.won.map Prod.snd) := by
  obtain ⟨rest, hrest, hcursor⟩ := h.cursor
  rw [hcursor]
  cases rest with
  | nil => simpa [Worker.Right] using hrest.symm
  | cons n rest => simp [Worker.Right, hrest]

/-! ## Steps of workers -/

variable [DecidableEq ι] {place : Worker}

@[simp] theorem goto_worker (r : Race ι) (i : ι) (place : Worker) (j : ι) :
    (r.goto i place).worker j = if j = i then place else r.worker j := by
  simp [goto, Function.update_apply]

@[simp] theorem goto_won (r : Race ι) (i : ι) (place : Worker) : (r.goto i place).won = r.won := rfl

@[simp] theorem goto_returned (r : Race ι) (i : ι) (place : Worker) :
    (r.goto i place).returned = r.returned := rfl

/-- A worker goes on without touching anything shared. -/
theorem Started.goto (h : r.Started L) (hold : ∀ n, r.worker i ≠ .counting n)
    (hnew : ∀ n, place ≠ .counting n) (hright : place.Right L (r.won.map Prod.snd)) :
    (r.goto i place).Started L where
  pinned := h.pinned
  suffix := h.suffix
  cursor := h.cursor
  right := fun j => by
    rw [goto_worker]
    split
    · exact hright
    · exact h.right j
  won := fun j n => by
    rw [goto_worker]
    split
    · rename_i hj
      subst hj
      exact (h.won j n).trans (or_congr_right ⟨fun hc => absurd hc (hold n), fun hc =>
        absurd hc (hnew n)⟩)
    · exact h.won j n
  counting := fun j n hj => by
    rw [goto_worker] at hj
    split at hj
    · exact absurd hj (hnew n)
    · exact h.counting j n hj
  returned := h.returned
  claimed := h.claimed
  exhausted := h.exhausted

/-- A worker that wins a block takes the first one that is left. -/
theorem Started.win (h : r.Started L) (hL : L.Nodup) {next : Option Nat}
    (hi : r.worker i = .moving n next) (hcursor : r.pass.cursor = .upcoming (some n)) :
    { r.goto i (.counting n) with
      pass := { r.pass with cursor := .upcoming next }, won := r.won ++ [(i, n)] }.Started L := by
  obtain ⟨rest, hrest, hat⟩ := h.cursor
  rw [hcursor] at hat
  obtain ⟨tail, rfl⟩ := List.head?_eq_some_iff.1 (Cursor.upcoming.inj hat).symm
  -- the link that the worker has read leads to what is left behind the block
  obtain ⟨l₁, l₂, hl, hnext⟩ : ∃ l₁ l₂, L = l₁ ++ n :: l₂ ∧ next = l₂.head? := by
    have := h.right i
    rwa [hi] at this
  have htail : l₂ = tail := by
    have heq : l₁ ++ n :: l₂ = r.won.map Prod.snd ++ n :: tail := hl.symm.trans hrest
    rw [hl] at hL
    rcases split_append heq with ⟨t, ht, ht'⟩ | ⟨t, ht, ht'⟩
    · cases t with
      | nil => exact (List.cons.inj ht').2
      | cons x t =>
          have hn : n ∈ l₂ := by simp [(List.cons.inj ht').2]
          exact absurd hn (List.nodup_cons.1 (List.nodup_append.1 hL).2.1).1
    · rw [ht] at hL
      have hn := (List.nodup_append.1 hL).2.2 n (by simp) n (by simp)
      exact absurd rfl hn
  have hnew : ∀ j, (j, n) ∉ r.won := by
    intro j hj
    rw [hrest] at hL
    exact (List.nodup_append.1 hL).2.2 n (List.mem_map_of_mem hj) n (by simp) rfl
  refine ⟨h.pinned, h.suffix, ⟨tail, by simp [hrest], by simp [hnext, htail]⟩, fun j => ?_,
    fun j m => ?_, fun j m hj => ?_, h.returned, h.claimed, fun hne => ?_⟩
  · simp only [goto_worker]
    split
    · trivial
    · have := h.right j
      rcases hw : r.worker j with _ | _ | _ | _ | c | _ | _ | _ <;> rw [hw] at this <;>
        try exact this
      -- nobody has found the list exhausted, since a block was left
      rcases c with _ | _ | m
      · exact this
      · have hnil : L = L ++ n :: tail := by
          conv_lhs => rw [hrest]
          rw [show r.won.map Prod.snd = L from this]
        simp at hnil
      · exact this
  · simp only [goto_worker, goto_returned, List.mem_append, List.mem_singleton, Prod.mk.injEq,
      h.won j m]
    by_cases hj : j = i
    · subst hj
      simp [hi, eq_comm]
    · simp [hj]
  · simp only [goto_worker] at hj
    split at hj
    · rename_i hji
      obtain rfl := Worker.counting.inj hj
      exact fun hret => hnew j ((h.won j n).2 (Or.inl hret))
    · exact h.counting j m hj
  · have := h.exhausted hne
    rw [this] at hrest
    simp at hrest

/-- A worker that has won a block counts it. -/
theorem Started.count (h : r.Started L) (hL : L.Nodup) (hi : r.worker i = .counting n) :
    { r.goto i .fetching with
      pass := { r.pass with claimed := r.pass.claimed + 1 }
      returned := r.returned ++ [(i, n)] }.Started L := by
  have hwon : (i, n) ∈ r.won := (h.won i n).2 (Or.inr hi)
  have hnd : (r.won.map Prod.snd).Nodup := by
    obtain ⟨rest, hrest, -⟩ := h.cursor
    rw [hrest] at hL
    exact (List.nodup_append.1 hL).1
  have hsame : ∀ j, (j, n) ∈ r.won → j = i := fun j hj => by
    have := List.inj_on_of_nodup_map hnd hj hwon rfl
    exact (Prod.mk.inj this).1
  refine ⟨h.pinned, h.suffix, h.cursor, fun j => ?_, fun j m => ?_, fun j m hj => ?_, ?_, ?_,
    h.exhausted⟩
  · simp only [goto_worker]
    split
    · trivial
    · exact h.right j
  · simp only [goto_worker, goto_won, List.mem_append, List.mem_singleton, Prod.mk.injEq,
      h.won j m]
    by_cases hj : j = i
    · subst hj
      simp [hi, eq_comm]
    · simp [hj]
  · simp only [goto_worker] at hj
    split at hj
    · cases hj
    · rename_i hji
      rw [List.mem_append, List.mem_singleton, not_or]
      exact ⟨h.counting j m hj, fun heq => hji (Prod.mk.inj heq).1⟩
  · rw [List.map_append, List.nodup_append]
    refine ⟨h.returned, by simp, fun m hm k hk => ?_⟩
    obtain rfl : k = n := by simpa using hk
    rintro rfl
    obtain ⟨⟨j, m'⟩, hret, rfl⟩ := List.mem_map.1 hm
    obtain rfl := hsame j ((h.won j m').2 (Or.inl hret))
    exact h.counting j m' hi hret
  · simp [h.claimed]

/-- A worker goes on before the pass has started. -/
theorem Unstarted.goto (h : r.Unstarted) (hplace : place = .entering ∨ place = .reading ∨ ∃ seen,
    place = .starting seen.head? seen ∧ seen <:+ r.storage.linked) : (r.goto i place).Unstarted :=
  ⟨h.cursor, h.claimed, h.pinned, h.won, h.returned, h.exhausted, fun j => by
    rw [goto_worker]
    split
    · exact hplace
    · exact h.worker j⟩

/-- A worker starts the pass on the list that it has seen. -/
theorem Unstarted.start {seen : List Nat} (h : r.Unstarted) (hseen : seen <:+ r.storage.linked) :
    { r.goto i .fetching with
      pass := { r.pass with cursor := .upcoming seen.head? }
      pinned := some seen }.Started seen := by
  have hnone : ∀ j n, (r.goto i .fetching).worker j ≠ .counting n := by
    intro j n
    rw [goto_worker]
    split
    · simp
    · rcases h.worker j with hj | hj | ⟨s, hj, -⟩ <;> simp [hj]
  refine ⟨rfl, hseen, ⟨seen, by simp [h.won], rfl⟩, fun j => ?_, fun j n => ?_,
    fun j n hj => ?_, ?_, ?_, fun hne => absurd h.exhausted hne⟩
  · simp only [goto_worker]
    split
    · trivial
    · rcases h.worker j with hj | hj | ⟨s, hj, -⟩ <;> simp [hj, Worker.Right]
  · simp only [goto_won, goto_returned, h.won, h.returned]
    simpa using hnone j n
  · exact absurd hj (hnone j n)
  · simp [h.returned]
  · simp [h.returned, h.claimed]

/-- The race `r'` is `r` after a worker has taken a step. -/
structure Worked (r r' : Race ι) : Prop where
  storage_eq : r'.storage = r.storage
  address_eq : r'.address = r.address
  phase : r'.Unstarted ∨ ∃ L, r'.Started L
  pinned : ∀ L, r.pinned = some L → r'.pinned = some L

/-- Before the pass has started a worker is on its way to start it. -/
theorem Unstarted.work (h : r.Unstarted) (hlists : r.storage.Lists r.storage.linked) (i : ι)
    (spurious : Bool) :
    ∃ r', r.work i spurious = .ok r' ∧ Worked r r' := by
  have hnone : ∀ {r' : Race ι}, ∀ L, r.pinned = some L → r'.pinned = some L := fun L hL => by
    simp [h.pinned] at hL
  rcases h.worker i with hi | hi | ⟨seen, hi, hseen⟩
  · exact ⟨r.goto i .reading, by simp [Race.work, hi, h.cursor], rfl, rfl,
      Or.inl (h.goto (by simp)), hnone⟩
  · refine ⟨r.goto i (.starting r.storage.head r.storage.linked), by simp only [Race.work, hi],
      rfl, rfl, Or.inl (h.goto (Or.inr (Or.inr ?_))), hnone⟩
    exact ⟨r.storage.linked, by rw [hlists.head_eq], List.suffix_refl _⟩
  · have hcas : r.compareExchange .notStarted (.upcoming seen.head?) =
        some { r.pass with cursor := .upcoming seen.head? } := by
      unfold compareExchange
      rw [h.cursor, if_pos rfl]
    exact ⟨{ r.goto i .fetching with
        pass := { r.pass with cursor := .upcoming seen.head? }, pinned := some seen },
      by simp only [Race.work, hi, hcas], rfl, rfl, Or.inr ⟨seen, h.start hseen⟩, hnone⟩

/-- A worker that only goes to another place. -/
theorem Started.worked (h : r.Started L) (hold : ∀ n, r.worker i ≠ .counting n)
    (hnew : ∀ n, place ≠ .counting n) (hright : place.Right L (r.won.map Prod.snd)) :
    Worked r (r.goto i place) :=
  ⟨rfl, rfl, Or.inr ⟨L, h.goto hold hnew hright⟩, fun _ hp => hp⟩

/-- A worker that has read the cursor finds nothing left, or it follows the link of a block, which
is there. -/
theorem Started.follow (h : r.Started L) (hlists : r.storage.Lists r.storage.linked) {c : Cursor}
    (hi : r.worker i = .holding c) (spurious : Bool) :
    ∃ r', r.work i spurious = .ok r' ∧ Worked r r' := by
  have hright := h.right i
  rw [hi] at hright
  rcases c with _ | _ | n
  · exact hright.elim
  · have hmid : (r.goto i .finished).Started L := h.goto (by simp [hi]) (by simp) trivial
    refine ⟨{ r.goto i .finished with exhausted := r.exhausted ++ [i] },
      by simp only [Race.work, hi], rfl, rfl, Or.inr ⟨L, ?_⟩, fun _ hp => hp⟩
    exact ⟨hmid.pinned, hmid.suffix, hmid.cursor, hmid.right, hmid.won, hmid.counting,
      hmid.returned, hmid.claimed, fun _ => hright⟩
  · -- the link of a listed block leads to the block behind it in the list
    obtain ⟨l₁, l₂, hl⟩ := List.append_of_mem (show n ∈ L from hright)
    obtain ⟨l₀, hl₀⟩ := h.suffix
    obtain ⟨b, hb, hnext, -⟩ := hlists.links (l₀ ++ l₁) n l₂ (by
      rw [← hl₀, hl, List.append_assoc])
    refine ⟨r.goto i (.moving n b.next), ?_, h.worked (by simp [hi]) (by simp) ⟨l₁, l₂, hl, hnext⟩⟩
    simp [Race.work, hi, Storage.block, hb, bind, Except.bind, pure, Except.pure]

/-- A worker that exchanges the cursor wins the block, or it takes the cursor that it has found. -/
theorem Started.exchange (h : r.Started L) (hnd : L.Nodup) (hplaced : Placed r.storage r.address)
    {next : Option Nat} (hi : r.worker i = .moving n next) (spurious : Bool) :
    ∃ r', r.work i spurious = .ok r' ∧ Worked r r' := by
  have hn : n ∈ L := by
    have hright := h.right i
    rw [hi] at hright
    obtain ⟨l₁, l₂, hl, -⟩ := hright
    simp [hl]
  by_cases hwin : spurious = false ∧ r.pass.cursor = .upcoming (some n)
  · obtain ⟨rfl, hcursor⟩ := hwin
    have hcas : r.compareExchange (.upcoming (some n)) (.upcoming next) =
        some { r.pass with cursor := .upcoming next } := by
      unfold compareExchange
      rw [hcursor, if_pos rfl]
    exact ⟨{ r.goto i (.counting n) with
        pass := { r.pass with cursor := .upcoming next }, won := r.won ++ [(i, n)] },
      by simp only [Race.work, hi, hcas, Bool.false_eq_true, if_false], rfl, rfl,
      Or.inr ⟨L, h.win hnd hi hcursor⟩, fun _ hp => hp⟩
  · have hcas : (if spurious then none else
        r.compareExchange (.upcoming (some n)) (.upcoming next)) = none := by
      rcases spurious with _ | _
      · have hvalid : r.Valid (.upcoming (some n)) := fun m hm => by
          simp only [Cursor.upcoming.injEq, Option.some.injEq] at hm
          exact h.suffix.subset (hm ▸ hn)
        have hne : r.pass.cursor ≠ .upcoming (some n) := fun heq => hwin ⟨rfl, heq⟩
        simp [compareExchange, word_eq_iff hplaced h.valid hvalid, hne]
      · rfl
    exact ⟨r.goto i (.holding r.pass.cursor), by simp only [Race.work, hi, hcas],
      h.worked (by simp [hi]) (by simp) h.right_holding⟩

/-- Once the pass has started a worker goes on claiming, wherever it stands. -/
theorem Started.work (h : r.Started L) (hlists : r.storage.Lists r.storage.linked)
    (hplaced : Placed r.storage r.address) (i : ι) (spurious : Bool) :
    ∃ r', r.work i spurious = .ok r' ∧ Worked r r' := by
  have hnd : L.Nodup := hlists.nodup.sublist h.suffix.sublist
  have hstarted : r.word r.pass.cursor ≠ r.word .notStarted := fun heq =>
    h.ne_notStarted ((word_eq_iff hplaced h.valid (by simp [Valid])).1 heq)
  cases hi : r.worker i with
  | entering =>
      exact ⟨r.goto i .fetching, by simp [Race.work, hi, hstarted],
        h.worked (by simp [hi]) (by simp) trivial⟩
  | reading =>
      exact ⟨r.goto i (.starting r.storage.head r.storage.linked), by simp only [Race.work, hi],
        h.worked (by simp [hi]) (by simp) trivial⟩
  | starting head seen =>
      have hcas : r.compareExchange .notStarted (.upcoming head) = none := by
        unfold compareExchange
        rw [if_neg hstarted]
      exact ⟨r.goto i .fetching, by simp only [Race.work, hi, hcas],
        h.worked (by simp [hi]) (by simp) trivial⟩
  | fetching =>
      exact ⟨r.goto i (.holding r.pass.cursor), by simp only [Race.work, hi, if_neg hstarted],
        h.worked (by simp [hi]) (by simp) h.right_holding⟩
  | holding c => exact h.follow hlists hi spurious
  | moving n next => exact h.exchange hnd hplaced hi spurious
  | counting n =>
      exact ⟨{ r.goto i .fetching with
          pass := { r.pass with claimed := r.pass.claimed + 1 }
          returned := r.returned ++ [(i, n)] },
        by simp only [Race.work, hi], rfl, rfl, Or.inr ⟨L, h.count hnd hi⟩, fun _ hp => hp⟩
  | finished =>
      exact ⟨r.goto i .entering, by simp only [Race.work, hi],
        h.worked (by simp [hi]) (by simp) trivial⟩

/-- **One step of a worker** succeeds, leaves the storage alone and keeps the phase. -/
theorem work_ok (hlists : r.storage.Lists r.storage.linked) (hplaced : Placed r.storage r.address)
    (hphase : r.Unstarted ∨ ∃ L, r.Started L) (i : ι) (spurious : Bool) :
    ∃ r', r.work i spurious = .ok r' ∧ Worked r r' := by
  rcases hphase with hu | ⟨L, hs⟩
  · exact hu.work hlists i spurious
  · exact hs.work hlists hplaced i spurious

/-! ## Steps of mutators -/

theorem Placed.congr {s s' : Storage} {address : Nat → Address} (h : Placed s address)
    (hlinked : s'.linked = s.linked) : Placed s' address :=
  ⟨by rw [hlinked]; exact h.block, by rw [hlinked]; exact h.injective⟩

/-- A new block lies at an address of its own. -/
theorem Placed.cons {s s' : Storage} {address : Nat → Address} {a : Address} (h : Placed s address)
    (ha : a.IsBlock) (hfree : ∀ m ∈ s.linked, address m ≠ a) (hn : n ∉ s.linked)
    (hlinked : s'.linked = n :: s.linked) : Placed s' (Function.update address n a) := by
  have hold : ∀ m ∈ s.linked, Function.update address n a m = address m := fun m hm => by
    rw [Function.update_of_ne]
    rintro rfl
    exact hn hm
  constructor
  · intro m hm
    rw [hlinked] at hm
    rcases List.mem_cons.1 hm with rfl | hm
    · simpa using ha
    · rw [hold m hm]
      exact h.block m hm
  · intro m hm k hk heq
    rw [hlinked] at hm hk
    rcases List.mem_cons.1 hm with hmn | hm <;> rcases List.mem_cons.1 hk with hkn | hk
    · rw [hmn, hkn]
    · rw [hmn, hold k hk, Function.update_self] at heq
      exact absurd heq.symm (hfree k hk)
    · rw [hkn, hold m hm, Function.update_self] at heq
      exact absurd heq (hfree m hm)
    · rw [hold m hm, hold k hk] at heq
      exact h.injective m hm k hk heq

omit [DecidableEq ι] in
/-- Mutators may do anything that leaves the list as it was but for new blocks in front. -/
theorem phase_of_suffix {s : Storage} {address : Nat → Address}
    (hphase : r.Unstarted ∨ ∃ L, r.Started L) (hlinked : r.storage.linked <:+ s.linked) :
    ({ r with storage := s, address := address } : Race ι).Unstarted ∨
      ∃ L, ({ r with storage := s, address := address } : Race ι).Started L := by
  rcases hphase with hu | ⟨L, hs⟩
  · refine Or.inl ⟨hu.cursor, hu.claimed, hu.pinned, hu.won, hu.returned, hu.exhausted, fun i => ?_⟩
    rcases hu.worker i with hi | hi | ⟨seen, hi, hseen⟩
    · exact Or.inl hi
    · exact Or.inr (Or.inl hi)
    · exact Or.inr (Or.inr ⟨seen, hi, hseen.trans hlinked⟩)
  · exact Or.inr ⟨L, hs.pinned, hs.suffix.trans hlinked, hs.cursor, hs.right, hs.won, hs.counting,
      hs.returned, hs.claimed, hs.exhausted⟩

/-- **Allocation** links a block in front of the list or none at all. -/
theorem allocate_ok {a : Address} (hsound : r.storage.Sound)
    (hplaced : Placed r.storage r.address) (ha : a.IsBlock)
    (hfree : ∀ n ∈ r.storage.linked, r.address n ≠ a) :
    ∃ s address, r.act (.allocate a) = .ok { r with storage := s, address := address } ∧ s.Sound ∧
      r.storage.SameFrame s ∧ Placed s address ∧ r.storage.linked <:+ s.linked := by
  rcases hsound.allocate_cases with ⟨-, -, heq⟩ | ⟨s', p, -, hent, heq⟩ |
      ⟨s₁, s', p, -, -, -, hext, hent, heq⟩
  · exact ⟨r.storage, r.address, by simp only [act, heq]; rfl, hsound, ⟨rfl, rfl, rfl⟩, hplaced,
      List.suffix_refl _⟩
  · exact ⟨s', r.address, by simp only [act, heq]; rfl, hent.sound, hent.frame,
      hplaced.congr hent.linked_eq, by rw [hent.linked_eq]⟩
  · have hnew : s'.linked = s'.blocks.size :: r.storage.linked := by
      rw [hent.linked_eq, hext.linked_eq, hent.size_eq, hext.size_eq]
    refine ⟨s', Function.update r.address s'.blocks.size a, by simp only [act, heq]; rfl,
      hent.sound, (hext.granted hent).frame, hplaced.cons ha hfree ?_ hnew, ?_⟩
    · intro hmem
      have hle := (hsound.lists.bounds hmem).2
      rw [hent.size_eq, hext.size_eq] at hle
      omega
    · rw [hnew]
      exact List.suffix_cons _ _

/-- **Release** leaves the list alone. -/
theorem release_ok {p : Place} (hsound : r.storage.Sound) (hp : r.storage.InUse p) :
    ∃ s, r.act (.release p) = .ok { r with storage := s } ∧ s.Sound ∧ r.storage.SameFrame s ∧
      s.linked = r.storage.linked := by
  obtain ⟨s, heq, hwritten, -⟩ := hsound.release hp
  exact ⟨s, by simp only [act, heq]; rfl, hwritten.sound, hwritten.frame, hwritten.linked_eq⟩

/-- **Every permitted step succeeds**, keeps the invariant and leaves a pass pinned where it is. -/
theorem Inv.act {a : Action ι} (h : r.Inv) (ha : r.Permits a) :
    ∃ r', r.act a = .ok r' ∧ r'.Inv ∧ ∀ L, r.pinned = some L → r'.pinned = some L := by
  cases a with
  | work i spurious =>
      obtain ⟨r', heq, hstorage, haddress, hphase, hpinned⟩ :=
        work_ok h.sound.lists h.placed h.phase i spurious
      refine ⟨r', heq, ⟨?_, ?_, ?_, hphase⟩, hpinned⟩
      · rw [hstorage]
        exact h.sound
      · rw [hstorage]
        exact h.flagged
      · rw [hstorage, haddress]
        exact h.placed
  | allocate a =>
      obtain ⟨s, address, heq, hsound, hframe, hplaced, hlinked⟩ :=
        allocate_ok h.sound h.placed ha.1 ha.2
      exact ⟨_, heq, ⟨hsound, hframe.iterating_eq.trans h.flagged, hplaced,
        phase_of_suffix h.phase hlinked⟩, fun _ hL => hL⟩
  | release p =>
      obtain ⟨s, heq, hsound, hframe, hlinked⟩ := release_ok h.sound ha
      exact ⟨_, heq, ⟨hsound, hframe.iterating_eq.trans h.flagged, h.placed.congr hlinked,
        phase_of_suffix h.phase (by rw [hlinked])⟩, fun _ hL => hL⟩
  | delete =>
      -- the pass is alive, so the deletion gives way to it
      obtain ⟨d, gone, heq, hwithout, hgone, -⟩ := h.sound.deleteEmpty true
      have hlinked : d.storage.linked = r.storage.linked := by
        rw [hwithout.linked_eq, hgone, h.flagged]
        simp
      exact ⟨{ r with storage := d.storage }, by simp only [Race.act, heq]; rfl,
        ⟨hwithout.sound, hwithout.frame.iterating_eq.trans h.flagged, h.placed.congr hlinked,
          phase_of_suffix h.phase (by rw [hlinked])⟩, fun _ hL => hL⟩

/-- **A whole run** keeps the invariant, and a pass that is pinned stays so. -/
theorem Run.inv {actions : List (Action ι)} (hrun : Run r actions r') (h : r.Inv) :
    r'.Inv ∧ ∀ L, r.pinned = some L → r'.pinned = some L := by
  induction hrun with
  | nil => exact ⟨h, fun _ hL => hL⟩
  | snoc a _ ha heq ih =>
      obtain ⟨hinv, hpinned⟩ := ih
      obtain ⟨r₂, heq₂, hinv₂, hpinned₂⟩ := hinv.act ha
      obtain rfl := Except.ok.inj (heq.symm.trans heq₂)
      exact ⟨hinv₂, fun L hL => hpinned₂ L (hpinned L hL)⟩

end Race

end RootStore
