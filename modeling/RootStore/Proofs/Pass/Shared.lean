import RootStore.Proofs.Pass.Flag
import RootStore.Proofs.World.ActiveList
import RootStore.Proofs.World.Change

/-!
# Using a storage beside a safepoint pass over it

A safepoint pass has its storage to itself, and yet it hands out a shared reference to it.  Whoever
has that reference may allocate, release, read and write, and may ask for empty blocks to be
deleted.  The pass sets no flag, so the deletion finds none to give way to.  Here is what such use
leaves of the blocks that the pass still has to do with, and what follows for the pass.

* `Event.Shared` — what a shared reference allows.
* `World.OnPath` — the blocks that a pass is scanning or has yet to claim.
* `World.perform_withPasses` — the passes make no difference to such use.
* `World.Used`, `World.used` — **what it leaves of the world.**
* `World.SharedUse`, `World.shared_use` — **the pass goes on exactly where no block on its path was
  swept.**
* `World.safepoint_pass_disturbed` — it need not: a block that is being scanned can be swept.
-/

namespace RootStore

/-- What can be asked of a storage through a shared reference. -/
def Event.Shared (id : Nat) : Event → Prop
  | .allocate k | .release k _ | .get k _ | .set k _ _ => k = id
  | .delete k yielding => k = id ∧ yielding = true
  | .create _ | .drop _ | .beginPass _ _ _ | .endPass _ | .forgetPass _ | .enter _ _ | .advance
  | .judge _ | .panic | .load _ | .store _ _ | .exchange _ _ _ => False

instance (id : Nat) (e : Event) : Decidable (e.Shared id) :=
  match e with
  | .allocate k | .release k _ | .get k _ | .set k _ _ => inferInstanceAs (Decidable (k = id))
  | .delete k yielding => inferInstanceAs (Decidable (k = id ∧ yielding = true))
  | .create _ | .drop _ | .beginPass _ _ _ | .endPass _ | .forgetPass _ | .enter _ _ | .advance
  | .judge _ | .panic | .load _ | .store _ _ | .exchange _ _ _ => .isFalse False.elim

/-- The step is a deletion that gives way, finds no flag and finds the block empty. -/
def Step.Sweeps (id n : Nat) (st : Step) : Prop :=
  st.event = .delete id true ∧
    ∃ s ∈ st.before.storages.get? id, s.iterating = false ∧ s.isEmptyAt n = true

instance (id n : Nat) (st : Step) : Decidable (st.Sweeps id n) :=
  inferInstanceAs (Decidable (st.event = .delete id true ∧
    ∃ s ∈ st.before.storages.get? id, s.iterating = false ∧ s.isEmptyAt n = true))

/-- The blocks from the cursor on, which the pass has yet to claim. -/
def Pass.path (q : Pass) (s : Storage) : List Nat :=
  match q.cursor with
  | .notStarted => []
  | .upcoming c => s.walk s.blocks.size c

/-- The block is being scanned. -/
def Call.Scans (c : Call) (n : Nat) : Prop :=
  (∃ k ∈ c.scanning, k.block = n) ∨ ∃ e ∈ c.stage.entry?, e.place.block = n

/-- The pass is scanning the block or has yet to claim it. -/
def World.OnPath (w : World) (i n : Nat) : Prop :=
  (∃ q ∈ w.passes.get? i, ∃ s ∈ w.storages.get? q.storage, n ∈ q.path s) ∨
    ∃ c ∈ w.calls, c.pass = i ∧ c.Scans n

/-- The next step of the pass begins with this block: the cursor stands at it or it is being
scanned. -/
def World.Needs (w : World) (i n : Nat) : Prop :=
  (∃ q ∈ w.passes.get? i, q.cursor = .upcoming (some n)) ∨ ∃ c ∈ w.calls, c.pass = i ∧ c.Scans n

instance (c : Call) (n : Nat) : Decidable (c.Scans n) :=
  inferInstanceAs (Decidable ((∃ k ∈ c.scanning, k.block = n) ∨
    ∃ e ∈ c.stage.entry?, e.place.block = n))

instance (w : World) (i n : Nat) : Decidable (w.OnPath i n) :=
  inferInstanceAs (Decidable ((∃ q ∈ w.passes.get? i, ∃ s ∈ w.storages.get? q.storage,
    n ∈ q.path s) ∨ ∃ c ∈ w.calls, c.pass = i ∧ c.Scans n))

/-- The path of a pass that stands before a rest of the list. -/
theorem Pass.path_eq {q : Pass} {s : Storage} {rest : List Nat} (h : s.Sound)
    (hcursor : q.cursor = .upcoming rest.head?) (hrest : rest <:+ s.linked) : q.path s = rest := by
  simp only [Pass.path, hcursor]
  exact h.lists.walk_eq rest _ hrest (hrest.length_le.trans h.lists.length_le)

namespace World

variable {w w' : World} {e : Event} {r : Reply} {id i n : Nat} {s s' : Storage} {q : Pass}

/-! ## Passes and shared use do not see each other -/

/-- The world with other passes and other iterations under way. -/
def withPasses (w : World) (passes : Registry Pass) (calls : List Call) : World :=
  { w with passes, calls }

/-- There are other passes and other iterations. -/
def otherPasses (passes : Registry Pass) (calls : List Call) : Change where
  passes := fun _ => passes
  calls := fun _ => calls

theorem withPasses_eq (w : World) (passes : Registry Pass) (calls : List Call) :
    w.withPasses passes calls = (otherPasses passes calls).apply w := by
  symm
  exact Change.apply_eq rfl rfl

/-- Other passes are a change that shared use does not see. -/
theorem respects_otherPasses (he : e.Shared id) (passes : Registry Pass) (calls : List Call) :
    (otherPasses passes calls).Respects w e := by
  cases e with
  | allocate k => exact ⟨fun _ _ => rfl, rfl, fun _ => rfl⟩
  | release k m => exact ⟨rfl, fun _ => rfl⟩
  | get k m | set k m v => exact Eq.refl (w.handles.get? m)
  | delete k yielding => exact ⟨fun _ _ => rfl, fun _ _ => rfl⟩
  | create | drop | beginPass | endPass | forgetPass | enter | advance | judge | panic
  | load | store | exchange => exact he.elim

/-- **The passes make no difference** to what is done through a shared reference. -/
theorem perform_withPasses (he : e.Shared id) (passes : Registry Pass) (calls : List Call) :
    (w.withPasses passes calls).perform e =
      ((w.perform e).1.withPasses passes calls, (w.perform e).2) := by
  rw [withPasses_eq, withPasses_eq, Change.perform_apply (respects_otherPasses he passes calls)]
  rfl

/-- What is done through a shared reference leaves the passes and their iterations as they are. -/
theorem passes_perform_of_shared (he : e.Shared id) :
    (w.perform e).1.passes = w.passes ∧ (w.perform e).1.calls = w.calls := by
  have hsame : (w.perform e).1 = (w.perform e).1.withPasses w.passes w.calls :=
    congrArg Prod.fst (perform_withPasses he w.passes w.calls (w := w))
  exact ⟨(congrArg World.passes hsame).trans rfl, (congrArg World.calls hsame).trans rfl⟩

/-- A world is sound without its passes. -/
theorem Sound.withoutPasses (h : w.Sound) : (w.withPasses .empty []).Sound where
  storages := h.storages
  passes := by simp [withPasses]
  alone := by simp [withPasses]
  calls := by simp [withPasses]
  toEntitled := h.toEntitled.congr rfl rfl

/-- Where there are no passes everything that a shared reference allows is permitted. -/
theorem permits_of_shared (he : e.Shared id) : (w.withPasses .empty []).Permits e := by
  cases e with
  | allocate | release | get | set => trivial
  | delete k yielding =>
      obtain ⟨-, rfl⟩ := he
      have hfree : (w.withPasses .empty []).hasSafepointPass k = false :=
        hasSafepointPass_eq_false_iff.2 (by simp [withPasses])
      simp [Permits, mayDelete, hfree]
  | _ => cases he

/-! ## What it leaves of the storage -/

/-- Only the storage itself is changed. -/
theorem Transition.others_of_shared (ht : Transition w e w' r) (he : e.Shared id) {k : Nat}
    (hk : k ≠ id) :
    w'.storages.get? k = w.storages.get? k := by
  have hset : ∀ {t t' : Storage}, w.storages.get? id = some t →
      (w.storages.set id t').get? k = w.storages.get? k := fun ht => by
    rw [Registry.get?_set_of_some ht, if_neg hk]
  cases ht with
  | failed | refused | lost | got => rfl
  | granted hs | released hh hs | written hh hs =>
      obtain rfl := he
      exact hset hs
  | deleted hs =>
      obtain ⟨rfl, -⟩ := he
      exact hset hs
  | _ => cases he

end World

/-- **What shared use leaves of a storage**: some of its blocks are gone, and new ones stand in
front. -/
structure Storage.Swept (s s' : Storage) (swept : Nat → Bool) : Prop where
  /-- The flag is as it was. -/
  iterating_eq : s'.iterating = s.iterating
  /-- No number is given out again. -/
  size_le : s.blocks.size ≤ s'.blocks.size
  /-- What was linked is linked in the old order, unless it was swept. -/
  linked_eq : ∃ new : List Nat, (∀ n ∈ new, s.blocks.size < n) ∧
    s'.linked = new ++ s.linked.filter fun n => !swept n

namespace Storage.Swept

variable {s s₁ s₂ : Storage} {a b : Nat → Bool} {n : Nat} {rest : List Nat}

theorem refl (s : Storage) : s.Swept s fun _ => false where
  iterating_eq := rfl
  size_le := Nat.le_refl _
  linked_eq := ⟨[], by simp, by simp⟩

/-- One use after the other. -/
theorem trans (h₁ : s.Swept s₁ a) (h₂ : s₁.Swept s₂ b) : s.Swept s₂ fun n => a n || b n where
  iterating_eq := h₂.iterating_eq.trans h₁.iterating_eq
  size_le := h₁.size_le.trans h₂.size_le
  linked_eq := by
    obtain ⟨new₁, hnew₁, heq₁⟩ := h₁.linked_eq
    obtain ⟨new₂, hnew₂, heq₂⟩ := h₂.linked_eq
    refine ⟨new₂ ++ new₁.filter fun n => !b n, fun n hn => ?_, ?_⟩
    · rcases List.mem_append.1 hn with hn | hn
      · exact Nat.lt_of_le_of_lt h₁.size_le (hnew₂ n hn)
      · exact hnew₁ n (List.mem_of_mem_filter hn)
    · rw [heq₂, heq₁, List.filter_append, List.filter_filter, List.append_assoc]
      simp only [Bool.not_or, Bool.and_comm]

/-- A block that was linked is linked unless it was swept. -/
theorem mem_linked_iff (h : s.Swept s₁ a) (hs : s.Sound) (hn : n ∈ s.linked) :
    n ∈ s₁.linked ↔ a n = false := by
  obtain ⟨new, hnew, heq⟩ := h.linked_eq
  have hold : n ∉ new := fun hmem => by
    have := hnew n hmem
    have := (hs.lists.bounds hn).2
    omega
  simp [heq, hold, hn]

/-- What was not swept of a rest of the list is a rest of the list. -/
theorem suffix (h : s.Swept s₁ a) (hrest : rest <:+ s.linked) :
    (rest.filter fun n => !a n) <:+ s₁.linked := by
  obtain ⟨new, -, heq⟩ := h.linked_eq
  obtain ⟨front, hfront⟩ := hrest
  rw [heq, ← hfront, List.filter_append, ← List.append_assoc]
  exact List.suffix_append _ _

end Storage.Swept

namespace World

variable {w w' : World} {e : Event} {r : Reply} {id i n : Nat} {s s' : Storage} {q : Pass}

/-- A storage that was there is changed as storages are. -/
theorem Transition.changed (ht : Transition w e w' r) (hs : w.storages.get? id = some s)
    (hs' : w'.storages.get? id = some s') : s.Changed s' := by
  rcases ht.storages.back id s' hs' with ⟨t, ht, hchanged, -⟩ | ⟨hid, -⟩
  · rwa [Option.some.inj (hs.symm.trans ht)]
  · have := (Registry.bounds_of_get?_eq_some hs).2
    omega

/-- Shared use leaves the flag as it is. -/
theorem Transition.iterating_of_shared (ht : Transition w e w' r) (he : e.Shared id)
    (hs : w.storages.get? id = some s) (hs' : w'.storages.get? id = some s') :
    s'.iterating = s.iterating := by
  cases ht.flag_cases hs' with
  | kept hs₀ hflag => rw [hflag, Option.some.inj (hs.symm.trans hs₀)]
  | set haccepts =>
      obtain ⟨⟨access, rfl⟩, -⟩ := haccepts
      cases he
  | cleared hq hid hconcurrent hends =>
      obtain ⟨rfl, -⟩ := hends
      cases he
  | made hid =>
      have := (Registry.bounds_of_get?_eq_some hs).2
      omega

/-- A deletion that gives way takes the empty blocks away where it finds no flag. -/
theorem Sound.linked_of_delete (h : w.Sound) (hs : w.storages.get? id = some s)
    (hs' : (w.perform (.delete id true)).1.storages.get? id = some s') :
    s'.linked = s.linked.filter fun n => !(!s.iterating && s.isEmptyAt n) := by
  cases hflag : s.iterating with
  | true =>
      obtain ⟨-, counters, heq⟩ := h.delete_flagged hs hflag
      obtain rfl := Option.some.inj (hs'.symm.trans heq)
      have hkept : Storage.linked { s with counters } = s.linked := Storage.linked_congr rfl rfl
      rw [hkept]
      simp
  | false =>
      obtain ⟨-, t, heq, hwithout⟩ := h.delete_clear hs hflag
      obtain rfl := Option.some.inj (hs'.symm.trans heq)
      rw [hwithout.linked_eq]
      refine List.filter_congr fun n hn => ?_
      simp [hn]

/-- Any other shared use keeps all blocks, and may link a new one in front of them. -/
theorem Transition.linked_of_shared (ht : Transition w e w' r) (h : w.Sound) (he : e.Shared id)
    (hevent : e ≠ .delete id true) (hs : w.storages.get? id = some s)
    (hs' : w'.storages.get? id = some s') :
    ∃ new : List Nat, (∀ n ∈ new, s.blocks.size < n) ∧ s'.linked = new ++ s.linked := by
  have hsound := (h.storages id s hs).2
  cases (ht.operated hs hs').relinked hsound with
  | kept heq => exact ⟨[], by simp, heq⟩
  | @linked _ _ _ m hnew hlink heq =>
      refine ⟨[m], fun n hn => ?_, heq⟩
      obtain rfl := List.mem_singleton.1 hn
      refine ((ht.changed hs hs').mem_linked (by rw [heq]; exact List.mem_cons_self)).resolve_left
        fun hold => ?_
      obtain ⟨b, hb⟩ := hsound.lists.isSome hold
      simp [hnew] at hb
  | unlinked heq =>
      obtain ⟨-, rfl⟩ := he
      exact absurd rfl hevent

/-- **One event**: only a deletion that finds no flag takes blocks away, and it takes the empty
ones. -/
theorem Sound.swept_of_shared (h : w.Sound) (hp : w.Permits e) (he : e.Shared id)
    (hs : w.storages.get? id = some s) :
    ∃ s', (w.perform e).1.storages.get? id = some s' ∧
      s.Swept s' fun n => decide ((⟨w, e⟩ : Step).Sweeps id n) := by
  have ht := h.transition hp
  obtain ⟨s', hs'⟩ : ∃ s', (w.perform e).1.storages.get? id = some s' :=
    (ht.storages.forth id s hs).resolve_right (by rintro ⟨rfl, -⟩; cases he)
  have hsweeps : ∀ n, (⟨w, e⟩ : Step).Sweeps id n ↔
      e = .delete id true ∧ s.iterating = false ∧ s.isEmptyAt n = true := fun n => by
    simp [Step.Sweeps, hs]
  have hiterating := ht.iterating_of_shared he hs hs'
  simp only [hsweeps]
  by_cases hevent : e = .delete id true
  · subst hevent
    have hlinked := h.linked_of_delete hs hs'
    refine ⟨s', hs', hiterating, (ht.changed hs hs').size_le, [], by simp, ?_⟩
    rw [hlinked, List.nil_append]
    refine List.filter_congr fun n _ => ?_
    cases s.iterating <;> simp
  · obtain ⟨new, hnew, hlinked⟩ := ht.linked_of_shared h he hevent hs hs'
    refine ⟨s', hs', hiterating, (ht.changed hs hs').size_le, new, hnew, ?_⟩
    rw [hlinked]
    simp [hevent]

/-! ## What it leaves of the world -/

/-- **What shared use of a storage leaves of the world.** -/
structure Used (id : Nat) (steps : List Step) (w w' : World) : Prop where
  /-- No step runs into a fault. -/
  no_fault : ∀ st ∈ steps, ∀ f, st.reply ≠ .failed (.fault f)
  /-- The passes are as they were. -/
  passes_eq : w'.passes = w.passes
  /-- The iterations under way are as they were. -/
  calls_eq : w'.calls = w.calls
  /-- But for the passes the world is sound. -/
  sound : (w'.withPasses .empty []).Sound
  /-- The other storages are as they were. -/
  others : ∀ k, k ≠ id → w'.storages.get? k = w.storages.get? k
  /-- The storage has lost the blocks that a step has swept. -/
  swept : ∀ s, w.storages.get? id = some s → ∃ s', w'.storages.get? id = some s' ∧
    s.Swept s' fun n => decide (∃ st ∈ steps, st.Sweeps id n)

/-- **Whatever is done with a storage through a shared reference** leaves that. -/
theorem used {events : List Event} (hevents : ∀ e ∈ events, e.Shared id)
    (h : (w.withPasses .empty []).Sound) : Used id (w.trail events) w (w.afterAll events) := by
  induction events generalizing w with
  | nil => exact ⟨by simp [trail], rfl, rfl, h, fun _ _ => rfl,
      fun s hs => ⟨s, hs, by simpa using .refl s⟩⟩
  | cons e events ih =>
      have he : e.Shared id := hevents e (by simp)
      have hp := permits_of_shared he (w := w)
      have ht := h.transition hp
      rw [perform_withPasses he] at ht
      obtain ⟨hpasses, hcalls⟩ := passes_perform_of_shared he (w := w)
      have hnext := ih (fun e he => hevents e (by simp [he])) (ht.sound h)
      refine ⟨?_, hnext.passes_eq.trans hpasses, hnext.calls_eq.trans hcalls, hnext.sound,
        fun k hk => (hnext.others k hk).trans (ht.others_of_shared he hk), fun s hs => ?_⟩
      · intro st hst
        rcases List.mem_cons.1 hst with rfl | hst
        · exact ht.no_fault
        · exact hnext.no_fault st hst
      · obtain ⟨s₁, hs₁, hswept₁⟩ := h.swept_of_shared hp he hs
        rw [perform_withPasses he] at hs₁
        obtain ⟨s₂, hs₂, hswept₂⟩ := hnext.swept s₁ hs₁
        refine ⟨s₂, hs₂, ?_⟩
        have hsweeps : ∀ n, (∃ st ∈ w.trail (e :: events), st.Sweeps id n) ↔
            (⟨w.withPasses .empty [], e⟩ : Step).Sweeps id n ∨
              ∃ st ∈ (w.perform e).1.trail events, st.Sweeps id n := fun n => by
          simp only [trail, List.mem_cons, exists_eq_or_imp]
          rfl
        simpa only [hsweeps, Bool.decide_or] using hswept₁.trans hswept₂

/-! ## What follows for a pass -/

/-- A block that the next step of a pass begins with is on its path. -/
theorem Sound.onPath_of_needs (h : w.Sound) (hn : w.Needs i n) : w.OnPath i n := by
  refine hn.imp_left fun ⟨q, hq, hcursor⟩ => ⟨q, hq, ?_⟩
  obtain ⟨s, hs, hf⟩ := h.passes i q hq
  obtain ⟨rest, hsuf, hrest⟩ := hf.on_list _ hcursor
  refine ⟨s, hs, ?_⟩
  rw [Pass.path_eq (h.storages _ s hs).2 (hcursor.trans (congrArg _ hrest)) hsuf]
  exact List.mem_of_mem_head? hrest.symm

/-- The blocks on the path of a pass are in memory. -/
theorem Sound.holds_of_onPath (h : w.Sound) (hq : w.passes.get? i = some q) (hn : w.OnPath i n) :
    w.Holds q.storage n := by
  rw [h.holds_iff]
  rcases hn with ⟨q', hq', s, hs, hpath⟩ | ⟨c, hc, rfl, hscans⟩
  · obtain rfl := Option.some.inj (hq.symm.trans hq')
    refine ⟨s, hs, ?_⟩
    rcases hcursor : q.cursor with _ | c
    · simp [Pass.path, hcursor] at hpath
    · obtain ⟨rest, hsuf, rfl⟩ := (h.storage_of_pass hq hs).on_list c hcursor
      rw [Pass.path_eq (h.storages _ s hs).2 hcursor hsuf] at hpath
      exact hsuf.subset hpath
  · obtain ⟨q', s, hq', hs, hf⟩ := h.calls c hc
    obtain rfl := Option.some.inj (hq.symm.trans hq')
    refine ⟨s, hs, ?_⟩
    rcases hscans with ⟨k, hk, rfl⟩ | ⟨e, he, rfl⟩
    · exact hf.scanning k hk
    · exact (hf.entry e he).2

namespace Used

variable {steps : List Step}

/-- What is in memory afterwards is linked. -/
theorem holds_iff (hu : Used id steps w w') (hs : w'.storages.get? id = some s) :
    w'.Holds id n ↔ n ∈ s.linked :=
  (hu.sound.holds_iff (w := w'.withPasses .empty [])).trans
    ⟨fun ⟨_, ht, hn⟩ => Option.some.inj (hs.symm.trans ht) ▸ hn, fun hn => ⟨s, hs, hn⟩⟩

/-- A block in memory is gone exactly where a step has swept it. -/
theorem gone_iff (hu : Used id steps w w') (h : w.Sound) (hn : w.Holds id n) :
    ¬ w'.Holds id n ↔ ∃ st ∈ steps, st.Sweeps id n := by
  obtain ⟨s, hs, hmem⟩ := h.holds_iff.1 hn
  obtain ⟨s', hs', hswept⟩ := hu.swept s hs
  rw [hu.holds_iff hs', hswept.mem_linked_iff (h.storages _ s hs).2 hmem, decide_eq_false_iff_not,
    not_not]

/-- A pass stands on what is left of the list if the block at its cursor is. -/
theorem follows (hu : Used q.storage steps w w') (h : w.Sound) (hq : w.passes.get? i = some q)
    (hs' : w'.storages.get? q.storage = some s')
    (hheld : ∀ n, w.Needs i n → w'.Holds q.storage n) : q.Follows s' := by
  obtain ⟨s, hs, hf⟩ := h.passes i q hq
  obtain ⟨t, ht, hswept⟩ := hu.swept s hs
  obtain rfl := Option.some.inj (hs'.symm.trans ht)
  refine ⟨fun hc => hswept.iterating_eq.trans (hf.flagged hc), fun c hcursor => ?_⟩
  obtain ⟨rest, hsuf, rfl⟩ := hf.on_list c hcursor
  refine ⟨_, hswept.suffix hsuf, ?_⟩
  cases rest with
  | nil => rfl
  | cons n rest =>
      have hn : n ∈ s'.linked := (hu.holds_iff hs').1 (hheld n (Or.inl ⟨q, hq, hcursor⟩))
      have hold :=
        (hswept.mem_linked_iff (h.storages _ s hs).2 (hsuf.subset List.mem_cons_self)).1 hn
      rw [List.filter_cons_of_pos (by simpa using hold)]
      rfl

/-- **The world is sound afterwards exactly where no block that the pass needs was swept.** -/
theorem sound_iff (hu : Used q.storage steps w w') (h : w.Sound) (hq : w.passes.get? i = some q) :
    w'.Sound ↔ ∀ n, w.Needs i n → w'.Holds q.storage n := by
  constructor
  · intro h' n hn
    have hq' : w'.passes.get? i = some q := by rw [hu.passes_eq, hq]
    have hneeds : w'.Needs i n := by rwa [Needs, hu.passes_eq, hu.calls_eq]
    exact h'.holds_of_onPath hq' (h'.onPath_of_needs hneeds)
  intro hheld
  obtain ⟨s, hs, -⟩ := h.passes i q hq
  obtain ⟨s', hs', -⟩ := hu.swept s hs
  -- a pass over the same storage is the pass itself
  have hself : ∀ {j r}, w.passes.get? j = some r → r.storage = q.storage → j = i ∧ r = q :=
    fun hr hstorage => by
      obtain rfl := h.alone _ i _ q hr hq hstorage
      exact ⟨rfl, Option.some.inj (hr.symm.trans hq)⟩
  refine { storages := hu.sound.storages, passes := ?_, alone := ?_, calls := ?_, toEntitled := ?_ }
  · intro j r hr
    rw [hu.passes_eq] at hr
    by_cases hstorage : r.storage = q.storage
    · obtain ⟨rfl, rfl⟩ := hself hr hstorage
      exact ⟨s', hs', hu.follows h hq hs' hheld⟩
    · obtain ⟨t, ht, hf⟩ := h.passes j r hr
      exact ⟨t, (hu.others _ hstorage).trans ht, hf⟩
  · rw [hu.passes_eq]
    exact h.alone
  · intro c hc
    rw [hu.calls_eq] at hc
    rw [hu.passes_eq]
    obtain ⟨r, t, hr, ht, hf⟩ := h.calls c hc
    by_cases hstorage : r.storage = q.storage
    · obtain ⟨rfl, rfl⟩ := hself hr hstorage
      have hscans : ∀ n, c.Scans n → n ∈ s'.linked := fun n hn =>
        (hu.holds_iff hs').1 (hheld n (Or.inr ⟨c, hc, rfl, hn⟩))
      exact ⟨r, s', hr, hs', hf.started, fun k hk => hscans _ (Or.inl ⟨k, hk, rfl⟩), fun e he =>
        ⟨(hf.entry e he).1, hscans _ (Or.inr ⟨e, he, rfl⟩)⟩⟩
    · exact ⟨r, t, hr, (hu.others _ hstorage).trans ht, hf⟩
  · exact hu.sound.toEntitled.congr rfl rfl

end Used

/-- A step of some events finds the world that those before it have left. -/
theorem mem_trail {st : Step} : ∀ {events : List Event} {w : World}, st ∈ w.trail events →
    ∃ before later, events = before ++ st.event :: later ∧ st.before = w.afterAll before := by
  intro events
  induction events with
  | nil => intro w hst; cases hst
  | cons e events ih =>
      intro w hst
      rcases List.mem_cons.1 hst with rfl | hst
      · exact ⟨[], events, rfl, rfl⟩
      · obtain ⟨before, later, rfl, hbefore⟩ := ih hst
        exact ⟨e :: before, later, rfl, hbefore⟩

/-- While the flag is set nothing is swept. -/
theorem not_sweeps_of_flag {events : List Event} (hevents : ∀ e ∈ events, e.Shared id) (h : w.Sound)
    (hflag : w.flag id = true) {st : Step} (hst : st ∈ w.trail events) : ¬ st.Sweeps id n := by
  rintro ⟨-, s', hs', hclear, -⟩
  obtain ⟨before, later, rfl, hbefore⟩ := mem_trail hst
  have hu : Used id (w.trail before) w (w.afterAll before) :=
    used (fun e he => hevents e (by simp [he])) h.withoutPasses
  obtain ⟨s, hs, hset⟩ : ∃ s, w.storages.get? id = some s ∧ s.iterating = true := by
    simpa [flag, Option.any_eq_true] using hflag
  obtain ⟨t, ht, hswept⟩ := hu.swept s hs
  rw [hbefore] at hs'
  obtain rfl := Option.some.inj (ht.symm.trans hs')
  simp [hswept.iterating_eq, hset] at hclear

/-- **What becomes of a pass while its storage is used** through a shared reference. -/
structure SharedUse (i : Nat) (q : Pass) (steps : List Step) (w w' : World) : Prop where
  /-- No step runs into a fault. -/
  no_fault : ∀ st ∈ steps, ∀ f, st.reply ≠ .failed (.fault f)
  /-- The passes are as they were. -/
  passes_eq : w'.passes = w.passes
  /-- The iterations under way are as they were. -/
  calls_eq : w'.calls = w.calls
  /-- What is in memory is linked. -/
  linked : ∀ n s', w'.storages.get? q.storage = some s' → (w'.Holds q.storage n ↔ n ∈ s'.linked)
  /-- The blocks on the path of the pass were in memory. -/
  held : ∀ n, w.OnPath i n → w.Holds q.storage n
  /-- One is gone exactly where a deletion has found it empty and no flag set. -/
  gone_iff : ∀ n, w.OnPath i n → (¬ w'.Holds q.storage n ↔ ∃ st ∈ steps, st.Sweeps q.storage n)
  /-- Where the flag is set, because a concurrent pass was forgotten, none is gone. -/
  flagged : w.flag q.storage = true → ∀ n, w.OnPath i n → w'.Holds q.storage n
  /-- The world is sound, and the pass can go on, exactly where no block is gone that its next step
  needs. -/
  sound_iff : w'.Sound ↔ ∀ n, w.Needs i n → w'.Holds q.storage n
  /-- So it can where none on its path is gone. -/
  goes_on : (∀ n, w.OnPath i n → w'.Holds q.storage n) → w'.Sound
  /-- Where its cursor stands at a block that is gone, it runs into a fault when it claims the next
  one. -/
  claim_faults : ∀ n s', q.cursor = .upcoming (some n) → ¬ w'.Holds q.storage n →
    w'.storages.get? q.storage = some s' → q.claim s' = .error (.missingBlock n)

/-- **A pass outlives the use of its storage exactly where none of its blocks is swept.** -/
theorem shared_use (h : w.Reachable) (hq : w.passes.get? i = some q) {events : List Event}
    (hevents : ∀ e ∈ events, e.Shared q.storage) :
    SharedUse i q (w.trail events) w (w.afterAll events) := by
  obtain ⟨steps, hrun⟩ := h
  have hsound := hrun.sound .init
  have hu := used hevents hsound.withoutPasses
  have hheld : ∀ n, w.OnPath i n → w.Holds q.storage n := fun n => hsound.holds_of_onPath hq
  exact
    { no_fault := hu.no_fault
      passes_eq := hu.passes_eq
      calls_eq := hu.calls_eq
      linked := fun n s' hs' => hu.holds_iff hs'
      held := hheld
      gone_iff := fun n hn => hu.gone_iff hsound (hheld n hn)
      flagged := fun hflag n hn => by
        by_contra hgone
        obtain ⟨st, hst, hsweeps⟩ := (hu.gone_iff hsound (hheld n hn)).1 hgone
        exact not_sweeps_of_flag hevents hsound hflag hst hsweeps
      sound_iff := hu.sound_iff hsound hq
      goes_on := fun hkept => (hu.sound_iff hsound hq).2 fun n hn =>
        hkept n (hsound.onPath_of_needs hn)
      claim_faults := fun n s' hcursor hgone hs' => by
        have hnone : s'.blocks.get? n = none := by
          rw [← Option.not_isSome_iff_eq_none, Option.isSome_iff_exists]
          exact fun hb => hgone ⟨s', hs', hb⟩
        simp [Pass.claim, hcursor, Storage.block_eq_error_iff.2 ⟨hnone, rfl⟩, bind, Except.bind] }

/-- A concurrent pass was forgotten before the safepoint pass began, so that the block being scanned
stays although it is empty when a deletion is asked for. -/
theorem shared_use_of_forgotten :
    let w := ({} : World).afterAll
      [.create {}, .allocate 1, .beginPass 1 true .readOnly, .forgetPass 1,
        .beginPass 1 false .writable, .enter 2 .every, .advance, .advance]
    let q : Pass :=
      { storage := 1, concurrent := false, access := .writable, cursor := .upcoming none,
        claimed := 1 }
    let events : List Event := [.release 1 1, .delete 1 true, .allocate 1]
    w.OnPath 2 1 ∧ (w.afterAll events).Holds 1 1 ∧
      SharedUse 2 q (w.trail events) w (w.afterAll events) := by
  refine ⟨by decide +kernel, by decide +kernel, ?_⟩
  exact shared_use ⟨_, run_trail _ _ (by decide +kernel)⟩ (by decide +kernel) (by decide)

/-- Shared use of the storage takes away none of the blocks on the path of the pass. -/
def Excludes (w : World) (i id : Nat) : Prop :=
  ∀ events : List Event, (∀ e ∈ events, e.Shared id) → ∀ n, w.OnPath i n →
    (w.afterAll events).Holds id n

/-- **A safepoint pass does not exclude deletion**: its visitor has the first of two entries in
hand, releases both and asks for empty blocks to be deleted, and the pass goes on into a block that
is gone. -/
theorem safepoint_pass_disturbed :
    let w := ({} : World).afterAll
      [.create {}, .allocate 1, .allocate 1, .beginPass 1 false .writable, .enter 1 .every,
        .advance, .advance]
    let events : List Event := [.release 1 1, .release 1 2, .delete 1 true]
    w.Reachable ∧ w.hasSafepointPass 1 = true ∧ (∀ e ∈ events, e.Shared 1) ∧ w.OnPath 1 1 ∧
      ¬ (w.afterAll events).Holds 1 1 ∧
      ((w.afterAll events).perform .advance).2 = .failed (.fault (.missingBlock 1)) ∧
      ¬ ∀ (w : World) (i : Nat) (q : Pass), w.Reachable → w.passes.get? i = some q →
        q.concurrent = false → w.Excludes i q.storage := by
  intro w events
  have hreach : w.Reachable := ⟨_, run_trail _ _ (by decide +kernel)⟩
  have hshared : ∀ e ∈ events, e.Shared 1 := by decide
  have hpath : w.OnPath 1 1 := by decide +kernel
  have hgone : ¬ (w.afterAll events).Holds 1 1 := by decide +kernel
  refine ⟨hreach, by decide +kernel, hshared, hpath, hgone, by decide +kernel, fun hall => ?_⟩
  have hq : w.passes.get? 1 = some
      { storage := 1, concurrent := false, access := .writable, cursor := .upcoming none,
        claimed := 1 } := by
    decide +kernel
  exact hgone (hall w 1 _ hreach hq rfl events hshared 1 hpath)

end World

end RootStore
