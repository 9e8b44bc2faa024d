import RootStore.Proofs.World.Blind
import RootStore.Proofs.World.Effect

/-!
# The flag of a storage

A storage is flagged while a concurrent pass over it is under way: the flag keeps a second one from
beginning and deletions from deleting.  It is set where a pass begins and cleared where one ends,
and passes are refused, forgotten and left by panics in between.

* `Event.Accepts`, `Event.Ends`, `Undropped` — what the history says of concurrent passes.
* `World.FlagChanged`, `World.Transition.flag_cases` — what an event does to the flag of a storage.
* `World.Flagged`, `World.Run.flagged` — **the flag is set exactly while there is a concurrent pass
  that has not been dropped**, and there is one at most.
* `World.FlagKept`, `World.flag_kept` — **what is said of the flag, and that it holds of every
  run.**
-/

namespace RootStore

/-! ## What the history says -/

/-- A concurrent pass over the storage was accepted and has this id. -/
def Event.Accepts (id p : Nat) (e : Event) (r : Reply) : Prop :=
  (∃ access, e = .beginPass id true access) ∧ r = .began p

/-- The pass was dropped. -/
def Event.Ends (p : Nat) (e : Event) (r : Reply) : Prop := e = .endPass p ∧ r = .done

/-- The pass was forgotten. -/
def Event.Forgets (p : Nat) (e : Event) (r : Reply) : Prop := e = .forgetPass p ∧ r = .done

/-- A concurrent pass over the storage was accepted and has not been dropped since. -/
def Undropped (steps : List Step) (id p : Nat) : Prop :=
  ∃ before st after, steps = before ++ st :: after ∧ st.event.Accepts id p st.reply ∧
    ∀ later ∈ after, ¬ later.event.Ends p later.reply

theorem Event.Accepts.not_ends {id p k : Nat} {e : Event} {r : Reply} (h : e.Accepts id p r) :
    ¬ e.Ends k r := by
  rintro ⟨rfl, -⟩
  obtain ⟨⟨access, h⟩, -⟩ := h
  cases h

@[simp] theorem not_undropped_nil (id p : Nat) : ¬ Undropped [] id p := by
  rintro ⟨before, st, after, h, -⟩
  simp at h

/-- One step more. -/
theorem undropped_snoc {steps : List Step} {st : Step} {id p : Nat} :
    Undropped (steps ++ [st]) id p ↔ st.event.Accepts id p st.reply ∨
      Undropped steps id p ∧ ¬ st.event.Ends p st.reply := by
  constructor
  · rintro ⟨before, st', after, h, haccepts, hlater⟩
    rcases split_snoc h with ⟨rfl, rfl, rfl⟩ | ⟨after, rfl, rfl⟩
    · exact Or.inl haccepts
    · exact Or.inr ⟨⟨before, st', after, rfl, haccepts, fun later hmem =>
        hlater later (by simp [hmem])⟩, hlater st (by simp)⟩
  · rintro (haccepts | ⟨⟨before, st', after, rfl, haccepts, hlater⟩, hends⟩)
    · exact ⟨steps, st, [], rfl, haccepts, by simp⟩
    · refine ⟨before, st', after ++ [st], by simp, haccepts, fun later hmem => ?_⟩
      rcases List.mem_append.1 hmem with hmem | hmem
      · exact hlater later hmem
      · rwa [List.mem_singleton.1 hmem]

namespace World

variable {w w' : World} {e : Event} {r : Reply} {id p : Nat} {s s' : Storage} {q q' : Pass}

/-! ## One event -/

/-- A concurrent pass is accepted only over a storage whose flag is clear. -/
theorem Transition.accepts_inv (ht : Transition w e w' r) (h : e.Accepts id p r) :
    p = w.passes.size + 1 ∧ (∃ s, w.storages.get? id = some s ∧ s.iterating = false) ∧
      ∃ access, w'.passes.get? p = some { storage := id, concurrent := true, access } := by
  obtain ⟨⟨access, rfl⟩, rfl⟩ := h
  generalize hr : Reply.began p = r at ht
  cases ht with
  | failed => cases hr
  | @began _ _ _ s hs hfree hflag =>
      obtain rfl := Reply.began.inj hr
      refine ⟨rfl, ⟨s, hs, by simpa using hflag⟩, access, ?_⟩
      exact (Registry.get?_add _ _ _).trans (if_pos rfl)

/-- A pass that is dropped was alive and is gone. -/
theorem Transition.ends_inv (ht : Transition w e w' r) (h : e.Ends p r) :
    (∃ q, w.passes.get? p = some q) ∧ w'.passes.get? p = none := by
  obtain ⟨rfl, rfl⟩ := h
  generalize hr : Reply.done = r at ht
  cases ht with
  | failed => cases hr
  | ended hq hs hidle =>
      exact ⟨⟨_, hq⟩, (Registry.get?_erase _ _ _).trans (if_pos rfl)⟩

/-- What an event does to the flag of a storage that there is afterwards. -/
inductive FlagChanged (w : World) (e : Event) (r : Reply) (id : Nat) (s' : Storage) : Prop
  /-- It stays as it is. -/
  | kept {s : Storage} (hs : w.storages.get? id = some s) (hflag : s'.iterating = s.iterating)
      (haccepts : ∀ p, ¬ e.Accepts id p r) (hends : ∀ p q, w.passes.get? p = some q →
        q.storage = id → q.concurrent = true → ¬ e.Ends p r)
  /-- It is set, because a concurrent pass has begun. -/
  | set {p : Nat} (haccepts : e.Accepts id p r) (hflag : s'.iterating = true)
  /-- It is cleared, because a concurrent pass was dropped. -/
  | cleared {p : Nat} {q : Pass} (hq : w.passes.get? p = some q) (hid : q.storage = id)
      (hconcurrent : q.concurrent = true) (hends : e.Ends p r) (hflag : s'.iterating = false)
  /-- The storage is new. -/
  | made (hid : id = w.storages.size + 1) (hflag : s'.iterating = false)
      (haccepts : ∀ p, ¬ e.Accepts id p r)

/-- **The flag of a storage changes only where a concurrent pass over it begins or is dropped.** -/
theorem Transition.flag_cases (ht : Transition w e w' r)
    (hs' : w'.storages.get? id = some s') : FlagChanged w e r id s' := by
  have hkept : ∀ {s}, w.storages.get? id = some s → s'.iterating = s.iterating →
      (∀ p, ¬ e.Accepts id p r) → (∀ p, ¬ e.Ends p r) → FlagChanged w e r id s' :=
    fun hs hflag haccepts hends => .kept hs hflag haccepts fun p _ _ _ _ => hends p
  have hset : ∀ {i t t'}, w.storages.get? i = some t → t'.iterating = t.iterating →
      (w.storages.set i t').get? id = some s' → (∀ p, ¬ e.Accepts id p r) →
      (∀ p, ¬ e.Ends p r) → FlagChanged w e r id s' := by
    intro i t t' hi hflag ht haccepts hends
    rcases Registry.get?_set_inv hi ht with ⟨rfl, rfl⟩ | ⟨-, hs⟩
    · exact hkept hi hflag haccepts hends
    · exact hkept hs rfl haccepts hends
  cases ht with
  | failed | refused | got | loaded | lost | forgotten | pinned | resumed | offered | claimed
  | finished | upheld | panicked =>
      exact hkept hs' rfl (by simp [Event.Accepts]) (by simp [Event.Ends])
  | created settings =>
      rcases Registry.get?_add_inv hs' with ⟨hid, rfl⟩ | hs
      · exact .made hid rfl (by simp [Event.Accepts])
      · exact hkept hs rfl (by simp [Event.Accepts]) (by simp [Event.Ends])
  | dropped hs =>
      exact hkept (Registry.get?_erase_inv hs').2 rfl (by simp [Event.Accepts])
        (by simp [Event.Ends])
  | granted hs halloc hgranted =>
      exact hset hs hgranted.frame.iterating_eq hs' (by simp [Event.Accepts]) (by simp [Event.Ends])
  | released hh hs hrelease hwritten =>
      exact hset hs hwritten.frame.iterating_eq hs' (by simp [Event.Accepts]) (by simp [Event.Ends])
  | deleted hs hdelete hwithout =>
      exact hset hs hwithout.frame.iterating_eq hs' (by simp [Event.Accepts]) (by simp [Event.Ends])
  | written hh hs hstore hwritten | cleared hcalls hstage hs hstore hwritten
  | stored hs hstore hwritten | exchanged hs hload hstore hwritten =>
      exact hset hs hwritten.frame.iterating_eq hs' (by simp [Event.Accepts]) (by simp [Event.Ends])
  | @began i concurrent access s hs hfree hflag =>
      cases concurrent with
      | false =>
          exact hset hs (Bool.or_false _) hs' (by simp [Event.Accepts]) (by simp [Event.Ends])
      | true =>
          rcases Registry.get?_set_inv hs hs' with ⟨rfl, rfl⟩ | ⟨hid, hs⟩
          · exact .set ⟨⟨access, rfl⟩, rfl⟩ (Bool.or_true _)
          · exact hkept hs rfl (by simp [Event.Accepts, Ne.symm hid]) (by simp [Event.Ends])
  | @ended i q s hq hs hidle =>
      rcases Registry.get?_set_inv hs hs' with ⟨rfl, rfl⟩ | ⟨hid, hs'⟩
      · cases hconcurrent : q.concurrent with
        | true => exact .cleared hq rfl hconcurrent ⟨rfl, rfl⟩ (Bool.and_false _)
        | false =>
            refine .kept hs (Bool.and_true _) (by simp [Event.Accepts]) ?_
            rintro p q' hq' - hconcurrent' ⟨hp, -⟩
            obtain rfl := Event.endPass.inj hp
            obtain rfl := Option.some.inj (hq.symm.trans hq')
            simp [hconcurrent] at hconcurrent'
      · refine .kept hs' rfl (by simp [Event.Accepts]) ?_
        rintro p q' hq' hid' - ⟨hp, -⟩
        obtain rfl := Event.endPass.inj hp
        obtain rfl := Option.some.inj (hq.symm.trans hq')
        exact hid hid'.symm

/-- A pass that is alive after an event was alive before, in the same mode over the same storage, or
has begun with the event. -/
theorem Transition.pass_origin (ht : Transition w e w' r) (hq' : w'.passes.get? p = some q') :
    (∃ q, w.passes.get? p = some q ∧ q'.storage = q.storage ∧ q'.concurrent = q.concurrent) ∨
      p = w.passes.size + 1 ∧ ∃ access,
        e = .beginPass q'.storage q'.concurrent access ∧ r = .began p := by
  cases ht with
  | failed | created | dropped | refused | granted | released | lost | got | written | deleted
  | resumed | offered | finished | upheld | cleared | panicked | loaded | stored | exchanged =>
      exact Or.inl ⟨q', hq', rfl, rfl⟩
  | began hs hfree hflag =>
      rcases Registry.get?_add_inv hq' with ⟨rfl, rfl⟩ | hq
      · exact Or.inr ⟨rfl, _, rfl, rfl⟩
      · exact Or.inl ⟨q', hq, rfl, rfl⟩
  | ended | forgotten => exact Or.inl ⟨q', (Registry.get?_erase_inv hq').2, rfl, rfl⟩
  | pinned hq | claimed _ hq =>
      rcases Registry.get?_set_inv hq hq' with ⟨rfl, rfl⟩ | ⟨-, hq'⟩
      · exact Or.inl ⟨_, hq, rfl, rfl⟩
      · exact Or.inl ⟨q', hq', rfl, rfl⟩

/-- A pass that is gone was dropped or forgotten. -/
theorem Transition.pass_lost (ht : Transition w e w' r) (hq : w.passes.get? p = some q)
    (hq' : w'.passes.get? p = none) : e.Ends p r ∨ e.Forgets p r := by
  cases ht with
  | failed | created | dropped | refused | granted | released | lost | got | written | deleted
  | resumed | offered | finished | upheld | cleared | panicked | loaded | stored | exchanged =>
      cases hq.symm.trans hq'
  | began => cases hq.symm.trans (Registry.get?_eq_none_of_add hq')
  | ended =>
      obtain rfl := Registry.eq_of_get?_erase hq hq'
      exact Or.inl ⟨rfl, rfl⟩
  | forgotten =>
      obtain rfl := Registry.eq_of_get?_erase hq hq'
      exact Or.inr ⟨rfl, rfl⟩
  | pinned hq₀ | claimed _ hq₀ => cases hq.symm.trans (Registry.get?_eq_none_of_set hq₀ hq')

/-! ## The invariant -/

/-- **The flags and the history agree.** -/
structure Flagged (steps : List Step) (w : World) : Prop where
  /-- A storage is flagged exactly while a concurrent pass over it has not been dropped. -/
  flag_iff : ∀ id s, w.storages.get? id = some s → (s.iterating = true ↔ ∃ p, Undropped steps id p)
  /-- There is one such pass at most. -/
  alone : ∀ id p k, Undropped steps id p → Undropped steps id k → p = k
  /-- Its storage and its own id were given out. -/
  given : ∀ id p, Undropped steps id p → id ≤ w.storages.size ∧ p ≤ w.passes.size
  /-- A concurrent pass that is alive has not been dropped. -/
  undropped : ∀ p q, w.passes.get? p = some q → q.concurrent = true → Undropped steps q.storage p
  /-- One that has not been dropped is alive, or was forgotten. -/
  alive : ∀ id p, Undropped steps id p →
    (∃ q, w.passes.get? p = some q ∧ q.storage = id ∧ q.concurrent = true) ∨
      w.passes.get? p = none ∧ ∃ st ∈ steps, st.event.Forgets p st.reply

namespace Flagged

variable {steps : List Step} {st : Step}

theorem init : Flagged [] {} := by constructor <;> simp

/-- A pass that is accepted is the first that has not been dropped. -/
theorem not_undropped_of_accepts (h : Flagged steps w) (ht : Transition w e w' r)
    (haccepts : e.Accepts id p r) (k : Nat) : ¬ Undropped steps id k := by
  obtain ⟨-, ⟨s, hs, hclear⟩, -⟩ := ht.accepts_inv haccepts
  intro hundropped
  have := (h.flag_iff id s hs).2 ⟨k, hundropped⟩
  simp [hclear] at this

/-- **Every event keeps them in agreement.** -/
theorem snoc (h : Flagged steps st.before)
    (ht : Transition st.before st.event st.after st.reply) :
    Flagged (steps ++ [st]) st.after where
  flag_iff := by
    intro id s' hs'
    simp only [undropped_snoc]
    cases ht.flag_cases hs' with
    | @kept s hs hflag haccepts hends =>
        rw [hflag, h.flag_iff id s hs]
        refine exists_congr fun p => ?_
        simp only [haccepts, false_or]
        refine ⟨fun hundropped => ⟨hundropped, fun hend => ?_⟩, And.left⟩
        obtain ⟨⟨q, hq⟩, -⟩ := ht.ends_inv hend
        rcases h.alive id p hundropped with ⟨q', hq', hid, hconcurrent⟩ | ⟨hnone, -⟩
        · exact hends p q' hq' hid hconcurrent hend
        · cases hq.symm.trans hnone
    | set haccepts hflag => exact ⟨fun _ => ⟨_, Or.inl haccepts⟩, fun _ => hflag⟩
    | @cleared p q hq hid hconcurrent hends hflag =>
        simp only [hflag, Bool.false_eq_true, false_iff, not_exists, not_or, not_and, not_not]
        refine fun k => ⟨fun haccepts => haccepts.not_ends hends, fun hundropped => ?_⟩
        have := h.alone id k p hundropped (hid ▸ h.undropped p q hq hconcurrent)
        rwa [this]
    | made hid hflag haccepts =>
        simp only [hflag, Bool.false_eq_true, false_iff, not_exists, not_or, not_and, not_not]
        refine fun k => ⟨haccepts k, fun hundropped => ?_⟩
        have := (h.given id k hundropped).1
        omega
  alone := by
    intro id p k hp hk
    rcases undropped_snoc.1 hp with hp | ⟨hp, -⟩ <;> rcases undropped_snoc.1 hk with hk | ⟨hk, -⟩
    · exact Reply.began.inj (hp.2.symm.trans hk.2)
    · exact absurd hk (h.not_undropped_of_accepts ht hp k)
    · exact absurd hp (h.not_undropped_of_accepts ht hk p)
    · exact h.alone id p k hp hk
  given := by
    intro id p hp
    rcases undropped_snoc.1 hp with hp | ⟨hp, -⟩
    · obtain ⟨-, ⟨s, hs, -⟩, access, hq⟩ := ht.accepts_inv hp
      exact ⟨Nat.le_trans (Registry.bounds_of_get?_eq_some hs).2 ht.storages.size_le,
        (Registry.bounds_of_get?_eq_some hq).2⟩
    · obtain ⟨hid, hp⟩ := h.given id p hp
      exact ⟨Nat.le_trans hid ht.storages.size_le, Nat.le_trans hp ht.passes_size_le⟩
  undropped := by
    intro p q' hq' hconcurrent
    rw [undropped_snoc]
    rcases ht.pass_origin hq' with ⟨q, hq, hstorage, hmode⟩ | ⟨-, access, hevent, hreply⟩
    · refine Or.inr ⟨hstorage ▸ h.undropped p q hq (hmode ▸ hconcurrent), fun hends => ?_⟩
      obtain ⟨-, hnone⟩ := ht.ends_inv hends
      cases hq'.symm.trans hnone
    · exact Or.inl ⟨⟨access, by rw [hevent, hconcurrent]⟩, hreply⟩
  alive := by
    intro id p hp
    rcases undropped_snoc.1 hp with hp | ⟨hp, hends⟩
    · obtain ⟨-, -, access, hq⟩ := ht.accepts_inv hp
      exact Or.inl ⟨_, hq, rfl, rfl⟩
    · -- a pass that is alive afterwards was alive before, for its id is not new
      have horigin :
          ∀ q', st.after.passes.get? p = some q' → ∃ q, st.before.passes.get? p = some q ∧
          q'.storage = q.storage ∧ q'.concurrent = q.concurrent := fun q' hq' =>
        (ht.pass_origin hq').resolve_right fun hnew => by
          have := (h.given id p hp).2
          omega
      rcases hq' : st.after.passes.get? p with _ | q'
      · refine Or.inr ⟨rfl, ?_⟩
        rcases h.alive id p hp with ⟨q, hq, -⟩ | ⟨-, st', hst', hforgets⟩
        · exact ⟨st, by simp, (ht.pass_lost hq hq').resolve_left hends⟩
        · exact ⟨st', by simp [hst'], hforgets⟩
      · obtain ⟨q₀, hq₀, hstorage, hmode⟩ := horigin q' hq'
        rcases h.alive id p hp with ⟨q, hq, hid, hconcurrent⟩ | ⟨hnone, -⟩
        · obtain rfl := Option.some.inj (hq.symm.trans hq₀)
          exact Or.inl ⟨q', rfl, hstorage.trans hid, hmode.trans hconcurrent⟩
        · cases hq₀.symm.trans hnone

end Flagged

/-- **The flags and the history agree after every run.** -/
theorem Run.flagged {steps : List Step} (h : Run {} steps w) : Flagged steps w := by
  generalize hinit : ({} : World) = w₀ at h
  induction h with
  | nil => subst hinit; exact .init
  | snoc e hrun hp ih =>
      subst hinit
      exact ih.snoc ((hrun.sound .init).transition hp)

/-! ## What depends on the flag -/

/-- **A concurrent pass is accepted where the flag is clear.** -/
theorem begins_of_clear (access : Access) (hs : w.storages.get? id = some s)
    (hclear : s.iterating = false) :
    (w.perform (.beginPass id true access)).2 = .began (w.passes.size + 1) := by
  simp [perform, act, beginPass, storage_of_some hs, hclear, setStorage, bind, Except.bind, pure,
    Except.pure, Except.map]

/-- Where the flag is set it is refused. -/
theorem refused_of_flagged (access : Access) (hs : w.storages.get? id = some s)
    (hset : s.iterating = true) : w.perform (.beginPass id true access) =
      (w, .failed (.panic (.iterationActive s.name))) := by
  simp only [perform, act, beginPass, storage_of_some hs, hset, bind, Except.bind, Bool.and_self,
    if_true, throw, throwThe, MonadExceptOf.throw, Except.map]

/-- What a deletion leaves of its storage, and what it answers. -/
theorem delete_eq {yielding : Bool} {d : Deletion} (hs : w.storages.get? id = some s)
    (hdelete : s.deleteEmpty yielding = .ok d) :
    (w.perform (.delete id yielding)).2 = .deleted d.deleted ∧
      (w.perform (.delete id yielding)).1.storages.get? id = some d.storage := by
  simp only [perform, act, deleteEmpty, storage_of_some hs, hdelete, Failure.ofFault, bind,
    Except.bind, pure, Except.pure, Except.map, true_and]
  exact (Registry.get?_set_of_some hs _ _).trans (if_pos rfl)

/-- **A deletion that gives way removes nothing while the flag is set.** -/
theorem Sound.delete_flagged (h : w.Sound) (hs : w.storages.get? id = some s)
    (hset : s.iterating = true) : (w.perform (.delete id true)).2 = .deleted 0 ∧
      ∃ counters, (w.perform (.delete id true)).1.storages.get? id = some { s with counters } := by
  have hsound := (h.storages id s hs).2
  have hwalk := hsound.deleteFrom_inhibited hset s.linked s.blocks.size 0 (List.suffix_refl _)
    hsound.lists.length_le
  rw [← hsound.lists.head_eq] at hwalk
  have hdelete : ∃ counters inhibited, s.deleteEmpty true =
      .ok { storage := { s with counters }, deleted := 0, inhibited } :=
    ⟨_, _, by simp only [Storage.deleteEmpty, hwalk, bind, Except.bind]; rfl⟩
  obtain ⟨counters, inhibited, hdelete⟩ := hdelete
  exact ⟨(delete_eq hs hdelete).1, counters, (delete_eq hs hdelete).2⟩

/-- **It removes every empty block while the flag is clear.** -/
theorem Sound.delete_clear (h : w.Sound) (hs : w.storages.get? id = some s)
    (hclear : s.iterating = false) :
    (w.perform (.delete id true)).2 = .deleted (s.linked.filter s.isEmptyAt).length ∧
      ∃ s', (w.perform (.delete id true)).1.storages.get? id = some s' ∧
        s.Without s' (s.linked.filter s.isEmptyAt) := by
  obtain ⟨d, gone, hdelete, hwithout, hgone, hcount, -⟩ := (h.storages id s hs).2.deleteEmpty true
  rw [hclear, Bool.and_false, if_neg (by simp)] at hgone
  subst hgone
  rw [← hcount]
  exact ⟨(delete_eq hs hdelete).1, _, (delete_eq hs hdelete).2, hwithout⟩

/-- **A pass that is not being iterated can be dropped.** -/
theorem Sound.endPass_done (h : w.Sound) (hq : w.passes.get? p = some q)
    (hidle : w.isRunning p = false) : (w.perform (.endPass p)).2 = .done := by
  have ht := h.transition (e := .endPass p) (by simp [Permits, mayEnd, hidle])
  generalize w.perform (.endPass p) = x at ht ⊢
  rcases x with ⟨w', r⟩
  cases ht with
  | failed hact hwhy =>
      obtain ⟨s, hs, hf⟩ := h.passes p q hq
      have hflag : (q.concurrent && !s.iterating) = false := by
        cases hc : q.concurrent with
        | false => rfl
        | true => simp [hf.flagged hc]
      simp [act, Except.map, World.endPass, pass_of_some hq, storageOf_of_some hs, hflag, bind,
        Except.bind, pure, Except.pure] at hact
  | ended => rfl

/-- **The life of the flag**, as it shows in the course of a run. -/
structure FlagKept (steps : List Step) (w : World) : Prop extends Flagged steps w where
  /-- A concurrent pass is accepted exactly where the flag is clear. -/
  accepted_iff : ∀ id s access, w.storages.get? id = some s →
    ((∃ p, (w.perform (.beginPass id true access)).2 = .began p) ↔ s.iterating = false)
  /-- Where it is refused, it panics and everything stays as it is. -/
  refused : ∀ id s access, w.storages.get? id = some s → s.iterating = true →
    w.perform (.beginPass id true access) = (w, .failed (.panic (.iterationActive s.name)))
  /-- A safepoint pass does with any flags what it does with these. -/
  unread : ∀ e flags, e.OfSafepoint w →
    (w.withFlags flags).perform e = flagging flags (w.perform e)
  /-- A safepoint pass leaves the flags as they are. -/
  unchanged : ∀ e id s', e.OfSafepoint w → (w.perform e).1.storages.get? id = some s' →
    s'.iterating = w.flag id
  /-- While the flag is set a deletion that gives way removes nothing: only counters change. -/
  inhibits : ∀ id s, w.storages.get? id = some s → s.iterating = true →
    (w.perform (.delete id true)).2 = .deleted 0 ∧
      ∃ counters, (w.perform (.delete id true)).1.storages.get? id = some { s with counters }
  /-- A pass can be dropped whenever it is not being iterated. -/
  droppable : ∀ p q, w.passes.get? p = some q → w.isRunning p = false →
    (w.perform (.endPass p)).2 = .done
  /-- Once the concurrent pass over a storage was dropped, and until the next one, the flag is
  clear: the next one is accepted, and a deletion that gives way removes every empty block. -/
  released : ∀ before st after p q s, steps = before ++ st :: after →
    st.event.Ends p st.reply → st.before.passes.get? p = some q → q.concurrent = true →
    (∀ later ∈ after, ∀ k, ¬ later.event.Accepts q.storage k later.reply) →
    w.storages.get? q.storage = some s → s.iterating = false ∧
      (∀ access, ∃ k, (w.perform (.beginPass q.storage true access)).2 = .began k) ∧
      (w.perform (.delete q.storage true)).2 = .deleted (s.linked.filter s.isEmptyAt).length ∧
      ∃ s', (w.perform (.delete q.storage true)).1.storages.get? q.storage = some s' ∧
        s'.linked = s.linked.filter fun n => !s.isEmptyAt n

/-- Where none is accepted, none comes to be undropped. -/
theorem not_undropped_append {steps later : List Step} (h : ∀ k, ¬ Undropped steps id k)
    (hlater : ∀ st ∈ later, ∀ k, ¬ st.event.Accepts id k st.reply) (k : Nat) :
    ¬ Undropped (steps ++ later) id k := by
  induction later using List.reverseRecOn with
  | nil => simpa using h k
  | append_singleton later last ih =>
      rw [← List.append_assoc, undropped_snoc, not_or]
      refine ⟨hlater last (by simp) k, fun hundropped => ?_⟩
      exact ih (fun st hst => hlater st (by simp [hst])) hundropped.1

/-- **A storage has one concurrent pass at a time, and its flag says when**, in every run. -/
theorem flag_kept {steps : List Step} (h : Run {} steps w) : FlagKept steps w where
  toFlagged := h.flagged
  accepted_iff := by
    intro id s access hs
    constructor
    · rintro ⟨p, hbegan⟩
      rw [Bool.eq_false_iff]
      intro hset
      rw [refused_of_flagged access hs hset] at hbegan
      cases hbegan
    · exact fun hclear => ⟨_, begins_of_clear access hs hclear⟩
  refused := fun id s access hs hset => refused_of_flagged access hs hset
  unread := fun e flags he => perform_withFlags flags he
  unchanged := fun e id s' he hs' => iterating_of_safepoint he hs'
  inhibits := fun id s hs hset => (h.sound .init).delete_flagged hs hset
  droppable := fun p q hq hidle => (h.sound .init).endPass_done hq hidle
  released := by
    intro before st after p q s hsteps hends hq hconcurrent hnone hs
    subst hsteps
    obtain ⟨hbefore, hp, -⟩ := h.split
    have hwas := hbefore.flagged
    have hclear : s.iterating = false := by
      rw [Bool.eq_false_iff, ne_eq, h.flagged.flag_iff _ s hs, not_exists]
      intro k
      rw [List.append_cons]
      refine not_undropped_append (fun k => ?_) hnone k
      rw [undropped_snoc, not_or]
      refine ⟨fun haccepts => haccepts.not_ends hends, fun ⟨hundropped, hnot⟩ => ?_⟩
      rw [hwas.alone _ k p hundropped (hwas.undropped p q hq hconcurrent)] at hnot
      exact hnot hends
    obtain ⟨hcount, s', hs', hwithout⟩ := (h.sound .init).delete_clear hs hclear
    refine ⟨hclear, fun access => ⟨_, begins_of_clear access hs hclear⟩, hcount, s', hs', ?_⟩
    rw [hwithout.linked_eq]
    refine List.filter_congr fun n hn => ?_
    simp [hn]

/-- A visitor of a concurrent pass begins and ends a pass over another storage, begins one more that
is forgotten, and panics; its own pass is dropped, and its storage is free for the next one and for
deletion. -/
theorem flag_kept_of_panic :
    let events : List Event := [.create {}, .create {}, .allocate 1, .beginPass 1 true .readOnly,
      .enter 1 .every, .advance, .advance, .beginPass 2 true .readOnly, .endPass 2,
      .beginPass 2 true .readOnly, .forgetPass 3, .release 1 1, .delete 1 true, .panic, .endPass 1]
    let w := ({} : World).afterAll events
    w.flag 1 = false ∧ w.flag 2 = true ∧ (w.perform (.delete 1 true)).2 = .deleted 1 ∧
    (w.perform (.beginPass 1 true .readOnly)).2 = .began 4 ∧
    FlagKept (({} : World).trail events) w := by
  refine ⟨by decide +kernel, by decide +kernel, by decide +kernel, by decide +kernel, ?_⟩
  exact flag_kept (run_trail _ _ (by decide +kernel))

end World

end RootStore
