import RootStore.Proofs.Storage.Removal
import RootStore.World.Collector
import RootStore.World.Mutator
import RootStore.World.Permission

/-!
# Sound worlds

What holds between any two events: every storage is sound, every pass stands on the list of the
storage it walks, every iteration under way scans a block of that list, and the handles that were
never given back to the storage that issued them correspond one to one to the entries in use.

* `Storage.Keeps` — what a change of a storage leaves to the passes over it.
* `Pass.Follows`, `Call.Follows` — a pass and an iteration that agree with their storage.
* `World.Coherent`, `World.Entitled` — the invariant, but for handles and for handles.
* `World.Sound` — **the invariant.**
-/

namespace RootStore

variable {s s' : Storage} {q q' : Pass} {c : Call}

/-! ## Storages, passes and iterations -/

/-- A sound storage to begin with. -/
theorem Storage.Sound.make (id : Nat) (settings : Settings) : (Storage.make id settings).Sound where
  lists := ⟨rfl, by simp [Storage.linked, Storage.make, Storage.walk], List.Pairwise.nil⟩
  mem_linked := by simp [Storage.make]
  owner := by simp [Storage.make]
  nodup_available := List.nodup_nil
  mem_available := by simp [Storage.make]

/-- Blocks were linked at most in front of those that were linked before, and a storage that was
being iterated still is. -/
structure Storage.Keeps (s s' : Storage) : Prop where
  suffix : s.linked <:+ s'.linked
  iterating : s.iterating = true → s'.iterating = true

namespace Storage.Keeps

variable {p : Place} {v : Option Reference}

/-- A change that touches neither the list nor the flag. -/
theorem of_eq (hlinked : s'.linked = s.linked) (hiter : s'.iterating = s.iterating) :
    s.Keeps s' :=
  ⟨by rw [hlinked], fun h => by rw [hiter, h]⟩

theorem of_granted (h : s.Granted s' p) : s.Keeps s' where
  suffix := by
    rcases h.linked_eq with heq | ⟨-, heq⟩
    · rw [heq]
    · rw [heq]
      exact List.suffix_cons _ _
  iterating := fun hi => by rw [h.frame.iterating_eq, hi]

theorem of_written (h : s.Written s' p v) : s.Keeps s' :=
  of_eq h.linked_eq h.frame.iterating_eq

theorem of_without (h : s.Without s' []) : s.Keeps s' :=
  of_eq (by simpa using h.linked_eq) h.frame.iterating_eq

theorem mem (h : s.Keeps s') {n : Nat} (hn : n ∈ s.linked) : n ∈ s'.linked :=
  h.suffix.subset hn

end Storage.Keeps

/-- A pass agrees with the storage it walks. -/
structure Pass.Follows (q : Pass) (s : Storage) : Prop where
  /-- A concurrent pass has marked its storage. -/
  flagged : q.concurrent = true → s.iterating = true
  /-- The cursor stands before a rest of the list. -/
  on_list : ∀ c, q.cursor = .upcoming c → ∃ rest, rest <:+ s.linked ∧ c = rest.head?

theorem Pass.Follows.keeps (h : q.Follows s) (hk : s.Keeps s') : q.Follows s' where
  flagged := fun hc => hk.iterating (h.flagged hc)
  on_list := fun c hc => by
    obtain ⟨rest, hsuf, hrest⟩ := h.on_list c hc
    exact ⟨rest, hsuf.trans hk.suffix, hrest⟩

/-- The entry that an iteration waits for. -/
def Stage.entry? : Stage → Option Entry
  | .ready => none
  | .asking e _ | .visiting e => some e

/-- An iteration agrees with its pass and with the storage that the pass walks. -/
structure Call.Follows (c : Call) (q : Pass) (s : Storage) : Prop where
  /-- The pass has started. -/
  started : q.cursor ≠ .notStarted
  /-- The block being scanned is linked. -/
  scanning : ∀ k, c.scanning = some k → k.block ∈ s.linked
  /-- The entry in a visitor's or judge's hand lies in a linked block. -/
  entry : ∀ e, c.stage.entry? = some e → e.storage = q.storage ∧ e.place.block ∈ s.linked

theorem Call.Follows.keeps (h : c.Follows q s) (hk : s.Keeps s') : c.Follows q s' where
  started := h.started
  scanning := fun k hc => hk.mem (h.scanning k hc)
  entry := fun e he => ⟨(h.entry e he).1, hk.mem (h.entry e he).2⟩

theorem Call.Follows.pass (h : c.Follows q s) (hstorage : q'.storage = q.storage)
    (hstarted : q'.cursor ≠ .notStarted) : c.Follows q' s where
  started := hstarted
  scanning := h.scanning
  entry := fun e he => by rw [hstorage]; exact h.entry e he

namespace World

variable {w : World} {id i : Nat}

/-! ## Everything but the handles -/

/-- Storages, passes and iterations agree with each other. -/
structure Coherent (w : World) : Prop where
  /-- Storages are sound and know their ids. -/
  storages : ∀ id s, w.storages.get? id = some s → s.id = id ∧ s.Sound
  /-- A pass has its storage. -/
  passes : ∀ i q, w.passes.get? i = some q →
    ∃ s, w.storages.get? q.storage = some s ∧ q.Follows s
  /-- No storage is walked by two passes. -/
  alone : ∀ i j q r, w.passes.get? i = some q → w.passes.get? j = some r →
    q.storage = r.storage → i = j
  /-- An iteration has its pass. -/
  calls : ∀ c ∈ w.calls, ∃ q s, w.passes.get? c.pass = some q ∧
    w.storages.get? q.storage = some s ∧ c.Follows q s

theorem hasPass_eq_true_iff :
    w.hasPass id = true ↔ ∃ i q, w.passes.get? i = some q ∧ q.storage = id := by
  simp [hasPass, Registry.any_eq_true_iff]

theorem hasPass_eq_false_iff :
    w.hasPass id = false ↔ ∀ i q, w.passes.get? i = some q → q.storage ≠ id := by
  simp [← Bool.not_eq_true, hasPass_eq_true_iff]

theorem hasSafepointPass_eq_false_iff : w.hasSafepointPass id = false ↔
    ∀ i q, w.passes.get? i = some q → q.storage = id → q.concurrent = true := by
  simp [← Bool.not_eq_true, hasSafepointPass, Registry.any_eq_true_iff]

theorem isRunning_eq_false_iff : w.isRunning i = false ↔ ∀ c ∈ w.calls, c.pass ≠ i := by
  simp [← Bool.not_eq_true, isRunning]

namespace Coherent

/-- The storage of a pass that is alive. -/
theorem storage_of_pass (h : w.Coherent) (hq : w.passes.get? i = some q)
    (hs : w.storages.get? q.storage = some s) : q.Follows s := by
  obtain ⟨t, ht, hf⟩ := h.passes i q hq
  obtain rfl := Option.some.inj (hs.symm.trans ht)
  exact hf

/-- The trace and the handles do not matter. -/
theorem congr {w' : World} (h : w.Coherent) (hs : w'.storages = w.storages)
    (hp : w'.passes = w.passes) (hc : w'.calls = w.calls) : w'.Coherent where
  storages := by rw [hs]; exact h.storages
  passes := by rw [hs, hp]; exact h.passes
  alone := by rw [hp]; exact h.alone
  calls := by rw [hs, hp, hc]; exact h.calls

/-- **Changing a storage** in a way that its passes can live with. -/
theorem setStorage (h : w.Coherent) (hs : w.storages.get? id = some s) (hid : s'.id = s.id)
    (hsound : s'.Sound) (hkeeps : w.hasPass id = true → s.Keeps s') :
    (w.setStorage id s').Coherent := by
  have hget := Registry.get?_set_of_some hs s'
  have hfollow : ∀ i q t, w.passes.get? i = some q → w.storages.get? q.storage = some t →
      ∃ t', (w.storages.set id s').get? q.storage = some t' ∧ t.Keeps t' := by
    intro i q t hq ht
    rw [hget]
    by_cases hqs : q.storage = id
    · rw [hqs] at ht
      obtain rfl := Option.some.inj (hs.symm.trans ht)
      exact ⟨s', by rw [if_pos hqs], hkeeps (hasPass_eq_true_iff.2 ⟨i, q, hq, hqs⟩)⟩
    · exact ⟨t, by rw [if_neg hqs, ht], .of_eq rfl rfl⟩
  refine ⟨?_, ?_, h.alone, ?_⟩
  · intro m t ht
    unfold World.setStorage at ht
    rw [hget] at ht
    split at ht
    · rename_i hm
      obtain rfl := Option.some.inj ht
      exact ⟨by rw [hid, (h.storages id s hs).1, hm], hsound⟩
    · exact h.storages m t ht
  · intro i q hq
    obtain ⟨t, ht, hf⟩ := h.passes i q hq
    obtain ⟨t', ht', hk⟩ := hfollow i q t hq ht
    exact ⟨t', ht', hf.keeps hk⟩
  · intro c hc
    obtain ⟨q, t, hq, ht, hf⟩ := h.calls c hc
    obtain ⟨t', ht', hk⟩ := hfollow _ q t hq ht
    exact ⟨q, t', hq, ht', hf.keeps hk⟩

/-- A new storage. -/
theorem addStorage (h : w.Coherent) (settings : Settings) : (w.create settings).1.Coherent := by
  have hget := fun m => Registry.get?_add w.storages (Storage.make (w.storages.size + 1) settings) m
  have hold : ∀ {m t}, w.storages.get? m = some t →
      (w.create settings).1.storages.get? m = some t := by
    intro m t ht
    have := (Registry.bounds_of_get?_eq_some ht).2
    rw [World.create, hget, if_neg (by omega), ht]
  refine ⟨?_, ?_, h.alone, ?_⟩
  · intro m t ht
    unfold World.create at ht
    rw [hget] at ht
    split at ht
    · rename_i hm
      obtain rfl := Option.some.inj ht
      exact ⟨hm.symm, .make _ _⟩
    · exact h.storages m t ht
  · intro i q hq
    obtain ⟨t, ht, hf⟩ := h.passes i q hq
    exact ⟨t, hold ht, hf⟩
  · intro c hc
    obtain ⟨q, t, hq, ht, hf⟩ := h.calls c hc
    exact ⟨q, t, hq, hold ht, hf⟩

/-- A storage without passes can go. -/
theorem eraseStorage (h : w.Coherent) (hfree : w.hasPass id = false) :
    { w with storages := w.storages.erase id }.Coherent := by
  have hget := Registry.get?_erase w.storages id
  have hold : ∀ {i q t}, w.passes.get? i = some q → w.storages.get? q.storage = some t →
      (w.storages.erase id).get? q.storage = some t := by
    intro i q t hq ht
    rw [hget, if_neg (hasPass_eq_false_iff.1 hfree i q hq), ht]
  refine ⟨?_, ?_, h.alone, ?_⟩
  · intro m t ht
    rw [hget] at ht
    split at ht
    · cases ht
    · exact h.storages m t ht
  · intro i q hq
    obtain ⟨t, ht, hf⟩ := h.passes i q hq
    exact ⟨t, hold hq ht, hf⟩
  · intro c hc
    obtain ⟨q, t, hq, ht, hf⟩ := h.calls c hc
    exact ⟨q, t, hq, hold hq ht, hf⟩

/-- A pass over a storage that has none. -/
theorem addPass (h : w.Coherent) (hs : w.storages.get? q.storage = some s)
    (hfree : w.hasPass q.storage = false) (hf : q.Follows s) :
    { w with passes := w.passes.add q }.Coherent := by
  have hget := Registry.get?_add w.passes q
  have hold : ∀ {i r}, w.passes.get? i = some r → (w.passes.add q).get? i = some r := by
    intro i r hr
    have := (Registry.bounds_of_get?_eq_some hr).2
    rw [hget, if_neg (by omega), hr]
  have hfree := hasPass_eq_false_iff.1 hfree
  refine ⟨h.storages, ?_, ?_, ?_⟩
  · intro i r hr
    rw [hget] at hr
    split at hr
    · obtain rfl := Option.some.inj hr
      exact ⟨s, hs, hf⟩
    · exact h.passes i r hr
  · intro i j r t hr ht heq
    rw [hget] at hr ht
    split at hr <;> split at ht
    · omega
    · obtain rfl := Option.some.inj hr
      exact absurd heq.symm (hfree j t ht)
    · obtain rfl := Option.some.inj ht
      exact absurd heq (hfree i r hr)
    · exact h.alone i j r t hr ht heq
  · intro c hc
    obtain ⟨r, t, hr, ht, hf⟩ := h.calls c hc
    exact ⟨r, t, hold hr, ht, hf⟩

/-- A pass that is not being iterated can go. -/
theorem erasePass (h : w.Coherent) (hidle : w.isRunning i = false) :
    { w with passes := w.passes.erase i }.Coherent := by
  have hget := Registry.get?_erase w.passes i
  have hback : ∀ {j r}, (w.passes.erase i).get? j = some r → w.passes.get? j = some r := by
    intro j r hr
    rw [hget] at hr
    split at hr
    · cases hr
    · exact hr
  refine ⟨h.storages, fun j r hr => h.passes j r (hback hr), fun j k r t hr ht heq =>
    h.alone j k r t (hback hr) (hback ht) heq, ?_⟩
  intro c hc
  obtain ⟨r, t, hr, ht, hf⟩ := h.calls c hc
  exact ⟨r, t, by rw [hget, if_neg (isRunning_eq_false_iff.1 hidle c hc), hr], ht, hf⟩

/-- A pass moves on. -/
theorem setPass (h : w.Coherent) (hq : w.passes.get? i = some q)
    (hs : w.storages.get? q.storage = some s) (hstorage : q'.storage = q.storage)
    (hstarted : q'.cursor ≠ .notStarted) (hf : q'.Follows s) : (w.setPass i q').Coherent := by
  have hget := Registry.get?_set_of_some hq q'
  have hsame : ∀ {j r}, (w.passes.set i q').get? j = some r →
      ∃ r', w.passes.get? j = some r' ∧ r'.storage = r.storage := by
    intro j r hr
    rw [hget] at hr
    split at hr
    · rename_i hj
      obtain rfl := Option.some.inj hr
      exact ⟨q, by rw [hj, hq], hstorage.symm⟩
    · exact ⟨r, hr, rfl⟩
  refine ⟨h.storages, ?_, ?_, ?_⟩
  · intro j r hr
    unfold World.setPass at hr
    rw [hget] at hr
    split at hr
    · obtain rfl := Option.some.inj hr
      exact ⟨s, by rw [hstorage]; exact hs, hf⟩
    · exact h.passes j r hr
  · intro j k r t hr ht heq
    obtain ⟨r', hr', hrs⟩ := hsame hr
    obtain ⟨t', ht', hts⟩ := hsame ht
    exact h.alone j k r' t' hr' ht' (by rw [hrs, hts, heq])
  · intro c hc
    obtain ⟨r, t, hr, ht, hcf⟩ := h.calls c hc
    by_cases hci : c.pass = i
    · rw [hci] at hr
      obtain rfl := Option.some.inj (hq.symm.trans hr)
      obtain rfl := Option.some.inj (hs.symm.trans ht)
      refine ⟨q', s, by rw [World.setPass, hget, if_pos hci], by rw [hstorage]; exact hs, ?_⟩
      exact hcf.pass hstorage hstarted
    · exact ⟨r, t, by rw [World.setPass, hget, if_neg hci, hr], ht, hcf⟩

/-- Other iterations are under way. -/
theorem setCalls (h : w.Coherent) {calls : List Call}
    (hcalls : ∀ c ∈ calls, c ∈ w.calls ∨ ∃ q s, w.passes.get? c.pass = some q ∧
      w.storages.get? q.storage = some s ∧ c.Follows q s) : { w with calls }.Coherent where
  storages := h.storages
  passes := h.passes
  alone := h.alone
  calls := fun c hc => (hcalls c hc).elim (h.calls c) id

end Coherent

/-! ## Handles -/

/-- The handles that were never given back to the storage that issued them, and the entries in use,
correspond one to one. -/
structure Entitled (w : World) : Prop where
  /-- A handle was issued by a storage. -/
  owner : ∀ n h, w.handles.get? n = some h → 1 ≤ h.handle.owner ∧ h.handle.owner ≤ w.storages.size
  /-- The entry behind a handle is in use. -/
  inUse : ∀ n h s, w.handles.get? n = some h → h.tenure ≠ .released →
    w.storages.get? h.handle.owner = some s → s.InUse h.handle.place
  /-- No two handles share an entry. -/
  injective : ∀ m n h k, w.handles.get? m = some h → w.handles.get? n = some k →
    h.tenure ≠ .released → k.tenure ≠ .released → h.handle = k.handle → m = n
  /-- There is a handle for every entry in use. -/
  issued : ∀ id s p, w.storages.get? id = some s → s.InUse p →
    ∃ n h, w.handles.get? n = some h ∧ h.tenure ≠ .released ∧ h.handle = ⟨id, p⟩

namespace Entitled

/-- The passes, the iterations and the trace do not matter. -/
theorem congr {w' : World} (h : w.Entitled) (hs : w'.storages = w.storages)
    (hh : w'.handles = w.handles) : w'.Entitled where
  owner := by rw [hs, hh]; exact h.owner
  inUse := by rw [hs, hh]; exact h.inUse
  injective := by rw [hh]; exact h.injective
  issued := by rw [hs, hh]; exact h.issued

/-- Changing a storage and none of its entries in use. -/
theorem setStorage (h : w.Entitled) (hs : w.storages.get? id = some s)
    (huse : ∀ p, s'.InUse p ↔ s.InUse p) : (w.setStorage id s').Entitled := by
  have hback : ∀ {m t'}, (w.storages.set id s').get? m = some t' →
      ∃ t, w.storages.get? m = some t ∧ ∀ p, t'.InUse p ↔ t.InUse p := by
    intro m t' ht'
    rw [Registry.get?_set_of_some hs] at ht'
    split at ht'
    · rename_i hm
      obtain rfl := Option.some.inj ht'
      exact ⟨s, by rw [hm, hs], huse⟩
    · exact ⟨t', ht', fun _ => Iff.rfl⟩
  refine ⟨?_, ?_, h.injective, ?_⟩
  · intro n k hk
    rw [World.setStorage, Registry.size_set]
    exact h.owner n k hk
  · intro n k t' hk hheld ht'
    obtain ⟨t, ht, hiff⟩ := hback ht'
    exact (hiff _).2 (h.inUse n k t hk hheld ht)
  · intro m t' p ht' hp
    obtain ⟨t, ht, hiff⟩ := hback ht'
    exact h.issued m t p ht ((hiff p).1 hp)

/-- A new storage has no entry in use. -/
theorem addStorage (h : w.Entitled) (settings : Settings) : (w.create settings).1.Entitled := by
  have hback : ∀ {m t p}, (w.create settings).1.storages.get? m = some t → m ≤ w.storages.size ∨
      t.InUse p → w.storages.get? m = some t := by
    intro m t p ht hor
    unfold World.create at ht
    rw [Registry.get?_add] at ht
    split at ht
    · obtain rfl := Option.some.inj ht
      rcases hor with hm | ⟨b, hb, -⟩
      · omega
      · simp [Storage.make] at hb
    · exact ht
  refine ⟨?_, ?_, h.injective, ?_⟩
  · intro n k hk
    have := h.owner n k hk
    simp only [World.create, Registry.size_add]
    omega
  · intro n k t hk hheld ht
    exact h.inUse n k t hk hheld (hback (p := k.handle.place) ht (Or.inl (h.owner n k hk).2))
  · intro m t p ht hp
    exact h.issued m t p (hback ht (Or.inr hp)) hp

/-- A storage goes, with its entries. -/
theorem eraseStorage (h : w.Entitled) : { w with storages := w.storages.erase id }.Entitled := by
  have hback : ∀ {m t}, (w.storages.erase id).get? m = some t → w.storages.get? m = some t := by
    intro m t ht
    rw [Registry.get?_erase] at ht
    split at ht
    · cases ht
    · exact ht
  refine ⟨?_, fun n k t hk hheld ht => h.inUse n k t hk hheld (hback ht), h.injective,
    fun m t p ht hp => h.issued m t p (hback ht) hp⟩
  intro n k hk
  rw [Registry.size_erase]
  exact h.owner n k hk

/-- **Issuing a handle** for an entry that was free. -/
theorem grant {p : Place} (h : w.Entitled) (hs : w.storages.get? id = some s)
    (hgranted : s.Granted s' p) :
    { w.setStorage id s' with handles := w.handles.add { handle := ⟨id, p⟩ } }.Entitled := by
  have hget := Registry.get?_add w.handles { handle := ⟨id, p⟩ }
  have hnew : ∀ n k, w.handles.get? n = some k → k.tenure ≠ .released → k.handle ≠ ⟨id, p⟩ := by
    intro n k hk hheld heq
    apply hgranted.free
    have := h.inUse n k s hk hheld (by rw [heq]; exact hs)
    rwa [heq] at this
  have hbounds := Registry.bounds_of_get?_eq_some hs
  refine ⟨?_, ?_, ?_, ?_⟩
  · intro n k hk
    simp only [World.setStorage, Registry.size_set]
    rw [hget] at hk
    split at hk
    · obtain rfl := Option.some.inj hk
      exact hbounds
    · exact h.owner n k hk
  · intro n k t hk hheld ht
    simp only [World.setStorage, Registry.get?_set_of_some hs] at ht
    rw [hget] at hk
    split at hk
    · obtain rfl := Option.some.inj hk
      simp only [if_true, Option.some.injEq] at ht
      subst ht
      exact (hgranted.inUse_iff p).2 (Or.inr rfl)
    · split at ht
      · rename_i hown
        obtain rfl := Option.some.inj ht
        exact (hgranted.inUse_iff _).2 (Or.inl (h.inUse n k s hk hheld (by rw [hown, hs])))
      · exact h.inUse n k t hk hheld ht
  · intro m n k k' hk hk' hheld hheld' heq
    rw [hget] at hk hk'
    split at hk <;> split at hk'
    · omega
    · obtain rfl := Option.some.inj hk
      exact absurd heq.symm (hnew n k' hk' hheld')
    · obtain rfl := Option.some.inj hk'
      exact absurd heq (hnew m k hk hheld)
    · exact h.injective m n k k' hk hk' hheld hheld' heq
  · intro m t r ht hr
    have hold : ∀ {t}, w.storages.get? m = some t → t.InUse r → ∃ n k,
        (w.handles.add { handle := ⟨id, p⟩ }).get? n = some k ∧ k.tenure ≠ .released ∧
          k.handle = ⟨m, r⟩ := by
      intro t ht hr
      obtain ⟨n, k, hk, hheld, heq⟩ := h.issued m t r ht hr
      have := (Registry.bounds_of_get?_eq_some hk).2
      exact ⟨n, k, by rw [hget, if_neg (by omega), hk], hheld, heq⟩
    simp only [World.setStorage, Registry.get?_set_of_some hs] at ht
    split at ht
    · rename_i hm
      obtain rfl := Option.some.inj ht
      rcases (hgranted.inUse_iff r).1 hr with hr | rfl
      · exact hold (by rw [hm, hs]) hr
      · exact ⟨w.handles.size + 1, _, by rw [hget, if_pos rfl], by simp, by rw [hm]⟩
    · exact hold ht hr

/-- A handle is lost to a storage that did not issue it, and its entry stays in use. -/
theorem lose {number : Nat} {h : Handle} (hw : w.Entitled)
    (hh : w.handles.get? number = some { handle := h }) : (w.spend number h .lost).Entitled := by
  have hheld : ∀ {n k}, (w.handles.set number { handle := h, tenure := .lost }).get? n = some k →
      ∃ k', w.handles.get? n = some k' ∧ k'.handle = k.handle ∧
        (k.tenure ≠ .released → k'.tenure ≠ .released) := by
    intro n k hk
    rw [Registry.get?_set_of_some hh] at hk
    split at hk
    · rename_i hn
      obtain rfl := Option.some.inj hk
      exact ⟨{ handle := h }, by rw [hn, hh], rfl, fun _ => by simp⟩
    · exact ⟨k, hk, rfl, fun hten => hten⟩
  refine ⟨?_, ?_, ?_, ?_⟩
  · intro n k hk
    obtain ⟨k', hk', heq, -⟩ := hheld hk
    rw [← heq]
    exact hw.owner n k' hk'
  · intro n k t hk hten ht
    obtain ⟨k', hk', heq, hten'⟩ := hheld hk
    rw [← heq] at ht ⊢
    exact hw.inUse n k' t hk' (hten' hten) ht
  · intro m n k l hk hl hkten hlten heq
    obtain ⟨k', hk', hkeq, hkten'⟩ := hheld hk
    obtain ⟨l', hl', hleq, hlten'⟩ := hheld hl
    exact hw.injective m n k' l' hk' hl' (hkten' hkten) (hlten' hlten) (by rw [hkeq, hleq, heq])
  · intro m t p ht hp
    obtain ⟨n, k, hk, hten, heq⟩ := hw.issued m t p ht hp
    by_cases hn : n = number
    · rw [hn] at hk
      obtain rfl := Option.some.inj (hh.symm.trans hk)
      exact ⟨number, { handle := h, tenure := .lost },
        by rw [World.spend, Registry.get?_set_of_some hh, if_pos rfl], by simp, heq⟩
    · exact ⟨n, k, by rw [World.spend, Registry.get?_set_of_some hh, if_neg hn, hk], hten, heq⟩

/-- **Releasing a handle** takes its entry out of use. -/
theorem release {number : Nat} {h : Handle} (hw : w.Entitled)
    (hh : w.handles.get? number = some { handle := h }) (hs : w.storages.get? h.owner = some s)
    (huse : ∀ p, s'.InUse p ↔ s.InUse p ∧ p ≠ h.place) :
    ((w.spend number h .released).setStorage h.owner s').Entitled := by
  have hback : ∀ {n k},
      (w.handles.set number { handle := h, tenure := .released }).get? n = some k →
      k.tenure ≠ .released → n ≠ number ∧ w.handles.get? n = some k := by
    intro n k hk hten
    rw [Registry.get?_set_of_some hh] at hk
    split at hk
    · obtain rfl := Option.some.inj hk
      simp at hten
    · rename_i hn
      exact ⟨hn, hk⟩
  refine ⟨?_, ?_, ?_, ?_⟩
  · intro n k hk
    simp only [World.setStorage, World.spend, Registry.size_set,
      Registry.get?_set_of_some hh] at hk ⊢
    split at hk
    · obtain rfl := Option.some.inj hk
      exact hw.owner number { handle := h } hh
    · exact hw.owner n k hk
  · intro n k t hk hten ht
    obtain ⟨hn, hk⟩ := hback hk hten
    simp only [World.setStorage, World.spend, Registry.get?_set_of_some hs] at ht
    split at ht
    · rename_i hown
      obtain rfl := Option.some.inj ht
      refine (huse _).2 ⟨hw.inUse n k s hk hten (by rw [hown, hs]), fun hp => hn ?_⟩
      refine hw.injective n number k { handle := h } hk hh hten (by simp) ?_
      rcases hkh : k.handle with ⟨o, p⟩
      rw [hkh] at hown hp
      rcases h with ⟨o', p'⟩
      simp_all
    · exact hw.inUse n k t hk hten ht
  · intro m n k l hk hl hkten hlten heq
    exact hw.injective m n k l (hback hk hkten).2 (hback hl hlten).2 hkten hlten heq
  · intro m t p ht hp
    have hold : ∀ {t}, w.storages.get? m = some t → t.InUse p → ¬ (m = h.owner ∧ p = h.place) →
        ∃ n k, (w.handles.set number { handle := h, tenure := .released }).get? n = some k ∧
          k.tenure ≠ .released ∧ k.handle = ⟨m, p⟩ := by
      intro t ht hp hne
      obtain ⟨n, k, hk, hten, heq⟩ := hw.issued m t p ht hp
      refine ⟨n, k, ?_, hten, heq⟩
      rw [Registry.get?_set_of_some hh, if_neg, hk]
      rintro rfl
      obtain rfl := Option.some.inj (hh.symm.trans hk)
      simp only at heq
      exact hne (by rw [heq]; exact ⟨rfl, rfl⟩)
    simp only [World.setStorage, World.spend, Registry.get?_set_of_some hs] at ht
    split at ht
    · rename_i hm
      obtain rfl := Option.some.inj ht
      obtain ⟨hp, hne⟩ := (huse p).1 hp
      exact hold (by rw [hm, hs]) hp fun heq => hne heq.2
    · rename_i hm
      exact hold ht hp fun heq => hm heq.1

end Entitled

/-- **What holds between any two events.** -/
structure Sound (w : World) : Prop extends Coherent w, Entitled w

/-- A world in which nothing has happened is sound. -/
theorem Sound.init : Sound {} where
  storages := by simp
  passes := by simp
  alone := by simp
  calls := by simp
  owner := by simp
  inUse := by simp
  injective := by simp
  issued := by simp

end World

end RootStore
