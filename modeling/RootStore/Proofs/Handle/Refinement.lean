import RootStore.Proofs.Handle.Contents

/-!
# Handles refine a map

To those who hold handles a storage is a map from handles to contents.  Underneath, slots are used
again, blocks come and go, and passes write entries beside the handles; but a handle that was not
given back always stands for one entry in use that is its own, and to read through it is to read
what was last written to that entry.

* `World.Spent` — which handles were given back, by what the trace of steps tells.
* `World.HandlesRefine` — what is said of handles.
* `World.handles_refine` — **it holds in every world that a run leads to.**
-/

namespace RootStore

/-- A handle is given back in the step to the storage that issued it. -/
def Step.Releases (number : Nat) (st : Step) : Prop :=
  (∃ id, st.event = .release id number) ∧ st.reply = .done

/-- A handle is given back in the step to a storage that did not issue it, which panics. -/
def Step.Loses (number : Nat) (st : Step) : Prop :=
  (∃ id, st.event = .release id number) ∧ ∃ cause, st.reply = .panicked cause

namespace World

variable {w w' : World} {e : Event} {r : Reply} {number : Nat} {steps : List Step}

/-! ## Handles that were given back -/

/-- What has become of a handle is what the steps tell. -/
structure Spent (w : World) (steps : List Step) : Prop where
  /-- A handle is released if it was given back to the storage that issued it. -/
  released : ∀ number, (∃ h, w.handles.get? number = some { handle := h, tenure := .released }) ↔
    ∃ st ∈ steps, st.Releases number
  /-- A handle is lost if it was given back to another storage. -/
  lost : ∀ number, (∃ h, w.handles.get? number = some { handle := h, tenure := .lost }) ↔
    ∃ st ∈ steps, st.Loses number

/-- Only a release changes what has become of a handle. -/
theorem Transition.tenure (ht : Transition w e w' r) {tenure : Tenure} (hnot : tenure ≠ .held)
    (number : Nat) : (∃ h, w'.handles.get? number = some { handle := h, tenure }) ↔
      (∃ h, w.handles.get? number = some { handle := h, tenure }) ∨
      (∃ id, e = .release id number) ∧
        (tenure = .released ∧ r = .done ∨ tenure = .lost ∧ ∃ cause, r = .panicked cause) := by
  cases ht with
  | @failed e => cases e <;> simp
  | created | dropped | refused | got | written | deleted | began | ended | forgotten | pinned
  | resumed | offered | claimed | finished | upheld | cleared | panicked | loaded | stored
  | exchanged => simp [World.create, World.setStorage, World.setPass, World.record]
  | @granted id s s' p linked hs halloc hgranted =>
      have hget := Registry.get?_add w.handles { handle := ⟨id, p⟩ } number
      simp only [World.record, hget]
      by_cases hn : number = w.handles.size + 1
      · have hnone : w.handles.get? number = none := Registry.get?_eq_none_of_size_lt (by omega)
        simp only [hnone, if_pos hn, Option.some.injEq, Issued.mk.injEq, Ne.symm hnot]
        simp
      · simp [if_neg hn]
  | @released k h s s' hh hs hrelease hwritten huse =>
      have hget := Registry.get?_set_of_some hh { handle := h, tenure := .released } number
      simp only [World.setStorage, World.spend, hget]
      by_cases hn : number = k
      · subst hn
        cases tenure <;> simp_all
      · simp [hn, Ne.symm hn]
  | @lost id k h s hh hs hforeign =>
      have hget := Registry.get?_set_of_some hh { handle := h, tenure := .lost } number
      simp only [World.spend, hget]
      by_cases hn : number = k
      · subst hn
        cases tenure <;> simp_all
      · simp [hn, Ne.symm hn]

theorem Run.spent (h : Run {} steps w) : w.Spent steps := by
  generalize hinit : ({} : World) = w₀ at h
  induction h with
  | nil => subst hinit; exact ⟨by simp, by simp⟩
  | @snoc w₁ steps e hrun hp ih =>
      subst hinit
      have ht := (hrun.sound .init).transition hp
      constructor
      · intro number
        rw [ht.tenure (by simp) number, ih.released number]
        simp [Step.Releases, Step.reply, or_and_right, exists_or]
      · intro number
        rw [ht.tenure (by simp) number, ih.lost number]
        simp [Step.Loses, Step.reply, or_and_right, exists_or]

/-! ## The refinement -/

/-- **What is said of handles** in a world that some steps have led to. -/
structure HandlesRefine (w : World) (steps : List Step) : Prop where
  /-- A handle counts as released exactly if it was given back to the storage that issued it. -/
  released : ∀ number h, w.handles.get? number = some h →
    (h.tenure = .released ↔ ∃ st ∈ steps, st.Releases number)
  /-- No two handles that are not released stand for the same entry. -/
  injective : ∀ m n h k, w.handles.get? m = some h → w.handles.get? n = some k →
    h.tenure ≠ .released → k.tenure ≠ .released → h.handle = k.handle → m = n
  /-- As long as its storage is there, the entry of such a handle is in use, in a block of that
  storage which is linked. -/
  inUse : ∀ number h s, w.handles.get? number = some h → h.tenure ≠ .released →
    w.storages.get? h.handle.owner = some s → s.id = h.handle.owner ∧
      h.handle.place.block ∈ s.linked ∧ ∃ b, s.blocks.get? h.handle.place.block = some b ∧
        b.owner = h.handle.owner ∧ b.inUse h.handle.place.slot = true
  /-- For every entry in use there is exactly one such handle. -/
  issued : ∀ id s n b i, w.storages.get? id = some s → n ∈ s.linked → s.blocks.get? n = some b →
    b.inUse i = true → ∃! number, ∃ h, w.handles.get? number = some h ∧ h.tenure ≠ .released ∧
      h.handle = ⟨id, ⟨n, i⟩⟩
  /-- To read through a handle that is held is to read what was last written to its entry. -/
  read : ∀ number h s, w.handles.get? number = some { handle := h } →
    w.storages.get? h.owner = some s → w.get h.owner number = .ok (content steps h)

/-- **Handles refine a map**, in every run in which visitors give no value to an entry that is no
longer in use. -/
theorem handles_refine (hrun : Run {} steps w)
    (hcareful : ∀ st ∈ steps, st.before.Careful st.event) : w.HandlesRefine steps := by
  have hw := hrun.sound .init
  have hspent := hrun.spent
  refine ⟨fun number h hh => ?_, hw.injective, fun number h s hh hten hs => ?_,
    fun id s n b i hs hn hb hi => ?_, fun number h s hh hs => ?_⟩
  · rw [← hspent.released number]
    rcases h with ⟨h, tenure⟩
    simp [hh]
  · obtain ⟨hid, hsound⟩ := hw.storages _ s hs
    obtain ⟨b, hb, hi⟩ := hw.inUse number h s hh hten hs
    exact ⟨hid, hsound.mem_linked _ b hb, b, hb, (hsound.owner _ b hb).trans hid, hi⟩
  · obtain ⟨number, h, hh, hten, heq⟩ := hw.issued id s ⟨n, i⟩ hs ⟨b, hb, hi⟩
    refine ⟨number, ⟨h, hh, hten, heq⟩, ?_⟩
    rintro m ⟨k, hk, hkten, hkeq⟩
    exact hw.injective m number k h hk hh hkten hten (by rw [hkeq, heq])
  · obtain ⟨hid, hsound⟩ := hw.storages _ s hs
    have hp : s.InUse h.place := hw.inUse number { handle := h } s hh (by simp) hs
    have hload := (hrun.faithful hcareful).holds h.owner s h.place hs hp
    simp [World.get, owned, handle_of_held hh, storage_of_some hs, hid, hload, Failure.ofFault,
      bind, Except.bind, pure, Except.pure]

/-- An entry is released and its slot is issued again, another handle is lost, and a visitor writes:
the handle to the slot that was used again reads what the visitor wrote. -/
theorem handles_refine_of_reuse :
    let object : Reference := ⟨5#64, by decide⟩
    let events : List Event :=
      [.create {}, .create {}, .allocate 1, .set 1 1 (some object), .allocate 1, .release 1 1,
        .allocate 1, .release 2 2, .beginPass 1 false .writable, .enter 1 .every, .advance,
        .advance, .store ⟨1, ⟨1, 0⟩, .writable⟩ (some object)]
    (({} : World).PermitsAll events ∧
      ∀ st ∈ ({} : World).trail events, st.before.Careful st.event) ∧
    content (({} : World).trail events) ⟨1, ⟨1, 0⟩⟩ = some object ∧
    (({} : World).afterAll events).HandlesRefine (({} : World).trail events) := by
  refine ⟨by decide +kernel, by decide +kernel, ?_⟩
  exact handles_refine (run_trail _ _ (by decide +kernel)) (by decide +kernel)

end World

end RootStore
