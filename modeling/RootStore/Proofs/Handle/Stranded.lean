import RootStore.Proofs.Handle.Null
import RootStore.Proofs.Handle.Refinement
import RootStore.Proofs.Pass.Once
import RootStore.Proofs.World.Memory

/-!
# What becomes of a lost handle's entry

A handle that is given back to a storage which did not issue it is gone, but its entry was not
released. Nobody can release it any more: as long as its own storage is there the entry stays in
use, its block stays linked, and passes go on visiting it.

* `World.Run.tenure_kept` — once given back, a handle is given back for good.
* `World.Run.visiting` — a pass is before its first iteration, or pinned and scanning.
* `World.ScansWith` — how a block is being scanned.
* `World.Stranded`, `World.Run.stranded` — **what is said of such an entry.**
-/

namespace RootStore

namespace World

variable {w w' : World} {e : Event} {r : Reply} {p n number : Nat} {h : Handle} {s : Storage}
  {steps : List Step} {method : Method}

/-- **What was given back is given back for good.** -/
theorem Run.tenure_kept {tenure : Tenure} (hrun : Run w steps w') (hw : w.Sound)
    (hnot : tenure ≠ .held) (hh : w.handles.get? number = some { handle := h, tenure }) :
    w'.handles.get? number = some { handle := h, tenure } := by
  induction hrun with
  | nil => exact hh
  | snoc e hrun hp ih =>
      have ht := (hrun.sound hw).transition hp
      obtain ⟨tenure', hkept⟩ := ht.handle_kept ih
      obtain ⟨h', hspent⟩ := (ht.tenure hnot number).2 (Or.inl ⟨h, ih⟩)
      obtain rfl := (Issued.mk.inj (Option.some.inj (hkept.symm.trans hspent))).2
      exact hkept

/-! ## How far a pass is -/

/-- **A pass has not been iterated yet, or it is pinned** and its iterations scan different
blocks. -/
theorem Run.visiting (hrun : Run {} steps w) (hp : p ≤ w.passes.size) :
    w.Unstarted p ∨ ∃ L C, w.Visiting p L C := by
  generalize hinit : ({} : World) = w₀ at hrun
  induction hrun with
  | nil =>
      subst hinit
      exact Or.inl ⟨hp, by simp⟩
  | @snoc w₁ steps e hrun hpermits ih =>
      subst hinit
      have hw := hrun.sound .init
      have ht := hw.transition hpermits
      by_cases hold : p ≤ w₁.passes.size
      · rcases ih hold with hunstarted | ⟨L, C, hvisiting⟩
        · by_cases henter : Step.Enters p ⟨w₁, e⟩
          · have hbefore : (Step.mk w₁ e).before.Unstarted p := hunstarted
            obtain ⟨q, s, -, -, hvisiting⟩ := hbefore.visiting hw hpermits henter
            exact Or.inr ⟨_, _, hvisiting⟩
          · exact Or.inl (hunstarted.step hw ht henter).1
        · exact Or.inr ⟨_, _, hvisiting.step hw ht⟩
      · -- the pass has begun in this step
        suffices hbegan : (Step.mk w₁ e).reply = .began p from
          Or.inl (unstarted_of_began hw hpermits hbegan)
        change (w₁.perform e).2 = _
        generalize (w₁.perform e).1 = w₂ at ht hp
        generalize (w₁.perform e).2 = r at ht
        cases ht with
        | began =>
            have hsize : p ≤ w₁.passes.size + 1 := by simpa [World.record] using hp
            rw [show w₁.passes.size + 1 = p by omega]
        | _ =>
            refine absurd ?_ hold
            simpa [World.create, World.setStorage, World.setPass, World.record,
              World.spend] using hp

/-! ## How a block is being scanned -/

/-- Iterations of the pass scan the block with this method. -/
def ScansWith (w : World) (p n : Nat) (method : Method) : Prop :=
  ∀ c ∈ w.calls, c.scans? p = some n → c.method = method

/-- It stays the same until the block is claimed again. -/
theorem ScansWith.step (hscans : w.ScansWith p n method) (ht : Transition w e w' r)
    (hclaim : r.claim? p ≠ some n) : w'.ScansWith p n method := by
  cases ht.calls_cases with
  | same hcalls' => rwa [ScansWith, hcalls']
  | @entered c hcalls' hscan =>
      intro d hd hdn
      rw [hcalls'] at hd
      rcases List.mem_cons.1 hd with rfl | hd
      · simp [Call.scans?, hscan] at hdn
      · exact hscans d hd hdn
  | left hcalls hcalls' =>
      intro d hd hdn
      rw [hcalls'] at hd
      exact hscans d (by rw [hcalls]; exact List.mem_cons_of_mem _ hd) hdn
  | @judged c outer stage hcalls hcalls' =>
      intro d hd hdn
      rw [hcalls'] at hd
      rcases List.mem_cons.1 hd with rfl | hd
      · exact hscans c (by simp [hcalls]) hdn
      · exact hscans d (by rw [hcalls]; exact List.mem_cons_of_mem _ hd) hdn
  | @offered c outer k slot stage hcalls hscan hslot hcalls' =>
      intro d hd hdn
      rw [hcalls'] at hd
      rcases List.mem_cons.1 hd with rfl | hd
      · exact hscans c (by simp [hcalls]) (by simpa [Call.scans?, hscan] using hdn)
      · exact hscans d (by rw [hcalls]; exact List.mem_cons_of_mem _ hd) hdn
  | @claimed c outer q s n' b hcalls hq hs hb hdone hcalls' hreply =>
      intro d hd hdn
      rw [hcalls'] at hd
      rcases List.mem_cons.1 hd with rfl | hd
      · -- the block that is claimed is another one
        simp only [Call.scans?, Option.map_some, Option.ite_none_right_eq_some,
          Option.some.injEq] at hdn
        obtain ⟨hcp, rfl⟩ := hdn
        exact absurd (claim?_eq_some_iff.2 (by rw [hreply, hcp])) hclaim
      · exact hscans d (by rw [hcalls]; exact List.mem_cons_of_mem _ hd) hdn

/-- An iteration that visits every entry hands out the one that it takes up. -/
theorem ScansWith.visiting {i : SlotIndex} (hscans : w.ScansWith p n .every)
    (ht : Transition w e w' r) (hslot : slot? p n e r = some i) :
    ∃ q, w.passes.get? p = some q ∧
      r = .progressed p (.visiting ⟨q.storage, ⟨n, i⟩, q.access⟩) := by
  cases ht with
  | @offered c outer q s k slot v hcalls hq hs hscan hlowest hload =>
      have htaken : taken? p .advance (.progressed c.pass
          (Progress.offer c.method ⟨q.storage, ⟨k.block, slot⟩, q.access⟩ v)) =
          if c.pass = p then some ⟨k.block, slot⟩ else none := by
        rcases hm : c.method <;> rcases v <;> simp [taken?, Progress.offer, Progress.entry?]
      by_cases hcp : c.pass = p
      · rw [slot?, htaken, if_pos hcp] at hslot
        simp only [Option.bind_some, Option.ite_none_right_eq_some, Option.some.injEq] at hslot
        obtain ⟨hkn, rfl⟩ := hslot
        have hmethod : c.method = .every :=
          hscans c (by simp [hcalls]) (by simp [Call.scans?, hcp, hscan, hkn])
        subst hcp
        exact ⟨q, hq, by rw [hmethod, ← hkn]; rfl⟩
      · simp [slot?, htaken, hcp] at hslot
  | @failed e => cases e <;> simp [slot?, taken?] at hslot
  | _ => simp [slot?, taken?, Progress.entry?] at hslot

/-- It stays the same in a run, since no block is claimed twice. -/
theorem ScansWith.run {L C : List Nat} (hscans : w.ScansWith p n method) (hv : w.Visiting p L C)
    (hn : n ∈ C) (hw : w.Sound) (hrun : Run w steps w') : w'.ScansWith p n method := by
  induction hrun with
  | nil => exact hscans
  | @snoc w₁ steps e hrun hp ih =>
      have hw₁ := hrun.sound hw
      have ht := hw₁.transition hp
      exact ih.step ht fun hclaim =>
        (hv.run hw hrun).fresh hw₁ ht hclaim (List.mem_append_left _ hn)

/-- The iteration that claims a block is the only one that scans it. -/
theorem scansWith_of_claim {st : Step} {L C : List Nat} {c : Call} (hv : st.after.Visiting p L C)
    (hw : st.before.Sound) (hp : st.before.Permits st.event) (hclaim : st.reply.claim? p = some n)
    (hhead : st.before.calls.head? = some c) : st.after.ScansWith p n c.method := by
  have ht := hw.transition hp
  change Transition st.before st.event st.after st.reply at ht
  have hdistinct := hv.distinct
  generalize st.after = w' at ht hdistinct ⊢
  generalize st.reply = r at ht hclaim
  generalize st.event = e at ht
  cases ht with
  | @claimed c' outer q s n' b hcalls hq hs hdone hcursor hb =>
      obtain rfl : c' = c := by simpa [hcalls] using hhead
      have hnew := claim?_eq_some_iff.1 hclaim
      simp only [Reply.progressed.injEq, Progress.claimed.injEq] at hnew
      obtain ⟨hcp, rfl⟩ := hnew
      intro d hd hdn
      rcases List.mem_cons.1 hd with rfl | hd
      · rfl
      · -- no two iterations of the pass scan the same block
        rw [scans_cons] at hdistinct
        have hmem : n' ∈ scans p outer := List.mem_filterMap.2 ⟨d, hd, hdn⟩
        exact absurd rfl ((List.nodup_append.1 hdistinct).2.2 n'
          (by simp [Call.scans?, hcp]) n' hmem)
  | @offered c' outer q' s k slot v =>
      rcases hm : c'.method <;> rcases v <;> simp [Reply.claim?, Progress.offer, hm] at hclaim
  | _ => simp [Reply.claim?] at hclaim

/-- A pass that has claimed a block is pinned, and the block is among those that it has claimed. -/
theorem Run.visiting_of_claim {before : List Step} {st : Step} {q : Pass}
    (hrun : Run {} before st.before) (hp : st.before.Permits st.event)
    (hq : st.before.passes.get? p = some q) (hclaim : st.reply.claim? p = some n) :
    ∃ L C, st.after.Visiting p L C ∧ n ∈ C := by
  have hw := hrun.sound .init
  have ht := hw.transition hp
  change Transition st.before st.event st.after st.reply at ht
  rcases hrun.visiting (Registry.bounds_of_get?_eq_some hq).2 with hunstarted | ⟨L, C, hv⟩
  · -- one that has not been iterated yet claims nothing
    have hnot : ¬ Step.Enters p ⟨st.before, st.event⟩ := by
      rintro ⟨-, hdone⟩
      change st.reply = .done at hdone
      simp [hdone, Reply.claim?] at hclaim
    have hnone := (hunstarted.step hw ht hnot).2
    rw [hclaim] at hnone
    cases hnone
  · exact ⟨L, _, hv.step hw ht, by simp [hclaim]⟩

/-- **A scan that is completed has taken up every entry that was in use** when its block was
claimed. -/
theorem Run.taken_up {before rest : List Step} {st : Step} {q : Pass} {i : SlotIndex}
    (hrun : Run {} (before ++ st :: rest) w) (hq : st.before.passes.get? p = some q)
    (hclaim : st.reply.claim? p = some n) (hs : st.before.storages.get? q.storage = some s)
    (hin : s.InUse ⟨n, i⟩) (hcomplete : n ∉ scans p w.calls)
    (hundisturbed : ∀ st' ∈ rest, ¬ st'.Abandons p n) : i ∈ slots p n rest := by
  obtain ⟨hbefore, hp, hafter⟩ := hrun.split
  have hw := hbefore.sound .init
  have hw' : st.after.Sound := (hw.transition hp).sound hw
  obtain ⟨L, C, hv, hn⟩ := hbefore.visiting_of_claim hp hq hclaim
  obtain ⟨s', b, hs', hb, hscanned⟩ := scanned_of_claim hw hp hq hclaim
  obtain rfl := Option.some.inj (hs.symm.trans hs')
  obtain ⟨left, hindices, hstate⟩ := hscanned.run hv hn hw' hafter
  have hnil : left = [] := by
    rcases hstate with ⟨d, hd, hdp, k, hk, hkn, -⟩ | ⟨-, hnil | ⟨st', hst', habandons⟩⟩
    · exact absurd (mem_scans.2 ⟨d, hd, hdp, k, hk, hkn⟩) hcomplete
    · exact hnil
    · exact absurd habandons (hundisturbed st' hst')
  obtain ⟨b', hb', hi⟩ := hin
  obtain rfl := Option.some.inj (hb.symm.trans hb')
  rw [hnil, List.nil_append, List.append_nil] at hindices
  rw [← hindices, Mask.mem_indices]
  exact hi

/-- **It has handed them out**, if its iteration visits every entry. -/
theorem Run.visits_in_use {before rest : List Step} {st : Step} {q : Pass} {c : Call}
    {i : SlotIndex} (hrun : Run {} (before ++ st :: rest) w) (hq : st.before.passes.get? p = some q)
    (hclaim : st.reply.claim? p = some n) (hhead : st.before.calls.head? = some c)
    (hmethod : c.method = .every) (hs : st.before.storages.get? q.storage = some s)
    (hin : s.InUse ⟨n, i⟩) (hcomplete : n ∉ scans p w.calls)
    (hundisturbed : ∀ st' ∈ rest, ¬ st'.Abandons p n) :
    ∃ st' ∈ rest, ∃ access, st'.reply = .progressed p (.visiting ⟨q.storage, ⟨n, i⟩, access⟩) := by
  have hmem := hrun.taken_up hq hclaim hs hin hcomplete hundisturbed
  obtain ⟨st', hst', hslot⟩ := List.mem_filterMap.1 hmem
  obtain ⟨hbefore, hp, hafter⟩ := hrun.split
  have hw := hbefore.sound .init
  have hw' : st.after.Sound := (hw.transition hp).sound hw
  obtain ⟨L, C, hv, hn⟩ := hbefore.visiting_of_claim hp hq hclaim
  obtain ⟨l₁, l₂, rfl⟩ := List.append_of_mem hst'
  obtain ⟨hrun₁, hp', -⟩ := hafter.split
  have hscans : st'.before.ScansWith p n .every :=
    hmethod ▸ (scansWith_of_claim hv hw hp hclaim hhead).run hv hn hw' hrun₁
  obtain ⟨q', hq', hreply⟩ := hscans.visiting ((hrun₁.sound hw').transition hp') hslot
  have hrun₂ := (Run.snoc st.event (.nil _) hp).append hrun₁
  obtain ⟨q₁, hq₁, hstorage⟩ :=
    hrun₂.pass_before hw (Registry.bounds_of_get?_eq_some hq).2 hq'
  obtain rfl := Option.some.inj (hq.symm.trans hq₁)
  exact ⟨st', hst', q'.access, by rw [hstorage]; exact hreply⟩

/-! ## The entry of a lost handle -/

/-- A storage is there until it is dropped. -/
theorem Run.storage_there {id : Nat} (hrun : Run w steps w') (hw : w.Sound)
    (hthere : ∃ s, w.storages.get? id = some s) (hkept : ∀ st ∈ steps, ¬ st.Drops id) :
    ∃ s, w'.storages.get? id = some s := by
  induction hrun with
  | nil => exact hthere
  | @snoc w₁ steps e hrun hp ih =>
      obtain ⟨s, hs⟩ := ih fun st hst => hkept st (by simp [hst])
      have ht := (hrun.sound hw).transition hp
      rcases ht.storages.forth id s hs with hs' | ⟨rfl, -⟩
      · exact hs'
      · have hnot : (w₁.perform (.drop id)).2 ≠ .done := fun hdone =>
          hkept ⟨w₁, .drop id⟩ (by simp) ⟨rfl, hdone⟩
        generalize (w₁.perform (.drop id)).1 = w₂ at ht ⊢
        generalize (w₁.perform (.drop id)).2 = r at ht hnot
        cases ht with
        | failed => exact ⟨s, hs⟩
        | dropped => exact absurd rfl hnot

/-- A storage that is asked to be dropped and is there is dropped. -/
theorem drops_of_holds {id : Nat} {st : Step} (hw : st.before.Sound) (hevent : st.event = .drop id)
    (hholds : st.before.Holds id n) : st.Drops id := by
  obtain ⟨s, hs, -⟩ := hholds
  obtain ⟨s', hdispose, -⟩ := (hw.storages id s hs).2.dispose
  refine ⟨hevent, ?_⟩
  simp [Step.reply, hevent, perform, act, Except.map, World.drop,
    storage_of_some (Option.mem_def.1 hs), hdispose, Failure.ofFault, bind, Except.bind, pure,
    Except.pure]

/-- **What becomes of the entry of a lost handle**: `w'` is the world in which it was lost, by the
last of the steps `before`, and `w` the one that the steps `later` have led to. -/
structure Stranded (number : Nat) (h : Handle) (before later : List Step)
    (w' w : World) : Prop where
  /-- The handle stays lost. -/
  lost : w.handles.get? number = some { handle := h, tenure := .lost }
  /-- Until its storage is dropped the entry stays in use, and its block linked. -/
  in_use : (∃ s, w'.storages.get? h.owner = some s) → (∀ st ∈ later, ¬ st.Drops h.owner) →
    ∃ s, w.storages.get? h.owner = some s ∧ s.InUse h.place ∧ h.place.block ∈ s.linked
  /-- The block is never freed but when the storage is dropped. -/
  not_freed : ∀ st ∈ later, st.Frees h.owner h.place.block → st.Drops h.owner
  /-- An iteration that visits every entry hands it out if it completes the scan of the block.  So
  does one that had claimed the block before the handle was lost, if the handle had been issued by
  then. -/
  handed_out : ∀ (earlier : List Step) (st : Step) (rest : List Step) (p : Nat) (q : Pass)
    (c : Call)
      (i : Issued), before ++ later = earlier ++ st :: rest →
    st.before.handles.get? number = some i → st.before.passes.get? p = some q →
    q.storage = h.owner → st.reply.claim? p = some h.place.block →
    st.before.calls.head? = some c → c.method = .every →
    h.place.block ∉ scans p w.calls → (∀ st' ∈ rest, ¬ st'.Abandons p h.place.block) →
    ∃ st' ∈ rest, ∃ access, st'.reply = .progressed p (.visiting ⟨h.owner, h.place, access⟩)

/-- **A lost handle strands its entry**: it stays in use, and passes go on visiting it. -/
theorem Run.stranded {before later : List Step} (hbefore : Run {} before w)
    (hlost : w.handles.get? number = some { handle := h, tenure := .lost })
    (hlater : Run w later w') :
    Stranded number h before later w w' := by
  have hw := hbefore.sound .init
  have hkept := hlater.tenure_kept hw (by simp) hlost
  have hrun := hbefore.append hlater
  have hw' := hrun.sound .init
  have hthere : ∀ {v : World} {s : Storage}, v.Sound →
      v.handles.get? number = some { handle := h, tenure := .lost } →
      v.storages.get? h.owner = some s → s.InUse h.place ∧ h.place.block ∈ s.linked := by
    intro v s hv hh hs
    obtain ⟨b, hb, hi⟩ := hv.inUse number _ s hh (by simp) hs
    exact ⟨⟨b, hb, hi⟩, (hv.storages _ s hs).2.mem_linked _ b hb⟩
  refine ⟨hkept, fun hhere hnot => ?_, fun st hst hfrees => ?_, ?_⟩
  · obtain ⟨s, hs⟩ := hlater.storage_there hw hhere hnot
    exact ⟨s, hs, hthere hw' hkept hs⟩
  · obtain ⟨l₁, l₂, rfl⟩ := List.append_of_mem hst
    obtain ⟨hrun₁, hp, -⟩ := hlater.split
    have hw₁ := hrun₁.sound hw
    have hstep : Run w (l₁ ++ [st]) st.after := .snoc st.event hrun₁ hp
    by_cases hevent : st.event = .drop h.owner
    · exact drops_of_holds hw₁ hevent hfrees.1
    · obtain ⟨hholds, hgone⟩ := (frees_of_not_drop hw₁ hp hevent).1 hfrees
      obtain ⟨s, hs, -⟩ := hholds
      obtain ⟨s', hs'⟩ :=
        ((hw₁.transition hp).storages.forth _ s hs).resolve_right fun h => hevent h.1
      obtain ⟨⟨b, hb, -⟩, -⟩ := hthere (hstep.sound hw) (hstep.tenure_kept hw (by simp) hlost) hs'
      exact absurd ⟨s', hs', b, hb⟩ hgone
  · intro earlier st rest p q c i hall hissued hq hstorage hclaim hhead hmethod hcomplete
      hundisturbed
    rw [hall] at hrun
    obtain ⟨hrun₁, hp, hrun₂⟩ := hrun.split
    have hw₁ := hrun₁.sound .init
    have hall' := (Run.snoc st.event (.nil _) hp).append hrun₂
    -- the handle was not yet given back to its own storage, since it never was
    obtain ⟨h', tenure⟩ := i
    have hnot : tenure ≠ .released := by
      rintro rfl
      have hreleased := hall'.tenure_kept hw₁ (by simp) hissued
      simp [hkept] at hreleased
    obtain ⟨tenure', hsame⟩ := hall'.handle_kept hw₁ hissued
    obtain rfl : h' = h := by
      rw [hkept] at hsame
      exact (Issued.mk.inj (Option.some.inj hsame)).1.symm
    obtain ⟨s, hs, -⟩ := hw₁.passes p q hq
    have hin := hw₁.inUse number _ s hissued hnot (by rw [← hstorage]; exact hs)
    obtain ⟨st', hst', access, hreply⟩ :=
      hrun.visits_in_use hq hclaim hhead hmethod hs hin hcomplete hundisturbed
    exact ⟨st', hst', access, by rw [hreply, hstorage]⟩

end World

end RootStore
