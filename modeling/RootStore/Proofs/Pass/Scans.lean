import RootStore.Block.Scan
import RootStore.Proofs.Pass.Pinned

/-!
# Claimed blocks are scanned once

An iteration scans the block that it has claimed along the snapshot taken with the claim.  No two
iterations of a pass scan the same block, so what is taken up in a block is an initial part of that
snapshot, and all of it unless the scan is still under way or a panic has cut it short.

* `World.scans` — the blocks that the iterations of a pass are scanning.
* `World.Scanning` — they are different, and were claimed.
* `World.Scanned` — **the invariant**: taken up so far, then still to be taken up, make up the
  snapshot.
-/

namespace RootStore

/-- The visitor or judge of an iteration that scans the block for the pass panics in the step. -/
def Step.Abandons (p n : Nat) (st : Step) : Prop :=
  st.event = .panic ∧ ∃ c k, st.before.calls.head? = some c ∧ c.pass = p ∧
    c.scanning = some k ∧ k.block = n

/-- The block that an iteration scans, if it is one of the pass. -/
def Call.scans? (p : Nat) (c : Call) : Option Nat :=
  if c.pass = p then c.scanning.map (·.block) else none

namespace World

variable {w w' : World} {e : Event} {r : Reply} {p n : Nat} {L C : List Nat} {steps : List Step}
  {m : Mask} {T : List SlotIndex}

/-- The blocks that the iterations of a pass are scanning. -/
def scans (p : Nat) (calls : List Call) : List Nat := calls.filterMap (·.scans? p)

/-- The slot of the block that an iteration of the pass takes up, if that is what happens. -/
def slot? (p n : Nat) (e : Event) (r : Reply) : Option SlotIndex :=
  (taken? p e r).bind fun place => if place.block = n then some place.slot else none

/-- The slots of a block that iterations of a pass take up in these steps, in order. -/
def slots (p n : Nat) (steps : List Step) : List SlotIndex :=
  steps.filterMap fun st => slot? p n st.event st.reply

theorem slots_snoc (st : Step) :
    slots p n (steps ++ [st]) = slots p n steps ++ (slot? p n st.event st.reply).toList := by
  unfold slots
  rw [List.filterMap_append]
  cases h : slot? p n st.event st.reply <;> simp [h]

theorem slot?_eq_none (h : taken? p e r = none) : slot? p n e r = none := by
  simp [slot?, h]

/-- A block that is scanned is scanned by some iteration. -/
theorem mem_scans {calls : List Call} : n ∈ scans p calls ↔
    ∃ c ∈ calls, c.pass = p ∧ ∃ k, c.scanning = some k ∧ k.block = n := by
  simp [scans, Call.scans?]

theorem scans_cons (c : Call) (outer : List Call) :
    scans p (c :: outer) = (c.scans? p).toList ++ scans p outer := by
  cases hc : c.scans? p <;> simp [scans, hc]

/-! ## No block is scanned twice at a time -/

/-- The iterations of a pass scan different blocks, all of them claimed. -/
structure Scanning (w : World) (p : Nat) (C : List Nat) : Prop where
  distinct : (scans p w.calls).Nodup
  claimed : ∀ n ∈ scans p w.calls, n ∈ C

/-- A claim adds a block that is not being scanned; nothing else adds one. -/
theorem Scanning.step (h : w.Scanning p C) (ht : Transition w e w' r)
    (hfresh : ∀ n, r.claim? p = some n → n ∉ C) : w'.Scanning p (C ++ (r.claim? p).toList) := by
  have hmono : ∀ {n}, n ∈ C → n ∈ C ++ (r.claim? p).toList := fun hn => List.mem_append_left _ hn
  -- it is enough that what is scanned is a part of what was scanned, or of that and a claimed block
  have hsub : (scans p w'.calls).Sublist (scans p w.calls) →
      w'.Scanning p (C ++ (r.claim? p).toList) :=
    fun hs => ⟨h.distinct.sublist hs, fun n hn => hmono (h.claimed n (hs.subset hn))⟩
  cases ht.calls_cases with
  | same hcalls' => exact hsub (by rw [hcalls'])
  | entered hcalls' hscan =>
      apply hsub
      rw [hcalls', scans_cons]
      simp [Call.scans?, hscan]
  | left hcalls hcalls' =>
      apply hsub
      rw [hcalls, hcalls', scans_cons]
      exact List.sublist_append_right _ _
  | judged hcalls hcalls' =>
      apply hsub
      rw [hcalls, hcalls', scans_cons, scans_cons]
      exact List.Sublist.refl _
  | offered hcalls hscan hslot hcalls' =>
      apply hsub
      rw [hcalls, hcalls', scans_cons, scans_cons]
      simp [Call.scans?, hscan]
  | @claimed c outer q s n b hcalls hq hs hb hdone hcalls' hreply =>
      have hd := h.distinct
      have hc := h.claimed
      rw [hcalls, scans_cons] at hd hc
      have hd' := (List.nodup_append.1 hd).2.1
      have hc' : ∀ k ∈ scans p outer, k ∈ C :=
        fun k hk => hc k (List.mem_append_right _ hk)
      by_cases hcp : c.pass = p
      · have hclaim : r.claim? p = some n := claim?_eq_some_iff.2 (by rw [hreply, hcp])
        have hnew : scans p w'.calls = n :: scans p outer := by
          rw [hcalls', scans_cons]
          simp [Call.scans?, hcp]
        rw [hclaim]
        constructor
        · rw [hnew, List.nodup_cons]
          exact ⟨fun hmem => hfresh n hclaim (hc' n hmem), hd'⟩
        · rw [hnew]
          intro k hk
          rcases List.mem_cons.1 hk with rfl | hmem
          · simp
          · exact List.mem_append_left _ (hc' k hmem)
      · have hnew : scans p w'.calls = scans p outer := by
          rw [hcalls', scans_cons]
          simp [Call.scans?, hcp]
        exact ⟨by rwa [hnew], fun k hk => hmono (hc' k (by rwa [hnew] at hk))⟩

/-! ## What is taken up in one block -/

/-- The slots `T` have been taken up in block `n`, whose snapshot was `m`: they are the first of it,
and the rest is what some iteration has left, or it is empty, or a panic has cut it off. -/
def Scanned (w : World) (p n : Nat) (m : Mask) (T : List SlotIndex) (abandoned : Prop) : Prop :=
  ∃ rest, m.indices = T ++ rest ∧
    ((∃ c ∈ w.calls, c.pass = p ∧ ∃ k, c.scanning = some k ∧ k.block = n ∧
        k.snapshot.indices = rest) ∨
      n ∉ scans p w.calls ∧ (rest = [] ∨ abandoned))

/-- The iteration that scans the block is the innermost one or not. -/
theorem innermost_cases {c : Call} {outer : List Call} {rest : List SlotIndex} {abandoned : Prop}
    (hcalls : w.calls = c :: outer) (hdistinct : (scans p w.calls).Nodup)
    (hstate : (∃ c ∈ w.calls, c.pass = p ∧ ∃ k, c.scanning = some k ∧ k.block = n ∧
        k.snapshot.indices = rest) ∨
      n ∉ scans p w.calls ∧ (rest = [] ∨ abandoned)) :
    (c.pass = p ∧ (∃ k, c.scanning = some k ∧ k.block = n ∧ k.snapshot.indices = rest) ∧
      n ∉ scans p outer) ∨
    (c.scans? p ≠ some n ∧ ((∃ d ∈ outer, d.pass = p ∧ ∃ k, d.scanning = some k ∧ k.block = n ∧
      k.snapshot.indices = rest) ∨
      n ∉ scans p outer ∧ (rest = [] ∨ abandoned))) := by
  rw [hcalls, scans_cons] at hdistinct
  obtain ⟨-, -, hdisj⟩ := List.nodup_append.1 hdistinct
  rcases hstate with ⟨d, hd, hdp, k, hk, hkn, hrest⟩ | ⟨hn, hend⟩
  · rw [hcalls] at hd
    rcases List.mem_cons.1 hd with rfl | hmem
    · refine Or.inl ⟨hdp, ⟨k, hk, hkn, hrest⟩, fun hmem => ?_⟩
      exact hdisj n (by simp [Call.scans?, hdp, hk, hkn]) n hmem rfl
    · refine Or.inr ⟨fun heq => ?_, Or.inl ⟨d, hmem, hdp, k, hk, hkn, hrest⟩⟩
      exact hdisj n (by simp [heq]) n (mem_scans.2 ⟨d, hmem, hdp, k, hk, hkn⟩) rfl
  · rw [hcalls, scans_cons, List.mem_append, not_or] at hn
    exact Or.inr ⟨fun heq => hn.1 (by simp [heq]), Or.inr ⟨hn.2, hend⟩⟩

/-- **What one event does** to a block that is not claimed again: the iteration that scans it takes
up the next slot of the snapshot or none. -/
theorem Scanned.step {abandoned : Prop} (h : w.Scanned p n m T abandoned)
    (hdistinct : (scans p w.calls).Nodup) (ht : Transition w e w' r)
    (hclaim : r.claim? p ≠ some n) :
    w'.Scanned p n m (T ++ (slot? p n e r).toList)
      (abandoned ∨ Step.Abandons p n ⟨w, e⟩) := by
  obtain ⟨rest, hm, hstate⟩ := h
  cases ht.calls_cases with
  | same hcalls' htaken =>
      rw [slot?_eq_none (htaken p)]
      refine ⟨rest, by simpa using hm, ?_⟩
      rw [hcalls']
      exact hstate.imp_right fun ⟨hn, hend⟩ => ⟨hn, hend.imp_right Or.inl⟩
  | @entered c hcalls' hscan htaken =>
      rw [slot?_eq_none (htaken p)]
      refine ⟨rest, by simpa using hm, ?_⟩
      rcases hstate with ⟨d, hd, hlive⟩ | ⟨hn, hend⟩
      · exact Or.inl ⟨d, by rw [hcalls']; exact List.mem_cons_of_mem _ hd, hlive⟩
      · refine Or.inr ⟨?_, hend.imp_right Or.inl⟩
        rw [hcalls', scans_cons]
        simpa [Call.scans?, hscan] using hn
  | @left c outer hcalls hcalls' hwhy htaken =>
      rw [slot?_eq_none (htaken p)]
      refine ⟨rest, by simpa using hm, ?_⟩
      rw [hcalls']
      rcases innermost_cases hcalls hdistinct hstate with
        ⟨hcp, ⟨k, hk, hkn, hrest⟩, hn⟩ | ⟨-, hlive | ⟨hn, hend⟩⟩
      · refine Or.inr ⟨hn, ?_⟩
        rcases hwhy with hpanic | hdone
        · exact Or.inr (Or.inr ⟨hpanic, c, k, by simp [hcalls], hcp, hk, hkn⟩)
        · rw [hdone k hk, Mask.indices_empty] at hrest
          exact Or.inl hrest.symm
      · exact Or.inl hlive
      · exact Or.inr ⟨hn, hend.imp_right Or.inl⟩
  | @judged c outer stage hcalls hcalls' htaken =>
      rw [slot?_eq_none (htaken p)]
      refine ⟨rest, by simpa using hm, ?_⟩
      have hscans : scans p w'.calls = scans p w.calls := by
        rw [hcalls, hcalls', scans_cons, scans_cons]
        rfl
      rw [hscans, hcalls']
      rcases hstate with ⟨d, hd, hlive⟩ | ⟨hn, hend⟩
      · rw [hcalls] at hd
        rcases List.mem_cons.1 hd with rfl | hmem
        · exact Or.inl ⟨_, List.mem_cons_self, hlive⟩
        · exact Or.inl ⟨d, List.mem_cons_of_mem _ hmem, hlive⟩
      · exact Or.inr ⟨hn, hend.imp_right Or.inl⟩
  | @offered c outer k slot stage hcalls hscan hslot hcalls' htaken =>
      have hslot? : slot? p n e r = if c.pass = p ∧ k.block = n then some slot else none := by
        by_cases hcp : c.pass = p <;> by_cases hkn : k.block = n <;> simp [slot?, htaken, hcp, hkn]
      have hscans : scans p w'.calls = (c.scans? p).toList ++ scans p outer := by
        rw [hcalls', scans_cons]
        simp [Call.scans?, hscan]
      rcases innermost_cases hcalls hdistinct hstate with
        ⟨hcp, ⟨k', hk', hkn, hrest⟩, hn⟩ | ⟨hne, hother⟩
      · obtain rfl := Option.some.inj (hscan.symm.trans hk')
        rw [hslot?, if_pos ⟨hcp, hkn⟩]
        rw [Mask.indices_eq_cons hslot] at hrest
        refine ⟨k.snapshot.dropLowest.indices, by simp [hm, ← hrest], Or.inl ?_⟩
        exact ⟨{ c with scanning := some { k with snapshot := k.snapshot.dropLowest }, stage },
          by rw [hcalls']; exact List.mem_cons_self, hcp, _, rfl, hkn, rfl⟩
      · have hnot : ¬ (c.pass = p ∧ k.block = n) := by
          rintro ⟨hcp, hkn⟩
          exact hne (by simp [Call.scans?, hcp, hscan, hkn])
        rw [hslot?, if_neg hnot]
        refine ⟨rest, by simpa using hm, ?_⟩
        rw [hscans]
        rcases hother with ⟨d, hd, hlive⟩ | ⟨hn, hend⟩
        · exact Or.inl ⟨d, by rw [hcalls']; exact List.mem_cons_of_mem _ hd, hlive⟩
        · refine Or.inr ⟨?_, hend.imp_right Or.inl⟩
          rw [List.mem_append, not_or]
          exact ⟨by simpa using hne, hn⟩
  | @claimed c outer q s n' b hcalls hq hs hb hdone hcalls' hreply htaken =>
      rw [slot?_eq_none (htaken p)]
      refine ⟨rest, by simpa using hm, ?_⟩
      have hscans : scans p w'.calls =
          (if c.pass = p then [n'] else []) ++ scans p outer := by
        rw [hcalls', scans_cons]
        by_cases hcp : c.pass = p <;> simp [Call.scans?, hcp]
      have hdiff : n ∉ if c.pass = p then [n'] else [] := by
        split
        · rename_i hcp
          intro hmem
          rw [List.mem_singleton.1 hmem] at hclaim
          exact hclaim (claim?_eq_some_iff.2 (by rw [hreply, hcp]))
        · simp
      rw [hscans, hcalls', List.mem_append, not_or]
      rcases innermost_cases hcalls hdistinct hstate with
        ⟨hcp, ⟨k, hk, hkn, hrest⟩, hn⟩ | ⟨-, ⟨d, hd, hlive⟩ | ⟨hn, hend⟩⟩
      · rw [hdone k hk, Mask.indices_empty] at hrest
        exact Or.inr ⟨⟨hdiff, hn⟩, Or.inl hrest.symm⟩
      · exact Or.inl ⟨d, List.mem_cons_of_mem _ hd, hlive⟩
      · exact Or.inr ⟨⟨hdiff, hn⟩, hend.imp_right Or.inl⟩

end World

end RootStore
