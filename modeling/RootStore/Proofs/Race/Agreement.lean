import RootStore.Proofs.Race.Alone
import RootStore.Script.Run

/-!
# Several workers give the sequential answer

What the workers of a pass see and do, put in order, does not depend on how many they are, who
claims which block and whose step comes first.  It is what a single-threaded iteration sees and
does, and so are the contents of all slots and the state of the pass afterwards.  So one iteration
can do the work of several workers where a script asks for them (`Script.iterateTogether`).

* `Log.merged` — what was done, in the order of the slots.
* `perm_of_recordedAt` — a list of records is given by those of every place.
* `Crew.Agrees` — a crew and an iteration have come to the same.
* `Crew.CarriesOut.merged_eq` — so have all crews that have carried out one plan.
* `Crew.workers_agree` — **several workers give the sequential answer**, whatever the order of their
  steps.
-/

namespace RootStore

variable {ι ι' ρ α : Type}

/-! ## The order of the slots -/

namespace Script

theorem placeLe_iff {a b : Place} :
    placeLe a b = true ↔ a.block < b.block ∨ a.block = b.block ∧ a.slot ≤ b.slot := by
  simp [placeLe]

theorem placeLe_trans {a b c : Place} (hab : placeLe a b = true) (hbc : placeLe b c = true) :
    placeLe a c = true := by
  rw [placeLe_iff] at hab hbc ⊢
  rcases hab with hab | ⟨hab, habs⟩ <;> rcases hbc with hbc | ⟨hbc, hbcs⟩
  · exact Or.inl (hab.trans hbc)
  · exact Or.inl (hbc ▸ hab)
  · exact Or.inl (hab ▸ hbc)
  · exact Or.inr ⟨hab.trans hbc, habs.trans hbcs⟩

theorem placeLe_total (a b : Place) : (placeLe a b || placeLe b a) = true := by
  rw [Bool.or_eq_true, placeLe_iff, placeLe_iff]
  rcases Nat.lt_trichotomy a.block b.block with hlt | heq | hgt
  · exact Or.inl (Or.inl hlt)
  · rcases le_total a.slot b.slot with hle | hle
    · exact Or.inl (Or.inr ⟨heq, hle⟩)
    · exact Or.inr (Or.inr ⟨heq.symm, hle⟩)
  · exact Or.inr (Or.inl hgt)

theorem placeLe_antisymm {a b : Place} (hab : placeLe a b = true) (hba : placeLe b a = true) :
    a = b := by
  rw [placeLe_iff] at hab hba
  rcases a with ⟨block, slot⟩
  rcases b with ⟨block', slot'⟩
  simp only at hab hba
  obtain rfl : block = block' := by omega
  have hslot : slot = slot' := by
    refine le_antisymm ?_ ?_
    · exact (hab.resolve_left (lt_irrefl _)).2
    · exact (hba.resolve_left (lt_irrefl _)).2
  rw [hslot]

end Script

/-- What was done, in the order of the slots and of the addresses. -/
def Log.merged (log : Log ρ) : Log ρ where
  visits := log.visits.mergeSort fun a b => Script.placeLe a.1 b.1
  asked := log.asked.mergeSort fun a b => a.address.toNat ≤ b.address.toNat

/-! ## Records by place -/

open Classical in
theorem count_recordedAt (records : List (Place × α)) (p : Place) (a : α) :
    (recordedAt records p).count a = records.count (p, a) := by
  induction records with
  | nil => rfl
  | cons r records ih =>
      unfold recordedAt at ih ⊢
      rw [List.filter_cons, List.count_cons]
      by_cases hp : r.1 = p
      · rw [if_pos (decide_eq_true hp), List.map_cons, List.count_cons, ih]
        congr 1
        simp [Prod.ext_iff, hp]
      · rw [if_neg (by simpa using hp), ih]
        simp [Prod.ext_iff, hp]

/-- A list of records is given by those of every place, but for the order. -/
theorem perm_of_recordedAt {records records' : List (Place × α)}
    (h : ∀ p, recordedAt records p = recordedAt records' p) : records.Perm records' := by
  classical
  refine List.perm_iff_count.2 fun r => ?_
  rw [← count_recordedAt records r.1 r.2, ← count_recordedAt records' r.1 r.2, h]

/-- Where a place has one record at most, records of one place are the same. -/
theorem eq_of_recordedAt {records : List (Place × α)} (h : ∀ p, (recordedAt records p).length ≤ 1)
    {r r' : Place × α} (hr : r ∈ records) (hr' : r' ∈ records) (hplace : r.1 = r'.1) : r = r' := by
  have hmem : ∀ {x : Place × α}, x ∈ records → x.1 = r.1 → x.2 ∈ recordedAt records r.1 :=
    fun hx heq =>
    List.mem_map.2 ⟨_, List.mem_filter.2 ⟨hx, decide_eq_true heq⟩, rfl⟩
  obtain ⟨a, ha⟩ : ∃ a, recordedAt records r.1 = [a] := by
    have hlen := h r.1
    have hpos := List.length_pos_of_mem (hmem hr rfl)
    exact List.length_eq_one_iff.1 (by omega)
  have h₁ := hmem hr rfl
  have h₂ := hmem hr' hplace.symm
  rw [ha, List.mem_singleton] at h₁ h₂
  exact Prod.ext hplace (h₁.trans h₂.symm)

/-- Logs with the same records are the same when they are put in order. -/
theorem Log.merged_eq {log log' : Log ρ} (hvisits : log.visits.Perm log'.visits)
    (hsingle : ∀ p, (recordedAt log.visits p).length ≤ 1) (hasked : log.asked.Perm log'.asked) :
    log.merged = log'.merged := by
  refine congrArg₂ Log.mk ?_ ?_
  · have hsorted :
      ∀ visits : List (Place × ρ), (visits.mergeSort fun a b => Script.placeLe a.1 b.1).Pairwise
        fun a b => Script.placeLe a.1 b.1 = true := by
      intro visits
      apply List.pairwise_mergeSort
      · exact fun a b c hab hbc => Script.placeLe_trans hab hbc
      · exact fun a b => Script.placeLe_total a.1 b.1
    refine List.Perm.eq_of_pairwise (fun r r' hr hr' hle hge => ?_) (hsorted _) (hsorted _)
      ((List.mergeSort_perm _ _).trans (hvisits.trans (List.mergeSort_perm _ _).symm))
    rw [List.mem_mergeSort] at hr hr'
    exact eq_of_recordedAt hsingle hr (hvisits.mem_iff.2 hr') (Script.placeLe_antisymm hle hge)
  · have hsorted : ∀ asked : List Reference,
        (asked.mergeSort fun a b => a.address.toNat ≤ b.address.toNat).Pairwise
          fun a b => decide (a.address.toNat ≤ b.address.toNat) = true := by
      intro asked
      apply List.pairwise_mergeSort
      · exact fun a b c hab hbc =>
          decide_eq_true ((of_decide_eq_true hab).trans (of_decide_eq_true hbc))
      · intro a b
        rw [Bool.or_eq_true, decide_eq_true_iff, decide_eq_true_iff]
        exact Nat.le_total _ _
    refine List.Perm.eq_of_pairwise (fun a b _ _ hle hge => ?_) (hsorted _) (hsorted _)
      ((List.mergeSort_perm _ _).trans (hasked.trans (List.mergeSort_perm _ _).symm))
    have haddress : a.address = b.address :=
      BitVec.eq_of_toNat_eq (Nat.le_antisymm (of_decide_eq_true hle) (of_decide_eq_true hge))
    rcases a with ⟨address, hne⟩
    rcases b with ⟨address', hne'⟩
    obtain rfl : address = address' := haddress
    rfl

/-! ## The sequential answer -/

namespace Crew

variable {job : Job ρ} {plan : Plan ρ} {cr : Crew ι ρ} {cr' : Crew ι' ρ}

/-- What the workers have come to, and what a single-threaded iteration has left and recorded. -/
structure Agrees (job : Job ρ) (cr : Crew ι ρ) (w : World) (log : Log ρ) : Prop where
  /-- The same entries were visited with the same results, and the same objects asked about. -/
  merged : cr.log.merged = log.merged
  /-- Every slot of every storage holds the same. -/
  load : ∀ e, cr.world.load e = w.load e
  /-- The pass stands where it does and has claimed as many blocks. -/
  pass : cr.world.passes.get? job.pass = w.passes.get? job.pass

/-- **Crews that have carried out one plan have come to the same**, whatever their sizes. -/
theorem CarriesOut.agrees (h : cr.CarriesOut job plan) (h' : cr'.CarriesOut job plan)
    (hsingle : ∀ p, (plan.outcome p).visits.length ≤ 1) : cr.Agrees job cr'.world cr'.log where
  merged := by
    refine Log.merged_eq (perm_of_recordedAt fun p => ?_) (fun p => ?_) ?_
    · show recordedAt cr.visits p = recordedAt cr'.visits p
      rw [h.visits, h'.visits]
    · show (recordedAt cr.visits p).length ≤ 1
      rw [h.visits]
      split
      · exact hsingle p
      · exact Nat.zero_le 1
    · refine List.Perm.map _ (perm_of_recordedAt fun p => ?_)
      rw [h.asked, h'.asked]
  load := fun e => by rw [h.load, h'.load]
  pass := by rw [h.pass, h'.pass]

/-- **Several workers give the sequential answer.**  An iteration of the pass by itself returns.
Whatever steps `n` workers take, in whatever order, none of them fails; when all are done they have
come to what the iteration has come to; and from wherever they are, they can all be done. -/
theorem workers_agree {n : Nat} {w : World} {q : Pass} (job : Job ρ) (hn : 0 < n) (hw : w.Reachable)
    (hq : w.passes.get? job.pass = some q) (hoffers : q.offers job.method = true) :
    ∃ w' log, w.iterate job.pass job.method job.visitor {} = (w', log, .returned) ∧
      ∀ schedule : List (Fin n), ∃ cr, (start w).play job schedule = .ok cr ∧
        (cr.Finished → cr.Agrees job w' log) ∧
        ∃ later cr', cr.play job later = .ok cr' ∧ cr'.Finished := by
  obtain ⟨plan, hsingle, hstart⟩ : ∃ plan : Plan ρ, (∀ p, (plan.outcome p).visits.length ≤ 1) ∧
      ∀ ι : Type, (start w : Crew ι ρ).OnPlan job plan := exists_plan hw.sound hq
  obtain ⟨alone, honplan, hfinished, hiterate⟩ := iterate_alone (hstart Unit) hw.sound hq hoffers
  refine ⟨alone.world, alone.log, hiterate, fun schedule => ?_⟩
  obtain ⟨cr, hplay, h⟩ := (hstart (Fin n)).play schedule
  refine ⟨cr, hplay, fun hdone => ?_, h.completed⟩
  have : Nonempty (Fin n) := ⟨⟨0, hn⟩⟩
  exact (h.finished hdone).agrees (honplan.finished hfinished) hsingle

/-- Entries are read, and moved on to another object where they may be written. -/
def moving (v : Reference) : Job (Option Reference) where
  pass := 1
  method := .alive
  alive object := object.address != 2#64
  handle e := match e.access with
    | .readOnly => .load .done
    | .writable => .load fun found => .store (some v) (.done found)
  reads := fun e he => by
    rw [he]
    exact fun _ => trivial

/-- Two workers move the entries of two blocks on, and one object is dead. -/
theorem workers_agree_on_two_blocks :
    let w := ({} : World).afterAll ([.create {}] ++ List.replicate 65 (.allocate 1) ++
      [.set 1 1 (some ⟨2, by decide⟩), .set 1 65 (some ⟨3, by decide⟩),
        .beginPass 1 false .writable])
    let q : Pass := { storage := 1, concurrent := false, access := .writable }
    let job := moving ⟨4, by decide⟩
    w.Reachable ∧ w.passes.get? job.pass = some q ∧ q.offers job.method = true ∧
    ∃ w' log, w.iterate job.pass job.method job.visitor {} = (w', log, .returned) ∧
      ∀ schedule : List (Fin 2), ∃ cr, (start w).play job schedule = .ok cr ∧
        (cr.Finished → cr.Agrees job w' log) ∧
        ∃ later cr', cr.play job later = .ok cr' ∧ cr'.Finished := by
  intro w q job
  have hw : w.Reachable := ⟨_, World.run_trail _ _ (by decide +kernel)⟩
  have hq : w.passes.get? job.pass = some q := by decide +kernel
  have hoffers : q.offers job.method = true := by decide
  exact ⟨hw, hq, hoffers, workers_agree job (by decide) hw hq hoffers⟩

end Crew

end RootStore
