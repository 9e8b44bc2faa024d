import RootStore.Block

/-!
# Scanning a block

A scan visits the entries that were in use when it began, lowest index first.  The visitor sees the
block as it then is, may change it in any way and may stop the scan; what it allocates is not
visited, and what it releases still is.

* `Block.scan` — the scan, on the word of the snapshot.
* `Block.visitInOrder` — the same visits along a list of indices.
* `Block.scan_eq_visitInOrder` — **a scan goes through the snapshot's indices in ascending order.**
-/

namespace RootStore

namespace Mask

/-- Dropping the lowest bit makes the word smaller. -/
theorem dropLowest_lt {m : Mask} {i : SlotIndex} (h : m.lowest? = some i) :
    m.dropLowest.bits.toNat < m.bits.toNat := by
  have hne : m.bits ≠ 0 := by
    intro hz
    simp [lowest?, hz] at h
  have hpos : m.bits.toNat ≠ 0 := fun e => hne (BitVec.eq_of_toNat_eq (by simpa using e))
  have hsub : (m.bits - 1).toNat = m.bits.toNat - 1 := by
    have hlt := m.bits.isLt
    rw [BitVec.toNat_sub]
    simp only [BitVec.ofNat_eq_ofNat, BitVec.toNat_ofNat]
    omega
  have hle : m.bits.toNat &&& (m.bits.toNat - 1) ≤ m.bits.toNat - 1 := Nat.and_le_right
  simp only [dropLowest, BitVec.toNat_and, hsub]
  omega

/-- The indices in use are the lowest one, followed by those left when it is dropped. -/
theorem indices_eq_cons {m : Mask} {i : SlotIndex} (h : m.lowest? = some i) :
    m.indices = i :: m.dropLowest.indices := by
  obtain ⟨hit, below⟩ := lowest?_eq_some_iff.1 h
  have sorted : ∀ n : Mask, n.indices.Pairwise (· < ·) := fun n =>
    (List.pairwise_lt_finRange 64).filter _
  have memTail : ∀ j, j ∈ m.dropLowest.indices ↔ m.contains j = true ∧ j ≠ i := by
    intro j; simp [contains_dropLowest h]
  have above : ∀ j ∈ m.dropLowest.indices, i < j := by
    intro j hj
    obtain ⟨hmem, hne⟩ := (memTail j).1 hj
    rcases Nat.lt_trichotomy j.val i.val with hlt | heq | hgt
    · simp [below j hlt] at hmem
    · exact absurd (Fin.ext heq) hne
    · exact hgt
  refine @List.Perm.eq_of_pairwise _ (· < ·) _ _ ?_ (sorted m) ?_ ?_
  · intro a b _ _ hab hba
    exact absurd (Nat.lt_trans hab hba) (Nat.lt_irrefl _)
  · exact List.pairwise_cons.2 ⟨above, sorted _⟩
  · apply (List.perm_ext_iff_of_nodup ?_ ?_).2
    · intro a
      rw [List.mem_cons, mem_indices, memTail]
      by_cases e : a = i
      · subst e; simp [hit]
      · simp [e]
    · exact (sorted m).imp fun hab heq => by subst heq; exact Nat.lt_irrefl _ hab
    · refine List.nodup_cons.2 ⟨fun hmem => Nat.lt_irrefl _ (above i hmem), ?_⟩
      exact (sorted _).imp fun hab heq => by subst heq; exact Nat.lt_irrefl _ hab

end Mask

namespace Block

variable {σ : Type}

/-- A visitor of a block's entries: given an index, the block as it now is and its own state, it
answers with the block as it leaves it, its new state and whether the scan goes on. -/
abbrev Visitor (σ : Type) := SlotIndex → Block → σ → Block × σ × Bool

/-- Visits what is left of the snapshot `rest`, lowest index first, until the visitor stops. -/
def scanRest (visit : Visitor σ) (rest : Mask) (b : Block) (s : σ) : Block × σ × Bool :=
  match _h : rest.lowest? with
  | none => (b, s, true)
  | some i =>
      match visit i b s with
      | (b, s, false) => (b, s, false)
      | (b, s, true) => scanRest visit rest.dropLowest b s
  termination_by rest.bits.toNat
  decreasing_by exact Mask.dropLowest_lt _h

/-- Visits the entries in use now, lowest index first, until the visitor stops.  The answer's last
part tells whether the scan went to its end without being stopped. -/
def scan (visit : Visitor σ) (b : Block) (s : σ) : Block × σ × Bool := scanRest visit b.mask b s

/-- Visits the listed indices in order until the visitor stops. -/
def visitInOrder (visit : Visitor σ) : List SlotIndex → Block → σ → Block × σ × Bool
  | [], b, s => (b, s, true)
  | i :: rest, b, s =>
      match visit i b s with
      | (b, s, false) => (b, s, false)
      | (b, s, true) => visitInOrder visit rest b s

theorem scanRest_eq_visitInOrder (visit : Visitor σ) (rest : Mask) (b : Block) (s : σ) :
    scanRest visit rest b s = visitInOrder visit rest.indices b s := by
  fun_induction scanRest visit rest b s with
  | case1 rest b s h =>
      have : rest = Mask.empty := Mask.lowest?_eq_none_iff.1 h
      subst this
      simp [visitInOrder]
  | case2 rest b s i h b' s' hv => simp [Mask.indices_eq_cons h, visitInOrder, hv]
  | case3 rest b s i h b' s' hv ih => simp [Mask.indices_eq_cons h, visitInOrder, hv, ih]

/-- **A scan goes through the snapshot's indices in ascending order**, whatever the visitor does to
the block meanwhile. -/
theorem scan_eq_visitInOrder (visit : Visitor σ) (b : Block) (s : σ) :
    scan visit b s = visitInOrder visit b.mask.indices b s :=
  scanRest_eq_visitInOrder visit b.mask b s

end Block

end RootStore
