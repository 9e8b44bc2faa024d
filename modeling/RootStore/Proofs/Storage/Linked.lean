import RootStore.Proofs.Sequences
import RootStore.Storage.Links

/-!
# The list of blocks as a list of numbers

A storage's blocks are chained by `next` and `prev`.  Here the chain is read as a plain list of
block numbers, newest first, and everything that changes the chain is described by what it does to
that list.

* `Storage.linked` — **the view**: the numbers met from the head on, following `next`.
* `Storage.Lists` — the chain spells a list: head, `next` and `prev` all agree with it.
* `Storage.Lists.linked_eq` — a chain spells at most one list, which is `linked`.
* `Storage.Lists.cons`, `Storage.Lists.erase`, `Storage.Lists.congr` — linking in front, unlinking,
  and changes that keep the links.
-/

namespace RootStore

namespace Storage

variable {s s' : Storage} {l : List Nat} {n : Nat}

/-- The numbers of the blocks met from a cursor on, following `next`, in at most so many steps. -/
def walk (s : Storage) : Nat → Option Nat → List Nat
  | 0, _ | _, none => []
  | k + 1, some n => n :: ((s.blocks.get? n).map fun b => s.walk k b.next).getD []

/-- The numbers of the linked blocks, newest first. -/
def linked (s : Storage) : List Nat := s.walk s.blocks.size s.head

/-- The chain spells the list `l`: it begins at the head, every block's `next` and `prev` are its
neighbours in the list, and older blocks have smaller numbers. -/
structure Lists (s : Storage) (l : List Nat) : Prop where
  /-- The list begins at the head. -/
  head_eq : s.head = l.head?
  /-- Every listed block is there and knows its neighbours. -/
  links : ∀ l₁ n l₂, l = l₁ ++ n :: l₂ →
    ∃ b, s.blocks.get? n = some b ∧ b.next = l₂.head? ∧ b.prev = l₁.getLast?
  /-- Newer blocks stand in front. -/
  sorted : l.Pairwise (· > ·)

namespace Lists

/-- A listed block is there. -/
theorem isSome (h : s.Lists l) (hn : n ∈ l) : ∃ b, s.blocks.get? n = some b := by
  obtain ⟨l₁, l₂, rfl⟩ := List.append_of_mem hn
  obtain ⟨b, hb, -⟩ := h.links l₁ n l₂ rfl
  exact ⟨b, hb⟩

theorem nodup (h : s.Lists l) : l.Nodup :=
  h.sorted.imp fun hab => Nat.ne_of_gt hab

/-- A listed number is one that was handed out. -/
theorem bounds (h : s.Lists l) (hn : n ∈ l) : 1 ≤ n ∧ n ≤ s.blocks.size := by
  obtain ⟨b, hb⟩ := h.isSome hn
  exact Registry.bounds_of_get?_eq_some hb

/-- The list is no longer than the count of the blocks ever linked. -/
theorem length_le (h : s.Lists l) : l.length ≤ s.blocks.size := by
  have hsub : l ⊆ List.range' 1 s.blocks.size := by
    intro n hn
    have := h.bounds hn
    rw [List.mem_range'_1]
    omega
  have hle := (h.nodup.subperm hsub).length_le
  rwa [List.length_range'] at hle

/-- A walk from a block of the list visits the rest of the list. -/
theorem walk_eq (h : s.Lists l) : ∀ (rest : List Nat) (k : Nat), rest <:+ l → rest.length ≤ k →
    s.walk k rest.head? = rest := by
  intro rest
  induction rest with
  | nil => intro k _ _; cases k <;> rfl
  | cons n rest ih =>
      intro k hsuf hk
      obtain ⟨l₁, hl⟩ := hsuf
      obtain ⟨b, hb, hnext, -⟩ := h.links l₁ n rest hl.symm
      obtain ⟨k, rfl⟩ : ∃ j, k = j + 1 := ⟨k - 1, by simp only [List.length_cons] at hk; omega⟩
      simp only [List.length_cons, Nat.add_le_add_iff_right] at hk
      have hrest : rest <:+ l := ⟨l₁ ++ [n], by rw [← hl]; simp⟩
      simp [walk, hb, hnext, ih k hrest hk]

/-- **The chain spells one list**, which is the one that following `next` yields. -/
theorem linked_eq (h : s.Lists l) : s.linked = l := by
  unfold linked
  rw [h.head_eq]
  exact h.walk_eq l _ (List.suffix_refl l) h.length_le

/-- Two blocks at different places of the list have different numbers. -/
theorem ne_of_behind (h : s.Lists l) (l₁ l₂ l₃ : List Nat) {m : Nat}
    (hl : l = l₁ ++ n :: l₂ ++ m :: l₃) : n ≠ m := by
  have hnd := h.nodup
  rw [hl, List.nodup_append] at hnd
  exact hnd.2.2 n (by simp) m List.mem_cons_self

/-- A change that keeps the head and every listed block's neighbours keeps the list. -/
theorem congr (h : s.Lists l) (hhead : s'.head = s.head)
    (hlinks : ∀ n ∈ l, ∀ b, s.blocks.get? n = some b →
      ∃ b', s'.blocks.get? n = some b' ∧ b'.next = b.next ∧ b'.prev = b.prev) :
    s'.Lists l where
  head_eq := by rw [hhead, h.head_eq]
  links := by
    intro l₁ n l₂ hl
    obtain ⟨b, hb, hnext, hprev⟩ := h.links l₁ n l₂ hl
    obtain ⟨b', hb', hnext', hprev'⟩ := hlinks n (by rw [hl]; simp) b hb
    exact ⟨b', hb', hnext'.trans hnext, hprev'.trans hprev⟩
  sorted := h.sorted

/-- **Linking in front.**  A new block that knows the old head as its older neighbour, and becomes
the newer neighbour of that head, puts its number in front of the list. -/
theorem cons (h : s.Lists l) {b : Block} (hhead : s'.head = some n) (hnew : ∀ m ∈ l, m < n)
    (hn : s'.blocks.get? n = some b) (hnext : b.next = s.head) (hprev : b.prev = none)
    (hold : ∀ m ∈ l, ∀ c, s.blocks.get? m = some c → s'.blocks.get? m =
      some { c with prev := if s.head = some m then some n else c.prev }) :
    s'.Lists (n :: l) where
  head_eq := hhead
  links := by
    intro l₁ m l₂ hl
    cases l₁ with
    | nil =>
        obtain ⟨rfl, rfl⟩ := List.cons.inj hl
        exact ⟨b, hn, hnext.trans h.head_eq, hprev⟩
    | cons x l₁ =>
        obtain ⟨rfl, rfl⟩ := List.cons.inj hl
        obtain ⟨c, hc, hcnext, hcprev⟩ := h.links l₁ m l₂ rfl
        refine ⟨_, hold m (by simp) c hc, hcnext, ?_⟩
        cases l₁ with
        | nil => simp [h.head_eq]
        | cons y l₁ =>
            have hym : y ≠ m := h.ne_of_behind [] l₁ l₂ rfl
            simp [h.head_eq, hym, hcprev, List.getLast?_cons_cons]
  sorted := List.pairwise_cons.2 ⟨hnew, h.sorted⟩

/-- **Unlinking.**  Where the neighbours of a block become neighbours of each other, and its older
neighbour becomes the head if it was the head, its number leaves the list. -/
theorem erase {l₁ l₂ : List Nat} (h : s.Lists (l₁ ++ n :: l₂))
    (hhead : s'.head = if l₁ = [] then l₂.head? else s.head)
    (hold : ∀ m, m ≠ n → ∀ c, s.blocks.get? m = some c → s'.blocks.get? m =
      some { c with
        next := if l₁.getLast? = some m then l₂.head? else c.next
        prev := if l₂.head? = some m then l₁.getLast? else c.prev }) :
    s'.Lists (l₁ ++ l₂) where
  head_eq := by
    rw [hhead, h.head_eq]
    cases l₁ <;> simp
  links := by
    intro m₁ m m₂ hl
    have hnd := h.nodup
    simp only [List.nodup_append, List.nodup_cons, List.mem_cons] at hnd
    obtain ⟨-, ⟨hn₂, -⟩, hdisj⟩ := hnd
    rcases split_append hl with ⟨t, rfl, rfl⟩ | ⟨t, rfl, rfl⟩
    · -- the block stands behind the one unlinked
      obtain ⟨c, hc, hcnext, hcprev⟩ := h.links (l₁ ++ n :: t) m m₂ (by simp)
      have hlast : l₁.getLast? ≠ some m := fun e =>
        hdisj m (List.mem_of_getLast? e) m (by simp) rfl
      refine ⟨_, hold m (fun e => hn₂ (by simp [e])) c hc, by simp [hlast, hcnext], ?_⟩
      cases t with
      | nil => simp
      | cons x t =>
          have hxm : x ≠ m := h.ne_of_behind (l₁ ++ [n]) t m₂ (by simp)
          simp [hxm, hcprev, List.getLast?_append]
    · -- the block stands before the one unlinked
      obtain ⟨c, hc, hcnext, hcprev⟩ := h.links m₁ m (t ++ n :: l₂) (by simp)
      have hfirst : l₂.head? ≠ some m := fun e =>
        hdisj m (by simp) m (Or.inr (List.mem_of_mem_head? e)) rfl
      refine ⟨_, hold m (fun e => hdisj m (by simp) n (Or.inl rfl) e) c hc, ?_, by
        simp [hfirst, hcprev]⟩
      cases t with
      | nil => simp
      | cons x t =>
          have hne : (x :: t).getLast? ≠ some m := fun e => by
            have hnd : (m₁ ++ m :: ((x :: t) ++ n :: l₂)).Nodup := by simpa using h.nodup
            have hm := (List.nodup_cons.1 (List.nodup_append.1 hnd).2.1).1
            exact hm (List.mem_append_left _ (List.mem_of_getLast? e))
          simp [List.getLast?_append, hne, hcnext]
  sorted := by
    refine h.sorted.sublist ?_
    exact List.Sublist.append_left (List.sublist_cons_self n l₂) l₁

end Lists

end Storage

end RootStore
