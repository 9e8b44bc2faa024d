import RootStore.Proofs.Storage.Balance

/-!
# The entries of a storage in order

A pass meets the entries of a storage block by block from the newest on, and in each block in
ascending order.  Writing a slot changes nothing of this order, nor anything else but the slot.

* `Storage.places` — **the entries in use, in the order in which a pass meets them.**
* `Storage.weakEntries` — those of them that do not hold null, with their objects.
* `Storage.Retouched` — at most the contents of slots are different.
* `Storage.retouched_of_store`, `Storage.store_of_load` — writing a slot.
-/

namespace RootStore

/-- A block without what its slots hold. -/
def Block.bare (b : Block) : Block := { b with slots := Vector.replicate 64 none }

@[simp] theorem Block.bare_store (b : Block) (i : SlotIndex) (v : Option Reference) :
    (b.store i v).bare = b.bare := rfl

theorem Block.store_load (b : Block) (i : SlotIndex) : b.store i (b.load i) = b := by
  simp [store, load]

namespace Storage

variable {s s' s₁ s₂ : Storage} {n : Nat} {p : Place} {v : Option Reference} {object : Reference}

/-! ## Places -/

/-- The entries in use of a block, in ascending order. -/
def placesAt (s : Storage) (n : Nat) : List Place :=
  (((s.blocks.get? n).map (·.mask.indices)).getD []).map fun i => ⟨n, i⟩

/-- **The entries in use**, block by block from the newest on and in ascending order in each. -/
def places (s : Storage) : List Place := s.linked.flatMap s.placesAt

theorem mem_placesAt : p ∈ s.placesAt n ↔ p.block = n ∧ s.InUse p := by
  rcases hb : s.blocks.get? n with _ | b
  · simp only [placesAt, hb]
    constructor
    · simp
    · rintro ⟨rfl, b, hb', -⟩
      simp [hb] at hb'
  · simp only [placesAt, hb, Option.map_some, Option.getD_some, List.mem_map, Mask.mem_indices]
    constructor
    · rintro ⟨i, hi, rfl⟩
      exact ⟨rfl, b, hb, hi⟩
    · rintro ⟨rfl, b', hb', hi⟩
      obtain rfl := Option.some.inj (hb.symm.trans hb')
      exact ⟨p.slot, hi, rfl⟩

theorem length_placesAt_le (s : Storage) (n : Nat) : (s.placesAt n).length ≤ blockSize := by
  rcases hb : s.blocks.get? n with _ | b
  · simp [placesAt, hb]
  · simpa [placesAt, hb] using b.mask.length_indices_le

theorem nodup_placesAt (s : Storage) (n : Nat) : (s.placesAt n).Nodup := by
  refine List.Nodup.map (fun i j h => (Place.mk.inj h).2) ?_
  rcases s.blocks.get? n with _ | b
  · exact List.nodup_nil
  · exact b.mask.nodup_indices

/-- **They are the entries in use.** -/
theorem Sound.mem_places (h : s.Sound) : p ∈ s.places ↔ s.InUse p := by
  simp only [places, List.mem_flatMap, mem_placesAt]
  constructor
  · rintro ⟨n, -, -, hp⟩
    exact hp
  · intro hp
    have ⟨b, hb, _⟩ := hp
    exact ⟨p.block, h.mem_linked _ b hb, rfl, hp⟩

/-- None comes twice. -/
theorem Sound.nodup_places (h : s.Sound) : s.places.Nodup := by
  refine List.nodup_flatMap.2 ⟨fun n _ => s.nodup_placesAt n, h.lists.nodup.imp fun hne => ?_⟩
  intro p hp hp'
  exact hne ((mem_placesAt.1 hp).1.symm.trans (mem_placesAt.1 hp').1)

/-- No block has more entries than slots. -/
theorem length_places_le (s : Storage) : s.places.length ≤ blockSize * s.linked.length := by
  rw [places, List.length_flatMap, Nat.mul_comm, ← smul_eq_mul,
    ← List.length_map (s.placesAt · |>.length)]
  refine List.sum_le_card_nsmul _ _ fun k hk => ?_
  obtain ⟨n, -, rfl⟩ := List.mem_map.1 hk
  exact s.length_placesAt_le n

/-- The object that an entry holds, if it does not hold null. -/
def object? (s : Storage) (p : Place) : Option Reference := (s.load p).toOption.join

theorem object?_of_load (h : s.load p = .ok v) : s.object? p = v := by
  simp [object?, h, Except.toOption]

/-- Those of some entries that do not hold null, with their objects. -/
def weakIn (s : Storage) (places : List Place) : List (Place × Reference) :=
  places.filterMap fun p => (s.object? p).map fun object => (p, object)

/-- **The entries in use that do not hold null**, with their objects, in the order of `places`. -/
def weakEntries (s : Storage) : List (Place × Reference) := s.weakIn s.places

theorem weakIn_cons_of_null {places : List Place} (hload : s.load p = .ok none) :
    s.weakIn (p :: places) = s.weakIn places := by
  simp [weakIn, object?_of_load hload]

theorem weakIn_cons_of_object {places : List Place} (hload : s.load p = .ok (some object)) :
    s.weakIn (p :: places) = (p, object) :: s.weakIn places := by
  simp [weakIn, object?_of_load hload]

theorem weakIn_congr {places : List Place} (h : ∀ p ∈ places, s'.load p = s.load p) :
    s'.weakIn places = s.weakIn places :=
  List.filterMap_congr fun p hp => by rw [object?, object?, h p hp]

/-- They are the entries in use that hold an object. -/
theorem Sound.mem_weakEntries (h : s.Sound) :
    (p, object) ∈ s.weakEntries ↔ s.InUse p ∧ s.load p = .ok (some object) := by
  simp only [weakEntries, weakIn, List.mem_filterMap, Option.map_eq_some_iff, Prod.mk.injEq,
    h.mem_places]
  constructor
  · rintro ⟨p', hp, object', hobject, rfl, rfl⟩
    obtain ⟨v, hv⟩ := hp.load
    rw [object?_of_load hv] at hobject
    exact ⟨hp, by rw [hv, hobject]⟩
  · rintro ⟨hp, hload⟩
    exact ⟨p, hp, object, object?_of_load hload, rfl, rfl⟩

/-! ## Writing slots -/

/-- **At most the contents of slots are different**: which entries are in use, the list, the queue
and the counts are the same. -/
structure Retouched (s s' : Storage) : Prop where
  rest : s' = { s with blocks := s'.blocks }
  size_eq : s'.blocks.size = s.blocks.size
  bare_eq : ∀ n, (s'.blocks.get? n).map Block.bare = (s.blocks.get? n).map Block.bare

namespace Retouched

theorem refl (s : Storage) : s.Retouched s := ⟨rfl, rfl, fun _ => rfl⟩

theorem trans (h₁ : s.Retouched s₁) (h₂ : s₁.Retouched s₂) : s.Retouched s₂ where
  rest := by rw [h₂.rest, h₁.rest]
  size_eq := h₂.size_eq.trans h₁.size_eq
  bare_eq := fun n => (h₂.bare_eq n).trans (h₁.bare_eq n)

/-- Whatever of a block is not the content of a slot is the same. -/
theorem map_eq {α : Type} (h : s.Retouched s') {f : Block → α} (hf : ∀ b : Block, f b.bare = f b)
    (n : Nat) : (s'.blocks.get? n).map f = (s.blocks.get? n).map f := by
  have heq := congrArg (Option.map f) (h.bare_eq n)
  simpa only [Option.map_map, Function.comp_def, hf] using heq

theorem placesAt_eq (h : s.Retouched s') : s'.placesAt = s.placesAt :=
  funext fun n => by rw [placesAt, placesAt, h.map_eq (fun _ => rfl)]

theorem linked_eq (h : s.Retouched s') : s'.linked = s.linked := by
  have hwalk : ∀ (k : Nat) (c : Option Nat), s'.walk k c = s.walk k c := by
    intro k
    induction k with
    | zero => intro c; rfl
    | succ k ih =>
        intro c
        cases c with
        | none => rfl
        | some n =>
            simp only [walk, ih]
            rw [h.map_eq (f := fun b => s.walk k b.next) fun _ => rfl]
  rw [linked, linked, h.size_eq, hwalk, h.rest]

theorem places_eq (h : s.Retouched s') : s'.places = s.places := by
  rw [places, places, h.placesAt_eq, h.linked_eq]

end Retouched

/-- Writing a slot changes nothing else. -/
theorem retouched_of_store (hstore : s.store p v = .ok s') :
    s.Retouched s' ∧ ∀ p', s'.load p' = if p' = p then .ok v else s.load p' := by
  rcases hb : s.blocks.get? p.block with _ | b
  · simp [Storage.store, updateBlock, block, hb, bind, Except.bind] at hstore
  · obtain rfl := Except.ok.inj ((updateBlock_eq hb _).symm.trans hstore)
    refine ⟨⟨rfl, Registry.size_set _ _ _, fun n => ?_⟩,
      load_set_slot hb rfl (b.load_store p.slot v)⟩
    have hget := Registry.get?_set_of_some hb (b.store p.slot v) n
    rw [Storage.setBlock, hget]
    split
    · rename_i hn
      rw [hn, hb]
      rfl
    · rfl

/-- Writing what a slot holds anyway changes nothing at all. -/
theorem store_of_load (hload : s.load p = .ok v) : s.store p v = .ok s := by
  obtain ⟨b, hb, rfl⟩ := load_eq_ok_iff.1 hload
  rw [Storage.store, updateBlock_eq hb, Block.store_load, Storage.setBlock, Registry.set_eq_self hb]

end Storage

end RootStore
