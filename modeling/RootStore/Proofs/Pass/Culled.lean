import RootStore.Proofs.Pass.Visits

/-!
# Clearing entries whose objects are dead

A weak entry does not keep its object alive.  Where entries are gone through one after the other,
those with dead objects are cleared, those with objects that are alive are visited, and the visit
may write the entry. What was written to an entry is not seen at those behind it, so each of them is
taken by what it held in the beginning.

* `Storage.Culled` — **going through entries in this way**, with the objects asked about and the
  visits made.
* `Storage.Culled.asked_eq`, `Storage.Culled.visits_eq` — which these are.
* `Storage.Culled.load_of_dead`, `load_of_visit`, `load_of_other` — what every slot holds in the
  end.
* `Storage.Culled.weakIn_eq`, `Storage.Culled.eq_self` — visits that write nothing.
-/

namespace RootStore

namespace Storage

variable {alive : Reference → Bool} {sid : Nat} {places : List Place} {s s' : Storage}
  {asked : List Reference} {visits : List Visit} {p : Place} {object : Reference}

/-- **Going through entries**, of which those whose objects are dead are cleared and those whose
objects are alive are visited, which may leave them with another content. -/
inductive Culled (alive : Reference → Bool) (sid : Nat) :
    List Place → Storage → List Reference → List Visit → Storage → Prop
  /-- None is left. -/
  | done (s : Storage) : Culled alive sid [] s [] [] s
  /-- The next one holds null and is passed over. -/
  | null {p : Place} {rest : List Place} {s s' : Storage} {asked : List Reference}
      {visits : List Visit}
      (hload : s.load p = .ok none) (hrest : Culled alive sid rest s asked visits s') :
      Culled alive sid (p :: rest) s asked visits s'
  /-- Its object is dead, and it is cleared. -/
  | dead {p : Place} {rest : List Place} {s s₁ s' : Storage} {object : Reference}
      {asked : List Reference} {visits : List Visit} (hload : s.load p = .ok (some object))
      (hdead : alive object = false) (hstore : s.store p none = .ok s₁)
      (hrest : Culled alive sid rest s₁ asked visits s') :
      Culled alive sid (p :: rest) s (object :: asked) visits s'
  /-- Its object is alive, and it is visited. -/
  | kept {p : Place} {rest : List Place} {s s₁ s' : Storage} {object : Reference}
      {left : Option Reference} {asked : List Reference} {visits : List Visit}
      (hload : s.load p = .ok (some object)) (halive : alive object = true)
      (hstore : s.store p left = .ok s₁) (hrest : Culled alive sid rest s₁ asked visits s') :
      Culled alive sid (p :: rest) s (object :: asked)
        (⟨⟨sid, p, .writable⟩, some object, left⟩ :: visits) s'

namespace Culled

/-- Nothing but slots is written. -/
theorem retouched (h : Culled alive sid places s asked visits s') : s.Retouched s' := by
  induction h with
  | done s => exact .refl s
  | null hload hrest ih => exact ih
  | dead hload hdead hstore hrest ih | kept hload halive hstore hrest ih =>
      exact (retouched_of_store hstore).1.trans ih

/-- Only the slots of these entries are written. -/
theorem load_of_not_mem (h : Culled alive sid places s asked visits s') (hp : p ∉ places) :
    s'.load p = s.load p := by
  induction h with
  | done s => rfl
  | null hload hrest ih => exact ih (List.not_mem_of_not_mem_cons hp)
  | dead hload hdead hstore hrest ih | kept hload halive hstore hrest ih =>
      rw [ih (List.not_mem_of_not_mem_cons hp), (retouched_of_store hstore).2,
        if_neg (List.ne_of_not_mem_cons hp)]

/-- What was written before an entry is taken up is not seen there. -/
theorem weakIn_of_store {s₁ : Storage} {v : Option Reference} (hstore : s.store p v = .ok s₁)
    (hp : p ∉ places) : s₁.weakIn places = s.weakIn places :=
  weakIn_congr fun p' hp' => by
    rw [(retouched_of_store hstore).2, if_neg]
    rintro rfl
    exact hp hp'

/-- **Every object is asked about once**, in the order of the entries. -/
theorem asked_eq (h : Culled alive sid places s asked visits s') (hnd : places.Nodup) :
    asked = (s.weakIn places).map (·.2) := by
  induction h with
  | done s => rfl
  | null hload hrest ih => rw [weakIn_cons_of_null hload, ih (List.nodup_cons.1 hnd).2]
  | dead hload hdead hstore hrest ih | kept hload halive hstore hrest ih =>
      obtain ⟨hp, hnd⟩ := List.nodup_cons.1 hnd
      rw [weakIn_cons_of_object hload, ih hnd, weakIn_of_store hstore hp, List.map_cons]

/-- **Every entry whose object is alive is visited once**, in the same order, and its object is
seen. -/
theorem visits_eq (h : Culled alive sid places s asked visits s') (hnd : places.Nodup) :
    visits.map (fun v => (v.entry, v.found)) = ((s.weakIn places).filter fun e => alive e.2).map
      fun e => (⟨sid, e.1, .writable⟩, some e.2) := by
  induction h with
  | done s => rfl
  | null hload hrest ih => rw [weakIn_cons_of_null hload, ih (List.nodup_cons.1 hnd).2]
  | dead hload hdead hstore hrest ih =>
      obtain ⟨hp, hnd⟩ := List.nodup_cons.1 hnd
      rw [weakIn_cons_of_object hload, ih hnd, weakIn_of_store hstore hp,
        List.filter_cons_of_neg (by simp [hdead])]
  | kept hload halive hstore hrest ih =>
      obtain ⟨hp, hnd⟩ := List.nodup_cons.1 hnd
      rw [weakIn_cons_of_object hload, List.map_cons, ih hnd, weakIn_of_store hstore hp,
        List.filter_cons_of_pos (by simp [halive]), List.map_cons]

/-- **Every entry whose object is dead is cleared.** -/
theorem load_of_dead (h : Culled alive sid places s asked visits s') (hnd : places.Nodup)
    (hp : (p, object) ∈ s.weakIn places) (hdead : alive object = false) : s'.load p = .ok none := by
  induction h with
  | done s => cases hp
  | null hload hrest ih =>
      rw [weakIn_cons_of_null hload] at hp
      exact ih (List.nodup_cons.1 hnd).2 hp
  | @dead p' rest s s₁ s' object' asked visits hload hdead' hstore hrest ih =>
      obtain ⟨hp', hnd⟩ := List.nodup_cons.1 hnd
      rw [weakIn_cons_of_object hload] at hp
      rcases List.mem_cons.1 hp with heq | hmem
      · obtain ⟨rfl, -⟩ := Prod.mk.inj heq
        rw [hrest.load_of_not_mem hp', (retouched_of_store hstore).2, if_pos rfl]
      · exact ih hnd (by rwa [weakIn_of_store hstore hp'])
  | @kept p' rest s s₁ s' object' left asked visits hload halive hstore hrest ih =>
      obtain ⟨hp', hnd⟩ := List.nodup_cons.1 hnd
      rw [weakIn_cons_of_object hload] at hp
      rcases List.mem_cons.1 hp with heq | hmem
      · obtain ⟨-, rfl⟩ := Prod.mk.inj heq
        simp [hdead] at halive
      · exact ih hnd (by rwa [weakIn_of_store hstore hp'])

/-- **Every entry that is visited holds what the visitor has left in it.** -/
theorem load_of_visit (h : Culled alive sid places s asked visits s') (hnd : places.Nodup)
    {v : Visit} (hv : v ∈ visits) : s'.load v.entry.place = .ok v.left := by
  induction h with
  | done s => cases hv
  | null hload hrest ih => exact ih (List.nodup_cons.1 hnd).2 hv
  | dead hload hdead hstore hrest ih => exact ih (List.nodup_cons.1 hnd).2 hv
  | kept hload halive hstore hrest ih =>
      obtain ⟨hp, hnd⟩ := List.nodup_cons.1 hnd
      rcases List.mem_cons.1 hv with rfl | hmem
      · rw [hrest.load_of_not_mem hp, (retouched_of_store hstore).2, if_pos rfl]
      · exact ih hnd hmem

/-- **Every other slot is as it was.** -/
theorem load_of_other (h : Culled alive sid places s asked visits s') (hnd : places.Nodup)
    (hp : ∀ object, (p, object) ∉ s.weakIn places) : s'.load p = s.load p := by
  induction h with
  | done s => rfl
  | null hload hrest ih =>
      rw [weakIn_cons_of_null hload] at hp
      exact ih (List.nodup_cons.1 hnd).2 hp
  | dead hload hdead hstore hrest ih | kept hload halive hstore hrest ih =>
      obtain ⟨hp', hnd⟩ := List.nodup_cons.1 hnd
      rw [weakIn_cons_of_object hload] at hp
      have hrest' := ih hnd fun object hmem => hp object <| by
        rw [weakIn_of_store hstore hp'] at hmem
        exact List.mem_cons_of_mem _ hmem
      rw [hrest', (retouched_of_store hstore).2, if_neg]
      rintro rfl
      exact hp _ List.mem_cons_self

/-- Where visitors leave what they find, **the entries left are those whose objects are alive.** -/
theorem weakIn_eq (h : Culled alive sid places s asked visits s') (hnd : places.Nodup)
    (hsilent : ∀ v ∈ visits, v.left = v.found) :
    s'.weakIn places = (s.weakIn places).filter fun e => alive e.2 := by
  induction h with
  | done s => rfl
  | null hload hrest ih =>
      obtain ⟨hp, hnd⟩ := List.nodup_cons.1 hnd
      have hload' := (hrest.load_of_not_mem hp).trans hload
      rw [weakIn_cons_of_null hload, weakIn_cons_of_null hload', ih hnd hsilent]
  | dead hload hdead hstore hrest ih =>
      obtain ⟨hp, hnd⟩ := List.nodup_cons.1 hnd
      have hload' := hrest.load_of_not_mem hp
      rw [(retouched_of_store hstore).2, if_pos rfl] at hload'
      rw [weakIn_cons_of_object hload, weakIn_cons_of_null hload', ih hnd hsilent,
        weakIn_of_store hstore hp, List.filter_cons_of_neg (by simp [hdead])]
  | @kept p rest s s₁ s' object left asked visits hload halive hstore hrest ih =>
      obtain ⟨hp, hnd⟩ := List.nodup_cons.1 hnd
      obtain ⟨hleft, hothers⟩ := List.forall_mem_cons.1 hsilent
      obtain rfl : left = some object := hleft
      have hload' := hrest.load_of_not_mem hp
      rw [(retouched_of_store hstore).2, if_pos rfl] at hload'
      rw [weakIn_cons_of_object hload, weakIn_cons_of_object hload', ih hnd hothers,
        weakIn_of_store hstore hp, List.filter_cons_of_pos (by simp [halive])]

/-- Where all objects are alive besides, **nothing changes.** -/
theorem eq_self (h : Culled alive sid places s asked visits s')
    (hsilent : ∀ v ∈ visits, v.left = v.found) (hall : ∀ object ∈ asked, alive object = true) :
    s' = s := by
  induction h with
  | done s => rfl
  | null hload hrest ih => exact ih hsilent hall
  | dead hload hdead hstore hrest ih =>
      have halive := hall _ List.mem_cons_self
      simp [hdead] at halive
  | @kept p rest s s₁ s' object left asked visits hload halive hstore hrest ih =>
      obtain ⟨hleft, hothers⟩ := List.forall_mem_cons.1 hsilent
      obtain rfl : left = some object := hleft
      obtain rfl := Except.ok.inj ((store_of_load hload).symm.trans hstore)
      exact ih hothers (List.forall_mem_cons.1 hall).2

end Culled

end Storage

end RootStore
