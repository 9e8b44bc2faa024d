/-!
# References and the cells that hold them

A reference is the address of an object: one 64-bit word other than zero.  It is only ever moved
around and compared, never followed.  A cell holds a reference or null, and null is the word zero.

* `Reference.ofWord?` / `Reference.word` — a cell's content as a word and back, each the other's
  inverse (`word_ofWord?`, `ofWord?_word`).
* `exchange` — compare and exchange: the new content is written only where the expected reference
  stands, and the content found is told otherwise.
-/

namespace RootStore

/-- A reference to an object: an address other than zero. -/
structure Reference where
  /-- The address as a word. -/
  address : BitVec 64
  /-- Zero is null and no reference. -/
  address_ne_zero : address ≠ 0#64
  deriving DecidableEq

namespace Reference

/-- The content that a word stands for: zero is null. -/
def ofWord? (w : BitVec 64) : Option Reference :=
  if h : w = 0#64 then none else some ⟨w, h⟩

/-- The word that stands for a content. -/
def word : Option Reference → BitVec 64
  | none => 0#64
  | some r => r.address

@[simp] theorem word_ofWord? (w : BitVec 64) : word (ofWord? w) = w := by
  simp only [ofWord?]
  split
  · simp_all [word]
  · rfl

@[simp] theorem ofWord?_word (v : Option Reference) : ofWord? (word v) = v := by
  cases v with
  | none => simp [word, ofWord?]
  | some r => simp [word, ofWord?, r.address_ne_zero]

end Reference

/-- **Compare and exchange** on a cell that holds `found`: where that is the reference `expected`
the cell comes to hold `new` and the answer is `expected`; otherwise it keeps what it holds and the
answer says what that is. -/
def exchange (found : Option Reference) (expected : Reference) (new : Option Reference) :
    Option Reference × Except (Option Reference) Reference :=
  if found = some expected then (new, .ok expected) else (found, .error found)

/-- A null cell refuses every exchange. -/
@[simp] theorem exchange_null (expected : Reference) (new : Option Reference) :
    exchange none expected new = (none, .error none) := by
  simp [exchange]

end RootStore
