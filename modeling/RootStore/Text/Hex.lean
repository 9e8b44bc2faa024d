import RootStore.Reference

/-!
# Hexadecimal words

Words are written as `0x` and lower-case digits without leading zeros.  They are read back from `0x`
and at least one digit of either case, with any number of leading zeros, as long as the value fits
into 64 bits.

* `Hex.write`, `Hex.read?` — the two directions.
* `Hex.writeCell` — what a cell holds: nothing is written for null.
* `Hex.read?_write` — **what is written is read back.**
-/

namespace RootStore

namespace Hex

/-- The value of a hexadecimal digit of either case. -/
def digit? (c : Char) : Option Nat :=
  if '0' ≤ c ∧ c ≤ '9' then some (c.toNat - '0'.toNat)
  else if 'a' ≤ c ∧ c ≤ 'f' then some (c.toNat - 'a'.toNat + 10)
  else if 'A' ≤ c ∧ c ≤ 'F' then some (c.toNat - 'A'.toNat + 10)
  else none

/-- The value of a row of digits read from the left, on top of what was read before. -/
def digits? : List Char → Nat → Option Nat
  | [], n => some n
  | c :: rest, n => (digit? c).bind fun d => digits? rest (16 * n + d)

/-- The word a text stands for, if it has the written form of one. -/
def read? (text : String) : Option (BitVec 64) :=
  match text.toList with
  | '0' :: 'x' :: c :: rest =>
      (digits? (c :: rest) 0).bind fun n =>
        if n < UInt64.size then some (BitVec.ofNat 64 n) else none
  | _ => none

/-- The written form of a number. -/
def write (n : Nat) : String := "0x" ++ String.ofList (Nat.toDigits 16 n)

/-- The written form of what a cell holds, if it is not null. -/
def writeCell (v : Option Reference) : Option String := v.map fun r => write r.address.toNat

/-! ## The way there and back -/

/-- The sixteen digits that are written have the values they stand for. -/
theorem digit?_digitChar {d : Nat} (h : d < 16) : digit? (Nat.digitChar d) = some d := by
  have all : ∀ d : Fin 16, digit? (Nat.digitChar d) = some d.val := by decide
  exact all ⟨d, h⟩

/-- A row of digits is read in two parts, one after the other. -/
theorem digits?_append (cs ds : List Char) (n : Nat) :
    digits? (cs ++ ds) n = (digits? cs n).bind (digits? ds) := by
  induction cs generalizing n with
  | nil => rfl
  | cons c cs ih =>
      simp only [List.cons_append, digits?]
      cases digit? c with
      | none => rfl
      | some d => exact ih (16 * n + d)

/-- The digits of a number have its value. -/
theorem digits?_toDigits (n : Nat) : digits? (Nat.toDigits 16 n) 0 = some n := by
  induction n using Nat.strongRecOn with
  | ind n ih =>
      by_cases h : n < 16
      · simp [Nat.toDigits_of_lt_base h, digits?, digit?_digitChar h]
      · have hd : n % 16 < 16 := Nat.mod_lt n (by decide)
        have split := Nat.toDigits_append_toDigits (b := 16) (by decide)
          (Nat.div_pos (Nat.le_of_not_lt h) (by decide)) hd
        rw [Nat.div_add_mod] at split
        rw [← split, digits?_append, ih (n / 16) (by omega)]
        simp only [Nat.toDigits_of_lt_base hd, digits?, digit?_digitChar hd, Option.bind_some]
        congr 1
        omega

/-- **What is written is read back**: a word has a written form and is the word it stands for. -/
theorem read?_write (w : BitVec 64) : read? (write w.toNat) = some w := by
  have value := digits?_toDigits w.toNat
  rcases hd : Nat.toDigits 16 w.toNat with _ | ⟨c, cs⟩
  · exact absurd hd Nat.toDigits_ne_nil
  · rw [hd] at value
    have form : (write w.toNat).toList = '0' :: 'x' :: c :: cs := by
      simp [write, hd, String.toList_append]
    have hlt : w.toNat < UInt64.size := w.isLt
    simp [read?, form, value, hlt]

end Hex

end RootStore
