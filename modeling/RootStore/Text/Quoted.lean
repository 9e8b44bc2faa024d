import RootStore.Text.Shapeless

/-!
# Quoted texts

A name is shown between double quotes.  A double quote and a backslash inside it are preceded by a
backslash; NUL, tab, line feed and carriage return have letters of their own; every other character
that would not show as itself is written as its code point in braces.  A single quote stays as it
is.

* `escape` — how one character is written.
* `quote` — how a text is written.
-/

namespace RootStore.Text

/-- A code point written in lower-case hexadecimal digits between braces. -/
def codePoint (c : Char) : List Char :=
  '\\' :: 'u' :: '\x7b' :: Nat.toDigits 16 c.toNat ++ ['\x7d']

/-- The characters that are written as a backslash and a letter. -/
def shortEscape? : Char → Option Char
  | '\x00' => some '0'
  | '\t' => some 't'
  | '\n' => some 'n'
  | '\r' => some 'r'
  | '"' => some '"'
  | '\\' => some '\\'
  | _ => none

/-- Does a character print nothing of its own inside quotes? -/
def isHidden (c : Char) : Bool := c.toNat < 0x20 || c.toNat = 0x7f || isShapeless c

/-- How a character is written inside quotes. -/
def escape (c : Char) : List Char :=
  match shortEscape? c with
  | some letter => ['\\', letter]
  | none => if isHidden c then codePoint c else [c]

/-- How a text is written: its characters between double quotes. -/
def quote (text : String) : String :=
  String.ofList ('"' :: text.toList.flatMap escape ++ ['"'])

end RootStore.Text
