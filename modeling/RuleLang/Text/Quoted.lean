import RuleLang.Text.Unprintable

/-!
# Quoted texts

A text is shown between double quotes. Six characters have a short escape, a backslash and one letter; the characters that
cannot be seen on their own are written by their code point in hexadecimal; every other character stands for itself, so a
single quote is not escaped.
-/

namespace RuleLang

/-- The character that stands for `c` after a backslash, if `c` has a short escape. -/
def shortEscape? (c : Char) : Option Char :=
  match c with
  | '\x00' => some '0'
  | '\t' => some 't'
  | '\r' => some 'r'
  | '\n' => some 'n'
  | '"' => some '"'
  | '\\' => some '\\'
  | _ => none

/-- The written form of one character: its short escape, its code point in lower case hexadecimal without leading zeros, or
itself. -/
def escape (c : Char) : List Char :=
  match shortEscape? c with
  | some letter => ['\\', letter]
  | none => if isUnprintable c then ['\\', 'u', '{'] ++ Nat.toDigits 16 c.toNat ++ ['}'] else [c]

/-- The text between double quotes, each character in its written form. -/
def quoted (text : String) : String := String.ofList (['"'] ++ text.toList.flatMap escape ++ ['"'])

theorem toList_quoted (text : String) : (quoted text).toList = ['"'] ++ text.toList.flatMap escape ++ ['"'] :=
  String.toList_ofList

/-- No character is written as nothing. -/
theorem escape_ne_nil (c : Char) : escape c ≠ [] := by
  unfold escape
  split
  · simp
  · split <;> simp

end RuleLang
