/-!
# Classes of characters

The classes the language is written in. White space is the Unicode property White_Space; digits and the characters of names
are ASCII. A class of Unicode is a list of ranges of code points, and membership is a search in it.
-/

namespace RuleLang

/-- The code points from `first` to `last`, both included. -/
structure CodeRange where
  first : Nat
  last : Nat
  deriving DecidableEq, Repr

/-- The code point of `c` lies in the range. -/
def CodeRange.holds (r : CodeRange) (c : Char) : Bool := r.first ≤ c.toNat && c.toNat ≤ r.last

/-- The characters with the property White_Space. -/
def blankRanges : List CodeRange :=
  [⟨0x9, 0xd⟩, ⟨0x20, 0x20⟩, ⟨0x85, 0x85⟩, ⟨0xa0, 0xa0⟩, ⟨0x1680, 0x1680⟩, ⟨0x2000, 0x200a⟩, ⟨0x2028, 0x2029⟩,
    ⟨0x202f, 0x202f⟩, ⟨0x205f, 0x205f⟩, ⟨0x3000, 0x3000⟩]

/-- White space, which separates the items of a source and has no meaning of its own. -/
def isBlank (c : Char) : Bool := blankRanges.any (·.holds c)

/-- The two characters that open a string; the same character closes it. -/
def isQuote (c : Char) : Bool := c == '\'' || c == '"'

/-- The characters of a variable's name: ASCII letters, ASCII digits and the underscore. -/
def isNameChar (c : Char) : Bool := c == '_' || c.isAlphanum

end RuleLang
