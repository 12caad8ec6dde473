import RuleLang.Span
import RuleLang.Token

/-!
# Expression trees

An expression is a tree of binary nodes over leaves. A node names the level of the grammar it was read at and keeps its operator
as a token, and a leaf keeps its token and its text: a tree may be built by hand, so that an operator need not belong to its
level and a text need not fit its token. Reading a source makes neither, and evaluation says what comes of them.
-/

namespace RuleLang

/-- An operand without parts: its token, its text and where it stands. -/
structure Leaf where
  token : Token
  text : String
  span : Span
  deriving DecidableEq, Repr

/-- An expression: an operator of some level between two expressions, a literal, or a variable. -/
inductive Expr where
  | binary (family : Family) (lhs : Expr) (op : Token) (opSpan : Span) (rhs : Expr)
  | literal (leaf : Leaf)
  | var (leaf : Leaf)
  deriving DecidableEq, Repr

namespace Expr

/-- The bytes of the source from the expression's first leaf to its last. -/
def span : Expr → Span
  | binary _ lhs _ _ rhs => ⟨lhs.span.start, rhs.span.stop⟩
  | literal leaf | var leaf => leaf.span

/-- A literal as it is written in a source. A string is written between single quotes, or between double quotes if it holds a
single one. -/
def displayLiteral (leaf : Leaf) : String :=
  if leaf.token = .literal .string then
    if '\'' ∈ leaf.text.toList then "\"" ++ leaf.text ++ "\"" else "'" ++ leaf.text ++ "'"
  else leaf.text

/-- The expression as it is written in a source, each binary node in parentheses of its own. -/
def display : Expr → String
  | binary _ lhs op _ rhs => "(" ++ lhs.display ++ " " ++ op.display ++ " " ++ rhs.display ++ ")"
  | literal leaf => displayLiteral leaf
  | var leaf => leaf.text

instance : ToString Expr := ⟨display⟩

end Expr

end RuleLang
