import RuleLang.Expr.Basic
import RuleLang.Proofs.Item.Spelling

/-!
# The shape of expression trees

What is said of a tree apart from where it stands in a source. A tree is well formed when every operator belongs to its node's
family and every leaf carries a text that fits its token, as in the trees that sources compile to (`Expr.WellFormed`). Two trees
that are equal once their places are erased have the same shape (`Expr.unplaced`).
-/

namespace RuleLang

/-- The leaf with its place and its text replaced. -/
def Leaf.map (onSpan : Span → Span) (onText : String → String) (leaf : Leaf) : Leaf :=
  ⟨leaf.token, onText leaf.text, onSpan leaf.span⟩

namespace Expr

/-- The tree with every place and every text of a leaf replaced. -/
def map (onSpan : Span → Span) (onText : String → String) : Expr → Expr
  | binary family lhs op opSpan rhs => binary family (lhs.map onSpan onText) op (onSpan opSpan) (rhs.map onSpan onText)
  | literal leaf => literal (leaf.map onSpan onText)
  | var leaf => var (leaf.map onSpan onText)

/-- The tree with its places erased. -/
def unplaced (e : Expr) : Expr := e.map (fun _ => ⟨0, 0⟩) id

/-- Every operator belongs to its node's family, and every leaf carries a text that fits its token. -/
def WellFormed : Expr → Prop
  | binary family lhs op _ rhs => lhs.WellFormed ∧ (∃ o : Operator, op = .operator o ∧ o.family = family) ∧ rhs.WellFormed
  | literal leaf => ∃ kind, leaf.token = .literal kind ∧ (Atom.literal kind).Admits leaf.text.toList
  | var leaf => leaf.token = .var ∧ Atom.var.Admits leaf.text.toList

/-- The greatest number of binary nodes on a path from the root to a leaf. -/
def height : Expr → Nat
  | binary _ lhs _ _ rhs => max lhs.height rhs.height + 1
  | literal _ => 0
  | var _ => 0

end Expr

end RuleLang
