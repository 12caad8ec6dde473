import RuleLang.Expr.Eval
import RuleLang.Proofs.Expr.Grammar
import RuleLang.Proofs.Expr.Shape
import RuleLang.Proofs.Item.Replacing

/-!
# Variables replaced in a tree

Putting a tree in the place of a variable and evaluating is evaluating with the tree's value for the variable (`Expr.eval_inline`).
The tree that comes of it is the one that the items derive when groups stand for the variable's items (`Derives.inline`): a group
is an operand, whatever the variable is an operand of.
-/

namespace RuleLang

/-- The tree with another in the place of every variable of the given name. -/
def Expr.inline (name : String) : (e inner : Expr) → Expr
  | binary family lhs op opSpan rhs, inner => binary family (lhs.inline name inner) op opSpan (rhs.inline name inner)
  | literal leaf, _ => literal leaf
  | var leaf, inner => if leaf.name? = some name then inner else var leaf

theorem Leaf.name?_var_eq_some_iff {text name : String} {span : Span} :
    (⟨.var, text, span⟩ : Leaf).name? = some name ↔ text = "$" ++ name := by
  have htext : text = "$" ++ name ↔ text.toList = '$' :: name.toList := by
    rw [← String.toList_inj, String.toList_append]
    rfl
  rw [htext]
  constructor
  · intro h
    unfold Leaf.name? at h
    split at h
    · rename_i rest _ hrest
      obtain rfl := Option.some.inj h
      rw [String.toList_ofList]
      exact hrest
    · cases h
  · intro h
    simp [Leaf.name?, h]

namespace Expr

/-- A variable that is given a value can be replaced by any tree that has this value, whether or not it is evaluated. -/
theorem eval_inline {name : String} {inner : Expr} {bindings : Bindings} {v : Value} (h : inner.eval bindings = .ok v)
    (e : Expr) : (e.inline name inner).eval bindings = e.eval (bindings.insert name v) := by
  induction e with
  | literal leaf => rfl
  | binary family lhs op opSpan rhs ihl ihr => rw [inline, eval, eval, ihl, ihr]
  | var leaf =>
    rw [inline, eval, Leaf.lookup]
    by_cases hn : leaf.name? = some name
    · rw [if_pos hn, h, hn]
      simp only [Bindings.lookup_insert, if_true]
    · rw [if_neg hn, eval, Leaf.lookup]
      cases hother : leaf.name? with
      | none => rfl
      | some other =>
        have hne : name ≠ other := by
          rintro rfl
          exact hn hother
        simp only [Bindings.lookup_insert, if_neg hne]

end Expr

theorem Derives.ne_nil {level : Option Family} {items : List Item} {e : Expr} (h : Derives level items e) : items ≠ [] := by
  induction h with
  | literal => exact List.cons_ne_nil _ _
  | var => exact List.cons_ne_nil _ _
  | group => exact List.cons_ne_nil _ _
  | single _ ih => exact ih
  | binary => exact List.append_ne_nil_of_right_ne_nil _ (List.cons_ne_nil _ _)

/-- With groups that derive a tree in the place of a variable, items derive what they did with that tree in the variable's place. -/
theorem Derives.inline {inner : List Item} {f : Expr} (hf : Derives (some .or) inner f) (name : String)
    {level : Option Family} {items : List Item} {e : Expr} (h : Derives level items e) :
    Derives level (inlineItems ("$" ++ name) inner items) (e.inline name f) := by
  induction h with
  | literal kind text span =>
    rw [inlineItems, inlineItems, Item.inline, if_neg (by simp)]
    exact .literal kind text span
  | var text span =>
    rw [inlineItems, inlineItems, Item.inline, Expr.inline]
    by_cases ht : text = "$" ++ name
    · rw [if_pos ⟨rfl, ht⟩, if_pos (Leaf.name?_var_eq_some_iff.mpr ht)]
      exact .group span hf.ne_nil hf
    · rw [if_neg fun hv => ht hv.2, if_neg fun hv => ht (Leaf.name?_var_eq_some_iff.mp hv)]
      exact .var text span
  | @group members e span hne _ ih =>
    rw [inlineItems, inlineItems, Item.inline]
    exact .group span ih.ne_nil ih
  | single _ ih => exact .single ih
  | @binary family left right lhs rhs op text span hop _ _ ihl ihr =>
    rw [inlineItems_append, inlineItems, Item.inline, if_neg (by simp), Expr.inline]
    exact .binary text span hop ihl ihr

end RuleLang
