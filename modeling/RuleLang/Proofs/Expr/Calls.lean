import RuleLang.Expr.Eval
import RuleLang.Proofs.Expr.Shape

/-!
# How deep calls nest

Evaluating a tree, taking its span and displaying it go down the tree, and each node on the way is one more call inside of the others.
So there are versions of the three that may nest a given number of calls and give nothing where they would need more. A tree takes one
call more than it is high: with as many they give what the functions do (`Expr.evalWithin_of_height_lt`), and with fewer the span and
the display give nothing (`Expr.spanWithin_eq`, `Expr.displayWithin_eq`). Evaluation may pass over right operands, but never over left
ones (`Expr.evalWithin_eq_none`).
-/

namespace RuleLang

namespace Expr

/-- The value of an expression, if `calls` calls nested in each other are enough for it. -/
def evalWithin (bindings : Bindings) : (calls : Nat) → Expr → Option (Except EvalError Value)
  | 0, _ => none
  | calls + 1, binary family lhs op _ rhs =>
    match op.operatorIn? family with
    | none => some (.error (.unknownOperation op))
    | some o =>
      match lhs.evalWithin bindings calls with
      | none => none
      | some (.error e) => some (.error e)
      | some (.ok l) =>
        if o.decides l then some (.ok l)
        else
          match rhs.evalWithin bindings calls with
          | none => none
          | some (.error e) => some (.error e)
          | some (.ok r) => some (o.apply l r)
  | _ + 1, literal leaf => some leaf.value
  | _ + 1, var leaf => some (leaf.lookup bindings)

/-- What is made of an expression from its leaves up, if `calls` nested calls are enough for it. -/
def foldWithin {α : Type} (node : α → Token → α → α) (onLiteral onVar : Leaf → α) : (calls : Nat) → Expr → Option α
  | 0, _ => none
  | calls + 1, binary _ lhs op _ rhs =>
    match lhs.foldWithin node onLiteral onVar calls, rhs.foldWithin node onLiteral onVar calls with
    | some l, some r => some (node l op r)
    | _, _ => none
  | _ + 1, literal leaf => some (onLiteral leaf)
  | _ + 1, var leaf => some (onVar leaf)

/-- The span of an expression, if `calls` nested calls are enough for it. -/
def spanWithin : (calls : Nat) → Expr → Option Span := foldWithin (fun l _ r => ⟨l.start, r.stop⟩) Leaf.span Leaf.span

/-- The expression as it is written in a source, if `calls` nested calls are enough for it. -/
def displayWithin : (calls : Nat) → Expr → Option String :=
  foldWithin (fun l op r => "(" ++ l ++ " " ++ op.display ++ " " ++ r ++ ")") displayLiteral Leaf.text

/-- The number of binary nodes on the path to the leftmost leaf. -/
def leftHeight : Expr → Nat
  | binary _ lhs _ _ _ => lhs.leftHeight + 1
  | literal _ => 0
  | var _ => 0

theorem leftHeight_le_height (e : Expr) : e.leftHeight ≤ e.height := by
  induction e with
  | binary family lhs op opSpan rhs ihl _ =>
    rw [leftHeight, height]
    omega
  | literal leaf => exact Nat.le_refl 0
  | var leaf => exact Nat.le_refl 0

theorem evalWithin_of_height_lt (bindings : Bindings) {e : Expr} {calls : Nat} (h : e.height < calls) :
    e.evalWithin bindings calls = some (e.eval bindings) := by
  induction e generalizing calls with
  | literal leaf =>
    obtain ⟨calls, rfl⟩ := Nat.exists_eq_succ_of_ne_zero (Nat.ne_zero_of_lt h)
    rfl
  | var leaf =>
    obtain ⟨calls, rfl⟩ := Nat.exists_eq_succ_of_ne_zero (Nat.ne_zero_of_lt h)
    rfl
  | binary family lhs op opSpan rhs ihl ihr =>
    obtain ⟨calls, rfl⟩ := Nat.exists_eq_succ_of_ne_zero (Nat.ne_zero_of_lt h)
    rw [height] at h
    rw [evalWithin, eval, ihl (by omega), ihr (by omega)]
    cases op.operatorIn? family with
    | none => rfl
    | some o =>
      cases lhs.eval bindings with
      | error error => rfl
      | ok l =>
        simp only
        split
        · rfl
        · cases rhs.eval bindings <;> rfl

/-- Evaluation goes all the way to the leftmost leaf. -/
theorem evalWithin_eq_none (bindings : Bindings) {e : Expr} (hwf : e.WellFormed) {calls : Nat} (h : calls ≤ e.leftHeight) :
    e.evalWithin bindings calls = none := by
  induction e generalizing calls with
  | literal leaf =>
    obtain rfl := Nat.le_zero.mp h
    rfl
  | var leaf =>
    obtain rfl := Nat.le_zero.mp h
    rfl
  | binary family lhs op opSpan rhs ihl _ =>
    obtain ⟨hl, ⟨o, rfl, hf⟩, _⟩ := hwf
    cases calls with
    | zero => rfl
    | succ calls => rw [evalWithin, Token.operatorIn?_eq_some_iff.mpr ⟨rfl, hf⟩, ihl hl (Nat.le_of_succ_le_succ h)]

/-- What is made of a tree from its leaves up takes all the calls that its height tells. -/
theorem foldWithin_eq {α : Type} {node : α → Token → α → α} {onLiteral onVar : Leaf → α} {f : Expr → α}
    (hnode : ∀ family lhs op opSpan rhs, f (binary family lhs op opSpan rhs) = node (f lhs) op (f rhs))
    (hliteral : ∀ leaf, f (literal leaf) = onLiteral leaf) (hvar : ∀ leaf, f (var leaf) = onVar leaf) (calls : Nat) (e : Expr) :
    e.foldWithin node onLiteral onVar calls = if e.height < calls then some (f e) else none := by
  induction e generalizing calls with
  | literal leaf =>
    rw [hliteral]
    cases calls <;> rfl
  | var leaf =>
    rw [hvar]
    cases calls <;> rfl
  | binary family lhs op opSpan rhs ihl ihr =>
    cases calls with
    | zero => rfl
    | succ calls =>
      rw [foldWithin, ihl, ihr, height, hnode]
      simp only [Nat.add_lt_add_iff_right, Nat.max_lt]
      by_cases hl : lhs.height < calls <;> by_cases hr : rhs.height < calls <;> simp [hl, hr]

theorem spanWithin_eq (calls : Nat) (e : Expr) : e.spanWithin calls = if e.height < calls then some e.span else none :=
  foldWithin_eq (f := span) (fun _ _ _ _ _ => rfl) (fun _ => rfl) (fun _ => rfl) calls e

theorem displayWithin_eq (calls : Nat) (e : Expr) :
    e.displayWithin calls = if e.height < calls then some e.display else none :=
  foldWithin_eq (f := display) (fun _ _ _ _ _ => rfl) (fun _ => rfl) (fun _ => rfl) calls e

end Expr

end RuleLang
