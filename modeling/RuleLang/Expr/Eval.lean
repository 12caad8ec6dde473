import RuleLang.Expr.Basic
import RuleLang.Value

/-!
# Evaluation

An expression is evaluated against a binding table, the left operand before the right one. The operators `&&` and `||` stop
after the left operand only on the truth value that decides them and otherwise give back the right operand, whatever it is. The
equality operators compare values of any types; the ordering operators compare two integers or two strings and refuse all other
pairs.
-/

namespace RuleLang

/-- Why an expression has no value. -/
inductive EvalError where
  | unknownOperation (op : Token)
  | mismatchType (op : Operator) (lhs rhs : Value)
  | invalidBool (text : String)
  | invalidInteger (text : String)
  | unexpectedLeaf (token : Token)
  deriving DecidableEq, Repr

namespace EvalError

/-- The error as it is told. -/
def display : EvalError → String
  | unknownOperation op => "Unknown operator `" ++ op.display ++ "`"
  | mismatchType op lhs rhs =>
    "Value `" ++ lhs.display ++ "` of type `" ++ lhs.typeName ++ "` and value `" ++ rhs.display ++ "` of type `" ++
      rhs.typeName ++ "` cannot perform operation `" ++ op.symbol ++ "`"
  | invalidBool text => "Literal `" ++ text ++ "` is not a valid boolean"
  | invalidInteger text => "Literal `" ++ text ++ "` is not a valid integer"
  | unexpectedLeaf token => "Token `" ++ token.display ++ "` cannot be used as a leaf here"

instance : ToString EvalError := ⟨display⟩

/-- The name of the kind of error in a dump. -/
def name : EvalError → String
  | unknownOperation _ => "UnknownOperation"
  | mismatchType _ _ _ => "MismatchType"
  | invalidBool _ => "InvalidBool"
  | invalidInteger _ => "InvalidInteger"
  | unexpectedLeaf _ => "UnexpectedLeaf"

/-- The error as a term of its constructors. -/
def dump : EvalError → String
  | unknownOperation op => "UnknownOperation(" ++ op.name ++ ")"
  | mismatchType op lhs rhs => "MismatchType(" ++ op.name ++ ", " ++ lhs.dump ++ ", " ++ rhs.dump ++ ")"
  | invalidBool text => "InvalidBool(" ++ quoted text ++ ")"
  | invalidInteger text => "InvalidInteger(" ++ quoted text ++ ")"
  | unexpectedLeaf token => "UnexpectedLeaf(" ++ token.name ++ ")"

end EvalError

/-- The order of two values of one ordered type: integers by number, strings by code points. Other pairs have no order, two
nulls or two truth values included. -/
def Value.order? : Value → Value → Option Ordering
  | .integer m, .integer n => some (compare m n)
  | .string s, .string t => some (compare s t)
  | _, _ => none

namespace Operator

/-- The value of the left operand decides the result: true for `||`, false for `&&`. -/
def decides : Operator → Value → Bool
  | .or, .bool true => true
  | .and, .bool false => true
  | _, _ => false

/-- Compares two values that have an order. -/
def applyOrder (op : Operator) (test : Ordering → Bool) (lhs rhs : Value) : Except EvalError Value :=
  match lhs.order? rhs with
  | some order => .ok (.bool (test order))
  | none => .error (.mismatchType op lhs rhs)

/-- The result of an operator on two values. For `&&` and `||` this is the right one. -/
def apply (op : Operator) (lhs rhs : Value) : Except EvalError Value :=
  match op with
  | .and | .or => .ok rhs
  | .equals => .ok (.bool (lhs = rhs))
  | .notEquals => .ok (.bool (lhs ≠ rhs))
  | .lt => op.applyOrder Ordering.isLT lhs rhs
  | .lte => op.applyOrder Ordering.isLE lhs rhs
  | .gt => op.applyOrder Ordering.isGT lhs rhs
  | .gte => op.applyOrder Ordering.isGE lhs rhs

end Operator

namespace Leaf

/-- The value of a literal. The text must fit the token, but null has only one value whatever its text. -/
def value (leaf : Leaf) : Except EvalError Value :=
  match leaf.token with
  | .literal .integer =>
    match ofDigits? leaf.text with
    | some n => .ok (.integer n)
    | none => .error (.invalidInteger leaf.text)
  | .literal .string => .ok (.string leaf.text)
  | .literal .bool =>
    if leaf.text = "true" then .ok (.bool true)
    else if leaf.text = "false" then .ok (.bool false)
    else .error (.invalidBool leaf.text)
  | .literal .null => .ok .null
  | token => .error (.unexpectedLeaf token)

/-- The name a variable is looked up by: its text after the `$`. -/
def name? (leaf : Leaf) : Option String :=
  match leaf.token, leaf.text.toList with
  | .var, '$' :: name => some (.ofList name)
  | _, _ => none

/-- The value of a variable in a binding table. -/
def lookup (bindings : Bindings) (leaf : Leaf) : Except EvalError Value :=
  match leaf.name? with
  | some name => .ok (bindings.lookup name)
  | none => .error (.unexpectedLeaf leaf.token)

end Leaf

/-- The value of an expression. An operator that does not belong to its node's level is refused before the operands are
evaluated, and the right operand is evaluated only where the left one does not decide. -/
def Expr.eval (bindings : Bindings) : Expr → Except EvalError Value
  | .binary family lhs op _ rhs =>
    match op.operatorIn? family with
    | none => .error (.unknownOperation op)
    | some o =>
      match lhs.eval bindings with
      | .error e => .error e
      | .ok l =>
        if o.decides l then .ok l
        else
          match rhs.eval bindings with
          | .error e => .error e
          | .ok r => o.apply l r
  | .literal leaf => leaf.value
  | .var leaf => leaf.lookup bindings

end RuleLang
