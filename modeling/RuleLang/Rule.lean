import RuleLang.Expr.Eval
import RuleLang.Expr.OfItems
import RuleLang.Item.OfText

/-!
# Rules: sources compiled and evaluated

A rule is the source of one expression. Compiling it divides the source into items and reads the items as an expression;
evaluating it also computes the value. A failure keeps the stage it comes from.
-/

namespace RuleLang

/-- Why a rule has no value: its source has no items, its items are no expression, or its expression has no value. -/
inductive Error where
  | lex (error : LexError)
  | parse (error : ParseError)
  | eval (error : EvalError)
  deriving DecidableEq, Repr

namespace Error

/-- The error as it is told, after the name of the stage. -/
def display : Error → String
  | lex error => "Lex error: " ++ error.display
  | parse error => "Parse error: " ++ error.display
  | eval error => "Evaluation error: " ++ error.display

instance : ToString Error := ⟨display⟩

/-- The place of the error in the source. Errors of evaluation have none. -/
def span? : Error → Option Span
  | lex error => some error.span
  | parse error => error.span?
  | eval _ => none

/-- The error as a term of its constructors. -/
def dump : Error → String
  | lex error => "Lex(" ++ error.dump ++ ")"
  | parse error => "Parse(" ++ error.dump ++ ")"
  | eval error => "Eval(" ++ error.dump ++ ")"

end Error

/-- The expression of a source. -/
def compile (source : String) : Except Error Expr :=
  match lex source with
  | .error e => .error (.lex e)
  | .ok items => (parse items).mapError .parse

/-- The value of a source against a binding table. -/
def evaluate (source : String) (bindings : Bindings) : Except Error Value :=
  match compile source with
  | .error e => .error e
  | .ok expr => (expr.eval bindings).mapError .eval

end RuleLang
