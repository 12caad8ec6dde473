import RuleLang.Expr.Basic
import RuleLang.Item.Basic

/-!
# The expression of a sequence of items

The grammar has four levels of binary operators above its operands: or, and, equality, comparison. A level takes one operator at
most, so `a && b && c` has no reading and must be written with parentheses, and all items must be taken up. An operand is one
item, a literal, a variable or a group, and what a group is as an operand depends on the group alone; so every item is first
paired with what it is as an operand (`readings`), and the levels then read a flat sequence.
-/

namespace RuleLang

/-- Why a sequence of items is no expression. -/
inductive ParseError where
  | unexpectedOperator (op : Operator) (span : Span)
  | eof
  | emptyGroup (span : Span)
  | unfinished (token : Token) (span : Span)
  | tooDeep (limit : Nat) (span : Span)
  deriving DecidableEq, Repr

namespace ParseError

/-- The place of the error. Items that end too early have none. -/
def span? : ParseError → Option Span
  | unexpectedOperator _ span | emptyGroup span | unfinished _ span | tooDeep _ span => some span
  | eof => none

/-- The error as it is told. -/
def display : ParseError → String
  | unexpectedOperator op span => "Unexpected token `" ++ op.symbol ++ "` at position " ++ span.display
  | eof => "Unable to parse the next value because of EOF"
  | emptyGroup span => "Group at " ++ span.display ++ " is empty"
  | unfinished token span => "Parse have leftover tokens start with `" ++ token.display ++ "` at " ++ span.display
  | tooDeep limit span => "Group at " ++ span.display ++ " is nested deeper than " ++ decimal limit ++ " levels"

instance : ToString ParseError := ⟨display⟩

/-- The name of the kind of error in a dump. -/
def name : ParseError → String
  | unexpectedOperator _ _ => "UnexpectedToken"
  | eof => "Eof"
  | emptyGroup _ => "EmptyGroup"
  | unfinished _ _ => "Unfinished"
  | tooDeep _ _ => "TooDeep"

/-- The error as a term of its constructors. -/
def dump : ParseError → String
  | unexpectedOperator op span => "UnexpectedToken(" ++ op.name ++ ", " ++ span.dump ++ ")"
  | eof => "Eof"
  | emptyGroup span => "EmptyGroup(" ++ span.dump ++ ")"
  | unfinished token span => "Unfinished(" ++ token.name ++ ", " ++ span.dump ++ ")"
  | tooDeep limit span => "TooDeep(" ++ decimal limit ++ ", " ++ span.dump ++ ")"

end ParseError

/-- One item of a sequence, as the levels of the grammar see it: its token, its place, and what it is as an operand. -/
structure Reading where
  token : Token
  span : Span
  operand : Except ParseError Expr

/-- Reads an expression from the front of a sequence and leaves the rest. -/
abbrev Reader := List Reading → Except ParseError (Expr × List Reading)

/-- Reads one operand, which takes one item. -/
def readOperand : Reader
  | [] => .error .eof
  | item :: rest => item.operand.map (·, rest)

/-- Reads one level of the grammar: an operand of the level, and if an operator of the level follows, that operator and a second
operand. An operator of another level ends the reading and stays. -/
def readLevel (family : Family) (operand : Reader) : Reader := fun items => do
  let (lhs, rest) ← operand items
  match rest with
  | [] => return (lhs, [])
  | next :: after =>
    match next.token.operatorIn? family with
    | none => return (lhs, next :: after)
    | some op =>
      let (rhs, rest) ← operand after
      return (.binary family lhs (.operator op) next.span rhs, rest)

/-- Reads an expression, with the operators that bind least outermost. -/
def readExpr : Reader :=
  readLevel .or (readLevel .and (readLevel .equality (readLevel .comparison readOperand)))

/-- The expression that takes up a whole sequence. -/
def readWhole (items : List Reading) : Except ParseError Expr := do
  match ← readExpr items with
  | (expr, []) => return expr
  | (_, next :: _) => throw (.unfinished next.token next.span)

mutual

/-- What an item inside `depth` groups is as an operand. A group is read by its members; one that would pass the limit is refused
before its members are looked at. -/
def Item.operand (limit : Option Nat) (depth : Nat) : Item → Except ParseError Expr
  | .atom (.operator op) _ span => .error (.unexpectedOperator op span)
  | .atom (.literal kind) text span => .ok (.literal ⟨.literal kind, text, span⟩)
  | .atom .var text span => .ok (.var ⟨.var, text, span⟩)
  | .group members span =>
    match passed? limit depth with
    | some n => .error (.tooDeep n span)
    | none => if members.isEmpty then .error (.emptyGroup span) else readWhole (readings limit (depth + 1) members)

/-- The items of a sequence inside `depth` groups, each with what it is as an operand. -/
def readings (limit : Option Nat) (depth : Nat) : List Item → List Reading
  | [] => []
  | item :: items => ⟨item.token, item.span, item.operand limit depth⟩ :: readings limit depth items

end

/-- The reading of one item. -/
def Item.reading (limit : Option Nat) (depth : Nat) (item : Item) : Reading :=
  ⟨item.token, item.span, item.operand limit depth⟩

theorem readings_eq_map (limit : Option Nat) (depth : Nat) (items : List Item) :
    readings limit depth items = items.map (Item.reading limit depth) := by
  induction items with
  | nil => rw [readings, List.map_nil]
  | cons item items ih =>
    rw [readings, ih]
    rfl

/-- The expression of a sequence of items that lies inside `depth` groups. -/
def exprOf (limit : Option Nat) (depth : Nat) (items : List Item) : Except ParseError Expr :=
  readWhole (readings limit depth items)

/-- The expression of the items of a source. -/
def parse (items : List Item) : Except ParseError Expr := exprOf (some maxNesting) 0 items

end RuleLang
