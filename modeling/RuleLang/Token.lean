/-!
# Tokens

What an item of a source can be: an atom, which is a literal, a variable or an operator, or a group. Operators come in four
families, and each family is one level of the grammar.
-/

namespace RuleLang

/-- The kinds of literals. -/
inductive LiteralKind where
  | integer | string | bool | null
  deriving DecidableEq, Repr

/-- The binary operators. -/
inductive Operator where
  | equals | notEquals | lt | lte | gt | gte | and | or
  deriving DecidableEq, Repr

/-- The levels of the grammar, from the operator that binds least to those that bind most. -/
inductive Family where
  | or | and | equality | comparison
  deriving DecidableEq, Repr

/-- A token without members. -/
inductive Atom where
  | literal (kind : LiteralKind)
  | var
  | operator (op : Operator)
  deriving DecidableEq, Repr

/-- What an item of a source is. -/
inductive Token where
  | atom (kind : Atom)
  | group
  deriving DecidableEq, Repr

namespace Operator

/-- How the operator is spelled. -/
def symbol : Operator → String
  | equals => "=="
  | notEquals => "!="
  | lt => "<"
  | lte => "<="
  | gt => ">"
  | gte => ">="
  | and => "&&"
  | or => "||"

/-- The level of the grammar the operator belongs to. -/
def family : Operator → Family
  | equals | notEquals => .equality
  | lt | lte | gt | gte => .comparison
  | and => .and
  | or => .or

/-- All operators, those with the longer spelling first: a text that begins with both `<=` and `<` is read as the longer. -/
def longestFirst : List Operator := [equals, notEquals, lte, gte, and, or, lt, gt]

/-- The operator's name in a dump. -/
def name : Operator → String
  | equals => "Equals"
  | notEquals => "NotEquals"
  | lt => "Lt"
  | lte => "Lte"
  | gt => "Gt"
  | gte => "Gte"
  | and => "And"
  | or => "Or"

theorem mem_longestFirst (op : Operator) : op ∈ longestFirst := by cases op <;> decide

end Operator

namespace Token

/-- The tokens of the literals, the variable token and the tokens of the operators. -/
@[match_pattern] abbrev literal (kind : LiteralKind) : Token := .atom (.literal kind)

@[match_pattern, inherit_doc literal] abbrev var : Token := .atom .var

@[match_pattern, inherit_doc literal] abbrev operator (op : Operator) : Token := .atom (.operator op)

/-- The token as messages show it: the kind of a literal in lower case, the symbol of an operator. -/
def display : Token → String
  | literal .integer => "integer"
  | literal .string => "string"
  | literal .bool => "bool"
  | literal .null => "null"
  | var => "variable"
  | operator op => op.symbol
  | group => "group"

instance : ToString Token := ⟨display⟩

/-- The token's name in a dump. -/
def name : Token → String
  | literal .integer => "Integer"
  | literal .string => "String"
  | literal .bool => "Bool"
  | literal .null => "Null"
  | var => "Variable"
  | operator op => op.name
  | group => "Group"

/-- The token is one of a literal. -/
def isLiteral : Token → Bool
  | literal _ => true
  | _ => false

/-- The operator of the given family that the token is, if it is one. -/
def operatorIn? (family : Family) : Token → Option Operator
  | operator op => if op.family = family then some op else none
  | _ => none

/-- All tokens. -/
def all : List Token :=
  [literal .integer, literal .string, literal .bool, literal .null, var] ++ Operator.longestFirst.map operator ++ [group]

/-- The token of a given name. -/
def ofName? (name : String) : Option Token := all.find? (fun token => token.name == name)

theorem ofName?_name (token : Token) : ofName? token.name = some token := by
  rcases token with (kind | _ | op) | _
  · cases kind <;> decide
  · decide
  · cases op <;> decide
  · decide

theorem operatorIn?_eq_some_iff {family : Family} {token : Token} {op : Operator} :
    token.operatorIn? family = some op ↔ token = operator op ∧ op.family = family := by
  rcases token with (_ | _ | op') | _ <;> simp [operatorIn?]
  constructor
  · rintro ⟨h, rfl⟩
    exact ⟨rfl, h⟩
  · rintro ⟨rfl, h⟩
    exact ⟨h, rfl⟩

end Token

end RuleLang
