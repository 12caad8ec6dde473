import RuleLang.Text.Decimal
import RuleLang.Text.Quoted
import Std.Data.TreeMap

/-!
# Values and binding tables

An expression evaluates to a value: null, an integer, a string or a truth value. Integers are natural numbers without a bound.
A binding table gives values to the names of variables, and a name it does not hold reads as null.
-/

namespace RuleLang

/-- What an expression evaluates to. -/
inductive Value where
  | null
  | integer (n : Nat)
  | string (text : String)
  | bool (b : Bool)
  deriving DecidableEq, Repr

namespace Value

/-- The value as a result is printed: a string is quoted, an integer has no leading zeros. -/
def display : Value → String
  | null => "null"
  | integer n => decimal n
  | string text => quoted text
  | bool true => "true"
  | bool false => "false"

instance : ToString Value := ⟨display⟩

/-- The name of the value's type. -/
def typeName : Value → String
  | null => "null"
  | integer _ => "integer"
  | string _ => "string"
  | bool _ => "bool"

/-- The truth value that the value is, if it is one. -/
def bool? : Value → Option Bool
  | bool b => some b
  | _ => none

/-- The value is null. -/
def isNull : Value → Bool
  | null => true
  | _ => false

/-- The value as a term of its constructors. -/
def dump : Value → String
  | null => "Null"
  | integer n => "Integer(Natural(\"" ++ decimal n ++ "\"))"
  | string text => "Str(" ++ quoted text ++ ")"
  | bool b => "Bool(" ++ (bool b).display ++ ")"

end Value

/-- The types whose elements stand for values. -/
class ToValue (α : Type) where
  /-- The value that an element stands for. -/
  toValue : α → Value

export ToValue (toValue)

instance : ToValue UInt64 := ⟨fun w => .integer w.toNat⟩
instance : ToValue UInt32 := ⟨fun w => .integer w.toNat⟩
instance : ToValue Bool := ⟨.bool⟩
instance : ToValue String := ⟨.string⟩

/-- A missing element stands for null. -/
instance {α : Type} [ToValue α] : ToValue (Option α) := ⟨fun x => x.elim .null toValue⟩

/-- A binding table: the values of the names it holds. Names are written without the `$` of a variable. -/
abbrev Bindings := Std.TreeMap String Value

/-- The value of a name, null where the table has no entry for it. -/
def Bindings.lookup (bindings : Bindings) (name : String) : Value := bindings.getD name .null

theorem Bindings.lookup_insert (bindings : Bindings) (name other : String) (value : Value) :
    Bindings.lookup (bindings.insert name value) other = if name = other then value else bindings.lookup other := by
  simp [Bindings.lookup, Std.TreeMap.getD_insert]

theorem Bindings.lookup_empty (name : String) : Bindings.lookup ∅ name = .null := by
  simp [Bindings.lookup]

end RuleLang
