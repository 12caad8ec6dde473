import RuleLang.Item.Basic

/-!
# Why a source has no items

A source that cannot be divided into items has a first place where it fails. The error names the fault, the text at that place
and its span, or the limit that a group would pass.
-/

namespace RuleLang

/-- What is wrong with a piece of a source: it begins no item, or it begins one that does not end, or it closes a group that
was not opened, or it is a variable without a name. -/
inductive Fault where
  | unknownToken | unclosedString | unclosedGroup | unexpectedCloseParen | emptyVariable
  deriving DecidableEq, Repr

/-- Why a source has no items: a piece of it is malformed, or a group nests deeper than the limit. -/
inductive LexError where
  | malformed (fault : Fault) (text : String) (span : Span)
  | tooDeep (limit : Nat) (span : Span)
  deriving DecidableEq, Repr

/-- The fault's name in a dump. -/
def Fault.name : Fault → String
  | unknownToken => "UnknownToken"
  | unclosedString => "UnclosedString"
  | unclosedGroup => "UnclosedGroup"
  | unexpectedCloseParen => "UnexpectedCloseParen"
  | emptyVariable => "EmptyVariable"

namespace LexError

/-- The place of the error. -/
def span : LexError → Span
  | malformed _ _ span => span
  | tooDeep _ span => span

/-- The error as it is told. The text of the source is shown as it is, without escapes. -/
def display : LexError → String
  | malformed .unknownToken text span => "Unknown token `" ++ text ++ "` at position " ++ span.display
  | malformed .unclosedString text span => "String `" ++ text ++ "` starts at " ++ span.display ++ " is not closed"
  | malformed .unclosedGroup text span => "Group `" ++ text ++ "` starts at " ++ span.display ++ " is never closed"
  | malformed .unexpectedCloseParen text span =>
    "Unexpected `" ++ text ++ "` at " ++ span.display ++ " without a matching `(`"
  | malformed .emptyVariable text span => "Variable `" ++ text ++ "` at " ++ span.display ++ " has no name after `$`"
  | tooDeep limit span => "Group at " ++ span.display ++ " is nested deeper than " ++ decimal limit ++ " levels"

instance : ToString LexError := ⟨display⟩

/-- The name of the kind of error in a dump. -/
def name : LexError → String
  | malformed fault _ _ => fault.name
  | tooDeep _ _ => "TooDeep"

/-- The error as a term of its constructors. -/
def dump : LexError → String
  | malformed fault text span => fault.name ++ "(" ++ quoted text ++ ", " ++ span.dump ++ ")"
  | tooDeep limit span => "TooDeep(" ++ decimal limit ++ ", " ++ span.dump ++ ")"

end LexError

end RuleLang
