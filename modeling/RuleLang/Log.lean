import RuleLang.Rule

/-!
# Records of what a run does

A run tells what it does in records. Each has a level and comes from one part of the program, and a verbosity chooses the levels
that are shown. A record whose text takes several lines is shown on as many, of which only the first begins with its level
(`Record.layout`). The records that the evaluation of a source writes are all of the most verbose level: one for each item at the
top of the source, one for the expression, and one for its value, as far as the evaluation gets (`evaluationRecords`).
-/

namespace RuleLang

/-- How much a record matters, those that matter most first. -/
inductive Level where
  | error | warn | info | debug | trace
  deriving DecidableEq, Repr

/-- The place of the level in the order from the least to the most verbose. -/
def Level.rank : Level → Nat
  | error => 1
  | warn => 2
  | info => 3
  | debug => 4
  | trace => 5

/-- The level's name, five characters wide. -/
def Level.label : Level → String
  | error => "ERROR"
  | warn => "WARN "
  | info => "INFO "
  | debug => "DEBUG"
  | trace => "TRACE"

/-- How verbose a run is: the most verbose level that is shown, or none at all. -/
inductive Verbosity where
  | off
  | upTo (level : Level)
  deriving DecidableEq, Repr

namespace Verbosity

/-- The number of levels that are shown. -/
def rank : Verbosity → Nat
  | off => 0
  | upTo level => level.rank

/-- Records of the level are shown. -/
def shows (verbosity : Verbosity) (level : Level) : Bool := level.rank ≤ verbosity.rank

/-- The verbosity of a run that is not told otherwise. -/
def standard : Verbosity := upTo .error

/-- The verbosity of a given name. -/
def ofName? (name : String) : Option Verbosity :=
  match name with
  | "off" => some off
  | "error" => some (upTo .error)
  | "warn" => some (upTo .warn)
  | "info" => some (upTo .info)
  | "debug" => some (upTo .debug)
  | "trace" => some (upTo .trace)
  | _ => none

end Verbosity

/-- The part of the program that writes a record: the division into items, or any other. -/
inductive Target where
  | items | program
  deriving DecidableEq, Repr

/-- The name that stands in a record for the part of the program. -/
def Target.name : Target → String
  | items => "expr_eval::parse::lex"
  | program => "expr_eval"

/-- One record: its level, the part of the program that wrote it, and what it tells. -/
structure Record where
  level : Level
  target : Target
  text : String
  deriving DecidableEq, Repr

/-- A character as a record shows it: the line that begins behind a line break is set in by four blanks. -/
def indent (c : Char) : List Char := if c = '\n' then ['\n', ' ', ' ', ' ', ' '] else [c]

/-- The lines that show a record. They are those of `env_logger` as it is by default, less the time. -/
def Record.layout (record : Record) : String :=
  "[" ++ record.level.label ++ " " ++ record.target.name ++ "] " ++ .ofList (record.text.toList.flatMap indent) ++ "\n"

/-- The record of one item of a source. -/
def Item.record (item : Item) : Record := ⟨.trace, .items, item.span.display ++ " - " ++ item.dumpContent⟩

/-- The records that the evaluation of a source against a binding table writes, in order. -/
def evaluationRecords (source : String) (bindings : Bindings) : List Record :=
  match lex source with
  | .error _ => []
  | .ok items =>
    items.map Item.record ++
      match parse items with
      | .error _ => []
      | .ok expr =>
        ⟨.trace, .program, expr.display⟩ ::
          match expr.eval bindings with
          | .error _ => []
          | .ok value => [⟨.trace, .program, expr.display ++ " => " ++ value.display⟩]

end RuleLang
