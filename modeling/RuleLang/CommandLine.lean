import RuleLang.Log

/-!
# The command line

The first argument is the source of a rule and every other argument binds a name: what follows its first `=` is a source of its
own, evaluated against the empty table, and its value is what the name before the `=` stands for. The arguments are bound from
left to right, the first that cannot be bound ends the run, and then the rule is evaluated. What a run computes does not depend
on its verbosity, which only chooses the records that are shown.
-/

namespace RuleLang

/-- Why a run has no result. -/
inductive Failure where
  | usage
  | notABinding (argument : String)
  | badBinding (name : String) (error : Error)
  | rule (error : Error)
  deriving DecidableEq, Repr

/-- The failure as the last line of a run shows it: a message between quotes, or the error of the rule as a term. -/
def Failure.dump : Failure → String
  | usage => quoted "usage: expr-eval <expression> [name=value ...]"
  | notABinding argument => quoted ("binding `" ++ argument ++ "` is not in the form name=value")
  | badBinding name error => quoted ("binding `" ++ name ++ "`: " ++ error.display)
  | rule error => error.dump

/-- What a run does: the records it writes, whatever its verbosity, and its result. -/
structure Run where
  records : List Record
  result : Except Failure Value

/-- The name and the source of an argument that binds a name. The name is what stands before the first `=`, less every `$` it
begins with, and it may be empty. -/
def splitBinding? (argument : String) : Option (String × String) :=
  match argument.toList.dropWhile (· != '=') with
  | [] => none
  | _ :: source =>
    some (.ofList ((argument.toList.takeWhile (· != '=')).dropWhile (· == '$')), .ofList source)

/-- Binds one argument: the records this writes, and the name with its value. -/
def bindArgument (argument : String) : List Record × Except Failure (String × Value) :=
  match splitBinding? argument with
  | none => ([], .error (.notABinding argument))
  | some (name, source) =>
    match evaluate source ∅ with
    | .error e => (evaluationRecords source ∅, .error (.badBinding name e))
    | .ok value =>
      (evaluationRecords source ∅ ++ [⟨.debug, .program, "$" ++ name ++ " = " ++ value.display⟩], .ok (name, value))

/-- Binds arguments from left to right on top of a table. A later argument replaces an earlier one of the same name. -/
def bindArguments (bindings : Bindings) : List String → List Record × Except Failure Bindings
  | [] => ([], .ok bindings)
  | argument :: arguments =>
    match bindArgument argument with
    | (records, .error failure) => (records, .error failure)
    | (records, .ok (name, value)) =>
      let (others, result) := bindArguments (bindings.insert name value) arguments
      (records ++ others, result)

/-- The text that reports an error of a rule, with the row and column where it is, if it has a place. -/
def report (source : String) (error : Error) : String :=
  match error.span? with
  | none => error.display
  | some span =>
    let p := span.position source
    error.display ++ " (line " ++ decimal p.row ++ ", column " ++ decimal p.column ++ ")"

/-- Evaluates a rule against the bound names. -/
def runRule (source : String) (bindings : Bindings) : Run :=
  let records :=
    ⟨.info, .program, "Evaluating with " ++ decimal bindings.size ++ " binding(s)"⟩ :: evaluationRecords source bindings
  match evaluate source bindings with
  | .ok value => ⟨records, .ok value⟩
  | .error e => ⟨records ++ [⟨.error, .program, report source e⟩], .error (.rule e)⟩

/-- What a run with the given arguments does. -/
def run : List String → Run
  | [] => ⟨[], .error .usage⟩
  | source :: arguments =>
    let opening : Record := ⟨.debug, .program, quoted source⟩
    match bindArguments ∅ arguments with
    | (records, .error failure) => ⟨opening :: records, .error failure⟩
    | (records, .ok bindings) =>
      let evaluation := runRule source bindings
      ⟨opening :: records ++ evaluation.records, evaluation.result⟩

namespace Run

/-- The exit code: zero if there is a value, one if not. -/
def exitCode (run : Run) : UInt32 :=
  match run.result with
  | .ok _ => 0
  | .error _ => 1

/-- What the run prints: the line of the value, or nothing. -/
def output (run : Run) : String :=
  match run.result with
  | .ok value => value.display ++ "\n"
  | .error _ => ""

/-- The line that ends a failed run. -/
def failureLine (run : Run) : String :=
  match run.result with
  | .ok _ => ""
  | .error failure => "Error: " ++ failure.dump ++ "\n"

/-- The records that a verbosity shows. -/
def shown (run : Run) (verbosity : Verbosity) : List Record := run.records.filter (verbosity.shows ·.level)

/-- What the run tells besides: the records that are shown, and after them the line that ends a failed run. The message that
settings could not be loaded from a `.env` file is left out. It would come before all of this, and whether there is one does not
depend on the arguments. -/
def diagnostics (run : Run) (verbosity : Verbosity) : String :=
  String.join ((run.shown verbosity).map Record.layout) ++ run.failureLine

end Run

end RuleLang
