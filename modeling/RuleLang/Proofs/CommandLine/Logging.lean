import Mathlib
import RuleLang.CommandLine

/-!
# Verbosity does not interfere

`run` computes what a run does and all the records it writes, and a verbosity then chooses among the records. A program that logs
works the other way round: it is told the verbosity when it starts, and wherever it has something to tell it asks whether to. Here
the command line is written as such a program (`Logging.run`), which could do anything with what it is told. It does not: at every
verbosity it has the result of `run` and writes those of its records that are shown (`Logging.writes_run`). So two runs at
different verbosities differ in nothing but the records of the levels that only the more verbose one shows
(`runAt_noninterference`).
-/

namespace RuleLang

variable {α β : Type}

/-- A program that reads the verbosity and adds records to a log. -/
abbrev Logged := ReaderT Verbosity (StateM (List Record))

namespace Logging

/-- Writes a record if the verbosity shows its level. -/
def tell (record : Record) : Logged Unit := fun verbosity =>
  if verbosity.shows record.level then modify (· ++ [record]) else pure ()

/-- Divides a source into items, and tells each item once all of them are found. -/
def lex (source : String) : Logged (Except LexError (List Item)) := do
  match RuleLang.lex source with
  | .error e => return .error e
  | .ok items =>
    items.forM fun item => tell item.record
    return .ok items

/-- Compiles a source and tells the expression. -/
def compile (source : String) : Logged (Except Error Expr) := do
  match ← lex source with
  | .error e => return .error (.lex e)
  | .ok items =>
    match parse items with
    | .error e => return .error (.parse e)
    | .ok expr =>
      tell ⟨.trace, .program, expr.display⟩
      return .ok expr

/-- Evaluates an expression and tells its value. -/
def interpret (expr : Expr) (bindings : Bindings) : Logged (Except EvalError Value) := do
  match expr.eval bindings with
  | .error e => return .error e
  | .ok value =>
    tell ⟨.trace, .program, expr.display ++ " => " ++ value.display⟩
    return .ok value

/-- Compiles a source and evaluates its expression. -/
def evaluate (source : String) (bindings : Bindings) : Logged (Except Error Value) := do
  match ← compile source with
  | .error e => return .error e
  | .ok expr => return (← interpret expr bindings).mapError .eval

/-- Binds one argument, and tells the name and the value. -/
def bindArgument (argument : String) : Logged (Except Failure (String × Value)) := do
  match splitBinding? argument with
  | none => return .error (.notABinding argument)
  | some (name, source) =>
    match ← evaluate source ∅ with
    | .error e => return .error (.badBinding name e)
    | .ok value =>
      tell ⟨.debug, .program, "$" ++ name ++ " = " ++ value.display⟩
      return .ok (name, value)

/-- Binds arguments from left to right on top of a table, up to the first that cannot be bound. -/
def bindArguments (bindings : Bindings) : List String → Logged (Except Failure Bindings)
  | [] => return .ok bindings
  | argument :: arguments => do
    match ← bindArgument argument with
    | .error failure => return .error failure
    | .ok (name, value) => bindArguments (bindings.insert name value) arguments

/-- Evaluates a rule against the bound names, and tells an error with its place. -/
def runRule (source : String) (bindings : Bindings) : Logged (Except Failure Value) := do
  tell ⟨.info, .program, "Evaluating with " ++ decimal bindings.size ++ " binding(s)"⟩
  match ← evaluate source bindings with
  | .ok value => return .ok value
  | .error e =>
    tell ⟨.error, .program, report source e⟩
    return .error (.rule e)

/-- The program of the command line. -/
def run : List String → Logged (Except Failure Value)
  | [] => return .error .usage
  | source :: arguments => do
    tell ⟨.debug, .program, quoted source⟩
    match ← bindArguments ∅ arguments with
    | .error failure => return .error failure
    | .ok bindings => runRule source bindings

end Logging

/-- What the program of the command line does at a verbosity, beginning with an empty log. -/
def runAt (verbosity : Verbosity) (arguments : List String) : Run :=
  let (result, records) := ((Logging.run arguments).run verbosity).run []
  ⟨records, result⟩

namespace Logging

/-! ### What a program writes -/

/-- At every verbosity the program has the result, and adds to the log those of the records that are shown. -/
def Writes (program : Logged α) (records : List Record) (result : α) : Prop :=
  ∀ (verbosity : Verbosity) (log : List Record),
    (program.run verbosity).run log = (result, log ++ records.filter (verbosity.shows ·.level))

theorem writes_pure (a : α) : Writes (pure a) [] a := by
  intro verbosity log
  rw [List.filter_nil, List.append_nil]
  rfl

theorem writes_tell (record : Record) : Writes (tell record) [record] () := by
  intro verbosity log
  rw [List.filter_cons, List.filter_nil, ReaderT.run, tell]
  cases verbosity.shows record.level with
  | true => rfl
  | false =>
    rw [if_neg (by decide), if_neg (by decide), List.append_nil]
    rfl

/-- What the second part of a program writes comes after what the first part writes. -/
theorem Writes.bind {program : Logged α} {next : α → Logged β} {records others : List Record} {a : α} {b : β}
    (h : Writes program records a) (hnext : Writes (next a) others b) : Writes (program >>= next) (records ++ others) b := by
  intro verbosity log
  rw [ReaderT.run_bind, StateT.run_bind, h verbosity log, List.filter_append, ← List.append_assoc]
  exact hnext verbosity _

/-- A program that ends by giving back a result writes what it has written. -/
theorem Writes.bind_pure {program : Logged α} {next : α → Logged β} {records : List Record} {a : α} {b : β}
    (h : Writes program records a) (hnext : next a = pure b) : Writes (program >>= next) records b := by
  have hend : Writes (next a) [] b := hnext ▸ writes_pure b
  have hbind := h.bind hend
  rwa [List.append_nil] at hbind

/-- A program that tells records one after the other writes them. -/
theorem writes_forM (items : List α) (record : α → Record) :
    Writes (items.forM fun item => tell (record item)) (items.map record) () := by
  induction items with
  | nil => exact writes_pure ()
  | cons item items ih => exact (writes_tell (record item)).bind ih

/-! ### What the command line writes -/

theorem writes_lex (source : String) :
    Writes (lex source) (((RuleLang.lex source).toOption.getD []).map Item.record) (RuleLang.lex source) := by
  rw [lex]
  cases RuleLang.lex source with
  | error e => exact writes_pure _
  | ok items => exact (writes_forM items Item.record).bind_pure rfl

theorem writes_interpret (expr : Expr) (bindings : Bindings) :
    Writes (interpret expr bindings) (match expr.eval bindings with
      | .error _ => []
      | .ok value => [⟨.trace, .program, expr.display ++ " => " ++ value.display⟩]) (expr.eval bindings) := by
  rw [interpret]
  cases expr.eval bindings with
  | error e => exact writes_pure _
  | ok value => exact (writes_tell _).bind_pure rfl

/-- The evaluation of a source writes the records of its stages, as far as it gets. -/
theorem writes_evaluate (source : String) (bindings : Bindings) :
    Writes (evaluate source bindings) (evaluationRecords source bindings) (RuleLang.evaluate source bindings) := by
  have hitems := writes_lex source
  rw [evaluationRecords, RuleLang.evaluate, RuleLang.compile]
  cases hlex : RuleLang.lex source with
  | error e =>
    rw [hlex] at hitems
    have hcompile : Writes (compile source) [] (.error (.lex e)) := hitems.bind_pure rfl
    exact hcompile.bind_pure rfl
  | ok items =>
    rw [hlex] at hitems
    simp only
    cases hparse : parse items with
    | error e =>
      have hcompile : Writes (compile source) (items.map Item.record) (.error (.parse e)) :=
        hitems.bind_pure (by simp only [hparse])
      rw [List.append_nil]
      exact hcompile.bind_pure rfl
    | ok expr =>
      have hcompile : Writes (compile source) (items.map Item.record ++ [⟨.trace, .program, expr.display⟩]) (.ok expr) := by
        refine hitems.bind ?_
        simp only [hparse]
        exact (writes_tell _).bind_pure rfl
      rw [List.append_cons]
      exact hcompile.bind ((writes_interpret expr bindings).bind_pure rfl)

/-- Binding an argument writes what the evaluation of its source does, and the binding if there is one. -/
theorem writes_bindArgument (argument : String) :
    Writes (bindArgument argument) (RuleLang.bindArgument argument).1 (RuleLang.bindArgument argument).2 := by
  unfold bindArgument RuleLang.bindArgument
  cases splitBinding? argument with
  | none => exact writes_pure _
  | some parts =>
    obtain ⟨name, source⟩ := parts
    have heval := writes_evaluate source ∅
    simp only
    cases hresult : RuleLang.evaluate source ∅ with
    | error e =>
      rw [hresult] at heval
      exact heval.bind_pure rfl
    | ok value =>
      rw [hresult] at heval
      exact heval.bind ((writes_tell _).bind_pure rfl)

/-- Binding arguments writes what each does, up to the first that cannot be bound. -/
theorem writes_bindArguments (bindings : Bindings) (arguments : List String) :
    Writes (bindArguments bindings arguments) (RuleLang.bindArguments bindings arguments).1
      (RuleLang.bindArguments bindings arguments).2 := by
  induction arguments generalizing bindings with
  | nil => exact writes_pure _
  | cons argument arguments ih =>
    have hfirst := writes_bindArgument argument
    rw [bindArguments, RuleLang.bindArguments]
    rcases hbind : RuleLang.bindArgument argument with ⟨records, failure | ⟨name, value⟩⟩
    · rw [hbind] at hfirst
      exact hfirst.bind_pure rfl
    · rw [hbind] at hfirst
      exact hfirst.bind (ih _)

theorem writes_runRule (source : String) (bindings : Bindings) :
    Writes (runRule source bindings) (RuleLang.runRule source bindings).records (RuleLang.runRule source bindings).result := by
  have heval := writes_evaluate source bindings
  rw [runRule, RuleLang.runRule]
  cases hresult : RuleLang.evaluate source bindings with
  | ok value =>
    rw [hresult] at heval
    exact (writes_tell _).bind (heval.bind_pure rfl)
  | error e =>
    rw [hresult] at heval
    exact (writes_tell _).bind (heval.bind ((writes_tell _).bind_pure rfl))

/-- The program of the command line has the result of `run` and writes the records of `run`. -/
theorem writes_run (arguments : List String) :
    Writes (run arguments) (RuleLang.run arguments).records (RuleLang.run arguments).result := by
  cases arguments with
  | nil => exact writes_pure _
  | cons source arguments =>
    have hbind := writes_bindArguments ∅ arguments
    rw [run, RuleLang.run]
    rcases hresult : RuleLang.bindArguments ∅ arguments with ⟨records, failure | bindings⟩
    · rw [hresult] at hbind
      exact (writes_tell _).bind (hbind.bind_pure rfl)
    · rw [hresult] at hbind
      exact (writes_tell _).bind (hbind.bind (writes_runRule source bindings))

end Logging

/-- At every verbosity the command line has the result of `run` and writes the records of `run` that are shown. -/
theorem runAt_eq (verbosity : Verbosity) (arguments : List String) :
    runAt verbosity arguments = ⟨(run arguments).shown verbosity, (run arguments).result⟩ := by
  rw [runAt, Logging.writes_run arguments verbosity [], List.nil_append]
  rfl

/-- What a less verbose run shows is what it keeps of the records that a more verbose one shows. -/
theorem Run.shown_of_rank_le (run : Run) {less more : Verbosity} (h : less.rank ≤ more.rank) :
    run.shown less = (run.shown more).filter (less.shows ·.level) := by
  rw [shown, shown, List.filter_filter]
  refine List.filter_congr fun record _ => ?_
  rw [Verbosity.shows, Verbosity.shows, ← Bool.decide_and, decide_eq_decide]
  exact ⟨fun hl => ⟨hl, Nat.le_trans hl h⟩, And.left⟩

/-- A run that is told its verbosity does what `run` does and writes what is shown of its records. So two runs with the same
arguments have the same exit code, print the same and end with the same line if they fail, and one that is at most as verbose as the
other writes those of the other's records whose level it shows, in their order. -/
theorem runAt_noninterference (arguments : List String) :
    (∀ verbosity, runAt verbosity arguments = ⟨(run arguments).shown verbosity, (run arguments).result⟩) ∧
    ∀ less more : Verbosity, less.rank ≤ more.rank →
      (runAt less arguments).exitCode = (runAt more arguments).exitCode ∧
      (runAt less arguments).output = (runAt more arguments).output ∧
      (runAt less arguments).failureLine = (runAt more arguments).failureLine ∧
      (runAt less arguments).records = (runAt more arguments).records.filter (less.shows ·.level) := by
  refine ⟨fun verbosity => runAt_eq verbosity arguments, fun less more h => ?_⟩
  rw [runAt_eq, runAt_eq]
  exact ⟨rfl, rfl, rfl, (run arguments).shown_of_rank_le h⟩

/-- A run that binds one name and fails on the next argument, and the records it writes at two levels. The last argument has no part
in either. -/
theorem runAt_noninterference_failed :
    (runAt (.upTo .trace) ["$x", "x=1", "y=(", "z=2"]).records = [⟨.debug, .program, "\"$x\""⟩,
      ⟨.trace, .items, "[0:1] - Text(\"1\")"⟩, ⟨.trace, .program, "1"⟩, ⟨.trace, .program, "1 => 1"⟩,
      ⟨.debug, .program, "$x = 1"⟩] ∧
    (runAt (.upTo .debug) ["$x", "x=1", "y=(", "z=2"]).records =
      [⟨.debug, .program, "\"$x\""⟩, ⟨.debug, .program, "$x = 1"⟩] ∧
    (runAt (.upTo .debug) ["$x", "x=1", "y=(", "z=2"]).exitCode = 1 := by
  have hsplit : splitBinding? "x=1" = some ("x", "1") := by cbv
  have hsplit' : splitBinding? "y=(" = some ("y", "(") := by cbv
  have hlex : lex "1" = .ok [.atom (.literal .integer) "1" ⟨0, 1⟩] := by cbv
  have hparse : parse [.atom (.literal .integer) "1" ⟨0, 1⟩] = .ok (.literal ⟨.literal .integer, "1", ⟨0, 1⟩⟩) := by cbv
  have hlex' : lex "(" = .error (.malformed .unclosedGroup "(" ⟨0, 1⟩) := by cbv
  have hrecords : evaluationRecords "1" ∅ =
      [⟨.trace, .items, "[0:1] - Text(\"1\")"⟩, ⟨.trace, .program, "1"⟩, ⟨.trace, .program, "1 => 1"⟩] := by
    simp only [evaluationRecords, hlex, hparse]
    decide +kernel
  have hnone : evaluationRecords "(" ∅ = [] := by simp only [evaluationRecords, hlex']
  have heval : evaluate "1" ∅ = .ok (.integer 1) := by cbv
  have heval' : evaluate "(" ∅ = .error (.lex (.malformed .unclosedGroup "(" ⟨0, 1⟩)) := by simp only [evaluate, compile, hlex']
  have hrun : run ["$x", "x=1", "y=(", "z=2"] = ⟨[⟨.debug, .program, quoted "$x"⟩,
      ⟨.trace, .items, "[0:1] - Text(\"1\")"⟩, ⟨.trace, .program, "1"⟩, ⟨.trace, .program, "1 => 1"⟩,
      ⟨.debug, .program, "$x = 1"⟩], .error (.badBinding "y" (.lex (.malformed .unclosedGroup "(" ⟨0, 1⟩)))⟩ := by
    simp only [run, bindArguments, bindArgument, hsplit, hsplit', heval, heval', hrecords, hnone]
    rfl
  have hquoted : quoted "$x" = "\"$x\"" := by decide +kernel
  obtain ⟨htied, hfewer⟩ := runAt_noninterference ["$x", "x=1", "y=(", "z=2"]
  have htrace : (runAt (.upTo .trace) ["$x", "x=1", "y=(", "z=2"]).records = [⟨.debug, .program, "\"$x\""⟩,
      ⟨.trace, .items, "[0:1] - Text(\"1\")"⟩, ⟨.trace, .program, "1"⟩, ⟨.trace, .program, "1 => 1"⟩,
      ⟨.debug, .program, "$x = 1"⟩] := by
    rw [htied, hrun, hquoted]
    rfl
  obtain ⟨_, _, _, hkept⟩ := hfewer (.upTo .debug) (.upTo .trace) (by decide)
  refine ⟨htrace, ?_, ?_⟩
  · rw [hkept, htrace]
    rfl
  · rw [htied, hrun]
    rfl

end RuleLang
