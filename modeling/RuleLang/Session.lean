import RuleLang.Rule

/-!
# Sessions

A session keeps a binding table and the rules compiled under a name. Its steps change the table, compile rules, and evaluate
rules and sources against the table. A step that fails changes nothing.
-/

namespace RuleLang

/-- What a session keeps. -/
structure Session where
  bindings : Bindings
  rules : Std.TreeMap String Expr

/-- One step of a session. -/
inductive Step where
  | set (name : String) (value : Value)
  | unset (name : String)
  | assign (name : String) (source : String)
  | compile (rule : String) (source : String)
  | run (rule : String)
  | eval (source : String)
  | runAll

/-- What a step answers. -/
inductive Answer where
  /-- The table was changed: whether it held the name before, and how many names it holds now. -/
  | changed (had : Bool) (size : Nat)
  | evaluated (result : Except Error Value)
  | compiled (result : Except Error Expr)
  /-- What the rule evaluates to, or nothing if the session has no such rule. -/
  | ran (result : Option (Except EvalError Value))
  | ranAll (results : List (String × Except EvalError Value))

namespace Session

/-- The session before its first step. -/
def empty : Session := ⟨∅, ∅⟩

/-- The session with another binding table, and the answer that tells how the entry of a name has changed. -/
def withBindings (session : Session) (name : String) (bindings : Bindings) : Session × Answer :=
  (⟨bindings, session.rules⟩, .changed (session.bindings.contains name) bindings.size)

/-- The session after a step, and what the step answers. A name bound to null is in the table. All rules are run in the order of
their names. -/
def step (session : Session) : Step → Session × Answer
  | .set name value => session.withBindings name (session.bindings.insert name value)
  | .unset name => session.withBindings name (session.bindings.erase name)
  | .assign name source =>
    let result := evaluate source session.bindings
    match result with
    | .ok value => (⟨session.bindings.insert name value, session.rules⟩, .evaluated result)
    | .error _ => (session, .evaluated result)
  | .compile rule source =>
    let result := RuleLang.compile source
    match result with
    | .ok expr => (⟨session.bindings, session.rules.insert rule expr⟩, .compiled result)
    | .error _ => (session, .compiled result)
  | .run rule => (session, .ran (session.rules[rule]?.map (·.eval session.bindings)))
  | .eval source => (session, .evaluated (evaluate source session.bindings))
  | .runAll => (session, .ranAll (session.rules.toList.map fun (name, expr) => (name, expr.eval session.bindings)))

/-- The answers of the steps, each taken in the session that the steps before it leave. -/
def answers (session : Session) : List Step → List Answer
  | [] => []
  | step :: steps => (session.step step).2 :: answers (session.step step).1 steps

end Session

end RuleLang
