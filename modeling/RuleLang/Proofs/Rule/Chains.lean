import Mathlib
import RuleLang.Proofs.Expr.Operands
import RuleLang.Proofs.Expr.Renaming
import RuleLang.Proofs.Rule.Compiling

/-!
# Chains of one connective

The grammar takes one operator of a family at a time, so a longer run of ands, or of ors, needs parentheses. Where they stand does not
matter: however its nodes are put together, such a chain (`Chain`) has the result of its first operand that fails or decides a node, or
else that of its last operand (`Operator.chainResult?`).
-/

namespace RuleLang

namespace Operator

/-- The result of an operand settles a chain of the operator: it is a failure, or the value that decides a node. -/
def settles (op : Operator) : Except EvalError Value → Bool
  | .error _ => true
  | .ok v => op.decides v

/-- Of the results of some operands the first that settles a chain, or else the last. -/
def chainResult? (op : Operator) (results : List (Except EvalError Value)) : Option (Except EvalError Value) :=
  (results.find? op.settles).or results.getLast?

section

variable {op : Operator} {left right : List (Except EvalError Value)} {result : Except EvalError Value}

theorem chainResult?_singleton : op.chainResult? [result] = some result := by
  rw [chainResult?, List.find?_singleton]
  cases op.settles result <;> rfl

/-- The result is either the first that settles the chain, or none does. -/
theorem find?_settles_of_chainResult? (h : op.chainResult? left = some result) :
    left.find? op.settles = if op.settles result then some result else none := by
  unfold chainResult? at h
  cases hf : left.find? op.settles with
  | some first =>
    rw [hf, Option.some_or] at h
    obtain rfl := Option.some.inj h
    rw [if_pos (List.find?_some hf)]
  | none =>
    rw [hf, Option.none_or] at h
    rw [if_neg (List.find?_eq_none.mp hf result (List.mem_of_getLast? h))]

/-- A result that settles the left part of a chain is that of the chain. -/
theorem chainResult?_append_of_settles (h : op.chainResult? left = some result) (hs : op.settles result = true) :
    op.chainResult? (left ++ right) = some result := by
  rw [chainResult?, List.find?_append, find?_settles_of_chainResult? h, if_pos hs, Option.some_or, Option.some_or]

/-- A left part whose result does not settle the chain leaves it to the right part. -/
theorem chainResult?_append_of_not_settles {result' : Except EvalError Value} (h : op.chainResult? left = some result)
    (hs : ¬op.settles result = true) (h' : op.chainResult? right = some result') : op.chainResult? (left ++ right) = some result' := by
  rw [chainResult?, List.find?_append, find?_settles_of_chainResult? h, if_neg hs, Option.none_or, List.getLast?_append,
    ← Option.or_assoc, ← chainResult?, h', Option.some_or]

end

end Operator

/-- The tree is put together from operands, in their order, by nodes of the operator alone. -/
inductive Chain (op : Operator) : Expr → List Expr → Prop
  | operand (e : Expr) : Chain op e [e]
  | node {lhs rhs : Expr} {left right : List Expr} (span : Span) : Chain op lhs left → Chain op rhs right →
      Chain op (.binary op.family lhs (.operator op) span rhs) (left ++ right)

/-- A chain of ands or of ors has the result of its first operand that settles it, or else that of its last one. -/
theorem Chain.chainResult?_eq {op : Operator} (hop : op = .and ∨ op = .or) {e : Expr} {operands : List Expr}
    (h : Chain op e operands) (bindings : Bindings) :
    op.chainResult? (operands.map (Expr.eval bindings)) = some (e.eval bindings) := by
  induction h with
  | operand e => exact Operator.chainResult?_singleton
  | @node lhs rhs left right span _ _ ihl ihr =>
    rw [List.map_append]
    cases hl : lhs.eval bindings with
    | error error =>
      rw [Expr.eval_of_lhs_error rfl hl]
      exact Operator.chainResult?_append_of_settles (ihl.trans (congrArg some hl)) rfl
    | ok l =>
      rw [hl] at ihl
      by_cases hd : op.family.decisive? = some l
      · rw [Expr.eval_of_decided rfl hl hd]
        exact Operator.chainResult?_append_of_settles ihl (Operator.decides_iff.mpr hd)
      · rw [Expr.eval_of_passed hop hl hd]
        exact Operator.chainResult?_append_of_not_settles ihl (fun hs => hd (Operator.decides_iff.mp hs)) ihr

/-- Chains of ands or of ors whose operands are the same but for their places have the same result. -/
theorem Chain.eval_eq {op : Operator} (hop : op = .and ∨ op = .or) {e e' : Expr} {operands operands' : List Expr}
    (h : Chain op e operands) (h' : Chain op e' operands') (hsame : operands.map Expr.unplaced = operands'.map Expr.unplaced)
    (bindings : Bindings) : e.eval bindings = e'.eval bindings := by
  have hunplaced : ∀ operands : List Expr,
      operands.map (Expr.eval bindings) = (operands.map Expr.unplaced).map (Expr.eval bindings) := by
    intro operands
    rw [List.map_map]
    exact List.map_congr_left fun e _ => (Expr.eval_unplaced bindings e).symm
  have heq := h.chainResult?_eq hop bindings
  rw [hunplaced, hsame, ← hunplaced, h'.chainResult?_eq hop bindings] at heq
  exact (Option.some.inj heq).symm

/-- However a chain of ands or of ors is put together, its result is that of its first operand that fails or has the value that decides
a node, or else that of its last operand, so chains over the same operands have one result. Sources that differ only in how their
parentheses put together such a chain have the same value or error. -/
theorem eval_of_chain (bindings : Bindings) {op : Operator} (hop : op = .and ∨ op = .or) :
    (∀ (e : Expr) (operands : List Expr), Chain op e operands →
      op.chainResult? (operands.map (Expr.eval bindings)) = some (e.eval bindings)) ∧
      (∀ (e e' : Expr) (operands : List Expr), Chain op e operands → Chain op e' operands → e.eval bindings = e'.eval bindings) ∧
      ∀ (source source' : String) (e e' : Expr) (operands operands' : List Expr), compile source = .ok e →
        compile source' = .ok e' → Chain op e operands → Chain op e' operands' →
        operands.map Expr.unplaced = operands'.map Expr.unplaced → evaluate source bindings = evaluate source' bindings := by
  refine ⟨fun e operands h => h.chainResult?_eq hop bindings, fun e e' operands h h' => h.eval_eq hop h' rfl bindings, ?_⟩
  intro source source' e e' operands operands' hc hc' h h' hsame
  rw [evaluate_of_compile hc, evaluate_of_compile hc', h.eval_eq hop h' hsame bindings]

/-- The null is passed over and the second operand fails, whichever way the third is joined to it. -/
theorem eval_of_chain_three :
    evaluate "($a&&(1<true))&&$b" ∅ = evaluate "$a&&((1<true)&&$b)" ∅ ∧
      evaluate "($a&&(1<true))&&$b" ∅ = .error (.eval (.mismatchType .lt (.integer 1) (.bool true))) := by
  have h : compile "($a&&(1<true))&&$b" = .ok
      (.binary .and
        (.binary .and (.var ⟨.var, "$a", ⟨1, 3⟩⟩) (.operator .and) ⟨3, 5⟩
          (.binary .comparison (.literal ⟨.literal .integer, "1", ⟨6, 7⟩⟩) (.operator .lt) ⟨7, 8⟩
            (.literal ⟨.literal .bool, "true", ⟨8, 12⟩⟩)))
        (.operator .and) ⟨14, 16⟩ (.var ⟨.var, "$b", ⟨16, 18⟩⟩)) := by
    cbv
  have h' : compile "$a&&((1<true)&&$b)" = .ok
      (.binary .and (.var ⟨.var, "$a", ⟨0, 2⟩⟩) (.operator .and) ⟨2, 4⟩
        (.binary .and
          (.binary .comparison (.literal ⟨.literal .integer, "1", ⟨6, 7⟩⟩) (.operator .lt) ⟨7, 8⟩
            (.literal ⟨.literal .bool, "true", ⟨8, 12⟩⟩))
          (.operator .and) ⟨13, 15⟩ (.var ⟨.var, "$b", ⟨15, 17⟩⟩))) := by
    cbv
  obtain ⟨_, _, hsource⟩ := eval_of_chain ∅ (Or.inl rfl)
  constructor
  · refine hsource _ _ _ _ _ _ h h' (.node _ (.node _ (.operand _) (.operand _)) (.operand _))
      (.node _ (.operand _) (.node _ (.operand _) (.operand _))) ?_
    rfl
  · rw [evaluate_of_compile h]
    cbv

end RuleLang
