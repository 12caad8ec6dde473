import RuleLang.Expr.Eval
import RuleLang.Proofs.Result

/-!
# What a node makes of its operands

The value of a binary node, from what its operands come to. A node whose operator is not of its family is refused before it looks at
them. Any other fails with its left operand, has the value of the left operand if that decides the node (`Family.decisive?`), and
otherwise goes on with the right operand (`Expr.eval_of_undecided`). So there are four ways for it to fail
(`Expr.eval_binary_eq_error_iff`).
-/

namespace RuleLang

/-- The value of the left operand that decides a node of the family, if there is one: true decides an or, and false an and. -/
def Family.decisive? : Family → Option Value
  | .or => some (.bool true)
  | .and => some (.bool false)
  | .equality => none
  | .comparison => none

theorem Operator.decides_iff {op : Operator} {v : Value} : op.decides v = true ↔ op.family.decisive? = some v := by
  cases op <;> rcases v with _ | _ | _ | (_ | _) <;> simp [Operator.decides, Operator.family, Family.decisive?]

/-- The value that decides a node is a truth value. -/
theorem Family.exists_bool_of_decisive? {family : Family} {v : Value} (h : family.decisive? = some v) : ∃ b, v = .bool b := by
  cases family with
  | or => exact ⟨true, (Option.some.inj h).symm⟩
  | and => exact ⟨false, (Option.some.inj h).symm⟩
  | equality => cases h
  | comparison => cases h

/-- An operator gives a truth value, unless it is an and or an or, which give their right operand. -/
theorem Operator.exists_bool_or_eq_of_apply {op : Operator} {l r v : Value} (h : op.apply l r = .ok v) :
    (∃ b, v = .bool b) ∨ ((op = .and ∨ op = .or) ∧ v = r) := by
  have horder : ∀ {test}, op.applyOrder test l r = .ok v → ∃ b, v = .bool b := by
    intro test h
    unfold applyOrder at h
    split at h
    · cases h
      exact ⟨_, rfl⟩
    · cases h
  cases op with
  | and => exact Or.inr ⟨Or.inl rfl, (Except.ok.inj h).symm⟩
  | or => exact Or.inr ⟨Or.inr rfl, (Except.ok.inj h).symm⟩
  | equals => exact Or.inl ⟨_, (Except.ok.inj h).symm⟩
  | notEquals => exact Or.inl ⟨_, (Except.ok.inj h).symm⟩
  | lt => exact Or.inl (horder h)
  | lte => exact Or.inl (horder h)
  | gt => exact Or.inl (horder h)
  | gte => exact Or.inl (horder h)

theorem Token.operatorIn?_eq_none_iff {family : Family} {token : Token} :
    token.operatorIn? family = none ↔ ∀ op, token = .operator op → op.family ≠ family := by
  rw [Option.eq_none_iff_forall_ne_some]
  constructor
  · intro h op ht hf
    exact h op (operatorIn?_eq_some_iff.mpr ⟨ht, hf⟩)
  · intro h op ho
    obtain ⟨ht, hf⟩ := operatorIn?_eq_some_iff.mp ho
    exact h op ht hf

namespace Expr

section

variable {bindings : Bindings} {family : Family} {lhs rhs : Expr} {span : Span}

/-- An operator that is not of the node's family is refused, whatever the operands are. -/
theorem eval_of_unfit {token : Token} (h : token.operatorIn? family = none) :
    (binary family lhs token span rhs).eval bindings = .error (.unknownOperation token) := by
  simp only [eval, h]

variable {op : Operator} (hf : op.family = family)

include hf

/-- A node fails with its left operand. -/
theorem eval_of_lhs_error {error : EvalError} (hl : lhs.eval bindings = .error error) :
    (binary family lhs (.operator op) span rhs).eval bindings = .error error := by
  simp only [eval, Token.operatorIn?_eq_some_iff.mpr ⟨rfl, hf⟩, hl]

/-- A decided node has the value of its left operand. -/
theorem eval_of_decided {l : Value} (hl : lhs.eval bindings = .ok l) (hd : family.decisive? = some l) :
    (binary family lhs (.operator op) span rhs).eval bindings = .ok l := by
  subst hf
  simp only [eval, Token.operatorIn?_eq_some_iff.mpr ⟨rfl, rfl⟩, hl, Operator.decides_iff.mpr hd, if_true]

/-- A node that its left operand leaves open goes on with the right one. -/
theorem eval_of_undecided {l : Value} (hl : lhs.eval bindings = .ok l) (hd : family.decisive? ≠ some l) :
    (binary family lhs (.operator op) span rhs).eval bindings = rhs.eval bindings >>= op.apply l := by
  subst hf
  have hopen : op.decides l = false := Bool.eq_false_iff.mpr fun h => hd (Operator.decides_iff.mp h)
  simp only [eval, Token.operatorIn?_eq_some_iff.mpr ⟨rfl, rfl⟩, hl, hopen, Bool.false_eq_true, if_false]
  cases rhs.eval bindings <;> rfl

end

/-- An and or an or that its left operand leaves open is its right operand. -/
theorem eval_of_passed {bindings : Bindings} {lhs rhs : Expr} {span : Span} {op : Operator} (hop : op = .and ∨ op = .or) {l : Value}
    (hl : lhs.eval bindings = .ok l) (hd : op.family.decisive? ≠ some l) :
    (binary op.family lhs (.operator op) span rhs).eval bindings = rhs.eval bindings := by
  rw [eval_of_undecided rfl hl hd]
  rcases hop with rfl | rfl
  · cases rhs.eval bindings <;> rfl
  · cases rhs.eval bindings <;> rfl

/-- A node fails for its operator, with its left operand, with its right one, or because its operator fails on their values. -/
theorem eval_binary_eq_error_iff {bindings : Bindings} {family : Family} {lhs rhs : Expr} {token : Token} {span : Span}
    {error : EvalError} :
    (binary family lhs token span rhs).eval bindings = .error error ↔
      (token.operatorIn? family = none ∧ error = .unknownOperation token) ∨
        ∃ op, token = .operator op ∧ op.family = family ∧
          (lhs.eval bindings = .error error ∨ ∃ l, lhs.eval bindings = .ok l ∧ family.decisive? ≠ some l ∧
            (rhs.eval bindings = .error error ∨ ∃ r, rhs.eval bindings = .ok r ∧ op.apply l r = .error error)) := by
  cases ho : token.operatorIn? family with
  | none =>
    rw [eval_of_unfit ho]
    constructor
    · intro h
      exact Or.inl ⟨rfl, (Except.error.inj h).symm⟩
    · rintro (⟨_, rfl⟩ | ⟨op, ht, hf, _⟩)
      · rfl
      · exact absurd hf (Token.operatorIn?_eq_none_iff.mp ho op ht)
  | some op =>
    obtain ⟨rfl, hf⟩ := Token.operatorIn?_eq_some_iff.mp ho
    constructor
    · intro h
      refine Or.inr ⟨op, rfl, hf, ?_⟩
      cases hl : lhs.eval bindings with
      | error error' =>
        rw [eval_of_lhs_error hf hl] at h
        exact Or.inl h
      | ok l =>
        by_cases hd : family.decisive? = some l
        · rw [eval_of_decided hf hl hd] at h
          cases h
        · rw [eval_of_undecided hf hl hd] at h
          exact Or.inr ⟨l, rfl, hd, bind_eq_error_iff.mp h⟩
    · rintro (⟨hnone, _⟩ | ⟨op', ht, _, h⟩)
      · cases hnone
      · obtain rfl : op = op' := by simpa using ht
        rcases h with hl | ⟨l, hl, hd, hr⟩
        · exact eval_of_lhs_error hf hl
        · rw [eval_of_undecided hf hl hd]
          exact bind_eq_error_iff.mpr hr

/-- A node has the value of its left operand if that decides it, and otherwise what its operator makes of both values. -/
theorem eval_binary_eq_ok_iff {bindings : Bindings} {family : Family} {lhs rhs : Expr} {token : Token} {span : Span} {v : Value} :
    (binary family lhs token span rhs).eval bindings = .ok v ↔
      ∃ op, token = .operator op ∧ op.family = family ∧ ∃ l, lhs.eval bindings = .ok l ∧
        ((family.decisive? = some l ∧ v = l) ∨
          (family.decisive? ≠ some l ∧ ∃ r, rhs.eval bindings = .ok r ∧ op.apply l r = .ok v)) := by
  constructor
  · intro h
    cases ho : token.operatorIn? family with
    | none =>
      rw [eval_of_unfit ho] at h
      cases h
    | some op =>
      obtain ⟨rfl, hf⟩ := Token.operatorIn?_eq_some_iff.mp ho
      refine ⟨op, rfl, hf, ?_⟩
      cases hl : lhs.eval bindings with
      | error error =>
        rw [eval_of_lhs_error hf hl] at h
        cases h
      | ok l =>
        refine ⟨l, rfl, ?_⟩
        by_cases hd : family.decisive? = some l
        · rw [eval_of_decided hf hl hd] at h
          exact Or.inl ⟨hd, (Except.ok.inj h).symm⟩
        · rw [eval_of_undecided hf hl hd] at h
          exact Or.inr ⟨hd, bind_eq_ok_iff.mp h⟩
  · rintro ⟨op, rfl, hf, l, hl, ⟨hd, rfl⟩ | ⟨hd, r, hr, happly⟩⟩
    · exact eval_of_decided hf hl hd
    · rw [eval_of_undecided hf hl hd, hr]
      exact happly

end Expr

end RuleLang
