import Mathlib
import RuleLang.Proofs.Expr.Inlining
import RuleLang.Proofs.Expr.Operands
import RuleLang.Proofs.Rule.Compiling

/-!
# Where a value comes from

Evaluation makes truth values and nothing else. Ands and ors hand a value on: that of the left operand only when it is the truth value
that decides the node, that of the right operand whatever it is. So a value that is no truth value has come up from the leaf that the
right operands of ands and ors lead to (`Expr.spineEnd`), and it is that leaf's own (`Expr.HasOwnValue`). Where they lead to an equality
or a comparison instead there is no such value.
-/

namespace RuleLang

namespace Expr

/-- The node that the right operands of ands and ors lead to from the root. -/
def spineEnd : Expr → Expr
  | binary .or _ _ _ rhs => rhs.spineEnd
  | binary .and _ _ _ rhs => rhs.spineEnd
  | e => e

/-- The expression is a leaf and the value is the leaf's own: what a literal spells, the entry of a variable's name in the table, or
null for a name that has none. -/
inductive HasOwnValue (bindings : Bindings) : Expr → Value → Prop
  | integer {leaf : Leaf} {n : Nat} : leaf.token = .literal .integer → ofDigits? leaf.text = some n →
      HasOwnValue bindings (literal leaf) (.integer n)
  | string {leaf : Leaf} : leaf.token = .literal .string → HasOwnValue bindings (literal leaf) (.string leaf.text)
  | boolTrue {leaf : Leaf} : leaf.token = .literal .bool → leaf.text = "true" → HasOwnValue bindings (literal leaf) (.bool true)
  | boolFalse {leaf : Leaf} : leaf.token = .literal .bool → leaf.text = "false" → HasOwnValue bindings (literal leaf) (.bool false)
  | null {leaf : Leaf} : leaf.token = .literal .null → HasOwnValue bindings (literal leaf) .null
  | entry {leaf : Leaf} {name : String} {v : Value} : leaf.token = .var → leaf.text = "$" ++ name → bindings[name]? = some v →
      HasOwnValue bindings (var leaf) v
  | missing {leaf : Leaf} {name : String} : leaf.token = .var → leaf.text = "$" ++ name → name ∉ bindings →
      HasOwnValue bindings (var leaf) .null

section

variable {bindings : Bindings} {v : Value}

/-- A literal has no value but its own. -/
theorem hasOwnValue_of_value {leaf : Leaf} (h : leaf.value = .ok v) : (literal leaf).HasOwnValue bindings v := by
  unfold Leaf.value at h
  split at h
  · rename_i ht
    split at h
    · rename_i n hn
      cases h
      exact .integer ht hn
    · cases h
  · rename_i ht
    cases h
    exact .string ht
  · rename_i ht
    split at h
    · rename_i htext
      cases h
      exact .boolTrue ht htext
    · split at h
      · rename_i htext
        cases h
        exact .boolFalse ht htext
      · cases h
  · rename_i ht
    cases h
    exact .null ht
  · cases h

/-- A variable has no value but its own. -/
theorem hasOwnValue_of_lookup {leaf : Leaf} (h : leaf.lookup bindings = .ok v) : (var leaf).HasOwnValue bindings v := by
  obtain ⟨token, text, span⟩ := leaf
  unfold Leaf.lookup at h
  split at h
  · rename_i name hname
    cases h
    obtain rfl : token = .var := by
      unfold Leaf.name? at hname
      split at hname
      · assumption
      · cases hname
    have htext := Leaf.name?_var_eq_some_iff.mp hname
    cases hget : bindings[name]? with
    | none =>
      have hmem : name ∉ bindings := by simpa using hget
      rw [Bindings.lookup, Std.TreeMap.getD_eq_getD_getElem?, hget]
      exact .missing rfl htext hmem
    | some w =>
      rw [Bindings.lookup, Std.TreeMap.getD_eq_getD_getElem?, hget]
      exact .entry rfl htext hget
  · cases h

/-- A node whose value is no truth value is an and or an or, and has its value from its right operand. -/
theorem eval_rhs_of_eval_binary {family : Family} {lhs rhs : Expr} {token : Token} {span : Span}
    (h : (binary family lhs token span rhs).eval bindings = .ok v) (hv : ∀ b, v ≠ .bool b) :
    (family = .and ∨ family = .or) ∧ rhs.eval bindings = .ok v := by
  obtain ⟨op, rfl, rfl, l, _, ⟨hd, rfl⟩ | ⟨_, r, hr, happly⟩⟩ := eval_binary_eq_ok_iff.mp h
  · obtain ⟨b, hb⟩ := Family.exists_bool_of_decisive? hd
    exact absurd hb (hv b)
  · rcases Operator.exists_bool_or_eq_of_apply happly with ⟨b, hb⟩ | ⟨hop, rfl⟩
    · exact absurd hb (hv b)
    · refine ⟨?_, hr⟩
      rcases hop with rfl | rfl
      · exact Or.inl rfl
      · exact Or.inr rfl

/-- A value that is no truth value is the own value of the leaf at the end of the spine. -/
theorem hasOwnValue_of_eval {e : Expr} (h : e.eval bindings = .ok v) (hv : ∀ b, v ≠ .bool b) :
    e.spineEnd.HasOwnValue bindings v := by
  induction e with
  | literal leaf => exact hasOwnValue_of_value h
  | var leaf => exact hasOwnValue_of_lookup h
  | binary family lhs token span rhs _ ihr =>
    obtain ⟨hfamily, hr⟩ := eval_rhs_of_eval_binary h hv
    rcases hfamily with rfl | rfl
    · exact ihr hr
    · exact ihr hr

end

/-- The spine does not end in an and or an or. -/
theorem family_of_spineEnd {e lhs rhs : Expr} {family : Family} {token : Token} {span : Span}
    (h : e.spineEnd = binary family lhs token span rhs) : family = .equality ∨ family = .comparison := by
  induction e with
  | literal leaf => cases h
  | var leaf => cases h
  | binary family' lhs' token' span' rhs' _ ihr =>
    cases family' with
    | or => exact ihr h
    | and => exact ihr h
    | equality =>
      cases h
      exact Or.inl rfl
    | comparison =>
      cases h
      exact Or.inr rfl

/-- A value that is no truth value is the own value of a leaf: of the one that the right operands of ands and ors lead to. Where they
lead to an equality or a comparison, the expression has a truth value or none, whatever the table. -/
theorem eval_origin (e : Expr) (bindings : Bindings) :
    (∀ v, e.eval bindings = .ok v → (∀ b, v ≠ .bool b) → e.spineEnd.HasOwnValue bindings v) ∧
      ∀ family lhs token span rhs, e.spineEnd = binary family lhs token span rhs →
        (family = .equality ∨ family = .comparison) ∧
          ((∃ b, e.eval bindings = .ok (.bool b)) ∨ ∃ error, e.eval bindings = .error error) := by
  refine ⟨fun v h hv => hasOwnValue_of_eval h hv, ?_⟩
  intro family lhs token span rhs hend
  refine ⟨family_of_spineEnd hend, ?_⟩
  cases h : e.eval bindings with
  | error error => exact Or.inr ⟨error, rfl⟩
  | ok v =>
    by_cases hv : ∃ b, v = .bool b
    · obtain ⟨b, rfl⟩ := hv
      exact Or.inl ⟨b, rfl⟩
    · -- a value of any other type would be a leaf's, and no leaf stands there
      have hown := hasOwnValue_of_eval h fun b hb => hv ⟨b, hb⟩
      rw [hend] at hown
      cases hown

/-- An integer is passed over, a variable without an entry as well, and the string comes from the table. An equality at the end of the
spine gives a truth value. -/
theorem eval_origin_entry :
    (∃ e, compile "7&&($y||$x)" = .ok e ∧ e.eval ((∅ : Bindings).insert "x" (.string "kept")) = .ok (.string "kept") ∧
      e.spineEnd.HasOwnValue ((∅ : Bindings).insert "x" (.string "kept")) (.string "kept")) ∧
    ∃ e, compile "7&&($y||$x==7)" = .ok e ∧ ∃ lhs token span rhs, e.spineEnd = binary .equality lhs token span rhs ∧
      ((∃ b, e.eval ((∅ : Bindings).insert "x" (.string "kept")) = .ok (.bool b)) ∨
        ∃ error, e.eval ((∅ : Bindings).insert "x" (.string "kept")) = .error error) := by
  have hname : ∀ span, Leaf.name? ⟨.var, "$x", span⟩ = some "x" := fun _ => Leaf.name?_var_eq_some_iff.mpr rfl
  have hname' : ∀ span, Leaf.name? ⟨.var, "$y", span⟩ = some "y" := fun _ => Leaf.name?_var_eq_some_iff.mpr rfl
  constructor
  · have hc : compile "7&&($y||$x)" = .ok (binary .and (literal ⟨.literal .integer, "7", ⟨0, 1⟩⟩) (.operator .and) ⟨1, 3⟩
        (binary .or (var ⟨.var, "$y", ⟨4, 6⟩⟩) (.operator .or) ⟨6, 8⟩ (var ⟨.var, "$x", ⟨8, 10⟩⟩))) := by
      cbv
    refine ⟨_, hc, ?_⟩
    have hv : Expr.eval ((∅ : Bindings).insert "x" (.string "kept")) (binary .and (literal ⟨.literal .integer, "7", ⟨0, 1⟩⟩)
        (.operator .and) ⟨1, 3⟩ (binary .or (var ⟨.var, "$y", ⟨4, 6⟩⟩) (.operator .or) ⟨6, 8⟩ (var ⟨.var, "$x", ⟨8, 10⟩⟩))) =
        .ok (.string "kept") := by
      simp only [Expr.eval, Leaf.lookup, hname, hname', Bindings.lookup_insert, Bindings.lookup_empty]
      rfl
    exact ⟨hv, (eval_origin _ _).1 _ hv (by simp)⟩
  · have hc : compile "7&&($y||$x==7)" = .ok (binary .and (literal ⟨.literal .integer, "7", ⟨0, 1⟩⟩) (.operator .and) ⟨1, 3⟩
        (binary .or (var ⟨.var, "$y", ⟨4, 6⟩⟩) (.operator .or) ⟨6, 8⟩
          (binary .equality (var ⟨.var, "$x", ⟨8, 10⟩⟩) (.operator .equals) ⟨10, 12⟩
            (literal ⟨.literal .integer, "7", ⟨12, 13⟩⟩)))) := by
      cbv
    exact ⟨_, hc, _, _, _, _, rfl, ((eval_origin _ _).2 _ _ _ _ _ rfl).2⟩

end Expr

end RuleLang
