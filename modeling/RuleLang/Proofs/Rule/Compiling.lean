import RuleLang.Proofs.Expr.Grammar
import RuleLang.Proofs.Item.Division
import RuleLang.Rule

/-!
# Sources that compile

A source compiles to an expression when it is divided into items that derive it and that nest within the limit
(`compile_eq_ok_iff`).
-/

namespace RuleLang

theorem compile_eq_ok_iff {source : String} {e : Expr} :
    compile source = .ok e ↔
      ∃ items, Divided 0 source.toList items ∧ Derives (some .or) items e ∧ nestingOf items ≤ maxNesting := by
  constructor
  · intro h
    cases hl : lex source with
    | error error =>
      rw [compile, hl] at h
      cases h
    | ok items =>
      rw [compile, hl] at h
      exact ⟨items, (lex_eq_ok_iff.mp hl).1, parse_eq_ok_iff.mp (mapError_eq_ok_iff.mp h)⟩
  · rintro ⟨items, hdiv, hder, hn⟩
    rw [compile, lex_eq_ok_iff.mpr ⟨hdiv, hn⟩]
    exact mapError_eq_ok_iff.mpr (parse_eq_ok_iff.mpr ⟨hder, hn⟩)

/-- A source that compiles has the value of its expression. -/
theorem evaluate_of_compile {source : String} {e : Expr} (h : compile source = .ok e) (bindings : Bindings) :
    evaluate source bindings = (e.eval bindings).mapError .eval := by
  rw [evaluate, h]

end RuleLang
