import Mathlib
import RuleLang.Proofs.Expr.Inlining
import RuleLang.Proofs.Expr.Renaming
import RuleLang.Proofs.Item.Depth
import RuleLang.Proofs.Rule.Compiling

/-!
# Giving a variable a value by writing it in

A rule can be given the value of a variable in the binding table, or in its source: a second rule is written in parentheses in the
place of the variable. When the second rule has the value, both come to the same result (`evaluate_inlined`).
-/

namespace RuleLang

/-- The source with another one in parentheses in the place of every variable of the given name. A source that has no items has no
variables. -/
def inlined (source name inner : String) : String :=
  match lex source with
  | .error _ => source
  | .ok items =>
    .ofList (replaceSpans (spansOf ("$" ++ name) items) ('(' :: (inner.toList ++ [')'])) 0 source.toList)

/-- Writing a rule in for a variable writes its tree in for the variable, as long as the groups of the new source nest within the
limit. -/
theorem compile_inlined {source inner : String} {e f : Expr} (name : String) (hs : compile source = .ok e)
    (hi : compile inner = .ok f) (hn : NestsWithin maxNesting (inlined source name inner).toList) :
    ∃ e', compile (inlined source name inner) = .ok e' ∧ e'.unplaced = (e.inline name f).unplaced := by
  obtain ⟨items, hdiv, hder, hnest⟩ := compile_eq_ok_iff.mp hs
  obtain ⟨inside, hidiv, hider, _⟩ := compile_eq_ok_iff.mp hi
  have hlex : lex source = .ok items := lex_eq_ok_iff.mpr ⟨hdiv, hnest⟩
  have htext : (inlined source name inner).toList =
      replaceSpans (spansOf ("$" ++ name) items) ('(' :: (inner.toList ++ [')'])) 0 source.toList := by
    rw [inlined, hlex, String.toList_ofList]
  obtain ⟨items', hdiv', heq⟩ := hidiv.exists_divided_replaceSpans ("$" ++ name) hdiv 0
  rw [← htext] at hdiv'
  obtain ⟨e', hder', hshape⟩ := (hider.inline name hder).of_unplacedItems_eq heq
  exact ⟨e', compile_eq_ok_iff.mpr ⟨items', hdiv', hder', hdiv'.nestingOf_le_iff.mpr hn⟩, hshape⟩

/-- A rule comes to the same result, value or error, whether the table gives a variable the value of another rule or that rule is
written in for the variable. The other rule may mention the variable: it reads the table as it was. -/
theorem evaluate_inlined {source inner : String} {e f : Expr} {v : Value} (name : String) (bindings : Bindings)
    (hs : compile source = .ok e) (hi : compile inner = .ok f) (hv : evaluate inner bindings = .ok v)
    (hn : NestsWithin maxNesting (inlined source name inner).toList) :
    (∃ e', compile (inlined source name inner) = .ok e' ∧ e'.unplaced = (e.inline name f).unplaced) ∧
      evaluate (inlined source name inner) bindings = evaluate source (bindings.insert name v) := by
  obtain ⟨e', hc, hshape⟩ := compile_inlined name hs hi hn
  refine ⟨⟨e', hc, hshape⟩, ?_⟩
  have hf : f.eval bindings = .ok v := by
    rw [evaluate_of_compile hi] at hv
    exact mapError_eq_ok_iff.mp hv
  have heval : e'.eval bindings = e.eval (bindings.insert name v) := by
    rw [← e'.eval_unplaced, hshape, Expr.eval_unplaced, Expr.eval_inline hf]
  rw [evaluate_of_compile hc, evaluate_of_compile hs, heval]

/-- A written-in rule reads the variable from the table, and its operator stays apart from the one around it. A string that looks like
the variable is left as it is. -/
theorem evaluate_inlined_unbound :
    evaluate "'$x'!=($x==$y)" ∅ = evaluate "'$x'!=$x" ((∅ : Bindings).insert "x" (.bool true)) := by
  have htext : inlined "'$x'!=$x" "x" "$x==$y" = "'$x'!=($x==$y)" := by cbv
  have hs : compile "'$x'!=$x" = .ok (.binary .equality (.literal ⟨.literal .string, "$x", ⟨0, 4⟩⟩) (.operator .notEquals) ⟨4, 6⟩
      (.var ⟨.var, "$x", ⟨6, 8⟩⟩)) := by
    cbv
  have hi : compile "$x==$y" = .ok (.binary .equality (.var ⟨.var, "$x", ⟨0, 2⟩⟩) (.operator .equals) ⟨2, 4⟩
      (.var ⟨.var, "$y", ⟨4, 6⟩⟩)) := by
    cbv
  have hv : evaluate "$x==$y" ∅ = .ok (.bool true) := by
    rw [evaluate_of_compile hi]
    cbv
  have hn : NestsWithin maxNesting (inlined "'$x'!=$x" "x" "$x==$y").toList := by
    rw [htext]
    decide
  have h := (evaluate_inlined "x" ∅ hs hi hv hn).2
  rwa [htext] at h

end RuleLang
