import Mathlib
import RuleLang.Proofs.Expr.Renaming
import RuleLang.Proofs.Item.Spacing
import RuleLang.Proofs.Rule.Compiling

/-!
# White space put into a source

Sources whose items are equal but for their places compile to trees that are equal but for their places, or are refused for the
same reason, and have the same value (`compile_of_mapItems`, `evaluate_of_mapItems`). White space put into a source where it cuts no
atom leaves such items (`lex_insert_blank`), so that a source can be spaced at will between its tokens, inside of groups and outside.
-/

namespace RuleLang

/-- The error with its place replaced. Errors of evaluation have none. -/
def Error.map (onSpan : Span → Span) : Error → Error
  | lex error => lex (error.map onSpan)
  | parse error => parse (error.map onSpan)
  | eval error => eval error

section

variable {onSpan : Span → Span} {source source' : String} {items : List Item}

/-- Sources with the same items in other places compile to the same tree in other places, or are refused alike. -/
theorem compile_of_mapItems (h : lex source = .ok items) (h' : lex source' = .ok (mapItems onSpan id items)) :
    compile source' = ((compile source).map (Expr.map onSpan id)).mapError (Error.map onSpan) := by
  have hparse : parse (mapItems onSpan id items) = mapOutcome onSpan id (parse items) := exprOf_map onSpan id _ _ items
  rw [compile, compile, h, h']
  simp only [hparse]
  cases parse items <;> rfl

/-- Sources with the same items in other places have the same value or come to the same error of evaluation, whatever the table. -/
theorem evaluate_of_mapItems (h : lex source = .ok items) (h' : lex source' = .ok (mapItems onSpan id items))
    (bindings : Bindings) : evaluate source' bindings = (evaluate source bindings).mapError (Error.map onSpan) := by
  rw [evaluate, evaluate, compile_of_mapItems h h']
  cases compile source with
  | error error => rfl
  | ok e =>
    simp only [Except.map, Except.mapError, Expr.eval_map]
    cases e.eval bindings <;> rfl

end

/-- White space put into a source that is read, anywhere but strictly inside of an atom, leaves its items, its tree, its value and its
errors of grammar and of evaluation as they were. All places move with the bytes they name. -/
theorem lex_insert_blank {before after gap : String} {items : List Item} (h : lex (before ++ after) = .ok items)
    (hb : ∀ c ∈ gap.toList, isBlank c = true) (hu : Uncut before.utf8ByteSize items) :
    let onSpan := Span.insertAt before.utf8ByteSize gap.utf8ByteSize
    lex (before ++ gap ++ after) = .ok (mapItems onSpan id items) ∧
      compile (before ++ gap ++ after) =
        ((compile (before ++ after)).map (Expr.map onSpan id)).mapError (Error.map onSpan) ∧
      ∀ bindings, evaluate (before ++ gap ++ after) bindings =
        (evaluate (before ++ after) bindings).mapError (Error.map onSpan) := by
  intro onSpan
  have hlex : lex (before ++ gap ++ after) = .ok (mapItems onSpan id items) := by
    obtain ⟨hdiv, hnest⟩ := lex_eq_ok_iff.mp h
    have hu' : Uncut (0 + byteSize before.toList) items := by
      rw [Nat.zero_add, byteSize_toList]
      exact hu
    have hins := hdiv.insert String.toList_append hb hu'
    rw [Nat.zero_add, byteSize_toList, byteSize_toList, ← String.toList_append, ← String.toList_append] at hins
    exact lex_eq_ok_iff.mpr ⟨hins, (nestingOf_mapItems onSpan id items).symm ▸ hnest⟩
  exact ⟨hlex, compile_of_mapItems h hlex, evaluate_of_mapItems h hlex⟩

/-- Four bytes of white space go between two tokens that touch inside of two groups. The groups grow, and the value stays. -/
theorem lex_insert_blank_inside :
    lex ("(('a'" ++ "\u2003\n" ++ "<='b')==true)") = .ok [.group [.group [.atom (.literal .string) "a" ⟨2, 5⟩,
      .atom (.operator .lte) "<=" ⟨9, 11⟩, .atom (.literal .string) "b" ⟨11, 14⟩] ⟨1, 15⟩,
      .atom (.operator .equals) "==" ⟨15, 17⟩, .atom (.literal .bool) "true" ⟨17, 21⟩] ⟨0, 22⟩] ∧
    evaluate ("(('a'" ++ "\u2003\n" ++ "<='b')==true)") ∅ = .ok (.bool true) := by
  have h : lex ("(('a'" ++ "<='b')==true)") = .ok [.group [.group [.atom (.literal .string) "a" ⟨2, 5⟩,
      .atom (.operator .lte) "<=" ⟨5, 7⟩, .atom (.literal .string) "b" ⟨7, 10⟩] ⟨1, 11⟩,
      .atom (.operator .equals) "==" ⟨11, 13⟩, .atom (.literal .bool) "true" ⟨13, 17⟩] ⟨0, 18⟩] := by cbv
  have hb : ∀ c ∈ "\u2003\n".toList, isBlank c = true := by simp [isBlank, blankRanges, CodeRange.holds]
  have hpoint : "(('a'".utf8ByteSize = 5 := by decide
  obtain ⟨hlex, _, heval⟩ := lex_insert_blank h hb (by simp [hpoint, Uncut, Item.UncutAt])
  constructor
  · rw [hlex]
    cbv
  · rw [heval ∅]
    cbv

end RuleLang
