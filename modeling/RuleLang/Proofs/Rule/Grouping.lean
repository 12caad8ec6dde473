import Mathlib
import RuleLang.Proofs.Expr.Grouping
import RuleLang.Proofs.Rule.Spacing

/-!
# Redundant parentheses

Parentheses that say again how items are grouped change nothing: neither around a run of items that some level takes while the items are
read, at any depth of nesting, nor around a whole source (`grouping_transparent`). All they can do is to nest too deep.
-/

namespace RuleLang

/-- A divided text in parentheses is divided into one group, whose members are the items one byte further right. -/
theorem Divided.parenthesized {offset : Nat} {text : List Char} {items : List Item} (h : Divided offset text items) :
    Divided offset ('(' :: (text ++ [')'])) [.group (mapItems (Span.shift 1) id items) (.over offset ('(' :: (text ++ [')'])))] :=
  .group (h.shift 1) (.nil _)

/-- A source in parentheses has one item, the group around its items. -/
theorem lex_parenthesized {source : String} {items : List Item} (h : lex source = .ok items) (hn : nestingOf items < maxNesting) :
    lex ("(" ++ source ++ ")") = .ok [.group (mapItems (Span.shift 1) id items) ⟨0, source.utf8ByteSize + 2⟩] := by
  obtain ⟨hdiv, _⟩ := lex_eq_ok_iff.mp h
  have htext : ("(" ++ source ++ ")").toList = '(' :: (source.toList ++ [')']) := by simp [String.toList_append]
  have hspan : Span.over 0 ('(' :: (source.toList ++ [')'])) = ⟨0, source.utf8ByteSize + 2⟩ := by
    rw [Span.over, byteSize_group, byteSize_toList]
    congr 1
    omega
  have hgroup := hdiv.parenthesized
  rw [hspan, ← htext] at hgroup
  refine lex_eq_ok_iff.mpr ⟨hgroup, ?_⟩
  rw [nestingOf_cons, nestingOf_nil, Nat.max_zero, Item.nesting_group, nestingOf_mapItems]
  exact hn

/-- A source in parentheses compiles to the tree of the source one byte further right, or is refused for the same reason there. -/
theorem compile_parenthesized {source : String} {items : List Item} (h : lex source = .ok items) (hn : nestingOf items < maxNesting)
    (hne : items ≠ []) :
    compile ("(" ++ source ++ ")") = ((compile source).map (Expr.map (Span.shift 1) id)).mapError (Error.map (Span.shift 1)) := by
  have hne' : mapItems (Span.shift 1) id items ≠ [] := by
    cases items with
    | nil => exact absurd rfl hne
    | cons item items => exact List.cons_ne_nil _ _
  have hparse : parse [.group (mapItems (Span.shift 1) id items) ⟨0, source.utf8ByteSize + 2⟩] =
      mapOutcome (Span.shift 1) id (parse items) := by
    rw [parse_group hne' (by rwa [nestingOf_mapItems])]
    exact exprOf_map (Span.shift 1) id _ _ items
  rw [compile, compile, h, lex_parenthesized h hn]
  simp only [hparse]
  cases parse items <;> rfl

/-- A source without items is refused for its end, and in parentheses for the empty group. -/
theorem compile_parenthesized_blank {source : String} (h : lex source = .ok []) :
    compile source = .error (.parse .eof) ∧
      compile ("(" ++ source ++ ")") = .error (.parse (.emptyGroup ⟨0, source.utf8ByteSize + 2⟩)) := by
  constructor
  · rw [compile, h]
    rfl
  · rw [compile, lex_parenthesized h (by decide), mapItems]
    rfl

/-- Redundant parentheses change nothing. When items are read as an expression, they are read as the same expression, with the same
places in it, after any run that a level took has been put in a group, whatever the place of the group; but if groups then nest too deep,
the items are refused at the first group that does. A source in parentheses compiles to the same tree one byte further right, or
is refused for the same reason there, unless it has no items: then it ends too early by itself, and is an empty group in parentheses. -/
theorem grouping_transparent :
    (∀ (items items' : List Item) (e : Expr) (span : Span), parse items = .ok e →
      Grouped (some maxNesting) span 0 (some .or) items items' →
        (nestingOf items' ≤ maxNesting → parse items' = .ok e) ∧
          (maxNesting < nestingOf items' →
            ∃ place, firstTooDeep? maxNesting 0 items' = some place ∧ parse items' = .error (.tooDeep maxNesting place))) ∧
      ∀ (source : String) (items : List Item), lex source = .ok items → nestingOf items < maxNesting →
        (items ≠ [] → compile ("(" ++ source ++ ")") =
          ((compile source).map (Expr.map (Span.shift 1) id)).mapError (Error.map (Span.shift 1))) ∧
          (items = [] → compile source = .error (.parse .eof) ∧
            compile ("(" ++ source ++ ")") = .error (.parse (.emptyGroup ⟨0, source.utf8ByteSize + 2⟩))) := by
  constructor
  · intro items items' e span hparse hgrouped
    have hder := hgrouped.derives_of_exprOf hparse
    constructor
    · intro hn
      exact parse_eq_ok_iff.mpr ⟨hder, hn⟩
    · intro hn
      exact hder.exists_tooDeep (Nat.zero_le _) hn
  · intro source items h hn
    constructor
    · intro hne
      exact compile_parenthesized h hn hne
    · rintro rfl
      exact compile_parenthesized_blank h

/-- In `$a==(1<2&&$x)` the comparison gets parentheses of its own, within those of the second operand. The leftover of `2 3` moves with its
source. -/
theorem grouping_transparent_inside :
    let run : List Item :=
      [.atom (.literal .integer) "1" ⟨5, 6⟩, .atom (.operator .lt) "<" ⟨6, 7⟩, .atom (.literal .integer) "2" ⟨7, 8⟩]
    let rest : List Item := [.atom (.operator .and) "&&" ⟨8, 10⟩, .atom .var "$x" ⟨10, 12⟩]
    let items (members : List Item) : List Item :=
      [.atom .var "$a" ⟨0, 2⟩, .atom (.operator .equals) "==" ⟨2, 4⟩, .group members ⟨4, 13⟩]
    parse (items (.group run ⟨9, 9⟩ :: rest)) = parse (items (run ++ rest)) ∧
      compile ("(" ++ "2 3" ++ ")") = .error (.parse (.unfinished (.atom (.literal .integer)) ⟨3, 4⟩)) := by
  intro run rest items
  obtain ⟨hrun, hsource⟩ := grouping_transparent
  constructor
  · let comparison : Expr := .binary .comparison (.literal ⟨.literal .integer, "1", ⟨5, 6⟩⟩) (.operator .lt) ⟨6, 7⟩
      (.literal ⟨.literal .integer, "2", ⟨7, 8⟩⟩)
    have hparse : parse (items (run ++ rest)) = .ok (.binary .equality (.var ⟨.var, "$a", ⟨0, 2⟩⟩) (.operator .equals) ⟨2, 4⟩
        (.binary .and comparison (.operator .and) ⟨8, 10⟩ (.var ⟨.var, "$x", ⟨10, 12⟩⟩))) := by
      cbv
    have hleft : readerAt (some .comparison) (readings (some maxNesting) 0 ([.atom .var "$a" ⟨0, 2⟩] ++
        .atom (.operator .equals) "==" ⟨2, 4⟩ :: [.group (run ++ rest) ⟨4, 13⟩])) =
        .ok (.var ⟨.var, "$a", ⟨0, 2⟩⟩, readings (some maxNesting) 0 (.atom (.operator .equals) "==" ⟨2, 4⟩ ::
          [.group (run ++ rest) ⟨4, 13⟩])) := by
      cbv
    have hread : readerAt (some .comparison) (readings (some maxNesting) 1 (run ++ rest)) =
        .ok (comparison, readings (some maxNesting) 1 rest) := by
      cbv
    have hgrouped : Grouped (some maxNesting) ⟨9, 9⟩ 0 (some .or) (items (run ++ rest)) (items (.group run ⟨9, 9⟩ :: rest)) :=
      .first (.first (@Grouped.second _ _ _ .equality _ _ _ _ _ _ hleft rfl
        (.first (.members ⟨4, 13⟩ (.first (.first (.first (.run hread))))))))
    rw [hparse]
    exact (hrun _ _ _ _ hparse hgrouped).1 (by decide)
  · have hlex : lex "2 3" = .ok [.atom (.literal .integer) "2" ⟨0, 1⟩, .atom (.literal .integer) "3" ⟨2, 3⟩] := by cbv
    rw [(hsource "2 3" _ hlex (by decide)).1 (List.cons_ne_nil _ _)]
    cbv

end RuleLang
