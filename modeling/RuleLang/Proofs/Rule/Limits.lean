import RuleLang.Proofs.Expr.Depth
import RuleLang.Proofs.Item.Depth
import RuleLang.Proofs.Rule.Compiling

/-!
# The limit on nested groups

The limit is there twice, once where a source is divided into items and once where items are read as an expression. Each time it is
exact: within it nothing changes, and past it the first group that is too deep is refused. Both count alike, so that a source whose
groups pass the limit is never divided, and the second limit is met by items that come from elsewhere (`limits_exact`).
-/

namespace RuleLang

/-- The expression of a source under a limit on groups that need not be the one of the language. -/
def compileUnder (limit : Option Nat) (source : String) : Except Error Expr :=
  match itemsOf limit 0 0 source.toList with
  | .error e => .error (.lex e)
  | .ok items => (exprOf limit 0 items).mapError .parse

theorem compile_eq_compileUnder (source : String) : compile source = compileUnder (some maxNesting) source := rfl

theorem lex_eq_of_nestsWithin {source : String} (h : NestsWithin maxNesting source.toList) :
    lex source = itemsOf none 0 0 source.toList :=
  itemsOf_eq_of_firstOpening?_eq_none (Nat.zero_le _) (nestsWithin_iff.mp h)

theorem parse_eq_of_nestingOf_le {items : List Item} (h : nestingOf items ≤ maxNesting) : parse items = exprOf none 0 items :=
  exprOf_congr_of_allows (allows_some.mpr h) (allows_none _ _)

/-- The items of a source are never refused for their nesting: the source would have been. -/
theorem compile_ne_tooDeep (source : String) (limit : Nat) (span : Span) :
    compile source ≠ .error (.parse (.tooDeep limit span)) := by
  intro h
  unfold compile at h
  split at h
  · cases h
  · rename_i items hlex
    have hnest := (lex_eq_ok_iff.mp hlex).2
    cases hparse : parse items with
    | ok e =>
      rw [hparse] at h
      cases h
    | error error =>
      rw [hparse] at h
      have herror : error = .tooDeep limit span := Error.parse.inj (Except.error.inj h)
      have hlt := (pointsAt_of_exprOf hparse).lt_nestingOf herror
      omega

theorem compile_eq_of_nestsWithin {source : String} (h : NestsWithin maxNesting source.toList) :
    compile source = compileUnder none source := by
  have hlex : itemsOf (some maxNesting) 0 0 source.toList = itemsOf none 0 0 source.toList := lex_eq_of_nestsWithin h
  rw [compile_eq_compileUnder, compileUnder, compileUnder, hlex]
  cases hitems : itemsOf none 0 0 source.toList with
  | error error => rfl
  | ok items =>
    have hnest : nestingOf items ≤ maxNesting := (lex_eq_ok_iff.mp (hlex.trans hitems)).2
    have hparse : exprOf (some maxNesting) 0 items = exprOf none 0 items := parse_eq_of_nestingOf_le hnest
    simp only [hparse]

/-- A source that has items without the limit has them with it if its groups stay within it, and otherwise it is refused at the first
parenthesis outside of strings that as many others enclose as the limit allows. Items that are an expression without the limit are one
with it if their groups stay within it, and otherwise they are refused at the first group that as many others enclose. The limit on items
never decides about a source, and neither limit changes what comes of an input that stays within it. -/
theorem limits_exact :
    (∀ source items, itemsOf none 0 0 source.toList = .ok items →
      (nestingOf items ≤ maxNesting → lex source = .ok items) ∧
      (maxNesting < nestingOf items → ∃ before, (Place.inside 0).Opens maxNesting source.toList before ∧
        (∀ other, (Place.inside 0).Opens maxNesting source.toList other → before <+: other) ∧
        lex source = .error (.tooDeep maxNesting ⟨byteSize before, byteSize before + 1⟩))) ∧
    (∀ items e, exprOf none 0 items = .ok e →
      (nestingOf items ≤ maxNesting → parse items = .ok e) ∧
      (maxNesting < nestingOf items → ∃ span, firstTooDeep? maxNesting 0 items = some span ∧
        parse items = .error (.tooDeep maxNesting span))) ∧
    (∀ source limit span, compile source ≠ .error (.parse (.tooDeep limit span))) ∧
    (∀ source, NestsWithin maxNesting source.toList → lex source = itemsOf none 0 0 source.toList ∧
      compile source = compileUnder none source) ∧
    ∀ items, nestingOf items ≤ maxNesting → parse items = exprOf none 0 items := by
  refine ⟨?_, ?_, compile_ne_tooDeep, ?_, ?_⟩
  · intro source items h
    have hdiv := (itemsOf_eq_ok_iff.mp h).1
    exact ⟨fun hle => lex_eq_ok_iff.mpr ⟨hdiv, hle⟩, lex_tooDeep_of_divided hdiv⟩
  · intro items e h
    have hder := (exprOf_eq_ok_iff.mp h).1
    exact ⟨fun hle => parse_eq_ok_iff.mpr ⟨hder, hle⟩, hder.exists_tooDeep (Nat.zero_le _)⟩
  · intro source h
    exact ⟨lex_eq_of_nestsWithin h, compile_eq_of_nestsWithin h⟩
  · intro items h
    exact parse_eq_of_nestingOf_le h

/-! ### A number inside any number of groups -/

/-- A digit in `n` pairs of parentheses. -/
def nestedText : Nat → List Char
  | 0 => ['1']
  | n + 1 => '(' :: (nestedText n ++ [')'])

/-- The item of a digit in `n` pairs of parentheses from byte `offset` on. -/
def nestedItem (offset : Nat) : Nat → Item
  | 0 => .atom (.literal .integer) "1" (.over offset ['1'])
  | n + 1 => .group [nestedItem (offset + 1) n] (.over offset (nestedText (n + 1)))

theorem divided_nestedText (n offset : Nat) : Divided offset (nestedText n) [nestedItem offset n] := by
  induction n generalizing offset with
  | zero =>
    have hdigit : (Atom.literal .integer).Spelled ['1'] ['1'] := .integer (List.cons_ne_nil _ _) (List.forall_mem_singleton.mpr rfl)
    exact hdigit.divided offset
  | succ n ih => exact .group (ih (offset + 1)) (.nil _)

theorem exists_derives_nestedItem (n offset : Nat) : ∃ e, Derives none [nestedItem offset n] e := by
  induction n generalizing offset with
  | zero => exact ⟨_, .literal _ _ _⟩
  | succ n ih =>
    obtain ⟨e, he⟩ := ih (offset + 1)
    exact ⟨e, .group _ (List.cons_ne_nil _ _) he.to_or⟩

theorem nestingOf_nestedItem (n offset : Nat) : nestingOf [nestedItem offset n] = n := by
  induction n generalizing offset with
  | zero => rfl
  | succ n ih => rw [nestedItem, nestingOf_cons, nestingOf_nil, Item.nesting_group, ih, Nat.max_zero]

/-- A digit in as many pairs of parentheses as the limit allows is read, as a source and as an item; in one pair more it is not. What is
wrong for another reason is wrong for the same reason under either limit. -/
theorem limits_exact_nested :
    (lex (.ofList (nestedText 128)) = .ok [nestedItem 0 128] ∧ ∃ e, parse [nestedItem 0 128] = .ok e) ∧
      (∃ before, (Place.inside 0).Opens maxNesting (nestedText 129) before ∧
        lex (.ofList (nestedText 129)) = .error (.tooDeep 128 ⟨byteSize before, byteSize before + 1⟩)) ∧
      (∃ span, firstTooDeep? maxNesting 0 [nestedItem 0 129] = some span ∧ parse [nestedItem 0 129] = .error (.tooDeep 128 span)) ∧
      (lex "((1)" = itemsOf none 0 0 "((1)".toList ∧ compile "((1)" = compileUnder none "((1)") ∧
      parse [.group [] ⟨0, 2⟩] = exprOf none 0 [.group [] ⟨0, 2⟩] := by
  obtain ⟨hlex, hparse, _, hsource, hsame⟩ := limits_exact
  have hitems : ∀ n, itemsOf none 0 0 (String.ofList (nestedText n)).toList = .ok [nestedItem 0 n] := by
    intro n
    rw [String.toList_ofList]
    exact itemsOf_eq_ok_iff.mpr ⟨divided_nestedText n 0, allows_none _ _⟩
  have hexpr : ∀ n, ∃ e, exprOf none 0 [nestedItem 0 n] = .ok e := by
    intro n
    obtain ⟨e, he⟩ := exists_derives_nestedItem n 0
    exact ⟨e, exprOf_eq_ok_iff.mpr ⟨he.to_or, allows_none _ _⟩⟩
  have hle : nestingOf [nestedItem 0 128] ≤ maxNesting := by
    rw [nestingOf_nestedItem]
    decide
  have hlt : maxNesting < nestingOf [nestedItem 0 129] := by
    rw [nestingOf_nestedItem]
    decide
  obtain ⟨e, he⟩ := hexpr 128
  obtain ⟨e', he'⟩ := hexpr 129
  obtain ⟨before, hopen, _, hrefused⟩ := (hlex _ _ (hitems 129)).2 hlt
  rw [String.toList_ofList] at hopen
  exact ⟨⟨(hlex _ _ (hitems 128)).1 hle, e, (hparse _ e he).1 hle⟩, ⟨before, hopen, hrefused⟩, (hparse _ e' he').2 hlt,
    hsource _ (by decide), hsame _ (by decide)⟩

end RuleLang
