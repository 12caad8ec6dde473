import RuleLang.Expr.Eval
import RuleLang.Proofs.Expr.Grammar
import RuleLang.Proofs.Expr.Shape
import RuleLang.Proofs.Item.Moving

/-!
# Items with other places and texts

Reading items as an expression looks at their tokens and at how they nest, and passes on their places and texts. So when the places
and texts of items are replaced, they are replaced in what the items are read as, and nothing else changes (`exprOf_map`,
`parse_mapItems`). Evaluation looks at no places at all (`Expr.eval_map`).
-/

namespace RuleLang

/-- The error with its place replaced. -/
def ParseError.map (onSpan : Span → Span) : ParseError → ParseError
  | unexpectedOperator op span => unexpectedOperator op (onSpan span)
  | eof => eof
  | emptyGroup span => emptyGroup (onSpan span)
  | unfinished token span => unfinished token (onSpan span)
  | tooDeep limit span => tooDeep limit (onSpan span)

section

variable (onSpan : Span → Span) (onText : String → String)

/-- What a sequence of items is read as, with the places and texts in it replaced. -/
def mapOutcome : Except ParseError Expr → Except ParseError Expr
  | .ok e => .ok (e.map onSpan onText)
  | .error error => .error (error.map onSpan)

/-- The reading of the item with its place and text replaced. -/
def Reading.map (item : Reading) : Reading := ⟨item.token, onSpan item.span, mapOutcome onSpan onText item.operand⟩

/-- What a reader leaves, with the places and texts in it replaced. -/
def mapRead : Except ParseError (Expr × List Reading) → Except ParseError (Expr × List Reading)
  | .ok (e, rest) => .ok (e.map onSpan onText, rest.map (Reading.map onSpan onText))
  | .error error => .error (error.map onSpan)

/-- The reader passes places and texts on. -/
def Natural (reader : Reader) : Prop :=
  ∀ items, reader (items.map (Reading.map onSpan onText)) = mapRead onSpan onText (reader items)

theorem natural_readOperand : Natural onSpan onText readOperand := by
  intro items
  cases items with
  | nil => rfl
  | cons item items =>
    rw [List.map_cons, readOperand, readOperand, Reading.map]
    cases item.operand <;> rfl

variable {onSpan onText} in
theorem natural_readLevel {operand : Reader} (h : Natural onSpan onText operand) (family : Family) :
    Natural onSpan onText (readLevel family operand) := by
  intro items
  rw [readLevel, readLevel, h items]
  cases operand items with
  | error error => rfl
  | ok read =>
    obtain ⟨lhs, rest⟩ := read
    cases rest with
    | nil => rfl
    | cons next after =>
      have hn : (Reading.map onSpan onText next).token = next.token := rfl
      simp only [mapRead, bind, Except.bind, List.map_cons, hn]
      cases next.token.operatorIn? family with
      | none => rfl
      | some op =>
        simp only [h after]
        cases operand after <;> rfl

theorem natural_readExpr : Natural onSpan onText readExpr :=
  natural_readLevel (natural_readLevel (natural_readLevel (natural_readLevel (natural_readOperand onSpan onText) _) _) _) _

theorem readWhole_map (items : List Reading) :
    readWhole (items.map (Reading.map onSpan onText)) = mapOutcome onSpan onText (readWhole items) := by
  rw [readWhole, readWhole, natural_readExpr]
  cases readExpr items with
  | error error => rfl
  | ok read =>
    obtain ⟨e, rest⟩ := read
    cases rest <;> rfl

mutual

theorem Item.operand_map (limit : Option Nat) (depth : Nat) (item : Item) :
    (item.map onSpan onText).operand limit depth = mapOutcome onSpan onText (item.operand limit depth) := by
  match item with
  | .atom (.literal _) _ _ => rw [Item.map, Item.operand, Item.operand]; rfl
  | .atom .var _ _ => rw [Item.map, Item.operand, Item.operand]; rfl
  | .atom (.operator _) _ _ => rw [Item.map, Item.operand, Item.operand]; rfl
  | .group members span =>
    rw [Item.map, Item.operand, Item.operand]
    cases passed? limit depth with
    | some most => rfl
    | none =>
      have hm := readings_map limit (depth + 1) members
      cases members with
      | nil => rw [mapItems]; rfl
      | cons first members =>
        rw [mapItems] at hm ⊢
        simp only [List.isEmpty_cons, Bool.false_eq_true, if_false, hm]
        exact readWhole_map onSpan onText _

theorem readings_map (limit : Option Nat) (depth : Nat) (items : List Item) :
    readings limit depth (mapItems onSpan onText items) =
      (readings limit depth items).map (Reading.map onSpan onText) := by
  match items with
  | [] => rw [mapItems, readings, List.map_nil]
  | item :: items =>
    have htoken : (item.map onSpan onText).token = item.token := by cases item <;> (rw [Item.map]; rfl)
    have hspan : (item.map onSpan onText).span = onSpan item.span := by cases item <;> (rw [Item.map]; rfl)
    rw [mapItems, readings, readings, List.map_cons, readings_map, Item.operand_map, htoken, hspan]
    rfl

end

/-- Items with other places and texts are read as the same expression with other places and texts, or refused for the same reason at
the other place. -/
theorem exprOf_map (limit : Option Nat) (depth : Nat) (items : List Item) :
    exprOf limit depth (mapItems onSpan onText items) = mapOutcome onSpan onText (exprOf limit depth items) := by
  rw [exprOf, exprOf, readings_map, readWhole_map]

/-- Parsing looks only at tokens and at nesting. Items with other places and texts, those inside of groups too, are parsed as the same
tree, whose leaves and operators have the other places and whose leaves have the other texts, or they are refused with the same error,
which names the same token and the same limit and has the other place. -/
theorem parse_mapItems (items : List Item) :
    parse (mapItems onSpan onText items) = mapOutcome onSpan onText (parse items) := by
  rw [parse, parse, exprOf_map]

end

/-- Evaluation does not see places. -/
theorem Expr.eval_map (onSpan : Span → Span) (bindings : Bindings) (e : Expr) :
    (e.map onSpan id).eval bindings = e.eval bindings := by
  induction e with
  | literal leaf => rfl
  | var leaf => rfl
  | binary family lhs op opSpan rhs ihl ihr => rw [map, eval, eval, ihl, ihr]

theorem Expr.eval_unplaced (bindings : Bindings) (e : Expr) : e.unplaced.eval bindings = e.eval bindings :=
  eval_map _ bindings e

/-- Items that are equal but for their places derive expressions that are equal but for their places. -/
theorem Derives.of_unplacedItems_eq {items items' : List Item} {e : Expr} (h : Derives (some .or) items e)
    (heq : unplacedItems items' = unplacedItems items) : ∃ e', Derives (some .or) items' e' ∧ e'.unplaced = e.unplaced := by
  have hitems : exprOf none 0 items = .ok e := exprOf_eq_ok_iff.mpr ⟨h, allows_none _ _⟩
  have hmap := exprOf_map (fun _ => ⟨0, 0⟩) id none 0 items
  rw [← unplacedItems, ← heq, unplacedItems, exprOf_map, hitems] at hmap
  cases hr : exprOf none 0 items' with
  | error error =>
    rw [hr] at hmap
    cases hmap
  | ok e' =>
    rw [hr] at hmap
    exact ⟨e', (exprOf_eq_ok_iff.mp hr).1, Except.ok.inj hmap⟩

end RuleLang
