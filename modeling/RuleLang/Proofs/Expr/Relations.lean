import Mathlib
import RuleLang.Proofs.Expr.Reached
import RuleLang.Proofs.Text.Numeral

/-!
# Equality and order of values

The operators that compare are two relations on values, written apart. Equality is that of type and value (`Value.Same`). The order is
that of numbers and that of texts, and there is none between other values (`Value.Less`). Both may as well be found from what is stored of
two values, digits or bytes (`Value.storedSame_iff`, `Value.storedOrder?_eq`). The two fit together: of two values that have an order
exactly one of less, equal and greater is so, and all six operators tell of the same three cases (`eval_relations`).
-/

namespace RuleLang

namespace Value

/-- The values are of one type, and equal as numbers, as texts or as truth values. -/
def Same : Value → Value → Prop
  | null, null => True
  | integer m, integer n => m = n
  | string s, string t => s.toList = t.toList
  | bool a, bool b => a = b
  | _, _ => False

theorem same_iff_eq {x y : Value} : x.Same y ↔ x = y := by
  cases x <;> cases y <;> simp [Same, String.toList_inj]

/-- What is stored of the values is the same: the digits of integers and the bytes of strings. -/
def StoredSame : Value → Value → Prop
  | null, null => True
  | integer m, integer n => (Numeral.ofNat m).digits = (Numeral.ofNat n).digits
  | string s, string t => bytesOf s = bytesOf t
  | bool a, bool b => a = b
  | _, _ => False

/-- What is stored of two values tells whether they are equal. -/
theorem storedSame_iff {x y : Value} : x.StoredSame y ↔ x.Same y := by
  cases x with
  | integer m =>
    cases y with
    | integer n =>
      refine ⟨fun h => ?_, fun h => congrArg (fun k => (Numeral.ofNat k).digits) h⟩
      rw [Same, ← Numeral.toNat_ofNat m, ← Numeral.toNat_ofNat n, Numeral.ext_digits h]
    | _ => rfl
  | string s =>
    cases y with
    | string t => rw [StoredSame, Same, String.toList_inj, bytesOf_inj]
    | _ => rfl
  | null => cases y <;> rfl
  | bool b => cases y <;> rfl

/-- The value is less than the other: a smaller number, or a string whose text stands before the other's. -/
def Less : Value → Value → Prop
  | integer m, integer n => m < n
  | string s, string t => TextBefore s.toList t.toList
  | _, _ => False

/-- The order of two values as it is found from what is stored of them: the digits of integers and the bytes of strings. -/
def storedOrder? : Value → Value → Option Ordering
  | integer m, integer n => some ((Numeral.ofNat m).cmp (Numeral.ofNat n))
  | string s, string t => some (compareOfLessAndEq (bytesOf s) (bytesOf t))
  | _, _ => none

/-- What is stored of two values tells their order. -/
theorem storedOrder?_eq (x y : Value) : x.storedOrder? y = x.order? y := by
  cases x with
  | integer m =>
    cases y with
    | integer n => rw [storedOrder?, order?, Numeral.cmp_eq, Numeral.toNat_ofNat, Numeral.toNat_ofNat]
    | _ => rfl
  | string s =>
    cases y with
    | string t => rw [storedOrder?, order?, compareOfLessAndEq_bytesOf]
    | _ => rfl
  | null => rfl
  | bool b => rfl

theorem order?_eq_lt_iff {x y : Value} : x.order? y = some .lt ↔ x.Less y := by
  cases x with
  | integer m => cases y <;> simp [order?, Less, Nat.compare_eq_lt]
  | string s => cases y <;> simp [order?, Less, compare_eq_lt_iff_textBefore]
  | null => simp [order?, Less]
  | bool b => simp [order?, Less]

/-- Seen from the other value the order is turned round. -/
theorem order?_swap (x y : Value) : y.order? x = (x.order? y).map Ordering.swap := by
  cases x with
  | integer m =>
    cases y with
    | integer n => exact congrArg some Std.OrientedCmp.eq_swap
    | _ => rfl
  | string s =>
    cases y with
    | string t => exact congrArg some Std.OrientedCmp.eq_swap
    | _ => rfl
  | null => cases y <;> rfl
  | bool b => cases y <;> rfl

/-- Two values of which neither is less are equal, if they have an order. -/
theorem isEq_iff_of_order? {x y : Value} {order : Ordering} (h : x.order? y = some order) : order.isEq = true ↔ x = y := by
  rw [Ordering.isEq_iff_eq_eq]
  cases x with
  | integer m =>
    cases y with
    | integer n =>
      cases h
      rw [Nat.compare_eq_eq, integer.injEq]
    | _ => cases h
  | string s =>
    cases y with
    | string t =>
      cases h
      rw [Std.LawfulEqCmp.compare_eq_iff_eq, string.injEq]
    | _ => cases h
  | null => cases y <;> cases h
  | bool b => cases y <;> cases h

theorem Less.trans {x y z : Value} (hxy : x.Less y) (hyz : y.Less z) : x.Less z := by
  cases x with
  | integer m =>
    cases y with
    | integer n =>
      cases z with
      | integer k => exact Nat.lt_trans hxy hyz
      | _ => cases hyz
    | _ => cases hxy
  | string s =>
    cases y with
    | string t =>
      cases z with
      | string u => exact textBefore_iff_lt.mpr (List.lt_trans (textBefore_iff_lt.mp hxy) (textBefore_iff_lt.mp hyz))
      | _ => cases hyz
    | _ => cases hxy
  | null => cases hxy
  | bool b => cases hxy

end Value

/-- The ordering operators tell the order of two values that have one. -/
theorem Operator.apply_of_order? {x y : Value} {order : Ordering} (h : x.order? y = some order) :
    lt.apply x y = .ok (.bool order.isLT) ∧ lte.apply x y = .ok (.bool order.isLE) ∧
      gt.apply x y = .ok (.bool order.isGT) ∧ gte.apply x y = .ok (.bool order.isGE) := by
  simp only [apply, applyOrder, h, and_self]

namespace Expr

variable {bindings : Bindings}

/-- The node of the operator over the two operands has the truth value, wherever the operator stands. -/
def Yields (bindings : Bindings) (op : Operator) (lhs rhs : Expr) (b : Bool) : Prop :=
  ∀ span, (binary op.family lhs (.operator op) span rhs).eval bindings = .ok (.bool b)

section

variable {l r : Expr} {x y : Value} (hl : l.eval bindings = .ok x) (hr : r.eval bindings = .ok y)

include hl hr

/-- A node that compares has what its operator makes of both values. -/
theorem eval_comparing {op : Operator} (hop : op.family = .equality ∨ op.family = .comparison) (span : Span) :
    (binary op.family l (.operator op) span r).eval bindings = op.apply x y := by
  have hopen : op.family.decisive? ≠ some x := by
    rcases hop with h | h <;> rw [h] <;> simp [Family.decisive?]
  rw [eval_of_undecided rfl hl hopen, hr]
  rfl

theorem yields_iff {op : Operator} (hop : op.family = .equality ∨ op.family = .comparison) {b : Bool} :
    Yields bindings op l r b ↔ op.apply x y = .ok (.bool b) := by
  constructor
  · intro h
    rw [← eval_comparing hl hr hop ⟨0, 0⟩, h]
  · intro h span
    rw [eval_comparing hl hr hop, h]

/-- Equality is that of type and value, and inequality is its negation. -/
theorem yields_equality : Yields bindings .equals l r (decide (x = y)) ∧ Yields bindings .notEquals l r (!decide (x = y)) := by
  refine ⟨(yields_iff hl hr (Or.inl rfl)).mpr rfl, (yields_iff hl hr (Or.inl rfl)).mpr ?_⟩
  rw [Operator.apply, decide_not]

/-- The ordering operators tell the order of the operands' values. -/
theorem yields_ordering {order : Ordering} (h : x.order? y = some order) :
    Yields bindings .lt l r order.isLT ∧ Yields bindings .lte l r order.isLE ∧ Yields bindings .gt l r order.isGT ∧
      Yields bindings .gte l r order.isGE := by
  obtain ⟨hlt, hlte, hgt, hgte⟩ := Operator.apply_of_order? h
  exact ⟨(yields_iff hl hr (Or.inr rfl)).mpr hlt, (yields_iff hl hr (Or.inr rfl)).mpr hlte,
    (yields_iff hl hr (Or.inr rfl)).mpr hgt, (yields_iff hl hr (Or.inr rfl)).mpr hgte⟩

/-- One value is found less than another when it is. -/
theorem yields_lt_true_iff : Yields bindings .lt l r true ↔ x.Less y := by
  rw [yields_iff hl hr (Or.inr rfl), ← Value.order?_eq_lt_iff]
  cases h : x.order? y with
  | none => simp [Operator.apply, Operator.applyOrder, h]
  | some order => cases order <;> simp [Operator.apply, Operator.applyOrder, h]

/-- Where the values have an order, exactly one of less, equal and greater is so, and the other operators follow. -/
theorem exists_yields_of_comparable (hc : x.Comparable y) : ∃ less equal greater : Bool,
    [less, equal, greater].count true = 1 ∧ (less = true ↔ x.Less y) ∧ (greater = true ↔ y.Less x) ∧
      Yields bindings .lt l r less ∧ Yields bindings .equals l r equal ∧ Yields bindings .gt l r greater ∧
      Yields bindings .lt r l greater ∧ Yields bindings .lte l r (!greater) ∧ Yields bindings .gte l r (!less) := by
  obtain ⟨order, horder⟩ := Option.ne_none_iff_exists'.mp fun hnone => Value.order?_eq_none_iff.mp hnone hc
  have hswap : y.order? x = some order.swap := by rw [Value.order?_swap, horder, Option.map_some]
  obtain ⟨hlt, hlte, hgt, hgte⟩ := yields_ordering hl hr horder
  obtain ⟨hlt', _, _, _⟩ := yields_ordering hr hl hswap
  have hequal := (yields_equality hl hr).1
  rw [← Value.order?_eq_lt_iff, ← Value.order?_eq_lt_iff, horder, hswap]
  refine ⟨order.isLT, decide (x = y), order.isGT, ?_, ?_, ?_, hlt, hequal, hgt, ?_, ?_, ?_⟩
  · rw [Bool.eq_iff_iff.mpr (decide_eq_true_iff.trans (Value.isEq_iff_of_order? horder).symm)]
    cases order <;> rfl
  · cases order <;> simp
  · cases order <;> simp
  · cases order <;> exact hlt'
  · cases order <;> exact hlte
  · cases order <;> exact hgte

end

/-- Equality and the order of operands are coherent. Equality is that of type and value and inequality its negation, both symmetric. Of
two values that have an order, exactly one of less, equal and greater is so; greater is less the other way round, and the other two
operators are negations. Less is transitive, and it is that of numbers and of texts. Two values that are neither both integers nor
both strings are refused by every ordering operator, also where they are equal. Equality and order are those of what is stored. -/
theorem eval_relations {l r : Expr} {x y : Value} (hl : l.eval bindings = .ok x) (hr : r.eval bindings = .ok y) :
    (∃ same : Bool, (same = true ↔ x.Same y) ∧
      Yields bindings .equals l r same ∧ Yields bindings .notEquals l r (!same) ∧
      Yields bindings .equals r l same ∧ Yields bindings .notEquals r l (!same)) ∧
    (x.Comparable y → ∃ less equal greater : Bool,
      [less, equal, greater].count true = 1 ∧ (less = true ↔ x.Less y) ∧ (greater = true ↔ y.Less x) ∧
        Yields bindings .lt l r less ∧ Yields bindings .equals l r equal ∧ Yields bindings .gt l r greater ∧
        Yields bindings .lt r l greater ∧ Yields bindings .lte l r (!greater) ∧ Yields bindings .gte l r (!less)) ∧
    (∀ t z, t.eval bindings = .ok z → Yields bindings .lt l r true → Yields bindings .lt r t true →
      Yields bindings .lt l t true) ∧
    (¬x.Comparable y → ∀ op : Operator, op.family = .comparison → ∀ span,
      (binary op.family l (.operator op) span r).eval bindings = .error (.mismatchType op x y)) ∧
    (x.StoredSame y ↔ x.Same y) ∧ x.storedOrder? y = x.order? y := by
  refine ⟨⟨decide (x = y), ?_, ?_⟩, exists_yields_of_comparable hl hr, ?_, ?_, Value.storedSame_iff, x.storedOrder?_eq y⟩
  · rw [decide_eq_true_iff, Value.same_iff_eq]
  · obtain ⟨hequals, hnotEquals⟩ := yields_equality hl hr
    obtain ⟨hequals', hnotEquals'⟩ := yields_equality hr hl
    rw [show decide (y = x) = decide (x = y) from decide_eq_decide.mpr eq_comm] at hequals' hnotEquals'
    exact ⟨hequals, hnotEquals, hequals', hnotEquals'⟩
  · intro t z ht hlr hrt
    rw [yields_lt_true_iff hl hr] at hlr
    rw [yields_lt_true_iff hr ht] at hrt
    exact (yields_lt_true_iff hl ht).mpr (hlr.trans hrt)
  · intro hc op hop span
    rw [eval_comparing hl hr (Or.inr hop)]
    exact Operator.apply_eq_error_iff.mpr ⟨hop, hc, rfl⟩

/-- The text `ab` is less than `abc`, which is less than `é`, and so `ab` is less than `é`. Null is equal to null and not less. -/
theorem eval_relations_texts :
    ((literal ⟨.literal .string, "ab", ⟨0, 4⟩⟩).eval ∅ = .ok (.string "ab") ∧
      (literal ⟨.literal .string, "abc", ⟨7, 12⟩⟩).eval ∅ = .ok (.string "abc") ∧
      Yields ∅ .lt (literal ⟨.literal .string, "ab", ⟨0, 4⟩⟩) (literal ⟨.literal .string, "abc", ⟨7, 12⟩⟩) true ∧
      Yields ∅ .lt (literal ⟨.literal .string, "ab", ⟨0, 4⟩⟩) (literal ⟨.literal .string, "é", ⟨15, 19⟩⟩) true) ∧
    (literal ⟨.literal .null, "null", ⟨0, 4⟩⟩).eval ∅ = .ok .null ∧
      Yields ∅ .equals (literal ⟨.literal .null, "null", ⟨0, 4⟩⟩) (literal ⟨.literal .null, "null", ⟨8, 12⟩⟩) true ∧
      (binary .comparison (literal ⟨.literal .null, "null", ⟨0, 4⟩⟩) (.operator .lt) ⟨5, 6⟩
        (literal ⟨.literal .null, "null", ⟨8, 12⟩⟩)).eval ∅ = .error (.mismatchType .lt .null .null) := by
  have hstring : ∀ text span, (literal ⟨.literal .string, text, span⟩).eval ∅ = .ok (.string text) := fun _ _ => rfl
  have hnull : ∀ span, (literal ⟨.literal .null, "null", span⟩).eval ∅ = .ok .null := fun _ => rfl
  have hab : (Value.string "ab").Less (.string "abc") := .agree 'a' (.agree 'b' (.ends 'c' []))
  have hé : (Value.string "abc").Less (.string "é") := .differ ['b', 'c'] [] (by decide)
  refine ⟨⟨hstring _ _, hstring _ _, ?_, ?_⟩, hnull _, ?_, ?_⟩
  · obtain ⟨-, horder, -⟩ := eval_relations (hstring "ab" ⟨0, 4⟩) (hstring "abc" ⟨7, 12⟩)
    obtain ⟨_, _, _, -, hless, -, hlt, -⟩ := horder (Or.inr ⟨_, _, rfl, rfl⟩)
    rwa [hless.mpr hab] at hlt
  · obtain ⟨-, -, htrans, -⟩ := eval_relations (hstring "ab" ⟨0, 4⟩) (hstring "abc" ⟨7, 12⟩)
    exact htrans _ _ (hstring "é" ⟨15, 19⟩) ((yields_lt_true_iff (hstring _ _) (hstring _ _)).mpr hab)
      ((yields_lt_true_iff (hstring _ _) (hstring _ _)).mpr hé)
  · obtain ⟨⟨_, hsame, hequals, -⟩, -⟩ := eval_relations (hnull ⟨0, 4⟩) (hnull ⟨8, 12⟩)
    rwa [hsame.mpr trivial] at hequals
  · obtain ⟨-, -, -, hrefused, -⟩ := eval_relations (hnull ⟨0, 4⟩) (hnull ⟨8, 12⟩)
    exact hrefused (by simp [Value.Comparable]) .lt rfl _

end Expr

end RuleLang
