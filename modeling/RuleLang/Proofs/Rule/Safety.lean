import Mathlib
import RuleLang.Proofs.Expr.Shape
import RuleLang.Proofs.Rule.Compiling

/-!
# What can go wrong with a source that compiles

A tree built by hand may carry an operator of another family or a text that does not fit its token, and evaluation has an error for
each. A tree that comes from a source is well formed (`wellFormed_of_compile`): its atoms are spelled in the source, so their texts
fit (`Divided.admitted`), and the grammar puts every operator at the level of its family (`Derives.wellFormed`). What is left to
fail is a comparison by order of two values that have none (`eval_of_compile`).
-/

namespace RuleLang

/-! ### Texts that fit -/

mutual

/-- Every atom of the item, at any nesting, carries a text of its kind. -/
def Item.Admitted : Item → Prop
  | .atom kind text _ => kind.Admits text.toList
  | .group members _ => RuleLang.Admitted members

/-- Every atom of the items, at any nesting, carries a text of its kind. -/
def Admitted : List Item → Prop
  | [] => True
  | item :: items => item.Admitted ∧ Admitted items

end

theorem admitted_append {a b : List Item} : Admitted (a ++ b) ↔ Admitted a ∧ Admitted b := by
  induction a with
  | nil => simp [Admitted]
  | cons item a ih => simp [Admitted, ih, and_assoc]

/-- The atoms that a text is divided into are spelled in it, so their texts fit. -/
theorem Divided.admitted {offset : Nat} {text : List Char} {items : List Item} (h : Divided offset text items) :
    Admitted items := by
  induction h with
  | nil => simp [Admitted]
  | blank _ _ ih => exact ih
  | atom hs _ _ ih =>
    simp only [Admitted, Item.Admitted, String.toList_ofList]
    exact ⟨Atom.exists_spelled_iff.mp ⟨_, hs⟩, ih⟩
  | group _ _ ihm iho =>
    simp only [Admitted, Item.Admitted]
    exact ⟨ihm, iho⟩

/-- Items whose texts fit derive well-formed trees: the grammar itself sees to the operators. -/
theorem Derives.wellFormed {level : Option Family} {items : List Item} {e : Expr} (h : Derives level items e)
    (ha : Admitted items) : e.WellFormed := by
  induction h with
  | literal kind text span =>
    simp only [Admitted, Item.Admitted] at ha
    exact ⟨kind, rfl, ha.1⟩
  | var text span =>
    simp only [Admitted, Item.Admitted] at ha
    exact ⟨rfl, ha.1⟩
  | group span _ _ ih =>
    simp only [Admitted, Item.Admitted] at ha
    exact ih ha.1
  | single _ ih => exact ih ha
  | @binary family left right lhs rhs op text span hf _ _ ihl ihr =>
    rw [admitted_append, Admitted] at ha
    obtain ⟨hl, _, hr⟩ := ha
    exact ⟨ihl hl, ⟨op, rfl, hf⟩, ihr hr⟩

/-- A source compiles to well-formed trees only. -/
theorem wellFormed_of_compile {source : String} {e : Expr} (h : compile source = .ok e) : e.WellFormed := by
  obtain ⟨items, hdiv, hder, _⟩ := compile_eq_ok_iff.mp h
  exact hder.wellFormed hdiv.admitted

/-! ### Evaluation of well-formed trees -/

/-- Both values are integers, or both are strings. -/
def Value.Comparable (l r : Value) : Prop :=
  (∃ m n, l = .integer m ∧ r = .integer n) ∨ ∃ s t, l = .string s ∧ r = .string t

/-- Two values have no order exactly when they are not comparable. -/
theorem Value.order?_eq_none_iff {l r : Value} : l.order? r = none ↔ ¬l.Comparable r := by
  cases l <;> cases r <;> simp [Value.order?, Value.Comparable]

/-- The error is that of an ordering operator on two values that are not comparable. -/
def EvalError.IsMismatch (e : EvalError) : Prop :=
  ∃ op l r, e = .mismatchType op l r ∧ op.family = .comparison ∧ ¬l.Comparable r

theorem Operator.isMismatch_of_applyOrder {op : Operator} (hf : op.family = .comparison) {test : Ordering → Bool} {l r : Value}
    {error : EvalError} (h : op.applyOrder test l r = .error error) : error.IsMismatch := by
  unfold Operator.applyOrder at h
  split at h
  · cases h
  · rename_i ho
    cases h
    exact ⟨op, l, r, rfl, hf, Value.order?_eq_none_iff.mp ho⟩

/-- An operator fails on two values only where it compares them by order and they have none. -/
theorem Operator.isMismatch_of_apply {op : Operator} {l r : Value} {error : EvalError} (h : op.apply l r = .error error) :
    error.IsMismatch := by
  cases op with
  | equals => cases h
  | notEquals => cases h
  | and => cases h
  | or => cases h
  | lt => exact isMismatch_of_applyOrder rfl h
  | lte => exact isMismatch_of_applyOrder rfl h
  | gt => exact isMismatch_of_applyOrder rfl h
  | gte => exact isMismatch_of_applyOrder rfl h

namespace Leaf

/-- A literal whose text fits its token has a value. -/
theorem exists_value {leaf : Leaf} {kind : LiteralKind} (ht : leaf.token = .literal kind)
    (ha : (Atom.literal kind).Admits leaf.text.toList) : ∃ v, leaf.value = .ok v := by
  unfold Leaf.value
  rw [ht]
  cases kind with
  | integer =>
    obtain ⟨n, hn⟩ := Option.isSome_iff_exists.mp (ofDigits?_isSome_iff.mpr ha)
    exact ⟨.integer n, by simp only [hn]⟩
  | string => exact ⟨_, rfl⟩
  | bool =>
    rcases ha with ha | ha
    · have htext : leaf.text = "true" := String.toList_inj.mp ha
      exact ⟨.bool true, by simp [htext]⟩
    · have htext : leaf.text = "false" := String.toList_inj.mp ha
      exact ⟨.bool false, by simp [htext]⟩
  | null => exact ⟨_, rfl⟩

/-- A variable whose text fits its token can be looked up in every table. -/
theorem exists_lookup {leaf : Leaf} (ht : leaf.token = .var) (ha : Atom.var.Admits leaf.text.toList) (bindings : Bindings) :
    ∃ v, leaf.lookup bindings = .ok v := by
  obtain ⟨name, htext, _⟩ := ha
  have hname : leaf.name? = some (.ofList name) := by
    simp only [Leaf.name?, ht, htext]
  unfold Leaf.lookup
  rw [hname]
  exact ⟨_, rfl⟩

end Leaf

/-- Evaluation of a well-formed tree fails only on values that are not comparable. -/
theorem Expr.WellFormed.isMismatch_of_eval {e : Expr} (h : e.WellFormed) {bindings : Bindings} {error : EvalError}
    (he : e.eval bindings = .error error) : error.IsMismatch := by
  induction e with
  | literal leaf =>
    obtain ⟨kind, ht, ha⟩ := h
    obtain ⟨v, hv⟩ := Leaf.exists_value ht ha
    rw [Expr.eval, hv] at he
    cases he
  | var leaf =>
    obtain ⟨ht, ha⟩ := h
    obtain ⟨v, hv⟩ := Leaf.exists_lookup ht ha bindings
    rw [Expr.eval, hv] at he
    cases he
  | binary family lhs op span rhs ihl ihr =>
    obtain ⟨hl, ⟨o, rfl, hf⟩, hr⟩ := h
    rw [Expr.eval, Token.operatorIn?_eq_some_iff.mpr ⟨rfl, hf⟩] at he
    simp only at he
    split at he
    · rename_i error' hlhs
      cases he
      exact ihl hl hlhs
    · split at he
      · cases he
      · split at he
        · rename_i error' hrhs
          cases he
          exact ihr hr hrhs
        · exact Operator.isMismatch_of_apply he

/-- A source that compiles gives a well-formed tree, and against every table that tree has a value, or the error is that of one of the
ordering operators on two values that are neither both integers nor both strings. No other error of evaluation comes from a source. -/
theorem eval_of_compile {source : String} {e : Expr} (h : compile source = .ok e) :
    e.WellFormed ∧ ∀ bindings : Bindings, (∃ v, e.eval bindings = .ok v) ∨
      ∃ op l r, e.eval bindings = .error (.mismatchType op l r) ∧ op.family = .comparison ∧ ¬l.Comparable r := by
  have hwf := wellFormed_of_compile h
  refine ⟨hwf, ?_⟩
  intro bindings
  cases he : e.eval bindings with
  | ok v => exact Or.inl ⟨v, rfl⟩
  | error error =>
    obtain ⟨op, l, r, rfl, hf, hc⟩ := hwf.isMismatch_of_eval he
    exact Or.inr ⟨op, l, r, rfl, hf, hc⟩

/-- The one error that is left does occur: a name without an entry is null, and null is not comparable with a string. -/
theorem eval_of_compile_mismatch :
    ∃ e, compile "$x<'a'" = .ok e ∧ e.WellFormed ∧ e.eval ∅ = .error (.mismatchType .lt .null (.string "a")) ∧
      Operator.lt.family = .comparison ∧ ¬Value.null.Comparable (.string "a") := by
  have hc : compile "$x<'a'" = .ok (.binary .comparison (.var ⟨.var, "$x", ⟨0, 2⟩⟩) (.operator .lt) ⟨2, 3⟩
      (.literal ⟨.literal .string, "a", ⟨3, 6⟩⟩)) := by
    cbv
  have he : Expr.eval ∅ (.binary .comparison (.var ⟨.var, "$x", ⟨0, 2⟩⟩) (.operator .lt) ⟨2, 3⟩
      (.literal ⟨.literal .string, "a", ⟨3, 6⟩⟩)) = .error (.mismatchType .lt .null (.string "a")) := by
    cbv
  obtain ⟨hwf, heval⟩ := eval_of_compile hc
  refine ⟨_, hc, hwf, he, ?_⟩
  rcases heval ∅ with ⟨v, hv⟩ | ⟨op, l, r, hm, hf, hn⟩
  · rw [he] at hv
    cases hv
  · rw [he] at hm
    cases hm
    exact ⟨hf, hn⟩

end RuleLang
