import Mathlib
import RuleLang.Proofs.Expr.Inlining
import RuleLang.Proofs.Expr.Operands
import RuleLang.Proofs.Rule.Safety

/-!
# The nodes that evaluation reaches

A place in a tree is given by the operands that lead to it from the root (`Expr.at?`). Evaluation reaches a place when every node
above has an operator of its family and a left operand that leaves the way to the place open (`Expr.Reached`). An error of
evaluation is that of the one node that is reached and is itself at fault (`eval_error_iff_reached`). What lies in the right operand of a
decided node is passed over (`Expr.Skipped`), so that anything may stand there (`eval_replaced_of_skipped`).
-/

namespace RuleLang

/-- A text denotes no number when it is empty or holds something else than digits. -/
theorem ofDigits?_eq_none_iff {text : String} : ofDigits? text = none ↔ text = "" ∨ ∃ c ∈ text.toList, c.isDigit = false := by
  rw [← Option.not_isSome_iff_eq_none, ofDigits?_isSome_iff, Classical.not_and_iff_not_or_not, Classical.not_not,
    String.toList_eq_nil_iff]
  simp

/-- An operator fails on two values exactly when it compares them by order and they have none. -/
theorem Operator.apply_eq_error_iff {op : Operator} {l r : Value} {error : EvalError} :
    op.apply l r = .error error ↔ op.family = .comparison ∧ ¬l.Comparable r ∧ error = .mismatchType op l r := by
  have horder : ∀ test, op.applyOrder test l r = .error error ↔ ¬l.Comparable r ∧ error = .mismatchType op l r := by
    intro test
    rw [← Value.order?_eq_none_iff, applyOrder]
    cases l.order? r with
    | none => simp [eq_comm]
    | some order => simp
  cases op <;> simp [apply, family, horder]

/-- One of the two operands of a binary node. -/
inductive Side where
  | lhs | rhs
  deriving DecidableEq, Repr

/-- The operand on the side. -/
def Side.operand (lhs rhs : Expr) : Side → Expr
  | .lhs => lhs
  | .rhs => rhs

namespace Expr

/-- The tree that stands where the path leads, which goes down from node to operand. Nothing stands below a leaf. -/
def at? : Expr → List Side → Option Expr
  | e, [] => some e
  | binary _ lhs _ _ rhs, side :: path => (side.operand lhs rhs).at? path
  | literal _, _ :: _ => none
  | var _, _ :: _ => none

theorem at?_nil (e : Expr) : e.at? [] = some e := by
  cases e <;> rfl

section

variable (bindings : Bindings)

/-- Evaluation reaches the place: every node above has an operator of its family, and where the place is in the right operand, the left
one has a value that does not decide the node. -/
def Reached (e : Expr) (path : List Side) : Prop :=
  ∀ above side below, path = above ++ side :: below →
    ∀ family lhs token span rhs, e.at? above = some (binary family lhs token span rhs) →
      (∃ op : Operator, token = .operator op ∧ op.family = family) ∧
        (side = .rhs → ∃ v, lhs.eval bindings = .ok v ∧ family.decisive? ≠ some v)

/-- The root of the tree is itself at fault, and its operands are not: its operator is not of its family, or compares two values that
have no order; or it is a leaf whose token or text cannot stand there. -/
inductive FailsWith : Expr → EvalError → Prop
  | operator {family : Family} {lhs rhs : Expr} {token : Token} (span : Span) :
      (∀ op : Operator, token = .operator op → op.family ≠ family) →
      FailsWith (binary family lhs token span rhs) (.unknownOperation token)
  | mismatch {lhs rhs : Expr} {op : Operator} {l r : Value} (span : Span) : op.family = .comparison →
      lhs.eval bindings = .ok l → rhs.eval bindings = .ok r → ¬l.Comparable r →
      FailsWith (binary .comparison lhs (.operator op) span rhs) (.mismatchType op l r)
  | integer {leaf : Leaf} : leaf.token = .literal .integer → leaf.text = "" ∨ (∃ c ∈ leaf.text.toList, c.isDigit = false) →
      FailsWith (literal leaf) (.invalidInteger leaf.text)
  | bool {leaf : Leaf} : leaf.token = .literal .bool → leaf.text ≠ "true" → leaf.text ≠ "false" →
      FailsWith (literal leaf) (.invalidBool leaf.text)
  | literal {leaf : Leaf} : (∀ kind, leaf.token ≠ .literal kind) → FailsWith (literal leaf) (.unexpectedLeaf leaf.token)
  | var {leaf : Leaf} : leaf.token ≠ .var ∨ (∀ name, leaf.text ≠ "$" ++ name) →
      FailsWith (var leaf) (.unexpectedLeaf leaf.token)

/-- At the place stands a tree that is reached and whose root is itself at fault. -/
def FailsAt (e : Expr) (path : List Side) (error : EvalError) : Prop :=
  ∃ node, e.at? path = some node ∧ e.Reached bindings path ∧ node.FailsWith bindings error

/-- The place lies in the right operand of a decided node: of an and whose left operand is false, or of an or whose left operand is
true. -/
def Skipped (e : Expr) (path : List Side) : Prop :=
  ∃ above below lhs op span rhs v, path = above ++ .rhs :: below ∧
    e.at? above = some (binary op.family lhs (.operator op) span rhs) ∧ lhs.eval bindings = .ok v ∧ op.family.decisive? = some v

end

/-- The tree with others in the places that have one, together with all that stood below. -/
def replaced : Expr → (List Side → Option Expr) → Expr
  | binary family lhs token span rhs, other? =>
    (other? []).getD (binary family (lhs.replaced fun path => other? (.lhs :: path)) token span
      (rhs.replaced fun path => other? (.rhs :: path)))
  | literal leaf, other? => (other? []).getD (literal leaf)
  | var leaf, other? => (other? []).getD (var leaf)

/-! ### Which error is told -/

section

variable {bindings : Bindings} {family : Family} {lhs rhs : Expr} {token : Token} {span : Span}

theorem reached_nil (e : Expr) : e.Reached bindings [] := by
  intro above side below h
  simp at h

/-- A place below a node is reached when the node lets evaluation pass to the operand and the operand lets it pass on. -/
theorem reached_cons {side : Side} {path : List Side} :
    (binary family lhs token span rhs).Reached bindings (side :: path) ↔
      (∃ op : Operator, token = .operator op ∧ op.family = family) ∧
        (side = .rhs → ∃ v, lhs.eval bindings = .ok v ∧ family.decisive? ≠ some v) ∧
        (side.operand lhs rhs).Reached bindings path := by
  constructor
  · intro h
    obtain ⟨hfit, hopen⟩ := h [] side path rfl family lhs token span rhs (at?_nil _)
    exact ⟨hfit, hopen, fun above side' below hpath => h (side :: above) side' below (congrArg _ hpath)⟩
  · rintro ⟨hfit, hopen, hbelow⟩ above side' below hpath
    cases above with
    | nil =>
      obtain ⟨rfl, rfl⟩ := List.cons.inj hpath
      intro _ _ _ _ _ hat
      rw [at?_nil] at hat
      cases hat
      exact ⟨hfit, hopen⟩
    | cons first above =>
      obtain ⟨rfl, rfl⟩ := List.cons.inj hpath
      exact hbelow above side' below rfl

theorem failsAt_nil {e : Expr} {error : EvalError} : e.FailsAt bindings [] error ↔ e.FailsWith bindings error := by
  constructor
  · rintro ⟨node, hat, _, hfail⟩
    rw [at?_nil] at hat
    obtain rfl := Option.some.inj hat
    exact hfail
  · intro h
    exact ⟨e, at?_nil e, reached_nil e, h⟩

theorem failsAt_cons {side : Side} {path : List Side} {error : EvalError} :
    (binary family lhs token span rhs).FailsAt bindings (side :: path) error ↔
      (∃ op : Operator, token = .operator op ∧ op.family = family) ∧
        (side = .rhs → ∃ v, lhs.eval bindings = .ok v ∧ family.decisive? ≠ some v) ∧
        (side.operand lhs rhs).FailsAt bindings path error := by
  constructor
  · rintro ⟨node, hat, hreach, hfail⟩
    obtain ⟨hfit, hopen, hbelow⟩ := reached_cons.mp hreach
    exact ⟨hfit, hopen, node, hat, hbelow, hfail⟩
  · rintro ⟨hfit, hopen, node, hat, hbelow, hfail⟩
    exact ⟨node, hat, reached_cons.mpr ⟨hfit, hopen, hbelow⟩, hfail⟩

/-- Nothing stands below a leaf. -/
theorem eq_nil_of_failsAt {e : Expr} (hleaf : ∀ family lhs token span rhs, e ≠ binary family lhs token span rhs) {path : List Side}
    {error : EvalError} (h : e.FailsAt bindings path error) : path = [] := by
  obtain ⟨node, hat, _⟩ := h
  cases path with
  | nil => rfl
  | cons side path =>
    cases e with
    | binary family lhs token span rhs => exact absurd rfl (hleaf family lhs token span rhs)
    | literal leaf => cases hat
    | var leaf => cases hat

theorem exists_failsAt_iff_of_leaf {e : Expr} (hleaf : ∀ family lhs token span rhs, e ≠ binary family lhs token span rhs)
    {error : EvalError} : (∃ path, e.FailsAt bindings path error) ↔ e.FailsWith bindings error := by
  constructor
  · rintro ⟨path, h⟩
    obtain rfl := eq_nil_of_failsAt hleaf h
    exact failsAt_nil.mp h
  · intro h
    exact ⟨[], failsAt_nil.mpr h⟩

/-- A literal has no value when it is at fault. -/
theorem value_eq_error_iff (bindings : Bindings) {leaf : Leaf} {error : EvalError} :
    leaf.value = .error error ↔ (literal leaf).FailsWith bindings error := by
  constructor
  · intro h
    unfold Leaf.value at h
    split at h
    · rename_i ht
      split at h
      · cases h
      · rename_i hdigits
        cases h
        exact .integer ht (ofDigits?_eq_none_iff.mp hdigits)
    · cases h
    · rename_i ht
      split at h
      · cases h
      · rename_i htrue
        split at h
        · cases h
        · rename_i hfalse
          cases h
          exact .bool ht htrue hfalse
    · cases h
    · rename_i hint hstring hbool hnull
      cases h
      refine .literal ?_
      intro kind
      cases kind with
      | integer => exact hint
      | string => exact hstring
      | bool => exact hbool
      | null => exact hnull
  · intro h
    unfold Leaf.value
    cases h with
    | integer ht htext => simp [ht, ofDigits?_eq_none_iff.mpr htext]
    | bool ht htrue hfalse => simp [ht, htrue, hfalse]
    | literal hkind =>
      split
      · exact absurd ‹_› (hkind .integer)
      · exact absurd ‹_› (hkind .string)
      · exact absurd ‹_› (hkind .bool)
      · exact absurd ‹_› (hkind .null)
      · rfl

/-- A variable cannot be looked up when it is at fault. -/
theorem lookup_eq_error_iff {leaf : Leaf} {error : EvalError} :
    leaf.lookup bindings = .error error ↔ (var leaf).FailsWith bindings error := by
  have hname : leaf.name? = none ↔ leaf.token ≠ .var ∨ ∀ name, leaf.text ≠ "$" ++ name := by
    obtain ⟨token, text, span⟩ := leaf
    by_cases ht : token = .var
    · subst ht
      simp [Option.eq_none_iff_forall_ne_some, Leaf.name?_var_eq_some_iff]
    · simp [Leaf.name?, ht]
  unfold Leaf.lookup
  constructor
  · intro h
    split at h
    · cases h
    · rename_i hnone
      cases h
      exact .var (hname.mp hnone)
  · intro h
    cases h with
    | var hbad => rw [hname.mpr hbad]

/-- Where the root is at fault, evaluation fails with it. -/
theorem FailsWith.eval_eq {e : Expr} {error : EvalError} (h : e.FailsWith bindings error) : e.eval bindings = .error error := by
  cases e with
  | literal leaf => exact (value_eq_error_iff bindings).mpr h
  | var leaf => exact lookup_eq_error_iff.mpr h
  | binary family lhs token span rhs =>
    cases h with
    | operator _ hunfit => exact eval_of_unfit (Token.operatorIn?_eq_none_iff.mpr hunfit)
    | mismatch _ hf hl hr hc =>
      rw [eval_of_undecided hf hl (by simp [Family.decisive?]), hr]
      exact Operator.apply_eq_error_iff.mpr ⟨hf, hc, rfl⟩

/-- Evaluation fails with an error exactly when there is a node that is reached and is itself at fault with it. -/
theorem eval_eq_error_iff {e : Expr} {error : EvalError} :
    e.eval bindings = .error error ↔ ∃ path, e.FailsAt bindings path error := by
  induction e with
  | literal leaf => rw [eval, value_eq_error_iff bindings, exists_failsAt_iff_of_leaf (by simp)]
  | var leaf => rw [eval, lookup_eq_error_iff, exists_failsAt_iff_of_leaf (by simp)]
  | binary family lhs token span rhs ihl ihr =>
    constructor
    · intro h
      rcases eval_binary_eq_error_iff.mp h with ⟨hunfit, rfl⟩ | ⟨op, rfl, hf, hl | ⟨l, hl, hd, hr | ⟨r, hr, happly⟩⟩⟩
      · exact ⟨[], failsAt_nil.mpr (.operator span (Token.operatorIn?_eq_none_iff.mp hunfit))⟩
      · obtain ⟨path, hpath⟩ := ihl.mp hl
        exact ⟨.lhs :: path, failsAt_cons.mpr ⟨⟨op, rfl, hf⟩, fun hside => absurd hside (by decide), hpath⟩⟩
      · obtain ⟨path, hpath⟩ := ihr.mp hr
        exact ⟨.rhs :: path, failsAt_cons.mpr ⟨⟨op, rfl, hf⟩, fun _ => ⟨l, hl, hd⟩, hpath⟩⟩
      · obtain ⟨hcomparison, hc, rfl⟩ := Operator.apply_eq_error_iff.mp happly
        obtain rfl : family = .comparison := hf.symm.trans hcomparison
        exact ⟨[], failsAt_nil.mpr (.mismatch span hf hl hr hc)⟩
    · rintro ⟨path, h⟩
      cases path with
      | nil => exact (failsAt_nil.mp h).eval_eq
      | cons side path =>
        obtain ⟨⟨op, rfl, hf⟩, hopen, hbelow⟩ := failsAt_cons.mp h
        cases side with
        | lhs => exact eval_of_lhs_error hf (ihl.mpr ⟨path, hbelow⟩)
        | rhs =>
          obtain ⟨l, hl, hd⟩ := hopen rfl
          exact eval_binary_eq_error_iff.mpr (Or.inr ⟨op, rfl, hf, Or.inr ⟨l, hl, hd, Or.inl (ihr.mpr ⟨path, hbelow⟩)⟩⟩)

/-- Below a node that is itself at fault none is: its operator keeps evaluation from its operands, or both of them have values. -/
theorem not_failsAt_cons_of_failsAt_nil {side : Side} {path : List Side} {error error' : EvalError}
    (h : (binary family lhs token span rhs).FailsAt bindings [] error) :
    ¬(binary family lhs token span rhs).FailsAt bindings (side :: path) error' := by
  intro h'
  obtain ⟨⟨op, ht, hf⟩, _, hbelow⟩ := failsAt_cons.mp h'
  have hs := eval_eq_error_iff.mpr ⟨path, hbelow⟩
  cases failsAt_nil.mp h with
  | operator _ hunfit => exact hunfit op ht hf
  | mismatch _ _ hl hr _ =>
    cases side with
    | lhs => exact absurd (hl.symm.trans hs) (by simp)
    | rhs => exact absurd (hr.symm.trans hs) (by simp)

/-- A node at fault in the left operand keeps evaluation from the right one. -/
theorem not_failsAt_rhs_of_failsAt_lhs {path path' : List Side} {error error' : EvalError}
    (h : (binary family lhs token span rhs).FailsAt bindings (.lhs :: path) error) :
    ¬(binary family lhs token span rhs).FailsAt bindings (.rhs :: path') error' := by
  intro h'
  have hl : lhs.eval bindings = .error error := eval_eq_error_iff.mpr ⟨path, (failsAt_cons.mp h).2.2⟩
  obtain ⟨v, hv, _⟩ := (failsAt_cons.mp h').2.1 rfl
  rw [hl] at hv
  cases hv

/-- There is one node at most that is reached and is itself at fault. -/
theorem FailsAt.unique {e : Expr} {path path' : List Side} {error error' : EvalError} (h : e.FailsAt bindings path error)
    (h' : e.FailsAt bindings path' error') : path = path' := by
  induction e generalizing path path' with
  | literal leaf => rw [eq_nil_of_failsAt (by simp) h, eq_nil_of_failsAt (by simp) h']
  | var leaf => rw [eq_nil_of_failsAt (by simp) h, eq_nil_of_failsAt (by simp) h']
  | binary family lhs token span rhs ihl ihr =>
    match path, path' with
    | [], [] => rfl
    | [], _ :: _ => exact absurd h' (not_failsAt_cons_of_failsAt_nil h)
    | _ :: _, [] => exact absurd h (not_failsAt_cons_of_failsAt_nil h')
    | .lhs :: _, .rhs :: _ => exact absurd h' (not_failsAt_rhs_of_failsAt_lhs h)
    | .rhs :: _, .lhs :: _ => exact absurd h (not_failsAt_rhs_of_failsAt_lhs h')
    | .lhs :: _, .lhs :: _ => rw [ihl (failsAt_cons.mp h).2.2 (failsAt_cons.mp h').2.2]
    | .rhs :: _, .rhs :: _ => rw [ihr (failsAt_cons.mp h).2.2 (failsAt_cons.mp h').2.2]

/-- Evaluation fails exactly when there is a node that is reached and is itself at fault, whether or not the tree is well formed. The error
is that node's, and there is no other such node. -/
theorem eval_error_iff_reached (e : Expr) (bindings : Bindings) :
    (∀ error, e.eval bindings = .error error ↔ ∃ path, e.FailsAt bindings path error) ∧
      ∀ path path' error error', e.FailsAt bindings path error → e.FailsAt bindings path' error' →
        path = path' ∧ error = error' := by
  refine ⟨fun error => eval_eq_error_iff, ?_⟩
  intro path path' error error' h h'
  have heval := eval_eq_error_iff.mpr ⟨path, h⟩
  rw [eval_eq_error_iff.mpr ⟨path', h'⟩] at heval
  exact ⟨h.unique h', (Except.error.inj heval).symm⟩

/-- In `(false && maybe) || ($x < (null == 1x))` with an and for the `==`, the text `maybe` is passed over and `1x` is not reached: the node
around it is refused for its operator. The comparison is not at fault either, since its right operand has no value. -/
theorem eval_error_iff_reached_operator :
    let e : Expr := .binary .or
      (.binary .and (.literal ⟨.literal .bool, "false", ⟨0, 0⟩⟩) (.operator .and) ⟨0, 0⟩ (.literal ⟨.literal .bool, "maybe", ⟨0, 0⟩⟩))
      (.operator .or) ⟨0, 0⟩
      (.binary .comparison (.var ⟨.var, "$x", ⟨0, 0⟩⟩) (.operator .lt) ⟨0, 0⟩
        (.binary .equality (.literal ⟨.literal .null, "null", ⟨0, 0⟩⟩) (.operator .and) ⟨0, 0⟩
          (.literal ⟨.literal .integer, "1x", ⟨0, 0⟩⟩)))
    e.eval ∅ = .error (.unknownOperation (.operator .and)) ∧
      ∀ path error, e.FailsAt ∅ path error → path = [.rhs, .rhs] := by
  intro e
  have hx : (Expr.var ⟨.var, "$x", ⟨0, 0⟩⟩).eval ∅ = .ok .null := by cbv
  have hat : e.FailsAt ∅ [.rhs, .rhs] (.unknownOperation (.operator .and)) := by
    refine failsAt_cons.mpr ⟨⟨.or, rfl, rfl⟩, fun _ => ⟨.bool false, rfl, by decide⟩, ?_⟩
    refine failsAt_cons.mpr ⟨⟨.lt, rfl, rfl⟩, fun _ => ⟨.null, hx, by decide⟩, ?_⟩
    refine failsAt_nil.mpr (.operator _ ?_)
    intro op hop hf
    cases hop
    cases hf
  obtain ⟨herror, hunique⟩ := eval_error_iff_reached e ∅
  exact ⟨(herror _).mpr ⟨_, hat⟩, fun path error h => (hunique _ _ _ _ h hat).1⟩

/-! ### What is passed over -/

theorem not_skipped_nil (e : Expr) : ¬e.Skipped bindings [] := by
  rintro ⟨above, below, _, _, _, _, _, h, _⟩
  simp at h

/-- A place below a node is passed over when it lies in the right operand and the node is decided, or when the operand passes it over. -/
theorem skipped_cons {side : Side} {path : List Side} :
    (binary family lhs token span rhs).Skipped bindings (side :: path) ↔
      (side = .rhs ∧ ∃ (op : Operator) (v : Value), token = .operator op ∧ op.family = family ∧ lhs.eval bindings = .ok v ∧
        family.decisive? = some v) ∨ (side.operand lhs rhs).Skipped bindings path := by
  constructor
  · rintro ⟨above, below, lhs', op, span', rhs', v, hpath, hat, hv, hd⟩
    cases above with
    | nil =>
      obtain ⟨rfl, rfl⟩ := List.cons.inj hpath
      rw [at?_nil] at hat
      cases hat
      exact Or.inl ⟨rfl, op, v, rfl, rfl, hv, hd⟩
    | cons first above =>
      obtain ⟨rfl, rfl⟩ := List.cons.inj hpath
      exact Or.inr ⟨above, below, lhs', op, span', rhs', v, rfl, hat, hv, hd⟩
  · rintro (⟨rfl, op, v, rfl, rfl, hv, hd⟩ | ⟨above, below, lhs', op, span', rhs', v, rfl, hat, hv, hd⟩)
    · exact ⟨[], path, lhs, op, span, rhs, v, rfl, at?_nil _, hv, hd⟩
    · exact ⟨side :: above, below, lhs', op, span', rhs', v, rfl, hat, hv, hd⟩

/-- The root is never passed over, so nothing is put in its place. -/
theorem eq_none_of_skipped {e : Expr} {other? : List Side → Option Expr}
    (h : ∀ path, other? path ≠ none → e.Skipped bindings path) : other? [] = none :=
  Classical.not_not.mp fun hne => not_skipped_nil e (h [] hne)

/-- Nothing that is put where evaluation passes over matters. -/
theorem eval_replaced {e : Expr} {other? : List Side → Option Expr}
    (h : ∀ path, other? path ≠ none → e.Skipped bindings path) : (e.replaced other?).eval bindings = e.eval bindings := by
  induction e generalizing other? with
  | literal leaf => rw [replaced, eq_none_of_skipped h, Option.getD_none]
  | var leaf => rw [replaced, eq_none_of_skipped h, Option.getD_none]
  | binary family lhs token span rhs ihl ihr =>
    have hleft : (lhs.replaced fun path => other? (.lhs :: path)).eval bindings = lhs.eval bindings := by
      refine ihl fun path hpath => ?_
      rcases skipped_cons.mp (h _ hpath) with ⟨hside, _⟩ | hskip
      · cases hside
      · exact hskip
    rw [replaced, eq_none_of_skipped h, Option.getD_none]
    cases ho : token.operatorIn? family with
    | none => rw [eval_of_unfit ho, eval_of_unfit ho]
    | some op =>
      obtain ⟨rfl, hf⟩ := Token.operatorIn?_eq_some_iff.mp ho
      cases hl : lhs.eval bindings with
      | error error => rw [eval_of_lhs_error hf (hleft.trans hl), eval_of_lhs_error hf hl]
      | ok l =>
        by_cases hd : family.decisive? = some l
        · rw [eval_of_decided hf (hleft.trans hl) hd, eval_of_decided hf hl hd]
        · have hright : (rhs.replaced fun path => other? (.rhs :: path)).eval bindings = rhs.eval bindings := by
            refine ihr fun path hpath => ?_
            rcases skipped_cons.mp (h _ hpath) with ⟨_, _, v, _, _, hv, hd'⟩ | hskip
            · obtain rfl : l = v := Except.ok.inj (hl.symm.trans hv)
              exact absurd hd' hd
            · exact hskip
          rw [eval_of_undecided hf (hleft.trans hl) hd, eval_of_undecided hf hl hd, hright]

end

/-- Whatever trees stand in the right operands of decided nodes, at any number of places and at any depth, the result is the same, value
or error. An and or an or whose left operand has another value than the one that decides it has exactly the result of its right
operand. -/
theorem eval_replaced_of_skipped (bindings : Bindings) :
    (∀ (e : Expr) (other? : List Side → Option Expr), (∀ path, other? path ≠ none → e.Skipped bindings path) →
      (e.replaced other?).eval bindings = e.eval bindings) ∧
      ∀ (lhs rhs : Expr) (span : Span) (v : Value), lhs.eval bindings = .ok v →
        (v ≠ .bool false → (binary .and lhs (.operator .and) span rhs).eval bindings = rhs.eval bindings) ∧
          (v ≠ .bool true → (binary .or lhs (.operator .or) span rhs).eval bindings = rhs.eval bindings) := by
  refine ⟨fun e other? h => eval_replaced h, ?_⟩
  intro lhs rhs span v hv
  constructor
  · intro hne
    exact eval_of_passed (Or.inl rfl) hv (by simpa [Operator.family, Family.decisive?] using hne.symm)
  · intro hne
    exact eval_of_passed (Or.inr rfl) hv (by simpa [Operator.family, Family.decisive?] using hne.symm)

/-- In `(null || (false && x)) == (true || y)` neither `x` nor `y` matters, whichever trees they are. The null on the left does not
decide its or, which is the and. -/
theorem eval_replaced_of_skipped_equality :
    let bool (text : String) : Expr := .literal ⟨.literal .bool, text, ⟨0, 0⟩⟩
    let null : Expr := .literal ⟨.literal .null, "null", ⟨0, 0⟩⟩
    let both (x : Expr) : Expr := .binary .and (bool "false") (.operator .and) ⟨0, 0⟩ x
    let left (x : Expr) : Expr := .binary .or null (.operator .or) ⟨0, 0⟩ (both x)
    let e (x y : Expr) : Expr :=
      .binary .equality (left x) (.operator .equals) ⟨0, 0⟩ (.binary .or (bool "true") (.operator .or) ⟨0, 0⟩ y)
    (∀ x y, (e x y).eval ∅ = (e null null).eval ∅) ∧ ∀ x, (left x).eval ∅ = (both x).eval ∅ := by
  intro bool null both left e
  have hx : (e null null).Skipped ∅ [.lhs, .rhs, .rhs] := by
    refine skipped_cons.mpr (Or.inr (skipped_cons.mpr (Or.inr (skipped_cons.mpr (Or.inl ?_)))))
    exact ⟨rfl, .and, .bool false, rfl, rfl, rfl, rfl⟩
  have hy : (e null null).Skipped ∅ [.rhs, .rhs] := by
    refine skipped_cons.mpr (Or.inr (skipped_cons.mpr (Or.inl ?_)))
    exact ⟨rfl, .or, .bool true, rfl, rfl, rfl, rfl⟩
  constructor
  · intro x y
    let other? (path : List Side) : Option Expr :=
      if path = [.lhs, .rhs, .rhs] then some x else if path = [.rhs, .rhs] then some y else none
    refine (eval_replaced_of_skipped ∅).1 (e null null) other? ?_
    intro path hpath
    by_cases h : path = [.lhs, .rhs, .rhs]
    · exact h ▸ hx
    · by_cases h' : path = [.rhs, .rhs]
      · exact h' ▸ hy
      · exact absurd (by simp [other?, h, h']) hpath
  · intro x
    exact ((eval_replaced_of_skipped ∅).2 null (both x) ⟨0, 0⟩ .null rfl).2 (by decide)

end Expr

end RuleLang
