import Mathlib
import RuleLang.Proofs.Expr.Calls
import RuleLang.Proofs.Expr.Height
import RuleLang.Proofs.Expr.Printing
import RuleLang.Proofs.Item.Joining
import RuleLang.Proofs.Rule.Safety

/-!
# How high the tree of a source can be

However long a source is, its tree is no higher than the limit on groups allows, and neither do the calls that go down the tree nest any
deeper. Both bounds are reached (`height_bounded`): an operator of each level around a group of such a text makes the highest tree that
there is with one group more (`fills_deepText`).
-/

namespace RuleLang

/-! ### Texts of the greatest height -/

/-- Wherever the text stands, it is divided into as many items as a level can have, with groups nested as deep as told, and they derive
a tree that is as high on its left side as one of the level can be. -/
def Fills (level : Option Family) (nesting : Nat) (text : List Char) : Prop :=
  ∀ offset, ∃ items e, Divided offset text items ∧ Derives level items e ∧ items.length = mostItems level ∧
    nestingOf items = nesting ∧ e.leftHeight = looseness level + 4 * nesting

theorem fills_digit : Fills none 0 ['1'] := by
  intro offset
  have hdigit : (Atom.literal .integer).Spelled ['1'] ['1'] := .integer (List.cons_ne_nil _ _) (List.forall_mem_singleton.mpr rfl)
  exact ⟨_, _, hdigit.divided offset, .literal _ _ _, rfl, rfl, rfl⟩

theorem Fills.group {nesting : Nat} {text : List Char} (h : Fills (some .or) nesting text) :
    Fills none (nesting + 1) ('(' :: (text ++ [')'])) := by
  intro offset
  obtain ⟨members, e, hdiv, hder, hlength, hnest, hheight⟩ := h (offset + 1)
  have hne : members ≠ [] := by
    rintro rfl
    cases hlength
  refine ⟨_, e, .group hdiv (.nil _), .group _ hne hder, rfl, ?_, ?_⟩
  · rw [nestingOf_cons, nestingOf_nil, Item.nesting_group, hnest, Nat.max_zero]
  · rw [hheight, looseness_or, show looseness none = 0 from rfl]
    omega

/-- An operator of the family between two texts of the level below fills the level of the family, with the groups of the left one. -/
theorem Fills.join {family : Family} {op : Operator} (hf : op.family = family) {nesting nesting' : Nat} {left right : List Char}
    (hl : Fills family.below nesting left) (hr : Fills family.below nesting' right) (hle : nesting' ≤ nesting) :
    Fills (some family) nesting (left ++ ' ' :: (op.symbol.toList ++ ' ' :: right)) := by
  intro offset
  obtain ⟨items, lhs, hdiv, hder, hlength, hnest, hheight⟩ := hl offset
  obtain ⟨items', rhs, hdiv', hder', hlength', hnest', _⟩ :=
    hr (offset + byteSize left + 1 + byteSize op.symbol.toList + 1)
  have hop := Divided.atom (.operator op) (Expr.endsBefore_space _ _) (.blank (by decide) hdiv')
  have hall := hdiv.append (Expr.endsBefore_space _) (.blank (by decide) hop)
  refine ⟨_, _, hall, .binary _ _ hf hder hder', ?_, ?_, ?_⟩
  · rw [List.length_append, List.length_cons, hlength, hlength', mostItems_some]
    omega
  · rw [nestingOf_append, nestingOf_cons, Item.nesting_atom]
    omega
  · rw [Expr.leftHeight, looseness_below]
    omega

/-- The operand with an operator of every level to the right of it, all other operands being digits. -/
def spread (operand : List Char) : List Operator → List Char
  | [] => operand
  | op :: ops => spread operand ops ++ ' ' :: (op.symbol.toList ++ ' ' :: spread ['1'] ops)

/-- One operator of each level, the loosest first. -/
def oneOfEach : List Operator := [.or, .and, .equals, .lt]

/-- A digit, or a group of the text for one group less, with an operator of every level to the right of it. -/
def deepText : Nat → List Char
  | 0 => spread ['1'] oneOfEach
  | n + 1 => spread ('(' :: (deepText n ++ [')'])) oneOfEach

theorem Fills.of_operand {nesting : Nat} {operand : List Char} (h : Fills none nesting operand) :
    Fills (some .or) nesting (spread operand oneOfEach) := by
  have hstep : ∀ {op : Operator} {ops : List Operator},
      (∀ {nesting operand}, Fills none nesting operand → Fills op.family.below nesting (spread operand ops)) →
      ∀ {nesting operand}, Fills none nesting operand → Fills (some op.family) nesting (spread operand (op :: ops)) :=
    fun hbelow _ _ h => (hbelow h).join rfl (hbelow fills_digit) (Nat.zero_le _)
  exact @hstep .or [.and, .equals, .lt] (@hstep .and [.equals, .lt] (@hstep .equals [.lt] (@hstep .lt [] id))) _ _ h

theorem fills_deepText (n : Nat) : Fills (some .or) n (deepText n) := by
  induction n with
  | zero => exact fills_digit.of_operand
  | succ n ih => exact ih.group.of_operand

example : String.ofList (deepText 0) = "1 < 1 == 1 < 1 && 1 < 1 == 1 < 1 || 1 < 1 == 1 < 1 && 1 < 1 == 1 < 1" := by decide

/-- The source has the items and the tree, which are as many and as high as groups that nest `n` deep allow. -/
structure Highest (n : Nat) (source : String) (items : List Item) (e : Expr) : Prop where
  lex_eq : lex source = .ok items
  parse_eq : parse items = .ok e
  compile_eq : compile source = .ok e
  nesting_eq : nestingOf items = n
  length_eq : items.length = 31
  height_eq : e.height = 4 * (n + 1)
  leftHeight_eq : e.leftHeight = 4 * (n + 1)

theorem exists_highest {n : Nat} (h : n ≤ maxNesting) : ∃ items e, Highest n (.ofList (deepText n)) items e := by
  obtain ⟨items, e, hdiv, hder, hlength, hnest, hleft⟩ := fills_deepText n 0
  rw [looseness_or] at hleft
  have hlow := e.leftHeight_le_height
  have hhigh := hder.height_le_of_or
  have hle : nestingOf items ≤ maxNesting := hnest.trans_le h
  rw [← String.toList_ofList (l := deepText n)] at hdiv
  refine ⟨items, e, lex_eq_ok_iff.mpr ⟨hdiv, hle⟩, parse_eq_ok_iff.mpr ⟨hder, hle⟩, compile_eq_ok_iff.mpr ⟨items, hdiv, hder, hle⟩,
    hnest, hlength, ?_, ?_⟩
  · omega
  · omega

/-! ### Sources -/

theorem height_le_of_compile {source : String} {e : Expr} (h : compile source = .ok e) : e.height ≤ 516 := by
  obtain ⟨items, _, hder, hn⟩ := compile_eq_ok_iff.mp h
  have hle := hder.height_le_of_or
  have hmax : maxNesting = 128 := rfl
  omega

/-- The height of a tree is bounded by how deep groups nest in its items, and not by how many there are. In every sequence of items that
are parsed, operands and operators take turns, and there are 31 items at the most; a path of the tree has four nodes at the most for the
outermost sequence and four for each group around its end. So the tree of a source has no more than 516 nodes on a path, and 517 nested
calls are enough to evaluate it, to take its span and to display it. For every nesting that the limit allows there is a source that
reaches the bounds and needs one call more than its tree is high. -/
theorem height_bounded :
    (∀ items e, parse items = .ok e →
      (∀ sequence, SequenceOf items sequence → Alternates sequence ∧ sequence.length ≤ 31) ∧
        e.height ≤ 4 * (nestingOf items + 1)) ∧
    (∀ source e, compile source = .ok e →
      e.height ≤ 516 ∧ (∀ bindings, e.evalWithin bindings 517 = some (e.eval bindings)) ∧ e.spanWithin 517 = some e.span ∧
        e.displayWithin 517 = some e.display) ∧
    ∀ n, n ≤ maxNesting → ∃ source items e, lex source = .ok items ∧ parse items = .ok e ∧ compile source = .ok e ∧
      nestingOf items = n ∧ items.length = 31 ∧ e.height = 4 * (n + 1) ∧
      (∀ bindings, e.evalWithin bindings (4 * (n + 1)) = none) ∧ e.spanWithin (4 * (n + 1)) = none ∧
      e.displayWithin (4 * (n + 1)) = none := by
  refine ⟨?_, ?_, ?_⟩
  · intro items e h
    have hder := (parse_eq_ok_iff.mp h).1
    refine ⟨fun sequence hs => ?_, hder.height_le_of_or⟩
    obtain ⟨e', h'⟩ := hder.exists_of_sequenceOf hs
    exact ⟨h'.alternates, h'.length_le⟩
  · intro source e h
    have hle := height_le_of_compile h
    have hlt : e.height < 517 := Nat.lt_succ_of_le hle
    refine ⟨hle, fun bindings => Expr.evalWithin_of_height_lt bindings hlt, ?_, ?_⟩
    · rw [Expr.spanWithin_eq, if_pos hlt]
    · rw [Expr.displayWithin_eq, if_pos hlt]
  · intro n hn
    obtain ⟨items, e, h⟩ := exists_highest hn
    refine ⟨_, items, e, h.lex_eq, h.parse_eq, h.compile_eq, h.nesting_eq, h.length_eq, h.height_eq, ?_, ?_, ?_⟩
    · intro bindings
      exact Expr.evalWithin_eq_none bindings (wellFormed_of_compile h.compile_eq) h.leftHeight_eq.ge
    · rw [Expr.spanWithin_eq, if_neg h.height_eq.not_lt]
    · rw [Expr.displayWithin_eq, if_neg h.height_eq.not_lt]

/-- The members of a group take turns as the items around it do, and the tree of a source with one group has 8 nodes on a path at the
most. A tree with 516 nodes on a path, which takes 517 calls, is the tree of some source. -/
theorem height_bounded_nested :
    (Alternates [.atom (.literal .integer) "1" ⟨1, 2⟩, .atom (.operator .lt) "<" ⟨2, 3⟩, .atom .var "$x" ⟨3, 5⟩] ∧
      ∃ e, compile "(1<$x)==null" = .ok e ∧ e.height ≤ 8 ∧ e.spanWithin 517 = some e.span) ∧
    ∃ source e, compile source = .ok e ∧ e.height = 516 ∧ e.spanWithin 516 = none ∧ e.spanWithin 517 = some e.span := by
  obtain ⟨hitems, hsource, hreached⟩ := height_bounded
  obtain ⟨source, _, deep, _, _, hdeep, _, _, hheight, _, hspan, _⟩ := hreached 128 (by decide)
  have hparse : parse [.group [.atom (.literal .integer) "1" ⟨1, 2⟩, .atom (.operator .lt) "<" ⟨2, 3⟩, .atom .var "$x" ⟨3, 5⟩] ⟨0, 6⟩,
      .atom (.operator .equals) "==" ⟨6, 8⟩, .atom (.literal .null) "null" ⟨8, 12⟩] =
      .ok (.binary .equality (.binary .comparison (.literal ⟨.literal .integer, "1", ⟨1, 2⟩⟩) (.operator .lt) ⟨2, 3⟩
        (.var ⟨.var, "$x", ⟨3, 5⟩⟩)) (.operator .equals) ⟨6, 8⟩ (.literal ⟨.literal .null, "null", ⟨8, 12⟩⟩)) := by cbv
  have hcompile : compile "(1<$x)==null" =
      .ok (.binary .equality (.binary .comparison (.literal ⟨.literal .integer, "1", ⟨1, 2⟩⟩) (.operator .lt) ⟨2, 3⟩
        (.var ⟨.var, "$x", ⟨3, 5⟩⟩)) (.operator .equals) ⟨6, 8⟩ (.literal ⟨.literal .null, "null", ⟨8, 12⟩⟩)) := by cbv
  obtain ⟨hsequences, hle⟩ := hitems _ _ hparse
  have hmembers := (hsequences _ (Or.inr ⟨⟨0, 6⟩, .here List.mem_cons_self⟩)).1
  exact ⟨⟨hmembers, _, hcompile, hle, (hsource _ _ hcompile).2.2.1⟩, source, deep, hdeep, hheight, hspan, (hsource _ _ hdeep).2.2.1⟩

end RuleLang
