import RuleLang.Proofs.Expr.Shape
import RuleLang.Proofs.Item.Depth
import RuleLang.Proofs.Rule.Compiling

/-!
# Printed trees compile to themselves

A well-formed tree is printed as one item: a leaf as its spelling, a binary node as a group of three. So the printed text divides
into an item that nests as deep as the tree is high (`Expr.exists_printsAs`), and compiling it gives back a tree of the same shape when
the limit on groups allows that, and is refused at the first parenthesis that passes the limit when it does not
(`compile_display`).
-/

namespace RuleLang

namespace Expr

/-- What an expression is printed as, in characters. -/
def printed (e : Expr) : List Char := e.display.toList

theorem printed_binary (family : Family) (lhs rhs : Expr) (op : Operator) (span : Span) :
    (binary family lhs (.operator op) span rhs).printed =
      '(' :: (lhs.printed ++ ' ' :: (op.symbol.toList ++ ' ' :: rhs.printed) ++ [')']) := by
  simp [printed, display, Token.display]

/-- A literal is printed as a spelling of its atom: of the two quotes, one that its text does not hold is used. -/
theorem spelled_displayLiteral {leaf : Leaf} {kind : LiteralKind} (ht : leaf.token = .literal kind)
    (h : (Atom.literal kind).Admits leaf.text.toList) :
    (Atom.literal kind).Spelled leaf.text.toList (displayLiteral leaf).toList := by
  rw [displayLiteral, ht]
  cases kind with
  | integer =>
    rw [if_neg (by decide)]
    exact .integer h.1 h.2
  | string =>
    rw [if_pos rfl]
    by_cases hs : '\'' ∈ leaf.text.toList
    · have hd : '"' ∉ leaf.text.toList := fun hd => h ⟨hs, hd⟩
      rw [if_pos hs]
      simpa using Atom.Spelled.string rfl hd
    · rw [if_neg hs]
      simpa using Atom.Spelled.string rfl hs
  | bool =>
    rw [if_neg (by decide)]
    rcases h with h | h
    · rw [h]
      exact .boolTrue
    · rw [h]
      exact .boolFalse
  | null =>
    rw [if_neg (by decide), show leaf.text.toList = ['n', 'u', 'l', 'l'] from h]
    exact .null

/-- Printed from byte `offset` on, the tree `e` is the item, which derives the tree `e'`. -/
structure PrintsAs (offset : Nat) (e : Expr) (item : Item) (e' : Expr) : Prop where
  divided : ∀ {rest : List Char} {items : List Item}, (∀ kind : Atom, kind.EndsBefore rest) →
    Divided (offset + byteSize e.printed) rest items → Divided offset (e.printed ++ rest) (item :: items)
  derives : Derives none [item] e'
  shape : e'.unplaced = e.unplaced
  nesting : item.nesting = e.height

/-- A leaf is printed as one atom. -/
theorem printsAs_leaf {kind : Atom} {leaf : Leaf} {e e' : Expr} (offset : Nat)
    (hs : kind.Spelled leaf.text.toList e.printed)
    (hd : Derives none [.atom kind leaf.text (.over offset e.printed)] e') (hshape : e'.unplaced = e.unplaced)
    (hh : e.height = 0) : PrintsAs offset e (.atom kind leaf.text (.over offset e.printed)) e' := by
  refine ⟨fun {rest items} hr hrest => ?_, hd, hshape, by rw [Item.nesting_atom, hh]⟩
  have h := Divided.atom hs (hr kind) hrest
  rwa [String.ofList_toList] at h

theorem endsBefore_space (rest : List Char) (kind : Atom) : kind.EndsBefore (' ' :: rest) :=
  Atom.endsBefore_cons (Atom.goesOn_eq_false (Or.inl (by decide)) kind) rest

/-- A binary node is printed as a group of three items. -/
theorem printsAs_binary {offset : Nat} {family : Family} {lhs rhs lhs' rhs' : Expr} {op : Operator} {left right : Item}
    (opSpan : Span) (hf : op.family = family) (hl : PrintsAs (offset + 1) lhs left lhs')
    (hr : PrintsAs (offset + 1 + byteSize lhs.printed + 1 + byteSize op.symbol.toList + 1) rhs right rhs') :
    ∃ item e', PrintsAs offset (binary family lhs (.operator op) opSpan rhs) item e' := by
  have hlast : Divided (offset + 1 + byteSize lhs.printed + 1 + byteSize op.symbol.toList) (' ' :: rhs.printed) [right] := by
    have h := hr.divided Atom.endsBefore_nil (.nil _)
    rw [List.append_nil] at h
    exact .blank (by decide) h
  have hop := Divided.atom (.operator op) (endsBefore_space _ _) hlast
  have hmiddle : Divided (offset + 1 + byteSize lhs.printed) (' ' :: (op.symbol.toList ++ ' ' :: rhs.printed)) _ :=
    .blank (by decide) hop
  have hinside := hl.divided (endsBefore_space _) hmiddle
  have hleft := hl.derives.of_operand family.below
  have hright := hr.derives.of_operand family.below
  generalize Span.over (offset + 1 + byteSize lhs.printed + 1) op.symbol.toList = span at hinside
  refine ⟨.group [left, .atom (.operator op) (.ofList op.symbol.toList) span, right]
    (.over offset (binary family lhs (.operator op) opSpan rhs).printed), .binary family lhs' (.operator op) span rhs', ?_, ?_,
    ?_, ?_⟩
  · intro rest items _ hrest
    rw [printed_binary] at hrest ⊢
    rw [List.cons_append, List.append_assoc, List.singleton_append]
    exact .group hinside hrest
  · have hbinary := @Derives.binary family [left] [right] lhs' rhs' op (.ofList op.symbol.toList) span hf hleft hright
    exact .group _ (List.cons_ne_nil _ _) hbinary.to_or
  · have hls : lhs'.map (fun _ => ⟨0, 0⟩) id = lhs.map (fun _ => ⟨0, 0⟩) id := hl.shape
    have hrs : rhs'.map (fun _ => ⟨0, 0⟩) id = rhs.map (fun _ => ⟨0, 0⟩) id := hr.shape
    rw [unplaced, unplaced, map, map, hls, hrs]
  · rw [Item.nesting_group, nestingOf_cons, nestingOf_cons, nestingOf_cons, nestingOf_nil, Item.nesting_atom, hl.nesting,
      hr.nesting, Nat.zero_max, Nat.max_zero, height]

/-- A well-formed tree is printed as one item, wherever it is printed. -/
theorem exists_printsAs {e : Expr} (h : e.WellFormed) (offset : Nat) : ∃ item e', PrintsAs offset e item e' := by
  induction e generalizing offset with
  | literal leaf =>
    obtain ⟨kind, ht, ha⟩ := h
    have hs := spelled_displayLiteral ht ha
    refine ⟨_, .literal ⟨.literal kind, leaf.text, .over offset (literal leaf).printed⟩, printsAs_leaf offset hs ?_ ?_ rfl⟩
    · exact .literal kind leaf.text _
    · rw [unplaced, unplaced, map, map, Leaf.map, Leaf.map, ht]
  | var leaf =>
    obtain ⟨ht, ha⟩ := h
    have hs : Atom.var.Spelled leaf.text.toList (var leaf).printed := by
      obtain ⟨covered, hs⟩ := Atom.exists_spelled_iff.mpr ha
      have hc : covered = leaf.text.toList := by
        generalize leaf.text.toList = text at hs
        cases hs
        rfl
      rwa [hc] at hs
    refine ⟨_, .var ⟨.var, leaf.text, .over offset (var leaf).printed⟩, printsAs_leaf offset hs ?_ ?_ rfl⟩
    · exact .var leaf.text _
    · rw [unplaced, unplaced, map, map, Leaf.map, Leaf.map, ht]
  | binary family lhs op opSpan rhs ihl ihr =>
    obtain ⟨hl, ⟨o, rfl, hf⟩, hr⟩ := h
    obtain ⟨left, lhs', hleft⟩ := ihl hl (offset + 1)
    obtain ⟨right, rhs', hright⟩ := ihr hr (offset + 1 + byteSize lhs.printed + 1 + byteSize o.symbol.toList + 1)
    exact printsAs_binary opSpan hf hleft hright

end Expr

/-- A well-formed tree that is at most as high as groups may nest compiles, once it is printed, to a tree of its shape. A higher one is
refused at the first parenthesis of its printed text that stands outside of strings and inside as many others as may nest. -/
theorem compile_display (e : Expr) (h : e.WellFormed) :
    (e.height ≤ maxNesting → ∃ e', compile e.display = .ok e' ∧ e'.unplaced = e.unplaced) ∧
      (maxNesting < e.height → ∃ before, (Place.inside 0).Opens maxNesting e.display.toList before ∧
        (∀ other, (Place.inside 0).Opens maxNesting e.display.toList other → before <+: other) ∧
        compile e.display = .error (.lex (.tooDeep maxNesting (.over (byteSize before) ['('])))) := by
  obtain ⟨item, e', hp⟩ := Expr.exists_printsAs h 0
  have hdiv : Divided 0 e.display.toList [item] := by
    have hd := hp.divided Atom.endsBefore_nil (.nil _)
    rwa [List.append_nil] at hd
  have hnest : nestingOf [item] = e.height := by rw [nestingOf_cons, nestingOf_nil, Nat.max_zero, hp.nesting]
  constructor
  · intro hle
    rw [← hnest] at hle
    exact ⟨e', compile_eq_ok_iff.mpr ⟨[item], hdiv, hp.derives.to_or, hle⟩, hp.shape⟩
  · intro hlt
    obtain ⟨before, hopen, hfirst, hlex⟩ := lex_tooDeep_of_divided hdiv (by omega)
    refine ⟨before, hopen, hfirst, ?_⟩
    rw [compile, hlex]

/-- A tree of any height that leans to the left, with a parenthesis and a quote in the string at its far end. -/
def Expr.tower : Nat → Expr
  | 0 => .literal ⟨.literal .string, "it's (", ⟨0, 0⟩⟩
  | n + 1 => .binary .or (tower n) (.operator .or) ⟨0, 0⟩ (.var ⟨.var, "$x", ⟨0, 0⟩⟩)

theorem Expr.wellFormed_tower (n : Nat) : (Expr.tower n).WellFormed := by
  induction n with
  | zero =>
    have hdouble : '"' ∉ "it's (".toList := by decide
    exact ⟨.string, rfl, fun h => hdouble h.2⟩
  | succ n ih =>
    have hname : ∀ c ∈ ['x'], isNameChar c = true := by
      intro c hc
      rw [List.mem_singleton.mp hc]
      rfl
    exact ⟨ih, ⟨.or, rfl, rfl⟩, rfl, ['x'], rfl, List.cons_ne_nil _ _, hname⟩

theorem Expr.height_tower (n : Nat) : (Expr.tower n).height = n := by
  induction n with
  | zero => rfl
  | succ n ih => rw [tower, height, height, ih, Nat.max_zero]

/-- Of two trees next to each other in height, one is the highest that compiles and the other is refused. -/
theorem compile_display_tower :
    (∃ e', compile (Expr.tower 128).display = .ok e' ∧ e'.unplaced = (Expr.tower 128).unplaced) ∧
      ∃ before, (Place.inside 0).Opens maxNesting (Expr.tower 129).display.toList before ∧
        (∀ other, (Place.inside 0).Opens maxNesting (Expr.tower 129).display.toList other → before <+: other) ∧
        compile (Expr.tower 129).display = .error (.lex (.tooDeep maxNesting (.over (byteSize before) ['(']))) := by
  have hle : (Expr.tower 128).height ≤ maxNesting := by
    rw [Expr.height_tower]
    decide
  have hlt : maxNesting < (Expr.tower 129).height := by
    rw [Expr.height_tower]
    decide
  exact ⟨(compile_display (.tower 128) (Expr.wellFormed_tower 128)).1 hle,
    (compile_display (.tower 129) (Expr.wellFormed_tower 129)).2 hlt⟩

end RuleLang
