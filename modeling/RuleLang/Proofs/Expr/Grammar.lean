import RuleLang.Expr.OfItems
import RuleLang.Proofs.Item.Nesting
import RuleLang.Proofs.Result

/-!
# The grammar of expressions

What the expression of a sequence of items is, said of the items and not of how they are read. An or is one and, or two with `||`
between them, and so on down to the comparison of operands; an operand is a literal, a variable, or a group whose members are an
or (`Derives`). A sequence is read as the expression that it derives, if its groups stay within the limit
(`exprOf_eq_ok_iff`), so that it derives at most one.

Reading works on a flat sequence, where every item is paired with what it is as an operand. `Takes` is the grammar of such
sequences, and the statements about the readers are about it.
-/

namespace RuleLang

/-- The level of the operands of a family's operators. The operands of comparisons are below all families. -/
def Family.below : Family → Option Family
  | .or => some .and
  | .and => some .equality
  | .equality => some .comparison
  | .comparison => none

/-- The items derive the expression at a level: that of a family of operators, or that of operands. -/
inductive Derives : (level : Option Family) → List Item → Expr → Prop
  | literal (kind : LiteralKind) (text : String) (span : Span) :
      Derives none [.atom (.literal kind) text span] (.literal ⟨.literal kind, text, span⟩)
  | var (text : String) (span : Span) : Derives none [.atom .var text span] (.var ⟨.var, text, span⟩)
  | group {members : List Item} {e : Expr} (span : Span) : members ≠ [] → Derives (some .or) members e →
      Derives none [.group members span] e
  | single {family : Family} {items : List Item} {e : Expr} : Derives family.below items e → Derives (some family) items e
  | binary {family : Family} {left right : List Item} {lhs rhs : Expr} {op : Operator} (text : String) (span : Span) :
      op.family = family → Derives family.below left lhs → Derives family.below right rhs →
      Derives (some family) (left ++ .atom (.operator op) text span :: right) (.binary family lhs (.operator op) span rhs)

/-! ### The grammar of flat sequences -/

/-- The readings make up the expression at a level. -/
inductive Takes : (level : Option Family) → List Reading → Expr → Prop
  | operand {item : Reading} {e : Expr} : item.operand = .ok e → Takes none [item] e
  | single {family : Family} {items : List Reading} {e : Expr} : Takes family.below items e → Takes (some family) items e
  | binary {family : Family} {left right : List Reading} {lhs rhs : Expr} {item : Reading} {op : Operator} :
      item.token.operatorIn? family = some op → Takes family.below left lhs → Takes family.below right rhs →
      Takes (some family) (left ++ item :: right) (.binary family lhs (.operator op) item.span rhs)

/-- How loosely the operators of a level bind. -/
def looseness : Option Family → Nat
  | none => 0
  | some .comparison => 1
  | some .equality => 2
  | some .and => 3
  | some .or => 4

theorem looseness_below (family : Family) : looseness (some family) = looseness family.below + 1 := by
  cases family <;> rfl

/-- What follows does not go on with an expression of the level: it begins with no operator that binds as the level's do or
tighter. -/
def Stops (level : Option Family) (rest : List Reading) : Prop :=
  ∀ item, rest.head? = some item → ∀ family op, item.token.operatorIn? family = some op →
    looseness level < looseness (some family)

theorem stops_nil (level : Option Family) : Stops level [] := by
  intro item h
  cases h

theorem Stops.below {family : Family} {rest : List Reading} (h : Stops (some family) rest) : Stops family.below rest := by
  intro item hi family' op ho
  have := h item hi family' op ho
  rw [looseness_below] at this
  omega

/-- Before an operator of a family, the operands of the family stop. -/
theorem stops_below_of_operatorIn? {family : Family} {item : Reading} {op : Operator}
    (h : item.token.operatorIn? family = some op) (rest : List Reading) : Stops family.below (item :: rest) := by
  intro item' hi family' op' ho
  obtain rfl := Option.some.inj hi
  obtain ⟨ht, rfl⟩ := Token.operatorIn?_eq_some_iff.mp h
  obtain ⟨ht', rfl⟩ := Token.operatorIn?_eq_some_iff.mp ho
  rw [ht] at ht'
  obtain rfl : op = op' := by injection ht' with ht'; injection ht'
  rw [looseness_below]
  omega

/-! ### What a reader reads -/

/-- What the reader takes from the front of a sequence is an expression of the level. -/
def Sound (reader : Reader) (level : Option Family) : Prop :=
  ∀ items e rest, reader items = .ok (e, rest) → ∃ front, items = front ++ rest ∧ Takes level front e

/-- The reader takes every expression of the level that stops. -/
def Complete (reader : Reader) (level : Option Family) : Prop :=
  ∀ front e rest, Takes level front e → Stops level rest → reader (front ++ rest) = .ok (e, rest)

theorem sound_readOperand : Sound readOperand none := by
  intro items e rest h
  cases items with
  | nil => cases h
  | cons item items =>
    obtain ⟨e', he, h⟩ := map_eq_ok_iff.mp h
    obtain ⟨rfl, rfl⟩ := Prod.mk.inj h
    exact ⟨[item], rfl, .operand he⟩

theorem complete_readOperand : Complete readOperand none := by
  intro front e rest h _
  cases h with
  | operand he => exact map_eq_ok_iff.mpr ⟨e, he, rfl⟩

theorem sound_readLevel {family : Family} {operand : Reader} (h : Sound operand family.below) :
    Sound (readLevel family operand) (some family) := by
  intro items e rest hread
  obtain ⟨⟨lhs, rest₁⟩, hl, hcont⟩ := bind_eq_ok_iff.mp hread
  obtain ⟨left, hleft, htl⟩ := h items lhs rest₁ hl
  subst hleft
  cases rest₁ with
  | nil =>
    obtain ⟨rfl, rfl⟩ := Prod.mk.inj (Except.ok.inj hcont)
    exact ⟨left, rfl, .single htl⟩
  | cons next after =>
    cases ho : next.token.operatorIn? family with
    | none =>
      simp only [ho] at hcont
      obtain ⟨rfl, rfl⟩ := Prod.mk.inj (Except.ok.inj hcont)
      exact ⟨left, rfl, .single htl⟩
    | some op =>
      simp only [ho] at hcont
      obtain ⟨⟨rhs, rest₂⟩, hr, hdone⟩ := bind_eq_ok_iff.mp hcont
      obtain ⟨rfl, rfl⟩ := Prod.mk.inj (Except.ok.inj hdone)
      obtain ⟨right, rfl, htr⟩ := h after rhs rest₂ hr
      exact ⟨left ++ next :: right, by simp, .binary ho htl htr⟩

theorem complete_readLevel {family : Family} {operand : Reader} (h : Complete operand family.below) :
    Complete (readLevel family operand) (some family) := by
  intro front e rest ht hs
  cases ht with
  | single ht =>
    refine bind_eq_ok_iff.mpr ⟨_, h front e rest ht hs.below, ?_⟩
    cases rest with
    | nil => rfl
    | cons next after =>
      cases ho : next.token.operatorIn? family with
      | none => simp only [ho]; rfl
      | some op => exact absurd (hs next rfl family op ho) (Nat.lt_irrefl _)
  | @binary _ left right lhs rhs item op ho hl hr =>
    rw [List.append_assoc, List.cons_append]
    refine bind_eq_ok_iff.mpr ⟨_, h left lhs _ hl (stops_below_of_operatorIn? ho _), ?_⟩
    simp only [ho]
    exact bind_eq_ok_iff.mpr ⟨_, h right rhs rest hr hs.below, rfl⟩

theorem sound_readExpr : Sound readExpr (some .or) :=
  sound_readLevel (sound_readLevel (sound_readLevel (sound_readLevel sound_readOperand)))

theorem complete_readExpr : Complete readExpr (some .or) :=
  complete_readLevel (complete_readLevel (complete_readLevel (complete_readLevel complete_readOperand)))

/-- A sequence is read as the expression it makes up. -/
theorem readWhole_eq_ok_iff {items : List Reading} {e : Expr} : readWhole items = .ok e ↔ Takes (some .or) items e := by
  constructor
  · intro h
    obtain ⟨⟨e', rest⟩, hr, h⟩ := bind_eq_ok_iff.mp h
    cases rest with
    | nil =>
      obtain rfl := Except.ok.inj h
      obtain ⟨front, rfl, ht⟩ := sound_readExpr items e' [] hr
      rwa [List.append_nil]
    | cons next rest => cases h
  · intro h
    have hr := complete_readExpr items e [] h (stops_nil _)
    rw [List.append_nil] at hr
    exact bind_eq_ok_iff.mpr ⟨_, hr, rfl⟩

/-! ### Items and their readings -/

/-- An item is read as the operand that it derives, if its groups stay within the limit. -/
def ReadAsDerived (limit : Option Nat) (depth : Nat) (item : Item) : Prop :=
  ∀ e, item.operand limit depth = .ok e ↔ Derives none [item] e ∧ Allows limit depth item.nesting

theorem Derives.of_takes {limit : Option Nat} {depth : Nat} {level : Option Family} {items : List Item} {e : Expr}
    (h : Takes level (readings limit depth items) e) (hi : ∀ item ∈ items, ReadAsDerived limit depth item) :
    Derives level items e ∧ Allows limit depth (nestingOf items) := by
  rw [readings_eq_map] at h
  generalize hr : items.map (Item.reading limit depth) = rs at h
  induction h generalizing items with
  | @operand r e he =>
    obtain ⟨item, rfl, rfl⟩ := List.map_eq_singleton_iff.mp hr
    obtain ⟨hd, ha⟩ := (hi item (List.mem_singleton_self item) e).mp he
    rw [nestingOf_cons, nestingOf_nil, Nat.max_zero]
    exact ⟨hd, ha⟩
  | single _ ih =>
    obtain ⟨hd, ha⟩ := ih hi hr
    exact ⟨.single hd, ha⟩
  | @binary family left right lhs rhs r op ho _ _ ihl ihr =>
    obtain ⟨left, tail, rfl, rfl, htail⟩ := List.map_eq_append_iff.mp hr
    obtain ⟨item, right, rfl, rfl, rfl⟩ := List.map_eq_cons_iff.mp htail
    obtain ⟨hl, hal⟩ := ihl (fun i hm => hi i (List.mem_append_left _ hm)) rfl
    obtain ⟨hrr, har⟩ := ihr (fun i hm => hi i (List.mem_append_right _ (List.mem_cons_of_mem _ hm))) rfl
    obtain ⟨ht, hf⟩ := Token.operatorIn?_eq_some_iff.mp ho
    cases item with
    | group members span => cases ht
    | atom kind text span =>
      obtain rfl := Token.atom.inj ht
      rw [nestingOf_append, nestingOf_cons, Item.nesting_atom, Nat.zero_max]
      exact ⟨.binary text span hf hl hrr, allows_max.mpr ⟨hal, har⟩⟩

theorem Derives.takes {limit : Option Nat} {depth : Nat} {level : Option Family} {items : List Item} {e : Expr}
    (h : Derives level items e) (ha : Allows limit depth (nestingOf items))
    (hi : ∀ item ∈ items, ReadAsDerived limit depth item) : Takes level (readings limit depth items) e := by
  have key : ∀ {item : Item} {e : Expr}, Derives none [item] e → Allows limit depth (nestingOf [item]) →
      ReadAsDerived limit depth item → Takes none (readings limit depth [item]) e := by
    intro item e hd ha hi
    rw [nestingOf_cons, nestingOf_nil, Nat.max_zero] at ha
    exact .operand ((hi e).mpr ⟨hd, ha⟩)
  induction h with
  | literal kind text span => exact key (.literal kind text span) ha (hi _ (List.mem_singleton_self _))
  | var text span => exact key (.var text span) ha (hi _ (List.mem_singleton_self _))
  | group span hn hm _ => exact key (.group span hn hm) ha (hi _ (List.mem_singleton_self _))
  | single _ ih => exact .single (ih ha hi)
  | @binary family left right lhs rhs op text span hf _ _ ihl ihr =>
    rw [nestingOf_append, nestingOf_cons, allows_max, allows_max] at ha
    rw [readings_eq_map, List.map_append, List.map_cons, ← readings_eq_map, ← readings_eq_map]
    have hl := ihl ha.1 fun i hm => hi i (List.mem_append_left _ hm)
    have hr := ihr ha.2.2 fun i hm => hi i (List.mem_append_right _ (List.mem_cons_of_mem _ hm))
    exact @Takes.binary _ _ _ _ _ (Item.reading limit depth (.atom (.operator op) text span)) op
      (Token.operatorIn?_eq_some_iff.mpr ⟨rfl, hf⟩) hl hr

/-- An atom is read as the operand that it derives: itself, unless it is an operator. -/
theorem readAsDerived_atom (limit : Option Nat) (depth : Nat) (kind : Atom) (text : String) (span : Span) :
    ReadAsDerived limit depth (.atom kind text span) := by
  intro e
  rw [Item.nesting_atom]
  rcases kind with kind | _ | op
  · rw [Item.operand]
    constructor
    · intro h
      obtain rfl := Except.ok.inj h
      exact ⟨.literal kind text span, allows_zero limit depth⟩
    · rintro ⟨h, _⟩
      cases h
      rfl
  · rw [Item.operand]
    constructor
    · intro h
      obtain rfl := Except.ok.inj h
      exact ⟨.var text span, allows_zero limit depth⟩
    · rintro ⟨h, _⟩
      cases h
      rfl
  · rw [Item.operand]
    constructor
    · intro h
      cases h
    · rintro ⟨h, _⟩
      cases h

/-- A group is read as the operand that it derives if its members are read as they derive. -/
theorem readAsDerived_group {limit : Option Nat} {depth : Nat} {members : List Item}
    (hm : ∀ item ∈ members, ReadAsDerived limit (depth + 1) item) (span : Span) :
    ReadAsDerived limit depth (.group members span) := by
  intro e
  rw [Item.operand, Item.nesting_group, allows_succ]
  cases hp : passed? limit depth with
  | some most =>
    constructor
    · intro h
      cases h
    · rintro ⟨_, h, _⟩
      cases h
  | none =>
    simp only
    constructor
    · intro h
      split at h
      · cases h
      · rename_i hne
        rw [List.isEmpty_iff] at hne
        obtain ⟨hd, ha⟩ := Derives.of_takes (readWhole_eq_ok_iff.mp h) hm
        exact ⟨.group span hne hd, trivial, ha⟩
    · rintro ⟨h, _, ha⟩
      cases h with
      | group _ hne hd =>
        rw [if_neg (by rwa [List.isEmpty_iff])]
        exact readWhole_eq_ok_iff.mpr (hd.takes ha hm)

/-- Every item is read as the operand that it derives. The induction is on how deep groups nest in the item: the members of a group
nest less deep than the group. -/
theorem readAsDerived (limit : Option Nat) (depth : Nat) (item : Item) : ReadAsDerived limit depth item := by
  induction hn : item.nesting using Nat.strongRecOn generalizing depth item with
  | ind n ih =>
    subst hn
    cases item with
    | atom kind text span => exact readAsDerived_atom limit depth kind text span
    | group members span =>
      refine readAsDerived_group (fun item hmem => ih item.nesting ?_ (depth + 1) item rfl) span
      rw [Item.nesting_group]
      exact Nat.lt_succ_of_le (nesting_le_of_mem hmem)

/-- The expression of a sequence of items is the one it derives, if its groups stay within the limit. -/
theorem exprOf_eq_ok_iff {limit : Option Nat} {depth : Nat} {items : List Item} {e : Expr} :
    exprOf limit depth items = .ok e ↔ Derives (some .or) items e ∧ Allows limit depth (nestingOf items) := by
  rw [exprOf, readWhole_eq_ok_iff]
  constructor
  · intro h
    exact Derives.of_takes h fun item _ => readAsDerived limit depth item
  · rintro ⟨h, ha⟩
    exact h.takes ha fun item _ => readAsDerived limit depth item

/-! ### The grammar is unambiguous -/

/-- What is derived at some level is derived at the loosest. -/
theorem Derives.to_or {level : Option Family} {items : List Item} {e : Expr} (h : Derives level items e) :
    Derives (some .or) items e := by
  have hand : Derives (some .and) items e → Derives (some .or) items e := @Derives.single .or items e
  have hequality : Derives (some .equality) items e → Derives (some .or) items e :=
    fun h => hand (@Derives.single .and items e h)
  have hcomparison : Derives (some .comparison) items e → Derives (some .or) items e :=
    fun h => hequality (@Derives.single .equality items e h)
  rcases level with _ | family
  · exact hcomparison (@Derives.single .comparison items e h)
  · cases family with
    | or => exact h
    | and => exact hand h
    | equality => exact hequality h
    | comparison => exact hcomparison h

/-- What is derived as an operand is derived at every level. -/
theorem Derives.of_operand {items : List Item} {e : Expr} (h : Derives none items e) (level : Option Family) :
    Derives level items e := by
  have hcomparison : Derives (some .comparison) items e := @Derives.single .comparison items e h
  have hequality : Derives (some .equality) items e := @Derives.single .equality items e hcomparison
  have hand : Derives (some .and) items e := @Derives.single .and items e hequality
  rcases level with _ | family
  · exact h
  · cases family with
    | or => exact @Derives.single .or items e hand
    | and => exact hand
    | equality => exact hequality
    | comparison => exact hcomparison

/-- A sequence of items derives one expression at most, since reading without a limit finds each. -/
theorem Derives.unique {level level' : Option Family} {items : List Item} {e e' : Expr} (h : Derives level items e)
    (h' : Derives level' items e') : e = e' := by
  have hr := (@exprOf_eq_ok_iff none 0 _ _).mpr ⟨h.to_or, allows_none _ _⟩
  have hr' := (@exprOf_eq_ok_iff none 0 _ _).mpr ⟨h'.to_or, allows_none _ _⟩
  rw [hr] at hr'
  exact Except.ok.inj hr'

theorem parse_eq_ok_iff {items : List Item} {e : Expr} :
    parse items = .ok e ↔ Derives (some .or) items e ∧ nestingOf items ≤ maxNesting := by
  rw [parse, exprOf_eq_ok_iff, allows_some, Nat.sub_zero]

/-- The expression of the items of a source is the one they derive, provided that their groups nest within the limit, and items derive
one expression at most. -/
theorem parse_eq_ok_iff_derives (items : List Item) :
    (∀ e, parse items = .ok e ↔ Derives (some .or) items e ∧ nestingOf items ≤ maxNesting) ∧
      ∀ e e', Derives (some .or) items e → Derives (some .or) items e' → e = e' := by
  refine ⟨fun e => parse_eq_ok_iff, fun e e' h h' => h.unique h'⟩

end RuleLang
