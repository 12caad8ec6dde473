import RuleLang.Proofs.Expr.Lookahead

/-!
# The place of a parse error

Items that are no expression either end too early, or have a leftmost fault: an item up to which they could still become an
expression, and with which they no longer can (`FaultAt`). There is one such item at most, and the error tells what it is. An
operator stands where an operand is due, or an item follows where none can, or a group is no operand, for which the error is its own
or that of its members (`PointsAt`). What comes after the fault has no part in the error (`AlikeUpToFault`), which names an item of
the sequence (`ParseError.Names`). All this is `exprOf_error_pointsAt`.
-/

namespace RuleLang

/-! ### What a sequence can become -/

/-- Inside `depth` groups, of which at most `most` may nest, the items are an expression. -/
def Accepts (most depth : Nat) (items : List Item) : Prop := ∃ e, exprOf (some most) depth items = .ok e

/-- Some expression begins with the items. -/
def Viable (most depth : Nat) (items : List Item) : Prop := ∃ rest, Accepts most depth (items ++ rest)

/-- Some expression begins with the items before item `k`, and none with the items up to it. -/
def FaultAt (most depth : Nat) (items : List Item) (k : Nat) : Prop :=
  k < items.length ∧ Viable most depth (items.take k) ∧ ¬Viable most depth (items.take (k + 1))

theorem Viable.of_isPrefix {most depth : Nat} {items items' : List Item} (h : Viable most depth items') (hp : items <+: items') :
    Viable most depth items := by
  obtain ⟨middle, rfl⟩ := hp
  obtain ⟨rest, h⟩ := h
  exact ⟨middle ++ rest, by rwa [← List.append_assoc]⟩

/-- Items that are an expression have no fault. -/
theorem FaultAt.not_accepts {most depth : Nat} {items : List Item} {k : Nat} (h : FaultAt most depth items k)
    (rest : List Item) : ¬Accepts most depth (items ++ rest) := by
  intro ha
  exact h.2.2 (Viable.of_isPrefix ⟨rest, ha⟩ (List.take_prefix (k + 1) items))

theorem FaultAt.le {most depth : Nat} {items : List Item} {j k : Nat} (hj : FaultAt most depth items j)
    (hk : FaultAt most depth items k) : k ≤ j := by
  refine Nat.le_of_not_lt fun hlt => ?_
  have hp : items.take (j + 1) <+: items.take k := List.take_prefix_take_left (by omega)
  exact hj.2.2 (hk.2.1.of_isPrefix hp)

/-- The leftmost fault is one item. -/
theorem FaultAt.unique {most depth : Nat} {items : List Item} {j k : Nat} (hj : FaultAt most depth items j)
    (hk : FaultAt most depth items k) : j = k :=
  Nat.le_antisymm (hk.le hj) (hj.le hk)

/-- An item that makes an error of everything that begins with it is the fault. -/
theorem faultAt_append {most depth : Nat} {front after : List Item} {item : Item} {error : ParseError}
    (hv : Viable most depth front) (ha : ∀ after', exprOf (some most) depth (front ++ item :: after') = .error error) :
    FaultAt most depth (front ++ item :: after) front.length := by
  refine ⟨by simp, by simpa using hv, ?_⟩
  rintro ⟨rest, e, he⟩
  have htake : (front ++ item :: after).take (front.length + 1) = front ++ [item] := List.take_length_add_append 1
  rw [htake, List.append_assoc, List.singleton_append, ha rest] at he
  cases he

/-! ### Faults and their errors -/

/-- An operand is due after the items: there are none, or the last is an operator. -/
def OperandDue (front : List Item) : Prop := ∀ item, front.getLast? = some item → ∃ op, item.token = .operator op

theorem due_readings {limit : Option Nat} {depth : Nat} {front : List Item} :
    Due (readings limit depth front) ↔ OperandDue front := by
  rw [readings_eq_map, Due, OperandDue, List.getLast?_map]
  cases front.getLast? with
  | none => simp
  | some item => simp [Item.reading]

theorem Item.token_ne_operator_of_operand {limit : Option Nat} {depth : Nat} {item : Item} {e : Expr}
    (h : item.operand limit depth = .ok e) (op : Operator) : item.token ≠ .operator op := by
  intro ht
  cases item with
  | group members span => cases ht
  | atom kind text span =>
    obtain rfl := Token.atom.inj ht
    rw [Item.operand] at h
    cases h

/-- After an expression no operand is due. -/
theorem not_operandDue_of_exprOf {limit : Option Nat} {depth : Nat} {front : List Item} {e : Expr}
    (h : exprOf limit depth front = .ok e) : ¬OperandDue front := by
  intro hdue
  obtain ⟨r, e', hlast, he'⟩ := (readWhole_eq_ok_iff.mp h).exists_getLast?
  rw [readings_eq_map, List.getLast?_map] at hlast
  obtain ⟨item, hitem, rfl⟩ := Option.map_eq_some_iff.mp hlast
  obtain ⟨op, hop⟩ := hdue item hitem
  exact Item.token_ne_operator_of_operand he' op hop

theorem exprOf_append (limit : Option Nat) (depth : Nat) (front rest : List Item) :
    exprOf limit depth (front ++ rest) = readWhole (readings limit depth front ++ readings limit depth rest) := by
  rw [exprOf, readings_eq_map, List.map_append, ← readings_eq_map, ← readings_eq_map]

/-- Where the readings of items are divided at one of them, so are the items. -/
theorem exists_of_readings_eq {limit : Option Nat} {depth : Nat} {items : List Item} {front after : List Reading} {r : Reading}
    (h : readings limit depth items = front ++ r :: after) :
    ∃ front' item after', items = front' ++ item :: after' ∧ readings limit depth front' = front ∧
      item.reading limit depth = r := by
  rw [readings_eq_map] at h
  obtain ⟨front', tail, rfl, rfl, htail⟩ := List.map_eq_append_iff.mp h
  obtain ⟨item, after', rfl, rfl, rfl⟩ := List.map_eq_cons_iff.mp htail
  exact ⟨front', item, after', rfl, readings_eq_map limit depth front', rfl⟩

/-- Where one operand is due, an expression can be made: `null` can stand for whatever is missing. -/
theorem exists_exprOf_append {limit : Option Nat} {depth : Nat} {front : List Item}
    (h : ∀ r e, r.operand = .ok e → ∃ e', readWhole (readings limit depth front ++ [r]) = .ok e') :
    ∃ item e, exprOf limit depth (front ++ [item]) = .ok e := by
  have hoperand : (Item.atom (.literal .null) "null" ⟨0, 0⟩).operand limit depth =
      .ok (.literal ⟨.literal .null, "null", ⟨0, 0⟩⟩) := by
    rw [Item.operand]
  obtain ⟨e, he⟩ := h ((Item.atom (.literal .null) "null" ⟨0, 0⟩).reading limit depth) _ hoperand
  exact ⟨_, e, (exprOf_append limit depth front _).trans he⟩

/-- Items that are no expression end where an operand is due, or have an item that makes an error of everything that begins as they
do up to it. Where an operand is due, the error is that of the item, and so it would be of any other that is none. -/
theorem exprOf_error {limit : Option Nat} {depth : Nat} {items : List Item} {error : ParseError}
    (h : exprOf limit depth items = .error error) :
    (error = .eof ∧ ∃ item e, exprOf limit depth (items ++ [item]) = .ok e) ∨
      ∃ front item after, items = front ++ item :: after ∧ (∃ rest e, exprOf limit depth (front ++ rest) = .ok e) ∧
        (∀ after', exprOf limit depth (front ++ item :: after') = .error error) ∧
        ((OperandDue front ∧ item.operand limit depth = .error error ∧ ∀ item' error' after',
            item'.operand limit depth = .error error' → exprOf limit depth (front ++ item' :: after') = .error error') ∨
          (¬OperandDue front ∧ error = .unfinished item.token item.span)) := by
  rcases readWhole_error h with ⟨front, hdue, hdone, hfails, hfault⟩ | ⟨front, next, after, heq, ⟨e, he⟩, rfl, hafter⟩
  · rcases hfault with ⟨rfl, rfl⟩ | ⟨r, after, heq, hitem⟩
    · exact Or.inl ⟨rfl, exists_exprOf_append hdone⟩
    · obtain ⟨front, item, after, rfl, rfl, rfl⟩ := exists_of_readings_eq heq
      have hall : ∀ item' error' after', item'.operand limit depth = .error error' →
          exprOf limit depth (front ++ item' :: after') = .error error' := by
        intro item' error' after' hitem'
        exact (exprOf_append limit depth front (item' :: after')).trans (hfails (item'.reading limit depth) error' _ hitem')
      obtain ⟨other, e, he⟩ := exists_exprOf_append hdone
      exact Or.inr ⟨front, item, after, rfl, ⟨[other], e, he⟩, fun after' => hall item error after' hitem,
        Or.inl ⟨due_readings.mp hdue, hitem, hall⟩⟩
  · obtain ⟨front, item, after, rfl, rfl, rfl⟩ := exists_of_readings_eq heq
    refine Or.inr ⟨front, item, after, rfl, ⟨[], e, by rwa [List.append_nil]⟩, ?_, Or.inr ⟨not_operandDue_of_exprOf he, rfl⟩⟩
    intro after'
    exact (exprOf_append limit depth front (item :: after')).trans (hafter _)

/-- A group that does not pass the limit and has members is as an operand what the members are as an expression. -/
theorem Item.operand_group {most depth : Nat} {members : List Item} (hd : depth < most) (hm : members ≠ []) (span : Span) :
    (Item.group members span).operand (some most) depth = exprOf (some most) (depth + 1) members := by
  rw [Item.operand, passed?_some, if_neg (by omega), exprOf]
  simp only
  rw [if_neg (by rwa [List.isEmpty_iff])]

/-- An item that is no operand is an operator or a group, and a group is none because it passes the limit, because it is empty, or
because its members are no expression. -/
theorem Item.operand_error_cases {most depth : Nat} {item : Item} {error : ParseError}
    (h : item.operand (some most) depth = .error error) :
    (∃ op text span, item = .atom (.operator op) text span ∧ error = .unexpectedOperator op span) ∨
      ∃ members span, item = .group members span ∧
        ((most ≤ depth ∧ error = .tooDeep most span) ∨ (depth < most ∧ members = [] ∧ error = .emptyGroup span) ∨
          (depth < most ∧ members ≠ [] ∧ exprOf (some most) (depth + 1) members = .error error)) := by
  cases item with
  | atom kind text span =>
    rcases kind with kind | _ | op
    · rw [Item.operand] at h
      cases h
    · rw [Item.operand] at h
      cases h
    · rw [Item.operand] at h
      cases h
      exact Or.inl ⟨op, text, span, rfl, rfl⟩
  | group members span =>
    refine Or.inr ⟨members, span, rfl, ?_⟩
    by_cases hd : most ≤ depth
    · rw [Item.operand, passed?_some, if_pos hd] at h
      cases h
      exact Or.inl ⟨hd, rfl⟩
    · have hlt : depth < most := Nat.lt_of_not_le hd
      by_cases hm : members = []
      · subst hm
        rw [Item.operand, passed?_some, if_neg hd] at h
        cases h
        exact Or.inr (Or.inl ⟨hlt, rfl, rfl⟩)
      · rw [Item.operand_group hlt hm] at h
        exact Or.inr (Or.inr ⟨hlt, hm, h⟩)

/-- The error is the one for the items: they end too early, or it is that of their leftmost fault. Where the fault is a group whose
members are no expression, the error is the one for the members. -/
inductive PointsAt (most : Nat) : (depth : Nat) → List Item → ParseError → Prop
  | ending {depth : Nat} {items rest : List Item} : rest ≠ [] → Accepts most depth (items ++ rest) →
      PointsAt most depth items .eof
  | operator {depth k : Nat} {items : List Item} {op : Operator} {text : String} {span : Span} : FaultAt most depth items k →
      OperandDue (items.take k) → items[k]? = some (.atom (.operator op) text span) →
      PointsAt most depth items (.unexpectedOperator op span)
  | leftover {depth k : Nat} {items : List Item} {item : Item} : FaultAt most depth items k → ¬OperandDue (items.take k) →
      items[k]? = some item → PointsAt most depth items (.unfinished item.token item.span)
  | tooDeep {depth k : Nat} {items members : List Item} {span : Span} : FaultAt most depth items k → OperandDue (items.take k) →
      items[k]? = some (.group members span) → most ≤ depth → PointsAt most depth items (.tooDeep most span)
  | emptyGroup {depth k : Nat} {items : List Item} {span : Span} : FaultAt most depth items k → OperandDue (items.take k) →
      items[k]? = some (.group [] span) → depth < most → PointsAt most depth items (.emptyGroup span)
  | inside {depth k : Nat} {items members : List Item} {span : Span} {error : ParseError} : FaultAt most depth items k →
      OperandDue (items.take k) → items[k]? = some (.group members span) → depth < most → members ≠ [] →
      PointsAt most (depth + 1) members error → PointsAt most depth items error

/-- The error for items that are no expression is that of their leftmost fault. The induction is on how deep groups nest in the items:
a fault that is a group leads to its members. -/
theorem pointsAt_of_exprOf {most depth : Nat} {items : List Item} {error : ParseError}
    (h : exprOf (some most) depth items = .error error) : PointsAt most depth items error := by
  induction hn : nestingOf items using Nat.strongRecOn generalizing depth items with
  | ind n ih =>
    subst hn
    rcases exprOf_error h with ⟨rfl, item, e, he⟩ | ⟨front, item, after, rfl, hviable, hafter, hcase⟩
    · exact .ending (List.cons_ne_nil item []) ⟨e, he⟩
    · have hfault : FaultAt most depth (front ++ item :: after) front.length := faultAt_append hviable hafter
      have hget : (front ++ item :: after)[front.length]? = some item := by simp
      have htake : (front ++ item :: after).take front.length = front := by simp
      rcases hcase with ⟨hdue, hitem, _⟩ | ⟨hdue, rfl⟩
      · rw [← htake] at hdue
        rcases Item.operand_error_cases hitem with ⟨op, text, span, rfl, rfl⟩ | ⟨members, span, rfl, hgroup⟩
        · exact .operator hfault hdue hget
        · rcases hgroup with ⟨hd, rfl⟩ | ⟨hd, rfl, rfl⟩ | ⟨hd, hm, herror⟩
          · exact .tooDeep hfault hdue hget hd
          · exact .emptyGroup hfault hdue hget hd
          · refine .inside hfault hdue hget hd hm (ih (nestingOf members) ?_ herror rfl)
            rw [nestingOf_append, nestingOf_cons, Item.nesting_group]
            omega
      · exact .leftover hfault (by rwa [htake]) hget

/-! ### The item an error names -/

/-- The item is one of the items or of the members of their groups, at any nesting. -/
inductive Item.OccursIn (item : Item) : List Item → Prop
  | here {items : List Item} : item ∈ items → OccursIn item items
  | inside {items members : List Item} {span : Span} : .group members span ∈ items → OccursIn item members → OccursIn item items

theorem Item.OccursIn.of_subset {item : Item} {items items' : List Item} (h : item.OccursIn items) (hs : items ⊆ items') :
    item.OccursIn items' := by
  cases h with
  | here hm => exact .here (hs hm)
  | inside hm hoccurs => exact .inside (hs hm) hoccurs

theorem Item.occursIn_cons_iff {item first : Item} {items : List Item} :
    item.OccursIn (first :: items) ↔
      item = first ∨ (∃ members span, first = .group members span ∧ item.OccursIn members) ∨ item.OccursIn items := by
  constructor
  · intro h
    cases h with
    | here hm =>
      rcases List.mem_cons.mp hm with rfl | hm
      · exact Or.inl rfl
      · exact Or.inr (Or.inr (.here hm))
    | inside hm hoccurs =>
      rcases List.mem_cons.mp hm with hfirst | hm
      · exact Or.inr (Or.inl ⟨_, _, hfirst.symm, hoccurs⟩)
      · exact Or.inr (Or.inr (.inside hm hoccurs))
  · rintro (rfl | ⟨members, span, rfl, hoccurs⟩ | hoccurs)
    · exact .here List.mem_cons_self
    · exact .inside List.mem_cons_self hoccurs
    · exact hoccurs.of_subset (List.subset_cons_self _ _)

/-- The error carries the token and the span of the item. -/
def ParseError.Names : ParseError → Item → Prop
  | unexpectedOperator op span, item => item.token = .operator op ∧ item.span = span
  | unfinished token span, item => item.token = token ∧ item.span = span
  | emptyGroup span, item => item.token = .group ∧ item.span = span
  | tooDeep _ span, item => item.token = .group ∧ item.span = span
  | eof, _ => False

theorem ParseError.Names.span?_eq {error : ParseError} {item : Item} (h : error.Names item) : error.span? = some item.span := by
  cases error with
  | eof => cases h
  | _ => rw [span?, h.2]

/-- An error with a place names an item. -/
theorem PointsAt.exists_names {most depth : Nat} {items : List Item} {error : ParseError} (h : PointsAt most depth items error)
    (hne : error ≠ .eof) : ∃ item : Item, item.OccursIn items ∧ error.Names item := by
  induction h with
  | ending => exact absurd rfl hne
  | operator _ _ hget => exact ⟨_, .here (List.mem_of_getElem? hget), rfl, rfl⟩
  | leftover _ _ hget => exact ⟨_, .here (List.mem_of_getElem? hget), rfl, rfl⟩
  | tooDeep _ _ hget _ => exact ⟨_, .here (List.mem_of_getElem? hget), rfl, rfl⟩
  | emptyGroup _ _ hget _ => exact ⟨_, .here (List.mem_of_getElem? hget), rfl, rfl⟩
  | inside _ _ hget _ _ _ ih =>
    obtain ⟨item, hoccurs, hnames⟩ := ih hne
    exact ⟨item, .inside (List.mem_of_getElem? hget) hoccurs, hnames⟩

/-! ### What comes after the fault -/

/-- The second sequence begins like the first up to the leftmost fault of the first. Where an operand is due and a group stands, the
fault is among the members of the group, and it is enough that another group stands there whose members begin like those of the first
up to that fault. -/
inductive AlikeUpToFault (most : Nat) : (depth : Nat) → List Item → List Item → Prop
  | here {depth k : Nat} {items : List Item} (rest : List Item) : FaultAt most depth items k →
      AlikeUpToFault most depth items (items.take (k + 1) ++ rest)
  | inside {depth k : Nat} {items members members' : List Item} {span : Span} (span' : Span) (rest : List Item) :
      FaultAt most depth items k → OperandDue (items.take k) → items[k]? = some (.group members span) → depth < most →
      AlikeUpToFault most (depth + 1) members members' →
      AlikeUpToFault most depth items (items.take k ++ .group members' span' :: rest)

theorem AlikeUpToFault.ne_nil {most depth : Nat} {items items' : List Item} (h : AlikeUpToFault most depth items items') :
    items ≠ [] ∧ items' ≠ [] := by
  have hne : ∀ {k : Nat}, FaultAt most depth items k → items ≠ [] := by
    rintro k hk rfl
    exact absurd hk.1 (Nat.not_lt_zero k)
  cases h with
  | here rest hk => exact ⟨hne hk, by simp [hne hk]⟩
  | inside span' rest hk _ _ _ _ => exact ⟨hne hk, by simp⟩

/-- At the leftmost fault there is an item, and it makes the error of the items out of everything that begins with the items up to it.
Where an operand is due there, the error is that of the item, and so it would be of any other that is none. -/
theorem FaultAt.exists_error {most depth k : Nat} {items : List Item} (h : FaultAt most depth items k) :
    ∃ item error, items[k]? = some item ∧ exprOf (some most) depth items = .error error ∧
      (∀ rest, exprOf (some most) depth (items.take k ++ item :: rest) = .error error) ∧
      (OperandDue (items.take k) → item.operand (some most) depth = .error error ∧ ∀ item' error' rest,
        item'.operand (some most) depth = .error error' →
        exprOf (some most) depth (items.take k ++ item' :: rest) = .error error') := by
  cases hexpr : exprOf (some most) depth items with
  | ok e => exact absurd ⟨e, by rwa [List.append_nil]⟩ (h.not_accepts [])
  | error error =>
    rcases exprOf_error hexpr with ⟨_, other, e, he⟩ | ⟨front, item, after, rfl, hviable, hafter, hcase⟩
    · exact absurd ⟨e, he⟩ (h.not_accepts [other])
    · obtain rfl : k = front.length := h.unique (faultAt_append hviable hafter)
      have htake : (front ++ item :: after).take front.length = front := by simp
      rw [htake]
      refine ⟨item, error, by simp, rfl, hafter, ?_⟩
      intro hdue
      rcases hcase with ⟨_, hitem, hall⟩ | ⟨hnot, _⟩
      · exact ⟨hitem, hall⟩
      · exact absurd hdue hnot

/-- What comes after the leftmost fault does not matter, neither in the sequence nor in the groups that the fault is in. -/
theorem AlikeUpToFault.exprOf_eq {most depth : Nat} {items items' : List Item} (h : AlikeUpToFault most depth items items') :
    exprOf (some most) depth items' = exprOf (some most) depth items := by
  induction h with
  | @here depth k items rest hk =>
    obtain ⟨item, error, hget, herror, hafter, _⟩ := hk.exists_error
    rw [List.take_add_one, hget, Option.toList_some, List.append_assoc, List.singleton_append, hafter rest, herror]
  | @inside depth k items members members' span span' rest hk hdue hget hd hm ih =>
    obtain ⟨hne, hne'⟩ := hm.ne_nil
    obtain ⟨item, error, hget', herror, _, hcase⟩ := hk.exists_error
    obtain ⟨hitem, hall⟩ := hcase hdue
    obtain rfl : Item.group members span = item := Option.some.inj (hget.symm.trans hget')
    rw [Item.operand_group hd hne, ← ih, ← Item.operand_group hd hne' span'] at hitem
    rw [hall _ error rest hitem, herror]

/-- The error for items that are no expression is that of their leftmost fault, of which there is one at most, or tells that they end
too early. An error with a place carries the token and the span of an item, and what comes after the fault has no part in it. -/
theorem exprOf_error_pointsAt {depth : Nat} {items : List Item} {error : ParseError}
    (h : exprOf (some maxNesting) depth items = .error error) :
    PointsAt maxNesting depth items error ∧
      (∀ j k, FaultAt maxNesting depth items j → FaultAt maxNesting depth items k → j = k) ∧
      (error ≠ .eof → ∃ item : Item, item.OccursIn items ∧ error.Names item) ∧
      ∀ items', AlikeUpToFault maxNesting depth items items' → exprOf (some maxNesting) depth items' = .error error := by
  have hpoints := pointsAt_of_exprOf h
  refine ⟨hpoints, ?_, ?_, ?_⟩
  · intro j k hj hk
    exact hj.unique hk
  · exact hpoints.exists_names
  · intro items' halike
    rw [halike.exprOf_eq, h]

/-- The first fault of `1==(2&&||3)4` is its group, and there the second of two operators in a row; that the `4` cannot follow the group
is not told. -/
theorem exprOf_error_pointsAt_inside :
    ∃ items, items = [.atom (.literal .integer) "1" ⟨0, 1⟩, .atom (.operator .equals) "==" ⟨1, 3⟩,
        .group [.atom (.literal .integer) "2" ⟨4, 5⟩, .atom (.operator .and) "&&" ⟨5, 7⟩, .atom (.operator .or) "||" ⟨7, 9⟩,
          .atom (.literal .integer) "3" ⟨9, 10⟩] ⟨3, 11⟩,
        .atom (.literal .integer) "4" ⟨11, 12⟩] ∧
      exprOf (some maxNesting) 0 items = .error (.unexpectedOperator .or ⟨7, 9⟩) ∧
      PointsAt maxNesting 0 items (.unexpectedOperator .or ⟨7, 9⟩) ∧
      (∀ j k, FaultAt maxNesting 0 items j → FaultAt maxNesting 0 items k → j = k) ∧
      (∃ item : Item, item.OccursIn items ∧ (ParseError.unexpectedOperator .or ⟨7, 9⟩).Names item) ∧
      ∀ items', AlikeUpToFault maxNesting 0 items items' →
        exprOf (some maxNesting) 0 items' = .error (.unexpectedOperator .or ⟨7, 9⟩) := by
  refine ⟨_, rfl, ?_⟩
  have h : exprOf (some maxNesting) 0 [.atom (.literal .integer) "1" ⟨0, 1⟩, .atom (.operator .equals) "==" ⟨1, 3⟩,
      .group [.atom (.literal .integer) "2" ⟨4, 5⟩, .atom (.operator .and) "&&" ⟨5, 7⟩, .atom (.operator .or) "||" ⟨7, 9⟩,
        .atom (.literal .integer) "3" ⟨9, 10⟩] ⟨3, 11⟩,
      .atom (.literal .integer) "4" ⟨11, 12⟩] = .error (.unexpectedOperator .or ⟨7, 9⟩) := by
    cbv
  obtain ⟨hpoints, hunique, hnames, halike⟩ := exprOf_error_pointsAt h
  have hne : ParseError.unexpectedOperator .or ⟨7, 9⟩ ≠ .eof := by
    decide
  exact ⟨h, hpoints, hunique, hnames hne, halike⟩

end RuleLang
