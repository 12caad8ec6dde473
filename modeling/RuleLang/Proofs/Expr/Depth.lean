import RuleLang.Proofs.Expr.Fault

/-!
# Items that nest too deep

A limit on groups has no part in what items that stay within it are read as, expression or error (`exprOf_congr_of_allows`). Items that
derive an expression and pass the limit are refused at the first group, in the order in which groups begin, that as many others enclose
as the limit allows (`exprOf_of_derives`).
-/

namespace RuleLang

/-! ### Within the limit -/

mutual

theorem Item.operand_congr_of_allows {limit limit' : Option Nat} {depth depth' : Nat} (item : Item)
    (h : Allows limit depth item.nesting) (h' : Allows limit' depth' item.nesting) :
    item.operand limit depth = item.operand limit' depth' := by
  match item with
  | .atom (.literal _) _ _ => rw [Item.operand, Item.operand]
  | .atom .var _ _ => rw [Item.operand, Item.operand]
  | .atom (.operator _) _ _ => rw [Item.operand, Item.operand]
  | .group members span =>
    rw [Item.nesting_group, allows_succ] at h h'
    rw [Item.operand, Item.operand, h.1, h'.1, readings_congr_of_allows members h.2 h'.2]

/-- Limits that the groups of a sequence stay within have no part in its readings, nor have the groups around it. -/
theorem readings_congr_of_allows {limit limit' : Option Nat} {depth depth' : Nat} (items : List Item)
    (h : Allows limit depth (nestingOf items)) (h' : Allows limit' depth' (nestingOf items)) :
    readings limit depth items = readings limit' depth' items := by
  match items with
  | [] => rw [readings, readings]
  | item :: items =>
    rw [nestingOf_cons, allows_max] at h h'
    rw [readings, readings, Item.operand_congr_of_allows item h.1 h'.1, readings_congr_of_allows items h.2 h'.2]

end

theorem exprOf_congr_of_allows {limit limit' : Option Nat} {depth depth' : Nat} {items : List Item}
    (h : Allows limit depth (nestingOf items)) (h' : Allows limit' depth' (nestingOf items)) :
    exprOf limit depth items = exprOf limit' depth' items := by
  rw [exprOf, exprOf, readings_congr_of_allows items h h']

/-- An error that tells of a group that is too deep is for items that pass the limit. -/
theorem PointsAt.lt_nestingOf {most depth : Nat} {items : List Item} {error : ParseError} (h : PointsAt most depth items error)
    {limit : Nat} {span : Span} (he : error = .tooDeep limit span) : most - depth < nestingOf items := by
  induction h with
  | ending => cases he
  | operator => cases he
  | leftover => cases he
  | emptyGroup => cases he
  | tooDeep _ _ hget hd =>
    have hle := nesting_le_of_mem (List.mem_of_getElem? hget)
    rw [Item.nesting_group] at hle
    omega
  | inside _ _ hget hd _ _ ih =>
    have hlt := ih he
    have hle := nesting_le_of_mem (List.mem_of_getElem? hget)
    rw [Item.nesting_group] at hle
    omega

/-! ### Past the limit -/

mutual

/-- The groups of an item that `depth` groups enclose, itself first and its members in their order: for each, the number of groups that
enclose it, and its span. -/
def Item.groups (depth : Nat) : Item → List (Nat × Span)
  | .atom _ _ _ => []
  | .group members span => (depth, span) :: groupsOf (depth + 1) members

/-- The groups of a sequence of items that `depth` groups enclose, each before its members and before what follows it. -/
def groupsOf (depth : Nat) : List Item → List (Nat × Span)
  | [] => []
  | item :: items => item.groups depth ++ groupsOf depth items

end

theorem groupsOf_append (depth : Nat) (a b : List Item) : groupsOf depth (a ++ b) = groupsOf depth a ++ groupsOf depth b := by
  induction a with
  | nil => rw [List.nil_append, groupsOf, List.nil_append]
  | cons item a ih => rw [List.cons_append, groupsOf, groupsOf, ih, List.append_assoc]

/-- The first group of a sequence of items that exactly `most` groups enclose. -/
def firstTooDeep? (most depth : Nat) (items : List Item) : Option Span :=
  ((groupsOf depth items).find? fun group => group.1 = most).map Prod.snd

theorem firstTooDeep?_append (most depth : Nat) (a b : List Item) :
    firstTooDeep? most depth (a ++ b) = (firstTooDeep? most depth a).or (firstTooDeep? most depth b) := by
  rw [firstTooDeep?, groupsOf_append, List.find?_append, Option.map_or]
  rfl

theorem firstTooDeep?_atom (most depth : Nat) (kind : Atom) (text : String) (span : Span) (items : List Item) :
    firstTooDeep? most depth (.atom kind text span :: items) = firstTooDeep? most depth items := by
  rw [firstTooDeep?, groupsOf, Item.groups, List.nil_append]
  rfl

theorem firstTooDeep?_group (most depth : Nat) (members : List Item) (span : Span) :
    firstTooDeep? most depth [.group members span] =
      if depth = most then some span else firstTooDeep? most (depth + 1) members := by
  rw [firstTooDeep?, groupsOf, groupsOf, Item.groups, List.append_nil, List.find?_cons]
  by_cases h : depth = most
  · simp [h]
  · simp [h, firstTooDeep?]

/-- The result, unless a group is too deep: then it is the first such group that is at fault. -/
def unlessTooDeep {α : Type} (most : Nat) (span? : Option Span) (result : α) : Except ParseError α :=
  match span? with
  | none => .ok result
  | some span => .error (.tooDeep most span)

/-- The reader of a level. -/
def readerAt : Option Family → Reader
  | none => readOperand
  | some .comparison => readLevel .comparison readOperand
  | some .equality => readLevel .equality (readLevel .comparison readOperand)
  | some .and => readLevel .and (readLevel .equality (readLevel .comparison readOperand))
  | some .or => readExpr

theorem readerAt_some (family : Family) : readerAt (some family) = readLevel family (readerAt family.below) := by
  cases family <;> rfl

/-- A sequence is read by its outermost level, if nothing is left. -/
theorem exprOf_of_readerAt {most depth : Nat} {items : List Item} {e : Expr} {span? : Option Span}
    (h : readerAt (some .or) (readings (some most) depth items) = unlessTooDeep most span? (e, [])) :
    exprOf (some most) depth items = unlessTooDeep most span? e := by
  rw [exprOf, readWhole, show readExpr = readerAt (some .or) from rfl, h]
  cases span? <;> rfl

/-- Under a limit, the reader of a level takes from items that derive an expression of the level this expression, or it fails for the
first group that is too deep. The groups before that one are read as without a limit, and it is met before anything after it. -/
theorem Derives.readerAt_eq {most : Nat} {level : Option Family} {items : List Item} {e : Expr} (h : Derives level items e)
    {depth : Nat} (hd : depth ≤ most) {rest : List Reading} (hs : Stops level rest) :
    readerAt level (readings (some most) depth items ++ rest) =
      unlessTooDeep most (firstTooDeep? most depth items) (e, rest) := by
  induction h generalizing depth rest with
  | literal kind text span =>
    rw [firstTooDeep?_atom, readings, readings, Item.operand]
    rfl
  | var text span =>
    rw [firstTooDeep?_atom, readings, readings, Item.operand]
    rfl
  | @group members e span hne hm ih =>
    rw [firstTooDeep?_group, readings, readings, List.singleton_append, readerAt, readOperand]
    by_cases hlim : depth = most
    · subst hlim
      rw [Item.operand, passed?_some, if_pos (Nat.le_refl _), if_pos rfl]
      rfl
    · have hmembers := @ih (depth + 1) (by omega) [] (stops_nil _)
      rw [List.append_nil] at hmembers
      rw [Item.operand_group (by omega) hne, exprOf_of_readerAt hmembers, if_neg hlim]
      cases firstTooDeep? most (depth + 1) members <;> rfl
  | @single family items e _ ih =>
    have hread := ih hd hs.below
    rw [readerAt_some]
    cases hfirst : firstTooDeep? most depth items with
    | none =>
      rw [hfirst] at hread
      refine readLevel_of_single hread ?_
      intro next hnext
      rw [Option.eq_none_iff_forall_ne_some]
      intro op ho
      exact absurd (hs next hnext family op ho) (Nat.lt_irrefl _)
    | some span =>
      rw [hfirst] at hread
      rw [readLevel, hread]
      rfl
  | @binary family left right lhs rhs op text span hf _ _ ihl ihr =>
    have ho : (Item.reading (some most) depth (.atom (.operator op) text span)).token.operatorIn? family = some op :=
      Token.operatorIn?_eq_some_iff.mpr ⟨rfl, hf⟩
    have hleft := ihl hd (stops_below_of_operatorIn? ho (readings (some most) depth right ++ rest))
    have hright := ihr hd hs.below
    rw [readerAt_some, readings_eq_map, List.map_append, List.map_cons, ← readings_eq_map, ← readings_eq_map, List.append_assoc,
      List.cons_append, firstTooDeep?_append, firstTooDeep?_atom]
    cases hfirst : firstTooDeep? most depth left with
    | some span =>
      rw [hfirst] at hleft
      rw [readLevel, hleft]
      rfl
    | none =>
      rw [hfirst] at hleft
      rw [readLevel_of_operator hleft ho, hright, Option.none_or]
      cases firstTooDeep? most depth right <;> rfl

/-- Under a limit, items that derive an expression are read as it, or refused at the first group that is too deep. -/
theorem exprOf_of_derives {most depth : Nat} {items : List Item} {e : Expr} (h : Derives (some .or) items e) (hd : depth ≤ most) :
    exprOf (some most) depth items = unlessTooDeep most (firstTooDeep? most depth items) e := by
  have hread := h.readerAt_eq hd (stops_nil _)
  rw [List.append_nil] at hread
  exact exprOf_of_readerAt hread

/-- Items that derive an expression and pass the limit hold a group that is too deep, and are refused at the first one. -/
theorem Derives.exists_tooDeep {most depth : Nat} {items : List Item} {e : Expr} (h : Derives (some .or) items e)
    (hd : depth ≤ most) (hn : most - depth < nestingOf items) :
    ∃ span, firstTooDeep? most depth items = some span ∧ exprOf (some most) depth items = .error (.tooDeep most span) := by
  have hexpr := exprOf_of_derives h hd
  cases hfirst : firstTooDeep? most depth items with
  | some span =>
    rw [hfirst] at hexpr
    exact ⟨span, rfl, hexpr⟩
  | none =>
    rw [hfirst] at hexpr
    have hle := allows_some.mp (exprOf_eq_ok_iff.mp hexpr).2
    omega

end RuleLang
