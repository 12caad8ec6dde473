import RuleLang.Proofs.Expr.Depth
import RuleLang.Proofs.Expr.Inlining

/-!
# Items put in a group

A run of items that some level takes while a sequence is read can be put in a group of its own (`Grouped`). The group is an operand, so
every level takes it, and it derives what the run derived. What the levels around it take is as before: the item after the group is
the one after the run, and the level that took the run looked at it and left it (`Grouped.derives`).
-/

namespace RuleLang

/-! ### What a level takes from items -/

theorem sound_readerAt (level : Option Family) : Sound (readerAt level) level := by
  rcases level with _ | family
  · exact sound_readOperand
  · cases family with
    | comparison => exact sound_readLevel sound_readOperand
    | equality => exact sound_readLevel (sound_readLevel sound_readOperand)
    | and => exact sound_readLevel (sound_readLevel (sound_readLevel sound_readOperand))
    | or => exact sound_readExpr

/-- A level that takes an expression takes one operand, or two with an operator between them. -/
theorem readerAt_some_eq_ok {family : Family} {items rest : List Reading} {e : Expr}
    (h : readerAt (some family) items = .ok (e, rest)) :
    readerAt family.below items = .ok (e, rest) ∨
      ∃ lhs next after op rhs, readerAt family.below items = .ok (lhs, next :: after) ∧
        next.token.operatorIn? family = some op ∧ readerAt family.below after = .ok (rhs, rest) ∧
        e = .binary family lhs (.operator op) next.span rhs := by
  rw [readerAt_some] at h
  obtain ⟨⟨lhs, rest₁⟩, hl, hcont⟩ := bind_eq_ok_iff.mp h
  cases rest₁ with
  | nil =>
    obtain ⟨rfl, rfl⟩ := Prod.mk.inj (Except.ok.inj hcont)
    exact Or.inl hl
  | cons next after =>
    cases ho : next.token.operatorIn? family with
    | none =>
      simp only [ho] at hcont
      obtain ⟨rfl, rfl⟩ := Prod.mk.inj (Except.ok.inj hcont)
      exact Or.inl hl
    | some op =>
      rw [readLevel_of_operator hl ho] at h
      obtain ⟨⟨rhs, rest₂⟩, hr, hdone⟩ := map_eq_ok_iff.mp h
      obtain ⟨rfl, rfl⟩ := Prod.mk.inj hdone
      exact Or.inr ⟨lhs, next, after, op, rhs, hl, ho, hr, rfl⟩

section

variable {limit : Option Nat} {depth : Nat} {level : Option Family}

theorem readings_eq_nil_iff {items : List Item} : readings limit depth items = [] ↔ items = [] := by
  rw [readings_eq_map, List.map_eq_nil_iff]

/-- Where the readings of items begin with one, the items begin with its item. -/
theorem exists_of_readings_eq_cons {items : List Item} {r : Reading} {after : List Reading}
    (h : readings limit depth items = r :: after) :
    ∃ item rest, items = item :: rest ∧ item.reading limit depth = r ∧ readings limit depth rest = after := by
  rw [readings_eq_map] at h
  obtain ⟨item, rest, rfl, rfl, rfl⟩ := List.map_eq_cons_iff.mp h
  exact ⟨item, rest, rfl, rfl, readings_eq_map limit depth rest⟩

/-- What a level takes from items derives the expression, and what it leaves are the items after. -/
theorem Derives.of_readerAt {items : List Item} {e : Expr} {left : List Reading}
    (h : readerAt level (readings limit depth items) = .ok (e, left)) :
    ∃ taken rest, items = taken ++ rest ∧ left = readings limit depth rest ∧ Derives level taken e := by
  obtain ⟨front, hitems, htakes⟩ := sound_readerAt level _ _ _ h
  rw [readings_eq_map] at hitems
  obtain ⟨taken, rest, rfl, rfl, rfl⟩ := List.map_eq_append_iff.mp hitems
  rw [← readings_eq_map] at htakes
  exact ⟨taken, rest, rfl, (readings_eq_map _ _ _).symm, (Derives.of_takes htakes fun item _ => readAsDerived limit depth item).1⟩

/-- Where a level leaves the items after a run, the run is what it took. -/
theorem Derives.of_readerAt_append {run rest : List Item} {e : Expr}
    (h : readerAt level (readings limit depth (run ++ rest)) = .ok (e, readings limit depth rest)) : Derives level run e := by
  obtain ⟨taken, rest', heq, hrest, hder⟩ := Derives.of_readerAt h
  have hlength := congrArg List.length hrest
  rw [readings_eq_map, readings_eq_map, List.length_map, List.length_map] at hlength
  obtain ⟨rfl, _⟩ := List.append_inj' heq hlength
  exact hder

end

/-- Operands of a family with an item between them that is one of its operators. -/
theorem Derives.binary_of_operatorIn? {family : Family} {left right : List Item} {lhs rhs : Expr} {next : Item} {op : Operator}
    (ho : next.token.operatorIn? family = some op) (hl : Derives family.below left lhs) (hr : Derives family.below right rhs) :
    Derives (some family) (left ++ next :: right) (.binary family lhs (.operator op) next.span rhs) := by
  obtain ⟨ht, hf⟩ := Token.operatorIn?_eq_some_iff.mp ho
  cases next with
  | group members span => cases ht
  | atom kind text span =>
    obtain rfl := Token.atom.inj ht
    exact .binary text span hf hl hr

/-! ### Runs in groups -/

section

variable (limit : Option Nat) (span : Span)

/-- The second sequence is the first with a run of its items put in a group. The run is one that the reader of some level takes while the
first sequence is read, inside `depth` groups, at the given level: it is all that this level takes, or it is taken on the way, for its
first operand, for its second one, or within the members of a group that is read as an operand. -/
inductive Grouped : (depth : Nat) → (level : Option Family) → List Item → List Item → Prop
  | run {depth : Nat} {level : Option Family} {run rest : List Item} {e : Expr} :
      readerAt level (readings limit depth (run ++ rest)) = .ok (e, readings limit depth rest) →
      Grouped depth level (run ++ rest) (.group run span :: rest)
  | first {depth : Nat} {family : Family} {items items' : List Item} : Grouped depth family.below items items' →
      Grouped depth (some family) items items'
  | second {depth : Nat} {family : Family} {left after after' : List Item} {next : Item} {lhs : Expr} {op : Operator} :
      readerAt family.below (readings limit depth (left ++ next :: after)) = .ok (lhs, readings limit depth (next :: after)) →
      next.token.operatorIn? family = some op → Grouped depth family.below after after' →
      Grouped depth (some family) (left ++ next :: after) (left ++ next :: after')
  | members {depth : Nat} {members members' rest : List Item} (around : Span) :
      Grouped (depth + 1) (some .or) members members' →
      Grouped depth none (.group members around :: rest) (.group members' around :: rest)

end

/-- Items that are read as an expression are all taken by the loosest level. -/
theorem readerAt_of_exprOf {limit : Option Nat} {depth : Nat} {items : List Item} {e : Expr} (h : exprOf limit depth items = .ok e) :
    readerAt (some .or) (readings limit depth items) = .ok (e, []) := by
  obtain ⟨⟨e', left⟩, hread, hend⟩ := bind_eq_ok_iff.mp h
  cases left with
  | nil =>
    obtain rfl := Except.ok.inj hend
    exact hread
  | cons next after => cases hend

/-- A group that is an operand is one by its members. -/
theorem Item.exprOf_of_operand_group {limit : Option Nat} {depth : Nat} {members : List Item} {span : Span} {e : Expr}
    (h : Item.operand limit depth (.group members span) = .ok e) : exprOf limit (depth + 1) members = .ok e := by
  rw [Item.operand] at h
  split at h
  · cases h
  · split at h
    · cases h
    · exact h

/-- With a run of the items in a group, a level takes what derives the same expression and leaves the same. -/
theorem Grouped.derives {limit : Option Nat} {span : Span} {depth : Nat} {level : Option Family} {items items' : List Item}
    (h : Grouped limit span depth level items items') {e : Expr} {left : List Reading}
    (hread : readerAt level (readings limit depth items) = .ok (e, left)) :
    ∃ taken rest, items' = taken ++ rest ∧ left = readings limit depth rest ∧ Derives level taken e := by
  induction h generalizing e left with
  | @run depth level run rest e' hrun =>
    rw [hrun] at hread
    obtain ⟨rfl, rfl⟩ := Prod.mk.inj (Except.ok.inj hread)
    have hder := Derives.of_readerAt_append hrun
    exact ⟨[.group run span], rest, rfl, rfl, (Derives.group span hder.ne_nil hder.to_or).of_operand level⟩
  | @first depth family items items' _ ih =>
    rcases readerAt_some_eq_ok hread with hl | ⟨lhs, next, after, op, rhs, hl, ho, hr, rfl⟩
    · obtain ⟨taken, rest, rfl, rfl, hder⟩ := ih hl
      exact ⟨taken, rest, rfl, rfl, .single hder⟩
    · -- the operator and the second operand stand after the items that the first operand was taken from
      obtain ⟨taken, rest, rfl, hrest, hder⟩ := ih hl
      obtain ⟨next, after, rfl, rfl, rfl⟩ := exists_of_readings_eq_cons hrest.symm
      obtain ⟨right, rest, rfl, rfl, hright⟩ := Derives.of_readerAt hr
      exact ⟨taken ++ next :: right, rest, by simp, rfl, Derives.binary_of_operatorIn? ho hder hright⟩
  | @second depth family front after after' next lhs op hl ho _ ih =>
    have hn : (Item.reading limit depth next).token.operatorIn? family = some op := ho
    rw [readerAt_some, readLevel_of_operator (by rw [hl, readings]; rfl) hn] at hread
    obtain ⟨⟨rhs, left'⟩, hr, hdone⟩ := map_eq_ok_iff.mp hread
    obtain ⟨rfl, rfl⟩ := Prod.mk.inj hdone
    obtain ⟨taken, rest, rfl, rfl, hder⟩ := ih hr
    exact ⟨front ++ next :: taken, rest, by simp, rfl,
      Derives.binary_of_operatorIn? ho (Derives.of_readerAt_append hl) hder⟩
  | @members depth members members' rest around _ ih =>
    obtain ⟨e', he, hdone⟩ := map_eq_ok_iff.mp hread
    obtain ⟨rfl, rfl⟩ := Prod.mk.inj hdone
    obtain ⟨taken, rest', rfl, hrest, hder⟩ := ih (readerAt_of_exprOf (Item.exprOf_of_operand_group he))
    obtain rfl := readings_eq_nil_iff.mp hrest.symm
    rw [List.append_nil]
    exact ⟨[.group taken around], rest, rfl, rfl, .group around hder.ne_nil hder⟩

/-- Items that are read as an expression derive it too with a run of them in a group. -/
theorem Grouped.derives_of_exprOf {limit : Option Nat} {span : Span} {depth : Nat} {items items' : List Item} {e : Expr}
    (h : Grouped limit span depth (some .or) items items') (he : exprOf limit depth items = .ok e) :
    Derives (some .or) items' e := by
  obtain ⟨taken, rest, rfl, hrest, hder⟩ := h.derives (readerAt_of_exprOf he)
  obtain rfl := readings_eq_nil_iff.mp hrest.symm
  rwa [List.append_nil]

/-! ### A group around all items -/

theorem readWhole_singleton (item : Reading) : readWhole [item] = item.operand := by
  simp only [readWhole, readExpr, readLevel, readOperand]
  cases item.operand <;> rfl

/-- A group around items that leave room for it is read as the items are, expression or error, unless there are none. -/
theorem parse_group {items : List Item} (hne : items ≠ []) (hn : nestingOf items < maxNesting) (span : Span) :
    parse [.group items span] = parse items := by
  have hexpr : exprOf (some maxNesting) 1 items = exprOf (some maxNesting) 0 items :=
    exprOf_congr_of_allows (allows_some.mpr (Nat.le_sub_one_of_lt hn)) (allows_some.mpr (Nat.le_of_lt hn))
  rw [parse, parse, exprOf, readings, readings, readWhole_singleton, Item.operand_group (by decide) hne, hexpr]

end RuleLang
