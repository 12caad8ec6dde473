import RuleLang.Proofs.Expr.Grammar

/-!
# How far a reader looks

A reader takes operands and operators from left to right and looks at one item more than it takes. So what it takes does not depend
on anything after that item (`Settled`), and where it fails, it fails for the first operand that is missing or is none, whatever
comes after it (`Blames`). Both pass from the operands of a level to the level, and so hold of all of them. For a whole sequence this
is the choice of `readWhole_error`: an operand is at fault, or an item after a whole expression.
-/

namespace RuleLang

/-- What the reader takes from a sequence, it takes in the same way before every rest that begins like the old one or is empty. -/
def Settled (reader : Reader) : Prop :=
  ∀ items e rest, reader items = .ok (e, rest) → ∃ front, items = front ++ rest ∧
    ∀ rest', (∀ item, rest'.head? = some item → rest.head? = some item) → reader (front ++ rest') = .ok (e, rest')

theorem settled_readOperand : Settled readOperand := by
  intro items e rest h
  cases items with
  | nil => cases h
  | cons item items =>
    obtain ⟨e', he, h⟩ := map_eq_ok_iff.mp h
    obtain ⟨rfl, rfl⟩ := Prod.mk.inj h
    refine ⟨[item], rfl, ?_⟩
    intro rest' _
    exact map_eq_ok_iff.mpr ⟨e', he, rfl⟩

/-- A level that takes one operand: the next item is looked at and is no operator of the level. -/
theorem readLevel_of_single {family : Family} {operand : Reader} {items rest : List Reading} {lhs : Expr}
    (h : operand items = .ok (lhs, rest)) (hn : ∀ next, rest.head? = some next → next.token.operatorIn? family = none) :
    readLevel family operand items = .ok (lhs, rest) := by
  refine bind_eq_ok_iff.mpr ⟨_, h, ?_⟩
  cases rest with
  | nil => rfl
  | cons next after =>
    simp only [hn next rfl]
    rfl

/-- A level that takes an operand and an operator goes on with a second operand. -/
theorem readLevel_of_operator {family : Family} {operand : Reader} {items after : List Reading} {lhs : Expr} {next : Reading}
    {op : Operator} (h : operand items = .ok (lhs, next :: after)) (ho : next.token.operatorIn? family = some op) :
    readLevel family operand items =
      (operand after).map fun (rhs, rest) => (.binary family lhs (.operator op) next.span rhs, rest) := by
  unfold readLevel
  rw [h]
  simp only [bind, Except.bind, ho]
  cases operand after <;> rfl

theorem settled_readLevel {family : Family} {operand : Reader} (h : Settled operand) : Settled (readLevel family operand) := by
  intro items e rest hread
  obtain ⟨⟨lhs, rest₁⟩, hl, hcont⟩ := bind_eq_ok_iff.mp hread
  obtain ⟨left, rfl, hleft⟩ := h items lhs rest₁ hl
  by_cases hop : ∃ next after op, rest₁ = next :: after ∧ next.token.operatorIn? family = some op
  · obtain ⟨next, after, op, rfl, ho⟩ := hop
    rw [readLevel_of_operator hl ho] at hread
    obtain ⟨⟨rhs, rest₂⟩, hr, hdone⟩ := map_eq_ok_iff.mp hread
    obtain ⟨rfl, rfl⟩ := Prod.mk.inj hdone
    obtain ⟨right, rfl, hright⟩ := h after rhs rest₂ hr
    refine ⟨left ++ next :: right, by simp, ?_⟩
    intro rest' hrest'
    have hl' := hleft (next :: (right ++ rest')) (by simp)
    rw [List.append_assoc, List.cons_append, readLevel_of_operator hl' ho, hright rest' hrest']
    rfl
  · have hnone : ∀ next, rest₁.head? = some next → next.token.operatorIn? family = none := by
      intro next hnext
      obtain ⟨after, rfl⟩ : ∃ after, rest₁ = next :: after := List.head?_eq_some_iff.mp hnext
      rw [Option.eq_none_iff_forall_ne_some]
      intro op ho
      exact hop ⟨next, after, op, rfl, ho⟩
    rw [readLevel_of_single hl hnone] at hread
    obtain ⟨rfl, rfl⟩ := Prod.mk.inj (Except.ok.inj hread)
    refine ⟨left, rfl, ?_⟩
    intro rest' hrest'
    exact readLevel_of_single (hleft rest' hrest') fun next hnext => hnone next (hrest' next hnext)

/-! ### The first fault -/

/-- An operand is due after the readings: there are none, or the last is an operator. -/
def Due (front : List Reading) : Prop := ∀ item, front.getLast? = some item → ∃ op, item.token = .operator op

theorem due_nil : Due [] := by
  intro item h
  cases h

theorem due_append_cons {left right : List Reading} {next : Reading} {op : Operator} (ho : next.token = .operator op)
    (h : Due right) : Due (left ++ next :: right) := by
  intro item hitem
  simp only [List.getLast?_append, List.getLast?_cons, Option.some_or, Option.some.injEq] at hitem
  cases hlast : right.getLast? with
  | none => exact ⟨op, by rw [← hitem, hlast]; exact ho⟩
  | some last =>
    rw [hlast] at hitem
    exact h item (hlast.trans (congrArg some hitem))

/-- After `front` one operand is due: with any that is one the reader is done, and with an item that is none it fails for that item,
whatever comes after it. -/
structure Lacks (reader : Reader) (front : List Reading) : Prop where
  due : Due front
  done : ∀ item e, item.operand = .ok e → ∃ e', reader (front ++ [item]) = .ok (e', [])
  fails : ∀ item error after, item.operand = .error error → reader (front ++ item :: after) = .error error

/-- Where the reader fails, an operand is due that is missing, or one that is none. -/
def Blames (reader : Reader) : Prop :=
  ∀ items error, reader items = .error error → ∃ front, Lacks reader front ∧
    ((items = front ∧ error = .eof) ∨ ∃ item after, items = front ++ item :: after ∧ item.operand = .error error)

theorem blames_readOperand : Blames readOperand := by
  intro items error h
  have hlacks : Lacks readOperand [] := by
    refine ⟨due_nil, ?_, ?_⟩
    · intro item e he
      exact ⟨e, map_eq_ok_iff.mpr ⟨e, he, rfl⟩⟩
    · intro item error after hitem
      exact map_eq_error_iff.mpr hitem
  refine ⟨[], hlacks, ?_⟩
  cases items with
  | nil =>
    cases h
    exact Or.inl ⟨rfl, rfl⟩
  | cons item items => exact Or.inr ⟨item, items, rfl, map_eq_error_iff.mp h⟩

/-- What the first operand of a level lacks, the level lacks. -/
theorem lacks_readLevel {family : Family} {operand : Reader} {front : List Reading} (h : Lacks operand front) :
    Lacks (readLevel family operand) front := by
  refine ⟨h.due, ?_, ?_⟩
  · intro item e he
    obtain ⟨e', he'⟩ := h.done item e he
    exact ⟨e', readLevel_of_single he' fun next hnext => absurd hnext (by simp)⟩
  · intro item error after hitem
    exact bind_eq_error_iff.mpr (Or.inl (h.fails item error after hitem))

/-- What the second operand of a level lacks, the level lacks after its first operand and its operator. -/
theorem lacks_readLevel_append {family : Family} {operand : Reader} {left front : List Reading} {lhs : Expr} {next : Reading}
    {op : Operator} (h : Lacks operand front) (ho : next.token.operatorIn? family = some op)
    (hl : ∀ after, operand (left ++ next :: after) = .ok (lhs, next :: after)) :
    Lacks (readLevel family operand) (left ++ next :: front) := by
  have hsplit : ∀ tail, readLevel family operand ((left ++ next :: front) ++ tail) =
      (operand (front ++ tail)).map fun (rhs, rest) => (.binary family lhs (.operator op) next.span rhs, rest) := by
    intro tail
    rw [List.append_assoc, List.cons_append]
    exact readLevel_of_operator (hl (front ++ tail)) ho
  refine ⟨due_append_cons (Token.operatorIn?_eq_some_iff.mp ho).1 h.due, ?_, ?_⟩
  · intro item e he
    obtain ⟨e', he'⟩ := h.done item e he
    exact ⟨_, by rw [hsplit, he']; rfl⟩
  · intro item error after hitem
    rw [hsplit, h.fails item error after hitem]
    rfl

theorem blames_readLevel {family : Family} {operand : Reader} (hs : Settled operand) (hb : Blames operand) :
    Blames (readLevel family operand) := by
  intro items error h
  rcases bind_eq_error_iff.mp h with hl | ⟨⟨lhs, rest⟩, hl, hcont⟩
  · -- the first operand fails, and the level fails with it
    obtain ⟨front, hlacks, hfault⟩ := hb items error hl
    exact ⟨front, lacks_readLevel hlacks, hfault⟩
  · -- the first operand is taken, and so is an operator, or else nothing could fail
    obtain ⟨left, rfl, hleft⟩ := hs items lhs rest hl
    cases rest with
    | nil => cases hcont
    | cons next after =>
      cases ho : next.token.operatorIn? family with
      | none =>
        simp only [ho] at hcont
        cases hcont
      | some op =>
        rw [readLevel_of_operator hl ho] at h
        obtain ⟨front, hlacks, hfault⟩ := hb after error (map_eq_error_iff.mp h)
        refine ⟨left ++ next :: front, lacks_readLevel_append hlacks ho fun after' => hleft (next :: after') (by simp), ?_⟩
        rcases hfault with ⟨rfl, rfl⟩ | ⟨item, after', rfl, hitem⟩
        · exact Or.inl ⟨rfl, rfl⟩
        · exact Or.inr ⟨item, after', by simp, hitem⟩

theorem settled_readExpr : Settled readExpr :=
  settled_readLevel (settled_readLevel (settled_readLevel (settled_readLevel settled_readOperand)))

theorem blames_readExpr : Blames readExpr := by
  have hcomparison := @blames_readLevel .comparison _ settled_readOperand blames_readOperand
  have hequality := @blames_readLevel .equality _ (settled_readLevel settled_readOperand) hcomparison
  have hand := @blames_readLevel .and _ (settled_readLevel (settled_readLevel settled_readOperand)) hequality
  exact blames_readLevel (settled_readLevel (settled_readLevel (settled_readLevel settled_readOperand))) hand

/-- What makes up a whole expression ends in an operand. -/
theorem Takes.exists_getLast? {level : Option Family} {items : List Reading} {e : Expr} (h : Takes level items e) :
    ∃ item e', items.getLast? = some item ∧ item.operand = .ok e' := by
  induction h with
  | @operand item e he => exact ⟨item, e, rfl, he⟩
  | single _ ih => exact ih
  | binary _ _ _ _ ihr =>
    obtain ⟨last, e', hlast, he'⟩ := ihr
    exact ⟨last, e', by simp [List.getLast?_append, List.getLast?_cons, hlast], he'⟩

/-- A sequence that is no expression has a first fault: an operand that is due but missing or none, or an item that comes after a
whole expression. Nothing after the fault matters. -/
theorem readWhole_error {items : List Reading} {error : ParseError} (h : readWhole items = .error error) :
    (∃ front, Due front ∧ (∀ item e, item.operand = .ok e → ∃ e', readWhole (front ++ [item]) = .ok e') ∧
      (∀ item error after, item.operand = .error error → readWhole (front ++ item :: after) = .error error) ∧
      ((items = front ∧ error = .eof) ∨ ∃ item after, items = front ++ item :: after ∧ item.operand = .error error)) ∨
      ∃ front next after, items = front ++ next :: after ∧ (∃ e, readWhole front = .ok e) ∧
        error = .unfinished next.token next.span ∧ ∀ after', readWhole (front ++ next :: after') = .error error := by
  rcases bind_eq_error_iff.mp h with hread | ⟨⟨e, rest⟩, hread, hrest⟩
  · obtain ⟨front, hlacks, hfault⟩ := blames_readExpr items error hread
    refine Or.inl ⟨front, hlacks.due, ?_, ?_, hfault⟩
    · intro item e he
      obtain ⟨e', he'⟩ := hlacks.done item e he
      exact ⟨e', bind_eq_ok_iff.mpr ⟨_, he', rfl⟩⟩
    · intro item error after hitem
      exact bind_eq_error_iff.mpr (Or.inl (hlacks.fails item error after hitem))
  · obtain ⟨front, rfl, hfront⟩ := settled_readExpr items e rest hread
    cases rest with
    | nil => cases hrest
    | cons next after =>
      have herror : error = .unfinished next.token next.span := (Except.error.inj hrest).symm
      subst herror
      have hwhole := hfront [] (by intro item hitem; cases hitem)
      rw [List.append_nil] at hwhole
      refine Or.inr ⟨front, next, after, rfl, ⟨e, bind_eq_ok_iff.mpr ⟨_, hwhole, rfl⟩⟩, rfl, ?_⟩
      intro after'
      exact bind_eq_error_iff.mpr (Or.inr ⟨_, hfront (next :: after') (by simp), rfl⟩)

end RuleLang
