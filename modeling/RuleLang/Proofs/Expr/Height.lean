import RuleLang.Proofs.Expr.Fault
import RuleLang.Proofs.Expr.Shape

/-!
# How high a tree is

A level of the grammar takes one operator at most. So the levels of one sequence put no more nodes on a path than there are levels, and
a sequence has no more items than a tree of this height has leaves and nodes (`Derives.length_le`); only groups lead further down. The
height of a tree is bounded by how deep the groups of its items nest, and by nothing else (`Derives.height_le`).
-/

namespace RuleLang

/-! ### One sequence -/

/-- Operands and operators take turns, an operand first and an operand last. -/
structure Alternates (items : List Item) : Prop where
  odd : items.length % 2 = 1
  operator_iff : ∀ k item, items[k]? = some item → ((∃ op, item.token = .operator op) ↔ k % 2 = 1)

theorem alternates_singleton {item : Item} (h : ∀ op, item.token ≠ .operator op) : Alternates [item] := by
  refine ⟨rfl, fun k item' hget => ?_⟩
  obtain ⟨hk, rfl⟩ := List.getElem?_eq_some_iff.mp hget
  obtain rfl : k = 0 := Nat.lt_one_iff.mp hk
  constructor
  · rintro ⟨op, hop⟩
    exact absurd hop (h op)
  · intro hodd
    cases hodd

/-- Two sequences in which operands and operators take turns are one with an operator between them. -/
theorem Alternates.append_cons {left right : List Item} {item : Item} {op : Operator} (hl : Alternates left)
    (hop : item.token = .operator op) (hr : Alternates right) : Alternates (left ++ item :: right) := by
  have hlodd := hl.odd
  refine ⟨?_, fun k item' hget => ?_⟩
  · have hrodd := hr.odd
    rw [List.length_append, List.length_cons]
    omega
  · rcases Nat.lt_trichotomy k left.length with hlt | rfl | hgt
    · rw [List.getElem?_append_left hlt] at hget
      exact hl.operator_iff k item' hget
    · rw [List.getElem?_append_right (Nat.le_refl _), Nat.sub_self, List.getElem?_cons_zero] at hget
      obtain rfl := Option.some.inj hget
      exact ⟨fun _ => hlodd, fun _ => ⟨op, hop⟩⟩
    · obtain ⟨j, rfl⟩ := Nat.exists_eq_add_of_lt hgt
      rw [List.getElem?_append_right (by omega), show left.length + j + 1 - left.length = j + 1 by omega,
        List.getElem?_cons_succ] at hget
      rw [hr.operator_iff j item' hget]
      omega

theorem Derives.alternates {level : Option Family} {items : List Item} {e : Expr} (h : Derives level items e) :
    Alternates items := by
  induction h with
  | literal kind text span => exact alternates_singleton fun op hop => by cases hop
  | var text span => exact alternates_singleton fun op hop => by cases hop
  | group span _ _ _ => exact alternates_singleton fun op hop => by cases hop
  | single _ ih => exact ih
  | binary text span _ _ _ ihl ihr => exact ihl.append_cons rfl ihr

/-- How many items there can be at a level. -/
def mostItems : Option Family → Nat
  | none => 1
  | some .comparison => 3
  | some .equality => 7
  | some .and => 15
  | some .or => 31

theorem mostItems_some (family : Family) : mostItems (some family) = mostItems family.below + 1 + mostItems family.below := by
  cases family <;> rfl

theorem Derives.length_le {level : Option Family} {items : List Item} {e : Expr} (h : Derives level items e) :
    items.length ≤ mostItems level := by
  induction h with
  | literal kind text span => exact Nat.le_refl 1
  | var text span => exact Nat.le_refl 1
  | group span _ _ _ => exact Nat.le_refl 1
  | single _ ih =>
    rw [mostItems_some]
    omega
  | binary text span _ _ _ ihl ihr =>
    rw [mostItems_some, List.length_append, List.length_cons]
    omega

/-! ### Groups -/

/-- The members of a group are a sequence of their own. -/
theorem Derives.exists_of_mem {level : Option Family} {items : List Item} {e : Expr} (h : Derives level items e)
    {members : List Item} {span : Span} (hm : .group members span ∈ items) : ∃ e', Derives (some .or) members e' := by
  induction h with
  | literal kind text span => cases List.mem_singleton.mp hm
  | var text span => cases List.mem_singleton.mp hm
  | group span _ hmembers _ =>
    obtain ⟨rfl, _⟩ := Item.group.inj (List.mem_singleton.mp hm)
    exact ⟨_, hmembers⟩
  | single _ ih => exact ih hm
  | binary text span _ _ _ ihl ihr =>
    rcases List.mem_append.mp hm with hm | hm
    · exact ihl hm
    · rcases List.mem_cons.mp hm with hm | hm
      · cases hm
      · exact ihr hm

theorem Derives.exists_of_occursIn {level : Option Family} {items : List Item} {e : Expr} (h : Derives level items e)
    {members : List Item} {span : Span} (hoccurs : (Item.group members span).OccursIn items) :
    ∃ e', Derives (some .or) members e' := by
  induction hoccurs generalizing level e with
  | here hm => exact h.exists_of_mem hm
  | inside hm _ ih =>
    obtain ⟨e', h'⟩ := h.exists_of_mem hm
    exact ih h'

/-- A group is entered at the loosest level, of which there are four in all. -/
theorem looseness_or : looseness (some .or) = 4 := rfl

/-- A path has one node for each level of the sequence at the most, and as many again for all levels of each group that it enters. -/
theorem Derives.height_le {level : Option Family} {items : List Item} {e : Expr} (h : Derives level items e) :
    e.height ≤ looseness level + 4 * nestingOf items := by
  induction h with
  | literal kind text span => exact Nat.zero_le _
  | var text span => exact Nat.zero_le _
  | group span _ _ ih =>
    rw [looseness_or] at ih
    rw [nestingOf_cons, nestingOf_nil, Item.nesting_group]
    omega
  | single _ ih =>
    rw [looseness_below]
    omega
  | binary text span _ _ _ ihl ihr =>
    rw [Expr.height, looseness_below, nestingOf_append, nestingOf_cons, Item.nesting_atom]
    omega

theorem Derives.height_le_of_or {items : List Item} {e : Expr} (h : Derives (some .or) items e) :
    e.height ≤ 4 * (nestingOf items + 1) := by
  have hle := h.height_le
  rw [looseness_or] at hle
  omega

/-- The sequences of items that are read one by one: the items themselves, and the members of every group at any nesting. -/
def SequenceOf (items sequence : List Item) : Prop := sequence = items ∨ ∃ span, (Item.group sequence span).OccursIn items

theorem Derives.exists_of_sequenceOf {items sequence : List Item} {e : Expr} (h : Derives (some .or) items e)
    (hs : SequenceOf items sequence) : ∃ e', Derives (some .or) sequence e' := by
  rcases hs with rfl | ⟨span, hoccurs⟩
  · exact ⟨e, h⟩
  · exact h.exists_of_occursIn hoccurs

end RuleLang
