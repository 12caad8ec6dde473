import RuleLang.Item.Basic

/-!
# How deep groups nest

The measure that the limit on groups is about: the greatest number of groups around one point of a sequence of items. A limit
allows it when the groups that are around the whole sequence leave enough room (`Allows`).
-/

namespace RuleLang

mutual

/-- How many groups nest in an item, the item itself included. -/
def Item.nesting : Item → Nat
  | .atom _ _ _ => 0
  | .group members _ => nestingOf members + 1

/-- How many groups nest in a sequence of items. -/
def nestingOf : List Item → Nat
  | [] => 0
  | item :: items => max item.nesting (nestingOf items)

end

@[simp] theorem Item.nesting_atom (kind : Atom) (text : String) (span : Span) : (Item.atom kind text span).nesting = 0 := by
  rw [Item.nesting]

@[simp] theorem Item.nesting_group (members : List Item) (span : Span) :
    (Item.group members span).nesting = nestingOf members + 1 := by
  rw [Item.nesting]

@[simp] theorem nestingOf_nil : nestingOf [] = 0 := by
  rw [nestingOf]

@[simp] theorem nestingOf_cons (item : Item) (items : List Item) :
    nestingOf (item :: items) = max item.nesting (nestingOf items) := by
  rw [nestingOf]

@[simp] theorem nestingOf_append (a b : List Item) : nestingOf (a ++ b) = max (nestingOf a) (nestingOf b) := by
  induction a with
  | nil => simp
  | cons item a ih => rw [List.cons_append, nestingOf_cons, nestingOf_cons, ih, Nat.max_assoc]

theorem nesting_le_of_mem {item : Item} {items : List Item} (h : item ∈ items) : item.nesting ≤ nestingOf items := by
  induction items with
  | nil => cases h
  | cons first items ih =>
    rw [nestingOf_cons]
    rcases List.mem_cons.mp h with rfl | h
    · exact Nat.le_max_left _ _
    · exact Nat.le_trans (ih h) (Nat.le_max_right _ _)

/-- Inside `depth` groups, `nesting` more stay within the limit. -/
def Allows (limit : Option Nat) (depth nesting : Nat) : Prop := ∀ most, limit = some most → nesting ≤ most - depth

theorem allows_none (depth nesting : Nat) : Allows none depth nesting := by
  intro most h
  cases h

theorem allows_some {most depth nesting : Nat} : Allows (some most) depth nesting ↔ nesting ≤ most - depth := by
  constructor
  · intro h
    exact h most rfl
  · intro h most' hm
    obtain rfl := Option.some.inj hm
    exact h

theorem allows_zero (limit : Option Nat) (depth : Nat) : Allows limit depth 0 := by
  intro most _
  exact Nat.zero_le _

theorem allows_max {limit : Option Nat} {depth a b : Nat} :
    Allows limit depth (max a b) ↔ Allows limit depth a ∧ Allows limit depth b := by
  constructor
  · intro h
    exact ⟨fun most hm => Nat.le_trans (Nat.le_max_left a b) (h most hm),
      fun most hm => Nat.le_trans (Nat.le_max_right a b) (h most hm)⟩
  · rintro ⟨ha, hb⟩ most hm
    exact Nat.max_le.mpr ⟨ha most hm, hb most hm⟩

/-- A group is allowed when it does not pass the limit itself and its inside is allowed one level deeper. -/
theorem allows_succ {limit : Option Nat} {depth n : Nat} :
    Allows limit depth (n + 1) ↔ passed? limit depth = none ∧ Allows limit (depth + 1) n := by
  cases limit with
  | none => simp [allows_none, passed?_none]
  | some most =>
    rw [allows_some, allows_some, passed?_some]
    by_cases h : most ≤ depth
    · rw [if_pos h]
      constructor
      · intro hn
        omega
      · rintro ⟨hn, _⟩
        cases hn
    · rw [if_neg h]
      constructor
      · intro hn
        exact ⟨rfl, by omega⟩
      · rintro ⟨_, hn⟩
        omega

end RuleLang
