import RuleLang.Expr.Basic

/-!
# The parts of a tree

A tree is written in a source as its leaves and operators, in the order of its `parts`. The span of a tree begins where its first leaf
does and ends where its last leaf does. So when the parts stand in the source in their order, none of them empty, the span takes in
all of the tree (`Expr.contains_of_mem_subtrees`).
-/

namespace RuleLang

/-- All of the inner span lies in the outer one. -/
def Span.Contains (outer inner : Span) : Prop := outer.start ≤ inner.start ∧ inner.stop ≤ outer.stop

/-- The parts stand one after the other, and none of them is empty. -/
structure InOrder (parts : List Leaf) : Prop where
  nonempty : ∀ part ∈ parts, part.span.start < part.span.stop
  apart : parts.Pairwise fun a b => a.span.stop ≤ b.span.start

theorem InOrder.of_sublist {parts parts' : List Leaf} (h : InOrder parts) (hs : parts'.Sublist parts) : InOrder parts' :=
  ⟨fun part hm => h.nonempty part (hs.subset hm), h.apart.sublist hs⟩

namespace Expr

/-- The leaves and operators of the tree in the order in which they are written: those of the left operand, the operator, those of the
right operand. An operator is listed with its symbol for a text. -/
def parts : Expr → List Leaf
  | binary _ lhs op opSpan rhs => lhs.parts ++ ⟨op, op.display, opSpan⟩ :: rhs.parts
  | literal leaf => [leaf]
  | var leaf => [leaf]

/-- The leftmost leaf. -/
def firstLeaf : Expr → Leaf
  | binary _ lhs _ _ _ => lhs.firstLeaf
  | literal leaf => leaf
  | var leaf => leaf

/-- The rightmost leaf. -/
def lastLeaf : Expr → Leaf
  | binary _ _ _ _ rhs => rhs.lastLeaf
  | literal leaf => leaf
  | var leaf => leaf

/-- The tree and all trees below it. -/
def subtrees : Expr → List Expr
  | binary family lhs op opSpan rhs => binary family lhs op opSpan rhs :: (lhs.subtrees ++ rhs.subtrees)
  | literal leaf => [literal leaf]
  | var leaf => [var leaf]

/-- The first of the parts is the leftmost leaf. -/
theorem exists_parts_eq_cons (e : Expr) : ∃ rest, e.parts = e.firstLeaf :: rest := by
  induction e with
  | binary family lhs op opSpan rhs ihl _ =>
    obtain ⟨rest, hl⟩ := ihl
    exact ⟨rest ++ ⟨op, op.display, opSpan⟩ :: rhs.parts, by rw [parts, hl]; rfl⟩
  | literal leaf => exact ⟨[], rfl⟩
  | var leaf => exact ⟨[], rfl⟩

/-- The last of the parts is the rightmost leaf. -/
theorem exists_parts_eq_append (e : Expr) : ∃ rest, e.parts = rest ++ [e.lastLeaf] := by
  induction e with
  | binary family lhs op opSpan rhs _ ihr =>
    obtain ⟨rest, hr⟩ := ihr
    exact ⟨lhs.parts ++ ⟨op, op.display, opSpan⟩ :: rest, by rw [parts, hr]; simp [lastLeaf]⟩
  | literal leaf => exact ⟨[], rfl⟩
  | var leaf => exact ⟨[], rfl⟩

theorem firstLeaf_mem_parts (e : Expr) : e.firstLeaf ∈ e.parts := by
  obtain ⟨rest, h⟩ := e.exists_parts_eq_cons
  rw [h]
  exact List.mem_cons_self

theorem lastLeaf_mem_parts (e : Expr) : e.lastLeaf ∈ e.parts := by
  obtain ⟨rest, h⟩ := e.exists_parts_eq_append
  rw [h]
  exact List.mem_append_right _ (List.mem_singleton_self _)

theorem span_start (e : Expr) : e.span.start = e.firstLeaf.span.start := by
  induction e with
  | binary _ _ _ _ _ ihl _ => exact ihl
  | literal leaf => rfl
  | var leaf => rfl

theorem span_stop (e : Expr) : e.span.stop = e.lastLeaf.span.stop := by
  induction e with
  | binary _ _ _ _ _ _ ihr => exact ihr
  | literal leaf => rfl
  | var leaf => rfl

/-- The parts of a tree below are parts of the tree, in the same order. -/
theorem parts_sublist_of_mem_subtrees {e below : Expr} (h : below ∈ e.subtrees) : below.parts.Sublist e.parts := by
  induction e with
  | binary family lhs op opSpan rhs ihl ihr =>
    rw [subtrees, List.mem_cons, List.mem_append] at h
    rcases h with rfl | h | h
    · exact List.Sublist.refl _
    · exact (ihl h).trans (List.sublist_append_left _ _)
    · exact (ihr h).trans ((List.sublist_cons_self _ _).trans (List.sublist_append_right _ _))
  | literal leaf =>
    obtain rfl := List.mem_singleton.mp h
    exact List.Sublist.refl _
  | var leaf =>
    obtain rfl := List.mem_singleton.mp h
    exact List.Sublist.refl _

/-- Of parts in order none begins before the leftmost leaf or ends after the rightmost. -/
theorem contains_of_mem_parts {e : Expr} (h : InOrder e.parts) {part : Leaf} (hm : part ∈ e.parts) :
    e.span.Contains part.span := by
  rw [Span.Contains, span_start, span_stop]
  constructor
  · have hne := h.nonempty _ e.firstLeaf_mem_parts
    have happart := h.apart
    obtain ⟨later, hfirst⟩ := e.exists_parts_eq_cons
    rw [hfirst] at happart hm
    rcases List.mem_cons.mp hm with rfl | hm
    · exact Nat.le_refl _
    · have := (List.pairwise_cons.mp happart).1 part hm
      omega
  · have hne := h.nonempty _ e.lastLeaf_mem_parts
    have happart := h.apart
    obtain ⟨earlier, hlast⟩ := e.exists_parts_eq_append
    rw [hlast] at happart hm
    rcases List.mem_append.mp hm with hm | hm
    · have := (List.pairwise_append.mp happart).2.2 part hm _ (List.mem_singleton_self _)
      omega
    · obtain rfl := List.mem_singleton.mp hm
      exact Nat.le_refl _

theorem span_start_lt_stop {e : Expr} (h : InOrder e.parts) : e.span.start < e.span.stop := by
  have hne := h.nonempty _ e.firstLeaf_mem_parts
  obtain ⟨hstart, hstop⟩ := contains_of_mem_parts h e.firstLeaf_mem_parts
  omega

/-- The span of a tree whose parts stand in order takes in the spans of the trees below. -/
theorem contains_of_mem_subtrees {e below : Expr} (h : InOrder e.parts) (hm : below ∈ e.subtrees) :
    e.span.Contains below.span := by
  have hsub := (parts_sublist_of_mem_subtrees hm).subset
  have hfirst := contains_of_mem_parts h (hsub below.firstLeaf_mem_parts)
  have hlast := contains_of_mem_parts h (hsub below.lastLeaf_mem_parts)
  refine ⟨?_, ?_⟩
  · rw [span_start below]
    exact hfirst.1
  · rw [span_stop below]
    exact hlast.2

end Expr

end RuleLang
