import RuleLang.Span

/-!
# Rows and columns

The place after a text tells how many rows the text has ended and how long its last row is (`Position.locates_after`). Every further
character moves the place on, into the next column or to the beginning of the next row (`Position.before_advance`), so that places come
in the order of the texts before them.
-/

namespace RuleLang

namespace Position

/-- The place is the one after the text: the row counts the line feeds of the text, and the column the characters of its last row, the
row that the last line feed begins or the text itself if there is none. -/
structure Locates (p : Position) (before : List Char) : Prop where
  row_eq : p.row = before.count '\n' + 1
  column_eq : ∃ rows line, before = rows ++ line ∧ (rows = [] ∨ rows.getLast? = some '\n') ∧ '\n' ∉ line ∧
    p.column = line.length + 1

/-- The place comes before the other: it is in an earlier row, or in an earlier column of the same row. -/
def Before (p q : Position) : Prop := p.row < q.row ∨ p.row = q.row ∧ p.column < q.column

theorem Before.trans {p q r : Position} (h : p.Before q) (h' : q.Before r) : p.Before r := by
  unfold Before at h h' ⊢
  omega

theorem Before.ne {p q : Position} (h : p.Before q) : p ≠ q := by
  rintro rfl
  rcases h with h | ⟨_, h⟩
  · exact Nat.lt_irrefl _ h
  · exact Nat.lt_irrefl _ h

/-! ### One character further -/

/-- A line feed begins a row, and any other character is one more in its row. -/
theorem Locates.advance {p : Position} {before : List Char} (h : p.Locates before) (c : Char) :
    (p.advance c).Locates (before ++ [c]) := by
  obtain ⟨hrow, rows, line, rfl, hrows, hline, hcolumn⟩ := h
  by_cases hc : c = '\n'
  · subst hc
    rw [Position.advance, if_pos rfl]
    refine ⟨?_, (rows ++ line) ++ ['\n'], [], (List.append_nil _).symm, Or.inr List.getLast?_concat, List.not_mem_nil, rfl⟩
    rw [List.count_append, List.count_singleton_self, hrow]
  · rw [Position.advance, if_neg hc]
    refine ⟨?_, rows, line ++ [c], List.append_assoc .., hrows, ?_, ?_⟩
    · rw [List.count_append, List.count_singleton, beq_false_of_ne hc, hrow]
      rfl
    · rw [List.mem_append, List.mem_singleton, not_or]
      exact ⟨hline, Ne.symm hc⟩
    · rw [List.length_append, List.length_singleton, hcolumn]

theorem before_advance (p : Position) (c : Char) : p.Before (p.advance c) := by
  unfold Position.advance
  split
  · exact Or.inl (Nat.lt_succ_self _)
  · exact Or.inr ⟨rfl, Nat.lt_succ_self _⟩

/-! ### A text further -/

theorem Locates.foldl_advance {p : Position} {before : List Char} (h : p.Locates before) (text : List Char) :
    (text.foldl Position.advance p).Locates (before ++ text) := by
  induction text generalizing p before with
  | nil => rwa [List.append_nil]
  | cons c text ih =>
    have hrest := ih (h.advance c)
    rwa [List.append_assoc, List.singleton_append] at hrest

/-- The place after a text is told by the text. -/
theorem locates_after (before : List Char) : (Position.after before).Locates before := by
  have hstart : Locates ⟨1, 1⟩ [] := ⟨rfl, [], [], rfl, Or.inl rfl, List.not_mem_nil, rfl⟩
  exact hstart.foldl_advance before

theorem before_foldl_advance (p : Position) (c : Char) (text : List Char) : p.Before ((c :: text).foldl Position.advance p) := by
  induction text generalizing p c with
  | nil => exact before_advance p c
  | cons d text ih => exact (before_advance p c).trans (ih (p.advance c) d)

/-- A longer text leads to a later place. -/
theorem after_before_after_append (before : List Char) {further : List Char} (h : further ≠ []) :
    (Position.after before).Before (Position.after (before ++ further)) := by
  obtain ⟨c, further, rfl⟩ := List.exists_cons_of_ne_nil h
  rw [Position.after, Position.after, List.foldl_append]
  exact before_foldl_advance _ c further

end Position

/-! ### Byte offsets -/

/-- A character of the source begins at byte `n`, or the source ends there. -/
def Boundary (source : String) (n : Nat) : Prop := ∃ before after, source.toList = before ++ after ∧ byteSize before = n

/-- The boundaries of a source are where it can be split. -/
theorem boundary_iff_isSome {source : String} {n : Nat} : Boundary source n ↔ (splitAtByte? n source.toList).isSome = true := by
  constructor
  · rintro ⟨before, after, hs⟩
    rw [splitAtByte?_eq_some_iff.mpr hs]
    rfl
  · intro h
    obtain ⟨⟨before, after⟩, hsplit⟩ := Option.isSome_iff_exists.mp h
    exact ⟨before, after, splitAtByte?_eq_some_iff.mp hsplit⟩

instance (source : String) (n : Nat) : Decidable (Boundary source n) := decidable_of_iff _ boundary_iff_isSome.symm

theorem Boundary.le {source : String} {n : Nat} (h : Boundary source n) : n ≤ source.utf8ByteSize := by
  obtain ⟨before, after, hs, rfl⟩ := h
  rw [← byteSize_toList, hs, byteSize_append]
  exact Nat.le_add_right _ _

/-- Where no character begins the end of the source is told. -/
theorem Span.position_of_not_boundary {span : Span} {source : String} (h : ¬Boundary source span.start) :
    span.position source = Position.after source.toList := by
  unfold Span.position
  split
  · rename_i before after hsplit
    exact absurd ⟨before, after, splitAtByte?_eq_some_iff.mp hsplit⟩ h
  · rfl

end RuleLang
