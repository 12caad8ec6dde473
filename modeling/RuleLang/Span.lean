import RuleLang.Text.Bytes
import RuleLang.Text.Decimal

/-!
# Spans of a source

A span is the half-open range of byte offsets that a piece of a source covers. It reads a slice of the source where both its
ends are character boundaries in order (`slice?`), and it names the row and column where it begins (`position`).
-/

namespace RuleLang

/-- The bytes from `start` on, up to but not including `stop`. -/
structure Span where
  start : Nat
  stop : Nat
  deriving DecidableEq, Repr

/-- The span of the characters `covered` that begin at byte `offset`. -/
def Span.over (offset : Nat) (covered : List Char) : Span := ⟨offset, offset + byteSize covered⟩

/-- The span of the characters `covered` that end before byte `stop`. -/
def Span.upTo (stop : Nat) (covered : List Char) : Span := ⟨stop - byteSize covered, stop⟩

/-- A span as messages show it. -/
def Span.display (span : Span) : String := "[" ++ decimal span.start ++ ":" ++ decimal span.stop ++ "]"

instance : ToString Span := ⟨Span.display⟩

/-- A span as a record of its fields. -/
def Span.dump (span : Span) : String :=
  "Span \x7b start: " ++ decimal span.start ++ ", end: " ++ decimal span.stop ++ " \x7d"

/-- The piece of the source that the span covers. There is none when an end lies outside the source or inside a character, or
when the ends are out of order. -/
def Span.slice? (span : Span) (source : String) : Option String :=
  if span.start ≤ span.stop then do
    let (_, rest) ← splitAtByte? span.start source.toList
    let (inside, _) ← splitAtByte? (span.stop - span.start) rest
    return String.ofList inside
  else none

/-- A place in a source as readers count it: rows and columns start at one, and columns are counted in characters. -/
structure Position where
  row : Nat
  column : Nat
  deriving DecidableEq, Repr

/-- The place one character further on. Only a line feed ends a row. -/
def Position.advance (p : Position) (c : Char) : Position :=
  if c = '\n' then ⟨p.row + 1, 1⟩ else ⟨p.row, p.column + 1⟩

/-- The place right after the text `before`. -/
def Position.after (before : List Char) : Position := before.foldl Position.advance ⟨1, 1⟩

/-- The place in the source where the span begins. When no character begins there it is the place where the source ends. -/
def Span.position (span : Span) (source : String) : Position :=
  match splitAtByte? span.start source.toList with
  | some (before, _) => Position.after before
  | none => Position.after source.toList

/-- A span of some characters is not empty. -/
theorem Span.start_lt_stop_over (offset : Nat) {covered : List Char} (h : covered ≠ []) :
    (Span.over offset covered).start < (Span.over offset covered).stop := by
  have hpos : byteSize covered ≠ 0 := fun hz => h (byteSize_eq_zero_iff.mp hz)
  exact Nat.lt_add_of_pos_right (Nat.pos_of_ne_zero hpos)

/-- The slice of a span is what stands between a text of `start` bytes and the rest of the source. -/
theorem Span.slice?_eq_some_iff {span : Span} {source text : String} :
    span.slice? source = some text ↔
      ∃ before after, source.toList = before ++ text.toList ++ after ∧
        byteSize before = span.start ∧ span.start + byteSize text.toList = span.stop := by
  simp only [Span.slice?]
  split <;> rename_i h
  · simp only [Option.bind_eq_bind, Option.bind_eq_some_iff, Prod.exists, splitAtByte?_eq_some_iff, Option.pure_def,
      Option.some.injEq]
    constructor
    · rintro ⟨before, _, ⟨hs, hb⟩, inside, after, ⟨rfl, hi⟩, rfl⟩
      refine ⟨before, after, by simpa using hs, hb, ?_⟩
      simp
      omega
    · rintro ⟨before, after, hs, hb, hi⟩
      exact ⟨before, text.toList ++ after, ⟨by simpa using hs, hb⟩, text.toList, after, ⟨rfl, by omega⟩, by simp⟩
  · simp only [reduceCtorEq, false_iff, not_exists, not_and]
    intro before after _ _ hi
    omega

theorem Span.position_of_boundary {span : Span} {source : String} {before after : List Char}
    (hs : source.toList = before ++ after) (hb : byteSize before = span.start) :
    span.position source = Position.after before := by
  simp only [Span.position]
  rw [splitAtByte?_eq_some_iff.mpr ⟨hs, hb⟩]

end RuleLang
