import RuleLang.Proofs.Item.Tiling
import RuleLang.Proofs.Text.Position

/-!
# Scanning a source by byte offsets

`itemsOf` is given the text that it reads. Here a source is read where it stands: a range of it is known by two byte offsets, whatever is
looked at, kept or told is a slice between two offsets, and an offset is found by adding to another. Nothing in these definitions says
that a slice exists or that a `)` has a `(` to be counted off from; where one does not, the scan halts (`Scan.Halt`). Nor do they say that
a scan ends: it goes turn by turn, for as many turns as it is given (`Scan.stateAfter`).

A turn of the scan looks at what begins at an offset of a range (`Scan.turn`). The call for the whole source is under way first; where a
group begins, the call for its inside is under way next, and when it comes to its end the call around it goes on behind the `)`.
-/

namespace RuleLang

/-! ### What is between two offsets -/

theorem Span.Covers.stop_eq {source : String} {span : Span} {text : List Char} (h : span.Covers source text) :
    span.stop = span.start + byteSize text := by
  obtain ⟨_, _, _, _, hstop⟩ := Span.covers_iff.mp h
  exact hstop.symm

/-- There is a text between two boundaries in order, and between no other offsets. -/
theorem Span.exists_covers_iff {source : String} {span : Span} :
    (∃ text, span.Covers source text) ↔ span.start ≤ span.stop ∧ Boundary source span.start ∧ Boundary source span.stop := by
  constructor
  · rintro ⟨text, h⟩
    have hle := h.stop_eq
    obtain ⟨before, after, hs, hstart, hstop⟩ := Span.covers_iff.mp h
    refine ⟨by omega, ⟨before, text ++ after, by rw [hs, List.append_assoc], hstart⟩, before ++ text, after, hs, ?_⟩
    rw [byteSize_append, hstart, hstop]
  · rintro ⟨hle, ⟨before, after, hs, hstart⟩, before', after', hs', hstop⟩
    obtain ⟨text, rfl, -⟩ := exists_append_of_byteSize_le (hs.symm.trans hs') (by omega)
    refine ⟨text, Span.covers_iff.mpr ⟨before, after', hs', hstart, ?_⟩⟩
    rw [← hstart, ← byteSize_append, hstop]

/-- A text between two offsets can be cut. -/
theorem Span.Covers.of_append {source : String} {start stop : Nat} {a b : List Char}
    (h : Span.Covers ⟨start, stop⟩ source (a ++ b)) :
    (Span.over start a).Covers source a ∧ Span.Covers ⟨start + byteSize a, stop⟩ source b := by
  obtain ⟨before, after, hs, rfl, hstop⟩ := Span.covers_iff.mp h
  rw [byteSize_append] at hstop
  refine ⟨Span.covers_iff.mpr ⟨before, b ++ after, by simpa using hs, rfl, rfl⟩,
    Span.covers_iff.mpr ⟨before ++ a, after, by simpa using hs, byteSize_append _ _, ?_⟩⟩
  simp only at hstop ⊢
  omega

theorem Span.Covers.of_cons {source : String} {start stop : Nat} {c : Char} {rest : List Char}
    (h : Span.Covers ⟨start, stop⟩ source (c :: rest)) :
    (Span.over start [c]).Covers source [c] ∧ Span.Covers ⟨start + c.utf8Size, stop⟩ source rest :=
  @Span.Covers.of_append source start stop [c] rest h

namespace Scan

/-! ### Slices -/

/-- Why a scan halts before its end. -/
inductive Halt where
  /-- A slice is asked for that does not exist. -/
  | noSlice (span : Span)
  /-- A `)` is to be counted off where no `(` is counted. -/
  | noCount
  /-- The source is at fault. -/
  | fault (error : LexError)
  deriving DecidableEq, Repr

/-- The piece of the source that the span covers. -/
def slice (source : String) (span : Span) : Except Halt (List Char) :=
  match span.slice? source with
  | some text => .ok text.toList
  | none => .error (.noSlice span)

theorem slice_of_covers {source : String} {span : Span} {text : List Char} (h : span.Covers source text) :
    slice source span = .ok text := by
  rw [slice, h]
  exact congrArg Except.ok String.toList_ofList

/-- A slice exists between boundaries in order, and nowhere else. -/
theorem slice_eq_noSlice_iff {source : String} {span : Span} :
    slice source span = .error (.noSlice span) ↔
      ¬(span.start ≤ span.stop ∧ Boundary source span.start ∧ Boundary source span.stop) := by
  rw [← Span.exists_covers_iff]
  cases h : span.slice? source with
  | none =>
    rw [slice, h]
    refine iff_of_true rfl ?_
    rintro ⟨text, hcovers⟩
    rw [Span.Covers, h] at hcovers
    cases hcovers
  | some text =>
    rw [slice, h]
    refine iff_of_false (fun hnone => by cases hnone) (not_not_intro ⟨text.toList, ?_⟩)
    rw [Span.Covers, h, String.ofList_toList]

/-- Halts at the piece of the source that the span covers. -/
def refuse {α : Type} (source : String) (fault : Fault) (span : Span) : Except Halt α := do
  let text ← slice source span
  throw (.fault (.malformed fault (.ofList text) span))

/-- The offset of the first character of the range that is not in the class, or the end of the range. -/
def scanWhile (source : String) (p : Char → Bool) (start stop : Nat) : Except Halt Nat := do
  let text ← slice source ⟨start, stop⟩
  return if text.all p then stop else start + byteSize (text.takeWhile p)

/-! ### The rules for atoms -/

/-- The integer that begins where the range does. -/
def integerAt (source : String) (start stop : Nat) : Except Halt Item := do
  let last ← scanWhile source Char.isDigit start stop
  let text ← slice source ⟨start, last⟩
  return .atom (.literal .integer) (.ofList text) ⟨start, last⟩

/-- The string that the quote at the beginning of the range opens. -/
def stringAt (source : String) (quote : Char) (start stop : Nat) : Except Halt Item := do
  let first := start + quote.utf8Size
  let rest ← slice source ⟨first, stop⟩
  if quote ∈ rest then
    let last := first + byteSize (rest.takeWhile (· != quote))
    let text ← slice source ⟨first, last⟩
    return .atom (.literal .string) (.ofList text) ⟨start, last + quote.utf8Size⟩
  else refuse source .unclosedString ⟨start, stop⟩

/-- The variable whose `$` begins the range. -/
def variableAt (source : String) (start stop : Nat) : Except Halt Item := do
  let last ← scanWhile source isNameChar (start + 1) stop
  if last = start + 1 then refuse source .emptyVariable ⟨start, last⟩
  else
    let text ← slice source ⟨start, last⟩
    return .atom .var (.ofList text) ⟨start, last⟩

/-- The operator that the first `size` bytes of the text spell. There is none if these bytes end inside a character. -/
def operatorOf? (text : List Char) (size : Nat) : Option Operator := do
  let (front, _) ← splitAtByte? size text
  Operator.longestFirst.find? (fun op => op.symbol.toList == front)

/-- The operator that begins the range, looked for in its first two bytes and then in its first byte. -/
def operatorAt? (source : String) (start stop : Nat) : Except Halt (Option Item) := do
  let text ← slice source ⟨start, stop⟩
  return [2, 1].findSome? fun size =>
    (operatorOf? text size).map fun op => .atom (.operator op) op.symbol ⟨start, start + size⟩

/-- The keywords. None of them is the front of another. -/
def keywords : List (String × LiteralKind) := [("true", .bool), ("false", .bool), ("null", .null)]

/-- The keyword that the text begins with. -/
def keywordOf? (text : List Char) : Option (String × LiteralKind) :=
  keywords.find? fun keyword => keyword.1.toList.isPrefixOf text

/-- The keyword that begins the range. Where there is none, everything up to white space is at fault. -/
def keywordAt (source : String) (start stop : Nat) : Except Halt Item := do
  let text ← slice source ⟨start, stop⟩
  match keywordOf? text with
  | some (spelling, kind) => return .atom (.literal kind) spelling ⟨start, start + spelling.utf8ByteSize⟩
  | none =>
    let last ← scanWhile source (!isBlank ·) start stop
    refuse source .unknownToken ⟨start, last⟩

/-- The operator or the keyword that begins the range. -/
def fixedAt (source : String) (start stop : Nat) : Except Halt Item := do
  match ← operatorAt? source start stop with
  | some item => return item
  | none => keywordAt source start stop

/-! ### The end of a group -/

/-- How the characters from the `(` of a group on go on: the `)` of the group stands at an offset; or they end inside a string whose
quote stands at an offset; or they end outside of strings. -/
inductive Ending where
  | closed (close : Nat)
  | openString (quote : Nat)
  | openGroup
  deriving DecidableEq, Repr

/-- Counts parentheses in the characters that begin at byte `offset`, up to the `)` that brings the count to zero. `string?` is the quote
of the string that is open and where it stands. -/
def count (counted : Nat) (string? : Option (Char × Nat)) (offset : Nat) : List Char → Except Halt Ending
  | [] => .ok (string?.elim .openGroup fun (_, quote) => .openString quote)
  | c :: rest =>
    match string? with
    | some (quote, place) => count counted (if c = quote then none else some (quote, place)) (offset + c.utf8Size) rest
    | none =>
      if isQuote c then count counted (some (c, offset)) (offset + c.utf8Size) rest
      else if c = '(' then count (counted + 1) none (offset + c.utf8Size) rest
      else if c = ')' then
        match counted with
        | 0 => .error .noCount
        | n + 1 => if n = 0 then .ok (.closed offset) else count n none (offset + c.utf8Size) rest
      else count counted none (offset + c.utf8Size) rest

/-- Where the group that begins the range closes. -/
def closeOf (source : String) (start stop : Nat) : Except Halt Nat := do
  let text ← slice source ⟨start, stop⟩
  match ← count 0 none start text with
  | .closed close => return close
  | .openString quote => refuse source .unclosedString ⟨quote, stop⟩
  | .openGroup => refuse source .unclosedGroup ⟨start, stop⟩

/-! ### One turn -/

/-- What is found at an offset of a range: its end, white space that ends at an offset, an atom, or a group whose `)` stands at an
offset. -/
inductive Turn where
  | done
  | blank (next : Nat)
  | atom (item : Item)
  | group (close : Nat)
  deriving Repr

/-- What is found at byte `offset` of a range that ends at byte `stop` and lies inside `depth` groups. -/
def turn (source : String) (stop depth offset : Nat) : Except Halt Turn := do
  match ← slice source ⟨offset, stop⟩ with
  | [] => return .done
  | c :: _ =>
    if isBlank c then return .blank (offset + c.utf8Size)
    else if c.isDigit then (integerAt source offset stop).map .atom
    else if isQuote c then (stringAt source c offset stop).map .atom
    else if c = '$' then (variableAt source offset stop).map .atom
    else if c = '(' then
      if maxNesting ≤ depth then throw (.fault (.tooDeep maxNesting ⟨offset, offset + 1⟩))
      else (closeOf source offset stop).map .group
    else if c = ')' then refuse source .unexpectedCloseParen ⟨offset, offset + 1⟩
    else (fixedAt source offset stop).map .atom

/-! ### Calls under way -/

/-- A call under way: it reads a range of the source that lies inside `depth` groups, has come to byte `offset`, and has found items. -/
structure Frame where
  start : Nat
  stop : Nat
  depth : Nat
  offset : Nat
  items : List Item
  deriving Repr

/-- The call, gone on behind an item. -/
def Frame.push (f : Frame) (item : Item) : Frame := { f with offset := item.span.stop, items := f.items ++ [item] }

/-- The call for the inside of the group that the call has come to, whose `)` stands at byte `close`. -/
def Frame.inner (f : Frame) (close : Nat) : Frame := ⟨f.offset + 1, close, f.depth + 1, f.offset + 1, []⟩

/-- A scan is a stack of calls, of which the innermost goes on, or it has ended. -/
inductive State where
  | reading (frame : Frame) (outer : List Frame)
  | ended (result : Except Halt (List Item))
  deriving Repr

/-- The scan after one more turn. -/
def State.next (source : String) : State → State
  | .ended result => .ended result
  | .reading f outer =>
    match turn source f.stop f.depth f.offset with
    | .error halt => .ended (.error halt)
    | .ok (.blank offset) => .reading { f with offset := offset } outer
    | .ok (.atom item) => .reading (f.push item) outer
    | .ok (.group close) => .reading (f.inner close) (f :: outer)
    | .ok .done =>
      match outer with
      | [] => .ended (.ok f.items)
      | g :: outer => .reading (g.push (.group f.items ⟨g.offset, f.stop + 1⟩)) outer

/-- The scan of a source after some turns. It begins with the call for the whole source. -/
def stateAfter (source : String) : (turns : Nat) → State
  | 0 => .reading ⟨0, source.utf8ByteSize, 0, 0, []⟩ []
  | turns + 1 => (stateAfter source turns).next source

end Scan

end RuleLang
