import RuleLang.Item.Closing
import RuleLang.Item.Word

/-!
# The items of a text

A text is divided into items from left to right. White space is passed over, a group is read once its end is found, and every
other item is a word. The first fault ends the reading: what is wrong inside a group comes before what is wrong after it.
-/

namespace RuleLang

/-- The items of a text that begins at byte `offset` of its source and lies inside `depth` groups. A group that would pass the
limit is refused before its end is looked for. Spans are those of the whole source. -/
def itemsOf (limit : Option Nat) (depth offset : Nat) (text : List Char) : Except LexError (List Item) :=
  match text with
  | [] => .ok []
  | c :: rest =>
    if isBlank c then itemsOf limit depth (offset + c.utf8Size) rest
    else if c = '(' then
      match passed? limit depth with
      | some n => .error (.tooDeep n (.over offset [c]))
      | none =>
        match _h : Closing.find 0 none rest with
        | .openString tail =>
          .error (.malformed .unclosedString (.ofList tail) (.upTo (offset + byteSize (c :: rest)) tail))
        | .openGroup => .error (.malformed .unclosedGroup (.ofList (c :: rest)) (.over offset (c :: rest)))
        | .closed inside after => do
          let members ← itemsOf limit (depth + 1) (offset + 1) inside
          let span := Span.over offset (c :: inside ++ [')'])
          let others ← itemsOf limit depth span.stop after
          return .group members span :: others
    else
      match _h : Word.read c rest with
      | .error (fault, covered) => .error (.malformed fault (.ofList covered) (.over offset covered))
      | .ok (word, after) => do
        let span := Span.over offset word.covered
        let others ← itemsOf limit depth span.stop after
        return .atom word.kind (.ofList word.text) span :: others
termination_by text.length
decreasing_by
  · exact Nat.lt_succ_self _
  · exact Nat.lt_trans (Closing.length_inside_lt _h) (Nat.lt_succ_self _)
  · exact Nat.lt_trans (Closing.length_after_lt _h) (Nat.lt_succ_self _)
  · exact Word.length_lt_of_read _h

/-- The items of a source. -/
def lex (source : String) : Except LexError (List Item) := itemsOf (some maxNesting) 0 0 source.toList

/-! ### What each front of a text makes of it -/

theorem itemsOf_nil (limit : Option Nat) (depth offset : Nat) : itemsOf limit depth offset [] = .ok [] := by
  rw [itemsOf]

/-- White space is passed over. -/
theorem itemsOf_blank {c : Char} (h : isBlank c = true) (limit : Option Nat) (depth offset : Nat) (rest : List Char) :
    itemsOf limit depth offset (c :: rest) = itemsOf limit depth (offset + c.utf8Size) rest := by
  rw [itemsOf, if_pos h]

/-- A group that would pass the limit is refused at its `(`. -/
theorem itemsOf_tooDeep {limit : Option Nat} {depth n : Nat} (h : passed? limit depth = some n) (offset : Nat)
    (rest : List Char) : itemsOf limit depth offset ('(' :: rest) = .error (.tooDeep n (.over offset ['('])) := by
  rw [itemsOf, if_neg (by decide), if_pos rfl, h]

/-- Inside a group that ends in an open string, the string is at fault. -/
theorem itemsOf_openString {limit : Option Nat} {depth : Nat} (h : passed? limit depth = none) {rest tail : List Char}
    (hc : Closing.find 0 none rest = .openString tail) (offset : Nat) :
    itemsOf limit depth offset ('(' :: rest) =
      .error (.malformed .unclosedString (.ofList tail) (.upTo (offset + byteSize ('(' :: rest)) tail)) := by
  rw [itemsOf, if_neg (by decide), if_pos rfl, h]
  simp only
  split <;> simp_all

/-- A group without its `)` is at fault as a whole. -/
theorem itemsOf_openGroup {limit : Option Nat} {depth : Nat} (h : passed? limit depth = none) {rest : List Char}
    (hc : Closing.find 0 none rest = .openGroup) (offset : Nat) :
    itemsOf limit depth offset ('(' :: rest) =
      .error (.malformed .unclosedGroup (.ofList ('(' :: rest)) (.over offset ('(' :: rest))) := by
  rw [itemsOf, if_neg (by decide), if_pos rfl, h]
  simp only
  split <;> simp_all

/-- A group is its inside, read one level deeper, and after it comes what follows its `)`. -/
theorem itemsOf_group {limit : Option Nat} {depth : Nat} (h : passed? limit depth = none) {rest inside after : List Char}
    (hc : Closing.find 0 none rest = .closed inside after) (offset : Nat) :
    itemsOf limit depth offset ('(' :: rest) = do
      let members ← itemsOf limit (depth + 1) (offset + 1) inside
      let span := Span.over offset ('(' :: inside ++ [')'])
      let others ← itemsOf limit depth span.stop after
      return .group members span :: others := by
  rw [itemsOf, if_neg (by decide), if_pos rfl, h]
  simp only
  split <;> simp_all

/-- A word is an item, and after it comes what follows it. -/
theorem itemsOf_word {c : Char} {rest after : List Char} {word : Word} (hb : isBlank c = false) (hc : c ≠ '(')
    (h : Word.read c rest = .ok (word, after)) (limit : Option Nat) (depth offset : Nat) :
    itemsOf limit depth offset (c :: rest) = do
      let span := Span.over offset word.covered
      let others ← itemsOf limit depth span.stop after
      return .atom word.kind (.ofList word.text) span :: others := by
  rw [itemsOf, if_neg (by simp [hb]), if_neg hc]
  split <;> simp_all

/-- Where no word can be read, the characters at fault are those the reading names. -/
theorem itemsOf_fault {c : Char} {rest covered : List Char} {fault : Fault} (hb : isBlank c = false) (hc : c ≠ '(')
    (h : Word.read c rest = .error (fault, covered)) (limit : Option Nat) (depth offset : Nat) :
    itemsOf limit depth offset (c :: rest) = .error (.malformed fault (.ofList covered) (.over offset covered)) := by
  rw [itemsOf, if_neg (by simp [hb]), if_neg hc]
  split <;> simp_all

end RuleLang
