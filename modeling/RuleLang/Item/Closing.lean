import RuleLang.Text.Class

/-!
# Where a group closes

The `)` that closes a group is found before anything inside the group is read. Groups inside are counted, and a parenthesis
inside a string counts as nothing: the search follows the strings, but it looks at no other item. When it succeeds, the text
after the `(` is the inside of the group, the `)` and what follows (`Closing.find_closed`).
-/

namespace RuleLang

/-- How the text after a `(` goes on: the group closes, with a text inside and a text after its `)`; or the text ends inside
a string, of which all from the quote on is given; or the text ends outside of strings. -/
inductive Closing where
  | closed (inside after : List Char)
  | openString (tail : List Char)
  | openGroup
  deriving DecidableEq, Repr

namespace Closing

/-- The same closing, seen from one character before. -/
def push (c : Char) : Closing → Closing
  | closed inside after => closed (c :: inside) after
  | openString tail => openString tail
  | openGroup => openGroup

/-- Finds the `)` of a group in the text after its `(`. Of the groups inside, `nested` are open; `string?` is the quote of the
string that is open and the text from that quote on. -/
def find (nested : Nat) (string? : Option (Char × List Char)) : List Char → Closing
  | [] => string?.elim openGroup fun (_, tail) => openString tail
  | c :: rest =>
    match string? with
    | some (quote, tail) => (find nested (if c = quote then none else some (quote, tail)) rest).push c
    | none =>
      if isQuote c then (find nested (some (c, c :: rest)) rest).push c
      else if c = '(' then (find (nested + 1) none rest).push c
      else if c = ')' then
        match nested with
        | 0 => closed [] rest
        | n + 1 => (find n none rest).push c
      else (find nested none rest).push c

theorem push_eq_closed_iff {c : Char} {closing : Closing} {inside after : List Char} :
    closing.push c = closed inside after ↔ ∃ inside', inside = c :: inside' ∧ closing = closed inside' after := by
  constructor
  · intro h
    cases closing with
    | closed inside' after' =>
      obtain ⟨rfl, rfl⟩ := closed.inj h
      exact ⟨inside', rfl, rfl⟩
    | openString tail => cases h
    | openGroup => cases h
  · rintro ⟨inside', rfl, rfl⟩
    rfl

theorem push_eq_openString_iff {c : Char} {closing : Closing} {tail : List Char} :
    closing.push c = openString tail ↔ closing = openString tail := by
  cases closing <;> simp [push]

/-- A group that closes divides the text after its `(`. -/
theorem find_closed {nested : Nat} {string? : Option (Char × List Char)} {text inside after : List Char}
    (h : find nested string? text = closed inside after) : text = inside ++ ')' :: after := by
  induction text generalizing nested string? inside with
  | nil => cases string? <;> simp [find] at h
  | cons c rest ih =>
    have step : ∀ {n q}, (find n q rest).push c = closed inside after → c :: rest = inside ++ ')' :: after := by
      intro n q hp
      obtain ⟨inside', rfl, hf⟩ := push_eq_closed_iff.mp hp
      rw [ih hf]
      rfl
    unfold find at h
    split at h
    · exact step h
    · split at h
      · exact step h
      · split at h
        · exact step h
        · split at h
          · rename_i hc
            split at h
            · obtain ⟨rfl, rfl⟩ := Closing.closed.inj h
              rw [hc]
              rfl
            · exact step h
          · exact step h

theorem length_inside_lt {nested : Nat} {string? : Option (Char × List Char)} {text inside after : List Char}
    (h : find nested string? text = closed inside after) : inside.length < text.length := by
  rw [find_closed h, List.length_append, List.length_cons]
  omega

theorem length_after_lt {nested : Nat} {string? : Option (Char × List Char)} {text inside after : List Char}
    (h : find nested string? text = closed inside after) : after.length < text.length := by
  rw [find_closed h, List.length_append, List.length_cons]
  omega

end Closing

end RuleLang
