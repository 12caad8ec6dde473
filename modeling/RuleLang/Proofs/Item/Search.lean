import RuleLang.Proofs.Item.Place

/-!
# What the search for the end of a group finds

The search for the `)` of a group ends where following the strings and parentheses of the text does (`Closing.Agrees`). So the inside
of a group that closes is balanced (`Closing.balanced_of_find`), and so is every group in it: the search that begins at an inner `(`
succeeds within the inside of the outer group, and finds the same `)` however the text goes on (`Closing.find_inner`). Where a group
does not close because a string does not, the quote of that string does not come again (`Closing.exists_quote_of_openString`).
-/

namespace RuleLang

/-- A text is balanced when it is so outside of all parentheses. -/
theorem balanced_of_reach? {text : List Char} (h : (Place.inside 0).reach? text = some (.inside 0)) : Balanced text := by
  intro n
  have hr := Place.reach?_raise h n
  simpa [Place.raise, Place.inside] using hr

/-- What stands between two balanced texts, and makes one with the first, is balanced. -/
theorem balanced_of_append {a b : List Char} (ha : Balanced a) (h : Balanced (a ++ b)) : Balanced b := by
  intro n
  have hr := h n
  rwa [Place.reach?_append, ha n, Option.bind_some] at hr

namespace Closing

/-- The search came to the end that the place where it began leads to: to the `)` that closes one parenthesis more than are open, or
to the end of the text, inside a string or outside. -/
def Agrees (p : Place) (text : List Char) : Closing → Prop
  | closed inside _ => p.reach? inside = some (.inside 0)
  | openString _ => ∃ quote n, p.reach? text = some ⟨some quote, n⟩
  | openGroup => ∃ n, p.reach? text = some (.inside n)

theorem agrees_push {p q : Place} {c : Char} {text : List Char} {closing : Closing} (hc : p.next? c = some q)
    (h : closing.Agrees q text) : (closing.push c).Agrees p (c :: text) := by
  cases closing with
  | closed inside after =>
    rw [push, Agrees, Place.reach?_cons, hc]
    exact h
  | openString tail =>
    rw [push, Agrees, Place.reach?_cons, hc]
    exact h
  | openGroup =>
    rw [push, Agrees, Place.reach?_cons, hc]
    exact h

/-- The search agrees with the strings and parentheses of the text. -/
theorem find_agrees (nested : Nat) (string? : Option (Char × List Char)) (text : List Char) :
    (find nested string? text).Agrees ⟨string?.map Prod.fst, nested⟩ text := by
  induction text generalizing nested string? with
  | nil =>
    rcases string? with _ | ⟨quote, tail⟩
    · exact ⟨nested, rfl⟩
    · exact ⟨quote, nested, rfl⟩
  | cons c text ih =>
    cases hp : (⟨string?.map Prod.fst, nested⟩ : Place).next? c with
    | none =>
      obtain ⟨rfl, rfl, hfind⟩ := find_stop hp text
      rw [hfind]
      rfl
    | some q =>
      obtain ⟨hs, hfind⟩ := find_cons hp text
      rw [hfind]
      refine agrees_push hp ?_
      have hrest := ih q.opened (nextString? string? c text)
      rwa [hs] at hrest

/-- The inside of a group that closes is balanced. -/
theorem balanced_of_find {text inside after : List Char} (h : find 0 none text = closed inside after) : Balanced inside := by
  have ha := find_agrees 0 none text
  rw [h] at ha
  exact balanced_of_reach? ha

/-- A text after a `(` that closes that parenthesis, and all others that are open, holds the end of the group. -/
theorem exists_closed_of_reach? {k : Nat} {text : List Char} (h : (Place.inside (k + 1)).reach? text = some (.inside 0)) :
    ∃ inside after, find 0 none text = closed inside after := by
  have ha := find_agrees 0 none text
  have hends : ∀ q, (Place.inside 0).reach? text = some q → q.raise (k + 1) = .inside 0 := by
    intro q hq
    have hr := Place.reach?_raise hq (k + 1)
    rw [show (Place.inside 0).raise (k + 1) = .inside (k + 1) by simp [Place.raise, Place.inside], h] at hr
    exact (Option.some.inj hr).symm
  cases hf : find 0 none text with
  | closed inside after => exact ⟨inside, after, rfl⟩
  | openString tail =>
    rw [hf] at ha
    obtain ⟨quote, n, hr⟩ := ha
    cases hends _ hr
  | openGroup =>
    rw [hf] at ha
    obtain ⟨n, hr⟩ := ha
    cases hends _ hr

/-- A group that closes does so in the same place however the text goes on. -/
theorem find_append_of_closed {text inside after : List Char} (h : find 0 none text = closed inside after) (more : List Char) :
    find 0 none (text ++ more) = closed inside (after ++ more) := by
  rw [find_closed h, List.append_assoc, List.cons_append, find_of_balanced (balanced_of_find h)]

/-- A `(` inside a group that closes, unless it stands in a string, begins a group that closes there: in the same place whether it is
looked for up to the end of the outer group or in any longer text. -/
theorem find_inner {text inside after front tail : List Char} {opened : Nat} (h : find 0 none text = closed inside after)
    (hi : inside = front ++ '(' :: tail) (hf : (Place.inside 0).reach? front = some (.inside opened)) :
    ∃ inner rest, find 0 none tail = closed inner rest ∧ ∀ more, find 0 none (tail ++ more) = closed inner (rest ++ more) := by
  have hb := balanced_of_find h 0
  rw [hi, Place.reach?_append, hf, Option.bind_some, Place.reach?_cons, Place.next?_open, Option.bind_some] at hb
  obtain ⟨inner, rest, hfind⟩ := exists_closed_of_reach? hb
  exact ⟨inner, rest, hfind, find_append_of_closed hfind⟩

/-- A balanced text that begins with a `(` is a group with a balanced inside, and then a balanced text. -/
theorem find_of_balanced_cons {rest : List Char} (h : Balanced ('(' :: rest)) :
    ∃ inside after, find 0 none rest = closed inside after ∧ Balanced inside ∧ Balanced after := by
  have hr := h 0
  rw [Place.reach?_cons, Place.next?_open, Option.bind_some] at hr
  obtain ⟨inside, after, hfind⟩ := exists_closed_of_reach? hr
  have hi := balanced_of_find hfind
  refine ⟨inside, after, hfind, hi, balanced_of_append (balanced_group hi) ?_⟩
  rw [List.cons_append, List.append_assoc, List.singleton_append, ← find_closed hfind]
  exact h

/-- The string in which a group does not close begins with a quote in the text, or is the one that was open before, and its quote does
not come again. -/
theorem exists_quote_of_openString {nested : Nat} {string? : Option (Char × List Char)} {text tail : List Char}
    (h : find nested string? text = openString tail) :
    (∃ front quote more, text = front ++ quote :: more ∧ tail = quote :: more ∧ isQuote quote = true ∧ quote ∉ more) ∨
      ∃ quote, string? = some (quote, tail) ∧ quote ∉ text := by
  induction text generalizing nested string? with
  | nil =>
    rcases string? with _ | ⟨quote, tail'⟩
    · cases h
    · cases h
      exact Or.inr ⟨quote, rfl, List.not_mem_nil⟩
  | cons c text ih =>
    cases hp : (⟨string?.map Prod.fst, nested⟩ : Place).next? c with
    | none =>
      rw [(find_stop hp text).2.2] at h
      cases h
    | some q =>
      rw [(find_cons hp text).2, push_eq_openString_iff] at h
      rcases ih h with ⟨front, quote, more, rfl, htail, hq, hm⟩ | ⟨quote, hs, hm⟩
      · exact Or.inl ⟨c :: front, quote, more, rfl, htail, hq, hm⟩
      · rcases nextString?_eq_some_iff.mp hs with ⟨hopen, hne⟩ | ⟨_, hq, rfl, rfl⟩
        · exact Or.inr ⟨quote, hopen, by simp [hm, hne.symm]⟩
        · exact Or.inl ⟨[], c, text, rfl, rfl, hq, hm⟩

end Closing

end RuleLang
