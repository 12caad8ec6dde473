import RuleLang.Item.Closing

/-!
# Strings and parentheses

What is known of a text by following its strings and parentheses alone, as the search for the `)` of a group does. A place is what
is open at some point of a text, and `Place.reach?` follows a text from one place to another. A text that leads from outside of
strings back there, with every parenthesis closed that it opens, is balanced, and a group whose inside is balanced closes right
after it (`Closing.find_of_balanced`).
-/

namespace RuleLang

/-- What is open at a point of a text: the quote of a string, if one is open, and a number of parentheses. -/
structure Place where
  quote? : Option Char
  opened : Nat
  deriving DecidableEq, Repr

namespace Place

/-- Outside of strings, inside `opened` parentheses. -/
def inside (opened : Nat) : Place := ⟨none, opened⟩

/-- The place after one more character. There is none after a `)` that closes nothing. -/
def next? (p : Place) (c : Char) : Option Place :=
  match p.quote? with
  | some quote => some ⟨if c = quote then none else some quote, p.opened⟩
  | none =>
    if isQuote c then some ⟨some c, p.opened⟩
    else if c = '(' then some ⟨none, p.opened + 1⟩
    else if c = ')' then
      match p.opened with
      | 0 => none
      | n + 1 => some ⟨none, n⟩
    else some p

/-- The place after a text, unless the text closes a parenthesis that is not open. -/
def reach? (p : Place) : List Char → Option Place
  | [] => some p
  | c :: text => (p.next? c).bind (·.reach? text)

theorem reach?_cons (p : Place) (c : Char) (text : List Char) : p.reach? (c :: text) = (p.next? c).bind (·.reach? text) := rfl

theorem reach?_append (p : Place) (a b : List Char) : p.reach? (a ++ b) = (p.reach? a).bind (·.reach? b) := by
  induction a generalizing p with
  | nil => rfl
  | cons c a ih =>
    rw [List.cons_append, reach?_cons, reach?_cons, Option.bind_assoc]
    exact congrArg _ (funext fun q => ih q)

/-- The character is neither a quote nor a parenthesis. -/
def Plain (c : Char) : Prop := isQuote c = false ∧ c ≠ '(' ∧ c ≠ ')'

/-- The characters of a class are plain when the class holds neither quotes nor parentheses. -/
theorem plain_of_class {p : Char → Bool} (hp : ['\'', '"', '(', ')'].any p = false) {c : Char} (h : p c = true) :
    Plain c := by
  have hne : ∀ d ∈ ['\'', '"', '(', ')'], c ≠ d := by
    rintro d hd rfl
    exact List.any_eq_false.mp hp c hd h
  refine ⟨?_, hne '(' (by simp), hne ')' (by simp)⟩
  rw [isQuote, Bool.or_eq_false_iff, beq_eq_false_iff_ne, beq_eq_false_iff_ne]
  exact ⟨hne '\'' (by simp), hne '"' (by simp)⟩

theorem plain_of_all {text : List Char} (h : text.all (fun c => !(isQuote c || c == '(' || c == ')')) = true) {c : Char}
    (hc : c ∈ text) : Plain c := by
  have := List.all_eq_true.mp h c hc
  simp only [Bool.not_eq_true', Bool.or_eq_false_iff, beq_eq_false_iff_ne, ne_eq] at this
  exact ⟨this.1.1, this.1.2, this.2⟩

theorem next?_plain {c : Char} (h : Plain c) (n : Nat) : (inside n).next? c = some (inside n) := by
  obtain ⟨hq, ho, hc⟩ := h
  simp [next?, inside, hq, ho, hc]

theorem next?_open (n : Nat) : (inside n).next? '(' = some (inside (n + 1)) := rfl

theorem next?_close (n : Nat) : (inside (n + 1)).next? ')' = some (inside n) := rfl

theorem next?_quote {c : Char} (h : isQuote c = true) (n : Nat) : (inside n).next? c = some ⟨some c, n⟩ := by
  simp [next?, inside, h]

theorem next?_string (quote c : Char) (n : Nat) :
    (⟨some quote, n⟩ : Place).next? c = some ⟨if c = quote then none else some quote, n⟩ := rfl

/-- Outside of strings a character is a quote, a parenthesis, or plain. -/
theorem char_cases (c : Char) : isQuote c = true ∨ c = '(' ∨ c = ')' ∨ Plain c := by
  by_cases hq : isQuote c = true
  · exact Or.inl hq
  · by_cases ho : c = '('
    · exact Or.inr (Or.inl ho)
    · by_cases hc : c = ')'
      · exact Or.inr (Or.inr (Or.inl hc))
      · exact Or.inr (Or.inr (Or.inr ⟨Bool.eq_false_iff.mpr hq, ho, hc⟩))

/-- What one character does outside of strings: a quote opens a string, the parentheses count, and no other character matters. -/
theorem next?_inside_cases {n : Nat} {c : Char} {q : Place} (h : (inside n).next? c = some q) :
    (isQuote c = true ∧ q = ⟨some c, n⟩) ∨ (c = '(' ∧ q = inside (n + 1)) ∨
      (c = ')' ∧ ∃ m, n = m + 1 ∧ q = inside m) ∨ (Plain c ∧ q = inside n) := by
  rcases char_cases c with hq | rfl | rfl | hp
  · rw [next?_quote hq] at h
    exact Or.inl ⟨hq, (Option.some.inj h).symm⟩
  · exact Or.inr (Or.inl ⟨rfl, (Option.some.inj h).symm⟩)
  · cases n with
    | zero => cases h
    | succ m => exact Or.inr (Or.inr (Or.inl ⟨rfl, m, rfl, (Option.some.inj h).symm⟩))
  · rw [next?_plain hp] at h
    exact Or.inr (Or.inr (Or.inr ⟨hp, (Option.some.inj h).symm⟩))

/-- Outside of strings, only a `)` that closes nothing leads to no place. -/
theorem next?_inside_eq_none {n : Nat} {c : Char} (h : (inside n).next? c = none) : c = ')' ∧ n = 0 := by
  rcases char_cases c with hq | rfl | rfl | hp
  · rw [next?_quote hq] at h
    cases h
  · cases h
  · cases n with
    | zero => exact ⟨rfl, rfl⟩
    | succ m => cases h
  · rw [next?_plain hp] at h
    cases h

/-- The same place with `k` more parentheses open around it. -/
def raise (p : Place) (k : Nat) : Place := ⟨p.quote?, p.opened + k⟩

theorem next?_raise {p q : Place} {c : Char} (h : p.next? c = some q) (k : Nat) : (p.raise k).next? c = some (q.raise k) := by
  obtain ⟨quote?, n⟩ := p
  cases quote? with
  | some quote =>
    obtain rfl := Option.some.inj h
    rfl
  | none =>
    rcases next?_inside_cases h with ⟨hq, rfl⟩ | ⟨rfl, rfl⟩ | ⟨rfl, m, rfl, rfl⟩ | ⟨hc, rfl⟩
    · exact next?_quote hq (n + k)
    · simp [raise, inside, next?, isQuote, Nat.add_right_comm]
    · simp [raise, inside, next?, isQuote, Nat.add_right_comm m 1 k]
    · exact next?_plain hc (n + k)

/-- More parentheses around a text do not change what it opens and closes. -/
theorem reach?_raise {p q : Place} {text : List Char} (h : p.reach? text = some q) (k : Nat) :
    (p.raise k).reach? text = some (q.raise k) := by
  induction text generalizing p with
  | nil =>
    obtain rfl := Option.some.inj h
    rfl
  | cons c text ih =>
    obtain ⟨r, hr, h⟩ := Option.bind_eq_some_iff.mp h
    rw [reach?_cons, next?_raise hr, Option.bind_some, ih h]

/-- Characters that are neither quotes nor parentheses change nothing. -/
theorem reach?_plain {text : List Char} (h : ∀ c ∈ text, Plain c) (n : Nat) : (inside n).reach? text = some (inside n) := by
  induction text with
  | nil => rfl
  | cons c text ih =>
    rw [reach?_cons, next?_plain (h c (List.mem_cons_self ..)), Option.bind_some]
    exact ih fun d hd => h d (List.mem_cons_of_mem _ hd)

/-- Inside a string nothing but its quote counts. -/
theorem reach?_of_not_mem {quote : Char} {text : List Char} (h : quote ∉ text) (n : Nat) :
    (⟨some quote, n⟩ : Place).reach? text = some ⟨some quote, n⟩ := by
  induction text with
  | nil => rfl
  | cons c text ih =>
    have hc : c ≠ quote := fun hc => h (hc ▸ List.mem_cons_self ..)
    rw [reach?_cons, next?_string, if_neg hc, Option.bind_some]
    exact ih fun ht => h (List.mem_cons_of_mem _ ht)

/-- A whole string changes nothing. -/
theorem reach?_string {quote : Char} {text : List Char} (hq : isQuote quote = true) (ht : quote ∉ text) (n : Nat) :
    (inside n).reach? (quote :: (text ++ [quote])) = some (inside n) := by
  rw [reach?_cons, next?_quote hq, Option.bind_some, reach?_append, reach?_of_not_mem ht, Option.bind_some, reach?_cons,
    next?_string, if_pos rfl]
  rfl

end Place

/-- Outside of strings, the text closes what it opens and nothing else. -/
def Balanced (text : List Char) : Prop := ∀ n, (Place.inside n).reach? text = some (Place.inside n)

theorem balanced_singleton {c : Char} (h : Place.Plain c) : Balanced [c] :=
  Place.reach?_plain fun _ hd => List.mem_singleton.mp hd ▸ h

theorem balanced_append {a b : List Char} (ha : Balanced a) (hb : Balanced b) : Balanced (a ++ b) := by
  intro n
  rw [Place.reach?_append, ha n, Option.bind_some, hb n]

theorem balanced_group {text : List Char} (h : Balanced text) : Balanced ('(' :: (text ++ [')'])) := by
  intro n
  rw [Place.reach?_cons, Place.next?_open, Option.bind_some, Place.reach?_append, h (n + 1), Option.bind_some]
  rfl

namespace Closing

/-! ### What each front of a text makes of the search -/

theorem find_string (n : Nat) (quote : Char) (tail : List Char) (c : Char) (rest : List Char) :
    find n (some (quote, tail)) (c :: rest) = (find n (if c = quote then none else some (quote, tail)) rest).push c := rfl

theorem find_quote {c : Char} (h : isQuote c = true) (n : Nat) (rest : List Char) :
    find n none (c :: rest) = (find n (some (c, c :: rest)) rest).push c := by
  simp [find, h]

theorem find_open (n : Nat) (rest : List Char) : find n none ('(' :: rest) = (find (n + 1) none rest).push '(' := rfl

theorem find_close (n : Nat) (rest : List Char) : find (n + 1) none (')' :: rest) = (find n none rest).push ')' := rfl

theorem find_plain {c : Char} (h : Place.Plain c) (n : Nat) (rest : List Char) :
    find n none (c :: rest) = (find n none rest).push c := by
  obtain ⟨hq, ho, hc⟩ := h
  simp [find, hq, ho, hc]

/-- The string that is open after the character: its quote, and the text from that quote on. -/
def nextString? (string? : Option (Char × List Char)) (c : Char) (rest : List Char) : Option (Char × List Char) :=
  match string? with
  | some (quote, tail) => if c = quote then none else some (quote, tail)
  | none => if isQuote c then some (c, c :: rest) else none

/-- A string is open after a character because it was open before, or because the character is its quote. -/
theorem nextString?_eq_some_iff {string? : Option (Char × List Char)} {c quote : Char} {rest tail : List Char} :
    nextString? string? c rest = some (quote, tail) ↔
      (string? = some (quote, tail) ∧ c ≠ quote) ∨ (string? = none ∧ isQuote c = true ∧ c = quote ∧ c :: rest = tail) := by
  rcases string? with _ | ⟨quote', tail'⟩
  · simp [nextString?]
  · by_cases hc : c = quote' <;> grind [nextString?]

/-- The search takes a character as the place where it is does. -/
theorem find_cons {n : Nat} {string? : Option (Char × List Char)} {c : Char} {q : Place}
    (h : (⟨string?.map Prod.fst, n⟩ : Place).next? c = some q) (rest : List Char) :
    (nextString? string? c rest).map Prod.fst = q.quote? ∧
      find n string? (c :: rest) = (find q.opened (nextString? string? c rest) rest).push c := by
  rcases string? with _ | ⟨quote, tail⟩
  · rcases Place.next?_inside_cases h with ⟨hq, rfl⟩ | ⟨rfl, rfl⟩ | ⟨rfl, m, rfl, rfl⟩ | ⟨hc, rfl⟩
    · rw [find_quote hq, nextString?, if_pos hq]
      exact ⟨rfl, rfl⟩
    · exact ⟨rfl, rfl⟩
    · exact ⟨rfl, rfl⟩
    · rw [find_plain hc, nextString?, hc.1]
      exact ⟨rfl, rfl⟩
  · obtain rfl := Option.some.inj h
    refine ⟨?_, rfl⟩
    by_cases hc : c = quote
    · rw [nextString?, if_pos hc, if_pos hc]
      rfl
    · rw [nextString?, if_neg hc, if_neg hc]
      rfl

/-- The search ends at a character after which there is no place: the `)` of the group. -/
theorem find_stop {n : Nat} {string? : Option (Char × List Char)} {c : Char}
    (h : (⟨string?.map Prod.fst, n⟩ : Place).next? c = none) (rest : List Char) :
    n = 0 ∧ string? = none ∧ find n string? (c :: rest) = closed [] rest := by
  rcases string? with _ | ⟨quote, tail⟩
  · obtain ⟨rfl, rfl⟩ := Place.next?_inside_eq_none h
    exact ⟨rfl, rfl, rfl⟩
  · cases h

/-- The same closing, seen from the text `front` before. -/
def prepend (front : List Char) (closing : Closing) : Closing := front.foldr push closing

theorem prepend_cons (c : Char) (front : List Char) (closing : Closing) :
    closing.prepend (c :: front) = (closing.prepend front).push c := rfl

theorem prepend_closed (front inside after : List Char) :
    (closed inside after).prepend front = closed (front ++ inside) after := by
  induction front with
  | nil => rfl
  | cons c front ih =>
    rw [prepend_cons, ih]
    rfl

/-- The search for a `)` passes over a text that closes none of the parentheses open before it: if the text leads from `k` open
parentheses to `m`, then with `j` more around both it goes on with `j + m` of them. -/
theorem find_append {j k m : Nat} {string? : Option (Char × List Char)} {text : List Char}
    (h : (⟨string?.map Prod.fst, k⟩ : Place).reach? text = some (Place.inside m)) (rest : List Char) :
    find (j + k) string? (text ++ rest) = (find (j + m) none rest).prepend text := by
  induction text generalizing k string? with
  | nil =>
    obtain ⟨hs, rfl⟩ := Place.mk.inj (Option.some.inj h)
    rw [Option.map_eq_none_iff.mp hs]
    rfl
  | cons c text ih =>
    obtain ⟨p, hp, h⟩ := Option.bind_eq_some_iff.mp h
    have hraise := Place.next?_raise hp j
    rw [Place.raise, Nat.add_comm k] at hraise
    obtain ⟨hs, hfind⟩ := find_cons hraise (text ++ rest)
    rw [List.cons_append, prepend_cons, hfind, Place.raise, Nat.add_comm p.opened]
    rw [ih (by rw [hs]; exact h)]

/-- A group whose inside is balanced closes right after it. -/
theorem find_of_balanced {text : List Char} (h : Balanced text) (after : List Char) :
    find 0 none (text ++ ')' :: after) = closed text after := by
  have hf := @find_append 0 _ _ none _ (h 0) (')' :: after)
  rw [Nat.add_zero] at hf
  rw [hf, show find 0 none (')' :: after) = closed [] after from rfl, prepend_closed, List.append_nil]

end Closing

end RuleLang
