import Mathlib
import RuleLang.Proofs.CommandLine.Values
import RuleLang.Proofs.Item.Report
import RuleLang.Proofs.Text.Quoted

/-!
# Printed values as sources

A value is printed as a literal looks, and so what is printed can be given as a source. It is not always read as it was meant: the
printer escapes characters, while a source knows no escapes. Where characters are escaped the escapes are read as the string
(`evaluate_quoted`), and at the double quote of an escape the string ends for the reader. What follows never makes up for that: there
either a backslash stands outside of strings, which no source has (`Divided.isBare_of_mem`), or the text ends within a string
(`backslash_mem_unquoted`).
-/

namespace RuleLang

/-! ### The characters outside of strings -/

/-- The characters that a source has outside of strings: white space and those that items are spelled with. -/
def isBare (c : Char) : Bool := isBlank c || isNameChar c || ['$', '(', ')', '=', '!', '<', '>', '&', '|'].contains c

theorem isBare_of_isNameChar {c : Char} (h : isNameChar c = true) : isBare c = true := by
  simp [isBare, h]

theorem mem_of_mem_unquoted {quote? : Option Char} {text : List Char} {c : Char} (h : c ∈ unquoted quote? text) : c ∈ text := by
  induction text generalizing quote? with
  | nil => exact h
  | cons d text ih =>
    cases quote? with
    | some quote => exact List.mem_cons_of_mem d (ih h)
    | none =>
      by_cases hd : isQuote d = true
      · rw [unquoted_quote hd] at h
        exact List.mem_cons_of_mem d (ih h)
      · rw [unquoted_cons (Bool.eq_false_iff.mpr hd)] at h
        rcases List.mem_cons.mp h with rfl | h
        · exact List.mem_cons_self ..
        · exact List.mem_cons_of_mem d (ih h)

/-- A whole string has nothing outside of strings. -/
theorem unquoted_whole_string {quote : Char} {text : List Char} (hq : isQuote quote = true) (ht : quote ∉ text) :
    unquoted none (quote :: (text ++ [quote])) = [] := by
  rw [unquoted_quote hq, Place.unquoted_append (Place.reach?_of_not_mem ht 0) [quote], unquoted_of_not_mem ht, unquoted_string,
    if_pos rfl]
  rfl

theorem Atom.Spelled.isBare_of_mem {kind : Atom} {text covered : List Char} (h : kind.Spelled text covered) {c : Char}
    (hc : c ∈ unquoted none covered) : isBare c = true := by
  have hm := mem_of_mem_unquoted hc
  cases h with
  | string hq ht =>
    rw [unquoted_whole_string hq ht] at hc
    cases hc
  | integer _ hd => exact isBare_of_isNameChar (isNameChar_of_isDigit (hd c hm))
  | boolTrue => exact List.all_eq_true.mp (by decide) c hm
  | boolFalse => exact List.all_eq_true.mp (by decide) c hm
  | null => exact List.all_eq_true.mp (by decide) c hm
  | var _ hn =>
    rcases List.mem_cons.mp hm with rfl | hm
    · decide
    · exact isBare_of_isNameChar (hn c hm)
  | operator op => exact List.all_eq_true.mp (by cases op <;> decide) c hm

/-- Outside of strings a divided text has no other characters. -/
theorem Divided.isBare_of_mem {offset : Nat} {text : List Char} {items : List Item} (h : Divided offset text items) :
    ∀ c ∈ unquoted none text, isBare c = true := by
  induction h with
  | nil => nofun
  | @blank _ c rest _ hb _ ih =>
    rw [unquoted_cons (plain_of_isBlank hb).1]
    refine List.forall_mem_cons.mpr ⟨?_, ih⟩
    rw [isBare, hb, Bool.true_or, Bool.true_or]
  | @atom _ _ _ covered after _ hs _ _ ih =>
    have happend := Place.unquoted_append (hs.balanced 0) after
    simp only [Place.inside] at happend
    rw [happend]
    exact List.forall_mem_append.mpr ⟨fun c => hs.isBare_of_mem, ih⟩
  | @group _ inside after _ _ hm _ ihm iho =>
    have happend := Place.unquoted_append (hm.balanced 0) (')' :: after)
    simp only [Place.inside] at happend
    rw [unquoted_cons (by decide), happend, unquoted_cons (by decide)]
    exact List.forall_mem_cons.mpr ⟨by decide, List.forall_mem_append.mpr ⟨ihm, List.forall_mem_cons.mpr ⟨by decide, iho⟩⟩⟩

/-! ### Escaped texts -/

/-- A quote is in the written form of a character only if it is the character. -/
theorem EscapedAs.quote_not_mem {c quote : Char} {form : List Char} (h : EscapedAs c form) (hq : isQuote quote = true)
    (hc : c ≠ quote) : quote ∉ form := by
  have hquote : quote = '\'' ∨ quote = '"' := by simpa [isQuote] using hq
  cases h with
  | @short letter hshort =>
    have hletter : letter ≠ quote := by
      rintro rfl
      rcases hquote with rfl | rfl
      · exact absurd (mem_of_shortEscape? hshort) (by decide)
      · exact hc (shortEscape?_injective hshort rfl)
    have hslash : quote ≠ '\\' := by
      rintro rfl
      exact absurd hq (by decide)
    simp [hletter.symm, hslash]
  | byCode =>
    have hne : ∀ digit, Nat.digitChar digit ≠ quote := fun digit => Nat.digitChar_ne quote (by rcases hquote with rfl | rfl <;> decide)
    have hdigits : quote ∉ Nat.toDigits 16 c.toNat := not_mem_toDigits (by decide) hne _
    rcases hquote with rfl | rfl <;> simpa using hdigits
  | plain => simpa using hc.symm

theorem quote_not_mem_flatMap_escape {quote : Char} {text : List Char} (hq : isQuote quote = true) (h : quote ∉ text) :
    quote ∉ text.flatMap escape := by
  intro hm
  obtain ⟨c, hc, hm⟩ := List.mem_flatMap.mp hm
  exact (escapedAs_escape c).quote_not_mem hq (fun heq => h (heq ▸ hc)) hm

theorem length_le_flatMap_escape (text : List Char) : text.length ≤ (text.flatMap escape).length := by
  induction text with
  | nil => exact Nat.le_refl _
  | cons c text ih =>
    have hc := List.length_pos_of_ne_nil (escape_ne_nil c)
    rw [List.flatMap_cons, List.length_append, List.length_cons]
    omega

/-- A text is written as it is exactly when each of its characters is. -/
theorem flatMap_escape_eq_self_iff {text : List Char} : text.flatMap escape = text ↔ ∀ c ∈ text, escape c = [c] := by
  induction text with
  | nil => simp
  | cons c text ih =>
    rw [List.forall_mem_cons, ← ih, List.flatMap_cons]
    constructor
    · intro h
      -- the rest is not written shorter than it is, so that one character is left for the first
      have hlength := congrArg List.length h
      have hrest := length_le_flatMap_escape text
      have hfirst := List.length_pos_of_ne_nil (escape_ne_nil c)
      rw [List.length_append, List.length_cons] at hlength
      obtain ⟨d, hd⟩ := List.length_eq_one_iff.mp (show (escape c).length = 1 by omega)
      rw [hd] at h ⊢
      obtain ⟨rfl, hrest⟩ := List.cons.inj h
      exact ⟨rfl, hrest⟩
    · rintro ⟨hc, hrest⟩
      rw [hc, hrest]
      rfl

/-- The rendering of a text is the text between quotes exactly when none of its characters is escaped. -/
theorem quoted_eq_iff {text : String} : quoted text = "\"" ++ text ++ "\"" ↔ ∀ c ∈ text.toList, escape c = [c] := by
  rw [← flatMap_escape_eq_self_iff, ← String.toList_inj, toList_quoted, String.toList_append, String.toList_append]
  simp

/-- Outside of double quotes a character is written with a backslash outside of strings, or it leads to no double quotes either. -/
theorem backslash_mem_or_of_reach? {quote? : Option Char} {c : Char} {n : Nat} {q : Place}
    (hquote : quote? = none ∨ quote? = some '\'') (h : (⟨quote?, n⟩ : Place).reach? (escape c) = some q) :
    '\\' ∈ unquoted quote? (escape c) ∨ q.quote? = none ∨ q.quote? = some '\'' := by
  rcases hquote with rfl | rfl
  · have hform := escapedAs_escape c
    generalize escape c = form at h hform ⊢
    cases hform with
    | short => exact Or.inl (List.mem_cons_self ..)
    | byCode => exact Or.inl (List.mem_cons_self ..)
    | plain _ hdouble _ =>
      obtain ⟨r, hr, h⟩ := Option.bind_eq_some_iff.mp h
      obtain rfl := Option.some.inj h
      rcases Place.next?_inside_cases hr with ⟨hq, rfl⟩ | ⟨-, rfl⟩ | ⟨-, m, -, rfl⟩ | ⟨-, rfl⟩
      · simp only [isQuote, Bool.or_eq_true, beq_iff_eq, hdouble, or_false] at hq
        rw [hq]
        exact Or.inr (Or.inr rfl)
      all_goals exact Or.inr (Or.inl rfl)
  · by_cases hc : c = '\''
    · rw [hc, show escape '\'' = ['\''] from by decide +kernel] at h
      obtain rfl := Option.some.inj h
      exact Or.inr (Or.inl rfl)
    · rw [Place.reach?_of_not_mem ((escapedAs_escape c).quote_not_mem rfl hc)] at h
      obtain rfl := Option.some.inj h
      exact Or.inr (Or.inr rfl)

/-- Outside of double quotes, a text that is written with a double quote behind it has a backslash outside of strings, unless it ends
within a string. -/
theorem backslash_mem_unquoted {quote? : Option Char} {text : List Char} {n m : Nat} (hquote : quote? = none ∨ quote? = some '\'')
    (h : (⟨quote?, n⟩ : Place).reach? (text.flatMap escape ++ ['"']) = some (Place.inside m)) :
    '\\' ∈ unquoted quote? (text.flatMap escape ++ ['"']) := by
  induction text generalizing quote? n with
  | nil =>
    have hne : (⟨quote?, n⟩ : Place).reach? ['"'] ≠ some (Place.inside m) := by
      rcases hquote with rfl | rfl <;> nofun
    exact absurd h hne
  | cons c text ih =>
    rw [List.flatMap_cons, List.append_assoc] at h ⊢
    rw [Place.reach?_append] at h
    obtain ⟨q, hq, h⟩ := Option.bind_eq_some_iff.mp h
    have happend := Place.unquoted_append hq (text.flatMap escape ++ ['"'])
    simp only at happend
    rw [happend, List.mem_append]
    rcases backslash_mem_or_of_reach? hquote hq with hslash | hquote'
    · exact Or.inl hslash
    · exact Or.inr (ih hquote' h)

/-- A rendered text with a double quote in it has no items: its first escape of a double quote ends the string. -/
theorem not_divided_quoted {text : String} (h : '"' ∈ text.toList) {offset : Nat} {items : List Item} :
    ¬Divided offset (quoted text).toList items := by
  intro hdiv
  obtain ⟨front, back, htext, hfront⟩ := List.eq_append_cons_of_mem h
  have hstring : '"' ∉ front.flatMap escape ++ ['\\'] := by
    rw [List.mem_append, not_or]
    exact ⟨quote_not_mem_flatMap_escape rfl hfront, by decide⟩
  have hquoted : (quoted text).toList =
      ('"' :: (front.flatMap escape ++ ['\\'] ++ ['"'])) ++ (back.flatMap escape ++ ['"']) := by
    rw [toList_quoted, htext, List.flatMap_append, List.flatMap_cons, show escape '"' = ['\\', '"'] from rfl]
    simp
  have hreach := hdiv.balanced 0
  have hbare := hdiv.isBare_of_mem '\\'
  rw [hquoted, Place.reach?_append, Place.reach?_string rfl hstring] at hreach
  have happend := Place.unquoted_append (Place.reach?_string (n := 0) rfl hstring) (back.flatMap escape ++ ['"'])
  simp only [Place.inside] at happend
  rw [hquoted, happend, unquoted_whole_string rfl hstring] at hbare
  exact absurd (hbare (backslash_mem_unquoted (Or.inl rfl) hreach)) (by decide)

/-! ### Printed values read -/

/-- A rendered text without double quotes in it is read as the escaped text. -/
theorem evaluate_quoted {text : String} (h : '"' ∉ text.toList) (bindings : Bindings) :
    evaluate (quoted text) bindings = .ok (.string (.ofList (text.toList.flatMap escape))) :=
  evaluate_spelled_literal (.string rfl (quote_not_mem_flatMap_escape rfl h)) (fun _ => rfl) bindings

/-- A value that is printed without escapes is read back. -/
theorem evaluate_display_of_unescaped {v : Value} (h : ∀ text, v = .string text → quoted text = "\"" ++ text ++ "\"")
    (bindings : Bindings) : evaluate v.display bindings = .ok v := by
  cases v with
  | null => exact evaluate_spelled_literal .null (fun _ => rfl) bindings
  | integer n =>
    obtain ⟨hne, hdigits⟩ := ofDigits?_isSome_iff.mp (Option.isSome_of_mem (ofDigits?_decimal n))
    have hspelled := Atom.Spelled.integer hne hdigits
    rw [Value.display, ← String.ofList_toList (s := decimal n)]
    refine evaluate_spelled_literal hspelled (fun span => ?_) bindings
    simp only [Leaf.value, String.ofList_toList, ofDigits?_decimal]
  | string text =>
    have hplain := quoted_eq_iff.mp (h text rfl)
    have hquote : '"' ∉ text.toList := fun hm => absurd (hplain '"' hm) (by decide)
    rw [Value.display, evaluate_quoted hquote, flatMap_escape_eq_self_iff.mpr hplain, String.ofList_toList]
  | bool b =>
    cases b with
    | true => exact evaluate_spelled_literal .boolTrue (fun _ => rfl) bindings
    | false => exact evaluate_spelled_literal .boolFalse (fun _ => rfl) bindings

/-- What comes of a printed value as a source. Null, a truth value, an integer and a string that is printed without escapes are read
back. A string without double quotes that is printed with escapes is read as another string, the escaped text. A string with a double
quote is not read, however it goes on: its printed form has no items. None of this depends on the table. -/
theorem evaluate_display (bindings : Bindings) :
    (∀ v : Value, (∀ text, v = .string text → quoted text = "\"" ++ text ++ "\"") → evaluate v.display bindings = .ok v) ∧
    (∀ text : String, '"' ∉ text.toList → (∃ c ∈ text.toList, escape c ≠ [c]) →
      ∃ escaped, quoted text = "\"" ++ escaped ++ "\"" ∧ escaped ≠ text ∧
        evaluate (Value.string text).display bindings = .ok (.string escaped)) ∧
    ∀ text : String, '"' ∈ text.toList → ∃ error, evaluate (Value.string text).display bindings = .error (.lex error) := by
  refine ⟨fun v h => evaluate_display_of_unescaped h bindings, ?_, ?_⟩
  · rintro text hquote ⟨c, hc, hescaped⟩
    refine ⟨.ofList (text.toList.flatMap escape), ?_, ?_, evaluate_quoted hquote bindings⟩
    · rw [← String.toList_inj]
      simp only [toList_quoted, String.toList_append, String.toList_ofList]
      rfl
    · intro heq
      have hlist := congrArg String.toList heq
      rw [String.toList_ofList] at hlist
      exact hescaped (flatMap_escape_eq_self_iff.mp hlist c hc)
  · intro text hquote
    cases hlex : lex (quoted text) with
    | ok items => exact absurd (lex_eq_ok_iff.mp hlex).1 (not_divided_quoted hquote)
    | error error => exact ⟨error, by rw [Value.display, evaluate, compile, hlex]⟩

/-- A number of more than 64 bits and a text with a single quote are read back, a backslash is read as two, and a text whose double quote
stands between single ones is not read. -/
theorem evaluate_display_cases :
    evaluate (Value.integer (2 ^ 64)).display ∅ = .ok (.integer (2 ^ 64)) ∧
      (quoted "it's" = "\"" ++ "it's" ++ "\"" ∧ evaluate (Value.string "it's").display ∅ = .ok (.string "it's")) ∧
      ('"' ∉ "a\\b".toList ∧ evaluate (Value.string "a\\b").display ∅ = .ok (.string "a\\\\b")) ∧
      '"' ∈ "'\"'".toList ∧ ∃ error, evaluate (Value.string "'\"'").display ∅ = .error (.lex error) := by
  obtain ⟨hback, hescaped, hlex⟩ := evaluate_display ∅
  have hplain : quoted "it's" = "\"" ++ "it's" ++ "\"" := by
    rw [quoted_eq_iff, ← flatMap_escape_eq_self_iff, show "it's".toList = ['i', 't', '\'', 's'] from rfl]
    decide +kernel
  have hslash : '"' ∉ "a\\b".toList := by simp
  have hquote : '"' ∈ "'\"'".toList := by simp
  refine ⟨hback _ nofun, ⟨hplain, hback _ ?_⟩, ⟨hslash, ?_⟩, hquote, hlex _ hquote⟩
  · intro text htext
    obtain rfl := Value.string.inj htext
    exact hplain
  · obtain ⟨escaped, hquoted, -, hvalue⟩ := hescaped "a\\b" hslash ⟨'\\', by simp, by decide⟩
    have hform : ['a', '\\', 'b'].flatMap escape = ['a', '\\', '\\', 'b'] := by decide +kernel
    have hlist := congrArg String.toList hquoted
    rw [toList_quoted, show "a\\b".toList = ['a', '\\', 'b'] from rfl, hform, String.toList_append, String.toList_append] at hlist
    have hlist' : escaped.toList = "a\\\\b".toList := (List.append_cancel_left (List.append_cancel_right hlist)).symm
    rw [hvalue, String.toList_inj.mp hlist']

end RuleLang
