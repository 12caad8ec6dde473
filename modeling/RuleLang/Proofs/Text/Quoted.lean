import RuleLang.Value

/-!
# What a written text denotes

A value is printed on one line, and two values are never printed alike: a quoted text can be read back character by character, since
no escape is the beginning of another one, and the digits of a number tell the number.
-/

namespace RuleLang

/-! ### Texts divided at a mark -/

theorem bne_of_not_mem {mark : Char} {front : List Char} (h : mark ∉ front) : ∀ c ∈ front, (c != mark) = true :=
  fun _ hm => bne_iff_ne.mpr fun heq => h (heq ▸ hm)

theorem takeWhile_append_mark {mark : Char} {front back : List Char} (h : mark ∉ front) :
    (front ++ mark :: back).takeWhile (· != mark) = front := by
  rw [List.takeWhile_append_of_pos (bne_of_not_mem h), List.takeWhile_cons_of_neg (by simp), List.append_nil]

theorem dropWhile_append_mark {mark : Char} {front back : List Char} (h : mark ∉ front) :
    (front ++ mark :: back).dropWhile (· != mark) = mark :: back := by
  rw [List.dropWhile_append_of_pos (bne_of_not_mem h), List.dropWhile_cons_of_neg (by simp)]

/-- Texts that agree agree on what stands before the first mark and on what comes after it. -/
theorem append_mark_inj {mark : Char} {front front' back back' : List Char} (hf : mark ∉ front) (hf' : mark ∉ front')
    (h : front ++ mark :: back = front' ++ mark :: back') : front = front' ∧ back = back' := by
  have htake := congrArg (List.takeWhile (· != mark)) h
  have hdrop := congrArg (List.dropWhile (· != mark)) h
  rw [takeWhile_append_mark hf, takeWhile_append_mark hf'] at htake
  rw [dropWhile_append_mark hf, dropWhile_append_mark hf'] at hdrop
  exact ⟨htake, (List.cons.inj hdrop).2⟩

/-! ### Texts of one line -/

/-- The text has no line break. -/
def OneLine (text : String) : Prop := '\n' ∉ text.toList

instance (text : String) : Decidable (OneLine text) := inferInstanceAs (Decidable (_ ∉ _))

theorem oneLine_append_iff {text text' : String} : OneLine (text ++ text') ↔ OneLine text ∧ OneLine text' := by
  rw [OneLine, String.toList_append, List.mem_append, not_or]
  rfl

/-! ### Digits -/

/-- A character that is no digit is not among the digits of a number. -/
theorem not_mem_toDigits {base : Nat} (hb : 1 < base) {c : Char} (hc : ∀ digit, Nat.digitChar digit ≠ c) (n : Nat) :
    c ∉ Nat.toDigits base n := by
  induction n using Nat.strongRecOn with
  | ind n ih =>
    rw [Nat.toDigits_eq_if hb]
    split
    · exact fun hm => hc n (List.mem_singleton.mp hm).symm
    · intro hm
      rcases List.mem_append.mp hm with hm | hm
      · exact ih (n / base) (Nat.div_lt_self (by omega) hb) hm
      · exact hc (n % base) (List.mem_singleton.mp hm).symm

theorem digitChar_injective {d e : Nat} (hd : d < 16) (he : e < 16) (h : Nat.digitChar d = Nat.digitChar e) : d = e := by
  have hall : ∀ d < 16, ∀ e < 16, Nat.digitChar d = Nat.digitChar e → d = e := by decide
  exact hall d hd e he h

/-- No two numbers have the same digits. -/
theorem toDigits_injective {base m n : Nat} (hb : 1 < base) (hb' : base ≤ 16) (h : Nat.toDigits base m = Nat.toDigits base n) :
    m = n := by
  induction m using Nat.strongRecOn generalizing n with
  | ind m ih =>
    -- a number has one digit exactly when it is below the base, so both have one or neither
    have hone : m < base ↔ n < base := by
      rw [← Nat.pow_one base, ← Nat.length_toDigits_le_iff hb Nat.one_pos, ← Nat.length_toDigits_le_iff hb Nat.one_pos, h]
    by_cases hm : m < base
    · rw [Nat.toDigits_of_lt_base hm, Nat.toDigits_of_lt_base (hone.mp hm)] at h
      exact digitChar_injective (Nat.lt_of_lt_of_le hm hb') (Nat.lt_of_lt_of_le (hone.mp hm) hb') (List.cons.inj h).1
    · have hm' : base ≤ m := Nat.le_of_not_lt hm
      have hn' : base ≤ n := Nat.le_of_not_lt fun hn => hm (hone.mpr hn)
      rw [Nat.toDigits_of_base_le hb hm', Nat.toDigits_of_base_le hb hn'] at h
      obtain ⟨hfront, hlast⟩ := List.append_inj' h rfl
      have hdiv : m / base = n / base := ih (m / base) (Nat.div_lt_self (by omega) hb) hfront
      have hlt : ∀ k, k % base < 16 := fun k => Nat.lt_of_lt_of_le (Nat.mod_lt k (by omega)) hb'
      have hmod : m % base = n % base := digitChar_injective (hlt m) (hlt n) (List.cons.inj hlast).1
      rw [← Nat.div_add_mod m base, ← Nat.div_add_mod n base, hdiv, hmod]

theorem oneLine_decimal (n : Nat) : OneLine (decimal n) := by
  rw [OneLine, decimal, String.toList_ofList]
  exact not_mem_toDigits (by decide) (fun _ => Nat.digitChar_ne '\n' (by decide)) n

/-! ### Escapes -/

theorem shortEscape?_injective {c d letter : Char} (hc : shortEscape? c = some letter) (hd : shortEscape? d = some letter) :
    c = d := by
  unfold shortEscape? at hc hd
  split at hc <;> split at hd <;> simp only [Option.some.injEq, reduceCtorEq] at hc hd <;>
    first | rfl | exact absurd (hc.trans hd.symm) (by decide)

theorem mem_of_shortEscape? {c letter : Char} (h : shortEscape? c = some letter) :
    letter ∈ ['0', 't', 'r', 'n', '"', '\\'] := by
  unfold shortEscape? at h
  split at h <;> simp only [Option.some.injEq, reduceCtorEq] at h <;> subst h <;> decide

/-- The three ways in which a character is written. Only the third does not begin with a backslash. -/
inductive EscapedAs (c : Char) : List Char → Prop where
  | short {letter : Char} (hc : shortEscape? c = some letter) : EscapedAs c ['\\', letter]
  | byCode : EscapedAs c (['\\', 'u', '{'] ++ Nat.toDigits 16 c.toNat ++ ['}'])
  | plain (hslash : c ≠ '\\') (hquote : c ≠ '"') (hline : c ≠ '\n') : EscapedAs c [c]

theorem escapedAs_escape (c : Char) : EscapedAs c (escape c) := by
  unfold escape
  split
  · rename_i letter hc
    exact .short hc
  · rename_i hc
    split
    · exact .byCode
    · refine .plain ?_ ?_ ?_ <;> rintro rfl <;> simp [shortEscape?] at hc

/-- The quote that ends a text does not begin the written form of a character. -/
theorem EscapedAs.not_quote_cons {c : Char} {rest : List Char} : ¬EscapedAs c ('"' :: rest) := by
  intro h
  cases h with
  | plain _ hquote => exact hquote rfl

theorem EscapedAs.newline_not_mem {c : Char} {form : List Char} (h : EscapedAs c form) : '\n' ∉ form := by
  cases h with
  | short hc =>
    have hletter := mem_of_shortEscape? hc
    rintro (_ | ⟨_, _ | ⟨_, hm⟩⟩)
    · exact absurd hletter (by decide)
    · cases hm
  | byCode =>
    intro hm
    simp only [List.mem_append, List.mem_cons, List.not_mem_nil, or_false] at hm
    rcases hm with (hm | hm) | hm
    · exact absurd hm (by decide)
    · exact not_mem_toDigits (by decide) (fun _ => Nat.digitChar_ne '\n' (by decide)) _ hm
    · exact absurd hm (by decide)
  | plain _ _ hline => simpa using hline.symm

/-- What a character is written as tells the character, and where it ends. -/
theorem EscapedAs.append_inj {c d : Char} {form form' rest rest' : List Char} (hc : EscapedAs c form) (hd : EscapedAs d form')
    (h : form ++ rest = form' ++ rest') : c = d ∧ rest = rest' := by
  cases hc with
  | short hc =>
    cases hd with
    | short hd =>
      simp only [List.cons_append, List.nil_append, List.cons.injEq, true_and] at h
      obtain ⟨rfl, hrest⟩ := h
      exact ⟨shortEscape?_injective hc hd, hrest⟩
    | byCode =>
      simp only [List.cons_append, List.nil_append, List.cons.injEq, true_and] at h
      exact absurd (h.1 ▸ mem_of_shortEscape? hc) (by decide)
    | plain hslash => exact absurd (List.cons.inj h).1.symm hslash
  | byCode =>
    cases hd with
    | short hd =>
      simp only [List.cons_append, List.nil_append, List.cons.injEq, true_and] at h
      exact absurd (h.1 ▸ mem_of_shortEscape? hd) (by decide)
    | byCode =>
      simp only [List.cons_append, List.nil_append, List.append_assoc, List.cons.injEq, true_and] at h
      have hbrace : ∀ n, '}' ∉ Nat.toDigits 16 n := not_mem_toDigits (by decide) fun _ => Nat.digitChar_ne '}' (by decide)
      obtain ⟨hdigits, hrest⟩ := append_mark_inj (hbrace _) (hbrace _) h
      exact ⟨Char.toNat_inj.mp (toDigits_injective (by decide) (by decide) hdigits), hrest⟩
    | plain hslash => exact absurd (List.cons.inj h).1.symm hslash
  | plain hslash =>
    cases hd with
    | short => exact absurd (List.cons.inj h).1 hslash
    | byCode => exact absurd (List.cons.inj h).1 hslash
    | plain => exact List.cons.inj h

/-- The closing quote is told from the characters of a text: none of them is written with a quote first. -/
theorem quote_cons_ne_flatMap_escape {d : Char} {text text' rest : List Char} :
    '"' :: rest ≠ (d :: text').flatMap escape ++ text := by
  intro h
  rw [List.flatMap_cons, List.append_assoc] at h
  cases hd : escape d with
  | nil => exact escape_ne_nil d hd
  | cons first form =>
    rw [hd] at h
    obtain ⟨rfl, -⟩ := List.cons.inj h
    exact EscapedAs.not_quote_cons (hd ▸ escapedAs_escape d)

/-- Escapes followed by the closing quote can be read back. -/
theorem flatMap_escape_injective {text text' : List Char}
    (h : text.flatMap escape ++ ['"'] = text'.flatMap escape ++ ['"']) : text = text' := by
  induction text generalizing text' with
  | nil =>
    cases text' with
    | nil => rfl
    | cons d text' => exact absurd h quote_cons_ne_flatMap_escape
  | cons c text ih =>
    cases text' with
    | nil => exact absurd h.symm quote_cons_ne_flatMap_escape
    | cons d text' =>
      rw [List.flatMap_cons, List.flatMap_cons, List.append_assoc, List.append_assoc] at h
      obtain ⟨rfl, hrest⟩ := (escapedAs_escape c).append_inj (escapedAs_escape d) h
      rw [ih hrest]

theorem quoted_injective {text text' : String} (h : quoted text = quoted text') : text = text' := by
  have hlist := congrArg String.toList h
  rw [toList_quoted, toList_quoted, List.append_assoc, List.append_assoc] at hlist
  exact String.toList_inj.mp (flatMap_escape_injective (List.cons.inj hlist).2)

/-- A text that does not begin with a double quote is not a quoted one. -/
theorem quoted_ne {text other : String} (h : other.toList.head? ≠ some '"') : quoted text ≠ other := by
  rintro rfl
  rw [toList_quoted] at h
  exact h rfl

/-- A quoted text stands on one line, whatever the text is. -/
theorem oneLine_quoted (text : String) : OneLine (quoted text) := by
  rw [OneLine, toList_quoted]
  intro hm
  simp only [List.mem_append, List.mem_singleton, List.mem_flatMap] at hm
  rcases hm with (hm | ⟨c, _, hm⟩) | hm
  · exact absurd hm (by decide)
  · exact (escapedAs_escape c).newline_not_mem hm
  · exact absurd hm (by decide)

/-! ### Values -/

namespace Value

/-- A printed value is an integer exactly when it reads as one. -/
theorem ofDigits?_display (v : Value) : ofDigits? v.display = match v with
    | integer n => some n
    | _ => none := by
  cases v with
  | null => decide
  | integer n => exact ofDigits?_decimal n
  | string text =>
    rw [display, ofDigits?, toList_quoted]
    rfl
  | bool b => cases b <;> decide

/-- No two values are printed alike. Integers are told from the others by their digits, and strings by their quote. -/
theorem display_injective {v w : Value} (h : v.display = w.display) : v = w := by
  have hdigits := congrArg ofDigits? h
  rw [ofDigits?_display, ofDigits?_display] at hdigits
  cases v with
  | null =>
    cases w with
    | null => rfl
    | integer n => cases hdigits
    | string text => exact absurd h.symm (quoted_ne (by decide))
    | bool b => cases b <;> exact absurd h (by decide)
  | integer m =>
    cases w with
    | integer n => rw [Option.some.inj hdigits]
    | _ => cases hdigits
  | string text =>
    cases w with
    | null => exact absurd h (quoted_ne (by decide))
    | integer n => cases hdigits
    | string text' => rw [quoted_injective h]
    | bool b => cases b <;> exact absurd h (quoted_ne (by decide))
  | bool b =>
    cases w with
    | null => cases b <;> exact absurd h (by decide)
    | integer n => cases hdigits
    | string text => cases b <;> exact absurd h.symm (quoted_ne (by decide))
    | bool b' => cases b <;> cases b' <;> first | rfl | exact absurd h (by decide)

end Value

end RuleLang
