import RuleLang.Proofs.Item.Division
import RuleLang.Proofs.Item.Search

/-!
# Where a text has no items

What can be wrong with the front of a text, said of the text (`Word.Misspelled`, `FaultyFront`), and where such a front is: past
items and groups that are read, inside groups that close (`Within`). Where reading fails, the text has such a front (`hasFault_of_itemsOf`).

The inside of a group is known to be balanced before it is read, so no string and no group can be open at its end and no parenthesis
in it is left over. The faults that are about these are therefore found at the top level alone, and the search for the `)` of a group
and the reading of its inside never disagree (`search_agrees_with_reading`).
-/

namespace RuleLang

/-! ### Fronts that begin no word -/

namespace Word

/-- The text begins with no word, and the characters at fault are `covered`. -/
inductive Misspelled : Fault → (text covered : List Char) → Prop
  | string {quote : Char} {rest : List Char} : isQuote quote = true → quote ∉ rest →
      Misspelled .unclosedString (quote :: rest) (quote :: rest)
  | var {rest : List Char} : (∀ c, rest.head? = some c → isNameChar c = false) → Misspelled .emptyVariable ('$' :: rest) ['$']
  | close (rest : List Char) : Misspelled .unexpectedCloseParen (')' :: rest) [')']
  | unknown {c : Char} {rest : List Char} : c.isDigit = false → isQuote c = false → c ≠ '$' → c ≠ ')' →
      (∀ word ∈ fixed, ¬word.covered <+: c :: rest) →
      Misspelled .unknownToken (c :: rest) ((c :: rest).takeWhile (!isBlank ·))

theorem readFixed?_eq_none_iff {text : List Char} : readFixed? text = none ↔ ∀ word ∈ fixed, ¬word.covered <+: text := by
  simp only [readFixed?, List.findSome?_eq_none_iff, Option.map_eq_none_iff]
  constructor
  · rintro h word hm ⟨rest, hrest⟩
    have hnone := h word hm
    rw [after?_eq_some_iff.mpr hrest.symm] at hnone
    cases hnone
  · intro h word hm
    rw [Option.eq_none_iff_forall_ne_some]
    intro rest hrest
    exact h word hm ⟨rest, (after?_eq_some_iff.mp hrest).symm⟩

/-- Where no word can be read, the text begins with none. -/
theorem misspelled_of_read {c : Char} {rest covered : List Char} {fault : Fault} (h : read c rest = .error (fault, covered)) :
    Misspelled fault (c :: rest) covered := by
  unfold read at h
  split at h
  · cases h
  · rename_i hd
    split at h
    · rename_i hq
      split at h
      · rename_i hdrop
        cases h
        refine .string hq fun hm => ?_
        have hall := List.takeWhile_append_dropWhile (p := (· != c)) (l := rest)
        rw [hdrop, List.append_nil] at hall
        rw [← hall] at hm
        have hne := List.all_eq_true.mp List.all_takeWhile c hm
        simp at hne
      · cases h
    · rename_i hq
      split at h
      · rename_i hc
        split at h
        · rename_i htake
          cases h
          subst hc
          refine .var fun d hd => ?_
          obtain ⟨after, rfl⟩ := List.head?_eq_some_iff.mp hd
          rw [List.takeWhile_cons] at htake
          split at htake
          · cases htake
          · rename_i hn
            exact Bool.eq_false_iff.mpr hn
        · cases h
      · rename_i hc
        split at h
        · rename_i hp
          cases h
          subst hp
          exact .close rest
        · rename_i hp
          split at h
          · cases h
          · rename_i hf
            cases h
            exact .unknown (Bool.eq_false_iff.mpr hd) (Bool.eq_false_iff.mpr hq) hc hp (readFixed?_eq_none_iff.mp hf)

end Word

/-- What is wrong with the front of a text that begins at byte `offset` of its source and lies inside `depth` groups, and the error that
says so. -/
inductive FaultyFront (limit : Option Nat) (depth offset : Nat) : (text : List Char) → LexError → Prop
  | tooDeep {most : Nat} (rest : List Char) : passed? limit depth = some most →
      FaultyFront limit depth offset ('(' :: rest) (.tooDeep most (.over offset ['(']))
  | openString {front more : List Char} {quote : Char} : Closing.find 0 none (front ++ quote :: more) = .openString (quote :: more) →
      isQuote quote = true → quote ∉ more → FaultyFront limit depth offset ('(' :: (front ++ quote :: more))
        (.malformed .unclosedString (.ofList (quote :: more)) (.over (offset + byteSize ('(' :: front)) (quote :: more)))
  | openGroup {rest : List Char} : Closing.find 0 none rest = .openGroup → FaultyFront limit depth offset ('(' :: rest)
      (.malformed .unclosedGroup (.ofList ('(' :: rest)) (.over offset ('(' :: rest)))
  | word {c : Char} {rest covered : List Char} {fault : Fault} : isBlank c = false → c ≠ '(' →
      Word.Misspelled fault (c :: rest) covered →
      FaultyFront limit depth offset (c :: rest) (.malformed fault (.ofList covered) (.over offset covered))

/-- A balanced text begins with no open string, no open group and no `)`. -/
theorem FaultyFront.of_balanced {limit : Option Nat} {depth offset : Nat} {text : List Char} {error : LexError}
    (h : FaultyFront limit depth offset text error) (hb : Balanced text) :
    (∃ most span, error = .tooDeep most span) ∨
      ∃ fault slice span, error = .malformed fault slice span ∧ (fault = .unknownToken ∨ fault = .emptyVariable) := by
  cases h with
  | tooDeep rest _ => exact Or.inl ⟨_, _, rfl⟩
  | openString hf _ _ =>
    obtain ⟨inside, after, hclosed, _⟩ := Closing.find_of_balanced_cons hb
    rw [hclosed] at hf
    cases hf
  | openGroup hf =>
    obtain ⟨inside, after, hclosed, _⟩ := Closing.find_of_balanced_cons hb
    rw [hclosed] at hf
    cases hf
  | word _ _ hw =>
    cases hw with
    | string hq hm =>
      have hr := hb 0
      rw [Place.reach?_cons, Place.next?_quote hq, Option.bind_some, Place.reach?_of_not_mem hm] at hr
      cases hr
    | var _ => exact Or.inr ⟨_, _, _, rfl, Or.inr rfl⟩
    | close rest => cases hb 0
    | unknown _ _ _ _ _ => exact Or.inr ⟨_, _, _, rfl, Or.inl rfl⟩

/-! ### Inside the groups of a text -/

/-- The point after `before` lies inside exactly `n` groups of the text. Up to the end of the innermost of them, or of the text if there
is none, `ahead` follows, and after that `after`. -/
inductive Within : (n : Nat) → (text before ahead after : List Char) → Prop
  | here (text : List Char) : Within 0 text [] text []
  | past {n : Nat} {front text before ahead after : List Char} : Balanced front → Within n text before ahead after →
      Within n (front ++ text) (front ++ before) ahead after
  | into {n : Nat} {inside before ahead after : List Char} (rest : List Char) : Balanced inside →
      Within n inside before ahead after →
      Within (n + 1) ('(' :: (inside ++ ')' :: rest)) ('(' :: before) ahead (after ++ ')' :: rest)

namespace Within

theorem text_eq {n : Nat} {text before ahead after : List Char} (h : Within n text before ahead after) :
    text = before ++ ahead ++ after := by
  induction h with
  | here text => simp
  | past _ _ ih => simp [ih]
  | into rest _ _ ih => simp [ih]

/-- The number of groups around the point is the number of parentheses that are open there. -/
theorem reach? {n : Nat} {text before ahead after : List Char} (h : Within n text before ahead after) (m : Nat) :
    (Place.inside m).reach? before = some (.inside (m + n)) := by
  induction h generalizing m with
  | here text => rfl
  | past hb _ ih => rw [Place.reach?_append, hb m, Option.bind_some, ih]
  | into rest _ _ ih => rw [Place.reach?_cons, Place.next?_open, Option.bind_some, ih, Nat.add_assoc, Nat.add_comm 1]

/-- Inside no group, the rest of the text is ahead. -/
theorem of_zero {text before ahead after : List Char} (h : Within 0 text before ahead after) :
    after = [] ∧ Balanced before := by
  refine ⟨?_, balanced_of_reach? (h.reach? 0)⟩
  generalize hn : 0 = n at h
  induction h with
  | here text => rfl
  | past _ _ ih => exact ih hn
  | into => cases hn

/-- Inside a group, what is ahead ends at its `)`. -/
theorem exists_close {n : Nat} {text before ahead after : List Char} (h : Within (n + 1) text before ahead after) :
    ∃ rest, after = ')' :: rest := by
  generalize hm : n + 1 = m at h
  induction h generalizing n with
  | here text => cases hm
  | past _ _ ih => exact ih hm
  | @into m inside before ahead after rest _ h ih =>
    cases m with
    | zero => exact ⟨rest, by rw [h.of_zero.1]; rfl⟩
    | succ m =>
      obtain ⟨rest', rfl⟩ := ih rfl
      exact ⟨rest' ++ ')' :: rest, rfl⟩

/-- In a balanced text, what is ahead is balanced at every point outside of strings. -/
theorem balanced {n : Nat} {text before ahead after : List Char} (h : Within n text before ahead after)
    (hb : n = 0 → Balanced text) : Balanced ahead := by
  induction h with
  | here text => exact hb rfl
  | past hf _ ih => exact ih fun hn => balanced_of_append hf (hb hn)
  | into _ hi _ ih => exact ih fun _ => hi

end Within

/-- The text has a faulty front at some point of it, past balanced texts and inside groups that close and do not pass the limit. -/
def HasFault (limit : Option Nat) (depth offset : Nat) (text : List Char) (error : LexError) : Prop :=
  ∃ n before ahead after, Within n text before ahead after ∧ (∀ k < n, passed? limit (depth + k) = none) ∧
    FaultyFront limit (depth + n) (offset + byteSize before) ahead error

namespace HasFault

variable {limit : Option Nat} {depth offset : Nat} {error : LexError}

theorem here {text : List Char} (h : FaultyFront limit depth offset text error) : HasFault limit depth offset text error :=
  ⟨0, [], text, [], .here text, fun k hk => absurd hk (Nat.not_lt_zero k), h⟩

theorem past {front text : List Char} (hb : Balanced front) (h : HasFault limit depth (offset + byteSize front) text error) :
    HasFault limit depth offset (front ++ text) error := by
  obtain ⟨n, before, ahead, after, hw, hp, hf⟩ := h
  rw [Nat.add_assoc, ← byteSize_append] at hf
  exact ⟨n, front ++ before, ahead, after, .past hb hw, hp, hf⟩

theorem into {inside : List Char} (rest : List Char) (hd : passed? limit depth = none) (hb : Balanced inside)
    (h : HasFault limit (depth + 1) (offset + 1) inside error) :
    HasFault limit depth offset ('(' :: (inside ++ ')' :: rest)) error := by
  obtain ⟨n, before, ahead, after, hw, hp, hf⟩ := h
  refine ⟨n + 1, '(' :: before, ahead, _, .into rest hb hw, ?_, ?_⟩
  · intro k hk
    cases k with
    | zero => exact hd
    | succ k =>
      rw [← Nat.add_assoc, Nat.add_right_comm]
      exact hp k (by omega)
  · rw [byteSize_cons, show ('(').utf8Size = 1 from rfl, ← Nat.add_assoc, ← Nat.add_assoc, Nat.add_right_comm depth n 1]
    exact hf

end HasFault

/-- Where reading fails, the text has the fault that the error tells of. -/
theorem hasFault_of_itemsOf {limit : Option Nat} {depth offset : Nat} {text : List Char} {error : LexError}
    (h : itemsOf limit depth offset text = .error error) : HasFault limit depth offset text error := by
  fun_induction itemsOf limit depth offset text with
  | case1 depth offset => cases h
  | case2 depth offset c rest hb ih => exact .past (balanced_singleton (plain_of_isBlank hb)) (ih h)
  | case3 depth offset rest most hp =>
    cases h
    exact .here (.tooDeep rest hp)
  | case4 depth offset rest hp tail hf =>
    cases h
    rcases Closing.exists_quote_of_openString hf with ⟨front, quote, more, rfl, rfl, hq, hm⟩ | ⟨_, hnone, _⟩
    · have hspan : Span.upTo (offset + byteSize ('(' :: (front ++ quote :: more))) (quote :: more) =
          .over (offset + byteSize ('(' :: front)) (quote :: more) := by
        simp only [Span.upTo, Span.over, Span.mk.injEq, byteSize_cons, byteSize_append]
        omega
      rw [hspan]
      exact .here (.openString hf hq hm)
    · cases hnone
  | case5 depth offset rest hp hf =>
    cases h
    exact .here (.openGroup hf)
  | case6 depth offset rest hp inside after hf _ ihm iho =>
    have hi := Closing.balanced_of_find hf
    rw [Closing.find_closed hf]
    rcases bind_eq_error_iff.mp h with hm | ⟨members, _, h⟩
    · exact .into after hp hi (ihm hm)
    · rcases bind_eq_error_iff.mp h with ho | ⟨others, _, h⟩
      · have hpast := HasFault.past (balanced_group hi) (iho ho)
        rwa [List.cons_append, List.append_assoc, List.singleton_append] at hpast
      · cases h
  | case7 depth offset c rest hb hc fault covered hr =>
    cases h
    exact .here (.word (Bool.eq_false_iff.mpr hb) hc (Word.misspelled_of_read hr))
  | case8 depth offset c rest _ _ word after hr span =>
    rename_i ih
    rcases bind_eq_error_iff.mp h with ho | ⟨others, _, h⟩
    · rw [Word.eq_append_of_read hr]
      exact .past (Word.spelled_of_read hr).1.balanced (ih ho)
    · cases h

/-! ### The search and the reading -/

/-- The faults that are about the end of a text, or about a parenthesis left over in it, are found outside of all groups: the inside of
a group is balanced. -/
theorem FaultyFront.at_top {limit : Option Nat} {n depth offset : Nat} {text before ahead after : List Char} {fault : Fault}
    {slice : String} {span : Span} (h : FaultyFront limit depth offset ahead (.malformed fault slice span))
    (hw : Within n text before ahead after)
    (hf : fault = .unclosedString ∨ fault = .unclosedGroup ∨ fault = .unexpectedCloseParen) :
    text = before ++ ahead ∧ Balanced before := by
  cases n with
  | zero =>
    obtain ⟨rfl, hb⟩ := hw.of_zero
    exact ⟨by simpa using hw.text_eq, hb⟩
  | succ n =>
    rcases h.of_balanced (hw.balanced fun hn => absurd hn (Nat.succ_ne_zero n)) with ⟨_, _, heq⟩ | ⟨fault', _, _, heq, hf'⟩
    · cases heq
    · obtain ⟨rfl, _, _⟩ := LexError.malformed.inj heq
      rcases hf' with rfl | rfl <;> simp at hf

/-- An open string or group goes on to the end of the text. -/
theorem FaultyFront.stop_eq {limit : Option Nat} {depth offset : Nat} {text : List Char} {fault : Fault} {slice : String}
    {span : Span} (h : FaultyFront limit depth offset text (.malformed fault slice span))
    (hf : fault = .unclosedString ∨ fault = .unclosedGroup) : span.stop = offset + byteSize text := by
  cases h with
  | openString _ _ _ => simp [Span.over, Nat.add_assoc]
  | openGroup _ => rfl
  | word _ _ hw =>
    cases hw with
    | string _ _ => rfl
    | var _ => simp at hf
    | close rest => simp at hf
    | unknown _ _ _ _ _ => simp at hf

theorem FaultyFront.exists_open {limit : Option Nat} {depth offset : Nat} {text : List Char} {slice : String} {span : Span}
    (h : FaultyFront limit depth offset text (.malformed .unclosedGroup slice span)) :
    ∃ rest, text = '(' :: rest ∧ span.start = offset := by
  cases h with
  | openGroup _ => exact ⟨_, rfl, rfl⟩
  | word _ _ hw => cases hw

theorem FaultyFront.exists_close {limit : Option Nat} {depth offset : Nat} {text : List Char} {slice : String} {span : Span}
    (h : FaultyFront limit depth offset text (.malformed .unexpectedCloseParen slice span)) :
    ∃ rest, text = ')' :: rest ∧ slice = .ofList [')'] ∧ span = .over offset [')'] := by
  cases h with
  | word _ _ hw =>
    cases hw with
    | close _ => exact ⟨_, rfl, rfl, rfl⟩

/-- The inside of a group that the search finds to close is read without a fault about strings or groups that do not end or about a `)`
that is left over, and a group in it is found to close in the same place whether it is looked for in the inside or in any longer text.
So of the errors for a source, those about what does not end reach to its end, and a group that does not end, or a `)` that is left over,
stands outside of all groups. -/
theorem search_agrees_with_reading (source : String) :
    (∀ text inside after, Closing.find 0 none text = .closed inside after →
      (∀ limit depth offset error, itemsOf limit depth offset inside = .error error →
        (∃ most span, error = .tooDeep most span) ∨
          ∃ fault slice span, error = .malformed fault slice span ∧ (fault = .unknownToken ∨ fault = .emptyVariable)) ∧
      ∀ front opened tail, inside = front ++ '(' :: tail → (Place.inside 0).reach? front = some (.inside opened) →
        ∃ inner rest, Closing.find 0 none tail = .closed inner rest ∧
          ∀ more, Closing.find 0 none (tail ++ more) = .closed inner (rest ++ more)) ∧
    ∀ fault slice span, lex source = .error (.malformed fault slice span) →
      (fault = .unclosedString ∨ fault = .unclosedGroup → span.stop = source.utf8ByteSize) ∧
      (fault = .unclosedGroup →
        ∃ before rest, source.toList = before ++ '(' :: rest ∧ byteSize before = span.start ∧ Balanced before) ∧
      (fault = .unexpectedCloseParen →
        ∃ before rest, source.toList = before ++ ')' :: rest ∧ byteSize before = span.start ∧ Balanced before) := by
  refine ⟨?_, ?_⟩
  · intro text inside after hfind
    refine ⟨?_, ?_⟩
    · intro limit depth offset error h
      obtain ⟨n, before, ahead, after, hw, _, hf⟩ := hasFault_of_itemsOf h
      exact hf.of_balanced (hw.balanced fun _ => Closing.balanced_of_find hfind)
    · intro front opened tail hi hreach
      exact Closing.find_inner hfind hi hreach
  · intro fault slice span h
    obtain ⟨n, before, ahead, after, hw, _, hf⟩ := hasFault_of_itemsOf h
    rw [Nat.zero_add, Nat.zero_add] at hf
    refine ⟨?_, ?_, ?_⟩
    · intro hfault
      obtain ⟨hs, _⟩ := hf.at_top hw (by rcases hfault with h | h <;> simp [h])
      rw [hf.stop_eq hfault, ← byteSize_append, ← hs, byteSize_toList]
    · rintro rfl
      obtain ⟨hs, hb⟩ := hf.at_top hw (by simp)
      obtain ⟨rest, rfl, hstart⟩ := hf.exists_open
      exact ⟨before, rest, hs, hstart.symm, hb⟩
    · rintro rfl
      obtain ⟨hs, hb⟩ := hf.at_top hw (by simp)
      obtain ⟨rest, rfl, _, rfl⟩ := hf.exists_close
      exact ⟨before, rest, hs, rfl, hb⟩

/-- The `(` of `(')'` does not close, since the `)` stands in a string. In a group that closes, the search from a `(` inside it agrees
with the search from its own. -/
theorem search_agrees_with_reading_quoted :
    lex "(')'" = .error (.malformed .unclosedGroup "(')'" ⟨0, 4⟩) ∧ (⟨0, 4⟩ : Span).stop = "(')'".utf8ByteSize ∧
      (∃ before rest, "(')'".toList = before ++ '(' :: rest ∧ byteSize before = 0 ∧ Balanced before) ∧
      Closing.find 0 none ['(', '\'', ')', '\'', ')', ')'] = .closed ['(', '\'', ')', '\'', ')'] [] ∧
      ∃ inner rest, Closing.find 0 none ['\'', ')', '\'', ')'] = .closed inner rest ∧
        ∀ more, Closing.find 0 none (['\'', ')', '\'', ')'] ++ more) = .closed inner (rest ++ more) := by
  have hopen : Closing.find 0 none ['\'', ')', '\''] = .openGroup := by
    decide
  have hlex : lex "(')'" = .error (.malformed .unclosedGroup "(')'" ⟨0, 4⟩) :=
    itemsOf_openGroup rfl hopen 0
  have hfind : Closing.find 0 none ['(', '\'', ')', '\'', ')', ')'] = .closed ['(', '\'', ')', '\'', ')'] [] := by
    decide
  obtain ⟨hclosed, herror⟩ := search_agrees_with_reading "(')'"
  obtain ⟨hstop, hstart, _⟩ := herror _ _ _ hlex
  exact ⟨hlex, hstop (Or.inr rfl), hstart rfl, hfind, (hclosed _ _ _ hfind).2 [] 0 _ rfl rfl⟩

end RuleLang
