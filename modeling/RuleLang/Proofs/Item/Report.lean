import RuleLang.Proofs.Item.Location
import RuleLang.Proofs.Item.Tiling

/-!
# What an error says of its source

The error for a source that has no items names a fault, shows a text and gives a span. Here is what each fault says of the source
(`Fault.Holds`), and that what is said is so: the span covers the text, and the fault holds there (`LexError.Truthful`,
`truthful_of_lex`).
-/

namespace RuleLang

/-! ### Outside of strings -/

/-- The characters of a text that stand outside of strings. If a string is open where the text begins, its quote is given. -/
def unquoted (quote? : Option Char) : List Char → List Char
  | [] => []
  | c :: text =>
    match quote? with
    | some quote => unquoted (if c = quote then none else some quote) text
    | none => if isQuote c then unquoted (some c) text else c :: unquoted none text

theorem unquoted_string (quote c : Char) (text : List Char) :
    unquoted (some quote) (c :: text) = unquoted (if c = quote then none else some quote) text := rfl

theorem unquoted_quote {c : Char} (h : isQuote c = true) (text : List Char) :
    unquoted none (c :: text) = unquoted (some c) text := by
  simp [unquoted, h]

theorem unquoted_cons {c : Char} (h : isQuote c = false) (text : List Char) :
    unquoted none (c :: text) = c :: unquoted none text := by
  simp [unquoted, h]

/-- In a string that does not end no character stands outside of strings. -/
theorem unquoted_of_not_mem {quote : Char} {text : List Char} (h : quote ∉ text) : unquoted (some quote) text = [] := by
  induction text with
  | nil => rfl
  | cons c text ih =>
    have hc : c ≠ quote := fun hc => h (hc ▸ List.mem_cons_self ..)
    rw [unquoted_string, if_neg hc]
    exact ih fun hm => h (List.mem_cons_of_mem _ hm)

theorem Place.unquoted_next? {p q : Place} {c : Char} (h : p.next? c = some q) (text : List Char) :
    unquoted p.quote? (c :: text) = unquoted p.quote? [c] ++ unquoted q.quote? text := by
  obtain ⟨quote?, n⟩ := p
  cases quote? with
  | some quote =>
    obtain rfl := Option.some.inj h
    rw [unquoted_string, unquoted_string]
    rfl
  | none =>
    rcases next?_inside_cases h with ⟨hq, rfl⟩ | ⟨rfl, rfl⟩ | ⟨rfl, m, -, rfl⟩ | ⟨hc, rfl⟩
    · rw [unquoted_quote hq, unquoted_quote hq]
      rfl
    · rfl
    · rfl
    · rw [unquoted_cons hc.1, unquoted_cons hc.1]
      rfl

/-- What stands outside of strings in a text is found part by part. -/
theorem Place.unquoted_append {p q : Place} {text : List Char} (h : p.reach? text = some q) (after : List Char) :
    unquoted p.quote? (text ++ after) = unquoted p.quote? text ++ unquoted q.quote? after := by
  induction text generalizing p with
  | nil =>
    obtain rfl := Option.some.inj h
    rfl
  | cons c text ih =>
    obtain ⟨r, hr, h⟩ := Option.bind_eq_some_iff.mp h
    rw [List.cons_append, unquoted_next? hr, unquoted_next? hr text, ih h, List.append_assoc]

/-- The parentheses that a text opens and closes outside of strings make up the difference of what is open before it and after it. -/
theorem Place.count_of_reach? {p q : Place} {text : List Char} (h : p.reach? text = some q) :
    p.opened + (unquoted p.quote? text).count '(' = q.opened + (unquoted p.quote? text).count ')' := by
  induction text generalizing p with
  | nil =>
    obtain rfl := Option.some.inj h
    rfl
  | cons c text ih =>
    obtain ⟨r, hr, h⟩ := Option.bind_eq_some_iff.mp h
    have hcount := ih h
    obtain ⟨quote?, n⟩ := p
    cases quote? with
    | some quote =>
      obtain rfl := Option.some.inj hr
      rw [unquoted_string]
      exact hcount
    | none =>
      rcases next?_inside_cases hr with ⟨hq, rfl⟩ | ⟨rfl, rfl⟩ | ⟨rfl, m, rfl, rfl⟩ | ⟨hc, rfl⟩
      · rw [unquoted_quote hq]
        exact hcount
      · rw [unquoted_cons (by decide), List.count_cons_self, List.count_cons_of_ne (by decide)]
        simp only [inside] at hcount ⊢
        omega
      · rw [unquoted_cons (by decide), List.count_cons_self, List.count_cons_of_ne (by decide)]
        simp only [inside] at hcount ⊢
        omega
      · rw [unquoted_cons hc.1, List.count_cons_of_ne hc.2.1, List.count_cons_of_ne hc.2.2]
        exact hcount

/-- A group that does not end has more parentheses open than closed in all of its fronts. -/
theorem Closing.count_lt_of_openGroup {rest front : List Char} (h : find 0 none rest = openGroup) (hne : front ≠ [])
    (hf : front <+: '(' :: rest) : (unquoted none front).count ')' < (unquoted none front).count '(' := by
  have ha := find_agrees 0 none rest
  rw [h] at ha
  obtain ⟨n, hr⟩ := ha
  obtain ⟨c, front, rfl⟩ := List.exists_cons_of_ne_nil hne
  obtain ⟨rfl, tail, rfl⟩ := List.cons_prefix_cons.mp hf
  rw [Place.reach?_append] at hr
  obtain ⟨p, hp, _⟩ := Option.bind_eq_some_iff.mp hr
  have hp' : (Place.inside 0).reach? ('(' :: front) = some (p.raise 1) := by
    rw [Place.reach?_cons, Place.next?_open, Option.bind_some]
    exact Place.reach?_raise hp 1
  have hcount := Place.count_of_reach? hp'
  simp only [Place.inside, Place.raise] at hcount
  omega

/-! ### What is said -/

/-- Byte `stop` of the source is where the innermost of the groups around byte `start` closes. -/
def ClosesAround (source : String) (start stop : Nat) : Prop :=
  ∃ n before ahead after, Within (n + 1) source.toList before ahead after ∧ byteSize before = start ∧
    byteSize before + byteSize ahead = stop

/-- What a fault says of the source at a span that covers `slice`. -/
def Fault.Holds (source : String) (span : Span) (slice : List Char) : Fault → Prop
  | unknownToken =>
    (∀ c ∈ slice, isBlank c = false) ∧
      (∀ c, slice.head? = some c → c.isDigit = false ∧ isQuote c = false ∧ c ≠ '$' ∧ c ≠ '(' ∧ c ≠ ')') ∧
      (∀ op : Operator, ¬op.symbol.toList <+: slice) ∧ (∀ keyword ∈ ["true", "false", "null"], ¬keyword.toList <+: slice) ∧
      ((∃ c, charAt? source span.stop = some c ∧ isBlank c = true) ∨ span.stop = source.utf8ByteSize ∨
        ClosesAround source span.start span.stop)
  | emptyVariable => slice = ['$'] ∧ ∀ c, charAt? source span.stop = some c → isNameChar c = false
  | unclosedString => ∃ quote rest, slice = quote :: rest ∧ isQuote quote = true ∧ quote ∉ rest ∧ span.stop = source.utf8ByteSize
  | unclosedGroup =>
    (∃ rest, slice = '(' :: rest) ∧
      ∀ front, front ≠ [] → front <+: slice → (unquoted none front).count ')' < (unquoted none front).count '('
  | unexpectedCloseParen =>
    slice = [')'] ∧ ∃ before after, source.toList = before ++ ')' :: after ∧ byteSize before = span.start ∧ Balanced before

/-- What the error says of the source is so. A span that has a slice lies in the source and between characters. -/
def LexError.Truthful (source : String) : LexError → Prop
  | malformed fault text span =>
    span.start < span.stop ∧ span.slice? source = some text ∧ fault.Holds source span text.toList
  | tooDeep limit span =>
    limit = maxNesting ∧ span.start < span.stop ∧ span.slice? source = some "(" ∧
      ∃ before ahead after, Within maxNesting source.toList before ('(' :: ahead) after ∧ byteSize before = span.start

/-- What stands ahead at a point of the source is covered by the span from that point on. -/
theorem Within.slice?_over {n : Nat} {source : String} {before skipped covered more after : List Char}
    (h : Within n source.toList before (skipped ++ covered ++ more) after) :
    (Span.over (byteSize before + byteSize skipped) covered).slice? source = some (.ofList covered) := by
  rw [← byteSize_append]
  exact @Span.covers_of_append source (before ++ skipped) covered (more ++ after) (by simpa using h.text_eq)

/-- The characters up to white space end at white space, or at the end of what is ahead: that of the source, or the `)` of the innermost
group. -/
theorem Within.stop_over_takeWhile {n : Nat} {source : String} {before text after : List Char}
    (h : Within n source.toList before text after) {span : Span}
    (hspan : span = .over (byteSize before) (text.takeWhile (!isBlank ·))) :
    (∃ c, charAt? source span.stop = some c ∧ isBlank c = true) ∨ span.stop = source.utf8ByteSize ∨
      ClosesAround source span.start span.stop := by
  subst hspan
  have hsplit := List.takeWhile_append_dropWhile (p := (!isBlank ·)) (l := text)
  generalize text.takeWhile (!isBlank ·) = slice at hsplit
  cases hdrop : text.dropWhile (!isBlank ·) with
  | cons d more =>
    rw [hdrop] at hsplit
    have hblank := head?_dropWhile d (by rw [hdrop]; rfl)
    refine Or.inl ⟨d, ?_, by simpa using hblank⟩
    have hs : source.toList = (before ++ slice) ++ d :: (more ++ after) := by
      rw [h.text_eq, ← hsplit]
      simp
    rw [Span.over, ← byteSize_append]
    exact charAt?_of_append hs
  | nil =>
    rw [hdrop, List.append_nil] at hsplit
    rw [hsplit]
    cases n with
    | zero =>
      refine Or.inr (Or.inl ?_)
      have hs := h.text_eq
      rw [h.of_zero.1, List.append_nil] at hs
      rw [Span.over, ← byteSize_append, ← hs, byteSize_toList]
    | succ n => exact Or.inr (Or.inr ⟨n, before, text, after, h, rfl, rfl⟩)

theorem Within.holds_unknownToken {n : Nat} {source : String} {before rest after : List Char} {c : Char}
    (h : Within n source.toList before (c :: rest) after) (hb : isBlank c = false) (ho : c ≠ '(') (hd : c.isDigit = false)
    (hq : isQuote c = false) (hv : c ≠ '$') (hc : c ≠ ')') (hf : ∀ word ∈ Word.fixed, ¬word.covered <+: c :: rest) :
    Fault.unknownToken.Holds source (.over (byteSize before) ((c :: rest).takeWhile (!isBlank ·)))
      ((c :: rest).takeWhile (!isBlank ·)) := by
  have hprefix := List.takeWhile_prefix (l := c :: rest) (!isBlank ·)
  have hword : ∀ word ∈ Word.fixed, ¬word.covered <+: (c :: rest).takeWhile (!isBlank ·) :=
    fun word hm hp => hf word hm (hp.trans hprefix)
  refine ⟨?_, ?_, ?_, ?_, h.stop_over_takeWhile rfl⟩
  · intro d hm
    simpa using List.all_eq_true.mp List.all_takeWhile d hm
  · intro d hhead
    rw [List.takeWhile_cons_of_pos (by simp [hb])] at hhead
    obtain rfl := Option.some.inj hhead
    exact ⟨hd, hq, hv, ho, hc⟩
  · intro op
    exact hword (.plain (.operator op) op.symbol.toList)
      (List.mem_append_left _ (List.mem_map.mpr ⟨op, Operator.mem_longestFirst op, rfl⟩))
  · intro keyword hm
    simp only [List.mem_cons, List.not_mem_nil, or_false] at hm
    rcases hm with rfl | rfl | rfl
    · exact hword (.plain (.literal .bool) "true".toList) (by decide)
    · exact hword (.plain (.literal .bool) "false".toList) (by decide)
    · exact hword (.plain (.literal .null) "null".toList) (by decide)

/-- A `$` without a name is followed by white space, by another item, by the `)` of its group or by nothing. -/
theorem Within.holds_emptyVariable {n : Nat} {source : String} {before rest after : List Char}
    (h : Within n source.toList before ('$' :: rest) after) (hn : ∀ c, rest.head? = some c → isNameChar c = false) :
    Fault.emptyVariable.Holds source (.over (byteSize before) ['$']) ['$'] := by
  refine ⟨rfl, ?_⟩
  intro c hc
  have hs : source.toList = (before ++ ['$']) ++ (rest ++ after) := by simpa using h.text_eq
  rw [Span.over, ← byteSize_append, charAt?_of_append hs] at hc
  cases rest with
  | cons d rest => exact hn c hc
  | nil =>
    cases n with
    | zero =>
      rw [h.of_zero.1] at hc
      cases hc
    | succ n =>
      obtain ⟨more, rfl⟩ := h.exists_close
      obtain rfl := Option.some.inj hc
      decide

/-- The characters at fault are the first of the text, and there are some. -/
theorem Word.Misspelled.exists_append {fault : Fault} {c : Char} {rest covered : List Char}
    (h : Word.Misspelled fault (c :: rest) covered) (hb : isBlank c = false) :
    covered ≠ [] ∧ ∃ more, c :: rest = covered ++ more := by
  cases h with
  | string _ _ => exact ⟨List.cons_ne_nil _ _, [], by simp⟩
  | var _ => exact ⟨List.cons_ne_nil _ _, rest, rfl⟩
  | close _ => exact ⟨List.cons_ne_nil _ _, rest, rfl⟩
  | unknown _ _ _ _ _ =>
    refine ⟨?_, (c :: rest).dropWhile (!isBlank ·), List.takeWhile_append_dropWhile.symm⟩
    rw [List.takeWhile_cons_of_pos (by simp [hb])]
    exact List.cons_ne_nil _ _

/-- The depth at which a limit is passed first is the limit. -/
theorem eq_of_passed? {limit n most : Nat} (h : passed? (some limit) n = some most)
    (hbelow : ∀ k < n, passed? (some limit) k = none) : n = limit ∧ most = limit := by
  rw [passed?_some] at h
  split at h
  · rename_i hle
    refine ⟨Nat.le_antisymm (Nat.le_of_not_lt fun hlt => ?_) hle, (Option.some.inj h).symm⟩
    have hnone := hbelow limit hlt
    rw [passed?_some, if_pos (Nat.le_refl _)] at hnone
    cases hnone
  · cases h

/-- The error for a faulty front says of the source what is so. -/
theorem FaultyFront.truthful {n : Nat} {source : String} {before ahead after : List Char} {error : LexError}
    (h : FaultyFront (some maxNesting) n (byteSize before) ahead error) (hw : Within n source.toList before ahead after)
    (hbelow : ∀ k < n, passed? (some maxNesting) k = none) : error.Truthful source := by
  have htop := fun fault slice span (he : error = .malformed fault slice span) => (he ▸ h).at_top hw
  cases h with
  | @tooDeep most rest hp =>
    obtain ⟨rfl, rfl⟩ := eq_of_passed? hp hbelow
    have hslice := @Within.slice?_over _ source before [] ['('] rest after hw
    exact ⟨rfl, Span.start_lt_stop_over _ (List.cons_ne_nil _ _), hslice, before, rest, after, hw, rfl⟩
  | @openString front more quote hfind hq hm =>
    obtain ⟨hs, _⟩ := htop _ _ _ rfl (Or.inl rfl)
    have hslice := @Within.slice?_over n source before ('(' :: front) (quote :: more) [] after (by simpa using hw)
    refine ⟨Span.start_lt_stop_over _ (List.cons_ne_nil _ _), hslice, ?_⟩
    rw [String.toList_ofList]
    refine ⟨quote, more, rfl, hq, hm, ?_⟩
    rw [← byteSize_toList, hs, Span.over]
    simp only [byteSize_append, byteSize_cons]
    omega
  | @openGroup rest hfind =>
    have hslice := @Within.slice?_over n source before [] ('(' :: rest) [] after (by simpa using hw)
    refine ⟨Span.start_lt_stop_over _ (List.cons_ne_nil _ _), hslice, ?_⟩
    rw [String.toList_ofList]
    refine ⟨⟨rest, rfl⟩, ?_⟩
    intro front hne hprefix
    exact Closing.count_lt_of_openGroup hfind hne hprefix
  | @word c rest covered fault hb hc hword =>
    obtain ⟨hne, more, hsplit⟩ := hword.exists_append hb
    have hslice := @Within.slice?_over n source before [] covered more after (by rw [List.nil_append, ← hsplit]; exact hw)
    refine ⟨Span.start_lt_stop_over _ hne, hslice, ?_⟩
    rw [String.toList_ofList]
    cases hword with
    | string hq hm =>
      obtain ⟨hs, _⟩ := htop _ _ _ rfl (Or.inl rfl)
      exact ⟨c, rest, rfl, hq, hm, by rw [← byteSize_toList, hs, byteSize_append]; rfl⟩
    | var hn => exact hw.holds_emptyVariable hn
    | close _ =>
      obtain ⟨hs, hbal⟩ := htop _ _ _ rfl (Or.inr (Or.inr rfl))
      exact ⟨rfl, before, rest, hs, rfl, hbal⟩
    | unknown hd hq hv hp hfixed => exact hw.holds_unknownToken hb hc hd hq hv hp hfixed

/-- The error for a source that has no items says of it what is so. -/
theorem truthful_of_lex {source : String} {error : LexError} (h : lex source = .error error) : error.Truthful source := by
  obtain ⟨n, before, ahead, after, hw, hbelow, hf⟩ := hasFault_of_itemsOf h
  simp only [Nat.zero_add] at hbelow hf
  exact hf.truthful hw hbelow

/-- An unknown token of two bytes inside a group ends at the `)` of the group. -/
theorem truthful_of_lex_unknown :
    lex "(é)" = .error (.malformed .unknownToken "é" ⟨1, 3⟩) ∧
      (LexError.malformed .unknownToken "é" ⟨1, 3⟩).Truthful "(é)" := by
  have hread : Word.read 'é' [] = .error (.unknownToken, ['é']) := by
    rfl
  have hinside : itemsOf (some maxNesting) 1 1 ['é'] = .error (.malformed .unknownToken "é" ⟨1, 3⟩) :=
    itemsOf_fault (by decide) (by decide) hread _ _ _
  have h : lex "(é)" = .error (.malformed .unknownToken "é" ⟨1, 3⟩) := by
    have hclosed : Closing.find 0 none ['é', ')'] = .closed ['é'] [] := by
      decide
    rw [lex, show "(é)".toList = ['(', 'é', ')'] from rfl, itemsOf_group rfl hclosed, hinside]
    rfl
  exact ⟨h, truthful_of_lex h⟩

end RuleLang
