import RuleLang.Proofs.Item.Location
import RuleLang.Proofs.Item.Scan

/-!
# What a turn of a scan finds

A turn that is taken where a text stands between its offset and the end of its range does what the front of that text asks for: the rules
for atoms find the word that is read there (`Scan.turn_of_read`), and the count of parentheses comes to the end that the search for the
end of a group finds (`Scan.count_eq`). So a turn at a boundary halts for no other reason than a fault of the source
(`Scan.meets_turn`).
-/

namespace RuleLang

namespace Scan

/-! ### What the rules find -/

variable {source : String} {start stop : Nat} {c : Char} {text rest : List Char}

theorem refuse_of_covers {α : Type} {span : Span} (h : span.Covers source text) (fault : Fault) :
    refuse source fault span = (.error (.fault (.malformed fault (.ofList text) span)) : Except Halt α) := by
  rw [refuse, slice_of_covers h]
  rfl

theorem scanWhile_of_covers (h : Span.Covers ⟨start, stop⟩ source text) (p : Char → Bool) :
    scanWhile source p start stop = .ok (start + byteSize (text.takeWhile p)) := by
  rw [scanWhile, slice_of_covers h]
  refine congrArg Except.ok ?_
  split
  · rename_i hall
    have hwhole := @takeWhile_eq_front p text [] (List.all_eq_true.mp hall) nofun
    rw [List.append_nil] at hwhole
    rw [hwhole]
    exact h.stop_eq
  · rfl

/-- The characters of a class at the front of a range are covered from its start on. -/
theorem covers_takeWhile (h : Span.Covers ⟨start, stop⟩ source text) (p : Char → Bool) :
    Span.Covers ⟨start, start + byteSize (text.takeWhile p)⟩ source (text.takeWhile p) := by
  rw [← List.takeWhile_append_dropWhile (p := p) (l := text)] at h
  exact h.of_append.1

/-- What a word, or a fault where there is none, is as an item of the source. -/
def told (offset : Nat) : Except (Fault × List Char) (Word × List Char) → Except Halt Item
  | .ok (word, _) => .ok (.atom word.kind (.ofList word.text) (.over offset word.covered))
  | .error (fault, covered) => .error (.fault (.malformed fault (.ofList covered) (.over offset covered)))

theorem integerAt_eq (h : Span.Covers ⟨start, stop⟩ source (c :: rest)) (hd : c.isDigit = true) :
    integerAt source start stop = told start (Word.read c rest) := by
  have htext := covers_takeWhile h Char.isDigit
  rw [integerAt, scanWhile_of_covers h, Word.read, if_pos hd]
  rw [List.takeWhile_cons_of_pos hd] at htext ⊢
  show (slice source _ >>= _) = _
  rw [slice_of_covers htext]
  rfl

/-- A quote is looked for behind the first one; where there is none, all of the range is at fault. -/
theorem stringAt_eq (h : Span.Covers ⟨start, stop⟩ source (c :: rest)) (hd : ¬c.isDigit = true) (hq : isQuote c = true) :
    stringAt source c start stop = told start (Word.read c rest) := by
  obtain ⟨-, hrest⟩ := h.of_cons
  have htext := covers_takeWhile hrest (· != c)
  rw [stringAt, slice_of_covers hrest, Word.read, if_neg hd, if_pos hq]
  show (if c ∈ rest then (slice source _ >>= _) else refuse source .unclosedString ⟨start, stop⟩) = _
  have hsplit := List.takeWhile_append_dropWhile (p := (· != c)) (l := rest)
  cases hdrop : rest.dropWhile (· != c) with
  | nil =>
    have hm : c ∉ rest := by
      rw [← hsplit, hdrop, List.append_nil]
      intro hm
      simpa using List.all_eq_true.mp List.all_takeWhile c hm
    rw [if_neg hm, refuse_of_covers h, told, Span.over, ← h.stop_eq]
  | cons d after =>
    have hhead := head?_dropWhile d (by rw [hdrop]; rfl)
    obtain rfl : d = c := by simpa using hhead
    have hm : d ∈ rest := by
      rw [← hsplit, hdrop]
      exact List.mem_append_right _ (List.mem_cons_self ..)
    rw [if_pos hm, slice_of_covers htext]
    have hsize : start + d.utf8Size + byteSize (rest.takeWhile (· != d)) + d.utf8Size =
        start + byteSize (d :: rest.takeWhile (· != d) ++ [d]) := by
      simp only [List.cons_append, byteSize_cons, byteSize_append, byteSize_nil]
      omega
    rw [told, Span.over, ← hsize]
    rfl

/-- The name is looked for behind the `$`, which takes one byte whatever character comes next. -/
theorem variableAt_eq (h : Span.Covers ⟨start, stop⟩ source ('$' :: rest)) :
    variableAt source start stop = told start (Word.read '$' rest) := by
  obtain ⟨hmark, hrest⟩ := h.of_cons
  have hname := covers_takeWhile hrest isNameChar
  have hscan := scanWhile_of_covers hrest isNameChar
  rw [show ('$').utf8Size = 1 from rfl] at hrest hname hscan
  rw [variableAt, hscan, Word.read, if_neg (by decide), if_neg (by decide), if_pos rfl]
  show (if _ then refuse source .emptyVariable _ else (slice source _ >>= _)) = _
  cases htake : rest.takeWhile isNameChar with
  | nil =>
    rw [byteSize_nil, Nat.add_zero, if_pos rfl]
    exact refuse_of_covers hmark .emptyVariable
  | cons d name =>
    have hd := d.utf8Size_pos
    rw [htake] at hname
    have htext := hmark.append hname
    rw [if_neg (by rw [byteSize_cons]; omega), slice_of_covers htext, Nat.add_assoc]
    rfl

/-! ### Operators and keywords -/

/-- An operator is found in as many bytes as its symbol takes, if the text begins with them. -/
theorem operatorOf?_eq_some_iff {text : List Char} {size : Nat} {op : Operator} :
    operatorOf? text size = some op ↔ byteSize op.symbol.toList = size ∧ op.symbol.toList <+: text := by
  have hfind : Operator.longestFirst.find? (fun o => o.symbol.toList == op.symbol.toList) = some op := by
    cases op <;> decide
  simp only [operatorOf?, Option.bind_eq_bind, Option.bind_eq_some_iff, Prod.exists, splitAtByte?_eq_some_iff]
  constructor
  · rintro ⟨front, rest, ⟨rfl, hsize⟩, h⟩
    have hop := List.find?_some h
    rw [beq_iff_eq] at hop
    rw [hop]
    exact ⟨hsize, List.prefix_append _ _⟩
  · rintro ⟨hsize, rest, rfl⟩
    exact ⟨_, rest, ⟨rfl, hsize⟩, hfind⟩

/-- The operator that a text begins with, looked for in its first two bytes and then in its first byte. -/
def operatorAhead? (text : List Char) : Option Operator := (operatorOf? text 2).or (operatorOf? text 1)

/-- An operator takes two bytes, after which nothing goes on with it, or it is one of the two that take one byte. -/
theorem byteSize_symbol (op : Operator) :
    (byteSize op.symbol.toList = 2 ∧ ∀ after, (Atom.operator op).EndsBefore after) ∨
      byteSize op.symbol.toList = 1 ∧ (op = .lt ∨ op = .gt) := by
  have hends : (Atom.operator op).goesOn = (fun _ => false) → ∀ after, (Atom.operator op).EndsBefore after :=
    fun h after c _ => congrFun h c
  cases op with
  | lt => exact Or.inr ⟨rfl, Or.inl rfl⟩
  | gt => exact Or.inr ⟨rfl, Or.inr rfl⟩
  | _ => exact Or.inl ⟨rfl, hends rfl⟩

/-- Looking at two bytes before one finds no operator that is the front of a longer one that stands there. -/
theorem readFixed?_of_operatorAhead? {text : List Char} {op : Operator} (h : operatorAhead? text = some op) :
    ∃ after, Word.readFixed? text = some (.plain (.operator op) op.symbol.toList, after) := by
  rcases Option.or_eq_some_iff.mp h with h | ⟨hnone, h⟩
  · obtain ⟨hsize, after, rfl⟩ := operatorOf?_eq_some_iff.mp h
    rcases byteSize_symbol op with ⟨-, hends⟩ | ⟨hone, -⟩
    · exact ⟨after, Word.readFixed?_operator (hends after)⟩
    · rw [hone] at hsize
      cases hsize
  · obtain ⟨hsize, after, rfl⟩ := operatorOf?_eq_some_iff.mp h
    refine ⟨after, Word.readFixed?_operator fun c hc => ?_⟩
    obtain ⟨more, rfl⟩ := List.head?_eq_some_iff.mp hc
    rw [Bool.eq_false_iff]
    intro hgoes
    -- with the `=` behind it, the operator would have been found as the longer one
    have hlonger : ∃ longer, operatorOf? (op.symbol.toList ++ c :: more) 2 = some longer := by
      rcases byteSize_symbol op with ⟨-, hends⟩ | ⟨-, rfl | rfl⟩
      · rw [hends (c :: more) c rfl] at hgoes
        cases hgoes
      · obtain rfl : c = '=' := by simpa [Atom.goesOn] using hgoes
        exact ⟨.lte, operatorOf?_eq_some_iff.mpr ⟨rfl, List.prefix_append _ _⟩⟩
      · obtain rfl : c = '=' := by simpa [Atom.goesOn] using hgoes
        exact ⟨.gte, operatorOf?_eq_some_iff.mpr ⟨rfl, List.prefix_append _ _⟩⟩
    obtain ⟨longer, hl⟩ := hlonger
    rw [hnone] at hl
    cases hl

/-- Where an operator stands, an operator is found. -/
theorem exists_operatorAhead? {op : Operator} (after : List Char) : ∃ o, operatorAhead? (op.symbol.toList ++ after) = some o := by
  have hfound : operatorOf? (op.symbol.toList ++ after) (byteSize op.symbol.toList) = some op :=
    operatorOf?_eq_some_iff.mpr ⟨rfl, List.prefix_append _ _⟩
  cases htwo : operatorOf? (op.symbol.toList ++ after) 2 with
  | some o => exact ⟨o, by rw [operatorAhead?, htwo]; rfl⟩
  | none =>
    rcases byteSize_symbol op with ⟨hsize, -⟩ | ⟨hsize, -⟩
    · rw [hsize, htwo] at hfound
      cases hfound
    · rw [hsize] at hfound
      exact ⟨op, by rw [operatorAhead?, htwo, hfound]; rfl⟩

/-- The operator that is found is the one that is read. -/
theorem operatorAhead?_eq (text : List Char) :
    operatorAhead? text = (Word.readFixed? text).bind fun (word, _) =>
      match word.kind with
      | .operator op => some op
      | _ => none := by
  cases hahead : operatorAhead? text with
  | some op =>
    obtain ⟨after, hread⟩ := readFixed?_of_operatorAhead? hahead
    rw [hread]
    rfl
  | none =>
    cases hread : Word.readFixed? text with
    | none => rfl
    | some found =>
      obtain ⟨word, after⟩ := found
      obtain ⟨hm, rfl⟩ := Word.readFixed?_some hread
      rcases List.mem_append.mp hm with hm | hm
      · obtain ⟨op, -, rfl⟩ := List.mem_map.mp hm
        obtain ⟨o, ho⟩ := @exists_operatorAhead? op after
        rw [show (Word.plain (.operator op) op.symbol.toList).covered = op.symbol.toList from rfl, ho] at hahead
        cases hahead
      · simp only [List.mem_cons, List.not_mem_nil, or_false] at hm
        rcases hm with rfl | rfl | rfl <;> rfl

theorem operatorAt?_eq (h : Span.Covers ⟨start, stop⟩ source text) :
    operatorAt? source start stop = .ok ((operatorAhead? text).map fun op =>
      .atom (.operator op) op.symbol (.over start op.symbol.toList)) := by
  rw [operatorAt?, slice_of_covers h]
  refine congrArg Except.ok ?_
  rw [List.findSome?_cons, List.findSome?_singleton, operatorAhead?]
  cases htwo : operatorOf? text 2 with
  | some op =>
    obtain ⟨hsize, -⟩ := operatorOf?_eq_some_iff.mp htwo
    simp only [Option.map_some, Option.some_or, Span.over, hsize]
  | none =>
    cases hone : operatorOf? text 1 with
    | some op =>
      obtain ⟨hsize, -⟩ := operatorOf?_eq_some_iff.mp hone
      simp only [Option.map_some, Option.map_none, Option.none_or, Span.over, hsize]
    | none => rfl

theorem mem_fixed_of_mem_keywords {keyword : String × LiteralKind} (h : keyword ∈ keywords) :
    Word.plain (.literal keyword.2) keyword.1.toList ∈ Word.fixed := by
  revert keyword
  decide

/-- A keyword that begins a text is found there. -/
theorem keywordAt_of_mem {keyword : String × LiteralKind} {after : List Char} (hm : keyword ∈ keywords)
    (h : Span.Covers ⟨start, stop⟩ source (keyword.1.toList ++ after)) :
    keywordAt source start stop = .ok (.atom (.literal keyword.2) keyword.1 (.over start keyword.1.toList)) := by
  have hfind : keywordOf? (keyword.1.toList ++ after) = some keyword := by
    simp only [keywords, List.mem_cons, List.not_mem_nil, or_false] at hm
    rcases hm with rfl | rfl | rfl <;> rfl
  rw [keywordAt, slice_of_covers h, Span.over, byteSize_toList]
  simp only [bind, Except.bind, hfind]
  rfl

/-- Where no word of fixed spelling begins a text, everything up to white space is at fault. -/
theorem keywordAt_of_readFixed? (h : Span.Covers ⟨start, stop⟩ source text) (hread : Word.readFixed? text = none) :
    keywordAt source start stop = told start (.error (.unknownToken, text.takeWhile (!isBlank ·))) := by
  have hfind : keywordOf? text = none := by
    rw [keywordOf?, List.find?_eq_none]
    intro keyword hm hprefix
    rw [List.isPrefixOf_iff_prefix] at hprefix
    exact Word.readFixed?_eq_none_iff.mp hread _ (mem_fixed_of_mem_keywords hm) hprefix
  rw [keywordAt, slice_of_covers h, scanWhile_of_covers h]
  simp only [bind, Except.bind, hfind]
  exact refuse_of_covers (covers_takeWhile h _) .unknownToken

theorem fixedAt_eq (h : Span.Covers ⟨start, stop⟩ source (c :: rest)) (hd : ¬c.isDigit = true) (hq : ¬isQuote c = true)
    (hv : c ≠ '$') (hc : c ≠ ')') : fixedAt source start stop = told start (Word.read c rest) := by
  rw [fixedAt, operatorAt?_eq h, operatorAhead?_eq, Word.read, if_neg hd, if_neg hq, if_neg hv, if_neg hc]
  cases hread : Word.readFixed? (c :: rest) with
  | none => exact keywordAt_of_readFixed? h hread
  | some found =>
    obtain ⟨word, after⟩ := found
    obtain ⟨hm, htext⟩ := Word.readFixed?_some hread
    rw [htext] at h
    rcases List.mem_append.mp hm with hm | hm
    · obtain ⟨op, -, rfl⟩ := List.mem_map.mp hm
      show Except.ok _ = told start (.ok _)
      rw [told, Word.plain, String.ofList_toList]
    · simp only [List.mem_cons, List.not_mem_nil, or_false] at hm
      rcases hm with rfl | rfl | rfl
      · exact @keywordAt_of_mem source start stop ("true", .bool) after (by decide) h
      · exact @keywordAt_of_mem source start stop ("false", .bool) after (by decide) h
      · exact @keywordAt_of_mem source start stop ("null", .null) after (by decide) h

/-! ### Groups -/

/-- What the search for the end of a group finds, as offsets: the search begins at byte `offset` of a range that ends at byte `stop`. -/
def endingOf (offset stop : Nat) : Closing → Ending
  | .closed inside _ => .closed (offset + byteSize inside)
  | .openString tail => .openString (stop - byteSize tail)
  | .openGroup => .openGroup

theorem endingOf_push (offset stop : Nat) (c : Char) (closing : Closing) :
    endingOf offset stop (closing.push c) = endingOf (offset + c.utf8Size) stop closing := by
  cases closing with
  | closed inside after => rw [Closing.push, endingOf, endingOf, byteSize_cons, Nat.add_assoc]
  | openString tail => rfl
  | openGroup => rfl

/-- Counting from one for the `(` of the group itself, the count never falls below one before a `)` is counted off, and it falls to zero
where the search ends. -/
theorem count_eq (nested : Nat) (string? : Option (Char × List Char)) {offset : Nat} (hstop : offset + byteSize text = stop) :
    count (nested + 1) (string?.map fun (quote, tail) => (quote, stop - byteSize tail)) offset text =
      .ok (endingOf offset stop (Closing.find nested string? text)) := by
  -- the end of the range stays where it is, and the offset goes on to it with every character
  induction text generalizing nested string? offset with
  | nil => cases string? <;> rfl
  | cons c rest ih =>
    have hrest : offset + c.utf8Size + byteSize rest = stop := by
      rw [← hstop, byteSize_cons, Nat.add_assoc]
    rcases string? with _ | ⟨quote, tail⟩
    · rcases Place.char_cases c with hq | rfl | rfl | hp
      · have hplace : offset = stop - byteSize (c :: rest) := by omega
        have hcount := ih nested (some (c, c :: rest)) hrest
        rw [Option.map_some] at hcount
        simp only [← hplace] at hcount
        rw [Closing.find_quote hq, endingOf_push, Option.map_none, count, if_pos hq, hcount]
      · rw [Closing.find_open, endingOf_push]
        exact ih (nested + 1) none hrest
      · cases nested with
        | zero => rfl
        | succ n =>
          rw [Closing.find_close, endingOf_push]
          exact ih n none hrest
      · obtain ⟨hq, ho, hc⟩ := hp
        rw [Closing.find_plain ⟨hq, ho, hc⟩, endingOf_push, ← ih nested none hrest, Option.map_none, count,
          if_neg (by simp [hq]), if_neg ho, if_neg hc]
    · rw [Closing.find_string, endingOf_push, ← ih nested _ hrest, Option.map_some, count]
      by_cases hc : c = quote
      · rw [if_pos hc, if_pos hc]
        rfl
      · rw [if_neg hc, if_neg hc]
        rfl

theorem count_group (h : Span.Covers ⟨start, stop⟩ source ('(' :: rest)) :
    count 0 none start ('(' :: rest) = .ok (endingOf (start + 1) stop (Closing.find 0 none rest)) :=
  count_eq 0 none (by rw [show stop = _ from h.stop_eq, byteSize_cons, ← Nat.add_assoc])

theorem closeOf_closed {inside after : List Char} (h : Span.Covers ⟨start, stop⟩ source ('(' :: rest))
    (hfind : Closing.find 0 none rest = .closed inside after) :
    closeOf source start stop = .ok (start + 1 + byteSize inside) := by
  rw [closeOf, slice_of_covers h]
  simp only [bind, Except.bind, count_group h, hfind]
  rfl

theorem closeOf_openString {tail : List Char} (h : Span.Covers ⟨start, stop⟩ source ('(' :: rest))
    (hfind : Closing.find 0 none rest = .openString tail) :
    closeOf source start stop = .error (.fault (.malformed .unclosedString (.ofList tail) (.upTo stop tail))) := by
  have htail : Span.Covers ⟨stop - byteSize tail, stop⟩ source tail := by
    rcases Closing.exists_quote_of_openString hfind with ⟨front, quote, more, rfl, rfl, -, -⟩ | ⟨_, hnone, _⟩
    · obtain ⟨-, hmore⟩ := @Span.Covers.of_append source start stop ('(' :: front) (quote :: more) h
      have hstop := hmore.stop_eq
      simp only at hstop
      rwa [show start + byteSize ('(' :: front) = stop - byteSize (quote :: more) by omega] at hmore
    · cases hnone
  rw [closeOf, slice_of_covers h]
  simp only [bind, Except.bind, count_group h, hfind]
  exact refuse_of_covers htail .unclosedString

theorem closeOf_openGroup (h : Span.Covers ⟨start, stop⟩ source ('(' :: rest)) (hfind : Closing.find 0 none rest = .openGroup) :
    closeOf source start stop =
      .error (.fault (.malformed .unclosedGroup (.ofList ('(' :: rest)) (.over start ('(' :: rest)))) := by
  rw [closeOf, slice_of_covers h]
  simp only [bind, Except.bind, count_group h, hfind]
  rw [Span.over, ← h.stop_eq]
  exact refuse_of_covers h .unclosedGroup

/-! ### What a turn does -/

/-- Where the rest of a range begins with neither white space nor `(`, the word there is found or is at fault. -/
theorem turn_of_read {offset : Nat} (h : Span.Covers ⟨offset, stop⟩ source (c :: rest)) (hb : ¬isBlank c = true) (ho : c ≠ '(')
    (depth : Nat) : turn source stop depth offset = (told offset (Word.read c rest)).map .atom := by
  rw [turn, slice_of_covers h]
  simp only [bind, Except.bind]
  rw [if_neg hb]
  by_cases hd : c.isDigit = true
  · rw [if_pos hd, integerAt_eq h hd]
  rw [if_neg hd]
  by_cases hq : isQuote c = true
  · rw [if_pos hq, stringAt_eq h hd hq]
  rw [if_neg hq]
  by_cases hv : c = '$'
  · subst hv
    rw [if_pos rfl, variableAt_eq h]
  rw [if_neg hv, if_neg ho]
  by_cases hc : c = ')'
  · subst hc
    rw [if_pos rfl]
    exact refuse_of_covers h.of_cons.1 .unexpectedCloseParen
  rw [if_neg hc, fixedAt_eq h hd hq hv hc]

/-- Where the rest of a range begins with `(`, the end of the group is looked for, unless the group would pass the limit. -/
theorem turn_open {offset : Nat} (h : Span.Covers ⟨offset, stop⟩ source ('(' :: rest)) (depth : Nat) :
    turn source stop depth offset = if maxNesting ≤ depth then .error (.fault (.tooDeep maxNesting (.over offset ['(']))) else
      (closeOf source offset stop).map .group := by
  rw [turn, slice_of_covers h]
  rfl

/-- What a turn finds at byte `offset` inside `depth` groups, where `text` is the rest of the range. -/
inductive Meets (depth offset : Nat) : (text : List Char) → Except Halt Turn → Prop
  | done : Meets depth offset [] (.ok .done)
  | blank {c : Char} (rest : List Char) : isBlank c = true →
      Meets depth offset (c :: rest) (.ok (.blank (offset + c.utf8Size)))
  | atom {c : Char} {rest after : List Char} {word : Word} : isBlank c = false → c ≠ '(' → Word.read c rest = .ok (word, after) →
      Meets depth offset (c :: rest) (.ok (.atom (.atom word.kind (.ofList word.text) (.over offset word.covered))))
  | group {rest inside after : List Char} : depth < maxNesting → Closing.find 0 none rest = .closed inside after →
      Meets depth offset ('(' :: rest) (.ok (.group (offset + 1 + byteSize inside)))
  | fault {text : List Char} {error : LexError} : itemsOf (some maxNesting) depth offset text = .error error →
      Meets depth offset text (.error (.fault error))

/-- A turn at a boundary finds what the text there begins with. Where it halts, the reading of the text fails in the same way; no slice
is missing, and no `)` is counted off too early. -/
theorem meets_turn {offset : Nat} (h : Span.Covers ⟨offset, stop⟩ source text) (depth : Nat) :
    Meets depth offset text (turn source stop depth offset) := by
  cases text with
  | nil =>
    rw [turn, slice_of_covers h]
    exact .done
  | cons c rest =>
    by_cases hb : isBlank c = true
    · rw [turn, slice_of_covers h]
      simp only [bind, Except.bind]
      rw [if_pos hb]
      exact .blank rest hb
    by_cases ho : c = '('
    · subst ho
      rw [turn_open h]
      by_cases hd : maxNesting ≤ depth
      · rw [if_pos hd]
        exact .fault (itemsOf_tooDeep (by rw [passed?_some, if_pos hd]) offset rest)
      rw [if_neg hd]
      have hp : passed? (some maxNesting) depth = none := by rw [passed?_some, if_neg hd]
      cases hfind : Closing.find 0 none rest with
      | closed inside after =>
        rw [closeOf_closed h hfind]
        exact .group (Nat.lt_of_not_le hd) hfind
      | openString tail =>
        rw [closeOf_openString h hfind, show stop = _ from h.stop_eq]
        exact .fault (itemsOf_openString hp hfind offset)
      | openGroup =>
        rw [closeOf_openGroup h hfind]
        exact .fault (itemsOf_openGroup hp hfind offset)
    rw [turn_of_read h hb ho]
    rw [Bool.not_eq_true] at hb
    cases hread : Word.read c rest with
    | ok found => exact .atom hb ho hread
    | error found => exact .fault (itemsOf_fault hb ho hread _ _ _)

end Scan

end RuleLang
