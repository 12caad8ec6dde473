import RuleLang.Item.Word

/-!
# How atoms are spelled

What the grammar of a source says of one atom, apart from how it is read: the text an atom of each kind can carry
(`Atom.Admits`), the characters that spell it (`Atom.Spelled`), and the characters that would go on with it and so must not come
next (`Atom.goesOn`). Every spelling that ends is read (`Word.read_of_spelled`), and what is read is one
(`Word.spelled_of_read`).
-/

namespace RuleLang

/-! ### Classes of characters -/

/-- Digits are characters of names. -/
theorem isNameChar_of_isDigit {c : Char} (h : c.isDigit = true) : isNameChar c = true := by
  simp [isNameChar, Char.isAlphanum, h]

/-- No character of names is white space. -/
theorem isBlank_of_isNameChar {c : Char} (h : isNameChar c = true) : isBlank c = false := by
  have hv : c.toNat = c.val.toNat := rfl
  unfold isNameChar Char.isAlphanum Char.isAlpha Char.isUpper Char.isLower Char.isDigit at h
  simp only [Bool.or_eq_true, Bool.and_eq_true, beq_iff_eq, decide_eq_true_eq, ge_iff_le, UInt32.le_iff_toNat_le, ← hv] at h
  simp only [isBlank, blankRanges, CodeRange.holds, List.any_cons, List.any_nil, Bool.or_false, Bool.or_eq_false_iff,
    Bool.and_eq_false_iff, decide_eq_false_iff_not, Nat.not_le]
  rcases h with rfl | ((⟨h1, h2⟩ | ⟨h1, h2⟩) | ⟨h1, h2⟩)
  · decide
  · simp at h1 h2
    omega
  · simp at h1 h2
    omega
  · simp at h1 h2
    omega

namespace Atom

/-- The texts an atom of the kind can carry. -/
def Admits : Atom → List Char → Prop
  | literal .integer, text => text ≠ [] ∧ ∀ c ∈ text, c.isDigit = true
  | literal .string, text => ¬('\'' ∈ text ∧ '"' ∈ text)
  | literal .bool, text => text = ['t', 'r', 'u', 'e'] ∨ text = ['f', 'a', 'l', 's', 'e']
  | literal .null, text => text = ['n', 'u', 'l', 'l']
  | var, text => ∃ name, text = '$' :: name ∧ name ≠ [] ∧ ∀ c ∈ name, isNameChar c = true
  | operator op, text => text = op.symbol.toList

/-- An atom of the kind that carries `text` is spelled by the characters `covered`. Only a string is spelled otherwise than by its
text: between two quotes of one kind, which the text does not hold. -/
inductive Spelled : Atom → (text covered : List Char) → Prop
  | integer {digits : List Char} : digits ≠ [] → (∀ c ∈ digits, c.isDigit = true) →
      Spelled (literal .integer) digits digits
  | string {quote : Char} {text : List Char} : isQuote quote = true → quote ∉ text →
      Spelled (literal .string) text (quote :: (text ++ [quote]))
  | boolTrue : Spelled (literal .bool) ['t', 'r', 'u', 'e'] ['t', 'r', 'u', 'e']
  | boolFalse : Spelled (literal .bool) ['f', 'a', 'l', 's', 'e'] ['f', 'a', 'l', 's', 'e']
  | null : Spelled (literal .null) ['n', 'u', 'l', 'l'] ['n', 'u', 'l', 'l']
  | var {name : List Char} : name ≠ [] → (∀ c ∈ name, isNameChar c = true) → Spelled var ('$' :: name) ('$' :: name)
  | operator (op : Operator) : Spelled (operator op) op.symbol.toList op.symbol.toList

/-- The character goes on with an atom of the kind: a digit with an integer, a character of names with a variable, and `=` with
the two operators that are the front of a longer one. -/
def goesOn : Atom → Char → Bool
  | literal .integer, c => c.isDigit
  | var, c => isNameChar c
  | operator .lt, c | operator .gt, c => c == '='
  | _, _ => false

/-- An atom of the kind ends before the text `after`: the first character there, if there is one, does not go on with it. -/
def EndsBefore (kind : Atom) (after : List Char) : Prop := ∀ c, after.head? = some c → kind.goesOn c = false

theorem endsBefore_nil (kind : Atom) : kind.EndsBefore [] := by
  intro c hc
  cases hc

theorem endsBefore_cons {kind : Atom} {c : Char} (h : kind.goesOn c = false) (after : List Char) :
    kind.EndsBefore (c :: after) := by
  intro d hd
  obtain rfl := Option.some.inj hd
  exact h

/-- White space, parentheses and the `$` of a variable go on with no atom. -/
theorem goesOn_eq_false {c : Char} (h : isBlank c = true ∨ c = '(' ∨ c = ')' ∨ c = '$') (kind : Atom) :
    kind.goesOn c = false := by
  have hn : isNameChar c = false := by
    rcases h with h | rfl | rfl | rfl
    · rw [Bool.eq_false_iff]
      intro hn
      rw [isBlank_of_isNameChar hn] at h
      cases h
    all_goals decide
  have he : c ≠ '=' := by
    rcases h with h | rfl | rfl | rfl
    · rintro rfl
      revert h
      decide
    all_goals decide
  unfold goesOn
  split
  · rw [Bool.eq_false_iff]
    intro hd
    rw [isNameChar_of_isDigit hd] at hn
    cases hn
  · exact hn
  all_goals simp [he]

/-- An atom can be spelled exactly when it carries a text of its kind. -/
theorem exists_spelled_iff {kind : Atom} {text : List Char} : (∃ covered, Spelled kind text covered) ↔ kind.Admits text := by
  constructor
  · rintro ⟨covered, h⟩
    cases h with
    | integer hn hd => exact ⟨hn, hd⟩
    | string hq ht =>
      rintro ⟨hs, hd⟩
      simp only [isQuote, Bool.or_eq_true, beq_iff_eq] at hq
      rcases hq with rfl | rfl
      · exact ht hs
      · exact ht hd
    | boolTrue => exact Or.inl rfl
    | boolFalse => exact Or.inr rfl
    | null => rfl
    | var hn hd => exact ⟨_, rfl, hn, hd⟩
    | operator op => rfl
  · intro h
    rcases kind with kind | _ | op
    · cases kind with
      | integer => exact ⟨text, .integer h.1 h.2⟩
      | string =>
        by_cases hs : '\'' ∈ text
        · have hd : '"' ∉ text := fun hd => h ⟨hs, hd⟩
          exact ⟨_, .string rfl hd⟩
        · exact ⟨_, .string rfl hs⟩
      | bool =>
        rcases h with rfl | rfl
        · exact ⟨_, .boolTrue⟩
        · exact ⟨_, .boolFalse⟩
      | null =>
        obtain rfl : text = ['n', 'u', 'l', 'l'] := h
        exact ⟨_, .null⟩
    · obtain ⟨name, rfl, hn, hd⟩ := h
      exact ⟨_, .var hn hd⟩
    · obtain rfl : text = op.symbol.toList := h
      exact ⟨_, .operator op⟩

theorem Spelled.ne_nil {kind : Atom} {text covered : List Char} (h : kind.Spelled text covered) : covered ≠ [] := by
  cases h with
  | integer hn => exact hn
  | operator op => cases op <;> decide
  | _ => exact List.cons_ne_nil _ _

end Atom

/-! ### Reading a word -/

/-- A run of characters of one class, up to a character that is not of the class. -/
theorem takeWhile_eq_front {p : Char → Bool} {front after : List Char} (hf : ∀ c ∈ front, p c = true)
    (ha : ∀ c, after.head? = some c → p c = false) : (front ++ after).takeWhile p = front := by
  rw [List.takeWhile_append_of_pos hf]
  cases after with
  | nil => simp
  | cons c after => simp [ha c rfl]

theorem dropWhile_eq_after {p : Char → Bool} {front after : List Char} (hf : ∀ c ∈ front, p c = true)
    (ha : ∀ c, after.head? = some c → p c = false) : (front ++ after).dropWhile p = after := by
  rw [List.dropWhile_append_of_pos hf]
  cases after with
  | nil => rfl
  | cons c after => simp [ha c rfl]

/-- What `dropWhile` stops at is not of the class. -/
theorem head?_dropWhile {p : Char → Bool} {text : List Char} :
    ∀ c, (text.dropWhile p).head? = some c → p c = false := by
  intro c hc
  have h := List.head?_dropWhile_not p text
  rw [hc] at h
  simpa using h

namespace Word

/-- An operator is read where it stands, unless it is `<` or `>` and `=` follows. -/
theorem readFixed?_operator {op : Operator} {after : List Char} (h : (Atom.operator op).EndsBefore after) :
    readFixed? (op.symbol.toList ++ after) = some (plain (.operator op) op.symbol.toList, after) := by
  have hne : op = .lt ∨ op = .gt → ∀ c, after.head? = some c → c ≠ '=' := by
    rintro (rfl | rfl) c hc <;> simpa [Atom.goesOn] using h c hc
  cases op <;> cases after <;> simp_all [readFixed?, fixed, Operator.longestFirst, Operator.symbol, after?, plain, eq_comm]

/-- A keyword is read where it stands, whatever follows it. -/
theorem readFixed?_keyword {word : Word} (h : word ∈ fixed) (hk : ∀ op, word.kind ≠ .operator op) (after : List Char) :
    readFixed? (word.covered ++ after) = some (word, after) := by
  simp only [fixed, List.mem_append, List.mem_map, List.mem_cons, List.not_mem_nil, or_false] at h
  rcases h with ⟨op, _, rfl⟩ | rfl | rfl | rfl
  · exact absurd rfl (hk op)
  all_goals simp [readFixed?, fixed, Operator.longestFirst, Operator.symbol, after?, plain]

/-- A word of fixed spelling begins with none of the characters that `read` looks for first. -/
theorem read_of_readFixed? {c : Char} {rest after : List Char} {word : Word} (hm : word ∈ fixed)
    (h : readFixed? (word.covered ++ after) = some (word, after)) (hc : c :: rest = word.covered ++ after) :
    read c rest = .ok (word, after) := by
  have key : fixed.all (fun word => word.covered.head?.all fun d => !(d.isDigit || isQuote d || d == '$' || d == ')')) = true := by
    decide
  have hd : word.covered.head? = some c := by
    have hne := covered_ne_nil_of_mem_fixed hm
    cases hw : word.covered with
    | nil => exact absurd hw hne
    | cons d tail =>
      rw [hw] at hc
      rw [(List.cons.inj hc).1]
      rfl
  have hfirst := List.all_eq_true.mp key word hm
  rw [hd] at hfirst
  simp only [Option.all_some, Bool.not_eq_true', Bool.or_eq_false_iff, beq_eq_false_iff_ne, ne_eq] at hfirst
  obtain ⟨⟨⟨h1, h2⟩, h3⟩, h4⟩ := hfirst
  rw [read, if_neg (by simp [h1]), if_neg (by simp [h2]), if_neg h3, if_neg h4, hc, h]

/-- A spelling that ends is read as the word it spells. -/
theorem read_of_spelled {kind : Atom} {text covered after rest : List Char} {c : Char} (h : kind.Spelled text covered)
    (he : kind.EndsBefore after) (hc : c :: rest = covered ++ after) :
    read c rest = .ok (⟨kind, text, covered⟩, after) := by
  cases h with
  | integer hn hd =>
    cases text with
    | nil => exact absurd rfl hn
    | cons d digits =>
      rw [List.cons_append] at hc
      obtain ⟨rfl, rfl⟩ := List.cons.inj hc
      have hdig : ∀ d ∈ digits, d.isDigit = true := fun d hm => hd d (List.mem_cons_of_mem _ hm)
      rw [read, if_pos (hd c (List.mem_cons_self ..)), takeWhile_eq_front hdig he, dropWhile_eq_after hdig he]
      rfl
  | @string quote _ hq ht =>
    rw [List.cons_append] at hc
    obtain ⟨rfl, rfl⟩ := List.cons.inj hc
    have hdigit : c.isDigit = false := by
      simp only [isQuote, Bool.or_eq_true, beq_iff_eq] at hq
      rcases hq with rfl | rfl <;> decide
    have hin : ∀ d ∈ text, (d != c) = true := by
      intro d hd
      rw [bne_iff_ne]
      rintro rfl
      exact ht hd
    have hout : ∀ d, (c :: after).head? = some d → (d != c) = false := by
      intro d hd
      obtain rfl := Option.some.inj hd
      simp
    rw [List.append_assoc, List.singleton_append, read, if_neg (by simp [hdigit]), if_pos hq, dropWhile_eq_after hin hout,
      takeWhile_eq_front hin hout]
    rfl
  | @var name hn hd =>
    rw [List.cons_append] at hc
    obtain ⟨rfl, rfl⟩ := List.cons.inj hc
    rw [read, if_neg (by decide), if_neg (by decide), if_pos rfl, takeWhile_eq_front hd he, dropWhile_eq_after hd he]
    cases name with
    | nil => exact absurd rfl hn
    | cons d name => rfl
  | operator op =>
    have hm : plain (.operator op) op.symbol.toList ∈ fixed :=
      List.mem_append_left _ (List.mem_map.mpr ⟨op, Operator.mem_longestFirst op, rfl⟩)
    exact read_of_readFixed? hm (readFixed?_operator he) hc
  | boolTrue =>
    have hm : plain (.literal .bool) ['t', 'r', 'u', 'e'] ∈ fixed := by decide
    exact read_of_readFixed? hm (readFixed?_keyword hm nofun after) hc
  | boolFalse =>
    have hm : plain (.literal .bool) ['f', 'a', 'l', 's', 'e'] ∈ fixed := by decide
    exact read_of_readFixed? hm (readFixed?_keyword hm nofun after) hc
  | null =>
    have hm : plain (.literal .null) ['n', 'u', 'l', 'l'] ∈ fixed := by decide
    exact read_of_readFixed? hm (readFixed?_keyword hm nofun after) hc

theorem spelled_of_mem_fixed {word : Word} (h : word ∈ fixed) : word.kind.Spelled word.text word.covered := by
  simp only [fixed, List.mem_append, List.mem_map, List.mem_cons, List.not_mem_nil, or_false] at h
  rcases h with ⟨op, _, rfl⟩ | rfl | rfl | rfl
  · exact .operator op
  · exact .boolTrue
  · exact .boolFalse
  · exact .null

/-- The word of fixed spelling that is read ends where it is read: were `<` or `>` followed by `=`, the longer operator would have
been read. -/
theorem spelled_of_readFixed? {text after : List Char} {word : Word} (h : readFixed? text = some (word, after)) :
    word.kind.Spelled word.text word.covered ∧ word.kind.EndsBefore after := by
  obtain ⟨hm, ht⟩ := readFixed?_some h
  refine ⟨spelled_of_mem_fixed hm, fun c hc => ?_⟩
  obtain ⟨tail, rfl⟩ : ∃ tail, after = c :: tail := by
    cases after with
    | nil => cases hc
    | cons d tail => exact ⟨tail, by rw [Option.some.inj hc]⟩
  rw [Bool.eq_false_iff]
  intro hg
  simp only [fixed, List.mem_append, List.mem_map, List.mem_cons, List.not_mem_nil, or_false] at hm
  rcases hm with ⟨op, _, rfl⟩ | rfl | rfl | rfl
  · have hlong : ∀ long : Operator, (Atom.operator long).EndsBefore tail →
        op.symbol.toList ++ c :: tail = long.symbol.toList ++ tail → op = long := by
      intro long he hl
      rw [ht] at h
      have hr := readFixed?_operator he
      rw [← hl, show op.symbol.toList = (plain (.operator op) op.symbol.toList).covered from rfl, h] at hr
      exact Atom.operator.inj (congrArg (fun found : Word × List Char => found.1.kind) (Option.some.inj hr))
    cases op <;> simp only [Atom.goesOn, plain, beq_iff_eq, Bool.false_eq_true] at hg <;> subst hg
    · exact absurd (hlong .lte (fun _ _ => rfl) rfl) (by decide)
    · exact absurd (hlong .gte (fun _ _ => rfl) rfl) (by decide)
  all_goals cases hg

/-- What is read is spelled as it stands and ends there. -/
theorem spelled_of_read {c : Char} {rest after : List Char} {word : Word} (h : read c rest = .ok (word, after)) :
    word.kind.Spelled word.text word.covered ∧ word.kind.EndsBefore after := by
  have heq := eq_append_of_read h
  unfold read at h
  split at h
  · rename_i hd
    obtain ⟨rfl, rfl⟩ := Prod.mk.inj (Except.ok.inj h)
    refine ⟨.integer (List.cons_ne_nil _ _) fun d hm => ?_, head?_dropWhile⟩
    rcases List.mem_cons.mp hm with rfl | hm
    · exact hd
    · exact List.all_eq_true.mp List.all_takeWhile d hm
  · split at h
    · rename_i hq
      split at h
      · cases h
      · obtain ⟨rfl, rfl⟩ := Prod.mk.inj (Except.ok.inj h)
        refine ⟨.string hq fun hm => ?_, fun _ _ => rfl⟩
        have hne := List.all_eq_true.mp List.all_takeWhile c hm
        simp at hne
    · split at h
      · rename_i hc
        split at h
        · cases h
        · rename_i hn
          obtain ⟨rfl, rfl⟩ := Prod.mk.inj (Except.ok.inj h)
          subst hc
          refine ⟨.var hn fun d hm => ?_, head?_dropWhile⟩
          exact List.all_eq_true.mp List.all_takeWhile d hm
      · split at h
        · cases h
        · split at h
          · rename_i found hf
            cases h
            exact spelled_of_readFixed? hf
          · cases h

end Word

end RuleLang
