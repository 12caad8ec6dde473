import RuleLang.Item.Error
import RuleLang.Text.Class

/-!
# Words: the atoms at the front of a text

An atom is read by its first character. Digits and the characters of a name are taken as long as they last, a string ends at
the next quote of its own kind, and everything else is one of the fixed spellings, the longer of two that fit. Nothing need
separate a word from what follows it. What is read is the front of the text and is not empty (`Word.eq_append_of_read`,
`Word.covered_ne_nil_of_read`).
-/

namespace RuleLang

/-- An atom at the front of a text: what it is, the text it carries, and the characters it covers. -/
structure Word where
  kind : Atom
  text : List Char
  covered : List Char
  deriving DecidableEq, Repr

/-- What follows `front` in a text that begins with it. -/
def after? : (front text : List Char) → Option (List Char)
  | [], text => some text
  | _ :: _, [] => none
  | c :: front, d :: text => if c = d then after? front text else none

theorem after?_eq_some_iff {front text rest : List Char} : after? front text = some rest ↔ text = front ++ rest := by
  induction front generalizing text with
  | nil => simp [after?]
  | cons c front ih =>
    cases text with
    | nil => simp [after?]
    | cons d text =>
      simp only [after?]
      split <;> rename_i h
      · simp [h, ih]
      · simp [Ne.symm h]

namespace Word

/-- A word that carries its own spelling. -/
def plain (kind : Atom) (covered : List Char) : Word := ⟨kind, covered, covered⟩

/-- The words with a fixed spelling: operators, the longer ones first, and keywords. No spelling is the front of a later one. -/
def fixed : List Word :=
  Operator.longestFirst.map (fun op => plain (.operator op) op.symbol.toList) ++
    [plain (.literal .bool) "true".toList, plain (.literal .bool) "false".toList, plain (.literal .null) "null".toList]

/-- The first word of fixed spelling that the text begins with, and what follows it. -/
def readFixed? (text : List Char) : Option (Word × List Char) :=
  fixed.findSome? fun word => (after? word.covered text).map (word, ·)

/-- The word that begins with the character `c` and goes on into `rest`, and what follows it. Where there is none, the fault
and the characters at fault: for a string all that is left of the text, for an unknown token all up to the next white space. -/
def read (c : Char) (rest : List Char) : Except (Fault × List Char) (Word × List Char) :=
  if c.isDigit then
    .ok (plain (.literal .integer) (c :: rest.takeWhile Char.isDigit), rest.dropWhile Char.isDigit)
  else if isQuote c then
    match rest.dropWhile (· != c) with
    | [] => .error (.unclosedString, c :: rest)
    | _ :: after =>
      let text := rest.takeWhile (· != c)
      .ok (⟨.literal .string, text, c :: text ++ [c]⟩, after)
  else if c = '$' then
    match rest.takeWhile isNameChar with
    | [] => .error (.emptyVariable, [c])
    | name => .ok (plain .var (c :: name), rest.dropWhile isNameChar)
  else if c = ')' then .error (.unexpectedCloseParen, [c])
  else
    match readFixed? (c :: rest) with
    | some found => .ok found
    | none => .error (.unknownToken, (c :: rest).takeWhile (!isBlank ·))

theorem readFixed?_some {text after : List Char} {word : Word} (h : readFixed? text = some (word, after)) :
    word ∈ fixed ∧ text = word.covered ++ after := by
  obtain ⟨word', hm, hw⟩ := List.exists_of_findSome?_eq_some h
  obtain ⟨_, ha, hp⟩ := Option.map_eq_some_iff.mp hw
  obtain ⟨rfl, rfl⟩ := Prod.mk.inj hp
  exact ⟨hm, after?_eq_some_iff.mp ha⟩

theorem covered_ne_nil_of_mem_fixed {word : Word} (h : word ∈ fixed) : word.covered ≠ [] := by
  revert word
  decide

/-- A word covers the front of the text it is read from. -/
theorem eq_append_of_read {c : Char} {rest after : List Char} {word : Word} (h : read c rest = .ok (word, after)) :
    c :: rest = word.covered ++ after := by
  unfold read at h
  split at h
  · obtain ⟨rfl, rfl⟩ := Prod.mk.inj (Except.ok.inj h)
    simp [plain]
  · split at h
    · split at h
      · cases h
      · rename_i d tail hd
        obtain ⟨rfl, rfl⟩ := Prod.mk.inj (Except.ok.inj h)
        have hc : d = c := by
          have := List.head?_dropWhile_not (· != c) rest
          rw [hd] at this
          simpa using this
        have := List.takeWhile_append_dropWhile (p := (· != c)) (l := rest)
        rw [hd, hc] at this
        simpa using this.symm
    · split at h
      · split at h
        · cases h
        · obtain ⟨rfl, rfl⟩ := Prod.mk.inj (Except.ok.inj h)
          simp [plain]
      · split at h
        · cases h
        · split at h
          · rename_i found hf
            cases h
            exact (readFixed?_some hf).2
          · cases h

/-- A word covers at least one character. -/
theorem covered_ne_nil_of_read {c : Char} {rest after : List Char} {word : Word} (h : read c rest = .ok (word, after)) :
    word.covered ≠ [] := by
  unfold read at h
  split at h
  · obtain ⟨rfl, rfl⟩ := Prod.mk.inj (Except.ok.inj h)
    simp [plain]
  · split at h
    · split at h
      · cases h
      · obtain ⟨rfl, rfl⟩ := Prod.mk.inj (Except.ok.inj h)
        simp
    · split at h
      · split at h
        · cases h
        · obtain ⟨rfl, rfl⟩ := Prod.mk.inj (Except.ok.inj h)
          simp [plain]
      · split at h
        · cases h
        · split at h
          · rename_i found hf
            cases h
            exact covered_ne_nil_of_mem_fixed (readFixed?_some hf).1
          · cases h

/-- Reading a word leaves less to read. -/
theorem length_lt_of_read {c : Char} {rest after : List Char} {word : Word} (h : read c rest = .ok (word, after)) :
    after.length < (c :: rest).length := by
  have := List.length_pos_iff.mpr (covered_ne_nil_of_read h)
  rw [eq_append_of_read h, List.length_append]
  omega

end Word

end RuleLang
