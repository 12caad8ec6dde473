import Mathlib
import RuleLang.Proofs.CommandLine.Runs
import RuleLang.Proofs.Text.Numeral

/-!
# What the line of a successful run tells

A run that succeeds prints its value and a line break, and nothing besides. A value is never written as nothing, and it is written
without a character that would end the line or that cannot be seen on it (`Value.isGraphic_of_mem_display`). No two values are written
alike, so that the line tells the value (`output_tells_result`).
-/

namespace RuleLang

/-! ### Characters that cannot be seen -/

/-- The control characters: the general category Cc. -/
def controlRanges : List CodeRange := [⟨0x0, 0x1f⟩, ⟨0x7f, 0x9f⟩]

/-- The characters at which a line ends: the line feed and the three controls after it, the next line, and the two separators of lines
and of paragraphs. -/
def lineBreakRanges : List CodeRange := [⟨0xa, 0xd⟩, ⟨0x85, 0x85⟩, ⟨0x2028, 0x2029⟩]

/-- The character is a control character. -/
def isControl (c : Char) : Bool := controlRanges.any (·.holds c)

/-- A line ends at the character. -/
def isLineBreak (c : Char) : Bool := lineBreakRanges.any (·.holds c)

/-- The character is neither a control character nor a line break. -/
def isGraphic (c : Char) : Bool := !isControl c && !isLineBreak c

theorem isGraphic_iff {c : Char} : isGraphic c = true ↔ isControl c = false ∧ isLineBreak c = false := by
  rw [isGraphic, Bool.and_eq_true, Bool.not_eq_true', Bool.not_eq_true']

/-- A character that is written as it is can be seen: the control characters and the line breaks are all escaped, the four that have a
letter in one way and the others in the other. -/
theorem isGraphic_of_unescaped {c : Char} (hshort : shortEscape? c = none) (hcode : isUnprintable c = false) :
    isGraphic c = true := by
  have hletter : ∀ d, (shortEscape? d).isSome → c.toNat ≠ d.toNat := by
    intro d hd heq
    rw [← Char.toNat_inj.mp heq, hshort] at hd
    cases hd
  have hnul := hletter '\x00' rfl
  have htab := hletter '\t' rfl
  have hline := hletter '\n' rfl
  have hreturn := hletter '\r' rfl
  have hout : ∀ r ∈ unprintableRanges, ¬(r.first ≤ c.toNat ∧ c.toNat ≤ r.last) := by
    intro r hr hin
    have hany := List.any_eq_false.mp hcode r hr
    simp [CodeRange.holds, hin] at hany
  have hlow := hout ⟨0x1, 0x8⟩ (by decide +kernel)
  have hfeeds := hout ⟨0xb, 0xc⟩ (by decide +kernel)
  have hhigh := hout ⟨0xe, 0x1f⟩ (by decide +kernel)
  have hdelete := hout ⟨0x7f, 0xa0⟩ (by decide +kernel)
  have hseparators := hout ⟨0x2028, 0x202f⟩ (by decide +kernel)
  simp only [Char.reduceToNat] at hnul htab hline hreturn hlow hfeeds hhigh hdelete hseparators
  simp only [isGraphic_iff, isControl, controlRanges, isLineBreak, lineBreakRanges, CodeRange.holds, List.any_cons, List.any_nil,
    Bool.or_false, Bool.or_eq_false_iff, Bool.and_eq_false_iff, decide_eq_false_iff_not]
  omega

theorem isGraphic_digitChar (digit : Nat) : isGraphic (Nat.digitChar digit) = true := by
  have hall : ∀ d < 16, isGraphic (Nat.digitChar d) = true := by decide
  rcases Nat.lt_or_ge digit 16 with h | h
  · exact hall digit h
  · have hstar : Nat.digitChar digit = '*' := by
      unfold Nat.digitChar
      repeat rw [if_neg (by omega)]
    rw [hstar]
    decide

theorem isGraphic_of_mem_toDigits {base : Nat} (hb : 1 < base) {n : Nat} {c : Char} (h : c ∈ Nat.toDigits base n) :
    isGraphic c = true := by
  by_contra hc
  refine not_mem_toDigits hb (fun digit heq => hc ?_) n h
  rw [← heq]
  exact isGraphic_digitChar digit

/-- Whatever a character is, it is written with characters that can be seen. -/
theorem isGraphic_of_mem_escape {c d : Char} (h : d ∈ escape c) : isGraphic d = true := by
  unfold escape at h
  split at h
  · rename_i letter hletter
    rcases List.mem_cons.mp h with rfl | h
    · decide
    · obtain rfl := List.mem_singleton.mp h
      exact List.all_eq_true.mp (by decide) d (mem_of_shortEscape? hletter)
  · rename_i hshort
    split at h
    · simp only [List.mem_append] at h
      rcases h with (h | h) | h
      · exact List.all_eq_true.mp (by decide) d h
      · exact isGraphic_of_mem_toDigits (by decide) h
      · obtain rfl := List.mem_singleton.mp h
        decide
    · rename_i hcode
      obtain rfl := List.mem_singleton.mp h
      exact isGraphic_of_unescaped hshort (Bool.eq_false_iff.mpr hcode)

/-! ### Written values -/

namespace Value

theorem isGraphic_of_mem_display {v : Value} {c : Char} (h : c ∈ v.display.toList) : isGraphic c = true := by
  cases v with
  | null => exact List.all_eq_true.mp (by decide) c h
  | integer n =>
    rw [display, decimal, String.toList_ofList] at h
    exact isGraphic_of_mem_toDigits (by decide) h
  | string text =>
    rw [display, toList_quoted] at h
    simp only [List.mem_append, List.mem_singleton, List.mem_flatMap] at h
    rcases h with (rfl | ⟨d, _, h⟩) | rfl
    · decide
    · exact isGraphic_of_mem_escape h
    · decide
  | bool b => exact List.all_eq_true.mp (by cases b <;> decide) c h

theorem display_ne_empty (v : Value) : v.display ≠ "" := by
  intro hempty
  have hnil := congrArg String.toList hempty
  cases v with
  | null => cases hnil
  | integer n =>
    rw [display, decimal, String.toList_ofList] at hnil
    exact Nat.toDigits_ne_nil hnil
  | string text =>
    rw [display, toList_quoted] at hnil
    cases hnil
  | bool b => cases b <;> cases hnil

theorem oneLine_display (v : Value) : OneLine v.display :=
  fun h => absurd (isGraphic_of_mem_display h) (by decide)

end Value

/-! ### Runs -/

/-- A run of exit code zero has a value. -/
theorem Run.exists_value_of_exitCode {run : Run} (h : run.exitCode = 0) : ∃ v, run.result = .ok v := by
  unfold exitCode at h
  split at h
  · rename_i v hv
    exact ⟨v, hv⟩
  · cases h

theorem Run.output_of_result {run : Run} {v : Value} (h : run.result = .ok v) : run.output = v.display ++ "\n" := by
  rw [output, h]

/-- What is printed of a value identifies it: values are written alike exactly when they are the same, and a value is written as a text
that is not empty and holds no control character and no line break. An integer is written as the digits that are stored of it. So a
successful run prints one line, and every other successful run that prints this line has the same result. -/
theorem output_tells_result :
    (∀ v w : Value, v.display = w.display ↔ v = w) ∧
    (∀ v : Value, v.display ≠ "" ∧ ∀ c ∈ v.display.toList, isControl c = false ∧ isLineBreak c = false) ∧
    (∀ a : Numeral, (Value.integer a.toNat).display = a.display) ∧
    ∀ arguments, (run arguments).exitCode = 0 → ∃ v, (run arguments).result = .ok v ∧
      ConsistsOf (run arguments).output [v.display] ∧
      ∀ arguments', (run arguments').exitCode = 0 →
        ((run arguments').output = (run arguments).output ↔ (run arguments').result = .ok v) := by
  refine ⟨fun v w => ⟨Value.display_injective, congrArg Value.display⟩,
    fun v => ⟨v.display_ne_empty, fun c hc => isGraphic_iff.mp (Value.isGraphic_of_mem_display hc)⟩, Numeral.display_integer, ?_⟩
  intro arguments hcode
  obtain ⟨v, hv⟩ := Run.exists_value_of_exitCode hcode
  have hprinted := Run.output_of_result hv
  refine ⟨v, hv, hprinted ▸ .singleton v.oneLine_display, ?_⟩
  intro arguments' hcode'
  obtain ⟨w, hw⟩ := Run.exists_value_of_exitCode hcode'
  rw [hprinted, Run.output_of_result hw, hw]
  constructor
  · intro houtput
    rw [← String.toList_inj, String.toList_append, String.toList_append, List.append_left_inj, String.toList_inj] at houtput
    rw [Value.display_injective houtput]
  · intro hresult
    rw [Except.ok.inj hresult]

/-- A string of one line break and a string that is written like its escape are printed on a line each, and the lines differ. -/
theorem output_tells_result_newline :
    ((run ["'\n'"]).exitCode = 0 ∧ (run ["'\\n'"]).exitCode = 0) ∧
      (run ["'\n'"]).output ≠ (run ["'\\n'"]).output ∧ ∃ v, ConsistsOf (run ["'\n'"]).output [Value.display v] := by
  have hresult : ∀ source value, evaluate source ∅ = .ok value → (run [source]).result = .ok value :=
    fun source value h => (Computes.intro (fun _ hm => absurd hm List.not_mem_nil) (updates_nil ∅).tableOf h).result_eq
  have hbreak : (run ["'\n'"]).result = .ok (.string "\n") := hresult _ _ (by cbv)
  have hescape : (run ["'\\n'"]).result = .ok (.string "\\n") := hresult _ _ (by cbv)
  have hcode : (run ["'\n'"]).exitCode = 0 := by rw [Run.exitCode, hbreak]
  have hcode' : (run ["'\\n'"]).exitCode = 0 := by rw [Run.exitCode, hescape]
  obtain ⟨v, hv, hline, hother⟩ := output_tells_result.2.2.2 _ hcode
  refine ⟨⟨hcode, hcode'⟩, fun heq => ?_, v, hline⟩
  have hsame := (hother _ hcode').mp heq.symm
  rw [← hv, hbreak, hescape] at hsame
  exact absurd (Value.string.inj (Except.ok.inj hsame)) (by decide)

end RuleLang
