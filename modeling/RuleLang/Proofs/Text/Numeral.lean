import Mathlib
import RuleLang.Proofs.Text.Order
import RuleLang.Text.Bytes
import RuleLang.Text.Numeral
import RuleLang.Value

/-!
# Numerals are numbers

What is done with the digits of numerals is what would be done with the numbers they denote. The number of a text of digits is told by
their places (`placeValue`), zeros in front add nothing to it, and a numeral is the decimal form of its number
(`Numeral.decimal_toNat`), so that numerals and numbers are the same thing (`Numeral.ofNat_toNat`, `Numeral.toNat_ofNat`). The order of
numerals is that of their numbers (`Numeral.cmp_eq`), and the word that is read from a numeral is its number if that fits
(`Numeral.toUInt64?_eq`).
-/

namespace RuleLang

/-! ### Digits and their places -/

/-- The number that digits denote: each counts for the power of ten of as many places as follow it. -/
def placeValue : List Char → Nat
  | [] => 0
  | c :: digits => (c.toNat - '0'.toNat) * 10 ^ digits.length + placeValue digits

/-- A number with digits behind it is moved up by as many places. -/
theorem ofDigitChars_eq (digits : List Char) (n : Nat) :
    Nat.ofDigitChars 10 digits n = n * 10 ^ digits.length + placeValue digits := by
  induction digits generalizing n with
  | nil => simp [placeValue]
  | cons c digits ih =>
    rw [Nat.ofDigitChars_cons, ih, placeValue, List.length_cons, Nat.pow_succ]
    ring

theorem ofDigitChars_zero_eq (digits : List Char) : Nat.ofDigitChars 10 digits 0 = placeValue digits := by
  rw [ofDigitChars_eq, Nat.zero_mul, Nat.zero_add]

theorem isDigit_iff {c : Char} : c.isDigit = true ↔ '0' ≤ c ∧ c ≤ '9' := by
  simp [Char.isDigit, Char.le_def]

/-- The value of a digit, from which the digit is made again. -/
theorem exists_digitChar_eq {c : Char} (h : c.isDigit = true) : ∃ d < 10, c = Nat.digitChar d := by
  have hle : 48 ≤ c.toNat ∧ c.toNat ≤ 57 := Char.isDigit_iff_toNat.mp h
  refine ⟨c.toNat - 48, by omega, Char.toNat_inj.mp ?_⟩
  rw [Nat.toNat_digitChar_of_lt_ten (by omega)]
  omega

theorem placeValue_lt {digits : List Char} (h : ∀ c ∈ digits, c.isDigit = true) : placeValue digits < 10 ^ digits.length := by
  induction digits with
  | nil => simp [placeValue]
  | cons c digits ih =>
    obtain ⟨d, hd, rfl⟩ := exists_digitChar_eq (h c (List.mem_cons_self ..))
    have hrest := ih fun e he => h e (List.mem_cons_of_mem _ he)
    rw [placeValue, List.length_cons, Nat.pow_succ, show '0'.toNat = 48 from rfl, Nat.toNat_digitChar_sub_48_of_lt_ten hd]
    nlinarith

/-- Digits of one length are in the order of their numbers. -/
theorem TextBefore.placeValue_lt {s t : List Char} (h : TextBefore s t) (hlen : s.length = t.length)
    (hs : ∀ c ∈ s, c.isDigit = true) (ht : ∀ c ∈ t, c.isDigit = true) : placeValue s < placeValue t := by
  induction h with
  | ends d t => cases hlen
  | @differ c d s t hcd =>
    have hlow := RuleLang.placeValue_lt fun e he => hs e (List.mem_cons_of_mem _ he)
    have hlen' : s.length = t.length := Nat.succ.inj hlen
    obtain ⟨m, hm, rfl⟩ := exists_digitChar_eq (hs c (List.mem_cons_self ..))
    obtain ⟨n, hn, rfl⟩ := exists_digitChar_eq (ht d (List.mem_cons_self ..))
    rw [Nat.toNat_digitChar_of_lt_ten hm, Nat.toNat_digitChar_of_lt_ten hn] at hcd
    rw [placeValue, placeValue, show '0'.toNat = 48 from rfl, Nat.toNat_digitChar_sub_48_of_lt_ten hm,
      Nat.toNat_digitChar_sub_48_of_lt_ten hn, ← hlen']
    have hmul : (m + 1) * 10 ^ s.length ≤ n * 10 ^ s.length := Nat.mul_le_mul_right _ (by omega)
    rw [Nat.add_mul, Nat.one_mul] at hmul
    omega
  | @agree c s t _ ih =>
    have hlen' : s.length = t.length := Nat.succ.inj hlen
    rw [placeValue, placeValue, hlen']
    exact Nat.add_lt_add_left (ih hlen' (fun e he => hs e (List.mem_cons_of_mem _ he)) fun e he =>
      ht e (List.mem_cons_of_mem _ he)) _

/-- Zeros in front add nothing. -/
theorem placeValue_dropWhile (digits : List Char) : placeValue (digits.dropWhile (· == '0')) = placeValue digits := by
  induction digits with
  | nil => rfl
  | cons c digits ih =>
    rw [List.dropWhile_cons]
    split
    · rename_i hc
      obtain rfl : c = '0' := by simpa using hc
      rw [ih, placeValue, Nat.sub_self, Nat.zero_mul, Nat.zero_add]
    · rfl

theorem placeValue_withoutZeros (digits : List Char) : placeValue (withoutZeros digits) = placeValue digits := by
  rw [← placeValue_dropWhile digits, withoutZeros]
  split
  · rename_i hdrop
    rw [hdrop]
    rfl
  · rename_i c rest hdrop
    rw [hdrop]

/-- The decimal form of a number goes on with the digits that are put behind it. -/
theorem toDigits_append {digits : List Char} (h : ∀ c ∈ digits, c.isDigit = true) {n : Nat} (hn : 0 < n) :
    Nat.toDigits 10 n ++ digits = Nat.toDigits 10 (Nat.ofDigitChars 10 digits n) := by
  induction digits generalizing n with
  | nil => simp
  | cons c digits ih =>
    obtain ⟨d, hd, rfl⟩ := exists_digitChar_eq (h c (List.mem_cons_self ..))
    have hstep := Nat.toDigits_append_toDigits (b := 10) (by decide) hn hd
    rw [Nat.toDigits_of_lt_base hd] at hstep
    rw [Nat.ofDigitChars_cons_digitChar_of_lt_ten hd, ← ih (fun e he => h e (List.mem_cons_of_mem _ he)) (by omega), ← hstep,
      List.append_assoc, List.singleton_append]

/-- A number is written in one way. -/
theorem IsNumeral.toDigits_placeValue {text : List Char} (h : IsNumeral text) : Nat.toDigits 10 (placeValue text) = text := by
  obtain ⟨hne, hdigits, hzero⟩ := h
  rw [← ofDigitChars_zero_eq]
  cases text with
  | nil => exact absurd rfl hne
  | cons c rest =>
    obtain ⟨d, hd, rfl⟩ := exists_digitChar_eq (hdigits c (List.mem_cons_self ..))
    rw [Nat.ofDigitChars_cons_digitChar_of_lt_ten hd, Nat.mul_zero, Nat.zero_add]
    rcases Nat.eq_zero_or_pos d with rfl | hpos
    · obtain rfl : rest = [] := (List.cons.inj (hzero rfl)).2
      rfl
    · rw [← toDigits_append (fun e he => hdigits e (List.mem_cons_of_mem _ he)) hpos, Nat.toDigits_of_lt_base hd]
      rfl

namespace Numeral

/-! ### Numerals and the numbers they denote -/

theorem ext_digits {a b : Numeral} (h : a.digits = b.digits) : a = b := by
  cases a
  cases b
  cases h
  rfl

theorem toNat_eq (a : Numeral) : a.toNat = placeValue a.digits.toList := ofDigitChars_zero_eq _

/-- A numeral is the decimal form of its number. -/
theorem decimal_toNat (a : Numeral) : decimal a.toNat = a.digits := by
  rw [decimal, toNat_eq, a.isNumeral.toDigits_placeValue, String.ofList_toList]

theorem ofNat_toNat (a : Numeral) : ofNat a.toNat = a := ext_digits a.decimal_toNat

theorem toNat_ofNat (n : Nat) : (ofNat n).toNat = n := by
  have h : (ofNat n).digits = decimal n := rfl
  rw [toNat, h, decimal, String.toList_ofList, Nat.ofDigitChars_ten_toDigits]

theorem toNat_injective {a b : Numeral} (h : a.toNat = b.toNat) : a = b := by
  rw [← a.ofNat_toNat, h, b.ofNat_toNat]

/-- A text of digits has a numeral, which denotes the same number; no other text has one. -/
theorem ofText?_eq_some_iff {text : String} {a : Numeral} :
    ofText? text = some a ↔ text ≠ "" ∧ (∀ c ∈ text.toList, c.isDigit = true) ∧ a.toNat = placeValue text.toList := by
  unfold ofText?
  split
  · rename_i h
    have hvalue : ∀ isNumeral, (⟨.ofList (withoutZeros text.toList), isNumeral⟩ : Numeral).toNat = placeValue text.toList := by
      intro isNumeral
      rw [toNat_eq, String.toList_ofList, placeValue_withoutZeros]
    rw [Option.some.injEq]
    constructor
    · rintro rfl
      exact ⟨h.1, List.all_eq_true.mp h.2, hvalue _⟩
    · rintro ⟨_, _, ha⟩
      exact toNat_injective ((hvalue _).trans ha.symm)
  · rename_i h
    simp only [reduceCtorEq, false_iff]
    rintro ⟨hne, hdigits, _⟩
    exact h ⟨hne, List.all_eq_true.mpr hdigits⟩

theorem ofText?_isSome_iff {text : String} : (ofText? text).isSome ↔ text ≠ "" ∧ ∀ c ∈ text.toList, c.isDigit = true := by
  rw [ofText?, ← List.all_eq_true]
  split <;> simp_all

/-- A numeral is the numeral of its digits. -/
theorem ofText?_digits (a : Numeral) : ofText? a.digits = some a := by
  refine ofText?_eq_some_iff.mpr ⟨?_, a.isNumeral.2.1, a.toNat_eq⟩
  rintro h
  exact a.isNumeral.1 (String.toList_eq_nil_iff.mpr h)

/-! ### Order -/

theorem byteSize_of_isDigit {text : List Char} (h : ∀ c ∈ text, c.isDigit = true) : byteSize text = text.length := by
  induction text with
  | nil => rfl
  | cons c text ih =>
    have hone : c.utf8Size = 1 := by
      have hle : 48 ≤ c.toNat ∧ c.toNat ≤ 57 := Char.isDigit_iff_toNat.mp (h c (List.mem_cons_self ..))
      rw [Char.utf8Size_eq_one_iff, UInt32.le_iff_toNat_le, Char.toNat_val]
      exact Nat.le_trans hle.2 (by decide)
    rw [byteSize_cons, hone, ih fun e he => h e (List.mem_cons_of_mem _ he), List.length_cons, Nat.add_comm]

theorem utf8ByteSize_digits (a : Numeral) : a.digits.utf8ByteSize = a.digits.toList.length := by
  rw [← byteSize_toList, byteSize_of_isDigit a.isNumeral.2.1]

/-- A numeral with more digits denotes the greater number. -/
theorem toNat_lt_of_length_lt {a b : Numeral} (h : a.digits.toList.length < b.digits.toList.length) : a.toNat < b.toNat := by
  have hpos : 0 < a.digits.toList.length := List.length_pos_iff.mpr a.isNumeral.1
  have hlt : a.toNat < 10 ^ a.digits.toList.length := by
    rw [toNat_eq]
    exact placeValue_lt a.isNumeral.2.1
  have hge : ¬b.toNat < 10 ^ a.digits.toList.length := by
    rw [← Nat.length_toDigits_le_iff (by decide) hpos, toNat_eq, b.isNumeral.toDigits_placeValue]
    omega
  omega

/-- The order of numerals is that of their numbers. -/
theorem cmp_eq (a b : Numeral) : a.cmp b = compare a.toNat b.toNat := by
  unfold cmp
  rw [utf8ByteSize_digits, utf8ByteSize_digits]
  rcases Nat.lt_trichotomy a.digits.toList.length b.digits.toList.length with h | h | h
  · rw [Nat.compare_eq_lt.mpr h, Nat.compare_eq_lt.mpr (toNat_lt_of_length_lt h)]
    rfl
  · have horder : ∀ {x y : Numeral}, x.digits.toList.length = y.digits.toList.length → compare x.digits y.digits = .lt →
        x.toNat < y.toNat := by
      intro x y hlen hlt
      rw [toNat_eq, toNat_eq]
      exact (compare_eq_lt_iff_textBefore.mp hlt).placeValue_lt hlen x.isNumeral.2.1 y.isNumeral.2.1
    rw [Nat.compare_eq_eq.mpr h, Ordering.eq_then]
    cases hc : compare a.digits b.digits with
    | lt => exact (Nat.compare_eq_lt.mpr (horder h hc)).symm
    | eq =>
      obtain rfl := ext_digits (Std.LawfulEqCmp.eq_of_compare hc)
      exact (Nat.compare_eq_eq.mpr rfl).symm
    | gt => exact (Nat.compare_eq_gt.mpr (horder h.symm (Std.OrientedCmp.gt_iff_lt.mp hc))).symm
  · rw [Nat.compare_eq_gt.mpr h, Nat.compare_eq_gt.mpr (toNat_lt_of_length_lt h)]
    rfl

/-! ### Words -/

/-- Digits behind a word make it overflow exactly when the number does not fit. -/
theorem foldlM_pushDigit? (digits : List Char) (w : UInt64) :
    digits.foldlM pushDigit? w = RuleLang.toUInt64? (Nat.ofDigitChars 10 digits w.toNat) := by
  induction digits generalizing w with
  | nil => exact (toUInt64?_eq_some_iff.mpr rfl).symm
  | cons c digits ih =>
    rw [List.foldlM_cons, Nat.ofDigitChars_cons, pushDigit?]
    cases hw : RuleLang.toUInt64? (10 * w.toNat + (c.toNat - '0'.toNat)) with
    | some w' =>
      rw [toUInt64?_eq_some_iff.mp hw]
      exact ih w'
    | none =>
      -- the digits that follow make the number only greater
      have hle : 10 * w.toNat + (c.toNat - '0'.toNat) ≤ Nat.ofDigitChars 10 digits (10 * w.toNat + (c.toNat - '0'.toNat)) := by
        rw [ofDigitChars_eq digits]
        exact Nat.le_trans (Nat.le_mul_of_pos_right _ (Nat.pow_pos (by decide))) (Nat.le_add_right _ _)
      unfold RuleLang.toUInt64? at hw ⊢
      split at hw
      · cases hw
      · rw [if_neg (by omega)]
        rfl

theorem toUInt64?_eq (a : Numeral) : a.toUInt64? = RuleLang.toUInt64? a.toNat := foldlM_pushDigit? _ _

theorem toUInt64?_ofNat {n : Nat} (w : UInt64) (h : n = w.toNat) : (ofNat n).toUInt64? = some w := by
  rw [toUInt64?_eq, toNat_ofNat, toUInt64?_eq_some_iff, h]

/-! ### The integers of values -/

/-- What values hold of an integer is the number of its numeral. -/
theorem ofDigits?_eq (text : String) : RuleLang.ofDigits? text = (ofText? text).map toNat := by
  cases h : ofText? text with
  | some a =>
    obtain ⟨hne, hdigits, hvalue⟩ := ofText?_eq_some_iff.mp h
    rw [RuleLang.ofDigits?, if_pos ⟨fun hnil => hne (String.toList_eq_nil_iff.mp hnil), List.all_eq_true.mpr hdigits⟩,
      ofDigitChars_zero_eq, ← hvalue]
    rfl
  | none =>
    rw [Option.map_none, ← Option.not_isSome_iff_eq_none, RuleLang.ofDigits?_isSome_iff]
    rintro ⟨hne, hdigits⟩
    have hsome := ofText?_isSome_iff.mpr ⟨fun hempty => hne (String.toList_eq_nil_iff.mpr hempty), hdigits⟩
    rw [h] at hsome
    cases hsome

theorem display_integer (a : Numeral) : (Value.integer a.toNat).display = a.display := a.decimal_toNat

/-- Numerals behave as numbers of any size. A text has a numeral when it is a run of ASCII digits and not empty. Numerals are equal as
the numbers of their texts are, and compare as these do. A numeral is shown as the decimal form of its number and is read back from it,
and as a word of 64 bits it is its number, where that fits. The numeral of a word is that of its decimal form and gives the word back.
Values hold the numbers of numerals and are shown as these are. -/
theorem ofText?_denotes :
    (∀ text, (ofText? text).isSome ↔ text ≠ "" ∧ ∀ c ∈ text.toList, '0' ≤ c ∧ c ≤ '9') ∧
    (∀ text text' a b, ofText? text = some a → ofText? text' = some b →
      (a = b ↔ placeValue text.toList = placeValue text'.toList) ∧
        a.cmp b = compare (placeValue text.toList) (placeValue text'.toList)) ∧
    (∀ text a, ofText? text = some a →
      a.display = decimal (placeValue text.toList) ∧ IsNumeral a.display.toList ∧ ofText? a.display = some a ∧
        ∀ n, (∃ w : UInt64, a.toUInt64? = some w ∧ w.toNat = n) ↔ placeValue text.toList = n ∧ n < 2 ^ 64) ∧
    (∀ w : UInt64, ofText? (decimal w.toNat) = some (ofUInt64 w) ∧ (ofUInt64 w).toUInt64? = some w) ∧
    (∀ w : UInt32, ofText? (decimal w.toNat) = some (ofUInt32 w) ∧ (ofUInt32 w).toUInt64? = some w.toUInt64) ∧
    (∀ text, RuleLang.ofDigits? text = (ofText? text).map toNat) ∧
      ∀ a : Numeral, (Value.integer a.toNat).display = a.display := by
  refine ⟨?_, ?_, ?_, ?_, ?_, ofDigits?_eq, display_integer⟩
  · intro text
    simp only [ofText?_isSome_iff, isDigit_iff]
  · intro text text' a b ha hb
    obtain ⟨_, _, ha⟩ := ofText?_eq_some_iff.mp ha
    obtain ⟨_, _, hb⟩ := ofText?_eq_some_iff.mp hb
    rw [cmp_eq, ha, hb]
    refine ⟨⟨?_, fun h => toNat_injective (by rw [ha, hb, h])⟩, rfl⟩
    rintro rfl
    exact ha.symm.trans hb
  · intro text a ha
    obtain ⟨_, _, ha⟩ := ofText?_eq_some_iff.mp ha
    refine ⟨?_, a.isNumeral, a.ofText?_digits, ?_⟩
    · rw [← ha, decimal_toNat]
      rfl
    · intro n
      rw [toUInt64?_eq, ha]
      constructor
      · rintro ⟨w, hw, rfl⟩
        exact ⟨toUInt64?_eq_some_iff.mp hw, w.toNat_lt⟩
      · rintro ⟨rfl, hlt⟩
        have hn := UInt64.toNat_ofNat_of_lt' hlt
        exact ⟨.ofNat (placeValue text.toList), toUInt64?_eq_some_iff.mpr hn.symm, hn⟩
  · intro w
    exact ⟨(ofNat w.toNat).ofText?_digits, toUInt64?_ofNat w rfl⟩
  · intro w
    exact ⟨(ofNat w.toNat).ofText?_digits, toUInt64?_ofNat w.toUInt64 w.toNat_toUInt64.symm⟩

/-- Nine is less than the first number that does not fit in a word, though as a text it stands behind. -/
theorem ofText?_denotes_zeros :
    ∃ a b, ofText? "9" = some a ∧ ofText? "0018446744073709551616" = some b ∧ a ≠ b ∧ a.cmp b = .lt ∧
      a.toUInt64? = some 9 ∧ b.toUInt64? = none ∧ b.display = "18446744073709551616" := by
  obtain ⟨hsome, hpairs, heach, _⟩ := ofText?_denotes
  obtain ⟨a, ha⟩ := Option.isSome_iff_exists.mp ((hsome "9").mpr (by simp))
  obtain ⟨b, hb⟩ := Option.isSome_iff_exists.mp ((hsome "0018446744073709551616").mpr (by simp))
  have hvalue : placeValue "9".toList = 9 := by decide
  have hvalue' : placeValue "0018446744073709551616".toList = 18446744073709551616 := by decide
  obtain ⟨heq, hcmp⟩ := hpairs _ _ a b ha hb
  rw [hvalue, hvalue'] at heq hcmp
  obtain ⟨_, _, _, hword⟩ := heach _ a ha
  obtain ⟨hdisplay, _, _, hword'⟩ := heach _ b hb
  refine ⟨a, b, ha, hb, fun h => absurd (heq.mp h) (by decide), hcmp.trans (by decide), ?_, ?_, ?_⟩
  · obtain ⟨w, hw, hn⟩ := (hword 9).mpr ⟨hvalue, by decide⟩
    obtain rfl : w = 9 := UInt64.toNat_inj.mp hn
    exact hw
  · rw [Option.eq_none_iff_forall_ne_some]
    intro w hw
    have hn := (hword' w.toNat).mp ⟨w, hw, rfl⟩
    rw [hvalue'] at hn
    omega
  · rw [hdisplay, hvalue']
    rfl

end Numeral

end RuleLang
