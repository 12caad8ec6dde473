import RuleLang.Text.Decimal

/-!
# Numerals

A number of any size is kept as it is written: as its decimal digits, without zeros in front (`Numeral`). So equal numbers have equal
digits, and no arithmetic is needed to put two numbers in order: the one with more digits is greater, and digits of one length are
compared as texts. A word of 64 bits is read from the digits one by one, as long as it does not overflow.
-/

namespace RuleLang

/-- The text is written as a number is: digits, of which the first is a zero only if it is the only one. -/
def IsNumeral (text : List Char) : Prop :=
  text ≠ [] ∧ (∀ c ∈ text, c.isDigit = true) ∧ (text.head? = some '0' → text = ['0'])

/-- The digits without the zeros in front, but one of them is left if there is no other digit. -/
def withoutZeros (digits : List Char) : List Char :=
  match digits.dropWhile (· == '0') with
  | [] => ['0']
  | c :: rest => c :: rest

theorem isNumeral_withoutZeros {digits : List Char} (h : ∀ c ∈ digits, c.isDigit = true) : IsNumeral (withoutZeros digits) := by
  unfold withoutZeros
  split
  · exact ⟨List.cons_ne_nil _ _, List.forall_mem_singleton.mpr rfl, fun _ => rfl⟩
  · rename_i c rest hdrop
    refine ⟨List.cons_ne_nil _ _, ?_, ?_⟩
    · intro d hd
      exact h d ((List.dropWhile_sublist _).mem (hdrop ▸ hd))
    · intro hzero
      have hfirst := List.head?_dropWhile_not (· == '0') digits
      rw [hdrop, hzero] at hfirst
      simp at hfirst

/-- The first digit of a number other than zero is no zero. -/
theorem head?_toDigits_ne_zero {n : Nat} (hn : n ≠ 0) : (Nat.toDigits 10 n).head? ≠ some '0' := by
  induction n using Nat.strongRecOn with
  | ind n ih =>
    rw [Nat.toDigits_eq_if (by decide)]
    split
    · rw [List.head?_cons, ne_eq, Option.some.injEq, Nat.digitChar_eq_zero]
      exact hn
    · cases hfront : Nat.toDigits 10 (n / 10) with
      | nil => exact absurd hfront Nat.toDigits_ne_nil
      | cons c rest =>
        have hfirst := ih (n / 10) (by omega) (by omega)
        rw [hfront] at hfirst
        exact hfirst

theorem isNumeral_decimal (n : Nat) : IsNumeral (decimal n).toList := by
  rw [decimal, String.toList_ofList]
  refine ⟨Nat.toDigits_ne_nil, fun c hc => Nat.isDigit_of_mem_toDigits (by decide) (by decide) hc, fun hzero => ?_⟩
  obtain rfl : n = 0 := Decidable.byContradiction fun hn => head?_toDigits_ne_zero hn hzero
  exact Nat.toDigits_zero 10

/-- A number as it is written. -/
structure Numeral where
  digits : String
  isNumeral : IsNumeral digits.toList
  deriving DecidableEq

namespace Numeral

/-- The numeral of a text of ASCII digits, where leading zeros do not count. A text that is empty or holds any other character has
none. -/
def ofText? (text : String) : Option Numeral :=
  if h : text ≠ "" ∧ text.toList.all Char.isDigit = true then
    some ⟨.ofList (withoutZeros text.toList), String.toList_ofList ▸ isNumeral_withoutZeros (List.all_eq_true.mp h.2)⟩
  else none

/-- The numeral of a number. -/
def ofNat (n : Nat) : Numeral := ⟨decimal n, isNumeral_decimal n⟩

/-- The numerals of words of 64 bits and of words of 32 bits. -/
def ofUInt64 (w : UInt64) : Numeral := ofNat w.toNat

@[inherit_doc ofUInt64]
def ofUInt32 (w : UInt32) : Numeral := ofNat w.toNat

/-- A numeral is shown as it is written. -/
def display (a : Numeral) : String := a.digits

instance : ToString Numeral := ⟨display⟩

/-- The order of two numerals: by the length of the digits in bytes, and then by the digits as texts. -/
def cmp (a b : Numeral) : Ordering := (compare a.digits.utf8ByteSize b.digits.utf8ByteSize).then (compare a.digits b.digits)

/-- The word with one more digit behind its own, unless it overflows. -/
def pushDigit? (w : UInt64) (c : Char) : Option UInt64 := RuleLang.toUInt64? (10 * w.toNat + (c.toNat - '0'.toNat))

/-- The numeral as a word of 64 bits, if none of its digits makes the word overflow. -/
def toUInt64? (a : Numeral) : Option UInt64 := a.digits.toList.foldlM pushDigit? 0

/-- The number that the numeral denotes. -/
def toNat (a : Numeral) : Nat := Nat.ofDigitChars 10 a.digits.toList 0

end Numeral

end RuleLang
