/-!
# Decimal digits

The integers of the language are the natural numbers, of any size. A number is read from a run of ASCII digits, where leading
zeros do not count, and written without leading zeros. What is written reads back as the same number (`ofDigits?_decimal`).
-/

namespace RuleLang

/-- The decimal digits of a number, without leading zeros. -/
def decimal (n : Nat) : String := String.ofList (Nat.toDigits 10 n)

/-- The number that a text of ASCII digits denotes. A text that is empty or holds any other character denotes none. -/
def ofDigits? (text : String) : Option Nat :=
  if text.toList ≠ [] ∧ text.toList.all Char.isDigit then some (Nat.ofDigitChars 10 text.toList 0) else none

/-- The number as a word of 64 bits, if it fits. -/
def toUInt64? (n : Nat) : Option UInt64 := if n < UInt64.size then some (UInt64.ofNat n) else none

theorem ofDigits?_isSome_iff {text : String} :
    (ofDigits? text).isSome ↔ text.toList ≠ [] ∧ ∀ c ∈ text.toList, c.isDigit = true := by
  simp only [ofDigits?]
  split <;> simp_all

theorem ofDigits?_decimal (n : Nat) : ofDigits? (decimal n) = some n := by
  have hd : ∀ c ∈ Nat.toDigits 10 n, c.isDigit = true := fun c hc => Nat.isDigit_of_mem_toDigits (by decide) (by decide) hc
  simp only [ofDigits?, decimal, String.toList_ofList]
  rw [if_pos ⟨Nat.toDigits_ne_nil, List.all_eq_true.mpr hd⟩, Nat.ofDigitChars_toDigits (by decide) (by decide)]

theorem toUInt64?_eq_some_iff {n : Nat} {w : UInt64} : toUInt64? n = some w ↔ n = w.toNat := by
  simp only [toUInt64?]
  split <;> rename_i h
  · simp only [Option.some.injEq]
    constructor
    · rintro rfl
      exact (UInt64.toNat_ofNat_of_lt' h).symm
    · rintro rfl
      exact UInt64.ofNat_toNat
  · simp only [reduceCtorEq, false_iff]
    rintro rfl
    exact h w.toNat_lt

end RuleLang
