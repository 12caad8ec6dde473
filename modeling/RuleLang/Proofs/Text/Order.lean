import Mathlib

/-!
# The order of texts

Texts are in the order of their code points: at the first difference the smaller code point decides, and a text stands before every
longer one that it begins (`TextBefore`). This is the order of strings, and it is the order of their bytes in UTF-8 as well: of two
characters the one with the smaller code point has the smaller byte where their encodings differ first
(`utf8EncodeChar_append_lt`), so that comparing bytes and comparing code points come to the same (`compareOfLessAndEq_bytesOf`).
-/

namespace RuleLang

/-- The text stands before the other: it is a proper front of it, or it has the smaller code point where they differ first. -/
inductive TextBefore : List Char → List Char → Prop
  | ends (d : Char) (t : List Char) : TextBefore [] (d :: t)
  | differ {c d : Char} (s t : List Char) : c.toNat < d.toNat → TextBefore (c :: s) (d :: t)
  | agree (c : Char) {s t : List Char} : TextBefore s t → TextBefore (c :: s) (c :: t)

theorem textBefore_iff_lt {s t : List Char} : TextBefore s t ↔ s < t := by
  constructor
  · intro h
    induction h with
    | ends d t => exact List.nil_lt_cons d t
    | differ s t hcd => exact List.cons_lt_cons_iff.mpr (Or.inl (UInt32.lt_iff_toNat_lt.mpr hcd))
    | agree c _ ih => exact List.cons_lt_cons_iff.mpr (Or.inr ⟨rfl, ih⟩)
  · intro h
    induction s generalizing t with
    | nil =>
      cases t with
      | nil => exact absurd h (List.lt_irrefl [])
      | cons d t => exact .ends d t
    | cons c s ih =>
      cases t with
      | nil => exact absurd h (List.not_lt_nil _)
      | cons d t =>
        rcases List.cons_lt_cons_iff.mp h with hcd | ⟨rfl, hst⟩
        · exact .differ s t (UInt32.lt_iff_toNat_lt.mp hcd)
        · exact .agree c (ih hst)

/-- One string is less than another when its text stands before the other's. -/
theorem lt_iff_textBefore {s t : String} : s < t ↔ TextBefore s.toList t.toList := by
  rw [textBefore_iff_lt, String.lt_iff]

theorem compare_eq_lt_iff_textBefore {s t : String} : compare s t = .lt ↔ TextBefore s.toList t.toList :=
  compareOfLessAndEq_eq_lt.trans lt_iff_textBefore

/-! ### Bytes -/

/-- Of two texts of bytes the one with the smaller first byte is less, and bytes that agree leave it to the rest. -/
theorem ofNat_cons_lt {m n : Nat} (hn : n < 256) (hmn : m ≤ n) {s t : List UInt8} (h : m = n → s < t) :
    UInt8.ofNat m :: s < UInt8.ofNat n :: t := by
  rw [List.cons_lt_cons_iff]
  rcases Nat.lt_or_eq_of_le hmn with hlt | rfl
  · refine Or.inl ?_
    rw [UInt8.lt_iff_toNat_lt, UInt8.toNat_ofNat', UInt8.toNat_ofNat', Nat.mod_eq_of_lt (Nat.lt_trans hlt hn), Nat.mod_eq_of_lt hn]
    exact hlt
  · exact Or.inr ⟨rfl, h rfl⟩

/-- The character with the smaller code point has the lesser encoding, whatever follows. A longer encoding has the greater first byte;
encodings of one length hold the code point in base 64, so that they differ first in the highest digit that differs. -/
theorem utf8EncodeChar_append_lt {c d : Char} (h : c.toNat < d.toNat) (s t : List UInt8) :
    String.utf8EncodeChar c ++ s < String.utf8EncodeChar d ++ t := by
  have hd : d.toNat < 0x110000 := by
    have hvalid := d.valid
    simp only [UInt32.isValidChar, Nat.isValidChar, Char.toNat_val] at hvalid
    omega
  rw [← Char.toNat_val, ← Char.toNat_val] at h
  rw [← Char.toNat_val] at hd
  simp only [String.utf8EncodeChar]
  generalize c.val.toNat = m at h ⊢
  generalize d.val.toNat = n at h hd ⊢
  -- the cases are the lengths of both encodings; that of the smaller code point is not the longer one
  split
  · split
    · exact ofNat_cons_lt (by omega) (by omega) (by omega)
    · split
      · exact ofNat_cons_lt (by omega) (by omega) (by omega)
      · split <;> exact ofNat_cons_lt (by omega) (by omega) (by omega)
  · rw [if_neg (show ¬n ≤ 0x7f by omega)]
    split
    · split
      · exact ofNat_cons_lt (by omega) (by omega) fun _ => ofNat_cons_lt (by omega) (by omega) (by omega)
      · split <;> exact ofNat_cons_lt (by omega) (by omega) (by omega)
    · rw [if_neg (show ¬n ≤ 0x7ff by omega)]
      split
      · split
        · exact ofNat_cons_lt (by omega) (by omega) fun _ => ofNat_cons_lt (by omega) (by omega) fun _ =>
            ofNat_cons_lt (by omega) (by omega) (by omega)
        · exact ofNat_cons_lt (by omega) (by omega) (by omega)
      · rw [if_neg (show ¬n ≤ 0xffff by omega)]
        exact ofNat_cons_lt (by omega) (by omega) fun _ => ofNat_cons_lt (by omega) (by omega) fun _ =>
          ofNat_cons_lt (by omega) (by omega) fun _ => ofNat_cons_lt (by omega) (by omega) (by omega)

theorem append_lt_append_left {s t : List UInt8} (front : List UInt8) (h : s < t) : front ++ s < front ++ t := by
  induction front with
  | nil => exact h
  | cons byte front ih => exact List.cons_lt_cons_iff.mpr (Or.inr ⟨rfl, ih⟩)

/-- A text that stands before another has the lesser bytes. -/
theorem TextBefore.flatMap_utf8EncodeChar_lt {s t : List Char} (h : TextBefore s t) :
    s.flatMap String.utf8EncodeChar < t.flatMap String.utf8EncodeChar := by
  induction h with
  | ends d t =>
    obtain ⟨byte, bytes, hd⟩ := List.exists_cons_of_ne_nil (@String.utf8EncodeChar_ne_nil d)
    rw [List.flatMap_nil, List.flatMap_cons, hd]
    exact List.nil_lt_cons byte _
  | differ s t hcd =>
    rw [List.flatMap_cons, List.flatMap_cons]
    exact utf8EncodeChar_append_lt hcd _ _
  | agree c _ ih =>
    rw [List.flatMap_cons, List.flatMap_cons]
    exact append_lt_append_left _ ih

/-- The bytes of a string in UTF-8. -/
def bytesOf (s : String) : List UInt8 := s.toByteArray.data.toList

/-- The bytes of a string are the encodings of its characters. -/
theorem bytesOf_eq (s : String) : bytesOf s = s.toList.flatMap String.utf8EncodeChar := by
  rw [bytesOf, ← String.utf8Encode_toList]
  exact List.toList_data_toByteArray

theorem bytesOf_inj {s t : String} : bytesOf s = bytesOf t ↔ s = t := by
  rw [bytesOf, bytesOf, Array.toList_inj, ← ByteArray.ext_iff, String.toByteArray_inj]

theorem bytesOf_lt {s t : String} (h : s < t) : bytesOf s < bytesOf t := by
  rw [bytesOf_eq, bytesOf_eq]
  exact (lt_iff_textBefore.mp h).flatMap_utf8EncodeChar_lt

/-- Strings compare as their bytes do. -/
theorem compareOfLessAndEq_bytesOf (s t : String) : compareOfLessAndEq (bytesOf s) (bytesOf t) = compare s t := by
  rcases lt_trichotomy s t with h | rfl | h
  · rw [compareOfLessAndEq_eq_lt.mpr (bytesOf_lt h)]
    exact (compareOfLessAndEq_eq_lt.mpr h).symm
  · have hsame : compare s s = .eq := Std.ReflCmp.compare_self
    rw [hsame, compareOfLessAndEq, if_neg (List.lt_irrefl _), if_pos rfl]
  · have hgt : compare s t = .gt := Std.OrientedCmp.gt_iff_lt.mpr (compareOfLessAndEq_eq_lt.mpr h)
    have hbytes := bytesOf_lt h
    rw [hgt, compareOfLessAndEq, if_neg (List.lt_asymm hbytes), if_neg fun heq => List.lt_irrefl _ (heq ▸ hbytes)]

end RuleLang
