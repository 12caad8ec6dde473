/-!
# Texts measured in bytes

Positions in a source are byte offsets into its UTF-8 form, while the text itself is a sequence of characters. Here is the
measure that joins the two, `byteSize`, and the cut of a text at a byte offset, `splitAtByte?`, which exists exactly at the
offsets where a character begins or the text ends (`splitAtByte?_eq_some_iff`).
-/

namespace RuleLang

/-- The number of bytes a text takes in UTF-8. -/
def byteSize : List Char → Nat
  | [] => 0
  | c :: text => c.utf8Size + byteSize text

@[simp] theorem byteSize_nil : byteSize [] = 0 := rfl

@[simp] theorem byteSize_cons (c : Char) (text : List Char) : byteSize (c :: text) = c.utf8Size + byteSize text := rfl

@[simp] theorem byteSize_append (a b : List Char) : byteSize (a ++ b) = byteSize a + byteSize b := by
  induction a with
  | nil => simp
  | cons c a ih => simp [ih, Nat.add_assoc]

@[simp] theorem byteSize_eq_zero_iff {text : List Char} : byteSize text = 0 ↔ text = [] := by
  cases text with
  | nil => simp
  | cons c text =>
    have := c.utf8Size_pos
    simp
    omega

/-- The measure is the one of strings. -/
theorem byteSize_toList (s : String) : byteSize s.toList = s.utf8ByteSize := by
  have key : ∀ l : List Char, byteSize l = (String.ofList l).utf8ByteSize := by
    intro l
    induction l with
    | nil => rfl
    | cons c l ih =>
      have h : String.ofList (c :: l) = String.singleton c ++ String.ofList l := by
        apply String.toList_inj.mp
        simp
      rw [h, String.utf8ByteSize_append, ← ih, String.utf8ByteSize_singleton, byteSize_cons]
  rw [key, String.ofList_toList]

/-- The text before byte `n` and the text from there on, if `n` is where a character begins or where the text ends. -/
def splitAtByte? (n : Nat) : List Char → Option (List Char × List Char)
  | [] => if n = 0 then some ([], []) else none
  | c :: text =>
    if n = 0 then some ([], c :: text)
    else if c.utf8Size ≤ n then (splitAtByte? (n - c.utf8Size) text).map (fun (a, b) => (c :: a, b))
    else none

/-- A cut at byte `n` is a division of the text whose first part takes `n` bytes. -/
theorem splitAtByte?_eq_some_iff {n : Nat} {text a b : List Char} :
    splitAtByte? n text = some (a, b) ↔ text = a ++ b ∧ byteSize a = n := by
  induction text generalizing n a with
  | nil =>
    simp only [splitAtByte?]
    split <;> rename_i h
    · subst h
      cases a <;> cases b <;> simp
    · cases a <;> simp [Ne.symm h]
  | cons c text ih =>
    have hc := c.utf8Size_pos
    simp only [splitAtByte?]
    split
    · subst n
      cases a with
      | nil => simp [eq_comm]
      | cons d a =>
        have := d.utf8Size_pos
        simp
        omega
    · split
      · simp only [Option.map_eq_some_iff, Prod.exists, Prod.mk.injEq]
        constructor
        · rintro ⟨a', b', h, rfl, rfl⟩
          obtain ⟨rfl, h'⟩ := ih.mp h
          refine ⟨by simp, ?_⟩
          simp
          omega
        · rintro ⟨h, hn⟩
          cases a with
          | nil => simp at hn; omega
          | cons d a =>
            simp only [List.cons_append, List.cons.injEq] at h
            obtain ⟨rfl, rfl⟩ := h
            exact ⟨a, b, ih.mpr ⟨rfl, by simp at hn; omega⟩, rfl, rfl⟩
      · simp only [reduceCtorEq, false_iff, not_and]
        intro h hn
        cases a with
        | nil => simp at hn; omega
        | cons d a =>
          simp only [List.cons_append, List.cons.injEq] at h
          obtain ⟨rfl, rfl⟩ := h
          simp at hn
          omega

end RuleLang
