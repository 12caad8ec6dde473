import Mathlib
import RuleLang.Proofs.Item.Moving

/-!
# A text behind a divided one

What follows a divided text is read as if the text before it were not there, but for the places, provided that it does not
begin with a character that goes on with the last atom there (`Divided.itemsOf_append`). White space never does. So a text that
white space keeps apart from a source before it is read as it is on its own, items or error, with all its places moved
(`lex_append_of_blank`).
-/

namespace RuleLang

/-- An atom that ends before each of two texts ends before the one followed by the other. -/
theorem Atom.EndsBefore.append {kind : Atom} {a b : List Char} (ha : kind.EndsBefore a) (hb : kind.EndsBefore b) :
    kind.EndsBefore (a ++ b) := by
  cases a with
  | nil => exact hb
  | cons c a => exact endsBefore_cons (ha c rfl) (a ++ b)

/-- Every atom ends before white space. -/
theorem endsBefore_of_blank {gap : List Char} (hb : ∀ c ∈ gap, isBlank c = true) (hn : gap ≠ []) (rest : List Char)
    (kind : Atom) : kind.EndsBefore (gap ++ rest) := by
  obtain ⟨c, gap, rfl⟩ := List.exists_cons_of_ne_nil hn
  exact Atom.endsBefore_cons (Atom.goesOn_eq_false (Or.inl (hb c List.mem_cons_self)) kind) (gap ++ rest)

/-- White space is passed over, however much of it there is. -/
theorem itemsOf_gap (limit : Option Nat) (depth offset : Nat) {gap : List Char} (hb : ∀ c ∈ gap, isBlank c = true)
    (rest : List Char) :
    itemsOf limit depth offset (gap ++ rest) = itemsOf limit depth (offset + byteSize gap) rest := by
  induction gap generalizing offset with
  | nil => rfl
  | cons c gap ih =>
    obtain ⟨hc, hgap⟩ := List.forall_mem_cons.mp hb
    rw [List.cons_append, itemsOf_blank hc, ih _ hgap, byteSize_cons, Nat.add_assoc]

/-- A divided text comes first among the items of a longer one, and the rest is read from where it ends. -/
theorem Divided.itemsOf_append {limit : Option Nat} {depth offset : Nat} {text rest : List Char} {items : List Item}
    (h : Divided offset text items) (ha : Allows limit depth (nestingOf items)) (hr : ∀ kind : Atom, kind.EndsBefore rest) :
    itemsOf limit depth offset (text ++ rest) = (itemsOf limit depth (offset + byteSize text) rest).map (items ++ ·) := by
  induction h with
  | nil offset =>
    rw [List.nil_append, byteSize_nil, Nat.add_zero]
    cases itemsOf limit depth offset rest <;> rfl
  | blank hb _ ih => rw [List.cons_append, itemsOf_blank hb, ih ha, byteSize_cons, Nat.add_assoc]
  | @atom offset kind text covered after items hs he _ ih =>
    obtain ⟨c, more, rfl⟩ := List.exists_cons_of_ne_nil hs.ne_nil
    obtain ⟨hb, hc⟩ := hs.head_ne rfl
    rw [nestingOf_cons, allows_max] at ha
    have hread := Word.read_of_spelled hs (he.append (hr kind)) (List.cons_append ..).symm
    rw [List.append_assoc, List.cons_append, itemsOf_word hb hc hread, byteSize_append, ← Nat.add_assoc]
    simp only [Span.over]
    rw [ih ha.2]
    cases itemsOf limit depth _ rest <;> rfl
  | @group offset inside after members items hm _ _ iho =>
    rw [nestingOf_cons, Item.nesting_group, allows_max, allows_succ] at ha
    obtain ⟨⟨hp, hma⟩, hoa⟩ := ha
    have hfind := Closing.find_of_balanced hm.balanced (after ++ rest)
    rw [byteSize_group_append, ← Nat.add_assoc, List.cons_append, List.append_assoc, List.cons_append, itemsOf_group hp hfind,
      itemsOf_of_divided hm hma]
    simp only [Span.over, List.cons_append]
    rw [iho hoa]
    cases itemsOf limit depth _ rest <;> rfl

/-- Two divided texts are divided together, where no atom of the first goes on into the second. -/
theorem Divided.append {offset : Nat} {text rest : List Char} {items others : List Item} (h : Divided offset text items)
    (he : ∀ kind : Atom, kind.EndsBefore rest) (hr : Divided (offset + byteSize text) rest others) :
    Divided offset (text ++ rest) (items ++ others) := by
  have hothers : itemsOf none 0 (offset + byteSize text) rest = .ok others := itemsOf_eq_ok_iff.mpr ⟨hr, allows_none _ _⟩
  have hall := h.itemsOf_append (allows_none 0 (nestingOf items)) he
  rw [hothers] at hall
  exact (itemsOf_eq_ok_iff.mp hall).1

/-- A text `r` behind a source `a` that is read, with white space between the two, is read as it is on its own: all its places are
moved by the bytes before it, and if it is read, its items come after those of `a`. -/
theorem lex_append_of_blank {a w r : String} {items : List Item} (ha : lex a = .ok items) (hn : w ≠ "")
    (hw : ∀ c ∈ w.toList, isBlank c = true) :
    lex (a ++ w ++ r) = (moved (a ++ w).utf8ByteSize (lex r)).map (items ++ ·) := by
  obtain ⟨hd, hm⟩ := lex_eq_ok_iff.mp ha
  have hends : ∀ kind : Atom, kind.EndsBefore (w.toList ++ r.toList) :=
    endsBefore_of_blank hw (fun h => hn (String.toList_eq_nil_iff.mp h)) r.toList
  have hr : itemsOf (some maxNesting) 0 (0 + byteSize a.toList) (w.toList ++ r.toList) = moved (a ++ w).utf8ByteSize (lex r) := by
    rw [itemsOf_gap _ _ _ hw, Nat.add_assoc, itemsOf_add, ← byteSize_append, ← String.toList_append, byteSize_toList, lex]
  rw [lex, String.toList_append, String.toList_append, List.append_assoc, hd.itemsOf_append (allows_some.mpr hm) hends, hr]

/-- Behind `<` and white space of three bytes, a group is read from byte 11 on and a `=` is refused there. -/
theorem lex_append_of_blank_after_lt :
    lex ("('é') <" ++ "\u2003" ++ "(2)") = .ok [.group [.atom (.literal .string) "é" ⟨1, 5⟩] ⟨0, 6⟩,
      .atom (.operator .lt) "<" ⟨7, 8⟩, .group [.atom (.literal .integer) "2" ⟨12, 13⟩] ⟨11, 14⟩] ∧
    lex ("('é') <" ++ "\u2003" ++ "= 2") = .error (.malformed .unknownToken "=" ⟨11, 12⟩) := by
  have ha : lex "('é') <" =
      .ok [.group [.atom (.literal .string) "é" ⟨1, 5⟩] ⟨0, 6⟩, .atom (.operator .lt) "<" ⟨7, 8⟩] := by cbv
  have hw : ∀ c ∈ "\u2003".toList, isBlank c = true := by simp [isBlank, blankRanges, CodeRange.holds]
  constructor
  · rw [lex_append_of_blank ha (by decide) hw]
    cbv
  · rw [lex_append_of_blank ha (by decide) hw]
    cbv

end RuleLang
