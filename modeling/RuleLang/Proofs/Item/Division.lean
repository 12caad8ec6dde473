import RuleLang.Item.OfText
import RuleLang.Proofs.Item.Nesting
import RuleLang.Proofs.Item.Place
import RuleLang.Proofs.Item.Spelling
import RuleLang.Proofs.Result

/-!
# The division of a text into items

What it means that a text is divided into items, said of the text and not of how it is read: the text is white space, spellings of
atoms that end where they end, and balanced groups (`Divided`). A text has the items that `itemsOf` finds exactly when it is so
divided and the groups stay within the limit (`itemsOf_eq_ok_iff`).
-/

namespace RuleLang

/-- The text that begins at byte `offset` of its source is divided into the items. -/
inductive Divided : (offset : Nat) → (text : List Char) → (items : List Item) → Prop
  | nil (offset : Nat) : Divided offset [] []
  | blank {offset : Nat} {c : Char} {rest : List Char} {items : List Item} : isBlank c = true →
      Divided (offset + c.utf8Size) rest items → Divided offset (c :: rest) items
  | atom {offset : Nat} {kind : Atom} {text covered after : List Char} {items : List Item} : kind.Spelled text covered →
      kind.EndsBefore after → Divided (offset + byteSize covered) after items →
      Divided offset (covered ++ after) (.atom kind (.ofList text) (.over offset covered) :: items)
  | group {offset : Nat} {inside after : List Char} {members items : List Item} : Divided (offset + 1) inside members →
      Divided (offset + byteSize ('(' :: (inside ++ [')']))) after items →
      Divided offset ('(' :: (inside ++ ')' :: after)) (.group members (.over offset ('(' :: (inside ++ [')']))) :: items)

/-- A group takes a byte for each of its parentheses. -/
theorem byteSize_group (inside : List Char) : byteSize ('(' :: (inside ++ [')'])) = 1 + byteSize inside + 1 := by
  rw [byteSize_cons, byteSize_append, ← Nat.add_assoc]
  rfl

theorem byteSize_group_append (inside after : List Char) :
    byteSize ('(' :: (inside ++ ')' :: after)) = byteSize ('(' :: (inside ++ [')'])) + byteSize after := by
  rw [← byteSize_append]
  simp

/-! ### What is read is a division -/

theorem divided_of_itemsOf {limit : Option Nat} {depth offset : Nat} {text : List Char} {items : List Item}
    (h : itemsOf limit depth offset text = .ok items) : Divided offset text items ∧ Allows limit depth (nestingOf items) := by
  fun_induction itemsOf limit depth offset text generalizing items with
  | case1 depth offset =>
    obtain rfl := Except.ok.inj h
    exact ⟨.nil offset, allows_zero limit depth⟩
  | case2 depth offset c rest hb ih =>
    obtain ⟨hd, ha⟩ := ih h
    exact ⟨.blank hb hd, ha⟩
  | case6 depth offset rest hp inside after hf _ ihm iho =>
    obtain ⟨members, hm, h⟩ := bind_eq_ok_iff.mp h
    obtain ⟨others, ho, h⟩ := bind_eq_ok_iff.mp h
    obtain rfl := Except.ok.inj h
    obtain ⟨hmd, hma⟩ := ihm hm
    obtain ⟨hod, hoa⟩ := iho ho
    rw [Closing.find_closed hf, nestingOf_cons, Item.nesting_group]
    exact ⟨.group hmd hod, allows_max.mpr ⟨allows_succ.mpr ⟨hp, hma⟩, hoa⟩⟩
  | case8 depth offset c rest _ _ word after hr span =>
    rename_i ih
    obtain ⟨others, ho, h⟩ := bind_eq_ok_iff.mp h
    obtain rfl := Except.ok.inj h
    obtain ⟨hod, hoa⟩ := ih ho
    obtain ⟨hs, he⟩ := Word.spelled_of_read hr
    rw [Word.eq_append_of_read hr, nestingOf_cons, Item.nesting_atom]
    exact ⟨.atom hs he hod, allows_max.mpr ⟨allows_zero limit depth, hoa⟩⟩
  | _ => cases h

/-! ### Every division is read -/

theorem plain_of_isNameChar {c : Char} (h : isNameChar c = true) : Place.Plain c := Place.plain_of_class (by decide) h

theorem plain_of_isBlank {c : Char} (h : isBlank c = true) : Place.Plain c := Place.plain_of_class (by decide) h

namespace Atom

/-- A spelling is a string, or it holds neither quotes nor parentheses. -/
theorem Spelled.string_or_plain {kind : Atom} {text covered : List Char} (h : kind.Spelled text covered) :
    (∃ quote, isQuote quote = true ∧ quote ∉ text ∧ covered = quote :: (text ++ [quote])) ∨ ∀ c ∈ covered, Place.Plain c := by
  cases h with
  | integer _ hd => exact Or.inr fun c hc => plain_of_isNameChar (isNameChar_of_isDigit (hd c hc))
  | string hq ht => exact Or.inl ⟨_, hq, ht, rfl⟩
  | boolTrue => exact Or.inr fun c => Place.plain_of_all rfl
  | boolFalse => exact Or.inr fun c => Place.plain_of_all rfl
  | null => exact Or.inr fun c => Place.plain_of_all rfl
  | var _ hd =>
    refine Or.inr fun c hc => ?_
    rcases List.mem_cons.mp hc with rfl | hc
    · exact ⟨by decide, by decide, by decide⟩
    · exact plain_of_isNameChar (hd c hc)
  | operator op => exact Or.inr fun c => Place.plain_of_all (by cases op <;> rfl)

/-- Spellings are balanced: parentheses stand in strings alone. -/
theorem Spelled.balanced {kind : Atom} {text covered : List Char} (h : kind.Spelled text covered) : Balanced covered := by
  intro n
  rcases h.string_or_plain with ⟨quote, hq, ht, rfl⟩ | hp
  · exact Place.reach?_string hq ht n
  · exact Place.reach?_plain hp n

/-- No spelling begins with white space or a parenthesis. -/
theorem Spelled.head_ne {kind : Atom} {text covered : List Char} {c : Char} (h : kind.Spelled text covered)
    (hc : covered.head? = some c) : isBlank c = false ∧ c ≠ '(' := by
  have hm : c ∈ covered := List.mem_of_head? hc
  cases h with
  | integer _ hd =>
    have hn := isNameChar_of_isDigit (hd c hm)
    exact ⟨isBlank_of_isNameChar hn, (plain_of_isNameChar hn).2.1⟩
  | string hq _ =>
    obtain rfl := Option.some.inj hc
    simp only [isQuote, Bool.or_eq_true, beq_iff_eq] at hq
    rcases hq with rfl | rfl <;> exact ⟨by decide, by decide⟩
  | boolTrue =>
    obtain rfl := Option.some.inj hc
    exact ⟨by decide, by decide⟩
  | boolFalse =>
    obtain rfl := Option.some.inj hc
    exact ⟨by decide, by decide⟩
  | null =>
    obtain rfl := Option.some.inj hc
    exact ⟨by decide, by decide⟩
  | var _ _ =>
    obtain rfl := Option.some.inj hc
    exact ⟨by decide, by decide⟩
  | operator op => cases op <;> (obtain rfl := Option.some.inj hc; exact ⟨by decide, by decide⟩)

end Atom

/-- A spelling alone is one item. -/
theorem Atom.Spelled.divided {kind : Atom} {text covered : List Char} (h : kind.Spelled text covered) (offset : Nat) :
    Divided offset covered [.atom kind (.ofList text) (.over offset covered)] := by
  have hdiv := Divided.atom h (endsBefore_nil kind) (.nil (offset + byteSize covered))
  rwa [List.append_nil] at hdiv

theorem Divided.balanced {offset : Nat} {text : List Char} {items : List Item} (h : Divided offset text items) :
    Balanced text := by
  induction h with
  | nil => exact fun _ => rfl
  | blank hb _ ih => exact balanced_append (balanced_singleton (plain_of_isBlank hb)) ih
  | atom hs _ _ ih => exact balanced_append hs.balanced ih
  | @group _ inside after _ _ _ _ ihm iho =>
    have h := balanced_append (balanced_group ihm) iho
    rwa [List.cons_append, List.append_assoc] at h

/-- A divided text is read as it is divided: a group is found to close where its division ends, since the division is balanced. -/
theorem itemsOf_of_divided {limit : Option Nat} {depth offset : Nat} {text : List Char} {items : List Item}
    (h : Divided offset text items) (ha : Allows limit depth (nestingOf items)) :
    itemsOf limit depth offset text = .ok items := by
  induction h generalizing depth with
  | nil offset => exact itemsOf_nil limit depth offset
  | blank hb _ ih => rw [itemsOf_blank hb, ih ha]
  | @atom offset kind text covered after items hs he _ ih =>
    obtain ⟨c, rest, rfl⟩ := List.exists_cons_of_ne_nil hs.ne_nil
    obtain ⟨hb, hc⟩ := hs.head_ne rfl
    rw [nestingOf_cons, allows_max] at ha
    rw [List.cons_append, itemsOf_word hb hc (Word.read_of_spelled hs he (List.cons_append ..).symm)]
    exact bind_eq_ok_iff.mpr ⟨items, ih ha.2, rfl⟩
  | @group offset inside after members items hm _ ihm iho =>
    rw [nestingOf_cons, Item.nesting_group, allows_max, allows_succ] at ha
    obtain ⟨⟨hp, hma⟩, hoa⟩ := ha
    rw [itemsOf_group hp (Closing.find_of_balanced hm.balanced after)]
    exact bind_eq_ok_iff.mpr ⟨members, ihm hma, bind_eq_ok_iff.mpr ⟨items, iho hoa, rfl⟩⟩

/-- The items of a text are those it is divided into, if their groups stay within the limit. -/
theorem itemsOf_eq_ok_iff {limit : Option Nat} {depth offset : Nat} {text : List Char} {items : List Item} :
    itemsOf limit depth offset text = .ok items ↔ Divided offset text items ∧ Allows limit depth (nestingOf items) :=
  ⟨divided_of_itemsOf, fun ⟨h, ha⟩ => itemsOf_of_divided h ha⟩

/-- The items of a source are those it is divided into, if at most `maxNesting` groups nest. -/
theorem lex_eq_ok_iff {source : String} {items : List Item} :
    lex source = .ok items ↔ Divided 0 source.toList items ∧ nestingOf items ≤ maxNesting := by
  rw [lex, itemsOf_eq_ok_iff, allows_some, Nat.sub_zero]

end RuleLang
