import RuleLang.Proofs.Expr.Parts
import RuleLang.Proofs.Item.Tiling
import RuleLang.Proofs.Rule.Safety

/-!
# A tree accounts for its source

No character of a source is lost on the way to its tree. What stands in the source are the parts of the tree, in their order and each
where its span says, and besides them nothing but white space and parentheses (`AccountsFor`). The atoms of a text account for it
(`accountsFor_of_divided`), and the parts of a tree are the atoms of the items that derive it (`Derives.parts_eq`).
-/

namespace RuleLang

mutual

/-- The atoms of an item, at any nesting, in their order. -/
def Item.parts : Item → List Leaf
  | .atom kind text span => [⟨.atom kind, text, span⟩]
  | .group members _ => partsOf members

/-- The atoms of a sequence of items, at any nesting, in their order. -/
def partsOf : List Item → List Leaf
  | [] => []
  | item :: items => item.parts ++ partsOf items

end

theorem partsOf_append (a b : List Item) : partsOf (a ++ b) = partsOf a ++ partsOf b := by
  induction a with
  | nil => rw [List.nil_append, partsOf, List.nil_append]
  | cons item a ih => rw [List.cons_append, partsOf, partsOf, ih, List.append_assoc]

/-- The parts of a tree are the atoms of the items it is derived from: the grammar drops parentheses alone. -/
theorem Derives.parts_eq {level : Option Family} {items : List Item} {e : Expr} (h : Derives level items e)
    (ha : Admitted items) : e.parts = partsOf items := by
  induction h with
  | literal kind text span => simp [Expr.parts, partsOf, Item.parts]
  | var text span => simp [Expr.parts, partsOf, Item.parts]
  | group span _ _ ih =>
    simp only [Admitted, Item.Admitted] at ha
    rw [ih ha.1, partsOf, partsOf, Item.parts, List.append_nil]
  | single _ ih => exact ih ha
  | @binary family left right lhs rhs op text span hf _ _ ihl ihr =>
    rw [admitted_append, Admitted, Item.Admitted] at ha
    obtain ⟨hl, ho, hr⟩ := ha
    have htext : text = op.symbol := String.toList_inj.mp ho
    rw [Expr.parts, ihl hl, ihr hr, partsOf_append, partsOf, Item.parts, htext]
    rfl

/-! ### What stands in a source -/

/-- The leaf is written as `covered`: a string as its text between two quotes of one kind, all else as its text. -/
def Leaf.WrittenAs (leaf : Leaf) (covered : List Char) : Prop :=
  if leaf.token = .literal .string then ∃ quote, isQuote quote = true ∧ covered = quote :: (leaf.text.toList ++ [quote])
  else covered = leaf.text.toList

/-- From byte `start` to byte `stop` the parts stand in the source, one after the other and each where its span says, and every
character that is not of one of them is white space or a parenthesis. -/
structure AccountsFor (source : String) (start stop : Nat) (parts : List Leaf) : Prop where
  le : start ≤ stop
  inOrder : InOrder parts
  within : ∀ part ∈ parts, start ≤ part.span.start ∧ part.span.stop ≤ stop
  written : ∀ part ∈ parts, ∃ covered, part.span.Covers source covered ∧ part.WrittenAs covered
  others : ∀ before c after, source.toList = before ++ c :: after → start ≤ byteSize before → byteSize before < stop →
    (∀ part ∈ parts, ¬(part.span.start ≤ byteSize before ∧ byteSize before < part.span.stop)) →
    isBlank c = true ∨ c = '(' ∨ c = ')'

theorem writtenAs_of_spelled {kind : Atom} {text covered : List Char} (h : kind.Spelled text covered) (span : Span) :
    (⟨.atom kind, .ofList text, span⟩ : Leaf).WrittenAs covered := by
  rw [Leaf.WrittenAs, String.toList_ofList]
  cases h with
  | string hq _ =>
    rw [if_pos rfl]
    exact ⟨_, hq, rfl⟩
  | _ => rw [if_neg (by simp)]

/-- A piece of a source without parts is accounted for when it is white space and parentheses alone. -/
theorem accountsFor_without_parts {source : String} {start stop : Nat} (hle : start ≤ stop)
    (h : ∀ before c after, source.toList = before ++ c :: after → start ≤ byteSize before → byteSize before < stop →
      isBlank c = true ∨ c = '(' ∨ c = ')') : AccountsFor source start stop [] where
  le := hle
  inOrder := ⟨nofun, List.Pairwise.nil⟩
  within := nofun
  written := nofun
  others before c after hs hstart hstop _ := h before c after hs hstart hstop

theorem accountsFor_nil (source : String) (start : Nat) : AccountsFor source start start [] := by
  refine accountsFor_without_parts (Nat.le_refl _) ?_
  intro before c after _ hle hlt
  omega

/-- White space and parentheses need no part. -/
theorem accountsFor_skipped {source : String} {before after : List Char} {c : Char} (hs : source.toList = before ++ c :: after)
    (hc : isBlank c = true ∨ c = '(' ∨ c = ')') : AccountsFor source (byteSize before) (byteSize before + c.utf8Size) [] := by
  refine accountsFor_without_parts (Nat.le_add_right _ _) ?_
  intro before' d after' hs' hle hlt
  rw [hs] at hs'
  obtain ⟨skipped, rfl, hrest⟩ := exists_append_of_byteSize_le hs' hle
  cases skipped with
  | nil =>
    obtain ⟨rfl, _⟩ := List.cons.inj hrest
    exact hc
  | cons x skipped =>
    -- a character further on begins after the end of `c`
    obtain ⟨rfl, _⟩ := List.cons.inj hrest
    rw [byteSize_append, byteSize_cons] at hlt
    omega

/-- An atom accounts for its spelling. -/
theorem accountsFor_atom {source : String} {before text covered after : List Char} {kind : Atom}
    (hs : source.toList = before ++ covered ++ after) (h : kind.Spelled text covered) :
    AccountsFor source (byteSize before) (byteSize before + byteSize covered)
      [⟨.atom kind, .ofList text, .over (byteSize before) covered⟩] := by
  refine ⟨Nat.le_add_right _ _, ⟨?_, List.pairwise_singleton _ _⟩, ?_, ?_, ?_⟩
  · intro part hm
    obtain rfl := List.mem_singleton.mp hm
    exact Span.start_lt_stop_over _ h.ne_nil
  · intro part hm
    obtain rfl := List.mem_singleton.mp hm
    exact ⟨Nat.le_refl _, Nat.le_refl _⟩
  · intro part hm
    obtain rfl := List.mem_singleton.mp hm
    exact ⟨covered, Span.covers_of_append hs, writtenAs_of_spelled h _⟩
  · intro before' c after' _ hle hlt hout
    exact absurd ⟨hle, hlt⟩ (hout _ (List.mem_singleton_self _))

/-- What accounts for two pieces of a source that meet accounts for both together. -/
theorem AccountsFor.append {source : String} {start middle stop : Nat} {a b : List Leaf} (ha : AccountsFor source start middle a)
    (hb : AccountsFor source middle stop b) : AccountsFor source start stop (a ++ b) := by
  refine ⟨Nat.le_trans ha.le hb.le, ⟨?_, ?_⟩, ?_, ?_, ?_⟩
  · intro part hm
    rcases List.mem_append.mp hm with hm | hm
    · exact ha.inOrder.nonempty part hm
    · exact hb.inOrder.nonempty part hm
  · refine List.pairwise_append.mpr ⟨ha.inOrder.apart, hb.inOrder.apart, ?_⟩
    intro x hx y hy
    exact Nat.le_trans (ha.within x hx).2 (hb.within y hy).1
  · intro part hm
    rcases List.mem_append.mp hm with hm | hm
    · obtain ⟨h1, h2⟩ := ha.within part hm
      exact ⟨h1, Nat.le_trans h2 hb.le⟩
    · obtain ⟨h1, h2⟩ := hb.within part hm
      exact ⟨Nat.le_trans ha.le h1, h2⟩
  · intro part hm
    rcases List.mem_append.mp hm with hm | hm
    · exact ha.written part hm
    · exact hb.written part hm
  · intro before c after hs hle hlt hout
    by_cases hmiddle : byteSize before < middle
    · exact ha.others before c after hs hle hmiddle fun part hm => hout part (List.mem_append_left _ hm)
    · exact hb.others before c after hs (Nat.le_of_not_lt hmiddle) hlt fun part hm => hout part (List.mem_append_right _ hm)

/-- What accounts for the inside of a group accounts for the group. -/
theorem AccountsFor.group {source : String} {before inside after : List Char} {parts : List Leaf}
    (h : AccountsFor source (byteSize before + 1) (byteSize before + 1 + byteSize inside) parts)
    (hs : source.toList = before ++ '(' :: (inside ++ ')' :: after)) :
    AccountsFor source (byteSize before) (byteSize before + byteSize ('(' :: (inside ++ [')']))) parts := by
  have hfront : byteSize (before ++ '(' :: inside) = byteSize before + 1 + byteSize inside := by
    rw [byteSize_append, byteSize_cons, ← Nat.add_assoc]
    rfl
  have hopen := accountsFor_skipped hs (Or.inr (Or.inl rfl))
  have hclose := @accountsFor_skipped source (before ++ '(' :: inside) after ')' (by simpa using hs) (Or.inr (Or.inr rfl))
  rw [hfront] at hclose
  have hall := (hopen.append h).append hclose
  rw [List.nil_append, List.append_nil] at hall
  rw [byteSize_group, ← Nat.add_assoc, ← Nat.add_assoc]
  exact hall

/-- The atoms of a divided piece of a source account for the piece. -/
theorem accountsFor_of_divided {source : String} {offset : Nat} {text : List Char} {items : List Item}
    (h : Divided offset text items) {before after : List Char} (hs : source.toList = before ++ text ++ after)
    (hb : byteSize before = offset) : AccountsFor source offset (offset + byteSize text) (partsOf items) := by
  induction h generalizing before after with
  | nil offset =>
    rw [partsOf]
    exact accountsFor_nil source offset
  | @blank offset c rest items hc _ ih =>
    subst hb
    have hs' : source.toList = (before ++ [c]) ++ rest ++ after := by simpa using hs
    have hskipped := @accountsFor_skipped source before (rest ++ after) c (by simpa using hs) (Or.inl hc)
    rw [byteSize_cons, ← Nat.add_assoc]
    exact hskipped.append (ih hs' (byteSize_append _ _))
  | @atom offset kind text covered rest items hsp _ _ ih =>
    subst hb
    have hs' : source.toList = (before ++ covered) ++ rest ++ after := by simpa using hs
    have hatom := @accountsFor_atom source before text covered (rest ++ after) kind (by simpa using hs) hsp
    rw [byteSize_append, ← Nat.add_assoc]
    exact hatom.append (ih hs' (byteSize_append _ _))
  | @group offset inside rest members items _ _ ihm iho =>
    subst hb
    have hopen : source.toList = (before ++ ['(']) ++ inside ++ (')' :: (rest ++ after)) := by simpa using hs
    have hrest : source.toList = (before ++ '(' :: (inside ++ [')'])) ++ rest ++ after := by simpa using hs
    have hgroup := (ihm hopen (byteSize_append _ _)).group (by simpa using hs)
    rw [byteSize_group_append, ← Nat.add_assoc]
    exact hgroup.append (iho hrest (byteSize_append _ _))

/-- The trees below a well-formed tree are well formed. -/
theorem Expr.WellFormed.of_mem_subtrees {e below : Expr} (h : e.WellFormed) (hm : below ∈ e.subtrees) : below.WellFormed := by
  induction e with
  | binary family lhs op opSpan rhs ihl ihr =>
    rw [subtrees, List.mem_cons, List.mem_append] at hm
    rcases hm with rfl | hm | hm
    · exact h
    · exact ihl h.1 hm
    · exact ihr h.2.2 hm
  | literal leaf =>
    obtain rfl := List.mem_singleton.mp hm
    exact h
  | var leaf =>
    obtain rfl := List.mem_singleton.mp hm
    exact h

/-- Where the operator of a well-formed node stands, the source has its symbol. -/
theorem AccountsFor.slice?_opSpan {source : String} {start stop : Nat} {e : Expr} (h : AccountsFor source start stop e.parts)
    (hwf : e.WellFormed) {family : Family} {lhs rhs : Expr} {op : Token} {opSpan : Span}
    (hm : .binary family lhs op opSpan rhs ∈ e.subtrees) :
    ∃ o : Operator, op = .operator o ∧ o.family = family ∧ opSpan.slice? source = some o.symbol := by
  obtain ⟨_, ⟨o, rfl, hf⟩, _⟩ := hwf.of_mem_subtrees hm
  have hpart : ⟨.operator o, o.symbol, opSpan⟩ ∈ e.parts :=
    (Expr.parts_sublist_of_mem_subtrees hm).subset (List.mem_append_right _ List.mem_cons_self)
  obtain ⟨covered, hc, hw⟩ := h.written _ hpart
  rw [Leaf.WrittenAs, if_neg (by simp)] at hw
  rw [Span.Covers, hw, String.ofList_toList] at hc
  exact ⟨o, rfl, hf, hc⟩

/-- The tree of a source accounts for the whole of it: the leaves and operators of the tree stand in the source in their order, and
besides them there is nothing but white space and parentheses. Every tree below has the span from its leftmost leaf to its rightmost,
which is not empty and takes in all that is below, and its operator is an operator and stands in the source as its symbol. -/
theorem accountsFor_of_compile {source : String} {e : Expr} (h : compile source = .ok e) :
    AccountsFor source 0 source.utf8ByteSize e.parts ∧
      ∀ node ∈ e.subtrees, node.span.start = node.firstLeaf.span.start ∧ node.span.stop = node.lastLeaf.span.stop ∧
        node.span.start < node.span.stop ∧ (∀ part ∈ node.parts, node.span.Contains part.span) ∧
        (∀ below ∈ node.subtrees, node.span.Contains below.span) ∧
        ∀ family lhs op opSpan rhs, node = .binary family lhs op opSpan rhs →
          ∃ o : Operator, op = .operator o ∧ o.family = family ∧ opSpan.slice? source = some o.symbol := by
  obtain ⟨items, hdiv, hder, _⟩ := compile_eq_ok_iff.mp h
  have hall : AccountsFor source 0 source.utf8ByteSize e.parts := by
    have hparts := @accountsFor_of_divided source 0 source.toList items hdiv [] [] (by simp) rfl
    rwa [← hder.parts_eq hdiv.admitted, Nat.zero_add, byteSize_toList] at hparts
  refine ⟨hall, ?_⟩
  intro node hnode
  have horder := hall.inOrder.of_sublist (Expr.parts_sublist_of_mem_subtrees hnode)
  refine ⟨node.span_start, node.span_stop, Expr.span_start_lt_stop horder, ?_, ?_, ?_⟩
  · intro part hm
    exact Expr.contains_of_mem_parts horder hm
  · intro below hm
    exact Expr.contains_of_mem_subtrees horder hm
  · rintro family lhs op opSpan rhs rfl
    exact hall.slice?_opSpan (hder.wellFormed hdiv.admitted) hnode

/-- A source of two groups, one inside the other, over two rows and with a character of two bytes. -/
theorem accountsFor_of_compile_nested :
    ∃ e, compile "(($a< 10)==true)\n||'é'" = .ok e ∧
      e.parts.map Leaf.span = [⟨2, 4⟩, ⟨4, 5⟩, ⟨6, 8⟩, ⟨9, 11⟩, ⟨11, 15⟩, ⟨17, 19⟩, ⟨19, 23⟩] ∧
      AccountsFor "(($a< 10)==true)\n||'é'" 0 23 e.parts ∧
      ∀ node ∈ e.subtrees, node.span.start < node.span.stop ∧ ∀ below ∈ node.subtrees, node.span.Contains below.span := by
  have h : compile "(($a< 10)==true)\n||'é'" = .ok
      (.binary .or
        (.binary .equality
          (.binary .comparison (.var ⟨.var, "$a", ⟨2, 4⟩⟩) (.operator .lt) ⟨4, 5⟩ (.literal ⟨.literal .integer, "10", ⟨6, 8⟩⟩))
          (.operator .equals) ⟨9, 11⟩ (.literal ⟨.literal .bool, "true", ⟨11, 15⟩⟩))
        (.operator .or) ⟨17, 19⟩ (.literal ⟨.literal .string, "é", ⟨19, 23⟩⟩)) := by
    cbv
  obtain ⟨hall, hnodes⟩ := accountsFor_of_compile h
  refine ⟨_, h, rfl, hall, ?_⟩
  intro node hnode
  obtain ⟨_, _, hne, _, hbelow, _⟩ := hnodes node hnode
  exact ⟨hne, hbelow⟩

end RuleLang
