import RuleLang.Proofs.Item.Moving

/-!
# Variables replaced in a text

The places of a variable in a source are the spans of its items (`spansOf`), and a text can stand for the variable in each of
them (`replaceSpans`). When that text is a divided one in parentheses, the source that comes of it is divided like the old one,
with a group for each item of the variable (`exists_divided_replaceSpans`): the parentheses keep the items on both sides apart
from what is put between them.
-/

namespace RuleLang

mutual

/-- The spans of the variables of the given text in an item, at any nesting. -/
def Item.spansOf (text : String) : Item → List Span
  | .atom kind text' span => if kind = .var ∧ text' = text then [span] else []
  | .group members _ => RuleLang.spansOf text members

/-- The spans of the variables of the given text in a sequence of items, at any nesting. -/
def spansOf (text : String) : List Item → List Span
  | [] => []
  | item :: items => item.spansOf text ++ spansOf text items

end

/-- What comes of one character, at byte `offset`, when each of the spans is replaced: the replacement where a span begins, nothing
inside a span, and the character itself elsewhere. -/
def replaceAt (spans : List Span) (replacement : List Char) (offset : Nat) (c : Char) : List Char :=
  if ∃ span ∈ spans, span.start = offset then replacement
  else if ∃ span ∈ spans, span.start < offset ∧ offset < span.stop then []
  else [c]

/-- What comes of a text that begins at byte `offset` when each of the spans is replaced. -/
def replaceSpans (spans : List Span) (replacement : List Char) : (offset : Nat) → List Char → List Char
  | _, [] => []
  | offset, c :: text => replaceAt spans replacement offset c ++ replaceSpans spans replacement (offset + c.utf8Size) text

mutual

/-- The item with a group of the given members for every variable of the given text, at any nesting. -/
def Item.inline (text : String) (inner : List Item) : Item → Item
  | .atom kind text' span => if kind = .var ∧ text' = text then .group inner span else .atom kind text' span
  | .group members span => .group (inlineItems text inner members) span

/-- The items with a group of the given members for every variable of the given text, at any nesting. -/
def inlineItems (text : String) (inner : List Item) : List Item → List Item
  | [] => []
  | item :: items => item.inline text inner :: inlineItems text inner items

end

theorem inlineItems_append (text : String) (inner a b : List Item) :
    inlineItems text inner (a ++ b) = inlineItems text inner a ++ inlineItems text inner b := by
  induction a with
  | nil => rw [List.nil_append, inlineItems, List.nil_append]
  | cons item a ih => rw [List.cons_append, inlineItems, inlineItems, ih, List.cons_append]

/-! ### Replacing in parts -/

/-- The span covers something and ends at byte `stop` at the latest. -/
def Span.EndsBy (stop : Nat) (span : Span) : Prop := span.start < span.stop ∧ span.stop ≤ stop

theorem Span.endsBy_over (offset : Nat) {covered : List Char} (h : covered ≠ []) :
    (Span.over offset covered).EndsBy (offset + byteSize covered) :=
  ⟨Span.start_lt_stop_over offset h, Nat.le_refl _⟩

/-- Spans that end before an offset do not matter there. -/
theorem replaceAt_append_of_endsBy {spans : List Span} {offset : Nat} (h : ∀ span ∈ spans, span.EndsBy offset)
    (later : List Span) (replacement : List Char) (c : Char) :
    replaceAt (spans ++ later) replacement offset c = replaceAt later replacement offset c := by
  have hstart : ¬∃ span ∈ spans, span.start = offset := by
    rintro ⟨span, hm, heq⟩
    obtain ⟨h1, h2⟩ := h span hm
    omega
  have hinside : ¬∃ span ∈ spans, span.start < offset ∧ offset < span.stop := by
    rintro ⟨span, hm, _, hlt⟩
    obtain ⟨h1, h2⟩ := h span hm
    omega
  simp only [replaceAt, List.mem_append, or_and_right, exists_or, hstart, hinside, false_or]

/-- Spans that begin after an offset do not matter there. -/
theorem replaceAt_append_of_lt {later : List Span} {offset : Nat} (h : ∀ span ∈ later, offset < span.start)
    (spans : List Span) (replacement : List Char) (c : Char) :
    replaceAt (spans ++ later) replacement offset c = replaceAt spans replacement offset c := by
  have hstart : ¬∃ span ∈ later, span.start = offset := by
    rintro ⟨span, hm, heq⟩
    have := h span hm
    omega
  have hinside : ¬∃ span ∈ later, span.start < offset ∧ offset < span.stop := by
    rintro ⟨span, hm, hlt, _⟩
    have := h span hm
    omega
  simp only [replaceAt, List.mem_append, or_and_right, exists_or, hstart, hinside, or_false]

theorem replaceSpans_append_of_endsBy {spans : List Span} {offset : Nat} (h : ∀ span ∈ spans, span.EndsBy offset)
    (later : List Span) (replacement text : List Char) :
    replaceSpans (spans ++ later) replacement offset text = replaceSpans later replacement offset text := by
  induction text generalizing offset with
  | nil => rfl
  | cons c text ih =>
    have hnext : ∀ span ∈ spans, span.EndsBy (offset + c.utf8Size) := by
      intro span hm
      obtain ⟨h1, h2⟩ := h span hm
      exact ⟨h1, Nat.le_trans h2 (Nat.le_add_right _ _)⟩
    rw [replaceSpans, replaceSpans, replaceAt_append_of_endsBy h, ih hnext]

/-- A text in two parts is replaced part by part when no span lies in both. -/
theorem replaceSpans_append {spans later : List Span} {offset : Nat} {a : List Char}
    (hs : ∀ span ∈ spans, span.EndsBy (offset + byteSize a)) (hl : ∀ span ∈ later, offset + byteSize a ≤ span.start)
    (replacement b : List Char) :
    replaceSpans (spans ++ later) replacement offset (a ++ b) =
      replaceSpans spans replacement offset a ++ replaceSpans later replacement (offset + byteSize a) b := by
  induction a generalizing offset with
  | nil => exact replaceSpans_append_of_endsBy hs later replacement b
  | cons c a ih =>
    rw [byteSize_cons, ← Nat.add_assoc] at hs hl ⊢
    have hlt : ∀ span ∈ later, offset < span.start := by
      intro span hm
      have := hl span hm
      have := c.utf8Size_pos
      omega
    rw [List.cons_append, replaceSpans, replaceSpans, replaceAt_append_of_lt hlt, ih hs hl, List.append_assoc]

/-- Without spans nothing is replaced. -/
theorem replaceSpans_nil (replacement : List Char) (offset : Nat) (text : List Char) :
    replaceSpans [] replacement offset text = text := by
  induction text generalizing offset with
  | nil => rfl
  | cons c text ih =>
    rw [replaceSpans, ih, replaceAt, if_neg (by simp), if_neg (by simp)]
    rfl

/-- The characters before the spans stay. -/
theorem replaceSpans_append_left {later : List Span} {offset : Nat} {a : List Char}
    (hl : ∀ span ∈ later, offset + byteSize a ≤ span.start) (replacement b : List Char) :
    replaceSpans later replacement offset (a ++ b) = a ++ replaceSpans later replacement (offset + byteSize a) b := by
  have h := @replaceSpans_append [] later offset a (by simp) hl replacement b
  rwa [List.nil_append, replaceSpans_nil] at h

/-- Inside a span nothing stays. -/
theorem replaceSpans_inside {span : Span} {offset : Nat} {text : List Char} (hlt : span.start < offset)
    (hle : offset + byteSize text ≤ span.stop) (replacement : List Char) : replaceSpans [span] replacement offset text = [] := by
  induction text generalizing offset with
  | nil => rfl
  | cons c text ih =>
    have hc := c.utf8Size_pos
    rw [byteSize_cons] at hle
    have hstart : ¬∃ other ∈ [span], other.start = offset := by
      rintro ⟨other, hm, heq⟩
      rw [List.mem_singleton.mp hm] at heq
      omega
    have hinside : ∃ other ∈ [span], other.start < offset ∧ offset < other.stop :=
      ⟨span, List.mem_singleton_self _, hlt, by omega⟩
    rw [replaceSpans, replaceAt, if_neg hstart, if_pos hinside, ih (by omega) (by omega), List.nil_append]

/-- A span is replaced as a whole. -/
theorem replaceSpans_over (offset : Nat) {covered : List Char} (h : covered ≠ []) (replacement : List Char) :
    replaceSpans [.over offset covered] replacement offset covered = replacement := by
  obtain ⟨c, rest, rfl⟩ := List.exists_cons_of_ne_nil h
  have hc := c.utf8Size_pos
  have hstart : ∃ span ∈ [Span.over offset (c :: rest)], span.start = offset := ⟨_, List.mem_singleton_self _, rfl⟩
  have hrest : replaceSpans [.over offset (c :: rest)] replacement (offset + c.utf8Size) rest = [] := by
    refine replaceSpans_inside (Nat.lt_add_of_pos_right hc) (Nat.le_of_eq ?_) replacement
    rw [Span.over, byteSize_cons, Nat.add_assoc]
  rw [replaceSpans, replaceAt, if_pos hstart, hrest, List.append_nil]

/-! ### Variables of a divided text -/

/-- The variables of a divided text stand in it. -/
theorem Divided.le_and_endsBy_of_mem_spansOf {offset : Nat} {text : List Char} {items : List Item} (h : Divided offset text items)
    {name : String} {span : Span} (hm : span ∈ spansOf name items) :
    offset ≤ span.start ∧ span.EndsBy (offset + byteSize text) := by
  induction h with
  | nil offset =>
    rw [spansOf] at hm
    cases hm
  | blank _ _ ih =>
    obtain ⟨hle, hlt, hend⟩ := ih hm
    rw [byteSize_cons]
    exact ⟨by omega, hlt, by omega⟩
  | @atom offset kind text covered after items hs _ _ ih =>
    rw [spansOf, Item.spansOf] at hm
    rw [byteSize_append]
    rcases List.mem_append.mp hm with hm | hm
    · split at hm
      · obtain ⟨hlt, hend⟩ := Span.endsBy_over offset hs.ne_nil
        rw [List.mem_singleton.mp hm]
        exact ⟨Nat.le_refl _, hlt, by omega⟩
      · cases hm
    · obtain ⟨hle, hlt, hend⟩ := ih hm
      exact ⟨by omega, hlt, by omega⟩
  | @group offset inside after members items _ _ ihm iho =>
    rw [spansOf, Item.spansOf] at hm
    simp only [byteSize_cons, byteSize_append, byteSize_nil] at iho ⊢
    rcases List.mem_append.mp hm with hm | hm
    · obtain ⟨hle, hlt, hend⟩ := ihm hm
      have := ('(').utf8Size_pos
      exact ⟨by omega, hlt, by omega⟩
    · obtain ⟨hle, hlt, hend⟩ := iho hm
      exact ⟨by omega, hlt, by omega⟩

/-- Where an atom ended before a divided text, it ends before what comes of that text: its first character stays, or a parenthesis
stands in its place. -/
theorem Divided.endsBefore_replaceSpans {offset : Nat} {text : List Char} {items : List Item} (h : Divided offset text items)
    {kind : Atom} (he : kind.EndsBefore text) (name : String) (d : List Char) :
    kind.EndsBefore (replaceSpans (spansOf name items) ('(' :: d) offset text) := by
  cases text with
  | nil => exact Atom.endsBefore_nil kind
  | cons c rest =>
    have hinside : ¬∃ span ∈ spansOf name items, span.start < offset ∧ offset < span.stop := by
      rintro ⟨span, hm, hlt, _⟩
      have := (h.le_and_endsBy_of_mem_spansOf hm).1
      omega
    rw [replaceSpans, replaceAt]
    by_cases hstart : ∃ span ∈ spansOf name items, span.start = offset
    · rw [if_pos hstart]
      exact Atom.endsBefore_cons (Atom.goesOn_eq_false (Or.inr (Or.inl rfl)) kind) _
    · rw [if_neg hstart, if_neg hinside]
      exact Atom.endsBefore_cons (he c rfl) _

/-- A group is replaced inside its parentheses and after them. -/
theorem replaceSpans_group {spans later : List Span} {offset : Nat} {inside : List Char}
    (hs : ∀ span ∈ spans, offset + 1 ≤ span.start ∧ span.EndsBy (offset + 1 + byteSize inside))
    (hl : ∀ span ∈ later, offset + byteSize ('(' :: (inside ++ [')'])) ≤ span.start) (replacement after : List Char) :
    replaceSpans (spans ++ later) replacement offset ('(' :: (inside ++ ')' :: after)) =
      '(' :: (replaceSpans spans replacement (offset + 1) inside ++
        ')' :: replaceSpans later replacement (offset + byteSize ('(' :: (inside ++ [')']))) after) := by
  have hopen : byteSize ['('] = 1 := rfl
  have hclose : byteSize [')'] = 1 := rfl
  have hsize : offset + byteSize ('(' :: (inside ++ [')'])) = offset + 1 + byteSize inside + 1 := by
    rw [byteSize_group, ← Nat.add_assoc, ← Nat.add_assoc]
  rw [hsize] at hl ⊢
  have hall : ∀ span ∈ spans ++ later, offset + byteSize ['('] ≤ span.start := by
    intro span hm
    rw [hopen]
    rcases List.mem_append.mp hm with hm | hm
    · exact (hs span hm).1
    · have := hl span hm
      omega
  have hlater : ∀ span ∈ later, offset + 1 + byteSize inside ≤ span.start := by
    intro span hm
    have := hl span hm
    omega
  have hfirst := replaceSpans_append_left hall replacement (inside ++ ')' :: after)
  have hmiddle := replaceSpans_append (fun span hm => (hs span hm).2) hlater replacement (')' :: after)
  have hlast := @replaceSpans_append_left later (offset + 1 + byteSize inside) [')'] hl replacement after
  rw [hopen, hmiddle] at hfirst
  rw [hclose] at hlast
  rw [List.singleton_append, List.singleton_append] at hfirst hlast
  rw [hfirst, hlast]

/-- When a divided text in parentheses stands for a variable, the text that comes of it is divided with a group for each of the
variable's items, wherever in its source it stands. -/
theorem Divided.exists_divided_replaceSpans {d : List Char} {inner : List Item} (hd : Divided 0 d inner) (name : String)
    {offset : Nat} {text : List Char} {items : List Item} (h : Divided offset text items) (offset' : Nat) :
    ∃ items', Divided offset' (replaceSpans (spansOf name items) ('(' :: (d ++ [')'])) offset text) items' ∧
      unplacedItems items' = unplacedItems (inlineItems name inner items) := by
  induction h generalizing offset' with
  | nil offset =>
    rw [inlineItems]
    exact ⟨[], .nil _, rfl⟩
  | @blank offset c rest items hb hrest ih =>
    obtain ⟨items', hdiv, heq⟩ := ih (offset' + c.utf8Size)
    have hl : ∀ span ∈ spansOf name items, offset + byteSize [c] ≤ span.start := by
      intro span hm
      exact (hrest.le_and_endsBy_of_mem_spansOf hm).1
    have hsplit := replaceSpans_append_left hl ('(' :: (d ++ [')'])) rest
    rw [List.singleton_append, List.singleton_append] at hsplit
    rw [hsplit]
    exact ⟨items', .blank hb hdiv, heq⟩
  | @atom offset kind text covered after items hs he hafter ih =>
    have hl : ∀ span ∈ spansOf name items, offset + byteSize covered ≤ span.start := by
      intro span hm
      exact (hafter.le_and_endsBy_of_mem_spansOf hm).1
    rw [spansOf, inlineItems, Item.spansOf, Item.inline]
    by_cases hk : kind = .var ∧ String.ofList text = name
    · have hover : ∀ span ∈ [Span.over offset covered], span.EndsBy (offset + byteSize covered) := by
        intro span hm
        rw [List.mem_singleton.mp hm]
        exact Span.endsBy_over offset hs.ne_nil
      obtain ⟨items', hdiv, heq⟩ := ih (offset' + byteSize ('(' :: (d ++ [')'])))
      have hinner := hd.shift (offset' + 1)
      rw [Nat.zero_add] at hinner
      rw [if_pos hk, if_pos hk, replaceSpans_append hover hl, replaceSpans_over offset hs.ne_nil, List.cons_append,
        List.append_assoc, List.singleton_append]
      exact ⟨_, .group hinner hdiv, unplacedItems_cons_group (unplacedItems_mapItems _ inner) _ _ heq⟩
    · obtain ⟨items', hdiv, heq⟩ := ih (offset' + byteSize covered)
      rw [if_neg hk, if_neg hk, List.nil_append, replaceSpans_append_left hl]
      exact ⟨_, .atom hs (hafter.endsBefore_replaceSpans he name _) hdiv, unplacedItems_cons_atom _ _ _ _ heq⟩
  | @group offset inside after members items hm ho ihm iho =>
    have hs : ∀ span ∈ spansOf name members, offset + 1 ≤ span.start ∧ span.EndsBy (offset + 1 + byteSize inside) := by
      intro span hspan
      exact hm.le_and_endsBy_of_mem_spansOf hspan
    have hl : ∀ span ∈ spansOf name items, offset + byteSize ('(' :: (inside ++ [')'])) ≤ span.start := by
      intro span hspan
      exact (ho.le_and_endsBy_of_mem_spansOf hspan).1
    obtain ⟨members', hmdiv, hmeq⟩ := ihm (offset' + 1)
    obtain ⟨items', hodiv, hoeq⟩ := iho (offset' + byteSize ('(' ::
      (replaceSpans (spansOf name members) ('(' :: (d ++ [')'])) (offset + 1) inside ++ [')'])))
    rw [spansOf, inlineItems, Item.spansOf, Item.inline, replaceSpans_group hs hl]
    exact ⟨_, .group hmdiv hodiv, unplacedItems_cons_group hmeq _ _ hoeq⟩

end RuleLang
