import RuleLang.Proofs.Item.Division
import RuleLang.Proofs.Item.Search

/-!
# Groups that nest too deep

Where the limit on groups is passed can be seen from the parentheses of a text alone: at the first `(` outside of strings that as
many others enclose as the limit allows. A divided text is read as its items when there is no such `(`, and is refused at the first
one when there is (`itemsOf_of_divided_of_limit`). Any text without such a `(` is read as if there were no limit
(`itemsOf_eq_of_firstOpening?_eq_none`).
-/

namespace RuleLang

namespace Place

/-- After `before`, the text opens a parenthesis outside of strings and inside exactly `n` others. The place `p` is where the text
begins. -/
def Opens (p : Place) (n : Nat) (text before : List Char) : Prop :=
  before ++ ['('] <+: text ∧ p.reach? before = some (inside n)

/-- What comes before the first parenthesis that a text opens outside of strings and inside exactly `n` others. -/
def firstOpening? (n : Nat) (p : Place) : List Char → Option (List Char)
  | [] => none
  | c :: text =>
    if p = inside n ∧ c = '(' then some [] else (p.next? c).bind fun q => (firstOpening? n q text).map (c :: ·)

/-- What is found is an opening, and a front of every other. -/
theorem opens_of_firstOpening? {n : Nat} {p : Place} {text before : List Char} (h : firstOpening? n p text = some before) :
    p.Opens n text before ∧ ∀ other, p.Opens n text other → before <+: other := by
  induction text generalizing p before with
  | nil => cases h
  | cons c text ih =>
    rw [firstOpening?] at h
    by_cases hc : p = inside n ∧ c = '('
    · rw [if_pos hc] at h
      obtain rfl := Option.some.inj h
      obtain ⟨rfl, rfl⟩ := hc
      refine ⟨⟨?_, rfl⟩, fun other _ => List.nil_prefix⟩
      exact List.cons_prefix_cons.mpr ⟨rfl, List.nil_prefix⟩
    · rw [if_neg hc] at h
      obtain ⟨q, hq, h⟩ := Option.bind_eq_some_iff.mp h
      obtain ⟨b, hb, rfl⟩ := Option.map_eq_some_iff.mp h
      obtain ⟨⟨hpre, hreach⟩, hfirst⟩ := ih hb
      refine ⟨⟨List.cons_prefix_cons.mpr ⟨rfl, hpre⟩, ?_⟩, ?_⟩
      · rw [reach?_cons, hq, Option.bind_some, hreach]
      · rintro other ⟨hpre', hreach'⟩
        cases other with
        | nil => exact absurd ⟨Option.some.inj hreach', (List.cons_prefix_cons.mp hpre').1.symm⟩ hc
        | cons d other =>
          obtain ⟨rfl, htail⟩ := List.cons_prefix_cons.mp hpre'
          rw [reach?_cons, hq, Option.bind_some] at hreach'
          exact List.cons_prefix_cons.mpr ⟨rfl, hfirst other ⟨htail, hreach'⟩⟩

/-- Every opening makes one be found. -/
theorem firstOpening?_ne_none {n : Nat} {p : Place} {text before : List Char} (h : p.Opens n text before) :
    firstOpening? n p text ≠ none := by
  obtain ⟨hpre, hreach⟩ := h
  induction text generalizing p before with
  | nil =>
    have hnil := List.prefix_nil.mp hpre
    exact absurd hnil (List.append_ne_nil_of_right_ne_nil _ (List.cons_ne_nil _ _))
  | cons c text ih =>
    rw [firstOpening?]
    by_cases hc : p = inside n ∧ c = '('
    · rw [if_pos hc]
      exact Option.some_ne_none _
    · rw [if_neg hc]
      cases before with
      | nil => exact absurd ⟨Option.some.inj hreach, (List.cons_prefix_cons.mp hpre).1.symm⟩ hc
      | cons d before =>
        obtain ⟨rfl, htail⟩ := List.cons_prefix_cons.mp hpre
        obtain ⟨q, hq, hreach⟩ := Option.bind_eq_some_iff.mp hreach
        obtain ⟨b, hb⟩ := Option.ne_none_iff_exists'.mp (ih htail hreach)
        rw [hq, Option.bind_some, hb]
        exact Option.some_ne_none _

/-- An opening of a text in two parts is one of the first part or, failing that, one of the second. -/
theorem firstOpening?_append {n : Nat} {p q : Place} {a : List Char} (h : p.reach? a = some q) (b : List Char) :
    firstOpening? n p (a ++ b) = (firstOpening? n p a).or ((firstOpening? n q b).map (a ++ ·)) := by
  induction a generalizing p with
  | nil =>
    obtain rfl := Option.some.inj h
    simp [firstOpening?]
  | cons c a ih =>
    obtain ⟨r, hr, h⟩ := Option.bind_eq_some_iff.mp h
    rw [List.cons_append, firstOpening?, firstOpening?, hr, Option.bind_some, Option.bind_some, ih h]
    by_cases hc : p = inside n ∧ c = '('
    · rw [if_pos hc, if_pos hc, Option.some_or]
    · rw [if_neg hc, if_neg hc]
      cases firstOpening? n r a <;> cases firstOpening? n q b <;> rfl

theorem firstOpening?_plain {n depth : Nat} {text : List Char} (h : ∀ c ∈ text, Plain c) :
    firstOpening? n (inside depth) text = none := by
  induction text with
  | nil => rfl
  | cons c text ih =>
    have hc := h c (List.mem_cons_self ..)
    rw [firstOpening?, if_neg fun hp => hc.2.1 hp.2, next?_plain hc, Option.bind_some,
      ih fun d hd => h d (List.mem_cons_of_mem _ hd), Option.map_none]

/-- A string opens no parenthesis. -/
theorem firstOpening?_string {n depth : Nat} {quote : Char} {text : List Char} (hq : isQuote quote = true) (ht : quote ∉ text) :
    firstOpening? n (inside depth) (quote :: (text ++ [quote])) = none := by
  have hin : firstOpening? n ⟨some quote, depth⟩ (text ++ [quote]) = none := by
    induction text with
    | nil =>
      rw [List.nil_append, firstOpening?, if_neg nofun, next?_string, if_pos rfl, Option.bind_some]
      rfl
    | cons c text ih =>
      have hc : c ≠ quote := fun hc => ht (hc ▸ List.mem_cons_self ..)
      rw [List.cons_append, firstOpening?, if_neg nofun, next?_string, if_neg hc, Option.bind_some,
        ih fun hm => ht (List.mem_cons_of_mem _ hm), Option.map_none]
  have hopen : quote ≠ '(' := by
    rintro rfl
    cases hq
  rw [firstOpening?, if_neg fun hp => hopen hp.2, next?_quote hq, Option.bind_some, hin, Option.map_none]

end Place

/-- Of a group that does not pass the limit itself, what opens first is inside it or, failing that, after it. -/
theorem Place.firstOpening?_group {n depth : Nat} (hne : depth ≠ n) {text : List Char} (h : Balanced text) (after : List Char) :
    firstOpening? n (inside depth) ('(' :: (text ++ ')' :: after)) =
      ((firstOpening? n (inside (depth + 1)) text).map ('(' :: ·)).or
        ((firstOpening? n (inside depth) after).map ('(' :: (text ++ [')']) ++ ·)) := by
  have hopen : ¬(inside depth = inside n ∧ '(' = '(') := by
    rintro ⟨heq, _⟩
    exact hne (congrArg opened heq)
  have hclose : firstOpening? n (inside (depth + 1)) (')' :: after) = (firstOpening? n (inside depth) after).map (')' :: ·) := by
    rw [firstOpening?, if_neg fun h => absurd h.2 (by decide), next?_close, Option.bind_some]
  rw [firstOpening?, if_neg hopen, next?_open, Option.bind_some, firstOpening?_append (h (depth + 1)), hclose]
  cases firstOpening? n (inside (depth + 1)) text with
  | some before => rfl
  | none => cases firstOpening? n (inside depth) after <;> simp

/-- Atoms open no parenthesis. -/
theorem Atom.Spelled.firstOpening? {kind : Atom} {text covered : List Char} (h : kind.Spelled text covered) (n depth : Nat) :
    Place.firstOpening? n (.inside depth) covered = none := by
  rcases h.string_or_plain with ⟨quote, hq, ht, rfl⟩ | hp
  · exact Place.firstOpening?_string hq ht
  · exact Place.firstOpening?_plain hp

/-- What reading a text of the given items comes to when `opening?` tells where its groups first pass the limit. -/
def readUpTo (most offset : Nat) (items : List Item) (opening? : Option (List Char)) : Except LexError (List Item) :=
  match opening? with
  | none => .ok items
  | some before => .error (.tooDeep most (.over (offset + byteSize before) ['(']))

/-- An item in front of a text is read before what the text comes to. -/
theorem readUpTo_cons (most offset : Nat) (item : Item) (items : List Item) (front : List Char) (opening? : Option (List Char)) :
    (do let others ← readUpTo most (offset + byteSize front) items opening?; return item :: others) =
      readUpTo most offset (item :: items) (opening?.map (front ++ ·)) := by
  cases opening? with
  | none => rfl
  | some before =>
    rw [Option.map_some, readUpTo, readUpTo, byteSize_append, Nat.add_assoc]
    rfl

/-- Under a limit, a divided text is read as its items, or refused at the first parenthesis that passes the limit. -/
theorem itemsOf_of_divided_of_limit {most depth offset : Nat} {text : List Char} {items : List Item}
    (h : Divided offset text items) (hd : depth ≤ most) :
    itemsOf (some most) depth offset text =
      readUpTo most offset items (Place.firstOpening? most (.inside depth) text) := by
  induction h generalizing depth with
  | nil offset => exact itemsOf_nil _ _ _
  | @blank offset c rest items hb _ ih =>
    have hc := plain_of_isBlank hb
    rw [itemsOf_blank hb, ih hd, Place.firstOpening?, if_neg fun hp => hc.2.1 hp.2, Place.next?_plain hc, Option.bind_some]
    cases Place.firstOpening? most (.inside depth) rest with
    | none => rfl
    | some before =>
      rw [Option.map_some, readUpTo, readUpTo, byteSize_cons, Nat.add_assoc]
  | @atom offset kind text covered after items hs he _ ih =>
    obtain ⟨c, rest, rfl⟩ := List.exists_cons_of_ne_nil hs.ne_nil
    obtain ⟨hb, hc⟩ := hs.head_ne rfl
    rw [Place.firstOpening?_append (hs.balanced depth), hs.firstOpening?, Option.none_or, List.cons_append,
      itemsOf_word hb hc (Word.read_of_spelled hs he (List.cons_append ..).symm)]
    have hrest := ih hd
    simp only [Span.over] at hrest ⊢
    rw [hrest]
    exact readUpTo_cons most offset _ items (c :: rest) _
  | @group offset inside after members items hm _ ihm iho =>
    by_cases hlim : depth = most
    · subst hlim
      have hp : passed? (some depth) depth = some depth := by rw [passed?_some, if_pos (Nat.le_refl _)]
      rw [itemsOf_tooDeep hp, Place.firstOpening?, if_pos ⟨rfl, rfl⟩, readUpTo, byteSize_nil, Nat.add_zero]
    · have hp : passed? (some most) depth = none := by rw [passed?_some, if_neg (by omega)]
      rw [itemsOf_group hp (Closing.find_of_balanced hm.balanced after), ihm (by omega),
        Place.firstOpening?_group hlim hm.balanced after]
      cases Place.firstOpening? most (.inside (depth + 1)) inside with
      | some before =>
        rw [Option.map_some, Option.some_or, readUpTo, readUpTo, byteSize_cons, ← Nat.add_assoc]
        rfl
      | none =>
        have hrest := iho hd
        have hgroup := readUpTo_cons most offset (.group members (.over offset ('(' :: (inside ++ [')'])))) items
          ('(' :: (inside ++ [')'])) (Place.firstOpening? most (.inside depth) after)
        rw [← hrest] at hgroup
        exact hgroup

/-- No parenthesis of a divided text passes the limit exactly when its groups stay within it. -/
theorem Divided.firstOpening?_eq_none_iff {most depth offset : Nat} {text : List Char} {items : List Item}
    (h : Divided offset text items) (hd : depth ≤ most) :
    Place.firstOpening? most (.inside depth) text = none ↔ nestingOf items ≤ most - depth := by
  have hr := itemsOf_of_divided_of_limit h hd
  constructor
  · intro hf
    rw [hf] at hr
    exact allows_some.mp (divided_of_itemsOf hr).2
  · intro hn
    rw [itemsOf_of_divided h (allows_some.mpr hn)] at hr
    cases hf : Place.firstOpening? most (.inside depth) text with
    | none => rfl
    | some before =>
      rw [hf] at hr
      cases hr

/-- A text that begins with a group and opens no parenthesis too deep does not lie as deep as the limit. -/
theorem Place.ne_of_firstOpening?_eq_none {n depth : Nat} {rest : List Char}
    (h : firstOpening? n (inside depth) ('(' :: rest) = none) : depth ≠ n := by
  rintro rfl
  rw [firstOpening?, if_pos ⟨rfl, rfl⟩] at h
  cases h

/-- A limit that no parenthesis of a text passes has no part in what the text is read as, items or error. -/
theorem itemsOf_eq_of_firstOpening?_eq_none {most depth offset : Nat} {text : List Char} (hd : depth ≤ most)
    (h : Place.firstOpening? most (.inside depth) text = none) :
    itemsOf (some most) depth offset text = itemsOf none depth offset text := by
  have hbelow : ∀ {depth : Nat} {rest : List Char}, depth ≤ most →
      Place.firstOpening? most (.inside depth) ('(' :: rest) = none → passed? (some most) depth = none := by
    intro depth rest hd h
    have hne := Place.ne_of_firstOpening?_eq_none h
    rw [passed?_some, if_neg (by omega)]
  fun_induction itemsOf none depth offset text with
  | case1 depth offset => exact itemsOf_nil _ _ _
  | case2 depth offset c rest hb ih =>
    have hc := plain_of_isBlank hb
    rw [Place.firstOpening?, if_neg fun hp => hc.2.1 hp.2, Place.next?_plain hc, Option.bind_some, Option.map_eq_none_iff] at h
    rw [itemsOf_blank hb, ih hd h]
  | case3 depth offset rest most' hp => cases hp
  | case4 depth offset rest hp tail hf => exact itemsOf_openString (hbelow hd h) hf offset
  | case5 depth offset rest hp hf => exact itemsOf_openGroup (hbelow hd h) hf offset
  | case6 depth offset rest hp inside after hf _ ihm iho =>
    have hne := Place.ne_of_firstOpening?_eq_none h
    rw [itemsOf_group (hbelow hd h) hf]
    rw [Closing.find_closed hf, Place.firstOpening?_group hne (Closing.balanced_of_find hf), Option.or_eq_none_iff,
      Option.map_eq_none_iff, Option.map_eq_none_iff] at h
    have hothers := iho hd h.2
    rw [ihm (by omega) h.1]
    simp only at hothers ⊢
    rw [hothers]
  | case7 depth offset c rest hb hc fault covered hr => exact itemsOf_fault (Bool.eq_false_iff.mpr hb) hc hr _ _ _
  | case8 depth offset c rest hb hc word after hr span =>
    rename_i ih
    have hs := (Word.spelled_of_read hr).1
    rw [Word.eq_append_of_read hr, Place.firstOpening?_append (hs.balanced depth), Option.or_eq_none_iff,
      Option.map_eq_none_iff] at h
    have hrest := ih hd h.2
    rw [itemsOf_word (Bool.eq_false_iff.mpr hb) hc hr]
    simp only [span] at hrest ⊢
    rw [hrest]

/-- The text opens no parenthesis outside of strings and inside `n` others. -/
def NestsWithin (n : Nat) (text : List Char) : Prop := ∀ before, ¬(Place.inside 0).Opens n text before

theorem nestsWithin_iff {n : Nat} {text : List Char} :
    NestsWithin n text ↔ Place.firstOpening? n (.inside 0) text = none := by
  constructor
  · intro h
    cases hf : Place.firstOpening? n (.inside 0) text with
    | none => rfl
    | some before => exact absurd (Place.opens_of_firstOpening? hf).1 (h before)
  · intro h before hopen
    exact Place.firstOpening?_ne_none hopen h

instance (n : Nat) (text : List Char) : Decidable (NestsWithin n text) := decidable_of_iff _ nestsWithin_iff.symm

/-- The groups of a divided text nest as deep as its parentheses do. -/
theorem Divided.nestingOf_le_iff {n offset : Nat} {text : List Char} {items : List Item} (h : Divided offset text items) :
    nestingOf items ≤ n ↔ NestsWithin n text := by
  rw [nestsWithin_iff, h.firstOpening?_eq_none_iff (Nat.zero_le n), Nat.sub_zero]

/-- A source whose division nests too deep is refused at the first parenthesis that too many others enclose. -/
theorem lex_tooDeep_of_divided {source : String} {items : List Item} (h : Divided 0 source.toList items)
    (hn : maxNesting < nestingOf items) :
    ∃ before, (Place.inside 0).Opens maxNesting source.toList before ∧
      (∀ other, (Place.inside 0).Opens maxNesting source.toList other → before <+: other) ∧
      lex source = .error (.tooDeep maxNesting (.over (byteSize before) ['('])) := by
  have hne : Place.firstOpening? maxNesting (.inside 0) source.toList ≠ none := by
    intro hf
    have := (h.firstOpening?_eq_none_iff (Nat.zero_le _)).mp hf
    omega
  obtain ⟨before, hf⟩ := Option.ne_none_iff_exists'.mp hne
  obtain ⟨hopen, hfirst⟩ := Place.opens_of_firstOpening? hf
  refine ⟨before, hopen, hfirst, ?_⟩
  rw [lex, itemsOf_of_divided_of_limit h (Nat.zero_le _), hf, readUpTo, Nat.zero_add]

end RuleLang
