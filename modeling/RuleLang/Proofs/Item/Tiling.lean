import RuleLang.Proofs.Item.Division

/-!
# Items tile their source

What the spans of items say of a source. At every level of nesting the items stand in order and leave nothing but white space
between them; an atom covers its spelling and ends there, and a group covers a `(`, a tiling of its members and a `)` (`Tiles`).
The items of a source are the one tiling of it whose groups nest within the limit (`lex_eq_ok_iff_tiles`).
-/

namespace RuleLang

/-- The characters of the source that the span covers are `covered`. -/
def Span.Covers (span : Span) (source : String) (covered : List Char) : Prop :=
  span.slice? source = some (.ofList covered)

/-- The character that begins at byte `n` of the source. -/
def charAt? (source : String) (n : Nat) : Option Char := (splitAtByte? n source.toList).bind (·.2.head?)

/-- From byte `start` to byte `stop` there is nothing but white space. -/
def BlankBetween (source : String) (start stop : Nat) : Prop :=
  ∃ gap, Span.Covers ⟨start, stop⟩ source gap ∧ ∀ c ∈ gap, isBlank c = true

mutual

/-- The item stands in the source where its span says. -/
def Item.StandsIn (source : String) : Item → Prop
  | .atom kind text span =>
    (∃ covered, kind.Spelled text.toList covered ∧ span.Covers source covered) ∧
      ∀ c, charAt? source span.stop = some c → kind.goesOn c = false
  | .group members span =>
    Span.Covers ⟨span.start, span.start + 1⟩ source ['('] ∧ Span.Covers ⟨span.stop - 1, span.stop⟩ source [')'] ∧
      Tiles source (span.start + 1) (span.stop - 1) members

/-- The items tile the source from byte `start` to byte `stop`: they stand there one after the other, none of them empty, and what is
before, between and after them is white space. -/
def Tiles (source : String) (start stop : Nat) : List Item → Prop
  | [] => BlankBetween source start stop
  | item :: items =>
    BlankBetween source start item.span.start ∧ item.span.start < item.span.stop ∧ item.StandsIn source ∧
      Tiles source item.span.stop stop items

end

/-! ### Pieces of a source -/

/-- Of two fronts of one text, the one with fewer bytes is a front of the other. -/
theorem exists_append_of_byteSize_le {a b c d : List Char} (h : a ++ b = c ++ d) (hle : byteSize a ≤ byteSize c) :
    ∃ x, c = a ++ x ∧ b = x ++ d := by
  rcases List.append_eq_append_iff.mp h with ⟨x, hc, hb⟩ | ⟨x, ha, hd⟩
  · exact ⟨x, hc, hb⟩
  · have hx : x = [] := by
      rw [ha, byteSize_append] at hle
      exact byteSize_eq_zero_iff.mp (by omega)
    subst hx
    exact ⟨[], by simpa using ha.symm, by simpa using hd.symm⟩

theorem append_inj_of_byteSize_eq {a b c d : List Char} (h : a ++ b = c ++ d) (heq : byteSize a = byteSize c) :
    a = c ∧ b = d := by
  obtain ⟨x, rfl, rfl⟩ := exists_append_of_byteSize_le h (Nat.le_of_eq heq)
  rw [byteSize_append] at heq
  have hx : x = [] := byteSize_eq_zero_iff.mp (by omega)
  subst hx
  exact ⟨(List.append_nil a).symm, rfl⟩

theorem Span.covers_iff {span : Span} {source : String} {covered : List Char} :
    span.Covers source covered ↔ ∃ before after, source.toList = before ++ covered ++ after ∧ byteSize before = span.start ∧
      span.start + byteSize covered = span.stop := by
  rw [Span.Covers, Span.slice?_eq_some_iff, String.toList_ofList]

/-- A span inside a piece of the source divides that piece. -/
theorem Span.Covers.split {source : String} {before text after covered : List Char} {start stop : Nat}
    (h : Span.Covers ⟨start, stop⟩ source covered) (hs : source.toList = before ++ text ++ after)
    (hstart : byteSize before ≤ start) (hstop : stop ≤ byteSize before + byteSize text) :
    ∃ front rest, text = front ++ covered ++ rest ∧ byteSize before + byteSize front = start := by
  obtain ⟨b, a, hba, hb, ha⟩ := Span.covers_iff.mp h
  simp only at hb ha
  rw [hs, List.append_assoc, List.append_assoc] at hba
  obtain ⟨front, rfl, hf⟩ := exists_append_of_byteSize_le hba (by omega)
  rw [← List.append_assoc] at hf
  rw [byteSize_append] at hb
  obtain ⟨rest, hr, _⟩ := exists_append_of_byteSize_le hf.symm (by rw [byteSize_append]; omega)
  exact ⟨front, rest, hr, hb⟩

/-- A span that begins where a piece of the source begins covers a front of that piece. -/
theorem Span.Covers.front {source : String} {before text after covered : List Char} {stop : Nat}
    (h : Span.Covers ⟨byteSize before, stop⟩ source covered) (hs : source.toList = before ++ text ++ after)
    (hstop : stop ≤ byteSize before + byteSize text) :
    ∃ rest, text = covered ++ rest ∧ byteSize (before ++ covered) = stop := by
  obtain ⟨front, rest, ht, hf⟩ := h.split hs (Nat.le_refl _) hstop
  obtain ⟨_, _, _, _, hlen⟩ := Span.covers_iff.mp h
  have hnil : front = [] := byteSize_eq_zero_iff.mp (by omega)
  subst hnil
  exact ⟨rest, ht, by rw [byteSize_append]; exact hlen⟩

theorem Span.covers_of_append {source : String} {before covered after : List Char}
    (hs : source.toList = before ++ covered ++ after) : (Span.over (byteSize before) covered).Covers source covered :=
  Span.covers_iff.mpr ⟨before, after, hs, rfl, rfl⟩

/-- Two spans that meet cover together what they cover. -/
theorem Span.Covers.append {source : String} {a b : List Char} {start middle stop : Nat}
    (ha : Span.Covers ⟨start, middle⟩ source a) (hb : Span.Covers ⟨middle, stop⟩ source b) :
    Span.Covers ⟨start, stop⟩ source (a ++ b) := by
  obtain ⟨b₁, a₁, h₁, hs₁, hl₁⟩ := Span.covers_iff.mp ha
  obtain ⟨b₂, a₂, h₂, hs₂, hl₂⟩ := Span.covers_iff.mp hb
  simp only at hs₁ hl₁ hs₂ hl₂
  rw [h₁, List.append_assoc b₂] at h₂
  obtain ⟨rfl, rfl⟩ := append_inj_of_byteSize_eq h₂ (by rw [byteSize_append]; omega)
  refine Span.covers_iff.mpr ⟨b₁, a₂, by simpa using h₁, hs₁, ?_⟩
  rw [byteSize_append]
  simp only
  omega

theorem Span.Covers.le {source : String} {covered : List Char} {start stop : Nat}
    (h : Span.Covers ⟨start, stop⟩ source covered) : start ≤ stop := by
  obtain ⟨_, _, _, _, hlen⟩ := Span.covers_iff.mp h
  simp only at hlen
  omega

theorem charAt?_of_append {source : String} {before after : List Char} (hs : source.toList = before ++ after) :
    charAt? source (byteSize before) = after.head? := by
  rw [charAt?, splitAtByte?_eq_some_iff.mpr ⟨hs, rfl⟩, Option.bind_some]

/-! ### A division tiles -/

theorem BlankBetween.le {source : String} {start stop : Nat} (h : BlankBetween source start stop) : start ≤ stop := by
  obtain ⟨_, hc, _⟩ := h
  exact hc.le

theorem Tiles.le {source : String} {items : List Item} {start stop : Nat} (h : Tiles source start stop items) :
    start ≤ stop := by
  induction items generalizing start with
  | nil =>
    rw [Tiles] at h
    exact h.le
  | cons item items ih =>
    rw [Tiles] at h
    obtain ⟨hg, hlt, _, ht⟩ := h
    have h1 := hg.le
    have h2 := ih ht
    omega

theorem blankBetween_self {source : String} {before after : List Char} (hs : source.toList = before ++ after) :
    BlankBetween source (byteSize before) (byteSize before) := by
  refine ⟨[], ?_, fun c hc => absurd hc (List.not_mem_nil)⟩
  exact @Span.covers_of_append source before [] after (by simpa using hs)

/-- White space before a tiling is part of its first gap. -/
theorem tiles_blank {source : String} {before after : List Char} {c : Char} {stop : Nat} {items : List Item}
    (hs : source.toList = before ++ c :: after) (hc : isBlank c = true)
    (h : Tiles source (byteSize before + c.utf8Size) stop items) : Tiles source (byteSize before) stop items := by
  have key : ∀ {m : Nat}, BlankBetween source (byteSize before + c.utf8Size) m → BlankBetween source (byteSize before) m := by
    rintro m ⟨gap, hg, hb⟩
    have hfirst : Span.Covers ⟨byteSize before, byteSize before + c.utf8Size⟩ source [c] :=
      @Span.covers_of_append source before [c] after (by simpa using hs)
    refine ⟨c :: gap, hfirst.append hg, fun d hd => ?_⟩
    rcases List.mem_cons.mp hd with rfl | hd
    · exact hc
    · exact hb d hd
  cases items with
  | nil =>
    rw [Tiles] at h ⊢
    exact key h
  | cons item items =>
    rw [Tiles] at h ⊢
    exact ⟨key h.1, h.2⟩

/-- A group stands where its parentheses do when its members tile what is between them. -/
theorem standsIn_group {source : String} {before inside after : List Char} {members : List Item}
    (hs : source.toList = before ++ '(' :: (inside ++ ')' :: after))
    (hm : Tiles source (byteSize before + 1) (byteSize before + 1 + byteSize inside) members) :
    (Item.group members (.over (byteSize before) ('(' :: (inside ++ [')'])))).StandsIn source := by
  have hstop : (Span.over (byteSize before) ('(' :: (inside ++ [')']))).stop =
      byteSize before + 1 + byteSize inside + 1 := by
    rw [Span.over, byteSize_group]
    simp only
    omega
  have hfront : byteSize (before ++ '(' :: inside) = byteSize before + 1 + byteSize inside := by
    rw [byteSize_append, byteSize_cons, ← Nat.add_assoc]
    rfl
  rw [Item.StandsIn, hstop, Nat.add_sub_cancel]
  refine ⟨@Span.covers_of_append source before ['('] (inside ++ ')' :: after) (by simpa using hs), ?_, hm⟩
  rw [← hfront]
  exact @Span.covers_of_append source (before ++ '(' :: inside) [')'] after (by simpa using hs)

/-- A division of a piece of the source tiles the piece, if what follows the piece goes on with no atom. -/
theorem tiles_of_divided {source : String} {offset : Nat} {text : List Char} {items : List Item}
    (h : Divided offset text items) {before after : List Char} (hs : source.toList = before ++ text ++ after)
    (hb : byteSize before = offset) (ha : ∀ kind : Atom, kind.EndsBefore after) :
    Tiles source offset (offset + byteSize text) items := by
  induction h generalizing before after with
  | nil offset =>
    subst hb
    rw [Tiles]
    exact blankBetween_self (by simpa using hs)
  | @blank offset c rest items hc _ ih =>
    subst hb
    have hs' : source.toList = (before ++ [c]) ++ rest ++ after := by simpa using hs
    have ht := ih hs' (by rw [byteSize_append, byteSize_cons, byteSize_nil, Nat.add_zero]) ha
    rw [Nat.add_assoc] at ht
    exact tiles_blank (by simpa using hs') hc ht
  | @atom offset kind text covered rest items hsp he _ ih =>
    subst hb
    have hs' : source.toList = (before ++ covered) ++ rest ++ after := by simpa using hs
    have hnext : charAt? source (byteSize before + byteSize covered) = (rest ++ after).head? := by
      rw [← byteSize_append]
      exact charAt?_of_append (by simpa using hs')
    have hpos : 0 < byteSize covered := Nat.pos_of_ne_zero fun h0 => hsp.ne_nil (byteSize_eq_zero_iff.mp h0)
    rw [Tiles, byteSize_append, ← Nat.add_assoc]
    refine ⟨blankBetween_self (by simpa using hs), Nat.lt_add_of_pos_right hpos, ?_,
      ih hs' (byteSize_append _ _) ha⟩
    rw [Item.StandsIn, String.toList_ofList]
    refine ⟨⟨covered, hsp, Span.covers_of_append (by simpa using hs')⟩, fun c hc => ?_⟩
    rw [show (Span.over (byteSize before) covered).stop = byteSize before + byteSize covered from rfl, hnext] at hc
    cases rest with
    | nil => exact ha kind c hc
    | cons d rest => exact he c hc
  | @group offset inside rest members items _ _ ihm iho =>
    subst hb
    have hopen : source.toList = (before ++ ['(']) ++ inside ++ (')' :: (rest ++ after)) := by simpa using hs
    have hrest : source.toList = (before ++ '(' :: (inside ++ [')'])) ++ rest ++ after := by simpa using hs
    have hm := ihm hopen (byteSize_append _ _)
      fun kind => Atom.endsBefore_cons (Atom.goesOn_eq_false (Or.inr (Or.inr (Or.inl rfl))) kind) _
    have ho := iho hrest (byteSize_append _ _) ha
    rw [Tiles, byteSize_group_append, ← Nat.add_assoc]
    refine ⟨blankBetween_self (by simpa using hs), ?_, standsIn_group (by simpa using hs) hm, ho⟩
    rw [Item.span, Span.over, byteSize_group]
    simp only
    omega

/-! ### A tiling divides -/

/-- White space before a division belongs to it. -/
theorem divided_of_blank {gap rest : List Char} {items : List Item} (hg : ∀ c ∈ gap, isBlank c = true) {offset : Nat}
    (h : Divided (offset + byteSize gap) rest items) : Divided offset (gap ++ rest) items := by
  induction gap generalizing offset with
  | nil => exact h
  | cons c gap ih =>
    rw [byteSize_cons, ← Nat.add_assoc] at h
    exact .blank (hg c (List.mem_cons_self ..)) (ih (fun d hd => hg d (List.mem_cons_of_mem _ hd)) h)

/-- An atom that stands at the front of a piece of the source is spelled there and ends there. -/
theorem exists_spelled_of_standsIn {source carried : String} {before text after : List Char} {kind : Atom} {stop : Nat}
    (h : (Item.atom kind carried ⟨byteSize before, stop⟩).StandsIn source) (hs : source.toList = before ++ text ++ after)
    (hstop : stop ≤ byteSize before + byteSize text) :
    ∃ covered rest, text = covered ++ rest ∧ stop = byteSize (before ++ covered) ∧ kind.Spelled carried.toList covered ∧
      kind.EndsBefore rest := by
  rw [Item.StandsIn] at h
  obtain ⟨⟨covered, hsp, hc⟩, he⟩ := h
  obtain ⟨rest, rfl, hlen⟩ := hc.front hs hstop
  refine ⟨covered, rest, rfl, hlen.symm, hsp, fun c hc => he c ?_⟩
  rw [← hlen, @charAt?_of_append source (before ++ covered) (rest ++ after) (by simpa using hs)]
  cases rest with
  | nil => cases hc
  | cons d rest => exact hc

/-- A group that stands at the front of a piece of the source stands there with its parentheses and with a tiling between them. -/
theorem exists_tiles_of_standsIn {source : String} {before text after : List Char} {members : List Item} {stop : Nat}
    (h : (Item.group members ⟨byteSize before, stop⟩).StandsIn source) (hs : source.toList = before ++ text ++ after)
    (hstop : stop ≤ byteSize before + byteSize text) :
    ∃ inside rest, text = '(' :: (inside ++ ')' :: rest) ∧ stop = byteSize (before ++ '(' :: (inside ++ [')'])) ∧
      Tiles source (byteSize before + 1) (byteSize before + 1 + byteSize inside) members := by
  rw [Item.StandsIn] at h
  obtain ⟨hopen, hclose, ht⟩ := h
  simp only at hopen hclose ht
  have hle := ht.le
  obtain ⟨_, _, _, _, hlast⟩ := Span.covers_iff.mp hclose
  have hone : byteSize ['('] = 1 ∧ byteSize [')'] = 1 := ⟨rfl, rfl⟩
  simp only [hone.2] at hlast
  obtain ⟨text, rfl, _⟩ := hopen.front hs (by omega)
  have hs' : source.toList = (before ++ ['(']) ++ text ++ after := by simpa using hs
  have hsize : byteSize (before ++ ['(']) = byteSize before + 1 := byteSize_append _ _
  obtain ⟨inside, rest, rfl, hin⟩ := hclose.split hs' (by omega) (by rw [byteSize_append, hone.1] at hstop; omega)
  rw [← hin, hsize] at ht
  refine ⟨inside, rest, by simp, ?_, ht⟩
  rw [byteSize_append, byteSize_group]
  omega

/-- An item at the front of a piece of the source, with a division of what follows it in the piece, is a division of the piece. The
members of a group are divided on the way, which is the hypothesis `hm` for all shorter pieces. -/
theorem divided_of_standsIn {source : String} {before text after : List Char} {item : Item} {items : List Item}
    (h : item.StandsIn source) (hs : source.toList = before ++ text ++ after) (hstart : item.span.start = byteSize before)
    (hstop : item.span.stop ≤ byteSize before + byteSize text)
    (hm : ∀ {members : List Item} {b t a : List Char}, t.length < text.length → source.toList = b ++ t ++ a →
      Tiles source (byteSize b) (byteSize b + byteSize t) members → Divided (byteSize b) t members)
    (hi : ∀ {covered rest : List Char}, text = covered ++ rest → item.span.stop = byteSize (before ++ covered) →
      covered ≠ [] → Divided (byteSize (before ++ covered)) rest items) :
    Divided (byteSize before) text (item :: items) := by
  have hover : ∀ covered, (⟨byteSize before, byteSize (before ++ covered)⟩ : Span) = .over (byteSize before) covered := by
    intro covered
    rw [Span.over, byteSize_append]
  cases item with
  | atom kind carried span =>
    obtain ⟨start, stop⟩ := span
    obtain rfl : start = byteSize before := hstart
    obtain ⟨covered, rest, rfl, rfl, hsp, hends⟩ := exists_spelled_of_standsIn h hs hstop
    rw [hover, ← @String.ofList_toList carried]
    refine .atom hsp hends ?_
    rw [← byteSize_append]
    exact hi rfl rfl hsp.ne_nil
  | group members span =>
    obtain ⟨start, stop⟩ := span
    obtain rfl : start = byteSize before := hstart
    obtain ⟨inside, rest, rfl, rfl, ht⟩ := exists_tiles_of_standsIn h hs hstop
    have hsize : byteSize (before ++ ['(']) = byteSize before + 1 := byteSize_append _ _
    have hlen : inside.length < ('(' :: (inside ++ ')' :: rest)).length := by
      rw [List.length_cons, List.length_append]
      omega
    have hs' : source.toList = (before ++ ['(']) ++ inside ++ (')' :: rest ++ after) := by simpa using hs
    rw [← hsize] at ht
    have hmd := hm hlen hs' ht
    rw [hsize] at hmd
    rw [hover]
    refine .group hmd ?_
    rw [← byteSize_append]
    exact hi (by simp) rfl (List.cons_ne_nil _ _)

/-- A tiling of a piece of the source divides the piece. -/
theorem divided_of_tiles {source : String} {before text after : List Char} {items : List Item}
    (h : Tiles source (byteSize before) (byteSize before + byteSize text) items)
    (hs : source.toList = before ++ text ++ after) : Divided (byteSize before) text items := by
  induction hn : text.length using Nat.strongRecOn generalizing before text after items with
  | ind n ih =>
    subst hn
    cases items with
    | nil =>
      rw [Tiles] at h
      obtain ⟨gap, hg, hb⟩ := h
      obtain ⟨rest, rfl, hlen⟩ := hg.front hs (Nat.le_refl _)
      have hrest : rest = [] := by
        rw [byteSize_append, byteSize_append] at hlen
        exact byteSize_eq_zero_iff.mp (by omega)
      subst hrest
      exact divided_of_blank hb (.nil _)
    | cons item items =>
      rw [Tiles] at h
      obtain ⟨⟨gap, hg, hb⟩, hlt, hitem, hrest⟩ := h
      have hle := hrest.le
      obtain ⟨text, rfl, hstart⟩ := hg.front hs (by omega)
      have hs' : source.toList = (before ++ gap) ++ text ++ after := by simpa using hs
      rw [byteSize_append gap, ← Nat.add_assoc, ← byteSize_append] at hrest hle
      refine divided_of_blank hb ?_
      rw [← byteSize_append]
      refine divided_of_standsIn hitem hs' hstart.symm hle ?_ ?_
      · intro members b t a hlen hs hm
        exact ih t.length (by rw [List.length_append]; omega) hm hs rfl
      · rintro covered rest rfl hstop hne
        have hpos := List.length_pos_iff.mpr hne
        rw [hstop, byteSize_append covered, ← Nat.add_assoc, ← byteSize_append] at hrest
        refine ih rest.length ?_ hrest (by simpa using hs') rfl
        rw [List.length_append, List.length_append]
        omega

/-- The items of a source are the tiling of the whole source whose groups nest within the limit. There is no other such tiling:
what the atoms must not be followed by leaves no choice where they end. -/
theorem lex_eq_ok_iff_tiles (source : String) (items : List Item) :
    lex source = .ok items ↔ Tiles source 0 source.utf8ByteSize items ∧ nestingOf items ≤ maxNesting := by
  have hs : source.toList = [] ++ source.toList ++ [] := by simp
  have hall : Divided 0 source.toList items ↔ Tiles source 0 (0 + byteSize source.toList) items := by
    constructor
    · intro h
      exact tiles_of_divided h hs rfl Atom.endsBefore_nil
    · intro h
      exact @divided_of_tiles source [] source.toList [] items h hs
  rw [lex_eq_ok_iff, hall, Nat.zero_add, byteSize_toList]

end RuleLang
