import Mathlib
import RuleLang.Proofs.Expr.Fault
import RuleLang.Proofs.Item.Report
import RuleLang.Proofs.Rule.Compiling
import RuleLang.Proofs.Text.Position

/-!
# Where errors are told to be

A row and a column name one place of a source, since of two offsets where characters begin the later one has the later place
(`Boundary.before_position`). Offsets where none begins all have the place of the end of the source. No error of a source is told to be
there: its span covers an item or a faulty piece of the source, which has a first character (`position_exact`).
-/

namespace RuleLang

/-- A character of the source begins where the span begins. -/
def Span.BeginsIn (source : String) (span : Span) : Prop := Boundary source span.start ∧ span.start < source.utf8ByteSize

/-- The later of two boundaries has the later place. -/
theorem Boundary.before_position {source : String} {span span' : Span} (h : Boundary source span.start)
    (h' : Boundary source span'.start) (hlt : span.start < span'.start) :
    (span.position source).Before (span'.position source) := by
  obtain ⟨before, after, hs, hstart⟩ := h
  obtain ⟨before', after', hs', hstart'⟩ := h'
  obtain ⟨further, rfl, -⟩ := exists_append_of_byteSize_le (hs.symm.trans hs') (by omega)
  have hfurther : further ≠ [] := by
    rintro rfl
    rw [List.append_nil] at hstart'
    omega
  rw [Span.position_of_boundary hs hstart, Span.position_of_boundary hs' hstart']
  exact Position.after_before_after_append before hfurther

/-- Different boundaries have different places. -/
theorem Boundary.position_ne {source : String} {span span' : Span} (h : Boundary source span.start)
    (h' : Boundary source span'.start) (hne : span.start ≠ span'.start) : span.position source ≠ span'.position source := by
  rcases Nat.lt_or_gt_of_ne hne with hlt | hlt
  · exact (h.before_position h' hlt).ne
  · exact (h'.before_position h hlt).ne.symm

/-- Where a character begins, the place is not that of the end. -/
theorem Span.BeginsIn.position_ne {source : String} {span : Span} (h : span.BeginsIn source) :
    span.position source ≠ Position.after source.toList := by
  obtain ⟨hboundary, hlt⟩ := h
  have hall : source.toList = source.toList ++ [] := (List.append_nil _).symm
  have hend : byteSize source.toList = (⟨source.utf8ByteSize, source.utf8ByteSize⟩ : Span).start := byteSize_toList source
  rw [← Span.position_of_boundary hall hend]
  exact (hboundary.before_position ⟨_, _, hall, hend⟩ hlt).ne

/-! ### Spans of errors -/

theorem Span.Covers.beginsIn {source : String} {span : Span} {covered : List Char} (h : span.Covers source covered)
    (hne : covered ≠ []) : span.BeginsIn source := by
  obtain ⟨before, after, hs, hstart, _⟩ := Span.covers_iff.mp h
  refine ⟨⟨before, covered ++ after, by rw [hs, List.append_assoc], hstart⟩, ?_⟩
  have hpos : byteSize covered ≠ 0 := fun hz => hne (byteSize_eq_zero_iff.mp hz)
  rw [← byteSize_toList, hs, byteSize_append, byteSize_append]
  omega

/-- The error for a source that has no items is told where a character of the source begins. -/
theorem beginsIn_of_lex {source : String} {error : LexError} (h : lex source = .error error) : error.span.BeginsIn source := by
  obtain ⟨n, before, ahead, after, hw, hbelow, hfault⟩ := hasFault_of_itemsOf h
  simp only [Nat.zero_add] at hbelow hfault
  have key : ∀ {span : Span} {text : String}, span.start < span.stop → span.slice? source = some text → span.BeginsIn source := by
    intro span text hlt hslice
    have hcovers : span.Covers source text.toList := by rw [Span.Covers, hslice, String.ofList_toList]
    refine hcovers.beginsIn fun hnil => ?_
    obtain ⟨_, _, _, _, hstop⟩ := Span.covers_iff.mp hcovers
    rw [hnil, byteSize_nil] at hstop
    omega
  have htruthful := hfault.truthful hw hbelow
  cases error with
  | malformed fault text span => exact key htruthful.1 htruthful.2.1
  | tooDeep limit span => exact key htruthful.2.1 htruthful.2.2.1

/-- Every item that a piece of the source is divided into, at any nesting, covers some characters of the source. -/
theorem Divided.exists_covers {source : String} {offset : Nat} {text : List Char} {items : List Item}
    (h : Divided offset text items) {before after : List Char} (hs : source.toList = before ++ text ++ after)
    (hb : byteSize before = offset) {item : Item} (hm : item.OccursIn items) :
    ∃ covered, covered ≠ [] ∧ item.span.Covers source covered := by
  induction h generalizing before after with
  | nil offset =>
    cases hm with
    | here hm => cases hm
    | inside hm => cases hm
  | @blank offset c rest items _ _ ih =>
    subst hb
    exact ih (by simpa using hs) (byteSize_append before [c]) hm
  | @atom offset kind text covered rest items hspelled _ _ ih =>
    subst hb
    have hs' : source.toList = (before ++ covered) ++ rest ++ after := by simpa using hs
    rcases Item.occursIn_cons_iff.mp hm with rfl | ⟨_, _, hgroup, _⟩ | hm
    · exact ⟨covered, hspelled.ne_nil, Span.covers_of_append (by simpa using hs')⟩
    · cases hgroup
    · exact ih hs' (byteSize_append _ _) hm
  | @group offset inside rest members items _ _ ihm iho =>
    subst hb
    have hrest : source.toList = (before ++ '(' :: (inside ++ [')'])) ++ rest ++ after := by simpa using hs
    rcases Item.occursIn_cons_iff.mp hm with rfl | ⟨_, _, hgroup, hm⟩ | hm
    · exact ⟨'(' :: (inside ++ [')']), List.cons_ne_nil _ _, Span.covers_of_append (by simpa using hrest)⟩
    · obtain ⟨rfl, _⟩ := Item.group.inj hgroup
      have hopen : source.toList = (before ++ ['(']) ++ inside ++ (')' :: (rest ++ after)) := by simpa using hs
      exact ihm hopen (byteSize_append _ _) hm
    · exact iho hrest (byteSize_append _ _) hm

/-- The error for items of a source that are no expression is told where a character of the source begins. -/
theorem beginsIn_of_parse {source : String} {items : List Item} {error : ParseError} {span : Span} (hlex : lex source = .ok items)
    (h : parse items = .error error) (hspan : error.span? = some span) : span.BeginsIn source := by
  have hne : error ≠ .eof := by
    rintro rfl
    cases hspan
  obtain ⟨item, hoccurs, hnames⟩ := (pointsAt_of_exprOf h).exists_names hne
  obtain rfl : item.span = span := Option.some.inj (hnames.span?_eq.symm.trans hspan)
  have hdivided := (lex_eq_ok_iff.mp hlex).1
  obtain ⟨covered, hcovered, hcovers⟩ := @Divided.exists_covers source 0 source.toList items hdivided [] [] (by simp) rfl item hoccurs
  exact hcovers.beginsIn hcovered

theorem beginsIn_of_compile {source : String} {error : Error} {span : Span} (h : compile source = .error error)
    (hspan : error.span? = some span) : span.BeginsIn source := by
  unfold compile at h
  split at h
  · rename_i lexError hlex
    obtain rfl := Except.error.inj h
    obtain rfl := Option.some.inj hspan
    exact beginsIn_of_lex hlex
  · rename_i items hlex
    cases hparse : parse items with
    | ok e =>
      rw [hparse] at h
      cases h
    | error parseError =>
      rw [hparse] at h
      obtain rfl := Except.error.inj h
      exact beginsIn_of_parse hlex hparse hspan

/-- What the row and the column of a span tell. Where the span begins at a boundary, the row counts the line feeds before it and the
column the characters since the last of them. Places come in the order of the boundaries, so that different boundaries have different
places; an offset past the end of the source or inside a character has the place of the end. The errors of a source that have a place
are told where a character of the source begins, which is not the place of the end. -/
theorem position_exact :
    (∀ source (span : Span) before after, source.toList = before ++ after → byteSize before = span.start →
      (span.position source).Locates before) ∧
    (∀ source (span span' : Span), Boundary source span.start → Boundary source span'.start →
      (span.start < span'.start → (span.position source).Before (span'.position source)) ∧
        (span.start ≠ span'.start → span.position source ≠ span'.position source)) ∧
    (∀ source (span : Span), source.utf8ByteSize < span.start ∨ ¬Boundary source span.start →
      span.position source = Position.after source.toList) ∧
    (∀ source error, lex source = .error error →
      error.span.BeginsIn source ∧ error.span.position source ≠ Position.after source.toList) ∧
    ∀ source error span, compile source = .error error → error.span? = some span →
      span.BeginsIn source ∧ span.position source ≠ Position.after source.toList := by
  refine ⟨?_, ?_, ?_, ?_, ?_⟩
  · intro source span before after hs hstart
    rw [Span.position_of_boundary hs hstart]
    exact Position.locates_after before
  · intro source span span' h h'
    exact ⟨h.before_position h', h.position_ne h'⟩
  · rintro source span (hlt | hno)
    · exact Span.position_of_not_boundary fun h => absurd h.le (Nat.not_le_of_lt hlt)
    · exact Span.position_of_not_boundary hno
  · intro source error h
    exact ⟨beginsIn_of_lex h, (beginsIn_of_lex h).position_ne⟩
  · intro source error span h hspan
    exact ⟨beginsIn_of_compile h hspan, (beginsIn_of_compile h hspan).position_ne⟩

/-- In a source of two rows with a character of two bytes, what begins behind a text has the place that the text tells, what begins
later has a later place, and an offset inside the character has the place of the end. The errors of two other sources are told at other
places than their ends. -/
theorem position_exact_rows :
    (Span.position ⟨4, 6⟩ "'é'==\n $y").Locates "'é'".toList ∧
      (Span.position ⟨4, 6⟩ "'é'==\n $y").Before (Span.position ⟨8, 10⟩ "'é'==\n $y") ∧
      Span.position ⟨2, 3⟩ "'é'==\n $y" = Position.after "'é'==\n $y".toList ∧
      Span.position ⟨2, 3⟩ "1\n@" ≠ Position.after "1\n@".toList ∧
      Span.position ⟨2, 3⟩ "1\n2" ≠ Position.after "1\n2".toList := by
  obtain ⟨hlocates, horder, hend, hlex, hcompile⟩ := position_exact
  have hfirst : Boundary "'é'==\n $y" 4 := by decide
  have hlater : Boundary "'é'==\n $y" 8 := by decide
  have hno : ¬Boundary "'é'==\n $y" 2 := by decide
  have herror : lex "1\n@" = .error (.malformed .unknownToken "@" ⟨2, 3⟩) := by cbv
  have herror' : compile "1\n2" = .error (.parse (.unfinished (.literal .integer) ⟨2, 3⟩)) := by cbv
  refine ⟨hlocates _ ⟨4, 6⟩ "'é'".toList "==\n $y".toList (by simp) (by cbv), ?_, hend _ ⟨2, 3⟩ (Or.inr hno), (hlex _ _ herror).2,
    (hcompile _ _ _ herror' rfl).2⟩
  exact (horder _ ⟨4, 6⟩ ⟨8, 10⟩ hfirst hlater).1 (by decide)

end RuleLang
