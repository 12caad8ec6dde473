import RuleLang.Proofs.Item.Turn

/-!
# A scan advances and ends

Every call under way stands in its range, at a boundary (`Scan.Frame.InRange`), and a turn that does not end the scan takes some call
further on in its range or begins one inside (`Scan.Follows`). What is still to be read gives, with the items found before, what reading
the source gives (`Scan.State.result`). A turn keeps all this (`Scan.Stacked.continues_next`) and leaves fewer turns to go on for
(`Scan.Follows.turnsLeft_lt`), so a scan does not halt but at a fault of the source, and after more turns than the source has bytes it has
ended with the items of the source or with its fault (`scan_advances_and_ends`).
-/

namespace RuleLang

namespace Scan

/-! ### What holds of the calls under way -/

/-- The call reads a range of the source and stands in it, at a boundary. -/
structure Frame.InRange (source : String) (f : Frame) : Prop where
  start_le_offset : f.start ≤ f.offset
  offset_le_stop : f.offset ≤ f.stop
  stop_le_size : f.stop ≤ source.utf8ByteSize
  start_boundary : Boundary source f.start
  offset_boundary : Boundary source f.offset
  stop_boundary : Boundary source f.stop
  depth_le : f.depth ≤ maxNesting

/-- The call reads what stands between the parentheses of the group that the other call has come to. -/
structure Frame.EnclosedBy (source : String) (f g : Frame) : Prop where
  start_eq : f.start = g.offset + 1
  stop_lt_stop : f.stop < g.stop
  depth_eq : f.depth = g.depth + 1
  opens : Span.Covers ⟨g.offset, f.start⟩ source ['(']
  closes : Span.Covers ⟨f.stop, f.stop + 1⟩ source [')']

/-- Each of the calls stands in its range and is enclosed by the next. -/
def Stacked (source : String) : Frame → List Frame → Prop
  | f, [] => f.InRange source
  | f, g :: outer => f.InRange source ∧ f.EnclosedBy source g ∧ Stacked source g outer

/-- The same call has come further on in its range. -/
structure Frame.Advances (f g : Frame) : Prop where
  start_eq : g.start = f.start
  stop_eq : g.stop = f.stop
  depth_eq : g.depth = f.depth
  offset_lt : f.offset < g.offset
  offset_le : g.offset ≤ g.stop

/-- What one turn makes of a scan whose innermost call is `f`: this call goes further on, a call begins inside its range, it has come to
its end and the call around it goes on behind it, or the scan ends with items or with a fault of the source. -/
inductive Follows (f : Frame) : (outer : List Frame) → State → Prop
  | further {outer : List Frame} {g : Frame} : f.Advances g → Follows f outer (.reading g outer)
  | into {outer : List Frame} {close : Nat} : f.offset < close → close < f.stop →
      Follows f outer (.reading (f.inner close) (f :: outer))
  | outOf {outer : List Frame} {g g' : Frame} : f.offset = f.stop → g.Advances g' → g'.offset = f.stop + 1 →
      Follows f (g :: outer) (.reading g' outer)
  | accepted : f.offset = f.stop → Follows f [] (.ended (.ok f.items))
  | refused {outer : List Frame} (error : LexError) : Follows f outer (.ended (.error (.fault error)))

theorem Stacked.inRange {source : String} {f : Frame} {outer : List Frame} (h : Stacked source f outer) : f.InRange source := by
  cases outer with
  | nil => exact h
  | cons g outer => exact h.1

theorem Stacked.inRange_of_mem {source : String} {f : Frame} {outer : List Frame} (h : Stacked source f outer) :
    ∀ g ∈ f :: outer, g.InRange source := by
  induction outer generalizing f with
  | nil =>
    intro g hg
    obtain rfl := List.mem_singleton.mp hg
    exact h
  | cons f' outer ih =>
    intro g hg
    rcases List.mem_cons.mp hg with rfl | hg
    · exact h.1
    · exact ih h.2.2 g hg

/-- A call that has come further on is enclosed as before. -/
theorem Stacked.advance {source : String} {f g : Frame} {outer : List Frame} (h : Stacked source f outer) (hfg : f.Advances g)
    (hg : g.InRange source) : Stacked source g outer := by
  cases outer with
  | nil => exact hg
  | cons f' outer =>
    obtain ⟨-, ⟨hstart, hstop, hdepth, hopens, hcloses⟩, houter⟩ := h
    refine ⟨hg, ⟨?_, ?_, ?_, ?_, ?_⟩, houter⟩
    · rw [hfg.start_eq, hstart]
    · rw [hfg.stop_eq]
      exact hstop
    · rw [hfg.depth_eq, hdepth]
    · rw [hfg.start_eq]
      exact hopens
    · rw [hfg.stop_eq]
      exact hcloses

namespace Frame

variable {source : String} {f g : Frame}

/-- The rest of a range in which a call stands is a text. -/
theorem InRange.exists_covers (h : f.InRange source) : ∃ text, Span.Covers ⟨f.offset, f.stop⟩ source text :=
  Span.exists_covers_iff.mpr ⟨h.offset_le_stop, h.offset_boundary, h.stop_boundary⟩

/-- A call goes on behind any characters with which the rest of its range begins. -/
theorem InRange.advance (h : f.InRange source) {front after : List Char} (hc : Span.Covers ⟨f.offset, f.stop⟩ source (front ++ after))
    (hne : front ≠ []) (items : List Item) :
    InRange source { f with offset := f.offset + byteSize front, items := items } ∧
      f.Advances { f with offset := f.offset + byteSize front, items := items } := by
  obtain ⟨hle, hboundary, -⟩ := Span.exists_covers_iff.mp ⟨_, hc.of_append.2⟩
  have hpos : byteSize front ≠ 0 := fun hz => hne (byteSize_eq_zero_iff.mp hz)
  have hstart := h.start_le_offset
  exact ⟨⟨by simp only; omega, hle, h.stop_le_size, h.start_boundary, hboundary, h.stop_boundary, h.depth_le⟩,
    rfl, rfl, rfl, by simp only; omega, hle⟩

/-- When a call has come to the end of its range, the call around it goes on behind the `)`. -/
theorem EnclosedBy.advance (h : f.EnclosedBy source g) (hf : f.InRange source) (hg : g.InRange source) (items : List Item) :
    InRange source { g with offset := f.stop + 1, items := items } ∧ g.Advances { g with offset := f.stop + 1, items := items } := by
  obtain ⟨-, -, hboundary⟩ := Span.exists_covers_iff.mp ⟨_, h.closes⟩
  have hstart := h.start_eq
  have hstop := h.stop_lt_stop
  have h1 := hf.start_le_offset
  have h2 := hf.offset_le_stop
  have h3 := hg.start_le_offset
  exact ⟨⟨by simp only; omega, by simp only; omega, hg.stop_le_size, hg.start_boundary, hboundary, hg.stop_boundary, hg.depth_le⟩,
    rfl, rfl, rfl, by simp only; omega, by simp only; omega⟩

end Frame

/-! ### What a scan comes to -/

/-- The text between two offsets, if there is one. -/
def textIn (source : String) (span : Span) : List Char := ((span.slice? source).getD "").toList

theorem textIn_of_covers {source : String} {span : Span} {text : List Char} (h : span.Covers source text) :
    textIn source span = text := by
  rw [textIn, h, Option.getD_some, String.toList_ofList]

/-- The items that are still to be found in the range of a call. -/
def Frame.rest (source : String) (f : Frame) : Except LexError (List Item) :=
  itemsOf (some maxNesting) f.depth f.offset (textIn source ⟨f.offset, f.stop⟩)

/-- The items that the outermost call has found in the end, if every call under way finds those that are still in its range. -/
def Frame.result (source : String) : Frame → List Frame → Except LexError (List Item)
  | f, [] => do
    let others ← f.rest source
    return f.items ++ others
  | f, g :: outer => do
    let others ← f.rest source
    (g.push (.group (f.items ++ others) ⟨g.offset, f.stop + 1⟩)).result source outer

/-- What the scan has come to, or comes to if it reads the rest of each range as `itemsOf` does. -/
def State.result (source : String) : State → Except Halt (List Item)
  | .ended result => result
  | .reading f outer => (f.result source outer).mapError .fault

namespace Frame

variable {source : String} {f g : Frame} {outer : List Frame}

theorem rest_of_covers {text : List Char} (h : Span.Covers ⟨f.offset, f.stop⟩ source text) :
    f.rest source = itemsOf (some maxNesting) f.depth f.offset text := by
  rw [rest, textIn_of_covers h]

theorem result_of_error {error : LexError} (h : f.rest source = .error error) : f.result source outer = .error error := by
  cases outer <;> rw [result, h] <;> rfl

theorem result_nil_of_ok {others : List Item} (h : f.rest source = .ok others) : f.result source [] = .ok (f.items ++ others) := by
  rw [result, h]
  rfl

theorem result_cons_of_ok {others : List Item} (h : f.rest source = .ok others) :
    f.result source (g :: outer) = (g.push (.group (f.items ++ others) ⟨g.offset, f.stop + 1⟩)).result source outer := by
  rw [result, h]
  rfl

/-- A call that has found further items, which its range began with, comes to the same. -/
theorem result_eq {found : List Item} (hstop : g.stop = f.stop) (hitems : g.items = f.items ++ found)
    (hrest : f.rest source = (do let others ← g.rest source; return found ++ others)) :
    g.result source outer = f.result source outer := by
  cases hg : g.rest source with
  | error error =>
    rw [hg] at hrest
    rw [result_of_error hg, result_of_error hrest]
  | ok others =>
    rw [hg] at hrest
    have hf : f.rest source = .ok (found ++ others) := hrest
    cases outer with
    | nil => rw [result_nil_of_ok hg, result_nil_of_ok hf, hitems, List.append_assoc]
    | cons g' outer => rw [result_cons_of_ok hg, result_cons_of_ok hf, hitems, hstop, List.append_assoc]

/-- With a group, the rest of a range is the inside of the group and what follows its `)`. -/
theorem rest_group {inside after : List Char} (hd : f.depth < maxNesting)
    (hc : Span.Covers ⟨f.offset, f.stop⟩ source ('(' :: (inside ++ ')' :: after)))
    (hfind : Closing.find 0 none (inside ++ ')' :: after) = .closed inside after) :
    f.rest source = (do
      let members ← (f.inner (f.offset + 1 + byteSize inside)).rest source
      let item := Item.group members ⟨f.offset, f.offset + 1 + byteSize inside + 1⟩
      let others ← (f.push item).rest source
      return item :: others) := by
  obtain ⟨-, hrest⟩ := hc.of_cons
  obtain ⟨hinside, hclose⟩ := hrest.of_append
  obtain ⟨-, hafter⟩ := hclose.of_cons
  have hspan : Span.over f.offset ('(' :: inside ++ [')']) = ⟨f.offset, f.offset + 1 + byteSize inside + 1⟩ := by
    rw [Span.over, List.cons_append, byteSize_group, Nat.add_assoc f.offset 1, Nat.add_assoc f.offset]
  have hp : passed? (some maxNesting) f.depth = none := by rw [passed?_some, if_neg (Nat.not_le_of_lt hd)]
  rw [rest_of_covers hc, itemsOf_group hp hfind, hspan,
    @rest_of_covers source (f.inner (f.offset + 1 + byteSize inside)) inside hinside]
  refine congrArg _ (funext fun members => ?_)
  simp only [@rest_of_covers source (f.push (.group members ⟨f.offset, f.offset + 1 + byteSize inside + 1⟩)) after hafter]
  rfl

/-- The call for the inside of a group comes to what the call around it comes to. -/
theorem result_inner {close : Nat} (h : f.rest source = (do
      let members ← (f.inner close).rest source
      let item := Item.group members ⟨f.offset, close + 1⟩
      let others ← (f.push item).rest source
      return item :: others)) : (f.inner close).result source (f :: outer) = f.result source outer := by
  cases hm : (f.inner close).rest source with
  | error error =>
    rw [hm] at h
    rw [result_of_error hm, result_of_error h]
  | ok members =>
    rw [hm] at h
    rw [result_cons_of_ok hm]
    exact result_eq rfl rfl h

end Frame

/-! ### One turn -/

/-- The scan `s` goes on with the one whose innermost call is `f`: its calls are stacked, it is where one turn may lead, and it comes to the
same. -/
structure Continues (source : String) (f : Frame) (outer : List Frame) (s : State) : Prop where
  stacked : ∀ g rest, s = .reading g rest → Stacked source g rest
  follows : Follows f outer s
  result_eq : s.result source = (f.result source outer).mapError .fault

variable {source : String} {f g : Frame} {outer : List Frame}

/-- Going on behind a part of the text that the reading takes first. -/
theorem Stacked.continues_further (h : Stacked source f outer) {front after : List Char} {found : List Item} (hne : front ≠ [])
    (hc : Span.Covers ⟨f.offset, f.stop⟩ source (front ++ after))
    (hread : itemsOf (some maxNesting) f.depth f.offset (front ++ after) = (do
      let others ← itemsOf (some maxNesting) f.depth (f.offset + byteSize front) after
      return found ++ others)) :
    Continues source f outer (.reading { f with offset := f.offset + byteSize front, items := f.items ++ found } outer) := by
  obtain ⟨hrange, hadvances⟩ := h.inRange.advance hc hne (f.items ++ found)
  have hrest := Frame.rest_of_covers hc
  rw [hread, ← @Frame.rest_of_covers source { f with offset := f.offset + byteSize front, items := f.items ++ found } after
    hc.of_append.2] at hrest
  refine ⟨?_, .further hadvances, congrArg (Except.mapError Halt.fault) (Frame.result_eq rfl rfl hrest)⟩
  rintro g rest hs
  obtain ⟨rfl, rfl⟩ := State.reading.inj hs
  exact h.advance hadvances hrange

/-- Beginning the call for the inside of a group. -/
theorem Stacked.continues_into (h : Stacked source f outer) {inside after : List Char} (hd : f.depth < maxNesting)
    (hc : Span.Covers ⟨f.offset, f.stop⟩ source ('(' :: (inside ++ ')' :: after)))
    (hfind : Closing.find 0 none (inside ++ ')' :: after) = .closed inside after) :
    Continues source f outer (.reading (f.inner (f.offset + 1 + byteSize inside)) (f :: outer)) := by
  obtain ⟨hopens, hrest⟩ := hc.of_cons
  obtain ⟨hinside, hclose⟩ := hrest.of_append
  obtain ⟨hcloses, hafter⟩ := hclose.of_cons
  obtain ⟨-, hfirst, hlast⟩ := Span.exists_covers_iff.mp ⟨_, hinside⟩
  have hstop : f.offset + 1 + byteSize inside + 1 ≤ f.stop := hafter.le
  refine ⟨?_, .into (by omega) hstop, congrArg (Except.mapError Halt.fault) (Frame.result_inner (Frame.rest_group hd hc hfind))⟩
  rintro g rest hs
  obtain ⟨rfl, rfl⟩ := State.reading.inj hs
  have hrange : Frame.InRange source (f.inner (f.offset + 1 + byteSize inside)) :=
    ⟨Nat.le_refl _, Nat.le_add_right _ _, hlast.le, hfirst, hfirst, hlast, hd⟩
  exact ⟨hrange, ⟨rfl, hstop, rfl, hopens, hcloses⟩, h⟩

/-- Going on behind the group that a call has read to its end. -/
theorem Stacked.continues_outOf (h : Stacked source f (g :: outer)) (hend : Span.Covers ⟨f.offset, f.stop⟩ source []) :
    Continues source f (g :: outer) (.reading (g.push (.group f.items ⟨g.offset, f.stop + 1⟩)) outer) := by
  obtain ⟨hf, henclosed, houter⟩ := h
  obtain ⟨hrange, hadvances⟩ := henclosed.advance hf houter.inRange (g.items ++ [.group f.items ⟨g.offset, f.stop + 1⟩])
  have hrest := Frame.rest_of_covers hend
  rw [itemsOf_nil] at hrest
  refine ⟨?_, .outOf hend.stop_eq.symm hadvances rfl, ?_⟩
  · rintro g' rest hs
    obtain ⟨rfl, rfl⟩ := State.reading.inj hs
    exact houter.advance hadvances hrange
  · rw [State.result, Frame.result_cons_of_ok hrest, List.append_nil]

/-- Every turn of a scan goes on with it. -/
theorem Stacked.continues_next (h : Stacked source f outer) :
    Continues source f outer ((State.reading f outer).next source) := by
  obtain ⟨text, hc⟩ := h.inRange.exists_covers
  have hmeets := meets_turn hc f.depth
  unfold State.next
  simp only
  -- a turn does what the front of the text asks for, and the reading of the text begins in the same way
  generalize turn source f.stop f.depth f.offset = found at hmeets
  cases hmeets with
  | done =>
    cases outer with
    | nil =>
      have hrest := Frame.rest_of_covers hc
      rw [itemsOf_nil] at hrest
      refine ⟨fun _ _ hs => (by cases hs), .accepted hc.stop_eq.symm, ?_⟩
      rw [Frame.result_nil_of_ok hrest, List.append_nil]
      rfl
    | cons g outer => exact h.continues_outOf hc
  | @blank c rest hb =>
    have hread := itemsOf_blank hb (some maxNesting) f.depth f.offset rest
    have hnext := @Stacked.continues_further source f outer h [c] rest [] (List.cons_ne_nil _ _) hc (by
      rw [List.singleton_append, hread, byteSize_cons, byteSize_nil, Nat.add_zero]
      cases itemsOf (some maxNesting) f.depth (f.offset + c.utf8Size) rest <;> rfl)
    rwa [List.append_nil] at hnext
  | @atom c rest after word hb ho hread =>
    rw [Word.eq_append_of_read hread] at hc
    refine @Stacked.continues_further source f outer h word.covered after _ (Word.covered_ne_nil_of_read hread) hc ?_
    rw [← Word.eq_append_of_read hread, itemsOf_word hb ho hread]
    rfl
  | group hd hfind =>
    rw [Closing.find_closed hfind] at hc hfind
    exact h.continues_into hd hc hfind
  | fault herror =>
    rw [← Frame.rest_of_covers hc] at herror
    refine ⟨fun _ _ hs => (by cases hs), .refused _, ?_⟩
    rw [Frame.result_of_error herror]
    rfl

/-! ### A whole scan -/

/-- However many turns a scan takes, its calls are stacked and it comes to what reading the source gives. -/
theorem stateAfter_sound (source : String) (turns : Nat) :
    (∀ f outer, stateAfter source turns = .reading f outer → Stacked source f outer) ∧
      (stateAfter source turns).result source = (lex source).mapError .fault := by
  induction turns with
  | zero =>
    have hc : Span.Covers ⟨0, source.utf8ByteSize⟩ source source.toList :=
      Span.covers_iff.mpr ⟨[], [], by simp, rfl, by rw [byteSize_toList]; exact Nat.zero_add _⟩
    obtain ⟨-, hfirst, hlast⟩ := Span.exists_covers_iff.mp ⟨_, hc⟩
    refine ⟨?_, ?_⟩
    · rintro f outer hs
      obtain ⟨rfl, rfl⟩ := State.reading.inj hs
      exact ⟨Nat.le_refl _, Nat.zero_le _, Nat.le_refl _, hfirst, hfirst, hlast, Nat.zero_le _⟩
    · rw [stateAfter, State.result, Frame.result, @Frame.rest_of_covers source ⟨0, source.utf8ByteSize, 0, 0, []⟩ _ hc, lex]
      cases itemsOf (some maxNesting) 0 0 source.toList <;> rfl
  | succ turns ih =>
    obtain ⟨hstacked, hresult⟩ := ih
    rw [stateAfter]
    cases hs : stateAfter source turns with
    | ended result =>
      rw [hs] at hresult
      exact ⟨fun _ _ hreading => (by cases hreading), hresult⟩
    | reading f outer =>
      rw [hs] at hresult
      have hcontinues := (hstacked f outer hs).continues_next
      exact ⟨hcontinues.stacked, hcontinues.result_eq.trans hresult⟩

/-- The bytes that are still ahead of the calls, the innermost of which has come to byte `offset`, and one for the end of each range. -/
def ahead (offset : Nat) : List Frame → Nat
  | [] => 0
  | f :: outer => f.stop - offset + 1 + ahead (f.stop + 1) outer

/-- At most how many turns the scan goes on for. -/
def State.turnsLeft : State → Nat
  | .ended _ => 0
  | .reading f outer => ahead f.offset (f :: outer)

/-- A group takes two bytes more than its inside, so there are fewer turns left when the call for the inside begins, although its range has
an end of its own. -/
theorem Follows.turnsLeft_lt {s : State} (h : Follows f outer s) : s.turnsLeft < (State.reading f outer).turnsLeft := by
  cases h with
  | @further _ g hadvances =>
    obtain ⟨-, hstop, -, hlt, hle⟩ := hadvances
    rw [State.turnsLeft, State.turnsLeft, ahead, ahead, hstop]
    omega
  | @into _ close hlt hstop =>
    rw [State.turnsLeft, State.turnsLeft, ahead, ahead, ahead, Frame.inner]
    simp only
    omega
  | @outOf _ g g' hend hadvances hoffset =>
    obtain ⟨-, hstop, -, hlt, hle⟩ := hadvances
    rw [State.turnsLeft, State.turnsLeft, ahead, ahead, ahead, hstop, hoffset]
    omega
  | accepted _ => exact Nat.succ_pos _
  | refused _ =>
    rw [State.turnsLeft, State.turnsLeft, ahead]
    omega

theorem turnsLeft_stateAfter_le (source : String) (turns : Nat) :
    (stateAfter source turns).turnsLeft ≤ source.utf8ByteSize + 1 - turns := by
  induction turns with
  | zero => exact Nat.le_refl _
  | succ turns ih =>
    rw [stateAfter]
    cases hs : stateAfter source turns with
    | ended result => exact Nat.zero_le _
    | reading f outer =>
      rw [hs] at ih
      have hlt := ((stateAfter_sound source turns).1 f outer hs).continues_next.follows.turnsLeft_lt
      omega

end Scan

open Scan in
/-- A scan of a source stays in the source, advances and ends. Before every turn each call under way has come to a boundary in its range,
which lies in the source between boundaries and inside at most `maxNesting` groups; the turn takes a call further on in its range, or
begins one inside, or ends the scan with items or with a fault. So the scan asks for no slice that does not exist, which is one whose ends
are out of order or no boundaries, and counts off no `)` before a `(`; and after more turns than the source has bytes it has ended as the
reading of the source does. -/
theorem scan_advances_and_ends (source : String) :
    (∀ turns f outer, stateAfter source turns = .reading f outer →
      (∀ g ∈ f :: outer, g.InRange source) ∧ Follows f outer (stateAfter source (turns + 1))) ∧
    (∀ span, slice source span = .error (.noSlice span) ↔
      ¬(span.start ≤ span.stop ∧ Boundary source span.start ∧ Boundary source span.stop)) ∧
    (∀ turns halt, stateAfter source turns = .ended (.error halt) → ∃ error, halt = .fault error ∧ lex source = .error error) ∧
    ∀ turns, source.utf8ByteSize < turns → stateAfter source turns = .ended ((lex source).mapError .fault) := by
  refine ⟨?_, fun span => slice_eq_noSlice_iff, ?_, ?_⟩
  · intro turns f outer hs
    have hstacked := (stateAfter_sound source turns).1 f outer hs
    rw [stateAfter, hs]
    exact ⟨hstacked.inRange_of_mem, hstacked.continues_next.follows⟩
  · intro turns halt hs
    have hresult := (stateAfter_sound source turns).2
    rw [hs] at hresult
    obtain ⟨error, hlex, hhalt⟩ := mapError_eq_error_iff.mp hresult.symm
    exact ⟨error, hhalt.symm, hlex⟩
  · intro turns hturns
    have hresult := (stateAfter_sound source turns).2
    have hleft := turnsLeft_stateAfter_le source turns
    cases hs : stateAfter source turns with
    | ended result =>
      rw [hs] at hresult
      exact congrArg State.ended hresult
    | reading f outer =>
      rw [hs, State.turnsLeft, ahead] at hleft
      omega

open Scan in
/-- With a character of two bytes behind a quote and behind `<`: after three turns the call for the inside of the group has come to the
second of them, at which the scan halts in its fourth turn. -/
theorem scan_advances_and_ends_multibyte :
    let f : Frame := ⟨1, 8, 1, 6, [.atom (.literal .string) "é" ⟨1, 5⟩, .atom (.operator .lt) "<" ⟨5, 6⟩]⟩
    let g : Frame := ⟨0, 9, 0, 0, []⟩
    let error : LexError := .malformed .unknownToken "é" ⟨6, 8⟩
    (stateAfter "('é'<é)" 3 = .reading f [g] ∧ f.InRange "('é'<é)" ∧ g.InRange "('é'<é)" ∧
      Follows f [g] (stateAfter "('é'<é)" 4)) ∧
    (stateAfter "('é'<é)" 4 = .ended (.error (.fault error)) ∧ lex "('é'<é)" = .error error) ∧
    "('é'<é)".utf8ByteSize < 10 ∧ stateAfter "('é'<é)" 10 = .ended ((lex "('é'<é)").mapError .fault) := by
  intro f g error
  have hs : stateAfter "('é'<é)" 3 = .reading f [g] := by rfl
  have hh : stateAfter "('é'<é)" 4 = .ended (.error (.fault error)) := by rfl
  have hsize : "('é'<é)".utf8ByteSize < 10 := by decide
  obtain ⟨hreading, -, hhalts, hended⟩ := scan_advances_and_ends "('é'<é)"
  obtain ⟨hrange, hfollows⟩ := hreading 3 f [g] hs
  obtain ⟨error', herror, hlex⟩ := hhalts 4 _ hh
  obtain rfl := Halt.fault.inj herror
  exact ⟨⟨hs, hrange f (List.mem_cons_self ..), hrange g (List.mem_cons_of_mem _ (List.mem_cons_self ..)), hfollows⟩, ⟨hh, hlex⟩,
    hsize, hended 10 hsize⟩

end RuleLang
