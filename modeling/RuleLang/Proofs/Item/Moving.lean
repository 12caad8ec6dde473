import RuleLang.Proofs.Item.Division
import RuleLang.Proofs.Item.Search

/-!
# Items in other places

A text is read alike wherever in a source it stands, but for the places: its items are moved, or the error is (`itemsOf_add`).
So what a text is divided into moves with it (`Divided.shift`).
-/

namespace RuleLang

mutual

/-- The item with every place and every text replaced. -/
def Item.map (onSpan : Span → Span) (onText : String → String) : Item → Item
  | .atom kind text span => .atom kind (onText text) (onSpan span)
  | .group members span => .group (mapItems onSpan onText members) (onSpan span)

/-- The items with every place and every text replaced. -/
def mapItems (onSpan : Span → Span) (onText : String → String) : List Item → List Item
  | [] => []
  | item :: items => item.map onSpan onText :: mapItems onSpan onText items

end

/-- The items with their places erased. -/
def unplacedItems (items : List Item) : List Item := mapItems (fun _ => ⟨0, 0⟩) id items

/-- The span moved to the right. -/
def Span.shift (bytes : Nat) (span : Span) : Span := ⟨span.start + bytes, span.stop + bytes⟩

mutual

theorem Item.map_map_id (f g : Span → Span) (item : Item) : (item.map f id).map g id = item.map (g ∘ f) id := by
  match item with
  | .atom _ _ _ => rw [Item.map, Item.map, Item.map]; rfl
  | .group members _ => rw [Item.map, Item.map, Item.map, mapItems_mapItems_id]; rfl

theorem mapItems_mapItems_id (f g : Span → Span) (items : List Item) :
    mapItems g id (mapItems f id items) = mapItems (g ∘ f) id items := by
  match items with
  | [] => rw [mapItems, mapItems, mapItems]
  | item :: items => rw [mapItems, mapItems, mapItems, Item.map_map_id, mapItems_mapItems_id]

end

/-- Moving items leaves them equal but for their places. -/
theorem unplacedItems_mapItems (f : Span → Span) (items : List Item) :
    unplacedItems (mapItems f id items) = unplacedItems items :=
  mapItems_mapItems_id f _ items

theorem unplacedItems_cons_atom (kind : Atom) (text : String) (span span' : Span) {items items' : List Item}
    (h : unplacedItems items' = unplacedItems items) :
    unplacedItems (.atom kind text span' :: items') = unplacedItems (.atom kind text span :: items) := by
  rw [unplacedItems, unplacedItems, mapItems, mapItems, Item.map, Item.map]
  exact congrArg _ h

theorem unplacedItems_cons_group {members members' : List Item} (hm : unplacedItems members' = unplacedItems members)
    (span span' : Span) {items items' : List Item} (h : unplacedItems items' = unplacedItems items) :
    unplacedItems (.group members' span' :: items') = unplacedItems (.group members span :: items) := by
  rw [unplacedItems, unplacedItems, mapItems, mapItems, Item.map, Item.map]
  exact congr (congrArg _ (congrArg (Item.group · _) hm)) h

mutual

theorem Item.map_id (item : Item) : item.map id id = item := by
  match item with
  | .atom _ _ _ => rw [Item.map]; rfl
  | .group members _ => rw [Item.map, mapItems_id]; rfl

theorem mapItems_id (items : List Item) : mapItems id id items = items := by
  match items with
  | [] => rw [mapItems]
  | item :: items => rw [mapItems, Item.map_id, mapItems_id]

end

mutual

theorem Item.nesting_map (onSpan : Span → Span) (onText : String → String) (item : Item) :
    (item.map onSpan onText).nesting = item.nesting := by
  match item with
  | .atom _ _ _ => rw [Item.map, Item.nesting_atom, Item.nesting_atom]
  | .group members _ => rw [Item.map, Item.nesting_group, Item.nesting_group, nestingOf_mapItems]

/-- Groups nest in the same way whatever the places and texts of the items are. -/
theorem nestingOf_mapItems (onSpan : Span → Span) (onText : String → String) (items : List Item) :
    nestingOf (mapItems onSpan onText items) = nestingOf items := by
  match items with
  | [] => rw [mapItems]
  | item :: items => rw [mapItems, nestingOf_cons, nestingOf_cons, Item.nesting_map, nestingOf_mapItems]

end

/-! ### Texts that stand further right -/

theorem Span.shift_over (bytes offset : Nat) (covered : List Char) :
    (Span.over offset covered).shift bytes = .over (offset + bytes) covered := by
  rw [Span.over, Span.over, Span.shift, Nat.add_right_comm]

/-- The characters that end before a byte end that much further right. -/
theorem Span.shift_upTo (bytes : Nat) {stop : Nat} {covered : List Char} (h : byteSize covered ≤ stop) :
    (Span.upTo stop covered).shift bytes = .upTo (stop + bytes) covered := by
  rw [Span.upTo, Span.upTo, Span.shift, Nat.sub_add_comm h]

/-- The error with its place replaced. -/
def LexError.map (onSpan : Span → Span) : LexError → LexError
  | malformed fault text span => malformed fault text (onSpan span)
  | tooDeep limit span => tooDeep limit (onSpan span)

/-- What a text is read as, items or an error, with all places moved to the right. -/
def moved (bytes : Nat) : Except LexError (List Item) → Except LexError (List Item)
  | .ok items => .ok (mapItems (Span.shift bytes) id items)
  | .error error => .error (error.map (Span.shift bytes))

/-- Reading in two steps is moved step by step. -/
theorem moved_bind {bytes : Nat} {x : Except LexError (List Item)} {f g : List Item → Except LexError (List Item)}
    (h : ∀ items, moved bytes (f items) = g (mapItems (Span.shift bytes) id items)) :
    moved bytes (x >>= f) = moved bytes x >>= g := by
  cases x with
  | error error => rfl
  | ok items => exact h items

/-- A text that stands further right in its source is read alike, with all places moved. -/
theorem itemsOf_add (limit : Option Nat) (depth offset : Nat) (text : List Char) (bytes : Nat) :
    itemsOf limit depth (offset + bytes) text = moved bytes (itemsOf limit depth offset text) := by
  fun_induction itemsOf limit depth offset text with
  | case1 depth offset => rw [itemsOf_nil, moved, mapItems]
  | case2 depth offset c rest hb ih => rw [itemsOf_blank hb, Nat.add_right_comm, ih]
  | case3 depth offset rest most hp => rw [itemsOf_tooDeep hp, moved, LexError.map, Span.shift_over]
  | case4 depth offset rest hp tail hf =>
    have htail : byteSize tail ≤ offset + byteSize ('(' :: rest) := by
      rcases Closing.exists_quote_of_openString hf with ⟨front, quote, more, rfl, rfl, _⟩ | ⟨_, hnone, _⟩
      · simp only [byteSize_cons, byteSize_append]
        omega
      · cases hnone
    rw [itemsOf_openString hp hf, moved, LexError.map, Span.shift_upTo bytes htail, Nat.add_right_comm]
  | case5 depth offset rest hp hf => rw [itemsOf_openGroup hp hf, moved, LexError.map, Span.shift_over]
  | case6 depth offset rest hp inside after hf _ ihm iho =>
    simp only [Span.over] at iho
    rw [Nat.add_right_comm] at ihm iho
    rw [itemsOf_group hp hf, ihm]
    refine (moved_bind fun members => ?_).symm
    simp only [Span.over]
    rw [iho]
    refine moved_bind fun others => ?_
    simp only [pure, Except.pure]
    rw [moved, mapItems, Item.map, Span.shift, Nat.add_right_comm]
  | case7 depth offset c rest hb hc fault covered hr =>
    rw [itemsOf_fault (Bool.eq_false_iff.mpr hb) hc hr, moved, LexError.map, Span.shift_over]
  | case8 depth offset c rest hb hc word after hr span =>
    rename_i ih
    simp only [span, Span.over] at ih ⊢
    rw [Nat.add_right_comm] at ih
    rw [itemsOf_word (Bool.eq_false_iff.mpr hb) hc hr]
    simp only [Span.over]
    rw [ih]
    refine (moved_bind fun others => ?_).symm
    simp only [pure, Except.pure]
    rw [moved, mapItems, Item.map, Span.shift, Nat.add_right_comm]
    rfl

/-- A divided text that stands further right in its source is divided in the same way, with all places moved. -/
theorem Divided.shift {offset : Nat} {text : List Char} {items : List Item} (h : Divided offset text items) (bytes : Nat) :
    Divided (offset + bytes) text (mapItems (Span.shift bytes) id items) := by
  have hitems := itemsOf_add none 0 offset text bytes
  rw [itemsOf_of_divided h (allows_none _ _), moved] at hitems
  exact (divided_of_itemsOf hitems).1

end RuleLang
