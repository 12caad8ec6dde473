import RuleLang.Proofs.Item.Joining
import RuleLang.Proofs.Item.Tiling

/-!
# White space put into a text

White space may be put into a divided text wherever no atom is cut in two: before the text and behind it, between two items that
touch, and inside of groups at any depth (`Uncut`). The text with the white space is divided into the same items, and places move as
the bytes they name do (`Divided.insert`). The groups around the white space grow by it.
-/

namespace RuleLang

/-! ### Places in the longer text -/

/-- Where a span lies once `bytes` bytes are put in at byte `point`. What begins at the point moves, and what ends there stays. -/
def Span.insertAt (point bytes : Nat) (span : Span) : Span :=
  ⟨if point ≤ span.start then span.start + bytes else span.start, if point < span.stop then span.stop + bytes else span.stop⟩

/-- A span from the point on is moved. -/
theorem Span.insertAt_of_le {point : Nat} {span : Span} (h : point ≤ span.start) (hlt : span.start < span.stop) (bytes : Nat) :
    span.insertAt point bytes = span.shift bytes := by
  rw [insertAt, if_pos h, if_pos (by omega), shift]

/-- A span up to the point stays as it is. -/
theorem Span.insertAt_of_ge {point : Nat} {span : Span} (h : span.stop ≤ point) (hlt : span.start < span.stop) (bytes : Nat) :
    span.insertAt point bytes = span := by
  rw [insertAt, if_neg (by omega), if_neg (by omega)]

/-- A span around the point ends later. -/
theorem Span.insertAt_of_between {point : Nat} {span : Span} (h : span.start < point) (hlt : point < span.stop) (bytes : Nat) :
    span.insertAt point bytes = ⟨span.start, span.stop + bytes⟩ := by
  rw [insertAt, if_neg (by omega), if_pos hlt]

mutual

/-- Byte `point` does not lie strictly inside of an atom of the item. It may lie inside of groups. -/
def Item.UncutAt (point : Nat) : Item → Prop
  | .atom _ _ span => ¬(span.start < point ∧ point < span.stop)
  | .group members _ => Uncut point members

/-- Byte `point` does not lie strictly inside of an atom of the items, at any level of nesting. -/
def Uncut (point : Nat) : List Item → Prop
  | [] => True
  | item :: items => item.UncutAt point ∧ Uncut point items

end

/-- Replacements of places agree on the items of a text when they do on the spans within it. -/
theorem Divided.mapItems_congr {offset : Nat} {text : List Char} {items : List Item} (h : Divided offset text items)
    {f g : Span → Span} (hfg : ∀ span : Span, span.start < span.stop → offset ≤ span.start → span.stop ≤ offset + byteSize text →
      f span = g span) : mapItems f id items = mapItems g id items := by
  induction h with
  | nil offset => rw [mapItems, mapItems]
  | blank hb _ ih =>
    refine ih fun span hlt hstart hstop => hfg span hlt (by omega) ?_
    rw [byteSize_cons]
    omega
  | @atom offset kind text covered after items hs he _ ih =>
    have hspan := hfg (.over offset covered) (Span.start_lt_stop_over offset hs.ne_nil) (Nat.le_refl offset)
      (by rw [byteSize_append, Span.over]; simp only; omega)
    have hafter := ih fun span hlt hstart hstop => hfg span hlt (by omega) (by rw [byteSize_append]; omega)
    rw [mapItems, mapItems, Item.map, Item.map, hspan, hafter]
  | @group offset inside after members items hm _ ihm iho =>
    rw [byteSize_group_append] at hfg
    have hspan := hfg (.over offset ('(' :: (inside ++ [')']))) (Span.start_lt_stop_over offset (List.cons_ne_nil _ _))
      (Nat.le_refl offset) (by rw [Span.over]; simp only; omega)
    have hinside := ihm fun span hlt hstart hstop => hfg span hlt (by omega) (by rw [byteSize_group]; omega)
    have hafter := iho fun span hlt hstart hstop => hfg span hlt (by omega) (by omega)
    rw [mapItems, mapItems, Item.map, Item.map, hinside, hspan, hafter]

/-- Bytes put in before a text move its items. -/
theorem Divided.mapItems_insertAt_front {offset point : Nat} {text : List Char} {items : List Item}
    (h : Divided offset text items) (hp : point ≤ offset) (bytes : Nat) :
    mapItems (Span.insertAt point bytes) id items = mapItems (Span.shift bytes) id items :=
  h.mapItems_congr fun _ hlt hstart _ => Span.insertAt_of_le (Nat.le_trans hp hstart) hlt bytes

/-- Bytes put in behind a text leave its items where they are. -/
theorem Divided.mapItems_insertAt_behind {offset point : Nat} {text : List Char} {items : List Item}
    (h : Divided offset text items) (hp : offset + byteSize text ≤ point) (bytes : Nat) :
    mapItems (Span.insertAt point bytes) id items = items := by
  rw [h.mapItems_congr fun _ hlt _ hstop => Span.insertAt_of_ge (Nat.le_trans hstop hp) hlt bytes]
  exact mapItems_id items

/-! ### The division of the longer text -/

/-- White space does not keep an atom from ending where it does. -/
theorem Atom.EndsBefore.insert {kind : Atom} {before after gap : List Char} (h : kind.EndsBefore (before ++ after))
    (hb : ∀ c ∈ gap, isBlank c = true) : kind.EndsBefore (before ++ gap ++ after) := by
  by_cases hn : gap = []
  · rwa [hn, List.append_nil]
  · rw [List.append_assoc]
    refine EndsBefore.append ?_ (endsBefore_of_blank hb hn after kind)
    cases before with
    | nil => exact endsBefore_nil kind
    | cons c before => exact endsBefore_cons (h c rfl) before

/-- White space before a text moves its division. -/
theorem Divided.insert_front {offset : Nat} {gap text : List Char} {items : List Item} (h : Divided offset text items)
    (hb : ∀ c ∈ gap, isBlank c = true) :
    Divided offset (gap ++ text) (mapItems (Span.insertAt offset (byteSize gap)) id items) := by
  rw [h.mapItems_insertAt_front (Nat.le_refl offset)]
  exact divided_of_blank hb (h.shift (byteSize gap))

/-- When the inside of a group grows at a point, the group ends later and what follows it is moved. -/
theorem Divided.insert_group {offset point bytes : Nat} {inside inside' after : List Char} {members items : List Item}
    (hm : Divided (offset + 1) inside' (mapItems (Span.insertAt point bytes) id members))
    (hsize : byteSize inside' = byteSize inside + bytes) (hlt : offset < point) (hle : point ≤ offset + 1 + byteSize inside)
    (ha : Divided (offset + byteSize ('(' :: (inside ++ [')']))) after items) :
    Divided offset ('(' :: (inside' ++ ')' :: after))
      (mapItems (Span.insertAt point bytes) id (.group members (.over offset ('(' :: (inside ++ [')']))) :: items)) := by
  have hspan : (Span.over offset ('(' :: (inside ++ [')']))).insertAt point bytes = .over offset ('(' :: (inside' ++ [')'])) := by
    rw [Span.insertAt_of_between hlt (by rw [Span.over, byteSize_group]; simp only; omega), Span.over, Span.over, byteSize_group,
      byteSize_group, hsize]
    exact congrArg (Span.mk offset) (by simp only; omega)
  have hafter : offset + byteSize ('(' :: (inside ++ [')'])) + bytes = offset + byteSize ('(' :: (inside' ++ [')'])) := by
    rw [byteSize_group, byteSize_group, hsize]
    omega
  rw [mapItems, Item.map, hspan, ha.mapItems_insertAt_front (by rw [byteSize_group]; omega)]
  refine .group hm ?_
  rw [← hafter]
  exact ha.shift bytes

/-- A group that ends before the point stays as it is. -/
theorem Divided.insert_behind_group {offset point bytes : Nat} {inside after : List Char} {members items : List Item}
    (hm : Divided (offset + 1) inside members) (hle : offset + byteSize ('(' :: (inside ++ [')'])) ≤ point)
    (ha : Divided (offset + byteSize ('(' :: (inside ++ [')']))) after (mapItems (Span.insertAt point bytes) id items)) :
    Divided offset ('(' :: (inside ++ ')' :: after))
      (mapItems (Span.insertAt point bytes) id (.group members (.over offset ('(' :: (inside ++ [')']))) :: items)) := by
  rw [mapItems, Item.map, Span.insertAt_of_ge hle (Span.start_lt_stop_over offset (List.cons_ne_nil _ _)),
    hm.mapItems_insertAt_behind (by rw [byteSize_group] at hle; omega)]
  exact .group hm ha

/-- An atom that ends before the point stays as it is. -/
theorem Divided.insert_behind_atom {offset point bytes : Nat} {kind : Atom} {text covered after : List Char} {items : List Item}
    (hs : kind.Spelled text covered) (he : kind.EndsBefore after) (hle : offset + byteSize covered ≤ point)
    (ha : Divided (offset + byteSize covered) after (mapItems (Span.insertAt point bytes) id items)) :
    Divided offset (covered ++ after)
      (mapItems (Span.insertAt point bytes) id (.atom kind (.ofList text) (.over offset covered) :: items)) := by
  rw [mapItems, Item.map, Span.insertAt_of_ge hle (Span.start_lt_stop_over offset hs.ne_nil)]
  exact .atom hs he ha

/-- White space put into a divided text where it cuts no atom leaves its items as they are, but for the places. -/
theorem Divided.insert {offset : Nat} {text before after gap : List Char} {items : List Item} (h : Divided offset text items)
    (ht : text = before ++ after) (hb : ∀ c ∈ gap, isBlank c = true) (hu : Uncut (offset + byteSize before) items) :
    Divided offset (before ++ gap ++ after) (mapItems (Span.insertAt (offset + byteSize before) (byteSize gap)) id items) := by
  -- in each case the point is at the front, inside of the first item, or behind it and then in the rest
  induction h generalizing before after with
  | nil offset =>
    obtain ⟨rfl, rfl⟩ := List.append_eq_nil_iff.mp ht.symm
    exact (Divided.nil offset).insert_front hb
  | @blank offset c rest items hc hr ih =>
    rcases List.cons_eq_append_iff.mp ht with ⟨rfl, rfl⟩ | ⟨before, rfl, rfl⟩
    · exact (Divided.blank hc hr).insert_front hb
    · rw [byteSize_cons, ← Nat.add_assoc] at hu ⊢
      exact .blank hc (ih rfl hu)
  | @atom offset kind carried covered rest items hs he hr ih =>
    rw [Uncut, Item.UncutAt, Span.over] at hu
    obtain ⟨hcut, hu⟩ := hu
    by_cases hnil : before = []
    · subst hnil
      obtain rfl : covered ++ rest = after := ht
      exact (Divided.atom hs he hr).insert_front hb
    · -- the point lies behind the atom, since it does not lie inside
      have hpos : byteSize before ≠ 0 := fun hz => hnil (byteSize_eq_zero_iff.mp hz)
      simp only at hcut
      obtain ⟨front, rfl, rfl⟩ := exists_append_of_byteSize_le ht (by omega)
      rw [byteSize_append, ← Nat.add_assoc] at hu ⊢
      rw [List.append_assoc, List.append_assoc, ← List.append_assoc front]
      exact Divided.insert_behind_atom hs (he.insert hb) (Nat.le_add_right _ _) (ih rfl hu)
  | @group offset inside rest members items hm hr ihm ihr =>
    rw [Uncut, Item.UncutAt] at hu
    obtain ⟨hum, hur⟩ := hu
    rcases List.cons_eq_append_iff.mp ht with ⟨rfl, rfl⟩ | ⟨before, rfl, hparts⟩
    · exact (Divided.group hm hr).insert_front hb
    · have hpoint : offset + byteSize ('(' :: before) = offset + 1 + byteSize before := by
        rw [byteSize_cons, Nat.add_assoc]
        rfl
      rcases Nat.lt_or_ge (byteSize inside) (byteSize before) with hlt | hle
      · -- behind the group
        obtain ⟨front, rfl, hfront⟩ := exists_append_of_byteSize_le hparts (Nat.le_of_lt hlt)
        rcases List.cons_eq_append_iff.mp hfront with ⟨rfl, _⟩ | ⟨front, rfl, rfl⟩
        · rw [List.append_nil] at hlt
          omega
        · rw [byteSize_group_append, ← Nat.add_assoc] at hur ⊢
          have hgroup := Divided.insert_behind_group hm (Nat.le_add_right _ _) (ihr rfl hur)
          simpa using hgroup
      · -- inside it
        obtain ⟨back, rfl, rfl⟩ := exists_append_of_byteSize_le hparts.symm hle
        rw [hpoint] at hum ⊢
        have hgroup := Divided.insert_group (ihm rfl hum) (by simp only [byteSize_append]; omega)
          (by omega) (by rw [byteSize_append]; omega) hr
        simpa using hgroup

end RuleLang
