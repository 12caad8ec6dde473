import RuleLang.Proofs.Expr.Fault
import RuleLang.Proofs.Rule.Safety

/-!
# The variables a rule mentions

A rule reads its binding table at the names of its variables and nowhere else. So its result, value or error, is the same against any
two tables that agree on these names (`Expr.eval_congr`, `result_congr`), where a name without an entry counts as null. The names that
a source can mention are those the language can spell, and an entry under any other name is never read.
-/

namespace RuleLang

/-- The tables give the same value to every name of the given ones. -/
def Bindings.AgreeOn (names : String → Prop) (bindings bindings' : Bindings) : Prop :=
  ∀ name, names name → bindings.lookup name = bindings'.lookup name

theorem Bindings.lookup_eq_null_of_not_mem {bindings : Bindings} {name : String} (h : name ∉ bindings) :
    bindings.lookup name = .null := by
  rw [Bindings.lookup, Std.TreeMap.getD_eq_fallback h]

theorem Bindings.lookup_eq_of_getElem? {bindings : Bindings} {name : String} {v : Value} (h : bindings[name]? = some v) :
    bindings.lookup name = v := by
  rw [Bindings.lookup, Std.TreeMap.getD_eq_getD_getElem?, h, Option.getD_some]

theorem Bindings.lookup_erase (bindings : Bindings) (name other : String) :
    Bindings.lookup (bindings.erase name) other = if name = other then .null else bindings.lookup other := by
  simp [Bindings.lookup, Std.TreeMap.getD_erase]

/-! ### Trees -/

/-- A variable of the tree is written as a `$` and the name. -/
def Expr.Mentions : Expr → String → Prop
  | binary _ lhs _ _ rhs, name => lhs.Mentions name ∨ rhs.Mentions name
  | literal _, _ => False
  | var leaf, name => leaf.text = "$" ++ name

/-- A variable reads the table at the name it is written with. -/
theorem Leaf.text_of_name? {leaf : Leaf} {name : String} (h : leaf.name? = some name) : leaf.text = "$" ++ name := by
  unfold Leaf.name? at h
  split at h
  · rename_i rest _ hrest
    obtain rfl := Option.some.inj h
    rw [← String.toList_inj, hrest, String.toList_append]
    simp
  · cases h

/-- Tables that agree on the names a tree mentions give it the same value or the same error. The tree need not be well formed. -/
theorem Expr.eval_congr {e : Expr} {bindings bindings' : Bindings} (h : bindings.AgreeOn e.Mentions bindings') :
    e.eval bindings = e.eval bindings' := by
  induction e with
  | literal leaf => rfl
  | var leaf =>
    rw [eval, eval, Leaf.lookup, Leaf.lookup]
    cases hname : leaf.name? with
    | none => rfl
    | some name => simp only [h name (Leaf.text_of_name? hname)]
  | binary family lhs op opSpan rhs ihl ihr =>
    have hl := ihl fun name hm => h name (Or.inl hm)
    have hr := ihr fun name hm => h name (Or.inr hm)
    rw [eval, eval, hl, hr]

/-! ### Sources -/

/-- The source holds a variable of the name, at any nesting. A source that has no items holds none. -/
def SourceMentions (source name : String) : Prop :=
  ∃ items span, lex source = .ok items ∧ (Item.atom .var ("$" ++ name) span).OccursIn items

/-- The variables of a tree are among the items that derive it. -/
theorem Derives.exists_occursIn_of_mentions {level : Option Family} {items : List Item} {e : Expr} (h : Derives level items e)
    {name : String} (hm : e.Mentions name) : ∃ span, (Item.atom .var ("$" ++ name) span).OccursIn items := by
  induction h with
  | literal kind text span => cases hm
  | var text span =>
    obtain rfl : text = "$" ++ name := hm
    exact ⟨span, .here (List.mem_singleton_self _)⟩
  | group span _ _ ih =>
    obtain ⟨span', hoccurs⟩ := ih hm
    exact ⟨span', .inside (List.mem_singleton_self _) hoccurs⟩
  | single _ ih => exact ih hm
  | binary text span _ _ _ ihl ihr =>
    rcases hm with hm | hm
    · obtain ⟨span', hoccurs⟩ := ihl hm
      exact ⟨span', hoccurs.of_subset (List.subset_append_left _ _)⟩
    · obtain ⟨span', hoccurs⟩ := ihr hm
      exact ⟨span', hoccurs.of_subset (List.Subset.trans (List.subset_cons_self _ _) (List.subset_append_right _ _))⟩

theorem sourceMentions_of_mentions {source name : String} {e : Expr} (h : compile source = .ok e) (hm : e.Mentions name) :
    SourceMentions source name := by
  obtain ⟨items, hdiv, hder, hn⟩ := compile_eq_ok_iff.mp h
  obtain ⟨span, hoccurs⟩ := hder.exists_occursIn_of_mentions hm
  exact ⟨items, span, lex_eq_ok_iff.mpr ⟨hdiv, hn⟩, hoccurs⟩

/-- The names that the tree of a source mentions are not empty and have no characters but those of names. -/
theorem isNameChar_of_mentions {source name : String} {e : Expr} (h : compile source = .ok e) (hm : e.Mentions name) :
    name.toList ≠ [] ∧ ∀ c ∈ name.toList, isNameChar c = true := by
  have hwf := wellFormed_of_compile h
  clear h
  induction e with
  | literal leaf => cases hm
  | var leaf =>
    obtain ⟨_, rest, htext, hne, hall⟩ := hwf
    have hname : '$' :: name.toList = '$' :: rest := by
      rw [← htext, show leaf.text = "$" ++ name from hm, String.toList_append]
      rfl
    obtain ⟨_, rfl⟩ := List.cons.inj hname
    exact ⟨hne, hall⟩
  | binary family lhs op opSpan rhs ihl ihr =>
    rcases hm with hm | hm
    · exact ihl hm hwf.1
    · exact ihr hm hwf.2.2

/-- Tables that agree wherever the tree of a source reads them give the source the same result. A source without a tree reads none. -/
theorem evaluate_eq_of_compile {source : String} {bindings bindings' : Bindings}
    (h : ∀ e, compile source = .ok e → bindings.AgreeOn e.Mentions bindings') :
    evaluate source bindings = evaluate source bindings' := by
  cases hc : compile source with
  | error error => rw [evaluate, evaluate, hc]
  | ok e => rw [evaluate_of_compile hc, evaluate_of_compile hc, Expr.eval_congr (h e hc)]

/-- Tables that give the same value to every name give every source the same result. -/
theorem evaluate_eq_of_lookup_eq {bindings bindings' : Bindings} (h : ∀ name, bindings.lookup name = bindings'.lookup name)
    (source : String) : evaluate source bindings = evaluate source bindings' :=
  evaluate_eq_of_compile fun _ _ name _ => h name

/-- Only the variables that a tree, or a source, mentions matter to its result. So a name may be bound to null or be unbound, and what is
bound to a name that is empty, or that holds a character which names cannot hold, has no part in the result of a source. -/
theorem result_congr :
    (∀ (e : Expr) (bindings bindings' : Bindings), bindings.AgreeOn e.Mentions bindings' → e.eval bindings = e.eval bindings') ∧
    (∀ (source : String) (bindings bindings' : Bindings), bindings.AgreeOn (SourceMentions source) bindings' →
      evaluate source bindings = evaluate source bindings') ∧
    ∀ (source : String) (bindings : Bindings) (name : String),
      (name ∉ bindings → evaluate source (bindings.insert name .null) = evaluate source bindings) ∧
      (bindings[name]? = some .null → evaluate source (bindings.erase name) = evaluate source bindings) ∧
      (name.toList = [] ∨ (∃ c ∈ name.toList, isNameChar c = false) →
        ∀ v, evaluate source (bindings.insert name v) = evaluate source bindings) := by
  refine ⟨fun e bindings bindings' h => Expr.eval_congr h, ?_, ?_⟩
  · intro source bindings bindings' h
    exact evaluate_eq_of_compile fun e hc name hm => h name (sourceMentions_of_mentions hc hm)
  · intro source bindings name
    refine ⟨?_, ?_, ?_⟩
    · intro hn
      refine evaluate_eq_of_lookup_eq (fun other => ?_) source
      rw [Bindings.lookup_insert]
      split
      · rename_i heq
        rw [← heq, Bindings.lookup_eq_null_of_not_mem hn]
      · rfl
    · intro hn
      refine evaluate_eq_of_lookup_eq (fun other => ?_) source
      rw [Bindings.lookup_erase]
      split
      · rename_i heq
        rw [← heq, Bindings.lookup_eq_of_getElem? hn]
      · rfl
    · intro hname v
      refine evaluate_eq_of_compile fun e hc other hm => ?_
      obtain ⟨hne, hall⟩ := isNameChar_of_mentions hc hm
      have hother : name ≠ other := by
        rintro rfl
        rcases hname with hnil | ⟨c, hcm, hcn⟩
        · exact hne hnil
        · rw [hall c hcm] at hcn
          cases hcn
      rw [Bindings.lookup_insert, if_neg hother]

/-- A string that looks like a variable mentions nothing, and neither does a name with a blank in it. -/
theorem result_congr_string :
    evaluate "$x=='$y'" ((∅ : Bindings).insert "x" (.integer 1)) =
        evaluate "$x=='$y'" (((∅ : Bindings).insert "x" (.integer 1)).insert "y" (.string "$y")) ∧
      evaluate "$x=='$y'" ((∅ : Bindings).insert "x " (.integer 1)) = evaluate "$x=='$y'" ∅ ∧
      evaluate "$x=='$y'" ((∅ : Bindings).insert "x" .null) = evaluate "$x=='$y'" ∅ := by
  obtain ⟨_, hsource, hentry⟩ := result_congr
  have hlex : lex "$x=='$y'" = .ok [.atom .var "$x" ⟨0, 2⟩, .atom (.operator .equals) "==" ⟨2, 4⟩,
      .atom (.literal .string) "$y" ⟨4, 8⟩] := by
    cbv
  have hblank : "x ".toList = [] ∨ ∃ c ∈ "x ".toList, isNameChar c = false := Or.inr ⟨' ', by decide, by decide⟩
  refine ⟨hsource _ _ _ ?_, (hentry _ ∅ "x ").2.2 hblank _, (hentry _ ∅ "x").1 (by simp)⟩
  rintro name ⟨items, span, hitems, hoccurs⟩
  rw [hlex] at hitems
  obtain rfl := Except.ok.inj hitems
  have hy : "y" ≠ name := by
    rintro rfl
    cases hoccurs with
    | here hm => simp at hm
    | inside hm => simp at hm
  rw [Bindings.lookup_insert _ "y", if_neg hy]

end RuleLang
