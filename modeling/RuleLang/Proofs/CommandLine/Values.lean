import RuleLang.Proofs.CommandLine.Runs
import RuleLang.Proofs.Expr.Operands
import RuleLang.Proofs.Rule.Safety

/-!
# The values that sources have

A string in a source stands between two quotes of one kind and there are no escapes, so that a string that holds quotes of both
kinds cannot be written. Every other value can (`Value.Writable`): a literal is its source, against every table
(`exists_source_of_writable`). Operators make no new strings, so a source has only such values unless the table gives it others
(`Expr.WellFormed.writable_of_eval`), and the table of a run never does: its values are those of sources.
-/

namespace RuleLang

/-- The value can be written in a source: it is not a string that holds quotes of both kinds. -/
def Value.Writable : Value → Prop
  | .string text => ¬('\'' ∈ text.toList ∧ '"' ∈ text.toList)
  | _ => True

instance (value : Value) : Decidable value.Writable :=
  match value with
  | .string text => inferInstanceAs (Decidable ¬('\'' ∈ text.toList ∧ '"' ∈ text.toList))
  | .null | .integer _ | .bool _ => inferInstanceAs (Decidable True)

/-- Every value that the table holds can be written in a source. -/
def Bindings.Writable (bindings : Bindings) : Prop :=
  ∀ (name : String) (value : Value), bindings[name]? = some value → value.Writable

theorem Bindings.writable_empty : Bindings.Writable ∅ := by
  intro name value h
  simp at h

/-- Null, which a name without an entry reads as, can be written as well. -/
theorem Bindings.Writable.lookup {bindings : Bindings} (h : bindings.Writable) (name : String) :
    (bindings.lookup name).Writable := by
  cases hget : bindings[name]? with
  | none =>
    rw [Bindings.lookup, Std.TreeMap.getD_eq_getD_getElem?, hget]
    trivial
  | some value =>
    rw [Bindings.lookup_eq_of_getElem? hget]
    exact h name value hget

/-! ### What sources evaluate to -/

/-- A literal whose text fits its token has a value that can be written: the text of a string was. -/
theorem Leaf.writable_of_value {leaf : Leaf} {kind : LiteralKind} (ht : leaf.token = .literal kind)
    (ha : (Atom.literal kind).Admits leaf.text.toList) {value : Value} (hv : leaf.value = .ok value) : value.Writable := by
  rw [Leaf.value, ht] at hv
  cases kind with
  | integer =>
    simp only at hv
    split at hv
    · cases hv
      trivial
    · cases hv
  | string =>
    cases hv
    exact ha
  | bool =>
    simp only at hv
    split at hv
    · cases hv
      trivial
    · split at hv
      · cases hv
        trivial
      · cases hv
  | null =>
    cases hv
    trivial

/-- A well-formed tree has a value that can be written if the values it looks up can. -/
theorem Expr.WellFormed.writable_of_eval {e : Expr} (he : e.WellFormed) {bindings : Bindings} (hb : bindings.Writable)
    {value : Value} (h : e.eval bindings = .ok value) : value.Writable := by
  induction e generalizing value with
  | literal leaf =>
    obtain ⟨kind, ht, ha⟩ := he
    exact Leaf.writable_of_value ht ha h
  | var leaf =>
    rw [Expr.eval, Leaf.lookup] at h
    split at h
    · cases h
      exact hb.lookup _
    · cases h
  | binary family lhs op span rhs ihl ihr =>
    obtain ⟨hl, _, hr⟩ := he
    obtain ⟨_, _, _, l, hlhs, ⟨_, rfl⟩ | ⟨_, r, hrhs, happly⟩⟩ := Expr.eval_binary_eq_ok_iff.mp h
    · exact ihl hl hlhs
    · rcases Operator.exists_bool_or_eq_of_apply happly with ⟨b, rfl⟩ | ⟨_, rfl⟩
      · trivial
      · exact ihr hr hrhs

/-- A source has a value that can be written if the values of the table can. -/
theorem writable_of_evaluate {source : String} {bindings : Bindings} {value : Value} (hb : bindings.Writable)
    (h : evaluate source bindings = .ok value) : value.Writable := by
  cases hc : compile source with
  | error error =>
    rw [evaluate, hc] at h
    cases h
  | ok e =>
    rw [evaluate_of_compile hc] at h
    exact (wellFormed_of_compile hc).writable_of_eval hb (mapError_eq_ok_iff.mp h)

/-! ### What values are evaluated to -/

/-- The spelling of a literal is a source of its own. -/
theorem compile_spelled_literal {kind : LiteralKind} {text covered : List Char} (h : (Atom.literal kind).Spelled text covered) :
    compile (.ofList covered) = .ok (.literal ⟨.literal kind, .ofList text, .over 0 covered⟩) := by
  refine compile_eq_ok_iff.mpr ⟨_, ?_, (Derives.literal kind (.ofList text) (.over 0 covered)).to_or, ?_⟩
  · rw [String.toList_ofList]
    exact h.divided 0
  · rw [nestingOf_cons, Item.nesting_atom, nestingOf_nil]
    exact Nat.zero_le _

/-- The spelling of a literal has the literal's value, against every table. -/
theorem evaluate_spelled_literal {kind : LiteralKind} {text covered : List Char} (h : (Atom.literal kind).Spelled text covered)
    {v : Value} (hv : ∀ span, (⟨.literal kind, .ofList text, span⟩ : Leaf).value = .ok v) (bindings : Bindings) :
    evaluate (.ofList covered) bindings = .ok v := by
  rw [evaluate_of_compile (compile_spelled_literal h), Expr.eval, hv]
  rfl

/-- A value that can be written is the value of a literal, wherever the literal stands. -/
theorem Value.Writable.exists_leaf {value : Value} (h : value.Writable) :
    ∃ kind text, (Atom.literal kind).Admits text ∧ ∀ span, (⟨.literal kind, .ofList text, span⟩ : Leaf).value = .ok value := by
  cases value with
  | null => exact ⟨.null, "null".toList, rfl, fun _ => rfl⟩
  | integer n =>
    have hdigits := ofDigits?_isSome_iff.mp (Option.isSome_of_mem (ofDigits?_decimal n))
    refine ⟨.integer, (decimal n).toList, hdigits, fun span => ?_⟩
    simp only [Leaf.value, String.ofList_toList, ofDigits?_decimal]
  | string text =>
    refine ⟨.string, text.toList, h, fun span => ?_⟩
    simp only [Leaf.value, String.ofList_toList]
  | bool b =>
    cases b with
    | true => exact ⟨.bool, "true".toList, Or.inl rfl, fun _ => rfl⟩
    | false => exact ⟨.bool, "false".toList, Or.inr rfl, fun _ => rfl⟩

/-- Every value that can be written has a source, whose value it is against every table. -/
theorem exists_source_of_writable {value : Value} (h : value.Writable) :
    ∃ source, ∀ bindings, evaluate source bindings = .ok value := by
  obtain ⟨kind, text, ha, hvalue⟩ := h.exists_leaf
  obtain ⟨covered, hs⟩ := Atom.exists_spelled_iff.mpr ha
  exact ⟨.ofList covered, evaluate_spelled_literal hs hvalue⟩

/-- The arguments of a run bind names to values that can be written: sources have them. -/
theorem TableOf.writable {arguments : List String} {table : Bindings} (h : TableOf arguments table) : table.Writable := by
  intro name value hget
  obtain ⟨_, argument, _, _, ⟨source, _, hvalue⟩, _⟩ := (h name value).mp hget
  exact writable_of_evaluate Bindings.writable_empty hvalue

theorem Computes.writable {arguments : List String} {value : Value} (h : Computes arguments value) : value.Writable := by
  cases h with
  | intro _ htable hvalue => exact writable_of_evaluate htable.writable hvalue

/-- Against a table without strings that hold quotes of both kinds, no source has such a string for its value. Every other value has
a source, whose value it is against every table. The values of runs can be written as well, since arguments bind nothing else. -/
theorem evaluate_writable :
    (∀ (source : String) (bindings : Bindings) (value : Value), bindings.Writable → evaluate source bindings = .ok value →
      value.Writable) ∧
    (∀ value : Value, value.Writable → ∃ source, ∀ bindings, evaluate source bindings = .ok value) ∧
    ∀ arguments value, (run arguments).result = .ok value → value.Writable := by
  refine ⟨fun _ _ _ => writable_of_evaluate, fun _ => exists_source_of_writable, fun arguments value h => ?_⟩
  rcases computes_or_failsWith arguments with ⟨value', hcomputes⟩ | ⟨failure, hfails⟩
  · rw [hcomputes.result_eq] at h
    cases h
    exact hcomputes.writable
  · rw [hfails.result_eq] at h
    cases h

/-- A table gives a string with one kind of quotes, which a variable passes on. A string with a `"`, a parenthesis, a `$`, a
backslash and a line feed has a source. A run has the value of its rule. -/
theorem evaluate_writable_quotes :
    (Bindings.Writable ((∅ : Bindings).insert "x" (.string "it's")) ∧
      evaluate "null || $x" ((∅ : Bindings).insert "x" (.string "it's")) = .ok (.string "it's") ∧
      (Value.string "it's").Writable) ∧
    ((Value.string "\"(é$x\\\n").Writable ∧ ∃ source, ∀ bindings, evaluate source bindings = .ok (.string "\"(é$x\\\n")) ∧
    (run ["'a\"b'"]).result = .ok (.string "a\"b") ∧ (Value.string "a\"b").Writable := by
  obtain ⟨hsound, hcomplete, hrun⟩ := evaluate_writable
  have htable : Bindings.Writable ((∅ : Bindings).insert "x" (.string "it's")) := by
    intro name value h
    rw [Std.TreeMap.getElem?_insert] at h
    split at h
    · cases h
      decide
    · exact Bindings.writable_empty name value h
  have hvalue : evaluate "null || $x" ((∅ : Bindings).insert "x" (.string "it's")) = .ok (.string "it's") := by
    have hcompile : compile "null || $x" = .ok (.binary .or (.literal ⟨.literal .null, "null", ⟨0, 4⟩⟩) (.operator .or) ⟨5, 7⟩
        (.var ⟨.var, "$x", ⟨8, 10⟩⟩)) := by
      cbv
    have hname : Leaf.name? ⟨.var, "$x", ⟨8, 10⟩⟩ = some "x" := by cbv
    rw [evaluate_of_compile hcompile]
    simp only [Expr.eval, Leaf.lookup, hname, Bindings.lookup_insert, if_true]
    rfl
  have hquotes : (Value.string "\"(é$x\\\n").Writable := by decide
  have hquoted : evaluate "'a\"b'" ∅ = .ok (.string "a\"b") := by
    have hcompile : compile "'a\"b'" = .ok (.literal ⟨.literal .string, "a\"b", ⟨0, 5⟩⟩) := by cbv
    rw [evaluate_of_compile hcompile]
    rfl
  have hresult : (run ["'a\"b'"]).result = .ok (.string "a\"b") :=
    (Computes.intro (fun _ hm => absurd hm List.not_mem_nil) (updates_nil ∅).tableOf hquoted).result_eq
  exact ⟨⟨htable, hvalue, hsound _ _ _ htable hvalue⟩, ⟨hquotes, hcomplete _ hquotes⟩, hresult, hrun _ _ hresult⟩

end RuleLang
