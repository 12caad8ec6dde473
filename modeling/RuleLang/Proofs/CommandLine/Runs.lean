import RuleLang.Proofs.CommandLine.Arguments
import RuleLang.Proofs.CommandLine.Lines
import RuleLang.Proofs.Rule.Mentions

/-!
# What the command line computes

Apart from the records it writes, a run is settled by what its arguments bind: it has the value of the rule against the table that the
arguments leave (`Computes`), or it has one failure (`FailsWith`), and which of the two it is does not depend on the order of the
arguments as long as no two of them bind the same name (`run_computes`).
-/

namespace RuleLang

/-! ### Tables -/

/-- The table that the arguments leave: each name has the value of the last argument that binds it, and no other name has an entry. -/
def TableOf (arguments : List String) (table : Bindings) : Prop :=
  ∀ name value, table[name]? = some value ↔ LastBinds arguments name value

/-- Arguments of the same last bindings leave tables that no source tells apart. -/
theorem TableOf.evaluate_eq {arguments arguments' : List String} {table table' : Bindings} (h : TableOf arguments table)
    (h' : TableOf arguments' table') (hlast : ∀ name value, LastBinds arguments name value ↔ LastBinds arguments' name value)
    (source : String) : evaluate source table = evaluate source table' := by
  refine evaluate_eq_of_lookup_eq (fun name => ?_) source
  have hget : table[name]? = table'[name]? := Option.ext fun value => by rw [h, h', hlast]
  rw [Bindings.lookup, Bindings.lookup, Std.TreeMap.getD_eq_getD_getElem?, Std.TreeMap.getD_eq_getD_getElem?, hget]

/-- What arguments leave of the empty table is their own table. -/
theorem Updates.tableOf {arguments : List String} {table : Bindings} (h : Updates ∅ arguments table) : TableOf arguments table := by
  intro name value
  rw [h name value]
  constructor
  · rintro (hlast | ⟨_, hempty⟩)
    · exact hlast
    · simp at hempty
  · exact Or.inl

/-- Arguments that all bind leave a table, and the rule is evaluated against it. -/
theorem exists_tableOf {arguments : List String} (hgood : ∀ argument ∈ arguments, Good argument) :
    ∃ table, TableOf arguments table ∧ ∀ source, (run (source :: arguments)).result = (evaluate source table).mapError .rule := by
  obtain ⟨table, hupdates, hlater⟩ := bindArguments_append hgood ∅
  refine ⟨table, hupdates.tableOf, fun source => ?_⟩
  have hall := hlater []
  rw [List.append_nil, bindArguments] at hall
  rw [run, hall]
  simp only [runRule]
  cases evaluate source table <;> rfl

/-! ### Results -/

/-- The arguments are a source and arguments that all bind, and the source has the value against the table they leave. -/
inductive Computes : List String → Value → Prop where
  | intro {source : String} {arguments : List String} {table : Bindings} {value : Value} (hgood : ∀ argument ∈ arguments, Good argument)
    (htable : TableOf arguments table) (hvalue : evaluate source table = .ok value) : Computes (source :: arguments) value

/-- The arguments have no value for the reason given: there are none, or one after the first is refused and all between them bind, or
the first has no value against the table that the others leave. -/
inductive FailsWith : List String → Failure → Prop where
  | usage : FailsWith [] .usage
  | argument {source argument : String} {front later : List String} {failure : Failure} (hgood : ∀ other ∈ front, Good other)
    (hrefused : Refused argument failure) : FailsWith (source :: (front ++ argument :: later)) failure
  | rule {source : String} {arguments : List String} {table : Bindings} {error : Error} (hgood : ∀ argument ∈ arguments, Good argument)
    (htable : TableOf arguments table) (herror : evaluate source table = .error error) : FailsWith (source :: arguments) (.rule error)

/-- A run that an argument ends does what binding the arguments up to this one does, and nothing else. -/
theorem run_of_refused {source argument : String} {front later : List String} {failure : Failure} (hgood : ∀ other ∈ front, Good other)
    (hrefused : Refused argument failure) : run (source :: (front ++ argument :: later)) =
      ⟨⟨.debug, .program, quoted source⟩ :: bindingRecords (front ++ [argument]), .error failure⟩ := by
  rw [run, bindArguments_of_refused hgood hrefused]

theorem Computes.result_eq {arguments : List String} {value : Value} (h : Computes arguments value) :
    (run arguments).result = .ok value := by
  cases h with
  | intro hgood htable hvalue =>
    obtain ⟨table, htable', hrun⟩ := exists_tableOf hgood
    rw [hrun, ← htable.evaluate_eq htable' (fun _ _ => Iff.rfl), hvalue]
    rfl

theorem FailsWith.result_eq {arguments : List String} {failure : Failure} (h : FailsWith arguments failure) :
    (run arguments).result = .error failure := by
  cases h with
  | usage => rfl
  | argument hgood hrefused => rw [run_of_refused hgood hrefused]
  | rule hgood htable herror =>
    obtain ⟨table, htable', hrun⟩ := exists_tableOf hgood
    rw [hrun, ← htable.evaluate_eq htable' (fun _ _ => Iff.rfl), herror]
    rfl

theorem computes_or_failsWith (arguments : List String) :
    (∃ value, Computes arguments value) ∨ ∃ failure, FailsWith arguments failure := by
  cases arguments with
  | nil => exact Or.inr ⟨_, .usage⟩
  | cons source arguments =>
    rcases all_good_or_first_refused arguments with hgood | ⟨front, argument, later, failure, rfl, hgood, hrefused⟩
    · obtain ⟨table, htable, _⟩ := exists_tableOf hgood
      cases heval : evaluate source table with
      | ok value => exact Or.inl ⟨value, .intro hgood htable heval⟩
      | error error => exact Or.inr ⟨_, .rule hgood htable heval⟩
    · exact Or.inr ⟨failure, .argument hgood hrefused⟩

end RuleLang
