import Mathlib.Data.List.TakeWhile
import RuleLang.CommandLine
import RuleLang.Proofs.Item.Spelling
import RuleLang.Proofs.Text.Quoted

/-!
# What arguments bind

An argument that binds is a name, an `=` and a source with a value (`Binds`); every other argument is refused for one reason
(`Refused`). Binding a list of arguments that all bind gives each name the value of the last argument that binds it
(`bindArguments_append`), and the first argument that is refused ends it, whatever comes after (`bindArguments_of_refused`).
-/

namespace RuleLang

/-! ### One argument -/

/-- The argument is any number of `$`, then the name, then an `=`, then the source. The name holds no `=` and does not begin with `$`, so
an argument can be split in one way at most. -/
structure SplitsInto (argument name source : String) : Prop where
  toList_eq : ∃ k, argument.toList = (List.replicate k '$' ++ name.toList) ++ '=' :: source.toList
  no_equals : '=' ∉ name.toList
  no_dollar : name.toList.head? ≠ some '$'

/-- The argument binds the name to the value that its source has with no bindings. -/
def Binds (argument name : String) (value : Value) : Prop :=
  ∃ source, SplitsInto argument name source ∧ evaluate source ∅ = .ok value

/-- The argument binds some name. -/
def Good (argument : String) : Prop := ∃ name value, Binds argument name value

/-- The argument binds no name, for the reason given. -/
inductive Refused (argument : String) : Failure → Prop where
  | notABinding (h : '=' ∉ argument.toList) : Refused argument (.notABinding argument)
  | badBinding {name source : String} {error : Error} (hsplit : SplitsInto argument name source) (h : evaluate source ∅ = .error error) :
    Refused argument (.badBinding name error)

/-! ### Splitting an argument -/

theorem splitBinding?_of_not_mem {argument : String} (h : '=' ∉ argument.toList) : splitBinding? argument = none := by
  have hnil : argument.toList.dropWhile (· != '=') = [] := by
    rw [List.dropWhile_eq_nil_iff]
    exact bne_of_not_mem h
  rw [splitBinding?, hnil]

theorem splitBinding?_of_append {argument : String} {front back : List Char} (h : argument.toList = front ++ '=' :: back)
    (hf : '=' ∉ front) : splitBinding? argument = some (.ofList (front.dropWhile (· == '$')), .ofList back) := by
  rw [splitBinding?, h, dropWhile_append_mark hf, takeWhile_append_mark hf]

theorem SplitsInto.splitBinding? {argument name source : String} (h : SplitsInto argument name source) :
    splitBinding? argument = some (name, source) := by
  obtain ⟨k, heq⟩ := h.toList_eq
  have hfront : '=' ∉ List.replicate k '$' ++ name.toList := by
    intro hm
    rcases List.mem_append.mp hm with hm | hm
    · exact absurd (List.eq_of_mem_replicate hm) (by decide)
    · exact h.no_equals hm
  have hname : (List.replicate k '$' ++ name.toList).dropWhile (· == '$') = name.toList := by
    refine dropWhile_eq_after (fun c hm => beq_iff_eq.mpr (List.eq_of_mem_replicate hm)) fun c hc => ?_
    rw [beq_eq_false_iff_ne]
    rintro rfl
    exact h.no_dollar hc
  rw [splitBinding?_of_append heq hfront, hname, String.ofList_toList, String.ofList_toList]

/-- An argument with an `=` can be split. -/
theorem exists_splitsInto {argument : String} (h : '=' ∈ argument.toList) : ∃ name source, SplitsInto argument name source := by
  obtain ⟨front, back, heq, hf⟩ := List.eq_append_cons_of_mem h
  have hdivide := List.takeWhile_append_dropWhile (p := (· == '$')) (l := front)
  have hdollar : ∀ c ∈ front.takeWhile (· == '$'), c = '$' := fun c hm => by simpa using List.mem_takeWhile_imp hm
  refine ⟨.ofList (front.dropWhile (· == '$')), .ofList back, ⟨(front.takeWhile (· == '$')).length, ?_⟩, ?_, ?_⟩
  · rw [String.toList_ofList, String.toList_ofList, ← List.eq_replicate_of_mem hdollar, hdivide, heq]
  · rw [String.toList_ofList]
    exact fun hm => hf ((List.dropWhile_suffix _).subset hm)
  · rw [String.toList_ofList]
    intro hc
    exact absurd (head?_dropWhile _ hc) (by decide)

/-! ### Binding one argument -/

theorem bindArgument_of_binds {argument name : String} {value : Value} (h : Binds argument name value) :
    (bindArgument argument).2 = .ok (name, value) := by
  obtain ⟨source, hsplit, hvalue⟩ := h
  simp only [bindArgument, hsplit.splitBinding?, hvalue]

theorem bindArgument_of_refused {argument : String} {failure : Failure} (h : Refused argument failure) :
    (bindArgument argument).2 = .error failure := by
  cases h with
  | notABinding h => simp only [bindArgument, splitBinding?_of_not_mem h]
  | badBinding hsplit h => simp only [bindArgument, hsplit.splitBinding?, h]

/-- An argument binds one name, to one value. -/
theorem Binds.unique {argument name name' : String} {value value' : Value} (h : Binds argument name value)
    (h' : Binds argument name' value') : name = name' ∧ value = value' := by
  have heq := (bindArgument_of_binds h).symm.trans (bindArgument_of_binds h')
  exact Prod.mk.inj (Except.ok.inj heq)

theorem good_or_refused (argument : String) : Good argument ∨ ∃ failure, Refused argument failure := by
  by_cases hequals : '=' ∈ argument.toList
  · obtain ⟨name, source, hsplit⟩ := exists_splitsInto hequals
    cases hvalue : evaluate source ∅ with
    | ok value => exact Or.inl ⟨name, value, source, hsplit, hvalue⟩
    | error error => exact Or.inr ⟨_, .badBinding hsplit hvalue⟩
  · exact Or.inr ⟨_, .notABinding hequals⟩

/-! ### Binding a list of arguments -/

/-- The last of the arguments that bind the name binds it to the value. -/
def LastBinds (arguments : List String) (name : String) (value : Value) : Prop :=
  ∃ front argument later, arguments = front ++ argument :: later ∧ Binds argument name value ∧
    ∀ other ∈ later, ∀ w, ¬Binds other name w

theorem lastBinds_cons_iff {argument name : String} {arguments : List String} {value : Value} :
    LastBinds (argument :: arguments) name value ↔
      LastBinds arguments name value ∨ (Binds argument name value ∧ ∀ other ∈ arguments, ∀ w, ¬Binds other name w) := by
  constructor
  · rintro ⟨front, last, later, heq, hbinds, hlater⟩
    cases front with
    | nil =>
      obtain ⟨rfl, rfl⟩ := List.cons.inj heq
      exact Or.inr ⟨hbinds, hlater⟩
    | cons first front =>
      obtain ⟨rfl, rfl⟩ := List.cons.inj heq
      exact Or.inl ⟨front, last, later, rfl, hbinds, hlater⟩
  · rintro (⟨front, last, later, rfl, hbinds, hlater⟩ | ⟨hbinds, hlater⟩)
    · exact ⟨argument :: front, last, later, rfl, hbinds, hlater⟩
    · exact ⟨[], argument, arguments, rfl, hbinds, hlater⟩

/-- The second table is the first one after the arguments are bound: a name that some of them bind has the value of the last that does,
and the other names are as before. -/
def Updates (bindings : Bindings) (arguments : List String) (table : Bindings) : Prop :=
  ∀ name value, table[name]? = some value ↔
    LastBinds arguments name value ∨ ((∀ argument ∈ arguments, ∀ w, ¬Binds argument name w) ∧ bindings[name]? = some value)

theorem updates_nil (bindings : Bindings) : Updates bindings [] bindings := by
  intro name value
  constructor
  · intro h
    exact Or.inr ⟨fun _ hm => absurd hm List.not_mem_nil, h⟩
  · rintro (⟨front, _, _, heq, _⟩ | ⟨_, h⟩)
    · cases front <;> cases heq
    · exact h

/-- Binding one argument first and then the others is binding them all. -/
theorem Updates.cons {bindings table : Bindings} {argument name : String} {value : Value} {arguments : List String}
    (hbinds : Binds argument name value) (h : Updates (bindings.insert name value) arguments table) :
    Updates bindings (argument :: arguments) table := by
  intro other w
  rw [h other w, lastBinds_cons_iff, or_assoc]
  refine or_congr_right ?_
  have hget : (bindings.insert name value)[other]? = if name = other then some value else bindings[other]? := by
    simp [Std.TreeMap.getElem?_insert]
  rw [hget]
  by_cases hname : name = other
  · subst hname
    rw [if_pos rfl]
    constructor
    · rintro ⟨hnone, hw⟩
      obtain rfl := Option.some.inj hw
      exact Or.inl ⟨hbinds, hnone⟩
    · rintro (⟨hbinds', hnone⟩ | ⟨hnone, _⟩)
      · rw [(hbinds.unique hbinds').2]
        exact ⟨hnone, rfl⟩
      · exact absurd hbinds (hnone argument List.mem_cons_self value)
  · rw [if_neg hname]
    have hother : ∀ w, ¬Binds argument other w := fun w hbinds' => hname (hbinds.unique hbinds').1
    constructor
    · rintro ⟨hnone, hw⟩
      exact Or.inr ⟨List.forall_mem_cons.mpr ⟨hother, hnone⟩, hw⟩
    · rintro (⟨hbinds', _⟩ | ⟨hnone, hw⟩)
      · exact absurd hbinds' (hother w)
      · exact ⟨fun a hm => hnone a (List.mem_cons_of_mem _ hm), hw⟩

/-- The records that the arguments write when each of them is bound on its own, in order. -/
def bindingRecords (arguments : List String) : List Record := arguments.flatMap fun argument => (bindArgument argument).1

/-- Arguments that all bind are bound one by one, whatever comes after them. -/
theorem bindArguments_append {front : List String} (hgood : ∀ argument ∈ front, Good argument) (bindings : Bindings) :
    ∃ table, Updates bindings front table ∧ ∀ later, bindArguments bindings (front ++ later) =
      (bindingRecords front ++ (bindArguments table later).1, (bindArguments table later).2) := by
  induction front generalizing bindings with
  | nil => exact ⟨bindings, updates_nil bindings, fun later => rfl⟩
  | cons argument front ih =>
    obtain ⟨name, value, hbinds⟩ := hgood argument List.mem_cons_self
    obtain ⟨table, hupdates, hlater⟩ := ih (fun other hm => hgood other (List.mem_cons_of_mem _ hm)) (bindings.insert name value)
    refine ⟨table, hupdates.cons hbinds, fun later => ?_⟩
    have hfirst : bindArgument argument = ((bindArgument argument).1, .ok (name, value)) :=
      Prod.ext rfl (bindArgument_of_binds hbinds)
    rw [List.cons_append, bindArguments, hfirst]
    simp only [hlater, bindingRecords, List.flatMap_cons, List.append_assoc]

/-- The first argument that is refused ends the binding with its failure. No argument after it is bound. -/
theorem bindArguments_of_refused {front : List String} {argument : String} {failure : Failure}
    (hgood : ∀ other ∈ front, Good other) (hrefused : Refused argument failure) (bindings : Bindings) (later : List String) :
    bindArguments bindings (front ++ argument :: later) = (bindingRecords (front ++ [argument]), .error failure) := by
  obtain ⟨table, _, hlater⟩ := bindArguments_append hgood bindings
  have hlast : bindArgument argument = ((bindArgument argument).1, .error failure) := Prod.ext rfl (bindArgument_of_refused hrefused)
  rw [hlater, bindArguments, hlast]
  simp only [bindingRecords, List.flatMap_append, List.flatMap_cons, List.flatMap_nil, List.append_nil]

/-- Either all arguments bind or there is a first one that is refused. -/
theorem all_good_or_first_refused (arguments : List String) :
    (∀ argument ∈ arguments, Good argument) ∨ ∃ front argument later failure,
      arguments = front ++ argument :: later ∧ (∀ other ∈ front, Good other) ∧ Refused argument failure := by
  induction arguments with
  | nil => exact Or.inl fun _ hm => absurd hm List.not_mem_nil
  | cons argument arguments ih =>
    rcases good_or_refused argument with hgood | ⟨failure, hrefused⟩
    · rcases ih with hall | ⟨front, bad, later, failure, rfl, hfront, hrefused⟩
      · exact Or.inl (List.forall_mem_cons.mpr ⟨hgood, hall⟩)
      · exact Or.inr ⟨argument :: front, bad, later, failure, rfl, List.forall_mem_cons.mpr ⟨hgood, hfront⟩, hrefused⟩
    · exact Or.inr ⟨[], argument, arguments, failure, rfl, fun _ hm => absurd hm List.not_mem_nil, hrefused⟩

end RuleLang
