import RuleLang.Span
import RuleLang.Text.Quoted
import RuleLang.Token

/-!
# Items of a source

A source is a sequence of items. An item is an atom, with the text it carries, or a group of items in parentheses. Groups nest,
and how deep they may nest is a parameter of what reads them: `none` sets no limit, and sources are read under `maxNesting`.
-/

namespace RuleLang

/-- One item of a source. The text of a string is what stands between its quotes; the text of every other atom is its
spelling. The span of a group takes in its parentheses. -/
inductive Item where
  | atom (kind : Atom) (text : String) (span : Span)
  | group (members : List Item) (span : Span)
  deriving Repr

namespace Item

/-- What the item is. -/
def token : Item → Token
  | atom kind _ _ => .atom kind
  | group _ _ => .group

/-- The bytes of the source the item covers. -/
def span : Item → Span
  | atom _ _ span => span
  | group _ span => span

mutual

/-- The item's text or members as a term of their constructors. -/
def dumpContent : Item → String
  | atom _ text _ => "Text(" ++ quoted text ++ ")"
  | group members _ => "Group([" ++ String.intercalate ", " (dumpMembers members) ++ "])"

/-- The members of a group, each as a record of its fields. -/
def dumpMembers : List Item → List String
  | [] => []
  | item :: items =>
    ("LexItem \x7b token: " ++ item.token.name ++ ", value: " ++ item.dumpContent ++ ", span: " ++ item.span.dump ++ " \x7d") ::
      dumpMembers items

end

end Item

/-- How many groups may enclose one another in a source. -/
def maxNesting : Nat := 128

/-- The limit that a group inside `depth` others would pass, if there is a limit and it would pass it. -/
def passed? (limit : Option Nat) (depth : Nat) : Option Nat := limit.filter (· ≤ depth)

theorem passed?_none (depth : Nat) : passed? none depth = none := rfl

theorem passed?_some (limit depth : Nat) : passed? (some limit) depth = if limit ≤ depth then some limit else none := by
  simp [passed?, Option.filter]

end RuleLang
