import Heredity.Number.Numeral
import Heredity.Text.Quoted
import Heredity.Value.Basic

/-!
# The text of values

`Value.render` shows a value inside a message: texts between quotation marks, numbers by their
shortest numeral, lists in brackets, tuples in parentheses (one item with a comma after it), maps in
braces.  `Value.toText` converts a value to a text; it leaves a text as it is, gives dates and times
a form of their own, and otherwise renders.

Both fail for values that hold an integer with too many digits.
-/

namespace Heredity

namespace Text

/-- Parts between commas. -/
def commaSeparated (parts : List String) : String := ", ".intercalate parts

/-- Parts in parentheses; a single part is followed by a comma. -/
def parenthesized (parts : List String) : String :=
  match parts with
  | [part] => "(" ++ part ++ ",)"
  | parts => "(" ++ commaSeparated parts ++ ")"

end Text

namespace Value

/-- The text of a truth value. -/
def renderBool (b : Bool) : String := if b then "True" else "False"

mutual

/-- A value as it is shown inside a message, unless it holds an integer with too many digits. -/
def render : Value → Except Fault String
  | .null => .ok "None"
  | .bool b => .ok (renderBool b)
  | .int n => Numeral.ofInt n
  | .float x => .ok x.render
  | .text s => .ok (Text.quote s)
  | .moment m => .ok m.render
  | .list items => do return "[" ++ Text.commaSeparated (← renderItems items) ++ "]"
  | .tuple items => do return Text.parenthesized (← renderItems items)
  | .map entries => do
    return "\x7b" ++ Text.commaSeparated (← renderEntries entries) ++ "\x7d"
  | .struct unit fields => do
    return "Struct(unit=" ++ Text.quote unit ++ ", fields=\x7b" ++
      Text.commaSeparated (← renderEntries fields) ++ "\x7d)"
termination_by structural v => v

/-- The items of a sequence, each as it is shown inside a message. -/
def renderItems : List Value → Except Fault (List String)
  | [] => .ok []
  | v :: vs => do return (← render v) :: (← renderItems vs)
termination_by structural vs => vs

/-- The entries of an association, each as key, colon and value. -/
def renderEntries : List (Value × Value) → Except Fault (List String)
  | [] => .ok []
  | (k, v) :: es => do
    return ((← render k) ++ ": " ++ (← render v)) :: (← renderEntries es)
termination_by structural es => es

end

/-- A value converted to a text. -/
def toText : Value → Except Fault String
  | .text s => .ok s
  | .moment m => .ok m.toText
  | v => v.render

end Value

end Heredity
