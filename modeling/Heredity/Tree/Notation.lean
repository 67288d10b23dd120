import Heredity.Tree.Build
import Heredity.Value.Operation

/-!
# Trees written as data

Unit definitions write trees as values:

* a text is a variable, any other scalar and any map is a literal;
* a sequence is a form, its first item being the head: `["call", name, …]`, `["if", c, t, e]`, the
  symbol of a primitive operation with its operands, and so on;
* in patterns a text is a binding or, if it starts with an underscore, a wildcard, any other scalar
  matches itself, and a list is a pattern form.

There is no expression that is a date or a time: it is taken for a form, which it is not, and taking
it apart fails with a fault.

`Tree.ofExpression` and `Tree.ofPattern` read this notation or find the first thing that is wrong,
`Tree.parse` is what is seen of that, and `Tree.encode` writes the notation.  A form is interpreted
by `Tree.ofForm` from its items, each together with its own reading as an expression, so that a form
takes the readings it needs in the order in which it needs them, and data stay data.

**Nothing is seen before the end.**  The first thing that is wrong ends the reading, and all that
may happen to it on its way out is that its place is added.  So it makes no difference whether its
text is written where it is found or, as here, when the reading is over.
-/

namespace Heredity.Tree

/-- An item of a form with its reading as a tree. -/
abbrev Item := Value × Except Error Tree

/-- The text that must stand for a name. -/
def nameOf (role : TextRole) : Value → Except Error String
  | .text s => .ok s
  | v => refuse (.notText role v)

/-- The readings of all items, first to last. -/
def readings (items : List Item) : Except Error (List Tree) := items.mapM Prod.snd

/-- Interprets a form as an expression. -/
def ofForm (form : Value) : List Item → Except Error Tree
  | [] => refuse .emptyForm
  | (head, _) :: rest =>
    match head, rest with
    | .text "lit", [(v, _)] => .ok (.literal v)
    | .text "call", (name, _) :: args => do
      let name ← nameOf .routineName name
      return .call name (← readings args)
    | .text "remote", (unit, _) :: (name, _) :: args => do
      let unit ← nameOf .unitName unit
      let name ← nameOf .routineName name
      return .remoteCall unit name (← readings args)
    | .text "super", args => do return .superCall (← readings args)
    | .text "base", (name, _) :: args => do
      let name ← nameOf .routineName name
      return .baseCall name (← readings args)
    | .text "unit", [] => .ok .currentUnit
    | .text "field", [(_, subject), (field, _)] => do
      let subject ← subject
      return .fieldAccess subject (← nameOf .fieldName field)
    | .text "tuple", items => do return .tuple (← readings items)
    | .text "list", items => do return .list (← readings items)
    | .text "if", [(_, condition), (_, thenBranch), (_, elseBranch)] => do
      return .cond (← condition) (← thenBranch) (← elseBranch)
    | .text symbol, args =>
      if Operation.isSymbol symbol then do return .primitive symbol (← readings args)
      else refuse (.unknownForm form)
    | _, _ => refuse (.unknownForm form)

mutual

/-- Reads an expression. -/
def ofExpression : Value → Except Error Tree
  | .text name => .ok (.var name)
  | .null => .ok (.literal .null)
  | .bool b => .ok (.literal (.bool b))
  | .int n => .ok (.literal (.int n))
  | .float x => .ok (.literal (.float x))
  | .moment _ => .error (.fault .unsupported)
  | .map entries => .ok (.literal (.map entries))
  | .list items => ofForm (.list items) (readItems items)
  | .tuple items => ofForm (.tuple items) (readItems items)
  | .struct unit fields => ofForm (.struct unit fields) (readKeys fields)
termination_by structural v => v

/-- The items of a sequence with their readings. -/
def readItems : List Value → List Item
  | [] => []
  | v :: vs => (v, ofExpression v) :: readItems vs
termination_by structural vs => vs

/-- The keys of an association with their readings. -/
def readKeys : List (Value × Value) → List Item
  | [] => []
  | (k, _) :: es => (k, ofExpression k) :: readKeys es
termination_by structural es => es

end

/-- Interprets a form as a pattern; its items come with their readings as patterns. -/
def ofPatternForm (form : Value) : List Item → Except Error Tree
  | [] => refuse (.unknownPattern form)
  | (head, _) :: rest =>
    match head, rest with
    | .text "tuple", items => do return .tuplePattern (← readings items)
    | .text "list", items => do return .listPattern (← readings items)
    | .text "lit", [(v, _)] => .ok (.constant v)
    | .text "as", [(_, pattern), (name, _)] => do
      let pattern ← pattern
      return .alias pattern (← nameOf .aliasName name)
    | .text "default", [(_, pattern), (value, _)] => do
      let pattern ← pattern
      return .optional pattern (← ofExpression value)
    | _, _ => refuse (.unknownPatternForm form)

mutual

/-- Reads a pattern. -/
def ofPattern : Value → Except Error Tree
  | .text name => .ok (ofName name)
  | .null => .ok (.constant .null)
  | .bool b => .ok (.constant (.bool b))
  | .int n => .ok (.constant (.int n))
  | .float x => .ok (.constant (.float x))
  | .list items => ofPatternForm (.list items) (readPatternItems items)
  | v => refuse (.unknownPattern v)
termination_by structural v => v

/-- The items of a list with their readings as patterns. -/
def readPatternItems : List Value → List Item
  | [] => []
  | v :: vs => (v, ofPattern v) :: readPatternItems vs
termination_by structural vs => vs

end

/-- Reads a tree of a sort: `true` for an expression. -/
def read (sort : Bool) (v : Value) : Except Error Tree :=
  if sort then ofExpression v else ofPattern v

/-- Reads a tree of a sort, or raises the error that was found. -/
def parse (sort : Bool) (v : Value) : Except Error Tree := seen (read sort v)

/-! ### Writing -/

/-- A form with a head. -/
def form (head : String) (items : List Value) : Value := .list (.text head :: items)

mutual

/-- Writes a tree in the notation of definitions. -/
def encode : Tree → Value
  | .literal v => form "lit" [v]
  | .var name => .text name
  | .call name args => form "call" (.text name :: encodeAll args)
  | .remoteCall unit name args => form "remote" (.text unit :: .text name :: encodeAll args)
  | .superCall args => form "super" (encodeAll args)
  | .baseCall name args => form "base" (.text name :: encodeAll args)
  | .currentUnit => form "unit" []
  | .primitive symbol args => form symbol (encodeAll args)
  | .fieldAccess subject field => form "field" [encode subject, .text field]
  | .tuple items => form "tuple" (encodeAll items)
  | .list items => form "list" (encodeAll items)
  | .cond condition thenBranch elseBranch =>
    form "if" [encode condition, encode thenBranch, encode elseBranch]
  | .binding name => .text name
  | .wildcard name => .text name
  | .constant v => form "lit" [v]
  | .tuplePattern items => form "tuple" (encodeAll items)
  | .listPattern items => form "list" (encodeAll items)
  | .alias pattern name => form "as" [encode pattern, .text name]
  | .optional pattern value => form "default" [encode pattern, encode value]
termination_by structural t => t

/-- Writes the trees of a list. -/
def encodeAll : List Tree → List Value
  | [] => []
  | t :: ts => encode t :: encodeAll ts
termination_by structural ts => ts

end

end Heredity.Tree
