import Heredity.Tree.Basic
import Heredity.Value.Text

/-!
# The text of trees

A tree is shown in a message as the name of the kind of its node (`Tree.kindName`) with its parts,
each with a label: `Text.labelled` writes one such form, `Tree.render` a whole tree.  Lists of parts
are shown like tuples.
-/

namespace Heredity

namespace Text

/-- A name with labelled parts in parentheses. -/
def labelled (name : String) (parts : List (String × String)) : String :=
  name ++ "(" ++ commaSeparated (parts.map fun p => p.1 ++ "=" ++ p.2) ++ ")"

end Text

namespace Tree

/-- The name of the kind of a node. -/
def kindName : Tree → String
  | .literal _ => "Literal"
  | .var _ => "Var"
  | .call .. => "Call"
  | .remoteCall .. => "RemoteCall"
  | .superCall _ => "SuperCall"
  | .baseCall .. => "BaseCall"
  | .currentUnit => "CurrentUnit"
  | .primitive .. => "Primitive"
  | .fieldAccess .. => "FieldAccess"
  | .tuple _ => "TupleExpr"
  | .list _ => "ListExpr"
  | .cond .. => "If"
  | .binding _ => "Bind"
  | .wildcard _ => "Wildcard"
  | .constant _ => "Match"
  | .tuplePattern _ => "TuplePattern"
  | .listPattern _ => "ListPattern"
  | .alias .. => "As"
  | .optional .. => "Default"

/-- A text as a labelled part. -/
def quotedPart (label text : String) : String × String := (label, Text.quote text)

/-- A list of parts, shown like a tuple, under a label. -/
def sequencePart (label : String) (parts : List String) : String × String :=
  (label, Text.parenthesized parts)

mutual

/-- The labelled parts of a node. -/
def renderParts : Tree → Except Fault (List (String × String))
  | .literal value => do return [("value", ← value.render)]
  | .var name => .ok [quotedPart "name" name]
  | .call name args => do
    return [quotedPart "name" name, sequencePart "args" (← renderAll args)]
  | .remoteCall unit name args => do
    return [quotedPart "unit" unit, quotedPart "name" name, sequencePart "args" (← renderAll args)]
  | .superCall args => do return [sequencePart "args" (← renderAll args)]
  | .baseCall name args => do
    return [quotedPart "name" name, sequencePart "args" (← renderAll args)]
  | .currentUnit => .ok []
  | .primitive symbol args => do
    return [quotedPart "op" symbol, sequencePart "args" (← renderAll args)]
  | .fieldAccess subject field => do
    let subject := Text.labelled subject.kindName (← renderParts subject)
    return [("subject", subject), quotedPart "field" field]
  | .tuple items => do return [sequencePart "items" (← renderAll items)]
  | .list items => do return [sequencePart "items" (← renderAll items)]
  | .cond condition thenBranch elseBranch => do
    let condition := Text.labelled condition.kindName (← renderParts condition)
    let thenBranch := Text.labelled thenBranch.kindName (← renderParts thenBranch)
    let elseBranch := Text.labelled elseBranch.kindName (← renderParts elseBranch)
    return [("condition", condition), ("then", thenBranch), ("otherwise", elseBranch)]
  | .binding name => .ok [quotedPart "name" name]
  | .wildcard name => .ok [quotedPart "name" name]
  | .constant value => do return [("value", ← value.render)]
  | .tuplePattern items => do return [sequencePart "items" (← renderAll items)]
  | .listPattern items => do return [sequencePart "items" (← renderAll items)]
  | .alias pattern name => do
    let pattern := Text.labelled pattern.kindName (← renderParts pattern)
    return [("pattern", pattern), quotedPart "name" name]
  | .optional pattern value => do
    let pattern := Text.labelled pattern.kindName (← renderParts pattern)
    let value := Text.labelled value.kindName (← renderParts value)
    return [("pattern", pattern), ("value", value)]
termination_by structural t => t

/-- The texts of a list of trees. -/
def renderAll : List Tree → Except Fault (List String)
  | [] => .ok []
  | t :: ts => do
    return Text.labelled t.kindName (← renderParts t) :: (← renderAll ts)
termination_by structural ts => ts

end

/-- A tree as it is shown inside a message. -/
def render (t : Tree) : Except Fault String := do
  return Text.labelled t.kindName (← renderParts t)

end Tree

end Heredity
