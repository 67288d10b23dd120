import Heredity.Definition.Basic
import Heredity.Tree.Notation

/-!
# Definitions written as data

A definition is a map.  `fields`, `imports`, `declarations` and the two hooks may be missing; where
a map or a list is optional, every value that counts as false stands for an empty one.

* `Statement.ofValue` reads one declaration: `{grant: key}`, `{withhold: key}`, or a routine with
  `name`, `params`, `body`, `guards`, `private` and `overridable`.
* `Definition.ofValue` reads a unit.  Everything inside it that is not of the documented form is
  reported with the file and the unit.
* `Statement.parse` and `Definition.parse` are what is seen of these readings.
* `Definitions.ofDocument` reads all units of a document, in its order.
-/

namespace Heredity

namespace Value

/-- The value at a text key of a list of entries. -/
def field? (entries : List (Value × Value)) (name : String) : Option Value :=
  (entries.find? fun e => e.1 == .text name).map Prod.snd

/-- The value at a text key; nothing stands for a missing one. -/
def field (entries : List (Value × Value)) (name : String) : Value :=
  (field? entries name).getD .null

/-- A value that must be a list; what counts as false is the empty list. -/
def optionalList? (v : Value) : Option (List Value) :=
  if v.isTruthy then
    match v with
    | .list items => some items
    | _ => none
  else some []

/-- A value that must be a map; what counts as false is the empty map. -/
def optionalMap? (v : Value) : Option (List (Value × Value)) :=
  if v.isTruthy then
    match v with
    | .map entries => some entries
    | _ => none
  else some []

end Value

namespace Key

/-- Reads the arity of a key. -/
def arityOfValue? : Value → Option Arity
  | .int n => some (.count n)
  | .bool b => some (.flag b)
  | _ => none

/-- Reads a key: a list of a name and an arity. -/
def ofValue (v : Value) : Except Error Key :=
  match v with
  | .list [.text name, arity] =>
    match arityOfValue? arity with
    | some arity => .ok ⟨name, arity⟩
    | none => refuse (.notAKey v)
  | v => refuse (.notAKey v)

end Key

namespace Declaration

/-- Reads the declaration of a routine with the given body. -/
def ofEntries (entries : List (Value × Value)) (body : Value) :
    Except Error Declaration :=
  match (Value.field entries "params").optionalList?,
      (Value.field entries "guards").optionalList? with
  | some params, some guards => do
    let name ← Tree.nameOf .routineName (Value.field entries "name")
    let params ← params.mapM Tree.ofPattern
    let body ← Tree.ofExpression body
    let guards ← guards.mapM Tree.ofExpression
    return {
      name := name
      params := params
      body := body
      guards := guards
      isPrivate := (Value.field entries "private").isTruthy
      overridable := (Value.field entries "overridable").isTruthy }
  | _, _ => refuse (.partsNotLists (.map entries))

end Declaration

namespace Statement

/-- Reads one declaration. -/
def ofValue (v : Value) : Except Error Statement :=
  match v with
  | .map entries =>
    match Value.field? entries "grant", Value.field? entries "withhold",
        Value.field? entries "body" with
    | some key, _, _ => do return .grant (← Key.ofValue key)
    | none, some key, _ => do return .withhold (← Key.ofValue key)
    | none, none, none => refuse (.noBody v)
    | none, none, some body => do return .define (← Declaration.ofEntries entries body)
  | v => refuse (.declarationNotAMap v.kind)

/-- Reads one declaration, or raises the error that was found. -/
def parse (v : Value) : Except Error Statement := seen (ofValue v)

end Statement

namespace Hook

/-- Reads a hook, which may be missing. -/
def ofValue (v : Value) : Except Error (Option Hook) :=
  match v with
  | .null => .ok none
  | .list items => do return some (← items.mapM Statement.ofValue)
  | v => refuse (.hookNotAList v)

end Hook

namespace Definition

/-- Reads what is imported from one source. -/
def importOfEntry (entry : Value × Value) :
    Except Error (Value × Option (List Key)) :=
  match entry.2 with
  | .null => .ok (entry.1, none)
  | .text "all" => .ok (entry.1, none)
  | .list keys => do return (entry.1, some (← keys.mapM Key.ofValue))
  | _ => refuse (.importedKeysNotAList entry.1)

/-- Reads the imports of a unit. -/
def importsOfValue (v : Value) :
    Except Error (List (Value × Option (List Key))) :=
  match v with
  | .null => .ok []
  | .map entries => entries.mapM importOfEntry
  | v => refuse (.importsNotAMap v.kind)

/-- Reads the base of a unit, which may be missing. -/
def baseOfValue (v : Value) : Except Error (Option String) :=
  match v with
  | .null => .ok none
  | v => do return some (← Tree.nameOf .baseName v)

/-- Reads the parts of a unit, given its fields and declarations. -/
def ofParts (name : String) (file : Path) (entries fields : List (Value × Value))
    (declarations : List Value) : Except Error Definition := do
  let base ← baseOfValue (Value.field entries "base")
  let imports ← importsOfValue (Value.field entries "imports")
  let statements ← declarations.mapM Statement.ofValue
  let preHook ← Hook.ofValue (Value.field entries "pre_hook")
  let postHook ← Hook.ofValue (Value.field entries "post_hook")
  return {
    name := name
    base := base
    fields := fields
    imports := imports
    statements := statements
    preHook := preHook
    postHook := postHook
    file := file }

/-- Reports the place of an error about a definition.  Other errors are left alone. -/
def located {α : Type} (file unit : String) : Except Error α → Except Error α
  | .error (.definition cause) => refuse (.inUnit file unit cause)
  | r => r

/-- Reads a unit from the entries of its map. -/
def ofEntries (name : String) (file : Path) (entries : List (Value × Value)) :
    Except Error Definition :=
  match (Value.field entries "fields").optionalMap?,
      (Value.field entries "declarations").optionalList? with
  | none, _ => refuse (.fieldsNotAMap file.fileName name)
  | some _, none => refuse (.declarationsNotAList file.fileName name)
  | some fields, some declarations =>
    located file.fileName name (ofParts name file entries fields declarations)

/-- Reads a unit; nothing at all is a unit without any parts. -/
def ofValue (name : String) (v : Value) (file : Path) : Except Error Definition :=
  match v with
  | .null => ofEntries name file []
  | .map entries => ofEntries name file entries
  | v => refuse (.unitNotAMap file.fileName name v.kind)

/-- Reads a unit, or raises the error that was found. -/
def parse (name : String) (v : Value) (file : Path) : Except Error Definition :=
  seen (ofValue name v file)

end Definition

namespace Definitions

/-- Reads the units of a document one after the other. -/
def ofEntries (file : Path) (read : Definitions) :
    List (Value × Value) → Except Error Definitions
  | [] => .ok read
  | (.text name, v) :: entries => do
    let definition ← Definition.parse name v file
    ofEntries file (read.insert name definition) entries
  | (key, _) :: _ => refuse (.unitNameNotText key.kind)

/-- Reads all units of a document. -/
def ofDocument (file : Path) (document : Value) : Except Error Definitions :=
  match document with
  | .map entries => ofEntries file ∅ entries
  | v => refuse (.documentNotAMap v.kind)

end Definitions

end Heredity
