import Heredity.Tree.Text
import Heredity.Value.Order

/-!
# What can go wrong

Every failure is a cause with the data that belong to it; the wording is kept apart.

* `DefinitionError` — a unit definition, or a file of definitions, is not of the documented form.
* `Error` — everything else, with definition errors and faults of operations among its cases.
* `Error.message?` — the text of an error.  Faults, and files that cannot be read as a document at
  all, have a kind but no text.
* `Error.raised` — the error that is seen: the text of an error shows data, and an integer among
  them may have too many digits to be written.  `seen` is a result with the error that is seen.
* `Warning` — a declaration that will never be called.
-/

namespace Heredity

/-- The role of a text in a definition. -/
inductive TextRole where
  | unitName | routineName | fieldName | aliasName | baseName
deriving DecidableEq

/-- The name of a role in messages. -/
def TextRole.label : TextRole → String
  | .unitName => "Unit name"
  | .routineName => "Routine name"
  | .fieldName => "Field name"
  | .aliasName => "Alias"
  | .baseName => "Base"

/-- The formats of unit files. -/
inductive Format where
  | yaml | json | toml
deriving DecidableEq

/-- The endings of the names of unit files, with the formats that they stand for. -/
def Format.endings : List (String × Format) :=
  [(".unit.yaml", .yaml), (".unit.yml", .yaml), (".unit.json", .json), (".unit.toml", .toml)]

/-- How a unit definition or a file of definitions fails to have the documented form. -/
inductive DefinitionError where
  /-- A text was needed. -/
  | notText (role : TextRole) (got : Value)
  /-- A form without a head. -/
  | emptyForm
  /-- A form with an unknown head or the wrong number of parts. -/
  | unknownForm (form : Value)
  /-- Neither a scalar nor a pattern form. -/
  | unknownPattern (pattern : Value)
  /-- A pattern form with an unknown head or the wrong number of parts. -/
  | unknownPatternForm (form : Value)
  /-- Not a name with an arity. -/
  | notAKey (got : Value)
  /-- A declaration that is no map. -/
  | declarationNotAMap (kind : Kind)
  /-- A routine without a body. -/
  | noBody (declaration : Value)
  /-- Parameters or guards that are no list. -/
  | partsNotLists (declaration : Value)
  /-- A hook that is no list. -/
  | hookNotAList (got : Value)
  /-- Imports that are no map. -/
  | importsNotAMap (kind : Kind)
  /-- The keys imported from a unit are no list. -/
  | importedKeysNotAList (source : Value)
  /-- A unit that is no map. -/
  | unitNotAMap (file unit : String) (kind : Kind)
  /-- The fields of a unit are no map. -/
  | fieldsNotAMap (file unit : String)
  /-- The declarations of a unit are no list. -/
  | declarationsNotAList (file unit : String)
  /-- An error inside the definition of a unit, with the place. -/
  | inUnit (file unit : String) (cause : DefinitionError)
  /-- The name of a file has none of the known endings. -/
  | unknownFormat (file : String)
  /-- The document is no map. -/
  | documentNotAMap (kind : Kind)
  /-- A unit has a name that is no text. -/
  | unitNameNotText (kind : Kind)
  /-- Two files define one unit. -/
  | definedTwice (unit firstFile secondFile : String)
deriving Inhabited

namespace DefinitionError

/-- The text of a definition error. -/
def message : DefinitionError → Except Fault String
  | .notText role got => do
    return role.label ++ " must be a string, got " ++ got.kind.label ++ ": " ++ (← got.render)
  | .emptyForm => .ok "Expression form must not be empty"
  | .unknownForm form => do return "Unrecognized expression form: " ++ (← form.render)
  | .unknownPattern pattern => do return "Unrecognized pattern: " ++ (← pattern.render)
  | .unknownPatternForm form => do return "Unrecognized pattern form: " ++ (← form.render)
  | .notAKey got => do return "Routine key must be [name, arity], got " ++ (← got.render)
  | .declarationNotAMap kind => .ok ("Declaration must be a mapping, got " ++ kind.label)
  | .noBody declaration => do
    return "Routine declaration needs a body: " ++ (← declaration.render)
  | .partsNotLists declaration => do
    return "params and guards must be lists: " ++ (← declaration.render)
  | .hookNotAList got => do return "Hook must be a list of declarations, got " ++ (← got.render)
  | .importsNotAMap kind => .ok ("imports must be a mapping, got " ++ kind.label)
  | .importedKeysNotAList source => do
    return "Imports from " ++ (← source.render) ++ " must be a list of keys"
  | .unitNotAMap file unit kind =>
    .ok (file ++ ": unit " ++ Text.quote unit ++ " must be a mapping, got " ++ kind.label)
  | .fieldsNotAMap file unit =>
    .ok (file ++ ": fields of " ++ Text.quote unit ++ " must be a mapping")
  | .declarationsNotAList file unit =>
    .ok (file ++ ": declarations of " ++ Text.quote unit ++ " must be a list")
  | .inUnit file unit cause => do
    return file ++ ": unit " ++ Text.quote unit ++ ": " ++ (← cause.message)
  | .unknownFormat file =>
    .ok ("Unrecognized unit file format: " ++ file ++ ". Expected one of " ++
      Text.commaSeparated (Format.endings.map Prod.fst))
  | .documentNotAMap kind =>
    .ok ("Unit file must contain a mapping at top level, got " ++ kind.label)
  | .unitNameNotText kind => .ok ("Unit name must be a string, got " ++ kind.label)
  | .definedTwice unit firstFile secondFile =>
    .ok ("Unit " ++ Text.quote unit ++ " is defined in both " ++ firstFile ++ " and " ++
      secondFile)

end DefinitionError

/-- Why a file cannot be read as a document. -/
inductive FileError where
  /-- The bytes are no text. -/
  | undecodable
  /-- The text is no document of the format. -/
  | malformed (format : Format)
  /-- There is no such file or directory. -/
  | missing
  /-- A directory was needed and something else is there. -/
  | notADirectory
deriving DecidableEq

/-- Why an operation on units fails. -/
inductive Error where
  /-- A unit that is needed has no published registry. -/
  | unresolvedBase (unit : String) (needed : Value)
  /-- A registry that is still being written cannot be inherited from. -/
  | unfinishedBase (unit : String)
  /-- The registry of a unit is closed. -/
  | registryClosed (unit : String)
  /-- A unit is published already. -/
  | alreadyPublished (unit : String)
  /-- A registry is published under the name of another unit. -/
  | publishedAs (registryUnit unit : String)
  /-- A unit records no such routine. -/
  | unknownRoutine (unit : String) (key : Key)
  /-- A routine of a root calls the routine that it replaces. -/
  | superWithoutBase (unit : String) (key : Key)
  /-- The base passes on no routine that could be replaced. -/
  | superNotPassedOn (unit base : String) (key : Key)
  /-- A body refers to a base that does not exist. -/
  | noBase (key : Key)
  /-- A public routine cannot become private. -/
  | publicAlready (unit : String) (key : Key)
  /-- A private routine cannot become public. -/
  | privateAlready (unit : String) (key : Key)
  /-- The inherited routine at the key is locked. -/
  | inertOverride (unit : String) (key : Key)
  /-- A unit has no such routine that the caller may use. -/
  | undefinedRoutine (unit : String) (key : Key)
  /-- An ancestor withheld the routine. -/
  | withheldRoutine (unit : String) (key : Key)
  /-- The parameters do not match the arguments. -/
  | noMatch (unit : String) (key : Key) (args : List Value)
  /-- A guard does not hold. -/
  | guardsReject (unit : String) (key : Key) (args : List Value)
  /-- A unit is not part of the program. -/
  | notLoaded (unit : String)
  /-- Units that a unit requires are not part of the program. -/
  | requirementsNotLoaded (unit : String) (missing : List String)
  /-- A unit is part of the program already. -/
  | alreadyLoaded (unit : String)
  /-- Units need each other. -/
  | cycle (path : List String)
  /-- A parameter has no name of its own. -/
  | notNormalized (param : Tree)
  /-- No operation has this symbol. -/
  | unknownOperation (symbol : String)
  /-- A variable is not bound. -/
  | unboundVariable (name unit : String)
  /-- A value has no fields. -/
  | noFields (field : String) (subject : Value)
  /-- A reference to the base was never bound. -/
  | unboundBaseReference (unit : String) (expr : Tree)
  /-- A pattern stands where an expression is evaluated. -/
  | notAnExpression (tree : Tree)
  /-- An expression stands where a pattern is matched. -/
  | notAPattern (tree : Tree)
  /-- A record has no such field. -/
  | noSuchField (unit field : String)
  /-- A registry records a routine that it withholds. -/
  | withheldRecorded
  /-- A pattern was given where an expression belongs. -/
  | wrongSort
  /-- A path is not a directory. -/
  | pathNotADirectory (path : String)
  /-- Something else than a text or a pattern was given as a parameter. -/
  | notAParameter
  /-- A definition does not have the documented form. -/
  | definition (cause : DefinitionError)
  /-- An operation on values failed. -/
  | fault (cause : Fault)
  /-- A file cannot be read as a document. -/
  | file (cause : FileError)
  /-- The evaluation is nested too deeply. -/
  | tooDeep
  /-- The text of another error cannot be written, because of an integer with too many digits. -/
  | unshown
deriving Inhabited

/-- A declaration that was accepted and will never be called. -/
structure Warning where
  /-- The declaring unit. -/
  unit : String
  /-- The key that is locked. -/
  key : Key
deriving DecidableEq

/-- The text about a declaration at a locked key. -/
def inertMessage (unit : String) (key : Key) : Except Fault String := do
  return unit ++ "." ++ (← key.render) ++
    " is inherited without override permission; this declaration will never be called"

/-- The text of a warning. -/
def Warning.message (w : Warning) : Except Fault String := inertMessage w.unit w.key

namespace Error

/-- A routine of a unit in messages. -/
def routineText (unit : String) (key : Key) : Except Fault String := do
  return unit ++ "." ++ (← key.render)

/-- The text of an error, unless it has only a kind. -/
def message? : Error → Except Fault (Option String)
  | .unresolvedBase unit needed => do
    let needed ← needed.render
    return some ("cannot extend " ++ needed ++ " from " ++ Text.quote unit ++ ": " ++ needed ++
      " has no finalized registry")
  | .unfinishedBase unit =>
    .ok (some ("registry of " ++ Text.quote unit ++
      " is still being compiled; its private routines are not known yet"))
  | .registryClosed unit => .ok (some ("registry of " ++ Text.quote unit ++ " is finalized"))
  | .alreadyPublished unit => .ok (some (Text.quote unit ++ " is already finalized"))
  | .publishedAs registryUnit unit =>
    .ok (some ("registry of " ++ Text.quote registryUnit ++ " cannot be published as " ++
      Text.quote unit))
  | .unknownRoutine unit key => do
    return some (Text.quote unit ++ " has no routine " ++ (← key.render))
  | .superWithoutBase unit key => do
    return some ((← routineText unit key) ++ " calls super, but " ++ unit ++ " has no base")
  | .superNotPassedOn unit base key => do
    return some ((← routineText unit key) ++ " calls super, but " ++ base ++ " passes on no " ++
      (← key.render))
  | .noBase key => do
    return some ((← key.render) ++ " refers to a base, but the unit has none")
  | .publicAlready unit key => do
    return some ((← routineText unit key) ++ " is public; it cannot be redeclared as private")
  | .privateAlready unit key => do
    return some ((← routineText unit key) ++ " is private; it cannot be redeclared as public")
  | .inertOverride unit key => do return some (← inertMessage unit key)
  | .undefinedRoutine unit key => do
    return some ("no such routine " ++ (← routineText unit key))
  | .withheldRoutine unit key => do
    return some ("no such routine " ++ (← routineText unit key) ++ " (withheld by an ancestor)")
  | .noMatch unit key args => do
    return some ("no clause of " ++ (← routineText unit key) ++ " matches " ++
      (← (Value.tuple args).render))
  | .guardsReject unit key args => do
    return some ("guards of " ++ (← routineText unit key) ++ " reject " ++
      (← (Value.tuple args).render))
  | .notLoaded unit => .ok (some ("Unit " ++ Text.quote unit ++ " is not loaded"))
  | .requirementsNotLoaded unit missing =>
    .ok (some (Text.quote unit ++ " requires units that are not loaded: " ++
      Text.commaSeparated missing))
  | .alreadyLoaded unit => .ok (some ("Unit " ++ Text.quote unit ++ " is already loaded"))
  | .cycle path =>
    .ok (some ("Units depend on each other in a cycle: " ++ " -> ".intercalate path))
  | .notNormalized param => do
    return some ("Parameter is not normalized: " ++ (← param.render))
  | .unknownOperation symbol => .ok (some ("unknown primitive " ++ Text.quote symbol))
  | .unboundVariable name unit =>
    .ok (some ("unbound variable " ++ Text.quote name ++ " in " ++ unit))
  | .noFields field subject => do
    return some ("cannot read field " ++ Text.quote field ++ " of " ++ (← subject.render))
  | .unboundBaseReference unit expr => do
    return some ("unbound base reference in " ++ unit ++ ": " ++ (← expr.render))
  | .notAnExpression tree => do return some ("not an expression: " ++ (← tree.render))
  | .notAPattern tree => do return some ("not a pattern: " ++ (← tree.render))
  | .noSuchField unit field => .ok (some (unit ++ " has no field " ++ Text.quote field))
  | .withheldRecorded => .ok (some "withheld routine recorded")
  | .wrongSort => .ok (some "")
  | .pathNotADirectory path => .ok (some ("Path is not a directory: " ++ path))
  | .definition cause => do return some (← cause.message)
  | .notAParameter => .ok none
  | .fault _ => .ok none
  | .file _ => .ok none
  | .tooDeep => .ok none
  | .unshown => .ok none

/-- The error that is seen where an error is raised.  Its text is written when it is raised, and if
it cannot be written, that is the error that is seen. -/
def raised (e : Error) : Error :=
  match e.message? with
  | .ok _ => e
  | .error _ => .unshown

theorem raised_of_ok {e : Error} {message : Option String} (h : e.message? = .ok message) :
    e.raised = e := by
  rw [raised, h]

theorem raised_of_error {e : Error} {cause : Fault} (h : e.message? = .error cause) :
    e.raised = .unshown := by
  rw [raised, h]

end Error

/-- Refuses data that are not of the documented form. -/
def refuse {α : Type} (cause : DefinitionError) : Except Error α := .error (.definition cause)

/-- What is seen of a result: if it is an error, the one that is raised. -/
def seen {α : Type} (r : Except Error α) : Except Error α := r.mapError Error.raised

end Heredity
