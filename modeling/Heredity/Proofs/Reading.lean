import Heredity.Definition.Notation
import Heredity.Proofs.Notation

/-!
# Reading step by step

Definitions are read from data of which nothing is known.  Taking such data apart is done by steps
that have no result for most of them: there are no items of a number, no first item of an empty list
and no entry at a key that is missing.  Here the readers are written with these steps.  A step
without a result fails with a fault of its own, which is not an error about a definition.

* `Stepwise.demand` — a step that may have no result; `first`, `item`, `three`, `iterate`,
  `entries`, `entry`, `text` and `arity` are such steps.
* `Stepwise.expression`, `Stepwise.pattern`, … , `Stepwise.unit` — the readers.
* `Stepwise.unit_eq` — they read what the notation reads, so no step is ever taken where it has no
  result.
* `Definition.Reads` — what a unit that was read has in common with its data.
* `Definition.seen_located` — the place may be added to an error before its text is written.
* `Definition.read_or_reported` — a unit is read as a whole, or its place is reported.

**Why the readers are written twice.**  The readers of the notation match on the shape of the data,
so they cannot fail in another way, and nothing would be said by saying so.  The steps check first
and take apart then, in the order of a program that knows nothing of shapes, and each check has to
be the right one.
-/

namespace Heredity

namespace Stepwise

variable {α β : Type}

/-! ## Steps -/

/-- A step that may have no result. -/
def demand (fault : Fault) : Option α → Except Error α
  | some a => .ok a
  | none => .error (.fault fault)

/-- The first of several items, and the others. -/
def first (items : List α) : Except Error (α × List α) :=
  demand .malformed (items.head?.map fun item => (item, items.tail))

/-- The item at a position. -/
def item (items : List α) (position : Nat) : Except Error α := demand .outOfRange items[position]?

/-- Three items, if there are three. -/
def three (items : List α) : Except Error (α × α × α) :=
  match items with
  | [a, b, c] => .ok (a, b, c)
  | _ => .error (.fault .malformed)

/-- The items that iterating over a value gives. -/
def iterate (v : Value) : Except Error (List Value) := demand .unsupported v.elements?

/-- The entries of a value. -/
def entries (v : Value) : Except Error (List (Value × Value)) := demand .unsupported v.entries?

/-- Whether a value has an entry at a text key. -/
def has (v : Value) (name : String) : Except Error Bool := do
  return (Value.field? (← entries v) name).isSome

/-- The entry at a text key. -/
def entry (v : Value) (name : String) : Except Error Value := do
  demand .missingKey (Value.field? (← entries v) name)

/-- The entry at a text key, which may be missing. -/
def get (v : Value) (name : String) : Except Error Value := do
  return Value.field (← entries v) name

/-- The text that a value is. -/
def text (v : Value) : Except Error String := demand .unsupported v.text?

/-- The arity that a value is. -/
def arity (v : Value) : Except Error Arity := demand .unsupported (Key.arityOfValue? v)

/-! ## Checks -/

/-- Whether a value is nothing. -/
def isNull : Value → Bool
  | .null => true
  | _ => false

/-- Whether a value is a text. -/
def isText : Value → Bool
  | .text _ => true
  | _ => false

/-- Whether a value is a certain text. -/
def isWord (word : String) : Value → Bool
  | .text s => s == word
  | _ => false

/-- Whether a value is a whole number or a truth value. -/
def isWhole : Value → Bool
  | .int _ => true
  | .bool _ => true
  | _ => false

/-- Whether a value is a list. -/
def isList : Value → Bool
  | .list _ => true
  | _ => false

/-- Whether a value is a map. -/
def isMap : Value → Bool
  | .map _ => true
  | _ => false

/-- A value, or another one if it counts as false. -/
def orElse (v default : Value) : Value := if v.isTruthy then v else default

/-! ## Trees -/

/-- The text that must stand for a name. -/
def nameOf (role : TextRole) (v : Value) : Except Error String :=
  if isText v then text v else refuse (.notText role v)

/-- The readings of parts, first to last. -/
def arguments (parts : List Tree.Item) : Except Error (List Tree) := parts.mapM Prod.snd

/-- The value of the part at a position. -/
def valueAt (parts : List Tree.Item) (position : Nat) : Except Error Value := do
  return (← item parts position).1

/-- The reading of the part at a position. -/
def readingAt (parts : List Tree.Item) (position : Nat) : Except Error Tree := do
  (← item parts position).2

/-- Reads a form with a head as an expression. -/
def headed (v head : Value) (rest : List Tree.Item) : Except Error Tree :=
  if isWord "lit" head && rest.length == 1 then do
    return .literal (← valueAt rest 0)
  else if isWord "call" head && !rest.isEmpty then do
    let name ← nameOf .routineName (← valueAt rest 0)
    return .call name (← arguments (rest.drop 1))
  else if isWord "remote" head && 2 ≤ rest.length then do
    let unit ← nameOf .unitName (← valueAt rest 0)
    let name ← nameOf .routineName (← valueAt rest 1)
    return .remoteCall unit name (← arguments (rest.drop 2))
  else if isWord "super" head then do
    return .superCall (← arguments rest)
  else if isWord "base" head && !rest.isEmpty then do
    let name ← nameOf .routineName (← valueAt rest 0)
    return .baseCall name (← arguments (rest.drop 1))
  else if isWord "unit" head && rest.isEmpty then
    return .currentUnit
  else if isWord "field" head && rest.length == 2 then do
    let subject ← readingAt rest 0
    return .fieldAccess subject (← nameOf .fieldName (← valueAt rest 1))
  else if isWord "tuple" head then do
    return .tuple (← arguments rest)
  else if isWord "list" head then do
    return .list (← arguments rest)
  else if isWord "if" head && rest.length == 3 then do
    let (condition, thenBranch, elseBranch) ← three (← arguments rest)
    return .cond condition thenBranch elseBranch
  else if isText head then do
    let symbol ← text head
    if Operation.isSymbol symbol then return .primitive symbol (← arguments rest)
    else refuse (.unknownForm v)
  else refuse (.unknownForm v)

/-- Reads a form as an expression. -/
def form (v : Value) (parts : List Tree.Item) : Except Error Tree := do
  if parts.isEmpty then refuse .emptyForm
  else
    let ((head, _), rest) ← first parts
    headed v head rest

mutual

/-- Reads an expression. -/
def expression : Value → Except Error Tree
  | .text name => .ok (.var name)
  | .null => .ok (.literal .null)
  | .bool b => .ok (.literal (.bool b))
  | .int n => .ok (.literal (.int n))
  | .float x => .ok (.literal (.float x))
  -- It has no items, but that is found out by taking it apart.
  | .moment m => do
    let items ← iterate (.moment m)
    form (.moment m) (items.map fun item => (item, refuse .emptyForm))
  | .map entries => .ok (.literal (.map entries))
  | .list items => form (.list items) (itemParts items)
  | .tuple items => form (.tuple items) (itemParts items)
  | .struct unit fields => form (.struct unit fields) (keyParts fields)
termination_by structural v => v

/-- The items of a sequence with their readings. -/
def itemParts : List Value → List Tree.Item
  | [] => []
  | v :: vs => (v, expression v) :: itemParts vs
termination_by structural vs => vs

/-- The keys of an association with their readings. -/
def keyParts : List (Value × Value) → List Tree.Item
  | [] => []
  | (k, _) :: es => (k, expression k) :: keyParts es
termination_by structural es => es

end

/-- Reads a form with a head as a pattern. -/
def headedPattern (v head : Value) (rest : List Tree.Item) : Except Error Tree :=
  if isWord "tuple" head then do
    return .tuplePattern (← arguments rest)
  else if isWord "list" head then do
    return .listPattern (← arguments rest)
  else if isWord "lit" head && rest.length == 1 then do
    return .constant (← valueAt rest 0)
  else if isWord "as" head && rest.length == 2 then do
    let pattern ← readingAt rest 0
    return .alias pattern (← nameOf .aliasName (← valueAt rest 1))
  else if isWord "default" head && rest.length == 2 then do
    let pattern ← readingAt rest 0
    return .optional pattern (← expression (← valueAt rest 1))
  else refuse (.unknownPatternForm v)

/-- Reads a form as a pattern. -/
def patternForm (v : Value) (parts : List Tree.Item) : Except Error Tree := do
  if parts.isEmpty then refuse (.unknownPattern v)
  else
    let ((head, _), rest) ← first parts
    headedPattern v head rest

mutual

/-- Reads a pattern. -/
def pattern : Value → Except Error Tree
  | .text name => .ok (Tree.ofName name)
  | .null => .ok (.constant .null)
  | .bool b => .ok (.constant (.bool b))
  | .int n => .ok (.constant (.int n))
  | .float x => .ok (.constant (.float x))
  | .list items => patternForm (.list items) (patternParts items)
  | v => refuse (.unknownPattern v)
termination_by structural v => v

/-- The items of a list with their readings as patterns. -/
def patternParts : List Value → List Tree.Item
  | [] => []
  | v :: vs => (v, pattern v) :: patternParts vs
termination_by structural vs => vs

end

/-! ## Definitions -/

/-- Reads a key. -/
def key (v : Value) : Except Error Key :=
  if !isList v then refuse (.notAKey v)
  else do
    let items ← iterate v
    if items.length != 2 then refuse (.notAKey v)
    else if !isText (← item items 0) then refuse (.notAKey v)
    else if !isWhole (← item items 1) then refuse (.notAKey v)
    else return ⟨← text (← item items 0), ← arity (← item items 1)⟩

/-- Reads the parts of a routine, given its parameters and guards. -/
def routine (v params guards : Value) : Except Error Declaration := do
  let name ← nameOf .routineName (← get v "name")
  let params ← (← iterate params).mapM pattern
  let body ← expression (← entry v "body")
  let guards ← (← iterate guards).mapM expression
  return {
    name := name
    params := params
    body := body
    guards := guards
    isPrivate := (← get v "private").isTruthy
    overridable := (← get v "overridable").isTruthy }

/-- Reads the declaration of a routine. -/
def declaration (v : Value) : Except Error Declaration := do
  let params := orElse (← get v "params") (.list [])
  let guards := orElse (← get v "guards") (.list [])
  if !isList params || !isList guards then refuse (.partsNotLists v)
  else routine v params guards

/-- Reads one declaration. -/
def statement (v : Value) : Except Error Statement :=
  if !isMap v then refuse (.declarationNotAMap v.kind)
  else do
    if ← has v "grant" then return .grant (← key (← entry v "grant"))
    else if ← has v "withhold" then return .withhold (← key (← entry v "withhold"))
    else if !(← has v "body") then refuse (.noBody v)
    else return .define (← declaration v)

/-- Reads a hook, which may be missing. -/
def hook (v : Value) : Except Error (Option Hook) :=
  if isNull v then .ok none
  else if !isList v then refuse (.hookNotAList v)
  else do return some (← (← iterate v).mapM statement)

/-- Reads what is imported from a source. -/
def importOf (source keys : Value) : Except Error (Value × Option (List Key)) :=
  if isNull keys || isWord "all" keys then .ok (source, none)
  else if isList keys then do return (source, some (← (← iterate keys).mapM key))
  else refuse (.importedKeysNotAList source)

/-- Reads the imports of a unit. -/
def imports (v : Value) : Except Error (List (Value × Option (List Key))) :=
  if isNull v then .ok []
  else if !isMap v then refuse (.importsNotAMap v.kind)
  else do (← entries v).mapM fun e => importOf e.1 e.2

/-- Reads the base of a unit, which may be missing. -/
def baseOf (v : Value) : Except Error (Option String) :=
  if isNull v then .ok none else do return some (← nameOf .baseName v)

/-- Reads the parts of a unit, given its fields and declarations. -/
def parts (name : String) (file : Path) (v fields declarations : Value) :
    Except Error Definition := do
  let base ← baseOf (← get v "base")
  let fields ← entries fields
  let imports ← imports (← get v "imports")
  let statements ← (← iterate declarations).mapM statement
  let preHook ← hook (← get v "pre_hook")
  let postHook ← hook (← get v "post_hook")
  return {
    name := name
    base := base
    fields := fields
    imports := imports
    statements := statements
    preHook := preHook
    postHook := postHook
    file := file }

/-- Reads a unit. -/
def unit (name : String) (v : Value) (file : Path) : Except Error Definition := do
  let v := if isNull v then .map [] else v
  if !isMap v then refuse (.unitNotAMap file.fileName name v.kind)
  else
    let fields := orElse (← get v "fields") (.map [])
    let declarations := orElse (← get v "declarations") (.list [])
    if !isMap fields then refuse (.fieldsNotAMap file.fileName name)
    else if !isList declarations then refuse (.declarationsNotAList file.fileName name)
    else Definition.located file.fileName name (parts name file v fields declarations)

/-! ## The same readings -/

/-- What is read item by item is the same if each item is. -/
theorem mapM_congr {f g : α → Except Error β} (h : ∀ x, f x = g x) (xs : List α) :
    xs.mapM f = xs.mapM g := by
  rw [funext h]

theorem nameOf_eq (role : TextRole) (v : Value) : nameOf role v = (Tree.nameOf role v) := by
  cases v <;> rfl

/-- A word does not make a form of its kind where the parts are not as many as it needs. -/
theorem isWord_and_eq_false {word s : String} {fits : Bool} (h : s = word → fits = false) :
    (isWord word (.text s) && fits) = false := by
  by_cases same : s = word
  · rw [h same, Bool.and_false]
  · have other : isWord word (.text s) = false := beq_eq_false_iff_ne.2 same
    rw [other, Bool.false_and]

theorem isWord_eq_false {word s : String} (h : s = word → False) : isWord word (.text s) = false :=
  beq_eq_false_iff_ne.2 h

theorem length_ne_one {items : List Tree.Item} (h : ∀ v r, items = [(v, r)] → False) :
    (items.length == 1) = false := by
  rcases items with _ | ⟨⟨_, _⟩, _ | _⟩
  · rfl
  · exact (h _ _ rfl).elim
  · rfl

theorem length_ne_two {items : List Tree.Item}
    (h : ∀ v r v' r', items = [(v, r), (v', r')] → False) :
    (items.length == 2) = false := by
  rcases items with _ | ⟨⟨_, _⟩, _ | ⟨⟨_, _⟩, _ | _⟩⟩
  · rfl
  · rfl
  · exact (h _ _ _ _ rfl).elim
  · rfl

theorem not_isEmpty_eq_false {items : List Tree.Item}
    (h : ∀ v r rest, items = (v, r) :: rest → False) : (!items.isEmpty) = false := by
  rcases items with _ | ⟨⟨_, _⟩, _⟩
  · rfl
  · exact (h _ _ _ rfl).elim

/-- The symbols of operations are no words of other forms. -/
theorem form_symbol (o : Operation) (v : Value) (reading : Except Error Tree)
    (parts : List Tree.Item) :
    form v ((.text o.symbol, reading) :: parts) =
      arguments parts >>= fun ts => .ok (Tree.primitive o.symbol ts) := by
  cases o <;> rfl

theorem form_eq (v : Value) (items : List Tree.Item) : form v items = Tree.ofForm v items := by
  fun_cases Tree.ofForm v items with
  | case1 | case2 | case5 | case7 | case9 | case10 => rfl
  | case3 _ name _ args =>
    show (nameOf .routineName name >>= fun name =>
      arguments args >>= fun ts => .ok (Tree.call name ts)) = _
    rw [nameOf_eq]
    rfl
  | case4 _ unit _ name _ args =>
    show (nameOf .unitName unit >>= fun unit => nameOf .routineName name >>= fun name =>
      arguments args >>= fun ts => .ok (Tree.remoteCall unit name ts)) = _
    rw [nameOf_eq, nameOf_eq]
    rfl
  | case6 _ name _ args =>
    show (nameOf .routineName name >>= fun name =>
      arguments args >>= fun ts => .ok (Tree.baseCall name ts)) = _
    rw [nameOf_eq]
    rfl
  | case8 _ _ subject field =>
    show (subject >>= fun subject => nameOf .fieldName field >>= fun field =>
      .ok (Tree.fieldAccess subject field)) = _
    rw [nameOf_eq]
    rfl
  | case11 _ _ condition _ thenBranch _ elseBranch =>
    cases condition with
    | error => rfl
    | ok =>
      cases thenBranch with
      | error => rfl
      | ok => cases elseBranch <;> rfl
  | case12 _ symbol args _ _ _ _ _ _ _ _ _ _ isSymbol =>
    obtain ⟨o, rfl⟩ := (Operation.isSymbol_iff symbol).1 isSymbol
    exact form_symbol o v _ _
  | case13 reading symbol args lit call remote super base unit field tuple list cond isNoSymbol =>
    -- No kind of form has the word and the parts that it needs.
    have noLit : (isWord "lit" (.text symbol) && args.length == 1) = false :=
      isWord_and_eq_false fun same => length_ne_one fun _ _ shape => lit _ _ shape same
    have noCall : (isWord "call" (.text symbol) && !args.isEmpty) = false :=
      isWord_and_eq_false fun same => not_isEmpty_eq_false fun _ _ _ shape => call _ _ _ shape same
    have noRemote :
        (isWord "remote" (.text symbol) && decide (2 ≤ args.length)) = false :=
      isWord_and_eq_false fun same => by
        rcases args with _ | ⟨⟨_, _⟩, _ | ⟨⟨_, _⟩, _⟩⟩
        · rfl
        · rfl
        · exact (remote _ _ _ _ _ rfl same).elim
    have noBase : (isWord "base" (.text symbol) && !args.isEmpty) = false :=
      isWord_and_eq_false fun same => not_isEmpty_eq_false fun _ _ _ shape => base _ _ _ shape same
    have noUnit : (isWord "unit" (.text symbol) && args.isEmpty) = false :=
      isWord_and_eq_false fun same => by
        rcases args with _ | _
        · exact (unit rfl same).elim
        · rfl
    have noField : (isWord "field" (.text symbol) && args.length == 2) = false :=
      isWord_and_eq_false fun same => length_ne_two fun _ _ _ _ shape => field _ _ _ _ shape same
    have noCond : (isWord "if" (.text symbol) && args.length == 3) = false :=
      isWord_and_eq_false fun same => by
        rcases args with _ | ⟨⟨_, _⟩, _ | ⟨⟨_, _⟩, _ | ⟨⟨_, _⟩, _ | _⟩⟩⟩
        · rfl
        · rfl
        · rfl
        · exact (cond _ _ _ _ _ _ rfl same).elim
        · rfl
    have symbols : headed v (.text symbol) args =
        if Operation.isSymbol symbol then
          arguments args >>= fun ts => .ok (Tree.primitive symbol ts)
        else refuse (.unknownForm v) := by
      simp only [headed, noLit, noCall, noRemote, noBase, noUnit, noField, noCond,
        isWord_eq_false super, isWord_eq_false tuple, isWord_eq_false list]
      rfl
    exact symbols.trans (if_neg isNoSymbol)
  | case14 head reading rest _ _ _ noText =>
    cases head with
    | text s => exact (noText s rfl).elim
    | _ => rfl

theorem expression_eq (v : Value) : expression v = (Tree.ofExpression v) := by
  induction v using Value.induct with
  | scalar v noList noTuple noMap noStruct =>
    cases v with
    | null | bool | int | float | text | moment => rfl
    | list items => exact (noList items rfl).elim
    | tuple items => exact (noTuple items rfl).elim
    | map entries => exact (noMap entries rfl).elim
    | struct unit fields => exact (noStruct unit fields rfl).elim
  | map entries => rfl
  | list items ih | tuple items ih =>
    have parts : itemParts items = Tree.readItems items := by
      induction items with
      | nil => rfl
      | cons v vs ih' =>
        rw [itemParts, ih v List.mem_cons_self,
          ih' fun v member => ih v (List.mem_cons_of_mem _ member)]
        rfl
    rw [expression, parts, form_eq, Tree.ofExpression]
  | struct unit fields ih =>
    have parts : keyParts fields = Tree.readKeys fields := by
      induction fields with
      | nil => rfl
      | cons e es ih' =>
        rw [keyParts, (ih e List.mem_cons_self).1,
          ih' fun e member => ih e (List.mem_cons_of_mem _ member)]
        rfl
    rw [expression, parts, form_eq, Tree.ofExpression]

theorem patternForm_eq (v : Value) (items : List Tree.Item) :
    patternForm v items = Tree.ofPatternForm v items := by
  fun_cases Tree.ofPatternForm v items with
  | case1 | case2 | case3 | case4 => rfl
  | case5 _ _ inner name =>
    show (inner >>= fun inner => nameOf .aliasName name >>= fun name =>
      .ok (Tree.alias inner name)) = _
    rw [nameOf_eq]
    rfl
  | case6 _ _ inner value =>
    show (inner >>= fun inner => expression value >>= fun value =>
      .ok (Tree.optional inner value)) = _
    rw [expression_eq]
    rfl
  | case7 head _ rest tuple list lit named optional =>
    cases head with
    | text word =>
      have noLit : (isWord "lit" (.text word) && rest.length == 1) = false :=
        isWord_and_eq_false fun same => length_ne_one fun _ _ => lit _ _ (congrArg _ same)
      have noAlias : (isWord "as" (.text word) && rest.length == 2) = false :=
        isWord_and_eq_false fun same => length_ne_two fun _ _ _ _ =>
          named _ _ _ _ (congrArg _ same)
      have noDefault : (isWord "default" (.text word) && rest.length == 2) = false :=
        isWord_and_eq_false fun same => length_ne_two fun _ _ _ _ =>
          optional _ _ _ _ (congrArg _ same)
      show headedPattern v (.text word) rest = refuse (.unknownPatternForm v)
      simp only [headedPattern, noLit, noAlias, noDefault,
        isWord_eq_false fun same => tuple (congrArg _ same),
        isWord_eq_false fun same => list (congrArg _ same)]
      rfl
    | _ => rfl

theorem pattern_eq (v : Value) : pattern v = (Tree.ofPattern v) := by
  induction v using Value.induct with
  | scalar v noList noTuple noMap noStruct =>
    cases v with
    | null | bool | int | float | text | moment => rfl
    | list items => exact (noList items rfl).elim
    | tuple items => exact (noTuple items rfl).elim
    | map entries => exact (noMap entries rfl).elim
    | struct unit fields => exact (noStruct unit fields rfl).elim
  | map | tuple | struct => rfl
  | list items ih =>
    have parts : patternParts items = Tree.readPatternItems items := by
      induction items with
      | nil => rfl
      | cons v vs ih' =>
        rw [patternParts, ih v List.mem_cons_self,
          ih' fun v member => ih v (List.mem_cons_of_mem _ member)]
        rfl
    rw [pattern, parts, patternForm_eq, Tree.ofPattern]

theorem key_eq (v : Value) : key v = (Key.ofValue v) := by
  cases v with
  | list items =>
    rcases items with _ | ⟨name, _ | ⟨arity, _ | ⟨third, rest⟩⟩⟩
    · rfl
    · cases name <;> rfl
    · cases name with
      | text => cases arity <;> rfl
      | _ => rfl
    · cases name <;> rfl
  | _ => rfl

/-- A list, or nothing where what counts as false stands for it. -/
theorem orElse_list (v : Value) :
    (isList (orElse v (.list [])) = true ∧
      ∃ items, orElse v (.list []) = .list items ∧ v.optionalList? = some items) ∨
    (isList (orElse v (.list [])) = false ∧ v.optionalList? = none) := by
  unfold orElse Value.optionalList?
  split
  · cases v with
    | list items => exact .inl ⟨rfl, items, rfl, rfl⟩
    | _ => exact .inr ⟨rfl, rfl⟩
  · exact .inl ⟨rfl, [], rfl, rfl⟩

/-- A map, or nothing where what counts as false stands for it. -/
theorem orElse_map (v : Value) :
    (isMap (orElse v (.map [])) = true ∧
      ∃ entries, orElse v (.map []) = .map entries ∧ v.optionalMap? = some entries) ∨
    (isMap (orElse v (.map [])) = false ∧ v.optionalMap? = none) := by
  unfold orElse Value.optionalMap?
  split
  · cases v with
    | map entries => exact .inl ⟨rfl, entries, rfl, rfl⟩
    | _ => exact .inr ⟨rfl, rfl⟩
  · exact .inl ⟨rfl, [], rfl, rfl⟩

theorem entry_eq_ok {entries : List (Value × Value)} {name : String} {v : Value}
    (found : Value.field? entries name = some v) : entry (.map entries) name = .ok v := by
  show demand .missingKey (Value.field? entries name) = _
  rw [found]
  rfl

theorem routine_eq {entries : List (Value × Value)} {body : Value}
    (isBody : Value.field? entries "body" = some body) (params guards : List Value) :
    routine (.map entries) (.list params) (.list guards) = (do
      let name ← Tree.nameOf .routineName (Value.field entries "name")
      let params ← params.mapM Tree.ofPattern
      let body ← Tree.ofExpression body
      let guards ← guards.mapM Tree.ofExpression
      return {
        name := name
        params := params
        body := body
        guards := guards
        isPrivate := (Value.field entries "private").isTruthy
        overridable := (Value.field entries "overridable").isTruthy }) := by
  have readParams : params.mapM pattern = (params.mapM Tree.ofPattern) :=
    mapM_congr pattern_eq _
  have readGuards : guards.mapM expression = (guards.mapM Tree.ofExpression) :=
    mapM_congr expression_eq _
  rw [← nameOf_eq, ← readParams, ← readGuards, ← expression_eq]
  unfold routine
  rw [entry_eq_ok isBody]
  rfl

theorem declaration_eq {entries : List (Value × Value)} {body : Value}
    (isBody : Value.field? entries "body" = some body) :
    declaration (.map entries) = (Declaration.ofEntries entries body) := by
  have start : declaration (.map entries) =
      if !isList (orElse (Value.field entries "params") (.list [])) ||
          !isList (orElse (Value.field entries "guards") (.list [])) then
        refuse (.partsNotLists (.map entries))
      else routine (.map entries) (orElse (Value.field entries "params") (.list []))
        (orElse (Value.field entries "guards") (.list [])) := rfl
  rw [start, Declaration.ofEntries]
  rcases orElse_list (Value.field entries "params") with
    ⟨isParams, params, params_eq, optional⟩ | ⟨noParams, optional⟩
  · rcases orElse_list (Value.field entries "guards") with
      ⟨isGuards, guards, guards_eq, optional'⟩ | ⟨noGuards, optional'⟩
    · rw [optional, optional', isParams, isGuards, params_eq, guards_eq]
      exact routine_eq isBody params guards
    · rw [optional, optional', noGuards, Bool.not_false, Bool.or_true]
      rfl
  · rw [optional, noParams]
    rfl

theorem statement_eq (v : Value) : statement v = (Statement.ofValue v) := by
  cases v with
  | map entries =>
    have start : statement (.map entries) =
        if (Value.field? entries "grant").isSome then
          entry (.map entries) "grant" >>= fun w => key w >>= fun k => .ok (.grant k)
        else if (Value.field? entries "withhold").isSome then
          entry (.map entries) "withhold" >>= fun w => key w >>= fun k => .ok (.withhold k)
        else if !(Value.field? entries "body").isSome then refuse (.noBody (.map entries))
        else declaration (.map entries) >>= fun d => .ok (.define d) := rfl
    rw [start, Statement.ofValue]
    cases grant : Value.field? entries "grant" with
    | some granted =>
      rw [entry_eq_ok grant]
      show (key granted >>= fun k => .ok (Statement.grant k)) = _
      rw [key_eq]
      rfl
    | none =>
      cases withhold : Value.field? entries "withhold" with
      | some withheld =>
        rw [entry_eq_ok withhold]
        show (key withheld >>= fun k => .ok (Statement.withhold k)) = _
        rw [key_eq]
        rfl
      | none =>
        cases isBody : Value.field? entries "body" with
        | none => rfl
        | some body =>
          show (declaration (.map entries) >>= fun d => .ok (Statement.define d)) = _
          rw [declaration_eq isBody]
          rfl
  | _ => rfl

theorem hook_eq (v : Value) : hook v = (Hook.ofValue v) := by
  cases v with
  | list items =>
    have statements : items.mapM statement = (items.mapM Statement.ofValue) :=
      mapM_congr statement_eq _
    rw [Hook.ofValue, ← statements]
    rfl
  | _ => rfl

theorem importOf_eq (e : Value × Value) :
    importOf e.1 e.2 = (Definition.importOfEntry e) := by
  obtain ⟨source, keys⟩ := e
  cases keys with
  | list keys =>
    have read : keys.mapM key = (keys.mapM Key.ofValue) := mapM_congr key_eq _
    show (keys.mapM key >>= fun keys => .ok (source, some keys)) = _
    rw [read]
    rfl
  | text s =>
    by_cases all : s = "all"
    · rw [all]
      rfl
    · have other : Definition.importOfEntry (source, .text s) =
          refuse (.importedKeysNotAList source) := by
        unfold Definition.importOfEntry
        split
        · next isNothing => cases isNothing
        · next isAll => exact (all (Value.text.inj isAll)).elim
        · next isKeys => cases isKeys
        · rfl
      rw [other, importOf, isWord_eq_false all]
      rfl
  | _ => rfl

theorem imports_eq (v : Value) : imports v = (Definition.importsOfValue v) := by
  cases v with
  | map entries => exact mapM_congr importOf_eq _
  | _ => rfl

theorem baseOf_eq (v : Value) : baseOf v = (Definition.baseOfValue v) := by
  cases v <;> rfl

theorem parts_eq (name : String) (file : Path) (entries fields : List (Value × Value))
    (declarations : List Value) :
    parts name file (.map entries) (.map fields) (.list declarations) =
      (Definition.ofParts name file entries fields declarations) := by
  have statements : declarations.mapM statement = (declarations.mapM Statement.ofValue) :=
    mapM_congr statement_eq _
  unfold Definition.ofParts
  rw [← baseOf_eq, ← imports_eq, ← statements, ← hook_eq, ← hook_eq]
  rfl

/-- **Every step has a result.**  The steps read what the notation reads. -/
theorem unit_eq (name : String) (v : Value) (file : Path) :
    unit name v file = (Definition.ofValue name v file) := by
  have ofMap : ∀ entries, unit name (.map entries) file =
      (Definition.ofEntries name file entries) := by
    intro entries
    have start : unit name (.map entries) file =
        let fields := orElse (Value.field entries "fields") (.map [])
        let declarations := orElse (Value.field entries "declarations") (.list [])
        if !isMap fields then refuse (.fieldsNotAMap file.fileName name)
        else if !isList declarations then refuse (.declarationsNotAList file.fileName name)
        else Definition.located file.fileName name
          (parts name file (.map entries) fields declarations) := rfl
    rw [start, Definition.ofEntries]
    rcases orElse_map (Value.field entries "fields") with
      ⟨isMap, fields, fields_eq, optional⟩ | ⟨noMap, optional⟩
    · rcases orElse_list (Value.field entries "declarations") with
        ⟨isList, declarations, declarations_eq, optional'⟩ | ⟨noList, optional'⟩
      · rw [optional, optional']
        dsimp only
        rw [isMap, isList, fields_eq, declarations_eq, parts_eq]
        rfl
      · rw [optional, optional']
        dsimp only
        rw [isMap, noList]
        rfl
    · rw [optional]
      dsimp only
      rw [noMap]
      rfl
  cases v with
  | null => exact ofMap []
  | map entries => exact ofMap entries
  | _ => rfl

end Stepwise

/-! ## Entries -/

namespace Value

/-- A list of entries has a value at a text key, and no earlier entry has that key. -/
def EntryAt (entries : List (Value × Value)) (name : String) (v : Value) : Prop :=
  ∃ before after, entries = before ++ (.text name, v) :: after ∧ ∀ e ∈ before, e.1 ≠ .text name

/-- A list of entries has no entry at a text key. -/
def NoEntryAt (entries : List (Value × Value)) (name : String) : Prop :=
  ∀ e ∈ entries, e.1 ≠ .text name

/-- The value at a text key, or nothing if there is no such entry. -/
def EntryOrNull (entries : List (Value × Value)) (name : String) (v : Value) : Prop :=
  EntryAt entries name v ∨ NoEntryAt entries name ∧ v = .null

theorem beq_text_iff {v : Value} {s : String} : (v == .text s) = true ↔ v = .text s := by
  constructor
  · exact fun h => eq_text_of_alike (BEq.symm h)
  · rintro rfl
    exact BEq.rfl

theorem field?_eq_some_iff {entries : List (Value × Value)} {name : String} {v : Value} :
    field? entries name = some v ↔ EntryAt entries name v := by
  simp only [field?, Option.map_eq_some_iff, List.find?_eq_some_iff_append, beq_text_iff]
  constructor
  · rintro ⟨⟨_, _⟩, ⟨rfl, before, after, rfl, others⟩, rfl⟩
    refine ⟨before, after, rfl, fun e member same => ?_⟩
    simpa [beq_text_iff.2 same] using others e member
  · rintro ⟨before, after, rfl, others⟩
    refine ⟨_, ⟨rfl, before, after, rfl, fun e member => ?_⟩, rfl⟩
    rw [Bool.not_eq_true', Bool.eq_false_iff]
    exact fun same => others e member (beq_text_iff.1 same)

theorem field?_eq_none_iff {entries : List (Value × Value)} {name : String} :
    field? entries name = none ↔ NoEntryAt entries name := by
  simp only [field?, Option.map_eq_none_iff, List.find?_eq_none, beq_text_iff, NoEntryAt, ne_eq]

theorem field_eq_iff {entries : List (Value × Value)} {name : String} {v : Value} :
    field entries name = v ↔ EntryOrNull entries name v := by
  rw [EntryOrNull, ← field?_eq_some_iff, ← field?_eq_none_iff, field]
  cases field? entries name with
  | none => exact ⟨fun h => .inr ⟨rfl, h.symm⟩, fun h => h.elim nofun fun h => h.2.symm⟩
  | some w => exact ⟨fun h => .inl (congrArg some h), fun h => h.elim Option.some.inj nofun⟩

theorem EntryAt.part {entries : List (Value × Value)} {name : String} {v : Value}
    (h : EntryAt entries name v) : v ∈ (Value.map entries).parts := by
  obtain ⟨before, after, rfl, -⟩ := h
  exact List.mem_cons_of_mem _ (mem_entryParts.2 ⟨_, List.mem_append_right _ List.mem_cons_self,
    .inr v.self_mem_parts⟩)

end Value

/-! ## What was read -/

/-- A list of results is that of a list of elements, in order. -/
theorem mapM_eq_ok_iff {ε α β : Type} {f : α → Except ε β} {xs : List α} {ys : List β} :
    xs.mapM f = .ok ys ↔ List.Forall₂ (fun x y => f x = .ok y) xs ys := by
  constructor
  · exact forall₂_of_mapM_eq_ok
  · intro h
    induction h with
    | nil => rfl
    | cons head _ ih =>
      rw [List.mapM_cons, head, ih]
      rfl

/-- What is read item by item has the relation to the items that each result has to its item. -/
theorem mapM_eq_ok_iff_of_iff {ε α β : Type} {f : α → Except ε β} {R : α → β → Prop}
    (each : ∀ {x y}, f x = .ok y ↔ R x y) {xs : List α} {ys : List β} :
    xs.mapM f = .ok ys ↔ List.Forall₂ R xs ys := by
  have same : (fun x y => f x = .ok y) = R := by
    funext x y
    exact propext each
  rw [mapM_eq_ok_iff, same]

/-- A key was read from a list of a name and an arity. -/
inductive Key.Reads : Value → Key → Prop where
  /-- The arity is a number. -/
  | count (name : String) (n : Int) : Key.Reads (.list [.text name, .int n]) ⟨name, .count n⟩
  /-- The arity is a truth value. -/
  | flag (name : String) (b : Bool) : Key.Reads (.list [.text name, .bool b]) ⟨name, .flag b⟩

theorem Key.ofValue_eq_ok_iff {v : Value} {k : Key} : Key.ofValue v = .ok k ↔ Key.Reads v k := by
  constructor
  · intro h
    unfold Key.ofValue at h
    split at h
    · next name arity =>
      cases arity with
      | int n =>
        cases h
        exact .count name n
      | bool b =>
        cases h
        exact .flag name b
      | _ => cases h
    · cases h
  · rintro (_ | _) <;> rfl

/-- The declaration of a routine was read from its entries, each part from the entry of its name and
the parameters and guards in order. -/
structure Declaration.Reads (entries : List (Value × Value)) (d : Declaration) : Prop where
  /-- The name. -/
  name : Value.EntryAt entries "name" (.text d.name)
  /-- The parameters. -/
  params : ∃ v items, Value.EntryOrNull entries "params" v ∧ v.optionalList? = some items ∧
    List.Forall₂ (fun item param => Tree.ofPattern item = .ok param) items d.params
  /-- The body. -/
  body : ∃ v, Value.EntryAt entries "body" v ∧ Tree.ofExpression v = .ok d.body
  /-- The guards. -/
  guards : ∃ v items, Value.EntryOrNull entries "guards" v ∧ v.optionalList? = some items ∧
    List.Forall₂ (fun item guard => Tree.ofExpression item = .ok guard) items d.guards
  /-- Whether it is private. -/
  isPrivate : ∃ v, Value.EntryOrNull entries "private" v ∧ v.isTruthy = d.isPrivate
  /-- Whether it may be overridden. -/
  overridable : ∃ v, Value.EntryOrNull entries "overridable" v ∧ v.isTruthy = d.overridable

theorem Tree.nameOf_eq_ok_iff {role : TextRole} {v : Value} {s : String} :
    Tree.nameOf role v = .ok s ↔ v = .text s := by
  constructor
  · intro h
    cases v with
    | text s =>
      cases h
      rfl
    | _ => cases h
  · rintro rfl
    rfl

theorem Value.field_eq_text_iff {entries : List (Value × Value)} {name s : String} :
    field entries name = .text s ↔ EntryAt entries name (.text s) := by
  rw [field_eq_iff]
  exact ⟨fun h => h.elim id fun h => (nomatch h.2), .inl⟩

theorem Declaration.ofEntries_eq_ok_iff {entries : List (Value × Value)} {body : Value}
    {d : Declaration} (isBody : Value.EntryAt entries "body" body) :
    Declaration.ofEntries entries body = .ok d ↔ d.Reads entries := by
  have orNull := fun name => Value.field_eq_iff.1 (rfl : Value.field entries name = _)
  have only : ∀ {name v}, Value.EntryOrNull entries name v → Value.field entries name = v :=
    Value.field_eq_iff.2
  constructor
  · intro h
    unfold Declaration.ofEntries at h
    split at h
    · next params guards areParams areGuards =>
      obtain ⟨name, isName, h⟩ := exists_of_bind_eq_ok h
      obtain ⟨params', readParams, h⟩ := exists_of_bind_eq_ok h
      obtain ⟨body', readBody, h⟩ := exists_of_bind_eq_ok h
      obtain ⟨guards', readGuards, h⟩ := exists_of_bind_eq_ok h
      cases h
      exact {
        name := Value.field_eq_text_iff.1 (Tree.nameOf_eq_ok_iff.1 isName)
        params := ⟨_, _, orNull _, areParams, mapM_eq_ok_iff.1 readParams⟩
        body := ⟨_, isBody, readBody⟩
        guards := ⟨_, _, orNull _, areGuards, mapM_eq_ok_iff.1 readGuards⟩
        isPrivate := ⟨_, orNull _, rfl⟩
        overridable := ⟨_, orNull _, rfl⟩ }
    · cases h
  · intro h
    obtain ⟨v, params, isParams, areParams, readParams⟩ := h.params
    obtain ⟨w, guards, isGuards, areGuards, readGuards⟩ := h.guards
    obtain ⟨body', isBody', readBody⟩ := h.body
    obtain ⟨p, isP, isPrivate⟩ := h.isPrivate
    obtain ⟨o, isO, overridable⟩ := h.overridable
    cases (Value.field?_eq_some_iff.2 isBody).symm.trans (Value.field?_eq_some_iff.2 isBody')
    rw [Declaration.ofEntries, only isParams, only isGuards, only isP, only isO, areParams,
      areGuards]
    dsimp only
    rw [Value.field_eq_text_iff.2 h.name, mapM_eq_ok_iff.2 readParams, readBody,
      mapM_eq_ok_iff.2 readGuards, isPrivate, overridable]
    rfl

/-- A statement was read from a map: from its entry `grant`, or else from its entry `withhold`, or
else as a declaration. -/
inductive Statement.Reads : Value → Statement → Prop where
  /-- It grants permission to override. -/
  | grant {entries : List (Value × Value)} {v : Value} {k : Key}
      (entry : Value.EntryAt entries "grant" v) (key : Key.Reads v k) :
      Statement.Reads (.map entries) (.grant k)
  /-- It withholds a routine. -/
  | withhold {entries : List (Value × Value)} {v : Value} {k : Key}
      (noGrant : Value.NoEntryAt entries "grant") (entry : Value.EntryAt entries "withhold" v)
      (key : Key.Reads v k) : Statement.Reads (.map entries) (.withhold k)
  /-- It declares a routine. -/
  | define {entries : List (Value × Value)} {d : Declaration}
      (noGrant : Value.NoEntryAt entries "grant") (noWithhold : Value.NoEntryAt entries "withhold")
      (declaration : d.Reads entries) : Statement.Reads (.map entries) (.define d)

theorem Statement.ofValue_eq_ok_iff {v : Value} {s : Statement} :
    Statement.ofValue v = .ok s ↔ Statement.Reads v s := by
  constructor
  · intro h
    cases v with
    | map entries =>
      unfold Statement.ofValue at h
      dsimp only at h
      split at h
      · next v isGrant =>
        obtain ⟨k, isKey, h⟩ := exists_of_bind_eq_ok h
        cases h
        exact .grant (Value.field?_eq_some_iff.1 isGrant) (Key.ofValue_eq_ok_iff.1 isKey)
      · next v noGrant isWithhold =>
        obtain ⟨k, isKey, h⟩ := exists_of_bind_eq_ok h
        cases h
        exact .withhold (Value.field?_eq_none_iff.1 noGrant)
          (Value.field?_eq_some_iff.1 isWithhold) (Key.ofValue_eq_ok_iff.1 isKey)
      · cases h
      · next body noGrant noWithhold isBody =>
        obtain ⟨d, isDeclaration, h⟩ := exists_of_bind_eq_ok h
        cases h
        exact .define (Value.field?_eq_none_iff.1 noGrant) (Value.field?_eq_none_iff.1 noWithhold)
          ((Declaration.ofEntries_eq_ok_iff (Value.field?_eq_some_iff.1 isBody)).1 isDeclaration)
    | _ => cases h
  · rintro (@⟨entries, v, k, entry, key⟩ | @⟨entries, v, k, noGrant, entry, key⟩ |
      @⟨entries, d, noGrant, noWithhold, declaration⟩)
    · rw [Statement.ofValue, Value.field?_eq_some_iff.2 entry]
      dsimp only
      rw [Key.ofValue_eq_ok_iff.2 key]
      rfl
    · rw [Statement.ofValue, Value.field?_eq_none_iff.2 noGrant, Value.field?_eq_some_iff.2 entry]
      dsimp only
      rw [Key.ofValue_eq_ok_iff.2 key]
      rfl
    · obtain ⟨body, isBody, -⟩ := declaration.body
      rw [Statement.ofValue, Value.field?_eq_none_iff.2 noGrant,
        Value.field?_eq_none_iff.2 noWithhold, Value.field?_eq_some_iff.2 isBody]
      dsimp only
      rw [(Declaration.ofEntries_eq_ok_iff isBody).2 declaration]
      rfl

/-- A hook was read from a value: there is none, or each of its statements was read, in order. -/
inductive Hook.Reads : Value → Option Hook → Prop where
  /-- There is no hook. -/
  | none : Hook.Reads .null none
  /-- There is a list of statements. -/
  | some {items : List Value} {statements : Hook}
      (each : List.Forall₂ Statement.Reads items statements) :
      Hook.Reads (.list items) (some statements)

theorem Hook.ofValue_eq_ok_iff {v : Value} {hook : Option Hook} :
    Hook.ofValue v = .ok hook ↔ Hook.Reads v hook := by
  constructor
  · intro h
    cases v with
    | null =>
      cases h
      exact .none
    | list items =>
      obtain ⟨statements, each, rest⟩ := exists_of_bind_eq_ok h
      cases rest
      exact .some ((mapM_eq_ok_iff_of_iff Statement.ofValue_eq_ok_iff).1 each)
    | _ => cases h
  · rintro (_ | @⟨items, statements, each⟩)
    · rfl
    · rw [Hook.ofValue, (mapM_eq_ok_iff_of_iff Statement.ofValue_eq_ok_iff).2 each]
      rfl

namespace Definition

/-- What is imported was read from an entry: everything, or a list of keys. -/
inductive ImportReads : Value × Value → Value × Option (List Key) → Prop where
  /-- Nothing is said about the keys. -/
  | unsaid (source : Value) : ImportReads (source, .null) (source, none)
  /-- All keys. -/
  | all (source : Value) : ImportReads (source, .text "all") (source, none)
  /-- The keys of a list, in order. -/
  | keys (source : Value) {items : List Value} {keys : List Key}
      (each : List.Forall₂ Key.Reads items keys) :
      ImportReads (source, .list items) (source, some keys)

theorem importOfEntry_eq_ok_iff {entry : Value × Value} {i : Value × Option (List Key)} :
    importOfEntry entry = .ok i ↔ ImportReads entry i := by
  constructor
  · intro h
    obtain ⟨source, keys⟩ := entry
    unfold importOfEntry at h
    split at h
    · next isNull =>
      cases isNull
      cases h
      exact .unsaid source
    · next isAll =>
      cases isAll
      cases h
      exact .all source
    · next items isList =>
      cases isList
      obtain ⟨keys, each, h⟩ := exists_of_bind_eq_ok h
      cases h
      exact .keys source ((mapM_eq_ok_iff_of_iff Key.ofValue_eq_ok_iff).1 each)
    · cases h
  · rintro (source | source | @⟨source, items, keys, each⟩)
    · rfl
    · rfl
    · show (items.mapM Key.ofValue >>= fun keys => .ok (source, some keys)) = _
      rw [(mapM_eq_ok_iff_of_iff Key.ofValue_eq_ok_iff).2 each]
      rfl

/-- The imports were read from a value: there are none, or one for each entry, in order. -/
inductive ImportsRead : Value → List (Value × Option (List Key)) → Prop where
  /-- There are no imports. -/
  | none : ImportsRead .null []
  /-- There is a map of sources. -/
  | some {entries : List (Value × Value)} {imports : List (Value × Option (List Key))}
      (each : List.Forall₂ ImportReads entries imports) : ImportsRead (.map entries) imports

theorem importsOfValue_eq_ok_iff {v : Value} {imports : List (Value × Option (List Key))} :
    importsOfValue v = .ok imports ↔ ImportsRead v imports := by
  constructor
  · intro h
    cases v with
    | null =>
      cases h
      exact .none
    | map entries => exact .some ((mapM_eq_ok_iff_of_iff importOfEntry_eq_ok_iff).1 h)
    | _ => cases h
  · rintro (_ | each)
    · rfl
    · exact (mapM_eq_ok_iff_of_iff importOfEntry_eq_ok_iff).2 each

/-- The base was read from a value: there is none, or it is named by a text. -/
inductive BaseReads : Value → Option String → Prop where
  /-- There is no base. -/
  | none : BaseReads .null none
  /-- There is a base. -/
  | some (name : String) : BaseReads (.text name) (some name)

theorem baseOfValue_eq_ok_iff {v : Value} {base : Option String} :
    baseOfValue v = .ok base ↔ BaseReads v base := by
  constructor
  · intro h
    cases v with
    | null =>
      cases h
      exact .none
    | text name =>
      cases h
      exact .some name
    | _ => cases h
  · rintro (_ | _) <;> rfl

/-- **A unit was read from entries.**  Each part was read from the entry of its name, and the
statements and hooks were read item by item, in order. -/
structure Reads (d : Definition) (name : String) (file : Path) (entries : List (Value × Value)) :
    Prop where
  /-- It has the name that was given. -/
  name : d.name = name
  /-- It has the file that was given. -/
  file : d.file = file
  /-- Its base. -/
  base : ∃ v, Value.EntryOrNull entries "base" v ∧ BaseReads v d.base
  /-- Its fields. -/
  fields : ∃ v, Value.EntryOrNull entries "fields" v ∧ v.optionalMap? = some d.fields
  /-- Its imports. -/
  imports : ∃ v, Value.EntryOrNull entries "imports" v ∧ ImportsRead v d.imports
  /-- Its statements. -/
  statements : ∃ v items, Value.EntryOrNull entries "declarations" v ∧
    v.optionalList? = some items ∧ List.Forall₂ Statement.Reads items d.statements
  /-- Its first hook. -/
  preHook : ∃ v, Value.EntryOrNull entries "pre_hook" v ∧ Hook.Reads v d.preHook
  /-- Its second hook. -/
  postHook : ∃ v, Value.EntryOrNull entries "post_hook" v ∧ Hook.Reads v d.postHook

/-- The entries of a unit: nothing at all stands for none. -/
def entries? : Value → Option (List (Value × Value))
  | .null => some []
  | .map entries => some entries
  | _ => none

theorem located_eq_ok_iff {α : Type} {file unit : String} {r : Except Error α} {a : α} :
    located file unit r = .ok a ↔ r = .ok a := by
  unfold located
  split
  · exact ⟨nofun, nofun⟩
  · exact Iff.rfl

theorem ofEntries_eq_ok_iff {name : String} {file : Path} {entries : List (Value × Value)}
    {d : Definition} : ofEntries name file entries = .ok d ↔ d.Reads name file entries := by
  have orNull := fun name => Value.field_eq_iff.1 (rfl : Value.field entries name = _)
  have only : ∀ {name v}, Value.EntryOrNull entries name v → Value.field entries name = v :=
    Value.field_eq_iff.2
  constructor
  · intro h
    unfold ofEntries at h
    split at h
    · cases h
    · cases h
    · next fields declarations areFields areDeclarations =>
      rw [located_eq_ok_iff] at h
      obtain ⟨base, isBase, h⟩ := exists_of_bind_eq_ok h
      obtain ⟨imports, areImports, h⟩ := exists_of_bind_eq_ok h
      obtain ⟨statements, each, h⟩ := exists_of_bind_eq_ok h
      obtain ⟨pre, isPre, h⟩ := exists_of_bind_eq_ok h
      obtain ⟨post, isPost, h⟩ := exists_of_bind_eq_ok h
      cases h
      exact {
        name := rfl
        file := rfl
        base := ⟨_, orNull _, baseOfValue_eq_ok_iff.1 isBase⟩
        fields := ⟨_, orNull _, areFields⟩
        imports := ⟨_, orNull _, importsOfValue_eq_ok_iff.1 areImports⟩
        statements := ⟨_, _, orNull _, areDeclarations,
          (mapM_eq_ok_iff_of_iff Statement.ofValue_eq_ok_iff).1 each⟩
        preHook := ⟨_, orNull _, Hook.ofValue_eq_ok_iff.1 isPre⟩
        postHook := ⟨_, orNull _, Hook.ofValue_eq_ok_iff.1 isPost⟩ }
  · intro h
    obtain ⟨base, atBase, isBase⟩ := h.base
    obtain ⟨fields, atFields, areFields⟩ := h.fields
    obtain ⟨imports, atImports, areImports⟩ := h.imports
    obtain ⟨declarations, items, atDeclarations, areDeclarations, each⟩ := h.statements
    obtain ⟨pre, atPre, isPre⟩ := h.preHook
    obtain ⟨post, atPost, isPost⟩ := h.postHook
    have parts : ofParts name file entries d.fields items = .ok d := by
      rw [ofParts, only atBase, only atImports, only atPre, only atPost,
        baseOfValue_eq_ok_iff.2 isBase, importsOfValue_eq_ok_iff.2 areImports,
        (mapM_eq_ok_iff_of_iff Statement.ofValue_eq_ok_iff).2 each,
        Hook.ofValue_eq_ok_iff.2 isPre, Hook.ofValue_eq_ok_iff.2 isPost, ← h.name, ← h.file]
      rfl
    rw [ofEntries, only atFields, only atDeclarations, areFields, areDeclarations]
    exact located_eq_ok_iff.2 parts

/-- A unit is read from a value exactly if it is read from its entries. -/
theorem ofValue_eq_ok_iff {name : String} {v : Value} {file : Path} {d : Definition} :
    ofValue name v file = .ok d ↔ ∃ entries, entries? v = some entries ∧
      d.Reads name file entries := by
  have one : ∀ entries, entries? v = some entries →
      (ofEntries name file entries = .ok d ↔
        ∃ entries, entries? v = some entries ∧ d.Reads name file entries) := by
    intro entries isEntries
    rw [ofEntries_eq_ok_iff, isEntries]
    simp
  cases v with
  | null => exact one [] rfl
  | map entries => exact one entries rfl
  | _ =>
    constructor
    · intro h
      cases h
    · rintro ⟨entries, isEntries, -⟩
      cases isEntries

end Definition

/-! ## What is wrong -/

/-- What is wrong with the value at a text key, or with its absence, is wrong with the map. -/
theorem FailsFrom.of_field {α : Type} {entries : List (Value × Value)} {name : String}
    {r : Except Error α} (h : FailsFrom (Value.field entries name) r) :
    FailsFrom (.map entries) r := by
  rcases Value.field_eq_iff.1 (rfl : Value.field entries name = _) with isEntry | ⟨-, isNull⟩
  · exact h.of_part isEntry.part
  · rw [isNull] at h
    exact h.of_null

theorem Value.mem_parts_of_optionalList? {v item : Value} {items : List Value}
    (h : v.optionalList? = some items) (member : item ∈ items) : item ∈ v.parts := by
  unfold optionalList? at h
  split at h
  · split at h
    · cases h
      exact item_mem_parts member
    · cases h
  · cases h
    cases member

/-- What is wrong with an item of an optional list is wrong with the map that has the list. -/
theorem FailsFrom.of_item {α : Type} {entries : List (Value × Value)} {name : String}
    {items : List Value} (areItems : (Value.field entries name).optionalList? = some items)
    {item : Value} (member : item ∈ items) {r : Except Error α} (h : FailsFrom item r) :
    FailsFrom (.map entries) r :=
  .of_field (h.of_part (Value.mem_parts_of_optionalList? areItems member))

theorem Key.failsFrom_ofValue (v : Value) : FailsFrom v (Key.ofValue v) := by
  unfold Key.ofValue
  split
  · split
    · exact .ok _
    · exact .refuse_one rfl (Value.self_mem_parts _)
  · exact .refuse_one rfl (Value.self_mem_parts _)

theorem Declaration.failsFrom_ofEntries {entries : List (Value × Value)} {body : Value}
    (isBody : Value.field? entries "body" = some body) :
    FailsFrom (.map entries) (Declaration.ofEntries entries body) := by
  unfold Declaration.ofEntries
  split
  · next params guards areParams areGuards =>
    have bodyPart := (Value.field?_eq_some_iff.1 isBody).part
    have paramsFail : FailsFrom (.map entries) (params.mapM Tree.ofPattern) :=
      .mapM fun v member => .of_item areParams member (Tree.failsFrom_ofPattern v)
    have guardsFail : FailsFrom (.map entries) (guards.mapM Tree.ofExpression) :=
      .mapM fun v member => .of_item areGuards member (Tree.failsFrom_ofExpression v)
    exact .bind (.of_field (Tree.failsFrom_nameOf _ (Value.self_mem_parts _))) fun _ _ =>
      .bind paramsFail fun _ _ =>
        .bind ((Tree.failsFrom_ofExpression body).of_part bodyPart) fun _ _ =>
          .bind guardsFail fun _ _ => .ok _
  · exact .refuse_one rfl (Value.self_mem_parts _)

theorem Statement.failsFrom_ofValue (v : Value) : FailsFrom v (Statement.ofValue v) := by
  cases v with
  | map entries =>
    unfold Statement.ofValue
    dsimp only
    split
    · next v isGrant =>
      have part := (Value.field?_eq_some_iff.1 isGrant).part
      exact .bind ((Key.failsFrom_ofValue v).of_part part) fun _ _ => .ok _
    · next v _ isWithhold =>
      have part := (Value.field?_eq_some_iff.1 isWithhold).part
      exact .bind ((Key.failsFrom_ofValue v).of_part part) fun _ _ => .ok _
    · exact .refuse_one rfl (Value.self_mem_parts _)
    · next body _ _ isBody => exact .bind (Declaration.failsFrom_ofEntries isBody) fun _ _ => .ok _
  | _ => exact .refuse_none rfl

theorem Hook.failsFrom_ofValue (v : Value) : FailsFrom v (Hook.ofValue v) := by
  cases v with
  | null => exact .ok _
  | list items =>
    exact .bind (.mapM fun v member =>
      (Statement.failsFrom_ofValue v).of_part (Value.item_mem_parts member)) fun _ _ => .ok _
  | _ => exact .refuse_one rfl (Value.self_mem_parts _)

namespace Definition

theorem failsFrom_importsOfValue (v : Value) : FailsFrom v (importsOfValue v) := by
  cases v with
  | null => exact .ok _
  | map entries =>
    refine .mapM fun entry member => ?_
    have sourcePart : entry.1 ∈ (Value.map entries).parts := List.mem_cons_of_mem _
      (Value.mem_entryParts.2 ⟨entry, member, .inl entry.1.self_mem_parts⟩)
    have keysPart : entry.2 ∈ (Value.map entries).parts := List.mem_cons_of_mem _
      (Value.mem_entryParts.2 ⟨entry, member, .inr entry.2.self_mem_parts⟩)
    unfold importOfEntry
    split
    · exact .ok _
    · exact .ok _
    · next keys isList =>
      rw [isList] at keysPart
      refine .bind (.mapM fun k listed => ?_) fun _ _ => .ok _
      exact ((Key.failsFrom_ofValue k).of_part (Value.item_mem_parts listed)).of_part keysPart
    · exact .refuse_one rfl sourcePart
  | _ => exact .refuse_none rfl

theorem failsFrom_baseOfValue (v : Value) : FailsFrom v (baseOfValue v) := by
  have named : FailsFrom v (Tree.nameOf .baseName v >>= fun name => .ok (some name)) :=
    .bind (Tree.failsFrom_nameOf _ v.self_mem_parts) fun _ _ => .ok _
  cases v with
  | null => exact .ok _
  | _ => exact named

theorem failsFrom_located {α : Type} {v : Value} {r : Except Error α} (h : FailsFrom v r)
    (file unit : String) : FailsFrom v (located file unit r) := by
  unfold located
  split
  · next cause =>
    cases h _ rfl with
    | form cause about => exact .refuse about
  · exact h

theorem failsFrom_ofEntries (name : String) (file : Path) (entries : List (Value × Value)) :
    FailsFrom (.map entries) (ofEntries name file entries) := by
  unfold ofEntries
  split
  · exact .refuse_none rfl
  · exact .refuse_none rfl
  · next fields declarations areFields areDeclarations =>
    refine failsFrom_located ?_ _ _
    exact .bind (.of_field (failsFrom_baseOfValue _)) fun _ _ =>
      .bind (.of_field (failsFrom_importsOfValue _)) fun _ _ =>
        .bind (.mapM fun v member =>
            .of_item areDeclarations member (Statement.failsFrom_ofValue v)) fun _ _ =>
          .bind (.of_field (Hook.failsFrom_ofValue _)) fun _ _ =>
            .bind (.of_field (Hook.failsFrom_ofValue _)) fun _ _ => .ok _

/-- Reading a unit fails only for what is wrong with its value. -/
theorem failsFrom_ofValue (name : String) (v : Value) (file : Path) :
    FailsFrom v (ofValue name v file) := by
  cases v with
  | null => exact .ok _
  | map entries => exact failsFrom_ofEntries name file entries
  | _ => exact .refuse_none rfl

end Definition

/-! ## Where it is wrong -/

/-- An error that tells the file and the unit in which something is wrong. -/
inductive DefinitionError.Locates (file unit : String) : DefinitionError → Prop where
  /-- The unit itself. -/
  | unit (kind : Kind) : Locates file unit (.unitNotAMap file unit kind)
  /-- Its fields. -/
  | fields : Locates file unit (.fieldsNotAMap file unit)
  /-- Its declarations. -/
  | declarations : Locates file unit (.declarationsNotAList file unit)
  /-- Something inside of it. -/
  | inside (cause : DefinitionError) : Locates file unit (.inUnit file unit cause)

/-- The message starts with the name of the file and contains the quoted name of the unit. -/
theorem DefinitionError.Locates.message_eq {file unit : String} {cause : DefinitionError}
    (h : cause.Locates file unit) {message : String} (written : cause.message = .ok message) :
    ∃ between rest, message = file ++ (between ++ (Text.quote unit ++ rest)) := by
  -- All four messages are made in the same way.
  have placed : ∀ between rest, file ++ between ++ Text.quote unit ++ rest =
      file ++ (between ++ (Text.quote unit ++ rest)) := by
    intro between rest
    rw [String.append_assoc, String.append_assoc]
  cases h with
  | unit kind =>
    cases written
    exact ⟨_, _, String.append_assoc.trans (placed ": unit " (" must be a mapping, got " ++ _))⟩
  | fields =>
    cases written
    exact ⟨_, _, placed ": fields of " " must be a mapping"⟩
  | declarations =>
    cases written
    exact ⟨_, _, placed ": declarations of " " must be a list"⟩
  | inside inner =>
    obtain ⟨text, -, written⟩ := exists_of_bind_eq_ok written
    cases written
    exact ⟨_, _, String.append_assoc.trans (placed ": unit " (": " ++ text))⟩

namespace Definition

/-- What is wrong with a unit is reported with the file and the name of the unit. -/
theorem locates_of_ofValue_eq_error {name : String} {v : Value} {file : Path}
    {cause : DefinitionError} (h : ofValue name v file = .error (.definition cause)) :
    cause.Locates file.fileName name := by
  have ofEntries_locates : ∀ entries, ofEntries name file entries = .error (.definition cause) →
      cause.Locates file.fileName name := by
    intro entries h
    unfold ofEntries at h
    split at h
    · cases h
      exact .fields
    · cases h
      exact .declarations
    · unfold located at h
      split at h
      · cases h
        exact .inside _
      · next other => exact (other cause h).elim
  cases v with
  | null => exact ofEntries_locates [] h
  | map entries => exact ofEntries_locates entries h
  | _ =>
    cases h
    exact .unit _

/-- **Adding the place** before the text of an error is written comes to the same as adding it to
what is seen. -/
theorem seen_located {α : Type} (file unit : String) (r : Except Error α) :
    seen (located file unit (seen r)) = seen (located file unit r) := by
  cases r with
  | ok a => rfl
  | error e =>
    rcases e.raised_cases with ⟨-, same⟩ | ⟨-, unshown⟩
    · have unchanged : seen (.error e : Except Error α) = .error e := congrArg Except.error same
      rw [unchanged]
    · have hidden : seen (.error e : Except Error α) = .error .unshown :=
        congrArg Except.error unshown
      rw [hidden]
      cases e with
      | definition cause =>
        have long : ¬cause.IsShort := fun short => by
          have shown : (Error.definition cause).raised = .definition cause :=
            Error.raised_eq_definition_iff.2 ⟨rfl, short⟩
          cases shown.symm.trans unshown
        have located : (Error.definition (.inUnit file unit cause)).raised = .unshown :=
          Error.raised_of_long long
        exact congrArg Except.error located.symm
      | _ => exact hidden.symm

/-- **A unit is read as a whole, or its place is reported.**  Whatever the value, no step is taken
where it has no result.  The definitions that are returned are those whose declarations, imports
and statements of hooks have been read from their entries, in order.  A definition, or an error
about one, is seen exactly if the first thing that is found to be wrong, if there is one, has a text
that can be written; that text starts with the name of the file and contains the quoted name of the
unit.  The only other errors that are seen are about a text that would show an integer with too many
digits, and about a date or a time. -/
theorem read_or_reported (name : String) (v : Value) (file : Path) :
    Stepwise.unit name v file = ofValue name v file ∧
    (∀ d, parse name v file = .ok d ↔
      ∃ entries, entries? v = some entries ∧ d.Reads name file entries) ∧
    (((∃ d, parse name v file = .ok d) ∨
        ∃ cause, parse name v file = .error (.definition cause)) ↔
      ∀ e, ofValue name v file = .error e → ∃ cause, e = .definition cause ∧ cause.IsShort) ∧
    (∀ cause, parse name v file = .error (.definition cause) →
      ∃ message between rest, cause.message = .ok message ∧
        message = file.fileName ++ (between ++ (Text.quote name ++ rest))) ∧
    (∀ e, parse name v file = .error e → (∃ cause, e = .definition cause ∧ cause.About v) ∨
      e = .unshown ∧ v.HoldsLong ∨ e = .fault .unsupported ∧ v.HoldsMoment) := by
  refine ⟨Stepwise.unit_eq name v file, fun d => seen_eq_ok_iff.trans ofValue_eq_ok_iff,
    seen_documented_iff, fun cause failed => ?_,
    fun e => (failsFrom_ofValue name v file).seen_cases⟩
  obtain ⟨found, isFound, raised⟩ := seen_eq_error_iff.1 failed
  obtain ⟨rfl, short⟩ := Error.raised_eq_definition_iff.1 raised
  obtain ⟨message, written⟩ := cause.message_eq_ok_iff.2 short
  obtain ⟨between, rest, isMessage⟩ := (locates_of_ofValue_eq_error isFound).message_eq written
  exact ⟨message, between, rest, written, isMessage⟩

/-- A unit with a routine, a permission and a hook. -/
def layeredUnit : Value :=
  .map [
    (.text "declarations", .list [
      .map [(.text "body", .text "x"), (.text "params", .list [.text "x"]),
        (.text "name", .text "f")],
      .map [(.text "grant", .list [.text "f", .int 1])]]),
    (.text "pre_hook", .list [.map [(.text "withhold", .list [.text "g", .bool true])]])]

/-- What its routine is read as. -/
def layeredRoutine : Declaration where
  name := "f"
  params := [.binding "x"]
  body := .var "x"
  guards := []
  isPrivate := false
  overridable := false

theorem read_or_reported_layered :
    ∃ d entries, parse "A" layeredUnit ["a.unit.json"] = .ok d ∧
      entries? layeredUnit = some entries ∧ d.Reads "A" ["a.unit.json"] entries ∧
      d.statements = [.define layeredRoutine, .grant ⟨"f", .count 1⟩] ∧
      d.preHook = some [.withhold ⟨"g", .flag true⟩] ∧ d.postHook = none := by
  have done : parse "A" layeredUnit ["a.unit.json"] = .ok {
      name := "A"
      base := none
      fields := []
      imports := []
      statements := [.define layeredRoutine, .grant ⟨"f", .count 1⟩]
      preHook := some [.withhold ⟨"g", .flag true⟩]
      postHook := none
      file := ["a.unit.json"] } := rfl
  obtain ⟨-, returned, -⟩ := read_or_reported "A" layeredUnit ["a.unit.json"]
  obtain ⟨entries, isEntries, reads⟩ := (returned _).1 done
  exact ⟨_, entries, done, isEntries, reads, rfl, rfl, rfl⟩

/-- A unit whose base is an integer with one digit more than are written. -/
def longBase : Value := .map [(.text "base", .int (Int.ofNat (Nat.pow 10 Numeral.digitLimit)))]

/-- **A unit that is not reported.**  Its base is no text, but the error that is seen is about the
text in which the base would be shown, and tells neither the file nor the unit. -/
theorem longBase_not_reported :
    parse "A" longBase ["a.unit.toml"] = .error .unshown ∧
      ¬((∃ d, parse "A" longBase ["a.unit.toml"] = .ok d) ∨
        ∃ cause, parse "A" longBase ["a.unit.toml"] = .error (.definition cause)) := by
  have found : ofValue "A" longBase ["a.unit.toml"] = .error (.definition (.inUnit "a.unit.toml" "A"
      (.notText .baseName (.int (Int.ofNat (Nat.pow 10 Numeral.digitLimit)))))) := rfl
  have long : (Value.int (Int.ofNat (Nat.pow 10 Numeral.digitLimit))).HoldsLong :=
    Value.holdsLong_int.2 (by decide +kernel)
  have failed : parse "A" longBase ["a.unit.toml"] = .error .unshown :=
    seen_eq_error_iff.2 ⟨_, found, Error.raised_of_long fun short =>
      short _ (List.mem_singleton_self _) long⟩
  refine ⟨failed, ?_⟩
  rw [failed]
  rintro (⟨d, done⟩ | ⟨cause, same⟩)
  · cases done
  · cases same

end Definition

end Heredity
