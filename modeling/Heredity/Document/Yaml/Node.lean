import Heredity.Document.Yaml.Layout
import Heredity.Document.Yaml.Tag
import Heredity.Table

/-!
# Nodes of YAML

A document is one tree of nodes, which its tokens write down.

* `Node` is a scalar, a sequence or a mapping, each with its tag.  Repeated keys and keys that are
  merged are still there.
* `Assemble.node` takes the tokens of a node.  An anchor gives the node that follows a name, and an
  alias with that name stands for the same node; an alias inside its own anchor is refused.
* Nodes may be missing where the structure shows it, for example behind the colon of a key; they are
  empty then.
* `Node.ofText` is the node of a text, which must not have more than one document.
-/

namespace Heredity.Document.Yaml

/-- A node of a document. -/
inductive Node where
  /-- A text that stands for a value of its tag. -/
  | scalar (tag : Tag) (text : String)
  /-- A sequence of nodes. -/
  | sequence (tag : Tag) (items : List Node)
  /-- Keys with values. -/
  | mapping (tag : Tag) (entries : List (Node × Node))

/-- The node that stands where one is missing. -/
def Node.empty : Node := .scalar .null ""

/-- Where a node stands, which decides how it may be written. -/
inductive Place where
  /-- In a flow collection. -/
  | flow
  /-- In a block. -/
  | block
  /-- In a mapping of a block, where a sequence need not be indented. -/
  | entry
deriving DecidableEq

/-- The tokens of a text from some place on, and what the tokens before it say about names. -/
structure Assembly where
  /-- The tokens that are left. -/
  tokens : List Token
  /-- The anchors with their nodes; a node that is still being read is missing. -/
  anchors : Table String (Option Node) := ∅
  /-- What the handles of tags stand for. -/
  handles : Table String String := ∅

/-- Takes tokens and puts nodes together. -/
abbrev Assemble := StateT Assembly (Except Failure)

namespace Assemble

/-- The tokens do not fit together here. -/
def fail {α : Type} : Assemble α := throw .malformed

/-- The next token, which stays. -/
def peek : Assemble (Option Token) := do return (← get).tokens.head?

/-- Takes the next token. -/
def skip : Assemble Unit := modify fun s => { s with tokens := s.tokens.drop 1 }

/-- Takes a token if it is next, and says whether it is. -/
def accept (t : Token) : Assemble Bool := do
  if (← peek) = some t then
    skip
    return true
  else return false

/-- Takes a token that must be next. -/
def expect (t : Token) : Assemble Unit := do
  if ← accept t then return else fail

/-- Repeats a step until it gives nothing, at most `n` times. -/
def repeatUpTo {α : Type} (step : Assemble (Option α)) : Nat → Assemble (List α)
  | 0 => fail
  | n + 1 => do
    match ← step with
    | none => return []
    | some a => return a :: (← repeatUpTo step n)

/-- Repeats a step until it gives nothing.  Every other repetition must take a token. -/
def repeatedly {α : Type} (step : Assemble (Option α)) : Assemble (List α) := do
  repeatUpTo step ((← get).tokens.length + 1)

/-- A node, which is missing in front of some tokens. -/
def unlessNext (stops : List Token) (node : Assemble Node) : Assemble Node := do
  if (← peek).any stops.contains then return .empty else node

/-! ### Collections -/

/-- The items of a sequence in a block. -/
def blockItems (node : Place → Assemble Node) : Assemble (List Node) :=
  repeatedly do
    if ← accept .blockEntry then
      return some (← unlessNext [.blockEntry, .blockEnd] (node .block))
    else
      expect .blockEnd
      return none

/-- The items of a sequence that is not indented. -/
def entryItems (node : Place → Assemble Node) : Assemble (List Node) :=
  repeatedly do
    if ← accept .blockEntry then
      return some (← unlessNext [.blockEntry, .key, .value, .blockEnd] (node .block))
    else return none

/-- The entries of a mapping in a block. -/
def blockEntries (node : Place → Assemble Node) : Assemble (List (Node × Node)) :=
  repeatedly do
    if ← accept .key then
      let key ← unlessNext [.key, .value, .blockEnd] (node .entry)
      if ← accept .value then
        return some (key, ← unlessNext [.key, .value, .blockEnd] (node .entry))
      else return some (key, .empty)
    else
      expect .blockEnd
      return none

/-- Takes the comma in front of an item of a flow collection, which only the first item has not.
Gives nothing at the end of the collection. -/
def separator (isFirst : Bool) (ending : Token) : Assemble (Option Unit) := do
  if ← accept ending then return none
  if isFirst then return some ()
  expect .flowEntry
  if ← accept ending then return none
  return some ()

/-- The elements of a flow collection; a step reads one of them. -/
def flowElements {α : Type} (ending : Token) (step : Assemble α) : Assemble (List α) := do
  match ← separator true ending with
  | none => return []
  | some _ =>
    let first ← step
    let rest ← repeatedly do
      match ← separator false ending with
      | none => return none
      | some _ => return some (← step)
    return first :: rest

/-- A key behind its mark and its value in a flow collection. -/
def flowEntry (node : Place → Assemble Node) (ending : Token) : Assemble (Node × Node) := do
  let key ← unlessNext [.value, .flowEntry, ending] (node .flow)
  if ← accept .value then
    return (key, ← unlessNext [.flowEntry, ending] (node .flow))
  else return (key, .empty)

/-- The items of a sequence between brackets; an entry is a mapping of its own. -/
def flowItems (node : Place → Assemble Node) : Assemble (List Node) :=
  flowElements .flowSequenceEnd do
    if ← accept .key then
      return .mapping .map [← flowEntry node .flowSequenceEnd]
    else node .flow

/-- The entries of a mapping between braces. -/
def flowEntries (node : Place → Assemble Node) : Assemble (List (Node × Node)) :=
  flowElements .flowMappingEnd do
    if ← accept .key then flowEntry node .flowMappingEnd
    else return (← node .flow, .empty)

/-! ### Nodes -/

/-- The name of a tag. -/
def tagName (handle : Option String) (suffix : String) : Assemble String := do
  match handle with
  | none => return suffix
  | some handle =>
    match (← get).handles.get? handle with
    | none => fail
    | some expansion => return expansion ++ suffix

/-- Takes an anchor if one is next. -/
def anchor? : Assemble (Option String) := do
  match ← peek with
  | some (.anchor name) =>
    skip
    return some name
  | _ => return none

/-- Takes a tag if one is next. -/
def tag? : Assemble (Option String) := do
  match ← peek with
  | some (.tag handle suffix) =>
    skip
    return some (← tagName handle suffix)
  | _ => return none

/-- Takes the anchor and the tag of a node, which may stand in either order. -/
def properties : Assemble (Option String × Option String) := do
  match ← anchor? with
  | some anchor => return (some anchor, ← tag?)
  | none =>
    match ← tag? with
    | some tag => return (← anchor?, some tag)
    | none => return (none, none)

/-- The tag that says nothing. -/
def nonSpecific : String := "!"

/-- The tag of a scalar with the tag that is written in front of it. -/
def scalarTag (tag : Option String) (isPlain : Bool) (text : String) : Tag :=
  match tag with
  | some name => if name = nonSpecific then .ofPlain text else .ofName name
  | none => if isPlain then .ofPlain text else .text

/-- The tag of a collection with the tag that is written in front of it. -/
def collectionTag (tag : Option String) (usual : Tag) : Tag :=
  match tag with
  | some name => if name = nonSpecific then usual else .ofName name
  | none => usual

/-- Takes what follows the properties of a node. -/
def content (node : Place → Assemble Node) (place : Place) (isMarked : Bool) (tag : Option String) :
    Assemble Node := do
  let sequence (items : Assemble (List Node)) : Assemble Node := do
    return .sequence (collectionTag tag .list) (← items)
  let mapping (entries : Assemble (List (Node × Node))) : Assemble Node := do
    return .mapping (collectionTag tag .map) (← entries)
  match ← peek, place with
  | some .blockEntry, .entry => sequence (entryItems node)
  | some (.scalar isPlain text), _ =>
    skip
    return .scalar (scalarTag tag isPlain text) text
  | some .flowSequenceStart, _ =>
    skip
    sequence (flowItems node)
  | some .flowMappingStart, _ =>
    skip
    mapping (flowEntries node)
  | some .blockSequenceStart, .block | some .blockSequenceStart, .entry =>
    skip
    sequence (blockItems node)
  | some .blockMappingStart, .block | some .blockMappingStart, .entry =>
    skip
    mapping (blockEntries node)
  | _, _ => if isMarked then return .scalar (scalarTag tag true "") "" else fail

/-- The node of an anchor. -/
def aliased (name : String) : Assemble Node := do
  match (← get).anchors.get? name with
  | some (some node) => return node
  | _ => fail

/-- Gives a node its name, which no other node has. -/
def anchored (anchor : Option String) (node : Assemble Node) : Assemble Node := do
  match anchor with
  | none => node
  | some name =>
    if (← get).anchors.contains name then fail
    modify fun s => { s with anchors := s.anchors.insert name none }
    let node ← node
    modify fun s => { s with anchors := s.anchors.insert name (some node) }
    return node

/-- A node that is nested less than `n` levels deep. -/
def node : Nat → Place → Assemble Node
  | 0, _ => fail
  | n + 1, place => do
    match ← peek with
    | some (.alias name) =>
      skip
      aliased name
    | _ =>
      let (anchor, tag) ← properties
      anchored anchor (content (node n) place (anchor.isSome || tag.isSome) tag)

/-! ### Documents -/

/-- The handles that need no directive. -/
def usualHandles : List (String × String) := [("!", "!"), ("!!", Tag.standard)]

/-- Takes the directives in front of a document.  Neither the version nor a handle may be given
twice, and only the first version is known. -/
def directives (isVersioned : Bool) : Nat → Assemble Unit
  | 0 => fail
  | n + 1 => do
    match ← peek with
    | some (.directive (.version major)) =>
      skip
      if isVersioned || major ≠ 1 then fail
      directives true n
    | some (.directive (.handle name expansion)) =>
      skip
      if (← get).handles.contains name then fail
      modify fun s => { s with handles := s.handles.insert name expansion }
      directives isVersioned n
    | some (.directive .reserved) =>
      skip
      directives isVersioned n
    | _ => return

/-- Adds the usual handles to those that directives gave. -/
def addUsualHandles : Assemble Unit :=
  modify fun s =>
    { s with
      handles := (usualHandles.filter fun h => !s.handles.contains h.1).foldl
        (fun t h => t.insert h.1 h.2) s.handles }

/-- Takes a document.  Without directives, its mark may be missing; then it must not be empty. -/
def document : Assemble Node := do
  let bound := (← get).tokens.length + 1
  match ← peek with
  | some (.directive _) | some .documentStart =>
    directives false bound
    addUsualHandles
    expect .documentStart
    match ← peek with
    | some (.directive _) => return .empty
    | _ => unlessNext [.documentStart, .documentEnd, .streamEnd] (node bound .block)
  | _ =>
    addUsualHandles
    node bound .block

/-- Takes a text, which has at most one document. -/
def single : Assemble (Option Node) := do
  if ← accept .streamEnd then return none
  let node ← document
  let _ ← repeatedly do return if ← accept .documentEnd then some () else none
  expect .streamEnd
  return some node

end Assemble

/-- The node of a text, if there is a document in it. -/
def Node.ofText (text : List Char) : Except Failure (Option Node) := do
  let tokens ← Token.ofText text
  let (node, _) ← Assemble.single { tokens := tokens }
  return node

end Heredity.Document.Yaml
