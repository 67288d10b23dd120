import Heredity.Document.Yaml.Cursor

/-!
# Tokens of YAML

A YAML text is first cut into tokens.  Collections that are marked by indentation alone have tokens
for their beginning and their end like those that are written with brackets, so the tokens are a
text without columns.

Besides scalars, the tokens with contents are the names of anchors, tags, and directives; how these
are written is the subject of the second part.
-/

namespace Heredity.Document.Yaml

/-- A line in front of a document that says how to read it. -/
inductive Directive where
  /-- The version that the document is written in. -/
  | version (major : Nat)
  /-- What a handle at the beginning of tags stands for. -/
  | handle (name expansion : String)
  /-- Anything else, which has no meaning. -/
  | reserved
deriving DecidableEq

/-- A token. -/
inductive Token where
  | directive (d : Directive)
  | documentStart
  | documentEnd
  | streamEnd
  | blockSequenceStart
  | blockMappingStart
  | blockEnd
  | flowSequenceStart
  | flowSequenceEnd
  | flowMappingStart
  | flowMappingEnd
  | blockEntry
  | flowEntry
  | key
  | value
  | alias (name : String)
  | anchor (name : String)
  /-- A tag: a handle, unless it is written out in full, and what follows it. -/
  | tag (handle : Option String) (suffix : String)
  /-- A scalar; plain ones may stand for other things than text. -/
  | scalar (isPlain : Bool) (text : String)
deriving DecidableEq

open Scan

/-! ### Names -/

/-- Takes a name, which has at least one character. -/
def name : Scan String := do
  match ← takeWhile isNameCharacter with
  | [] => fail
  | cs => return String.ofList cs

/-- Whether the name of an anchor may end in front of a character. -/
def endsAnchor (following : Option Char) : Bool :=
  isBlankOrEnd following ||
    following.any fun c => ['?', ':', ',', ']', '}', '%', '@', '\x60'].contains c

/-- Takes the name of an anchor or an alias behind its indicator. -/
def anchorName : Scan String := do
  skip 1
  let name ← name
  require endsAnchor
  return name

/-! ### Tags -/

/-- Takes the octets that are written as hexadecimal numbers behind percent signs. -/
def octets : Nat → Scan (List UInt8)
  | 0 => fail
  | n + 1 => do
    if ← accept '%' then
      let octet := UInt8.ofNat (valueIn 16 (← exactly 2 isHexDigit))
      return octet :: (← octets n)
    else return []

/-- Takes the characters of a tag, in which octets encode further ones. -/
def tagCharacters : Nat → Scan (List Char)
  | 0 => fail
  | n + 1 => do
    match ← peek with
    | none => return []
    | some c =>
      if c = '%' then
        match String.fromUTF8? ⟨(← octets (← bound)).toArray⟩ with
        | some s => return s.toList ++ (← tagCharacters n)
        | none => fail
      else if isTagCharacter c then
        skip 1
        return c :: (← tagCharacters n)
      else return []

/-- Takes the part of a tag behind its handle, which must not be empty. -/
def tagSuffix : Scan String := do
  match ← tagCharacters (← bound) with
  | [] => fail
  | cs => return String.ofList cs

/-- Takes the handle of a tag: one exclamation mark, or a name between two. -/
def tagHandle : Scan String := do
  if !(← accept '!') then fail
  if (← peek) = some ' ' then return "!"
  let name ← takeWhile isNameCharacter
  if ← accept '!' then return String.ofList ('!' :: name ++ ['!']) else fail

/-- Takes a tag. -/
def tag : Scan Token := do
  let rest := (← get).rest.drop 1
  let token ←
    if rest.head? = some '<' then do
      skip 2
      let suffix ← tagSuffix
      if ← accept '>' then pure (Token.tag none suffix) else fail
    else if isBlankOrEnd rest.head? then do
      skip 1
      pure (.tag none "!")
    else if (rest.takeWhile fun c => !isSpaceOrEnd (some c)).contains '!' then do
      let handle ← tagHandle
      pure (.tag (some handle) (← tagSuffix))
    else do
      skip 1
      pure (.tag (some "!") (← tagSuffix))
  require isSpaceOrEnd
  return token

/-! ### Directives -/

/-- Takes a number of a version. -/
def versionNumber : Scan Nat := do
  match ← takeWhile Char.isDigit with
  | [] => fail
  | cs => return valueIn 10 cs

/-- Takes a directive with the rest of its line. -/
def directive : Scan Token := do
  skip 1
  let kind ← name
  require isSpaceOrEnd
  let directive ←
    if kind = "YAML" then do
      skipWhile (· = ' ')
      let major ← versionNumber
      if !(← accept '.') then fail
      let _ ← versionNumber
      require isSpaceOrEnd
      pure (Directive.version major)
    else if kind = "TAG" then do
      skipWhile (· = ' ')
      let handle ← tagHandle
      require (· == some ' ')
      skipWhile (· = ' ')
      let expansion ← tagSuffix
      require isSpaceOrEnd
      pure (.handle handle expansion)
    else do
      skipWhile (!isBreak ·)
      pure .reserved
  skipLineEnd
  return .directive directive

end Heredity.Document.Yaml
