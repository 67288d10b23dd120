import Heredity.Document.Yaml.Scalar
import Heredity.Document.Yaml.Token

/-!
# The layout of YAML

How lines, indentation and colons of a text determine its tokens.  Two things are known only later
than they begin, so a `Layout` keeps them in mind.

* *Blocks.*  A collection that is marked by indentation begins with its first item and ends at the
  first token that is indented less.  `Layout.blocks` are the columns of the open ones.
* *Keys.*  That something is the key of a mapping is known from the colon behind it, on the same
  line and not too far away.  Whatever could be a key is kept as a `Candidate`; the colon inserts
  the token for the key, and for the beginning of the mapping, in front of it.  Each flow collection
  that is open has a candidate of its own.

`Layout.canBeKey` says whether a key may begin here: at the beginning of a line or behind an
indicator, but not behind another key of the same line.

`Token.ofText` cuts a whole text into tokens.
-/

namespace Heredity.Document.Yaml

/-- A place where the key of a mapping may have begun. -/
structure Candidate where
  /-- The number of tokens in front of it. -/
  token : Nat
  /-- Whether it must be a key, since it begins where items of the open block do. -/
  isRequired : Bool
  /-- The number of characters in front of it. -/
  index : Nat
  /-- Its line. -/
  line : Nat
  /-- Its column. -/
  column : Nat

/-- What has been seen of the layout of a text. -/
structure Layout where
  /-- The place that it has reached. -/
  cursor : Cursor
  /-- The tokens so far. -/
  tokens : Array Token := #[]
  /-- The columns of the open blocks, innermost first. -/
  blocks : List Nat := []
  /-- The candidate for a key outside of flow collections or in the innermost one. -/
  candidate : Option Candidate := none
  /-- The candidates around the open flow collections, innermost first. -/
  outer : List (Option Candidate) := []
  /-- Whether a key may begin here. -/
  canBeKey : Bool := true

/-- Takes tokens from the text and follows its layout. -/
abbrev Lines := StateT Layout (Except Failure)

namespace Lines

/-- The text is malformed here. -/
def fail {α : Type} : Lines α := throw .malformed

/-- Reads at the place that has been reached. -/
def scan {α : Type} (s : Scan α) : Lines α := fun state =>
  match s state.cursor with
  | .ok (a, cursor) => .ok (a, { state with cursor := cursor })
  | .error e => .error e

/-- Whether a flow collection is open. -/
def inFlow : Lines Bool := do return !(← get).outer.isEmpty

/-- The column that has been reached. -/
def column : Lines Nat := do return (← get).cursor.column

/-- Adds a token. -/
def emit (t : Token) : Lines Unit := modify fun s => { s with tokens := s.tokens.push t }

/-- Inserts a token behind the first `n` tokens. -/
def insert (n : Nat) (t : Token) : Lines Unit :=
  modify fun s => { s with tokens := s.tokens.insertIdxIfInBounds n t }

/-- Says whether a key may begin behind the token that is read. -/
def setCanBeKey (b : Bool) : Lines Unit := modify fun s => { s with canBeKey := b }

/-! ### Blocks -/

/-- Opens a block unless one is open at the column or behind it, and says whether it did. -/
def openBlock (column : Nat) : Lines Bool := do
  let s ← get
  if s.blocks.head?.all (· < column) then
    set { s with blocks := column :: s.blocks }
    return true
  else return false

/-- Closes the open blocks that satisfy `p`, from the innermost to the first that does not. -/
def closeBlocks (p : Nat → Bool) : Lines Unit :=
  modify fun s =>
    { s with
      tokens := s.tokens ++ (s.blocks.takeWhile p).map fun _ => Token.blockEnd
      blocks := s.blocks.dropWhile p }

/-- Closes the blocks that are indented more than the place that has been reached. -/
def closeDeeperBlocks : Lines Unit := do
  if !(← inFlow) then
    let column ← column
    closeBlocks (column < ·)

/-- Closes all blocks.  Open flow collections are not affected by indentation. -/
def closeAllBlocks : Lines Unit := do
  if !(← inFlow) then closeBlocks fun _ => true

/-! ### Keys -/

/-- Gives up a candidate, which must not be one that has to be a key. -/
def giveUp (candidate : Option Candidate) : Lines Unit :=
  if candidate.any (·.isRequired) then fail else return

/-- Gives up the candidate of the innermost collection. -/
def dropCandidate : Lines Unit := do
  giveUp (← get).candidate
  modify fun s => { s with candidate := none }

/-- The largest number of characters from the beginning of a key to its colon. -/
def longestKey : Nat := 1024

/-- Whether a candidate is on an earlier line or too far away. -/
def isStale (here : Cursor) (c : Candidate) : Bool :=
  c.line != here.line || longestKey < here.index - c.index

/-- Gives up a candidate if it is stale. -/
def refresh (candidate : Option Candidate) : Lines (Option Candidate) := do
  if candidate.any (isStale (← get).cursor) then
    giveUp candidate
    return none
  else return candidate

/-- Gives up all stale candidates. -/
def dropStaleCandidates : Lines Unit := do
  let s ← get
  let candidate ← refresh s.candidate
  let outer ← s.outer.mapM refresh
  modify fun s => { s with candidate := candidate, outer := outer }

/-- Remembers that a key may begin here. -/
def markCandidate : Lines Unit := do
  if (← get).canBeKey then
    dropCandidate
    let s ← get
    let here := s.cursor
    set { s with
      candidate := some {
        token := s.tokens.size
        isRequired := s.outer.isEmpty && s.blocks.head? == some here.column
        index := here.index
        line := here.line
        column := here.column } }

/-! ### Tokens -/

/-- Takes the indicator of a document, or its end. -/
def documentMark (t : Token) : Lines Unit := do
  closeAllBlocks
  dropCandidate
  setCanBeKey false
  scan (Scan.skip 3)
  emit t

/-- Takes a directive. -/
def directiveLine : Lines Unit := do
  closeAllBlocks
  dropCandidate
  setCanBeKey false
  emit (← scan directive)

/-- Takes the opening bracket of a flow collection. -/
def flowStart (t : Token) : Lines Unit := do
  markCandidate
  modify fun s => { s with outer := s.candidate :: s.outer, candidate := none, canBeKey := true }
  scan (Scan.skip 1)
  emit t

/-- Takes the closing bracket of a flow collection, of which one must be open. -/
def flowEnd (t : Token) : Lines Unit := do
  dropCandidate
  match (← get).outer with
  | [] => fail
  | candidate :: outer =>
    modify fun s => { s with outer := outer, candidate := candidate, canBeKey := false }
    scan (Scan.skip 1)
    emit t

/-- Takes the comma between two items of a flow collection. -/
def flowSeparator : Lines Unit := do
  setCanBeKey true
  dropCandidate
  scan (Scan.skip 1)
  emit .flowEntry

/-- Requires outside of flow collections that an item may begin here, and begins a block with it if
it is the first of its block. -/
def beginItem (start : Token) : Lines Unit := do
  if !(← inFlow) then
    if !(← get).canBeKey then fail
    if ← openBlock (← column) then emit start

/-- Takes the dash in front of an item of a sequence. -/
def blockDash : Lines Unit := do
  beginItem .blockSequenceStart
  setCanBeKey true
  dropCandidate
  scan (Scan.skip 1)
  emit .blockEntry

/-- Takes the question mark in front of a key. -/
def keyMark : Lines Unit := do
  beginItem .blockMappingStart
  setCanBeKey (!(← inFlow))
  dropCandidate
  scan (Scan.skip 1)
  emit .key

/-- Takes the colon between a key and its value.  If there is a candidate for the key, its token is
inserted. -/
def valueMark : Lines Unit := do
  match (← get).candidate with
  | some c =>
    modify fun s => { s with candidate := none }
    insert c.token .key
    -- The beginning of the mapping goes in front of the key that has just been inserted.
    if !(← inFlow) then
      if ← openBlock c.column then insert c.token .blockMappingStart
    setCanBeKey false
  | none =>
    beginItem .blockMappingStart
    setCanBeKey (!(← inFlow))
    dropCandidate
  scan (Scan.skip 1)
  emit .value

/-- Takes a token that may begin a key and that no key may follow on its line. -/
def content (s : Scan Token) : Lines Unit := do
  markCandidate
  setCanBeKey false
  emit (← scan s)

/-- Takes a block scalar. -/
def block (isFolded : Bool) : Lines Unit := do
  setCanBeKey true
  dropCandidate
  let least := match (← get).blocks with
    | [] => 1
    | column :: _ => column + 1
  emit (.scalar false (← scan (blockScalar isFolded least)))

/-- Takes a plain scalar.  A key may follow if that is on a later line. -/
def plain : Lines Unit := do
  markCandidate
  setCanBeKey false
  let indent := match (← get).blocks with
    | [] => 0
    | column :: _ => column + 1
  let (text, crossed) ← scan (plainScalar (← inFlow) indent)
  setCanBeKey crossed
  emit (.scalar true text)

/-- Whether a plain scalar begins with a character. -/
def beginsPlain (inFlow : Bool) (c : Char) (following : Option Char) : Bool :=
  !(isBlank c || isBreak c || isIndicator c) ||
    !isBlankOrEnd following && (c = '-' || !inFlow && (c = '?' || c = ':'))

/-- Takes the token that begins with the next character. -/
def token (c : Char) : Lines Unit := do
  let s ← get
  let following := (s.cursor.rest.drop 1).head?
  let inFlow := !s.outer.isEmpty
  let apart := isBlankOrEnd following
  if s.cursor.column = 0 && c = '%' then directiveLine
  else if s.cursor.column = 0 && c = '-' && s.cursor.atDocumentMark then documentMark .documentStart
  else if s.cursor.column = 0 && c = '.' && s.cursor.atDocumentMark then documentMark .documentEnd
  else if c = '[' then flowStart .flowSequenceStart
  else if c = '{' then flowStart .flowMappingStart
  else if c = ']' then flowEnd .flowSequenceEnd
  else if c = '}' then flowEnd .flowMappingEnd
  else if c = ',' then flowSeparator
  else if c = '-' && apart then blockDash
  else if c = '?' && (inFlow || apart) then keyMark
  else if c = ':' && (inFlow || apart) then valueMark
  else if c = '*' then content do return .alias (← anchorName)
  else if c = '&' then content do return .anchor (← anchorName)
  else if c = '!' then content tag
  else if c = '|' && !inFlow then block false
  else if c = '>' && !inFlow then block true
  else if c = '\'' then content do return .scalar false (← quotedScalar false)
  else if c = '"' then content do return .scalar false (← quotedScalar true)
  else if beginsPlain inFlow c following then plain
  else fail

/-! ### Texts -/

/-- Leaves out spaces, comments and line breaks in front of a token.  Behind a line break, a key may
begin. -/
def skipToToken : Nat → Lines Unit
  | 0 => fail
  | n + 1 => do
    -- Tabs are not skipped: nothing may be indented with them.
    scan (Scan.skipWhile (· = ' '))
    if (← scan Scan.peek) = some '#' then scan (Scan.skipWhile (!isBreak ·))
    match ← scan Scan.lineBreak? with
    | none => return
    | some _ =>
      if !(← inFlow) then setCanBeKey true
      skipToToken n

/-- Ends the text. -/
def finish : Lines Unit := do
  closeAllBlocks
  dropCandidate
  emit .streamEnd

/-- Takes all tokens.  Each of them takes a character, so `n` bounds their number. -/
def all : Nat → Lines Unit
  | 0 => fail
  | n + 1 => do
    skipToToken (← scan Scan.bound)
    dropStaleCandidates
    closeDeeperBlocks
    match ← scan Scan.peek with
    | none => finish
    | some c =>
      token c
      all n

end Lines

/-- Cuts a text into tokens.  A byte order mark at its beginning is left out. -/
def Token.ofText (text : List Char) : Except Failure (List Token) := do
  if !text.all isPermitted then throw .malformed
  let start : Cursor := { rest := text }
  let start := if text.head? = some byteOrderMark then start.step else start
  let (_, state) ← Lines.all (text.length + 1) { cursor := start }
  return state.tokens.toList

end Heredity.Document.Yaml
