import Heredity.Document.Yaml.Cursor

/-!
# Scalars of YAML

A scalar is written in one of three ways.

* `plainScalar`: without marks.  It ends at a comment, at a colon that is followed by space, at a
  line that is indented too little, and inside a flow collection at the characters that structure
  it.
* `quotedScalar`: between single or double quotation marks; only the latter know escapes.
* `blockScalar`: the indented lines below a header, kept as they are (`|`) or joined (`>`).

In the first two, lines are joined by `fold`.
-/

namespace Heredity.Document.Yaml

open Scan

/-! ### Without marks -/

/-- Whether a plain scalar, or a line of one, ends in front of a character. -/
def endsPlain (inFlow : Bool) (c : Char) (following : Option Char) : Bool :=
  isBlank c || isBreak c
    || c = ':' && (isBlankOrEnd following || inFlow && following.any isFlowIndicator)
    || inFlow && (isFlowIndicator c || c = '?')

/-- The characters of a plain scalar up to the next space. -/
def plainWord (inFlow : Bool) : List Char → List Char
  | [] => []
  | c :: cs => if endsPlain inFlow c cs.head? then [] else c :: plainWord inFlow cs

/-- Takes the breaks in front of the next line of a plain scalar.  There is none if a mark between
documents follows. -/
def plainBreaks : Nat → Scan (Option (List Char))
  | 0 => fail
  | n + 1 => do
    if (← get).atDocumentMark then return none
    skipWhile (· = ' ')
    match ← lineBreak? with
    | none => return some []
    | some b => return (← plainBreaks n).map (b :: ·)

/-- Takes the space behind a word of a plain scalar.  Gives what the space means, which is nothing
at the end of the scalar, and whether a line ended. -/
def plainSpace : Scan (List Char × Bool) := do
  let spaces ← takeWhile (· = ' ')
  match ← lineBreak? with
  | none => return (spaces, false)
  | some b =>
    match ← plainBreaks (← bound) with
    | none => return ([], true)
    | some breaks => return (fold b breaks, true)

/-- Takes a plain scalar word by word; lines that are indented less than `indent` do not belong to
it outside of flow collections.  `crossed` says whether a line ended before; so does the result. -/
def plainWords (inFlow : Bool) (indent : Nat) : Nat → Bool → Scan (List Char × Bool)
  | 0, _ => fail
  | n + 1, crossed => do
    if (← peek) = some '#' then return ([], crossed)
    let word := plainWord inFlow (← get).rest
    if word.isEmpty then return ([], crossed)
    skip word.length
    let (space, crossed) ← plainSpace
    let here ← get
    if space.isEmpty || here.rest.head? = some '#' || !inFlow && here.column < indent then
      return (word, crossed)
    else
      let (more, crossed) ← plainWords inFlow indent n crossed
      return (if more.isEmpty then word else word ++ space ++ more, crossed)

/-- Takes a plain scalar.  Gives its text, and whether the place behind it is on a later line than
its last word. -/
def plainScalar (inFlow : Bool) (indent : Nat) : Scan (String × Bool) := do
  let (text, crossed) ← plainWords inFlow indent (← bound) false
  return (String.ofList text, crossed)

/-! ### Between quotation marks -/

/-- Takes the breaks in front of the next line of a quoted scalar, and the space it begins with. -/
def quotedBreaks : Nat → Scan (List Char)
  | 0 => fail
  | n + 1 => do
    if (← get).atDocumentMark then fail
    skipWhile isBlank
    match ← lineBreak? with
    | none => return []
    | some b => return b :: (← quotedBreaks n)

/-- Takes the space inside a quoted scalar and gives what it means. -/
def quotedSpace : Scan (List Char) := do
  let spaces ← takeWhile isBlank
  match ← lineBreak? with
  | some b => return fold b (← quotedBreaks (← bound))
  | none => return spaces

/-- The characters that escapes of one letter stand for. -/
def escapes : List (Char × Char) :=
  [('0', '\x00'), ('a', '\x07'), ('b', '\x08'), ('t', '\t'), ('\t', '\t'), ('n', '\n'),
    ('v', '\x0b'), ('f', '\x0c'), ('r', '\r'), ('e', '\x1b'), (' ', ' '), ('"', '"'), ('\\', '\\'),
    ('/', '/'), ('N', '\u0085'), ('_', '\u00a0'), ('L', '\u2028'), ('P', '\u2029')]

/-- The number of digits of an escape that gives a code point. -/
def escapeWidth : Char → Option Nat
  | 'x' => some 2
  | 'u' => some 4
  | 'U' => some 8
  | _ => none

/-- The character with a code point.  Numbers that are no code points are faults of their own, and a
surrogate is no character. -/
def characterOf (code : Nat) : Except Failure Char :=
  match charAt? code with
  | some c => .ok c
  | none =>
    if code ≤ 0x10ffff then .error .malformed
    else if code < Nat.pow 2 31 then .error (.fault .malformed)
    else .error (.fault .overflow)

/-- Takes an escape behind its backslash and gives what it means. -/
def escape : Scan (List Char) := do
  match ← peek with
  | none => fail
  | some c =>
    match escapes.lookup c, escapeWidth c with
    | some d, _ =>
      skip 1
      return [d]
    | none, some width =>
      skip 1
      let code := valueIn 16 (← exactly width isHexDigit)
      return [← characterOf code]
    | none, none =>
      match ← lineBreak? with
      | some _ => quotedBreaks (← bound)
      | none => fail

/-- Takes a quoted scalar behind its opening mark, up to and with the closing one. -/
def quotedText (isDouble : Bool) : Nat → Scan (List Char)
  | 0 => fail
  | n + 1 => do
    match (← get).rest with
    | [] => fail
    | c :: cs =>
      if isBlank c || isBreak c then
        let space ← quotedSpace
        return space ++ (← quotedText isDouble n)
      else if isDouble then
        skip 1
        if c = '"' then return []
        else if c = '\\' then
          let piece ← escape
          return piece ++ (← quotedText isDouble n)
        else return c :: (← quotedText isDouble n)
      else if c = '\'' then
        if cs.head? = some '\'' then
          skip 2
          return '\'' :: (← quotedText isDouble n)
        else
          skip 1
          return []
      else
        skip 1
        return c :: (← quotedText isDouble n)

/-- Takes a quoted scalar with its marks. -/
def quotedScalar (isDouble : Bool) : Scan String := do
  skip 1
  return String.ofList (← quotedText isDouble (← bound))

/-! ### In a block -/

/-- What becomes of the line breaks at the end of a block. -/
inductive Chomping where
  /-- None stays. -/
  | strip
  /-- The first stays. -/
  | clip
  /-- All stay. -/
  | keep
deriving DecidableEq

/-- Takes the sign in the header of a block, if one is next. -/
def chomping? : Scan (Option Chomping) := do
  if ← accept '+' then return some .keep
  if ← accept '-' then return some .strip
  return none

/-- Takes the digit in the header of a block, if one is next. -/
def increment? : Scan (Option Nat) := do
  match ← peek with
  | none => return none
  | some c =>
    if c = '0' then fail
    else if c.isDigit then
      skip 1
      return some (digitValue c)
    else return none

/-- Takes the header of a block: a sign and a digit in either order, neither being needed. -/
def blockHeader : Scan (Chomping × Option Nat) := do
  match ← chomping? with
  | some chomping => return (chomping, ← increment?)
  | none =>
    match ← increment? with
    | none => return (.clip, none)
    | some increment => return ((← chomping?).getD .clip, some increment)

/-- Takes the empty lines at the beginning of a block whose indentation is not given.  Gives their
breaks, and the column of the widest of them and of the first line with text. -/
def leadingBreaks : Nat → Nat → Scan (List Char × Nat)
  | 0, _ => fail
  | n + 1, widest => do
    skipWhile (· = ' ')
    let widest := max widest (← get).column
    match ← lineBreak? with
    | none => return ([], widest)
    | some b =>
      let (breaks, widest) ← leadingBreaks n widest
      return (b :: breaks, widest)

/-- Takes spaces up to a column. -/
def skipIndent (indent : Nat) : Scan Unit := do
  let here ← get
  skip ((here.rest.takeWhile (· = ' ')).length.min (indent - here.column))

/-- Takes the empty lines between lines of a block and the indentation of the next one. -/
def blockBreaks (indent : Nat) : Nat → Scan (List Char)
  | 0 => fail
  | n + 1 => do
    skipIndent indent
    match ← lineBreak? with
    | none => return []
    | some b => return b :: (← blockBreaks indent n)

/-- What has been read of a block. -/
structure BlockText where
  /-- The lines and what stands between them. -/
  text : List Char
  /-- The break behind the last line, if there is one. -/
  final : List Char
  /-- The breaks of the empty lines behind it. -/
  trailing : List Char

/-- Whether a line of a block begins here. -/
def atBlockLine (indent : Nat) : Scan Bool := do
  let here ← get
  return here.column == indent && !here.rest.isEmpty

/-- What stands between two lines of a block.  Joined lines that both begin without space have a
space in between, or only the breaks of empty lines; any other break stays. -/
def blockJoint (isFolded flush nextFlush : Bool) (final : Option Char) (breaks : List Char) :
    List Char :=
  if isFolded && final = some '\n' && flush && nextFlush then
    if breaks.isEmpty then [' '] else []
  else final.toList

/-- Takes the lines of a block; `breaks` are those of the empty lines in front of the next line. -/
def blockLines (isFolded : Bool) (indent : Nat) : Nat → List Char → Scan BlockText
  | 0, _ => fail
  | n + 1, breaks => do
    if ← atBlockLine indent then
      let flush := !(← peek).any isBlank
      let line ← takeWhile (!isBreak ·)
      let final ← lineBreak?
      let further ← blockBreaks indent (← bound)
      if ← atBlockLine indent then
        let joint := blockJoint isFolded flush (!(← peek).any isBlank) final further
        let more ← blockLines isFolded indent n further
        return { more with text := breaks ++ line ++ joint ++ more.text }
      else return ⟨breaks ++ line, final.toList, further⟩
    else return ⟨[], [], breaks⟩

/-- The text of a block with what its chomping leaves of the breaks at its end. -/
def BlockText.chomp (chomping : Chomping) (b : BlockText) : List Char :=
  match chomping with
  | .strip => b.text
  | .clip => b.text ++ b.final
  | .keep => b.text ++ b.final ++ b.trailing

/-- Takes a block scalar.  Its lines are indented by at least `least`; if the header gives an
indentation, it counts from one below that. -/
def blockScalar (isFolded : Bool) (least : Nat) : Scan String := do
  skip 1
  let (chomping, increment) ← blockHeader
  require isSpaceOrEnd
  skipLineEnd
  let (breaks, indent) ←
    match increment with
    | some n => do
      let indent := least + n - 1
      pure (← blockBreaks indent (← bound), indent)
    | none => do
      let (breaks, widest) ← leadingBreaks (← bound) 0
      pure (breaks, max least widest)
  let block ← blockLines isFolded indent (← bound) breaks
  return String.ofList (block.chomp chomping)

end Heredity.Document.Yaml
