import Heredity.Document.Parser
import Heredity.Number.Numeral
import Heredity.Text.Split
import Heredity.Value.Basic
import Heredity.Value.Order

/-!
# What scalars of YAML stand for

A tag says what a node stands for.  A scalar that is neither quoted nor tagged gets its tag from its
text:

* the words for truth values, among them `yes`, `no`, `on` and `off`;
* integers in base two (`0b`), eight (a leading zero), ten and sixteen (`0x`), and in base sixty
  with colons; underscores may stand between digits;
* floating-point numbers, which need a point and whose exponents need a sign, and `.inf` and `.nan`;
* `~`, `null` and the empty text for nothing;
* `<<` for the key of what is merged into a mapping, and `=`, which only a key may be;
* dates and times, which are not values here.

Everything else is text: `Tag.ofPlain` decides it, and `Tag.scalar` reads the value that a text has
under a tag.
-/

namespace Heredity.Document.Yaml

open Text (splitAt)

/-- What a node stands for. -/
inductive Tag where
  | null | bool | int | float | text | list | map
  /-- The key whose value is merged into the mapping. -/
  | merge
  /-- The key of a default value. -/
  | default
  /-- Dates and times, binary data, sets and other data that are no values here. -/
  | foreign
  /-- Anything else. -/
  | unknown
deriving DecidableEq

namespace Tag

/-- What the names of the common tags begin with. -/
def standard : String := "tag:yaml.org,2002:"

/-- The common tags by the rest of their names. -/
def standardTags : List (String × Tag) :=
  [("null", .null), ("bool", .bool), ("int", .int), ("float", .float), ("str", .text),
    ("seq", .list), ("map", .map), ("merge", .merge), ("value", .default),
    ("timestamp", .foreign), ("binary", .foreign), ("set", .foreign), ("omap", .foreign),
    ("pairs", .foreign)]

/-- The tag with a name. -/
def ofName (name : String) : Tag :=
  ((standardTags.map fun t => (standard ++ t.1, t.2)).lookup name).getD .unknown

/-! ### Recognizing plain scalars -/

/-- The words for truth values, in lower case. -/
def truthWords : List (String × Bool) :=
  [("yes", true), ("no", false), ("true", true), ("false", false), ("on", true), ("off", false)]

/-- A text in small letters. -/
def lower (cs : List Char) : List Char := cs.map Char.toLower

/-- Whether a word is written in small letters, in capitals, or with a capital at the beginning. -/
def isUniform (cs : List Char) : Bool :=
  cs = lower cs || cs = cs.map Char.toUpper ||
    cs = (cs.take 1).map Char.toUpper ++ lower (cs.drop 1)

/-- Whether a text is a word for a truth value. -/
def isBool (cs : List Char) : Bool :=
  isUniform cs && (truthWords.lookup (String.ofList (lower cs))).isSome

/-- Whether a text stands for nothing. -/
def isNull (cs : List Char) : Bool :=
  cs.isEmpty || cs = ['~'] || isUniform cs && lower cs = "null".toList

/-- A text without its sign. -/
def unsigned : List Char → List Char
  | '+' :: cs => cs
  | '-' :: cs => cs
  | cs => cs

/-- Digits of a kind with underscores, of which there must be one. -/
def isLoose (isDigit : Char → Bool) (cs : List Char) : Bool :=
  !cs.isEmpty && cs.all fun c => isDigit c || c = '_'

/-- Decimal digits with underscores that begin with a digit. -/
def isGrouped (cs : List Char) : Bool :=
  cs.head?.any Char.isDigit && isLoose Char.isDigit cs

/-- A digit of base sixty. -/
def isSixtieth : List Char → Bool
  | [c] => c.isDigit
  | [c, d] => '0' ≤ c && c ≤ '5' && d.isDigit
  | _ => false

/-- Digits of base sixty with colons in between; the first is an arbitrary number. -/
def isSexagesimal (cs : List Char) : Bool :=
  match splitAt ':' cs with
  | first :: second :: more => isGrouped first && (second :: more).all isSixtieth
  | _ => false

/-- Whether a text is an integer. -/
def isInt (cs : List Char) : Bool :=
  match unsigned cs with
  | ['0'] => true
  | '0' :: 'b' :: ds => isLoose isBinaryDigit ds
  | '0' :: 'x' :: ds => isLoose isHexDigit ds
  | '0' :: ds => isLoose isOctalDigit ds
  | ds => isGrouped ds || isSexagesimal ds

/-- An exponent with its sign, or nothing. -/
def isExponent : List Char → Bool
  | [] => true
  | e :: sign :: ds =>
    (e = 'e' || e = 'E') && (sign = '+' || sign = '-') && !ds.isEmpty && ds.all Char.isDigit
  | _ => false

/-- What may follow a point: digits with underscores, and an exponent. -/
def isFraction (cs : List Char) : Bool :=
  isExponent (cs.dropWhile fun c => c.isDigit || c = '_')

/-- Whether a text is a floating-point number. -/
def isFloat (cs : List Char) : Bool :=
  let ds := unsigned cs
  let whole := ds.takeWhile (· != '.')
  match cs, ds.dropWhile (· != '.') with
  | '.' :: c :: fraction, _ =>
    c.isDigit && isFraction fraction || isUniform (c :: fraction) && lower cs = ".inf".toList ||
      [".nan".toList, ".NaN".toList, ".NAN".toList].contains cs
  | _, '.' :: fraction =>
    isGrouped whole && isFraction fraction ||
      isSexagesimal whole && fraction.all (fun c => c.isDigit || c = '_') ||
      whole.isEmpty && isUniform fraction && lower fraction = "inf".toList
  | _, _ => false

/-- Whether a text begins with a year, a month and a day and goes on with a time, if at all. -/
def isTimestamp (cs : List Char) : Bool :=
  match splitAt '-' cs with
  | year :: month :: rest =>
    let rest := ['-'].intercalate rest
    let day := rest.takeWhile Char.isDigit
    let time := rest.dropWhile Char.isDigit
    let isNumber (digits : List Char) : Bool :=
      !digits.isEmpty && digits.length ≤ 2 && digits.all Char.isDigit
    year.length = 4 && year.all Char.isDigit && isNumber month && isNumber day &&
      (month.length = 2 && day.length = 2 && time.isEmpty || isTime time)
  | _ => false
where
  /-- Whether a text is a time behind a date. -/
  isTime (cs : List Char) : Bool :=
    match cs with
    | [] => false
    | c :: _ =>
      (c = 'T' || c = 't' || c = ' ' || c = '\t') && (cs.filter (· = ':')).length ≥ 2 &&
        (cs.drop 1).all fun d => d.isDigit || ":.+-Z \t".toList.contains d

/-- The tag of a scalar that is neither quoted nor tagged. -/
def ofPlain (text : String) : Tag :=
  let cs := text.toList
  if isBool cs then .bool
  else if isFloat cs then .float
  else if isInt cs then .int
  else if cs = ['<', '<'] then .merge
  else if isNull cs then .null
  else if cs = ['='] then .default
  else if isTimestamp cs then .foreign
  else .text

/-! ### Reading scalars -/

/-- The value of digits in a base, all of which must be digits of that base. -/
def numberIn (base : Nat) (isDigit : Char → Bool) (cs : List Char) : Except Fault Nat :=
  if !cs.isEmpty && cs.all isDigit then .ok (valueIn base cs) else .error .malformed

/-- An integer behind its sign. -/
def natural (cs : List Char) : Except Fault Nat :=
  match cs with
  | [] => .error .outOfRange
  | ['0'] => .ok 0
  | '0' :: 'b' :: ds => numberIn 2 isBinaryDigit ds
  | '0' :: 'x' :: ds => numberIn 16 isHexDigit ds
  | '0' :: ds => numberIn 8 isOctalDigit ds
  | ds => do
    let parts ← (splitAt ':' ds).mapM fun part => do
      let n ← numberIn 10 Char.isDigit part
      if part.length ≤ Numeral.digitLimit then return n else throw .tooManyDigits
    return parts.foldl (fun n d => 60 * n + d) 0

/-- A floating-point number with parts in base sixty, the last of which is worth `weight`. -/
def sexagesimal : List Binary64 → Nat → Binary64
  | [], _ => .ofRatio false 0 1
  | part :: parts, weight =>
    .add (sexagesimal parts (weight / 60)) (.mul part (.ofRatio false weight 1))

/-- The one object that all `.nan` are. -/
def nanObject : Nat := 2

/-- A floating-point number behind its sign, in small letters. -/
def magnitude (cs : List Char) : Except Fault Binary64 :=
  if cs.isEmpty then .error .outOfRange
  else if cs = ".inf".toList then .ok (.infinity false)
  else if cs = ".nan".toList then .ok (.nan nanObject)
  else
    match (splitAt ':' cs).mapM fun part => Binary64.parse? (String.ofList part) with
    | none => .error .malformed
    | some [x] => .ok x
    | some parts => .ok (sexagesimal parts (Nat.pow 60 (parts.length - 1)))

/-- The value of a text under a tag.  A tag that is not for scalars gives none. -/
def scalar (tag : Tag) (text : String) : Except Fault (Option Value) :=
  let cs := text.toList.filter (· != '_')
  let negative := cs.head? = some '-'
  match tag with
  | .null => .ok (some .null)
  | .bool =>
    match truthWords.lookup (String.ofList (lower text.toList)) with
    | some b => .ok (some (.bool b))
    | none => .error .missingKey
  | .int => do
    let n ← if cs.isEmpty then .error .outOfRange else natural (unsigned cs)
    return some (.int (if negative then -(n : Int) else n))
  | .float => do
    let x ← if cs.isEmpty then .error .outOfRange else magnitude (lower (unsigned cs))
    return some (.float (if negative then x.neg else x))
  | .text => .ok (some (.text text))
  | .foreign => .error .unrepresented
  | _ => .ok none

end Tag

end Heredity.Document.Yaml
