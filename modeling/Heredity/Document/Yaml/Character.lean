import Heredity.Document.Parser

/-!
# Characters of YAML

The classes of characters that the structure of a YAML text depends on.  Where a class is asked
about the next character, the end of the text is an answer of its own, which mostly counts like a
line break.
-/

namespace Heredity.Document.Yaml

/-- The code points that may stand in a text: no control character but tab, line feed, carriage
return and next line, and no character that is set aside. -/
def isPermitted (c : Char) : Bool :=
  c = '\t' || c = '\n' || c = '\r' || c = '\u0085' || ' ' ≤ c && c ≤ '~' ||
    '\u00a0' ≤ c && c ≤ '\ufffd' || 0x10000 ≤ c.toNat

/-- The mark at the beginning of some texts that says how they are encoded. -/
def byteOrderMark : Char := '\ufeff'

/-- A break that is kept as it is where lines are joined. -/
def isSeparator (c : Char) : Bool := c = '\u2028' || c = '\u2029'

/-- A line break. -/
def isBreak (c : Char) : Bool := c = '\n' || c = '\u0085' || isSeparator c

/-- A space or a tab. -/
def isBlank (c : Char) : Bool := c = ' ' || c = '\t'

/-- Whether the text or the line ends here. -/
def isLineEnd : Option Char → Bool
  | none => true
  | some c => isBreak c

/-- Whether the text, the line or a word ends here, where a tab does not count as space. -/
def isSpaceOrEnd : Option Char → Bool
  | none => true
  | some c => c = ' ' || isBreak c

/-- Whether the text, the line or a word ends here. -/
def isBlankOrEnd : Option Char → Bool
  | none => true
  | some c => isBlank c || isBreak c

/-- A character of the names of anchors, handles and directives. -/
def isNameCharacter (c : Char) : Bool := c.isAlphanum || c = '-' || c = '_'

/-- A character of a tag. -/
def isTagCharacter (c : Char) : Bool :=
  c.isAlphanum ||
    ['-', ';', '/', '?', ':', '@', '&', '=', '+', '$', ',', '_', '.', '!', '~', '*', '\'', '(', ')',
      '[', ']', '%'].contains c

/-- A character that separates the items of a flow collection. -/
def isFlowIndicator (c : Char) : Bool := [',', '[', ']', '{', '}'].contains c

/-- A character that no scalar without quotation marks starts with, unless the next one says
otherwise. -/
def isIndicator (c : Char) : Bool :=
  isFlowIndicator c ||
    ['-', '?', ':', '#', '&', '*', '!', '|', '>', '\'', '"', '%', '@', '\x60'].contains c

end Heredity.Document.Yaml
