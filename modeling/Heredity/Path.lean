import Heredity.Text.Split

/-!
# Paths

A path is the list of its components.  Empty components and single dots have no meaning and are
dropped when a path is read.
-/

namespace Heredity

/-- The components of a path, from the outermost directory to the file. -/
abbrev Path := List String

namespace Path

/-- Reads a relative path. -/
def ofText (text : String) : Path :=
  ((Text.splitAt '/' text.toList).map String.ofList).filter fun c => c != "" && c != "."

/-- The last component. -/
def fileName (p : Path) : String := p.getLast?.getD ""

/-- A path as it is shown. -/
def render (p : Path) : String := "/".intercalate p

/-- A letter of the Latin alphabet in lower case; other characters stay. -/
def lowerChar (c : Char) : Char :=
  if 'A' ≤ c ∧ c ≤ 'Z' then Char.ofNat (c.toNat + 32) else c

/-- Whether a file name has an ending, in whatever case its letters are written. -/
def hasEnding (ending name : String) : Bool :=
  ending.toList.isSuffixOf (name.toList.map lowerChar)

end Path

end Heredity
