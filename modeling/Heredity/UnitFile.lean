import Heredity.Definition.Notation
import Heredity.Document.Basic

/-!
# Unit files

A unit file is a document whose entries are units.  The ending of its name, in whatever case it is
written, decides its format.

`UnitFile.read` reads the definitions in a file.  The bytes are decoded first, so a file that is no
text at all is reported as such even if its name is wrong.  The reader of YAML is given.
-/

namespace Heredity

/-- The format of a file with the given name. -/
def Format.ofFileName? (name : String) : Option Format :=
  (Format.endings.find? fun e => Path.hasEnding e.1 name).map Prod.snd

namespace UnitFile

/-- Reads the definitions in a file with the given content. -/
def read (yaml : Document.Reader) (file : Path) (content : ByteArray) :
    Except Error Definitions := do
  -- The name is looked at only after decoding.
  let text ← Document.decode content
  match Format.ofFileName? file.fileName with
  | none => refuse (.unknownFormat file.fileName)
  | some format =>
    let document ← Document.parse yaml format text
    Definitions.ofDocument file document

end UnitFile

end Heredity
