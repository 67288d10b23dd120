import Heredity.Document.Json
import Heredity.Document.Toml
import Heredity.Error

/-!
# Documents

A document is a value written in one of three formats.  Two of them are read here.  How YAML is read
is left open: every reader of documents can take its place.

* `Document.decode` is the text of a file: its bytes are UTF-8, and every line ends in a line feed,
  however it ends in the file.
* `Document.Reader` is a reader of documents: it gives a value, or breaks off.
* `Document.parse` reads a text in a format.
-/

namespace Heredity.Document

/-- A text in which every line break is a line feed; a carriage return, alone or in front of a line
feed, is a line break. -/
def normalizeBreaks : List Char → List Char
  | [] => []
  | '\r' :: '\n' :: cs => '\n' :: normalizeBreaks cs
  | c :: cs => (if c = '\r' then '\n' else c) :: normalizeBreaks cs

/-- The text that the bytes of a file are. -/
def decode (content : ByteArray) : Except Error String :=
  match String.fromUTF8? content with
  | some text => .ok (String.ofList (normalizeBreaks text.toList))
  | none => .error (.file .undecodable)

/-- A reader of documents. -/
abbrev Reader := String → Except Failure Value

/-- The error with which the reading of a text in a format breaks off. -/
def Failure.error (format : Format) : Failure → Error
  | .malformed => .file (.malformed format)
  | .fault cause => .fault cause

/-- The reader of a format, given that of YAML. -/
def readerOf (yaml : Reader) : Format → Reader
  | .yaml => yaml
  | .json => Json.parse
  | .toml => Toml.parse

/-- Reads a text in a format. -/
def parse (yaml : Reader) (format : Format) (text : String) : Except Error Value :=
  (readerOf yaml format text).mapError (Failure.error format)

end Heredity.Document
