import Heredity.Definition.Compilation
import Heredity.FileTree
import Heredity.UnitFile

/-!
# Directories of unit files

The units that are defined in the files below a directory belong together.

* `Directory.discover` lists the unit files.
* `Directory.load` reads the definitions in all of them; no two files may define the same unit.
* `Directory.evaluate` compiles the definitions to a program.

Each of them is given the path of the directory, for messages, and what lies there, which may be
nothing or a file; the last two are given the reader of YAML, too.
-/

namespace Heredity.Directory

/-- Lists the unit files below a directory with their contents. -/
def discover (directory : Path) (found : Except FileError FileTree) :
    Except Error (List (Path × ByteArray)) :=
  match found with
  | .ok (.directory entries) => .ok (FileTree.unitFiles directory entries)
  | .ok (.file _) => .error (.file .notADirectory)
  | .error e => .error (.file e)

/-- Adds the definitions of one file to those of others. -/
def addDefinitions (known : Definitions) :
    List (String × Definition) → Except Error Definitions
  | [] => .ok known
  | (name, d) :: definitions =>
    match known.get? name with
    | some other =>
      refuse (.definedTwice name other.file.render d.file.render)
    | none => addDefinitions (known.insert name d) definitions

/-- Reads files one after the other. -/
def readFiles (yaml : Document.Reader) (known : Definitions) :
    List (Path × ByteArray) → Except Error Definitions
  | [] => .ok known
  | (file, content) :: files => do
    let definitions ← UnitFile.read yaml file content
    readFiles yaml (← addDefinitions known definitions.entries) files

/-- Reads the definitions in all unit files below a directory. -/
def load (yaml : Document.Reader) (directory : Path) (found : Except FileError FileTree) :
    Except Error Definitions :=
  match found with
  | .ok (.directory entries) => readFiles yaml ∅ (FileTree.unitFiles directory entries)
  | _ => .error (.pathNotADirectory directory.render)

/-- Compiles the units that are defined below a directory.  Gives the program, or why there is none,
and the warnings that were issued. -/
def evaluate (yaml : Document.Reader) (config : Config) (directory : Path)
    (found : Except FileError FileTree) : Except Error Program × List Warning :=
  match load yaml directory found with
  | .error e => (.error e, [])
  | .ok definitions =>
    let (result, site) := (definitions.compile config).run.run {}
    (result.map fun _ => site.program, site.warnings)

end Heredity.Directory
