import Heredity.Error
import Heredity.Path

/-!
# Trees of files

What a directory holds, as a value: reading files needs no effects then.

* `FileTree.at?` is what lies at a path.
* `FileTree.addFile` and `FileTree.addDirectory` build a tree up.
* `FileTree.unitFiles` are the unit files below a directory, in the order of their names;
  directories whose names begin with a dot are hidden and are not entered.
-/

namespace Heredity

/-- What lies at a path. -/
inductive FileTree where
  /-- A file with its content. -/
  | file (content : ByteArray)
  /-- A directory with its entries. -/
  | directory (entries : List (String × FileTree))

namespace FileTree

/-- The entries of a directory. -/
abbrev Entries := List (String × FileTree)

/-- The entries of what lies somewhere; only directories have some. -/
def entriesOf : Option FileTree → Entries
  | some (.directory entries) => entries
  | _ => []

/-- What lies at a path. -/
def at? : Path → FileTree → Except FileError FileTree
  | [], t => .ok t
  | _ :: _, .file _ => .error .notADirectory
  | name :: path, .directory entries =>
    match entries.lookup name with
    | some t => at? path t
    | none => .error .missing

/-! ### Building trees -/

/-- Changes what lies at a name, or adds it. -/
def change (name : String) (f : Option FileTree → FileTree) : Entries → Entries
  | [] => [(name, f none)]
  | entry :: entries =>
    if entry.1 = name then (name, f (some entry.2)) :: entries
    else entry :: change name f entries

/-- Adds a file, with the directories on the way to it. -/
def addFile (content : ByteArray) : Path → Entries → Entries
  | [], entries => entries
  | [name], entries => change name (fun _ => .file content) entries
  | name :: path, entries =>
    change name (fun t => .directory (addFile content path (entriesOf t))) entries

/-- Adds the directories of a path. -/
def addDirectory : Path → Entries → Entries
  | [], entries => entries
  | name :: path, entries =>
    change name (fun t => .directory (addDirectory path (entriesOf t))) entries

/-! ### Unit files -/

/-- Whether a file has one of the endings of unit files. -/
def isUnitFile (name : String) : Bool := Format.endings.any fun e => Path.hasEnding e.1 name

/-- Whether the name of a directory hides it. -/
def isHidden (name : String) : Bool := name.toList.head? = some '.'

/-- The contents of directories in the order of the names of their entries. -/
def inOrder {α : Type} (entries : List (String × List α)) : List α :=
  (entries.mergeSort fun a b => a.1 ≤ b.1).flatMap Prod.snd

mutual

/-- The unit files at and below what lies at a name in the directory with the given path. -/
def filesAt (path : Path) (name : String) : FileTree → List (Path × ByteArray)
  | .file content => if isUnitFile name then [(path ++ [name], content)] else []
  | .directory entries =>
    if isHidden name then [] else inOrder (filesOfEntries (path ++ [name]) entries)
termination_by structural t => t

/-- The unit files at and below an entry, with its name. -/
def filesOfEntry (path : Path) : String × FileTree → String × List (Path × ByteArray)
  | (name, t) => (name, filesAt path name t)
termination_by structural entry => entry

/-- The unit files at and below the entries of the directory with the given path, by entries. -/
def filesOfEntries (path : Path) :
    List (String × FileTree) → List (String × List (Path × ByteArray))
  | [] => []
  | entry :: entries => filesOfEntry path entry :: filesOfEntries path entries
termination_by structural entries => entries

end

/-- The unit files below the directory with the given path and entries. -/
def unitFiles (path : Path) (entries : Entries) : List (Path × ByteArray) :=
  inOrder (filesOfEntries path entries)

end FileTree

end Heredity
