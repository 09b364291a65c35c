import ClassMachine.Files.Path
import ClassMachine.ClassTable.Source

/-!
# Class paths

A class path is a list of directories that are searched in order. A directory in which the file of
a class does not exist is passed over; any other failure ends the search.
-/

namespace ClassMachine

structure ClassPath where
  roots : List String
deriving Repr, DecidableEq, Inhabited

namespace ClassPath

/-- Where the file of a class lies below a directory. -/
def relativePath (name : String) : String :=
  ClassSource.slashed name ++ ".class"

/-- The files that may hold a class, in the order of the search. -/
def candidates (path : ClassPath) (name : String) : List String :=
  path.roots.map (Path.join · (relativePath name))

/-- The content of the first file that exists. -/
def firstFile (read : String → Except IoError Bytes) :
    List String → Except IoError (Option Bytes)
  | [] => .ok none
  | file :: files =>
    match read file with
    | .ok content => .ok (some content)
    | .error .notFound => firstFile read files
    | .error e => .error e

/-- The class path as a source of classes, for a way of reading files. -/
def source (path : ClassPath) (read : String → Except IoError Bytes) : ClassSource :=
  ⟨fun name => firstFile read (path.candidates name)⟩

end ClassPath

end ClassMachine
