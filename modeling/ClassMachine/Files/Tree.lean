import ClassMachine.Fault
import ClassMachine.Files.Path
import ClassMachine.Text.Utf8

/-!
# File trees

A tree of directories and files, as it is seen from its top. Nothing is known of what lies outside
of it, where every name is missing. A path is walked name by name; the walk fails at the first name
that is missing or too long, or that is looked for in a file. Writing makes the directories that are
missing on the way.
-/

namespace ClassMachine

structure FileTree where
  /-- Files by the names that lead to them, the latest first. -/
  files : List (List String × Bytes) := []
  /-- Directories by the names that lead to them; the top is always one. -/
  directories : List (List String) := []
deriving DecidableEq, Inhabited

namespace FileTree

/-- What a walk has come to: a directory of the tree or outside of it, or the content of a file. -/
inductive Node where
  | outside
  | directory (place : List String)
  | file (content : Bytes)
deriving DecidableEq

def nameLimit : Nat := 255

def pathLimit : Nat := 4096

/-- The entry of a directory. -/
def entry? (tree : FileTree) (place : List String) : Option Node :=
  if tree.directories.contains place then some (.directory place)
  else (tree.files.lookup place).map .file

/-- The directory above. -/
def parent : List String → Node
  | [] => .outside
  | place => .directory place.dropLast

/-- What a name in a directory stands for. -/
def child (tree : FileTree) (place : List String) (name : String) : Except IoError Node :=
  match tree.entry? (place ++ [name]) with
  | some node => .ok node
  | none => .error .notFound

/-- One name further. -/
def enter (tree : FileTree) (name : String) : Node → Except IoError Node
  | .file _ => .error .notADirectory
  | .directory place =>
    if name = "." then .ok (.directory place)
    else if name = ".." then .ok (parent place)
    else if nameLimit < (Utf8.encode name).length then .error .nameTooLong
    else tree.child place name
  | .outside =>
    if name = "." ∨ name = ".." then .ok .outside
    else if nameLimit < (Utf8.encode name).length then .error .nameTooLong
    else .error .notFound

def walk (tree : FileTree) : List String → Node → Except IoError Node
  | [], node => .ok node
  | name :: names, node => do walk tree names (← tree.enter name node)

/-- Whether a text can be a path at all. -/
def checkPath (path : String) : Except IoError Unit :=
  if path.toList.contains '\x00' then .error .embeddedNul
  else if pathLimit ≤ (Utf8.encode path).length then .error .nameTooLong
  else if path = "" then .error .notFound
  else .ok ()

/-- What a path leads to. A slash at the end asks for a directory. -/
def find (tree : FileTree) (path : String) : Except IoError Node := do
  checkPath path
  let start := if Path.isAbsolute path then Node.outside else .directory []
  match ← tree.walk (Path.components path) start with
  | .file content =>
    if Path.endsInSlash path then .error .notADirectory else return .file content
  | node => return node

/-- The content of a file. -/
def read (tree : FileTree) (path : String) : Except IoError Bytes := do
  match ← tree.find path with
  | .file content => return content
  | _ => .error .isADirectory

/-- Makes the directories on the way along names, and gives the place that is reached. -/
def makeWay (tree : FileTree) (place : List String) :
    List String → Except IoError (FileTree × List String)
  | [] => .ok (tree, place)
  | name :: names =>
    match tree.enter name (.directory place) with
    | .ok (.directory next) => makeWay tree next names
    | .ok (.file _) => .error (if names.isEmpty then .alreadyExists else .notADirectory)
    | .ok .outside => .error .notFound
    | .error .notFound =>
      let next := place ++ [name]
      makeWay { tree with directories := next :: tree.directories } next names
    | .error e => .error e

/-- The tree with a directory, and with those that lead to it. -/
def makeDirectory (tree : FileTree) (path : String) : Except IoError FileTree := do
  checkPath path
  let (tree, _) ← tree.makeWay [] (Path.components path)
  return tree

/-- The tree with a content for a file, and with the directories that lead to it. -/
def write (tree : FileTree) (path : String) (content : Bytes) : Except IoError FileTree := do
  checkPath path
  let names := Path.components path
  let (tree, place) ← tree.makeWay [] names.dropLast
  let name := names.getLast?.getD "."
  match tree.enter name (.directory place) with
  | .ok (.file _) | .error .notFound =>
    if Path.endsInSlash path then .error .isADirectory
    else return { tree with files := (place ++ [name], content) :: tree.files }
  | .ok _ => .error .isADirectory
  | .error e => .error e

end FileTree

end ClassMachine
