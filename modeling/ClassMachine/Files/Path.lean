import ClassMachine.Text.Split

/-!
# Paths

A path is a text in which slashes separate names. A path that begins with a slash does not depend
on where it is used.
-/

namespace ClassMachine.Path

def isAbsolute (path : String) : Bool :=
  path.toList.head? == some '/'

def endsInSlash (path : String) : Bool :=
  path.toList.getLast? == some '/'

/-- The names in a path; empty ones do not count. -/
def components (path : String) : List String :=
  (Text.split '/' path).filter (· ≠ "")

/-- A path seen from a directory. An absolute path stays as it is. -/
def join (directory path : String) : String :=
  if isAbsolute path then path
  else if directory = "" ∨ endsInSlash directory then directory ++ path
  else directory ++ "/" ++ path

theorem join_of_isAbsolute (directory path : String) (h : isAbsolute path = true) :
    join directory path = path := by
  simp [join, h]

/-- The directory that a path to a file names: everything before the last slash. -/
def directory (path : String) : String :=
  let front := (path.toList.reverse.dropWhile (· ≠ '/')).reverse
  if front.length ≤ 1 then String.ofList front else String.ofList front.dropLast

end ClassMachine.Path
