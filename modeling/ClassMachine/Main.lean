import ClassMachine.CommandLine.Run

/-!
# The program

The run itself is a function of the contents of files. It is repeated with the files that it has
asked for until it asks for no new one.
-/

namespace ClassMachine.Program

/-- Contents of the files that have been read. -/
abbrev Known := List (String × Except IoError Bytes)

def readKnown (known : Known) (path : String) : Except IoError Bytes :=
  (known.lookup path).getD (.error .notFound)

/-- The number of a system error, which may be given as its negative. -/
def systemCode : IO.Error → Option Nat
  | .noFileOrDirectory _ code _ | .inappropriateType _ code _ | .invalidArgument _ code _ =>
    let n := code.toNat
    some (if n < 0x80000000 then n else 0x100000000 - n)
  | _ => none

def ioError (e : IO.Error) : IoError :=
  match systemCode e with
  | some 2 => .notFound
  | some 20 => .notADirectory
  | some 21 => .isADirectory
  | some 36 => .nameTooLong
  | _ => .other (toString e)

def readFile (path : String) : IO (Except IoError Bytes) := do
  if path.toList.contains '\x00' then return .error .embeddedNul
  try return .ok (← IO.FS.readBinFile path).toList
  catch e => return .error (ioError e)

partial def loop (known : Known) (arguments : List String) : IO CommandLine.Outcome := do
  let outcome := CommandLine.run (readKnown known) Machine.depthLimit arguments
  let missing := (CommandLine.files arguments outcome.asked).filter fun path =>
    (known.lookup path).isNone
  match missing with
  | [] => return outcome
  | path :: _ => loop ((path, ← readFile path) :: known) arguments

end ClassMachine.Program

def main (arguments : List String) : IO UInt32 := do
  let outcome ← ClassMachine.Program.loop [] arguments
  (← IO.getStdout).write (ByteArray.mk outcome.stdout.toArray)
  (← IO.getStderr).putStr outcome.stderr
  return outcome.exit.toUInt32
