import ClassMachine.Machine.Basic
import ClassMachine.Native.Draft

/-!
# Classes that are there from the start

The root class, strings, and a stream that prints to the console and is held by a static field of
the system class.
-/

namespace ClassMachine.Bootstrap

open Drafting

def stringName : Bytes := Utf8.encode "java/lang/String"

def printStreamName : Bytes := Utf8.encode "java/io/PrintStream"

def systemName : Bytes := Utf8.encode "java/lang/System"

def objectClass : Drafting Unit := do
  root objectName
  method (Utf8.encode "<init>") (Utf8.encode "()V") []

def stringClass : Drafting Unit := do
  derived stringName
  method (Utf8.encode "length") (Utf8.encode "()I") [.pushTextLength]

/-- Descriptors of the overloads that print a line. -/
def printed : List String :=
  ["()V", "(Ljava/lang/String;)V", "(Ljava/lang/Object;)V", "(D)V", "(F)V", "(I)V", "(J)V"]

def printStreamClass : Drafting Unit := do
  derived printStreamName
  printed.forM fun descriptor =>
    method (Utf8.encode "println") (Utf8.encode descriptor) [.printLine]

def systemClass (out : Slot) : Drafting Unit := do
  derived systemName
  staticField (Utf8.encode "out") (Utf8.encode "Ljava/io/PrintStream;") out

/-- Registers a class that is worked out, and gives its name. -/
def register (work : Drafting Unit) : Run Bytes := do
  let c ← Run.structural work.build
  Run.link (Linking.register c)

/-- Registers all classes. -/
def install : Run Unit := do
  discard (register objectClass)
  discard (register stringClass)
  let printStream ← Run.link (Linking.lookup (← register printStreamClass))
  let out ← Run.create printStream.file
  discard (register (systemClass out))

/-- The machine with all classes installed, whose objects get these addresses. -/
def machine (source : ClassSource) (console : Console)
    (address : ObjectId → Nat := Heap.spaced) : Machine :=
  match EStateM.run install { table := { source }, heap := { address }, console } with
  | .ok _ machine => machine
  | .error _ machine => machine

end ClassMachine.Bootstrap
