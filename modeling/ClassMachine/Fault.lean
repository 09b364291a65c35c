import ClassMachine.Fault.Structural

/-!
# Faults

Everything that can go wrong while classes are loaded, linked and run, and the texts that say so.
A fault in the initialization of a superclass wraps the fault that it was caused by.
-/

namespace ClassMachine

/-- Why a file could not be read or a console not be written to. -/
inductive IoError where
  | notFound
  | notADirectory
  | isADirectory
  | nameTooLong
  | alreadyExists
  | embeddedNul
  | consoleFull
  | other (text : String)
deriving Repr, DecidableEq, Inhabited

inductive ResolutionError where
  | classNotFound (className : String)
  | nameMismatch (expected found : String)
  | noSuchField (className field : String)
  | noSuchMethod (className name descriptor : String)
  | ambiguousOverload (className name descriptor : String)
  | missingCode (className name : String)
deriving Repr, DecidableEq, Inhabited

inductive ExecutionError where
  | unsupportedOpcode (opcode : UInt8) (pc : Nat)
  | truncatedInstruction (mnemonic : String) (pc : Nat)
  | stackUnderflow
  | localOutOfRange (index count : Nat)
  | nullFieldStore (field : String)
  | nullFieldLoad (field : String)
  | notAnInstance (shown : String)
  | invalidConstant (mnemonic : String) (position : Nat)
  | missingReturn
deriving Repr, DecidableEq, Inhabited

inductive Fault where
  | structural (error : StructuralError)
  | noClassDefFound (className : String)
  | superclass (className : String) (cause : Fault)
  | resolution (error : ResolutionError)
  | execution (error : ExecutionError)
  | io (error : IoError)
deriving Repr, DecidableEq, Inhabited

def IoError.message : IoError → String
  | notFound => "No such file or directory (os error 2)"
  | notADirectory => "Not a directory (os error 20)"
  | isADirectory => "Is a directory (os error 21)"
  | nameTooLong => "File name too long (os error 36)"
  | alreadyExists => "File exists (os error 17)"
  | embeddedNul => "file name contained an unexpected NUL byte"
  | consoleFull => "failed to write whole buffer"
  | other text => text

def ResolutionError.message : ResolutionError → String
  | classNotFound className => "class " ++ className ++ " not found"
  | nameMismatch expected found =>
    "expected class " ++ expected ++ " but the class source defined " ++ found
  | noSuchField className field => "no field " ++ field ++ " in " ++ className
  | noSuchMethod className name descriptor =>
    "no overload for " ++ className ++ "." ++ name ++ " with signature " ++ descriptor
  | ambiguousOverload className name descriptor =>
    "ambiguous overload for " ++ className ++ "." ++ name ++ " with signature " ++ descriptor
  | missingCode className name =>
    "method " ++ className ++ "." ++ name ++ " has no Code attribute"

def ExecutionError.message : ExecutionError → String
  | unsupportedOpcode opcode pc =>
    "unsupported opcode 0x" ++ Text.hexPadded 2 opcode.toNat ++ s!" at pc {pc}"
  | truncatedInstruction mnemonic pc => s!"truncated {mnemonic} at pc {pc}"
  | stackUnderflow => "operand stack underflow"
  | localOutOfRange index count => s!"local variable slot {index} out of range ({count} slots)"
  | nullFieldStore field => "cannot set field " ++ field ++ " on null"
  | nullFieldLoad field => "cannot read field " ++ field ++ " of null"
  | notAnInstance shown => "field access on a value that is not an instance: " ++ shown
  | invalidConstant mnemonic position =>
    s!"invalid operand for {mnemonic}: constant pool entry {position}"
  | missingReturn => "execution ran past the end of the code without returning"

namespace Fault

def message : Fault → String
  | structural error => error.message
  | noClassDefFound className => "NoClassDefFoundError: " ++ className
  | superclass className _ => "cannot initialize superclass of " ++ className
  | resolution error => error.message
  | execution error => error.message
  | io error => "IO error: " ++ error.message

/-- The messages of a fault and of its causes, outermost first. An input or output fault is caused
by what the system reports. -/
def chain : Fault → List String
  | superclass className cause => (superclass className cause).message :: chain cause
  | io error => [(io error).message, error.message]
  | fault => [fault.message]

end Fault

end ClassMachine
