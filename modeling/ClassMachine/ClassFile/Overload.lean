import ClassMachine.ClassFile.Basic
import ClassMachine.Fault

/-!
# Choice of a method

A call names a method and gives a descriptor. The method is the only one of that name whose
parameters are spelled as in the descriptor; results are not compared and no other method is
considered.
-/

namespace ClassMachine.ClassFile

variable (file : ClassFile)

/-- Whether a method has the name, and its parameters are spelled as in the descriptor. -/
def fits (name descriptor : Bytes) (method : Method) : Bool :=
  file.text? method.name == some name &&
    (file.text? method.descriptor).map MethodSignature.paramsText ==
      some (MethodSignature.paramsText descriptor)

/-- The methods that fit, with their places. -/
def fitting (name descriptor : Bytes) : List (Method × Nat) :=
  file.methods.zipIdx.filter fun (method, _) => file.fits name descriptor method

/-- The method that a call means, with its place. -/
def overload (name descriptor : Bytes) : Except ResolutionError (Method × Nat) :=
  let shown (error : String → String → String → ResolutionError) : ResolutionError :=
    error file.displayName (Utf8.lenient name) (Utf8.lenient descriptor)
  match file.fitting name descriptor with
  | [] => .error (shown .noSuchMethod)
  | [found] => .ok found
  | _ => .error (shown .ambiguousOverload)

end ClassMachine.ClassFile
