import ClassMachine.Pool.Basic

/-!
# Checking a constant pool

The check follows the references of each constant, in order, and stops at the first one that fails.
Of a name and type only the name is followed, unless a member refers to it.
-/

namespace ClassMachine.ConstantPool

variable (pool : ConstantPool)

def checkConstant : Constant → Except StructuralError Unit
  | .classEntry name | .nameAndType name _ => discard (pool.utf8 name)
  | .string text => discard (pool.utf8 text)
  | .member _ owner nameAndType => do
    discard (pool.className owner)
    discard (pool.nameAndType nameAndType)
  | _ => .ok ()

def check : Except StructuralError Unit :=
  pool.constants.toList.forM pool.checkConstant

end ClassMachine.ConstantPool
