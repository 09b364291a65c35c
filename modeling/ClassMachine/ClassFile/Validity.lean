import ClassMachine.ClassFile.Basic
import ClassMachine.ClassFile.Decoder
import ClassMachine.Pool.Validity

/-!
# Checking a class file

After the constant pool, the positions that the class file itself holds are followed: names of
classes, fields and methods, descriptors of fields, and what attributes refer to. The descriptor of
a method has been read when the method was, and types of exceptions are not looked at.
-/

namespace ClassMachine.ClassFile

variable (pool : ConstantPool)

def checkPlainAttribute : PlainAttribute → Except StructuralError Unit
  | .sourceFile position | .signature position => discard (pool.utf8 position)
  | .constantValue position => discard (pool.literal position)
  | .lineNumberTable _ | .raw _ _ => .ok ()

def checkAttribute : Attribute → Except StructuralError Unit
  | .plain content => checkPlainAttribute pool content
  | .code code => code.attributes.forM (checkPlainAttribute pool)

def checkField (field : Field) : Except StructuralError Unit := do
  discard (pool.utf8 field.name)
  discard (pool.utf8 field.descriptor)
  field.attributes.forM (checkAttribute pool)

def checkMethod (method : Method) : Except StructuralError Unit := do
  discard (pool.utf8 method.name)
  method.attributes.forM (checkAttribute pool)

def check (file : ClassFile) : Except StructuralError Unit := do
  let pool := file.pool
  pool.check
  discard (pool.className file.thisClass)
  file.superClass.toList.forM fun position => discard (pool.className position)
  file.interfaces.forM fun position => discard (pool.className position)
  file.attributes.forM (checkAttribute pool)
  file.fields.forM (checkField pool)
  file.methods.forM (checkMethod pool)

/-- Reads and checks a class file. -/
def parseChecked (content : Bytes) : Except StructuralError ClassFile := do
  let file ← parse content
  file.check
  return file

end ClassMachine.ClassFile
