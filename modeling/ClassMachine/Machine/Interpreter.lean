import ClassMachine.Machine.Frame
import ClassMachine.Machine.Opcode
import ClassMachine.Native.Perform
import ClassMachine.ClassTable.Initialization

/-!
# Running methods

Instructions run one after another until one of them returns. A call takes its arguments off the
values that the activation owns, runs the method, and what that has left on the stack belongs to
the activation. `areturn` takes everything that the activation owns and leaves one value; `return`
leaves things as they are.

Calls are nested at most `depth` deep, and so are initializations.
-/

namespace ClassMachine

namespace Instruction

/-- An operand of one byte as a signed number. -/
def signedByte (operand : Nat) : Int32 :=
  operand.toUInt8.toInt8.toInt32

/-- An operand of two bytes as a signed number. -/
def signedShort (operand : Nat) : Int32 :=
  operand.toUInt16.toInt16.toInt32

/-- The position in the constant pool that an operand refers to. -/
def position (operand : Nat) : Run Nat :=
  match operand with
  | 0 => Run.fail (.structural .reservedPoolIndex)
  | position + 1 => pure position

def memberRef (pool : ConstantPool) (operand : Nat) : Run MemberRef := do
  Run.structural (pool.memberRef (← position operand))

/-- The value of a constant, for the instruction that loads short ones. -/
def constant (pool : ConstantPool) (operand : Nat) : Run Slot := do
  let position ← position operand
  match pool.literal position with
  | .ok value => return value
  | .error _ => Run.execution (.invalidConstant Opcode.ldc.mnemonic position)

/-- The value of a constant, for the instruction that loads wide ones. -/
def wideConstant (pool : ConstantPool) (operand : Nat) : Run Slot := do
  let position ← position operand
  let constant ← Run.structural (pool.get position)
  if constant.isWide then Run.structural (pool.literal position)
  else Run.execution (.invalidConstant Opcode.ldc2w.mnemonic position)

/-- The value of a static field of a class, which is loaded and initialized for it. -/
def staticField (depth : Nat) (member : MemberRef) : Run Slot :=
  Run.link do
    discard (Linking.load member.className)
    Linking.initClass depth member.className
    Linking.getStatic member.className member.name

/-- The object that a field access is for; `onNull` is the error if there is none. -/
def receiver (onNull : ExecutionError) (value : Slot) : Run ObjectId := do
  match value.value with
  | .object id => return id
  | .null => Run.execution onNull
  | _ => Run.execution (.notAnInstance (← Run.shown value))

def getField (name : Bytes) (target : Slot) : Run Slot := do
  let id ← receiver (.nullFieldLoad (Utf8.lenient name)) target
  let heap := (← get).heap
  match (heap.get? id).bind (·.fields.get? name) with
  | some value => return value
  | none =>
    Run.fail (.resolution (.noSuchField (Utf8.lenient (heap.className id)) (Utf8.lenient name)))

def putField (name : Bytes) (target value : Slot) : Run Unit := do
  let id ← receiver (.nullFieldStore (Utf8.lenient name)) target
  modify fun machine => { machine with heap := machine.heap.setField id name value }

/-- A new object of a class, which is loaded for it but not initialized. -/
def newObject (pool : ConstantPool) (operand : Nat) : Run Slot := do
  let className ← Run.structural (pool.className (← position operand))
  Run.create (← Run.link (Linking.load className))

/-- How many values a call takes: the arguments, and the receiver unless the method is static. -/
def argumentCount (method : Method) : Nat :=
  method.signature.params.length + (if method.isStatic then 0 else 1)

/-- Calls the method that the operand refers to. The values by which the stack has grown belong to
the caller. -/
def invoke (call : ResolvedMethod → List Slot → Run Unit) (pool : ConstantPool) (operand : Nat)
    (frame : Frame) : Run Frame := do
  let member ← memberRef pool operand
  let target ← Run.link (Linking.resolve member.className member.name member.descriptor)
  let (args, frame) ← frame.popMany (argumentCount target.method) []
  let before := (← get).stack.size
  call target args
  let after := (← get).stack.size
  if after < before then Run.execution .stackUnderflow
  return { frame with owned := frame.owned + (after - before) }

/-- Runs one instruction. The activation goes on with the frame that it gives, or ends. -/
def run (call : ResolvedMethod → List Slot → Run Unit) (depth : Nat) (pool : ConstantPool)
    (pc : Nat) (opcode : Opcode) (operand : Nat) (frame : Frame) : Run (Option Frame) := do
  match opcode with
  | .nop => return frame
  | .iconst1 => frame.push (.int 1)
  | .dconst1 => frame.push (.of (.double (Format.double.round false 1 0)))
  | .bipush => frame.push (.int (signedByte operand))
  | .sipush => frame.push (.int (signedShort operand))
  | .ldc => frame.push (← constant pool operand)
  | .ldc2w => frame.push (← wideConstant pool operand)
  | .aload0 => frame.push (← frame.getLocal 0)
  | .aload1 => frame.push (← frame.getLocal 1)
  | .astore0 =>
    let (value, frame) ← frame.pop
    frame.setLocal 0 value
  | .astore1 =>
    let (value, frame) ← frame.pop
    frame.setLocal 1 value
  | .dup =>
    let (value, frame) ← frame.pop
    let frame ← frame.push value
    frame.push value
  | .getstatic => frame.push (← staticField depth (← memberRef pool operand))
  | .getfield =>
    let member ← memberRef pool operand
    let (target, frame) ← frame.pop
    frame.push (← getField member.name target)
  | .putfield =>
    let member ← memberRef pool operand
    let (value, frame) ← frame.pop
    let (target, frame) ← frame.pop
    putField member.name target value
    return frame
  | .new => frame.push (← newObject pool operand)
  | .invokevirtual | .invokespecial => invoke call pool operand frame
  | .returnVoid => return none
  | .areturn =>
    let (result, frame) ← frame.pop
    discard frame.clear
    Run.push result
    return none
  | .unsupported byte => Run.execution (.unsupportedOpcode byte pc)

end Instruction

namespace Machine

/-- Runs the instructions of an activation until it ends. -/
def execute (call : ResolvedMethod → List Slot → Run Unit) (depth : Nat) (pool : ConstantPool) :
    Listing → Frame → Run Unit
  | .exhausted, _ => Run.execution .missingReturn
  | .truncated pc opcode, _ => Run.execution (.truncatedInstruction opcode.mnemonic pc)
  | .instruction pc opcode operand next, frame => do
    match ← Instruction.run call depth pool pc opcode operand frame with
    | some frame => execute call depth pool next frame
    | none => return

/-- Runs a method with its arguments in the order of the call, the receiver first. -/
def runMethod : (depth : Nat) → ResolvedMethod → List Slot → Run Unit
  | 0, _, _ => throw .tooDeep
  | depth + 1, target, args =>
    match target.method.body with
    | .native actions => NativeAction.performAll args actions
    | .bytecode =>
      match target.method.code? with
      | none =>
        let name := (target.file.text? target.method.name).getD []
        Run.fail (.resolution (.missingCode target.file.displayName (Utf8.lenient name)))
      | some code =>
        execute (runMethod depth) depth target.file.pool (Listing.ofBytes code.bytes)
          (Frame.enter code args)

/-- Loads and initializes a class and runs a method of it. -/
def invoke (depth : Nat) (className name descriptor : Bytes) (args : List Slot) : Run Unit := do
  let target ← Run.link do
    discard (Linking.load className)
    Linking.initClass depth className
    Linking.resolve className name descriptor
  runMethod depth target args

/-- The depth at which a run is given up. -/
def depthLimit : Nat := 1000000

def mainName : Bytes := Utf8.encode "main"

def mainDescriptor : Bytes := Utf8.encode "([Ljava/lang/String;)V"

/-- Runs the entry point of a class without an array of arguments. -/
def runMain (depth : Nat) (className : Bytes) : Run Unit :=
  invoke depth className mainName mainDescriptor [.null]

end Machine

end ClassMachine
