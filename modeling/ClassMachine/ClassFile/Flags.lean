import ClassMachine.Text.Quoted

/-!
# Access flags
-/

namespace ClassMachine

/-- The access and property bits of a class, field or method. -/
structure AccessFlags where
  bits : UInt16
deriving Repr, DecidableEq, Inhabited

namespace AccessFlags

def publicBit : UInt16 := 0x0001

def staticBit : UInt16 := 0x0008

def nativeBit : UInt16 := 0x0100

def interfaceBit : UInt16 := 0x0200

/-- Whether every bit of the mask is set. -/
def contains (flags : AccessFlags) (mask : UInt16) : Bool :=
  flags.bits &&& mask == mask

def isStatic (flags : AccessFlags) : Bool :=
  flags.contains staticBit

def isInterface (flags : AccessFlags) : Bool :=
  flags.contains interfaceBit

def inspect (flags : AccessFlags) : String :=
  "AccessFlags(0x" ++ Text.hexPadded 4 flags.bits.toNat ++ ")"

end AccessFlags

end ClassMachine
