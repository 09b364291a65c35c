import ClassMachine.Number.Notation
import ClassMachine.Text.Quoted

/-!
# Values

A slot of the operand stack, of local variables or of a field holds a value and a tag. The tag is
advice only: a value comes with the tag of its kind, but a slot may carry any. Objects are referred
to by their number on the heap.
-/

namespace ClassMachine

inductive Tag where
  | integer
  | float
  | reference
  | returnAddress
deriving Repr, DecidableEq, Inhabited

abbrev ObjectId := Nat

inductive Value where
  | null
  | int (x : Int32)
  | long (x : Int64)
  | float (x : Number)
  | double (x : Number)
  | string (text : String)
  | object (id : ObjectId)
deriving DecidableEq, Inhabited

namespace Tag

def name : Tag → String
  | integer => "Integer"
  | float => "Float"
  | reference => "Reference"
  | returnAddress => "Return"

end Tag

namespace Value

/-- The tag of a value's own kind. -/
def tag : Value → Tag
  | int _ | long _ => .integer
  | float _ | double _ => .float
  | null | string _ | object _ => .reference

/-- Local variable slots that the value takes. -/
def width : Value → Nat
  | long _ | double _ => 2
  | _ => 1

def isNull : Value → Bool
  | null => true
  | _ => false

def isObject : Value → Bool
  | object _ => true
  | _ => false

/-- Comparison as the program sees it: floating point numbers as numbers, objects by identity. -/
def equal : Value → Value → Bool
  | null, null => true
  | int x, int y => x == y
  | long x, long y => x == y
  | float x, float y => x.equal y
  | double x, double y => x.equal y
  | string s, string t => s == t
  | object i, object j => i == j
  | _, _ => false

/-- The text that the console shows, given the labels of objects. -/
def display (label : ObjectId → String) : Value → String
  | null => "null"
  | int x => toString x.toInt
  | long x => toString x.toInt
  | float x => x.console .single
  | double x => x.console .double
  | string text => text
  | object id => label id

/-- The text for inspection, which shows the kind. -/
def inspect (label : ObjectId → String) : Value → String
  | null => "Null"
  | int x => "Int(" ++ toString x.toInt ++ ")"
  | long x => "Long(" ++ toString x.toInt ++ ")"
  | float x => "Float(" ++ x.inspection .single ++ ")"
  | double x => "Double(" ++ x.inspection .double ++ ")"
  | string text => "String(" ++ Text.quoted text ++ ")"
  | object id => "Object(" ++ label id ++ ")"

end Value

structure Slot where
  tag : Tag
  value : Value
deriving DecidableEq, Inhabited

namespace Slot

/-- A slot with the tag of the value's own kind. -/
def of (value : Value) : Slot :=
  ⟨value.tag, value⟩

def null : Slot :=
  of .null

def int (x : Int32) : Slot :=
  of (.int x)

def width (slot : Slot) : Nat :=
  slot.value.width

def equal (a b : Slot) : Bool :=
  a.tag == b.tag && a.value.equal b.value

def inspect (label : ObjectId → String) (slot : Slot) : String :=
  "StackValue \x7b tag: " ++ slot.tag.name ++ ", value: " ++ slot.value.inspect label ++ " \x7d"

end Slot

end ClassMachine
