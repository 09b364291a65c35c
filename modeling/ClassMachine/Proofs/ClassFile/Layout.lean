import ClassMachine.ClassFile.Decoder
import ClassMachine.Proofs.ClassFile.Reading
import ClassMachine.Proofs.Number.Decoding

/-!
# The layout of class files

Which byte strings write a class file, said without reading them. Numbers are written most
significant byte first, and positions in the constant pool as the index above them. The types keep
code attributes apart from the others, so that a code attribute cannot stand inside another one.
-/

namespace ClassMachine.Layout

open Form

def memberTag : MemberKind → UInt8
  | .field => 9
  | .method => 10
  | .interfaceMethod => 11

/-- The tag of each kind of constant; the empty position behind a wide one is not written. -/
def tag : Constant → UInt8
  | .utf8 _ => 1
  | .integer _ => 3
  | .float _ => 4
  | .long _ => 5
  | .double _ => 6
  | .classEntry _ => 7
  | .string _ => 8
  | .member kind _ _ => memberTag kind
  | .nameAndType _ _ => 12
  | .empty => 0

/-- What stands behind the tag. Floating point numbers are written as bit patterns, each of which
stands for the number that the standard gives to it. -/
def constantBody : Constant → Bytes → Prop
  | .utf8 text, bytes => text.length < 2 ^ 16 ∧ bytes = Bytes.ofNat 2 text.length ++ text
  | .integer x, bytes => bytes = Bytes.ofNat 4 x.toUInt32.toNat
  | .float x, bytes => ∃ bits : UInt32,
      Format.single.Denotes bits.toNat x ∧ bytes = Bytes.ofNat 4 bits.toNat
  | .long x, bytes => bytes = Bytes.ofNat 8 x.toUInt64.toNat
  | .double x, bytes => ∃ bits : UInt64,
      Format.double.Denotes bits.toNat x ∧ bytes = Bytes.ofNat 8 bits.toNat
  | .classEntry name, bytes => position name bytes
  | .string text, bytes => position text bytes
  | .member _ owner nameAndType, bytes => ∃ front back,
      position owner front ∧ position nameAndType back ∧ bytes = front ++ back
  | .nameAndType name descriptor, bytes => ∃ front back,
      position name front ∧ position descriptor back ∧ bytes = front ++ back
  | .empty, _ => False

def constant : Form Constant :=
  fun constant bytes => ∃ back, constantBody constant back ∧ bytes = tag constant :: back

/-- The positions that a constant takes in a pool: a long or double has an empty one behind it. -/
def taken : Constant → List Constant
  | .long x => [.long x, .empty]
  | .double x => [.double x, .empty]
  | constant => [constant]

theorem length_taken (constant : Constant) :
    (taken constant).length = if constant.isWide then 2 else 1 := by
  cases constant <;> rfl

theorem length_taken_pos (constant : Constant) : 0 < (taken constant).length := by
  rw [length_taken]
  split <;> decide

def positions (constants : List Constant) : List Constant :=
  constants.flatMap taken

theorem positions_cons (constant : Constant) (constants : List Constant) :
    positions (constant :: constants) = taken constant ++ positions constants :=
  List.flatMap_cons

theorem positions_append (front back : List Constant) :
    positions (front ++ back) = positions front ++ positions back :=
  List.flatMap_append

def slots (constants : List Constant) : Nat :=
  (positions constants).length

theorem slots_cons (constant : Constant) (constants : List Constant) :
    slots (constant :: constants) = (taken constant).length + slots constants := by
  rw [slots, positions_cons, List.length_append, slots]

theorem slots_append (front back : List Constant) :
    slots (front ++ back) = slots front + slots back := by
  rw [slots, positions_append, List.length_append]
  rfl

/-- The constants take as many positions as are wanted, and without the last of them they would
not. -/
def Fills (wanted : Nat) (constants : List Constant) : Prop :=
  wanted ≤ slots constants ∧
    ∀ front last, constants = front ++ [last] → slots front < wanted

theorem fills_zero_iff (constants : List Constant) : Fills 0 constants ↔ constants = [] := by
  constructor
  · rintro ⟨-, hlast⟩
    rcases List.eq_nil_or_concat constants with rfl | ⟨front, last, rfl⟩
    · rfl
    · exact absurd (hlast front last List.concat_eq_append) (Nat.not_lt_zero _)
  · rintro rfl
    exact ⟨Nat.zero_le _, by simp⟩

/-- The first constant takes its positions, and the others fill what is left. -/
theorem fills_cons_iff {wanted : Nat} (hwanted : 0 < wanted) (constant : Constant)
    (constants : List Constant) : Fills wanted (constant :: constants) ↔
      Fills (wanted - (taken constant).length) constants := by
  have hslots := slots_cons constant
  constructor
  · rintro ⟨hle, hlast⟩
    refine ⟨?_, fun front last h => ?_⟩
    · rw [hslots] at hle
      omega
    · have hfront := hlast (constant :: front) last (by rw [h, List.cons_append])
      rw [hslots] at hfront
      omega
  · rintro ⟨hle, hlast⟩
    refine ⟨?_, fun front last h => ?_⟩
    · rw [hslots]
      omega
    · cases front with
      | nil => exact hwanted
      | cons first front =>
        rw [List.cons_append, List.cons.injEq] at h
        obtain ⟨rfl, h⟩ := h
        have hfront := hlast front last h
        rw [hslots]
        omega

theorem fills_succ_iff (wanted : Nat) (constants : List Constant) :
    Fills (wanted + 1) constants ↔ ∃ first others, constants = first :: others ∧
      Fills (wanted + 1 - (taken first).length) others := by
  constructor
  · intro h
    cases constants with
    | nil => exact absurd h.1 (Nat.not_succ_le_zero _)
    | cons first others => exact ⟨first, others, rfl, (fills_cons_iff wanted.succ_pos _ _).1 h⟩
  · rintro ⟨first, others, rfl, h⟩
    exact (fills_cons_iff wanted.succ_pos _ _).2 h

/-- The count in front of the constants is one more than the number of positions wanted. -/
def pool : Form ConstantPool :=
  fun pool bytes => ∃ count constants back,
    count < 2 ^ 16 ∧ Fills (count - 1) constants ∧ sequence constant constants back ∧
    pool.constants.toList = positions constants ∧ bytes = Bytes.ofNat 2 count ++ back

def textAt (pool : ConstantPool) (place : Nat) (text : Bytes) : Prop :=
  pool.constants[place]? = some (.utf8 text)

/-- An attribute is the position of its name, the length of its content and the content. -/
def attributeNamed (pool : ConstantPool) (name : AttributeName) (content : Bytes → Prop)
    (bytes : Bytes) : Prop :=
  ∃ place front back, position place front ∧
    textAt pool place (Utf8.encode name.spelling) ∧
    back.length < 2 ^ 32 ∧ content back ∧
    bytes = front ++ Bytes.ofNat 4 back.length ++ back

def lineNumber : Form LineNumber :=
  fun line bytes => bytes = Bytes.ofNat 2 line.start.toNat ++ Bytes.ofNat 2 line.line.toNat

/-- The type of the exception is written as it is, be it an index or 0. -/
def exceptionRange : Form ExceptionRange :=
  fun range bytes => bytes =
    Bytes.ofNat 2 range.start.toNat ++ Bytes.ofNat 2 range.stop.toNat ++
      Bytes.ofNat 2 range.handler.toNat ++ Bytes.ofNat 2 range.catchType.toNat

def plainContent : PlainAttribute → Bytes → Prop
  | .constantValue place, bytes => position place bytes
  | .signature place, bytes => position place bytes
  | .sourceFile place, bytes => position place bytes
  | .lineNumberTable lines, bytes => table lineNumber lines bytes
  | .raw _ content, bytes => bytes = content

def plainAttribute (pool : ConstantPool) : Form PlainAttribute :=
  fun content => attributeNamed pool content.name (plainContent content)

def code (pool : ConstantPool) : Form Code :=
  fun code bytes => ∃ exceptions attributes,
    code.bytes.length < 2 ^ 32 ∧ table exceptionRange code.exceptions exceptions ∧
    table (plainAttribute pool) code.attributes attributes ∧
    bytes = Bytes.ofNat 2 code.maxStack.toNat ++ Bytes.ofNat 2 code.maxLocals.toNat ++
      Bytes.ofNat 4 code.bytes.length ++ code.bytes ++ exceptions ++ attributes

def content (pool : ConstantPool) : Attribute → Bytes → Prop
  | .plain content => plainContent content
  | .code content => code pool content

def anyAttribute (pool : ConstantPool) : Form Attribute :=
  fun any => attributeNamed pool any.name (content pool any)

def memberBytes (pool : ConstantPool) (flags : AccessFlags) (name descriptor : Nat)
    (attributes : List Attribute) (bytes : Bytes) : Prop :=
  ∃ nameBytes descriptorBytes attributeBytes, position name nameBytes ∧
    position descriptor descriptorBytes ∧ table (anyAttribute pool) attributes attributeBytes ∧
    bytes = Bytes.ofNat 2 flags.bits.toNat ++ nameBytes ++ descriptorBytes ++ attributeBytes

/-- The descriptor of a field has to be a text that describes a type. -/
def field (pool : ConstantPool) : Form Field :=
  fun field bytes =>
    (∃ text type, textAt pool field.descriptor text ∧ FieldType.parse text = .ok type) ∧
    memberBytes pool field.flags field.name field.descriptor field.attributes bytes

/-- The descriptor of a method has to be a text that describes the signature. -/
def method (pool : ConstantPool) : Form Method :=
  fun method bytes =>
    (∃ text, textAt pool method.descriptor text ∧
      MethodSignature.parse text = .ok method.signature) ∧
    method.body = .bytecode ∧
    memberBytes pool method.flags method.name method.descriptor method.attributes bytes

def contents : Form ClassFile :=
  fun file bytes => ∃ poolBytes thisBytes superBytes interfaceBytes fieldBytes methodBytes
      attributeBytes,
    pool file.pool poolBytes ∧ position file.thisClass thisBytes ∧
    optionalPosition file.superClass superBytes ∧
    table position file.interfaces interfaceBytes ∧
    table (field file.pool) file.fields fieldBytes ∧
    table (method file.pool) file.methods methodBytes ∧
    table (anyAttribute file.pool) file.attributes attributeBytes ∧
    bytes = Bytes.ofNat 2 file.minorVersion.toNat ++ Bytes.ofNat 2 file.majorVersion.toNat ++
      poolBytes ++ Bytes.ofNat 2 file.flags.bits.toNat ++ thisBytes ++ superBytes ++
      interfaceBytes ++ fieldBytes ++ methodBytes ++ attributeBytes

def classFile : Form ClassFile :=
  fun file bytes => ∃ back, contents file back ∧ bytes = [0xca, 0xfe, 0xba, 0xbe] ++ back

def head (file : ClassFile) : Bytes :=
  [0xca, 0xfe, 0xba, 0xbe] ++ Bytes.ofNat 2 file.minorVersion.toNat ++
    Bytes.ofNat 2 file.majorVersion.toNat

theorem length_head (file : ClassFile) : (head file).length = 8 := by
  simp [head, Bytes.length_ofNat]

/-- All bytes behind the constant pool, with fields of that form. -/
def behindPool (field : ConstantPool → Form Field) : Form ClassFile :=
  fun file bytes => ∃ thisBytes superBytes interfaceBytes fieldBytes methodBytes attributeBytes,
    position file.thisClass thisBytes ∧
    optionalPosition file.superClass superBytes ∧
    table position file.interfaces interfaceBytes ∧
    table (field file.pool) file.fields fieldBytes ∧
    table (method file.pool) file.methods methodBytes ∧
    table (anyAttribute file.pool) file.attributes attributeBytes ∧
    bytes = Bytes.ofNat 2 file.flags.bits.toNat ++ thisBytes ++ superBytes ++ interfaceBytes ++
      fieldBytes ++ methodBytes ++ attributeBytes

/-- A class file is cut into three parts by its constant pool. -/
theorem classFile_iff_parts {file : ClassFile} {content : Bytes} :
    classFile file content ↔ ∃ poolBytes back, pool file.pool poolBytes ∧
      behindPool field file back ∧ content = head file ++ (poolBytes ++ back) := by
  constructor
  · rintro ⟨_, ⟨poolBytes, thisBytes, superBytes, interfaceBytes, fieldBytes, methodBytes,
      attributeBytes, hpool, hthis, hsuper, hinterfaces, hfields, hmethods, hattributes, rfl⟩, rfl⟩
    refine ⟨poolBytes, _, hpool, ⟨thisBytes, superBytes, interfaceBytes, fieldBytes, methodBytes,
      attributeBytes, hthis, hsuper, hinterfaces, hfields, hmethods, hattributes, rfl⟩, ?_⟩
    simp [head]
  · rintro ⟨poolBytes, _, hpool, ⟨thisBytes, superBytes, interfaceBytes, fieldBytes, methodBytes,
      attributeBytes, hthis, hsuper, hinterfaces, hfields, hmethods, hattributes, rfl⟩, rfl⟩
    refine ⟨_, ⟨poolBytes, thisBytes, superBytes, interfaceBytes, fieldBytes, methodBytes,
      attributeBytes, hpool, hthis, hsuper, hinterfaces, hfields, hmethods, hattributes, rfl⟩, ?_⟩
    simp [head]

end ClassMachine.Layout
