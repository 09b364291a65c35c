import ClassMachine.Proofs.ClassFile.Layout

/-!
# Reading a constant pool is exact

A constant is read by its tag. Constants are read until the positions that the count announces are
taken, so the last one is wanted and may take one position too many.
-/

namespace ClassMachine.ClassFile

open Decoder

theorem reads_positions {β : Type} (f : Nat → Nat → β) :
    Reads (do
      let first ← poolIndex
      return f first (← poolIndex))
    fun b bytes => ∃ first second front back, Form.position first front ∧
      Form.position second back ∧ f first second = b ∧ bytes = front ++ back := by
  refine (reads_poolIndex.bind fun first => reads_poolIndex.thenPure (f first)).congr
    fun b bytes => ?_
  constructor
  · rintro ⟨first, front, back, hfront, ⟨second, hback, rfl⟩, rfl⟩
    exact ⟨first, second, front, back, hfront, hback, rfl, rfl⟩
  · rintro ⟨first, second, front, back, hfront, hback, rfl, rfl⟩
    exact ⟨first, front, back, hfront, ⟨second, hback, rfl⟩, rfl⟩

theorem memberTag_eq_iff (kind : MemberKind) (n : UInt8) :
    Layout.memberTag kind = n ↔ kind = .field ∧ n = 9 ∨ kind = .method ∧ n = 10 ∨
      kind = .interfaceMethod ∧ n = 11 := by
  cases kind <;> simp [Layout.memberTag, eq_comm]

theorem reads_memberDecoder (kind : MemberKind) : Reads (memberDecoder kind) fun constant bytes =>
    Layout.tag constant = Layout.memberTag kind ∧ Layout.constantBody constant bytes := by
  refine (reads_positions (Constant.member kind)).congr fun constant bytes => ?_
  constructor
  · rintro ⟨owner, nameAndType, front, back, hfront, hback, rfl, rfl⟩
    exact ⟨rfl, front, back, hfront, hback, rfl⟩
  · rintro ⟨htag, hbody⟩
    cases constant with
    | member other owner nameAndType =>
      obtain rfl : other = kind := by
        cases other <;> cases kind <;> simp [Layout.tag, Layout.memberTag] at htag ⊢
      obtain ⟨front, back, hfront, hback, rfl⟩ := hbody
      exact ⟨owner, nameAndType, front, back, hfront, hback, rfl, rfl⟩
    | _ => cases kind <;> simp [Layout.tag, Layout.memberTag] at htag

def bodyDecoder (entry : Nat) (tag : UInt8) : Decoder Constant :=
  match tag.toNat with
  | 1 => return .utf8 (← bytes (← u16).toNat)
  | 3 => return .integer (← u32).toInt32
  | 4 => return .float (Format.single.decode (← u32).toNat)
  | 5 => return .long (← u64).toInt64
  | 6 => return .double (Format.double.decode (← u64).toNat)
  | 7 => return .classEntry (← poolIndex)
  | 8 => return .string (← poolIndex)
  | 9 => memberDecoder .field
  | 10 => memberDecoder .method
  | 11 => memberDecoder .interfaceMethod
  | 12 => do
    let name ← poolIndex
    return .nameAndType name (← poolIndex)
  | _ => throw (.unknownConstantTag tag entry)

theorem constantDecoder_eq (entry : Nat) :
    constantDecoder entry = u8 >>= bodyDecoder entry :=
  rfl

theorem reads_text : Reads (do return Constant.utf8 (← bytes (← u16).toNat)) fun constant bytes =>
    Layout.tag constant = 1 ∧ Layout.constantBody constant bytes := by
  refine (reads_u16.bind fun n => (reads_bytes n.toNat).thenPure Constant.utf8).congr
    fun constant bytes => ?_
  cases constant with
  | utf8 text =>
    constructor
    · rintro ⟨length, _, _, rfl, ⟨_, ⟨rfl, hlength⟩, htext⟩, rfl⟩
      obtain rfl := Constant.utf8.inj htext
      exact ⟨rfl, hlength ▸ length.toNat_lt, by rw [hlength]⟩
    · rintro ⟨-, hlt, rfl⟩
      have hlength := UInt16.toNat_ofNat_of_lt' hlt
      exact ⟨_, _, text, rfl, ⟨text, ⟨rfl, hlength.symm⟩, rfl⟩, by rw [hlength]⟩
  | _ => simp [Layout.tag, memberTag_eq_iff]

theorem reads_integer : Reads (do return Constant.integer (← u32).toInt32) fun constant bytes =>
    Layout.tag constant = 3 ∧ Layout.constantBody constant bytes := by
  refine (reads_u32.thenPure fun x => Constant.integer x.toInt32).congr fun constant bytes => ?_
  cases constant with
  | integer x =>
    constructor
    · rintro ⟨bits, rfl, hx⟩
      obtain rfl := Constant.integer.inj hx
      exact ⟨rfl, rfl⟩
    · rintro ⟨-, rfl⟩
      exact ⟨x.toUInt32, rfl, rfl⟩
  | _ => simp [Layout.tag, memberTag_eq_iff]

theorem reads_long : Reads (do return Constant.long (← u64).toInt64) fun constant bytes =>
    Layout.tag constant = 5 ∧ Layout.constantBody constant bytes := by
  refine (reads_u64.thenPure fun x => Constant.long x.toInt64).congr fun constant bytes => ?_
  cases constant with
  | long x =>
    constructor
    · rintro ⟨bits, rfl, hx⟩
      obtain rfl := Constant.long.inj hx
      exact ⟨rfl, rfl⟩
    · rintro ⟨-, rfl⟩
      exact ⟨x.toUInt64, rfl, rfl⟩
  | _ => simp [Layout.tag, memberTag_eq_iff]

theorem reads_float : Reads (do return Constant.float (Format.single.decode (← u32).toNat))
    fun constant bytes => Layout.tag constant = 4 ∧ Layout.constantBody constant bytes := by
  refine (reads_u32.thenPure fun x => Constant.float (Format.single.decode x.toNat)).congr
    fun constant bytes => ?_
  cases constant with
  | float x =>
    have hdenotes (bits : UInt32) := Format.denotes_iff bits.toNat Format.withinDouble_single (x := x)
    simp [Layout.tag, Layout.constantBody, hdenotes, and_comm, eq_comm]
  | _ => simp [Layout.tag, memberTag_eq_iff]

theorem reads_double : Reads (do return Constant.double (Format.double.decode (← u64).toNat))
    fun constant bytes => Layout.tag constant = 6 ∧ Layout.constantBody constant bytes := by
  refine (reads_u64.thenPure fun x => Constant.double (Format.double.decode x.toNat)).congr
    fun constant bytes => ?_
  cases constant with
  | double x =>
    have hdenotes (bits : UInt64) := Format.denotes_iff bits.toNat Format.withinDouble_double (x := x)
    simp [Layout.tag, Layout.constantBody, hdenotes, and_comm, eq_comm]
  | _ => simp [Layout.tag, memberTag_eq_iff]

theorem reads_bodyDecoder (entry : Nat) (tag : UInt8) :
    Reads (bodyDecoder entry tag) fun constant bytes =>
      Layout.tag constant = tag ∧ Layout.constantBody constant bytes := by
  have htag (n : UInt8) (h : tag.toNat = n.toNat) : tag = n := UInt8.toNat_inj.1 h
  unfold bodyDecoder
  split
  next h => obtain rfl := htag 1 h; exact reads_text
  next h => obtain rfl := htag 3 h; exact reads_integer
  next h => obtain rfl := htag 4 h; exact reads_float
  next h => obtain rfl := htag 5 h; exact reads_long
  next h => obtain rfl := htag 6 h; exact reads_double
  next h =>
    obtain rfl := htag 7 h
    refine (reads_poolIndex.thenPure Constant.classEntry).congr fun constant bytes => ?_
    cases constant <;> simp [Layout.tag, Layout.constantBody, memberTag_eq_iff]
  next h =>
    obtain rfl := htag 8 h
    refine (reads_poolIndex.thenPure Constant.string).congr fun constant bytes => ?_
    cases constant <;> simp [Layout.tag, Layout.constantBody, memberTag_eq_iff]
  next h => obtain rfl := htag 9 h; exact reads_memberDecoder .field
  next h => obtain rfl := htag 10 h; exact reads_memberDecoder .method
  next h => obtain rfl := htag 11 h; exact reads_memberDecoder .interfaceMethod
  next h =>
    obtain rfl := htag 12 h
    refine (reads_positions Constant.nameAndType).congr fun constant bytes => ?_
    cases constant <;> simp [Layout.tag, Layout.constantBody, memberTag_eq_iff]
  next h₁ h₃ h₄ h₅ h₆ h₇ h₈ h₉ h₁₀ h₁₁ h₁₂ =>
    refine (reads_throw _).congr fun constant bytes => iff_of_false not_false ?_
    rintro ⟨rfl, hbody⟩
    cases constant with
    | member kind => cases kind <;> simp_all [Layout.tag, Layout.memberTag]
    | empty => exact hbody
    | _ => simp_all [Layout.tag]

theorem reads_constantDecoder (entry : Nat) : Reads (constantDecoder entry) Layout.constant := by
  rw [constantDecoder_eq]
  refine (reads_u8.bind (reads_bodyDecoder entry)).congr fun constant bytes => ?_
  constructor
  · rintro ⟨_, _, back, rfl, ⟨rfl, hbody⟩, rfl⟩
    exact ⟨back, hbody, by simp [Bytes.ofNat]⟩
  · rintro ⟨back, hbody, rfl⟩
    exact ⟨_, _, back, rfl, ⟨rfl, hbody⟩, by simp [Bytes.ofNat]⟩

theorem constants_push (pool : ConstantPool) (constant : Constant) :
    (pool.push constant).constants.toList = pool.constants.toList ++ Layout.taken constant := by
  cases constant <;> simp [ConstantPool.push, Constant.isWide, Layout.taken]

/-- Constants that fill `missing` more positions, behind those of a pool. -/
def filling (missing : Nat) (pool : ConstantPool) : Form ConstantPool :=
  fun result bytes => ∃ constants, Layout.Fills missing constants ∧
    Form.sequence Layout.constant constants bytes ∧
    result.constants.toList = pool.constants.toList ++ Layout.positions constants

theorem filling_zero_iff (pool result : ConstantPool) (bytes : Bytes) :
    filling 0 pool result bytes ↔ result = pool ∧ bytes = [] := by
  constructor
  · rintro ⟨constants, hfills, hconstants, hresult⟩
    obtain rfl := (Layout.fills_zero_iff constants).1 hfills
    cases hconstants
    exact ⟨ConstantPool.eq_of_toList_eq (hresult.trans (List.append_nil _)), rfl⟩
  · rintro ⟨rfl, rfl⟩
    exact ⟨[], (Layout.fills_zero_iff []).2 rfl, .nil, (List.append_nil _).symm⟩

theorem filling_succ_iff (missing : Nat) (pool result : ConstantPool) (bytes : Bytes) :
    filling (missing + 1) pool result bytes ↔ ∃ first front back, Layout.constant first front ∧
      filling (missing + 1 - (Layout.taken first).length) (pool.push first) result back ∧
      bytes = front ++ back := by
  have hpush (first : Constant) (others : List Constant) :
      (pool.push first).constants.toList ++ Layout.positions others =
        pool.constants.toList ++ Layout.positions (first :: others) := by
    rw [constants_push, Layout.positions_cons, List.append_assoc]
  constructor
  · rintro ⟨constants, hfills, hconstants, hresult⟩
    obtain ⟨first, others, rfl, hrest⟩ := (Layout.fills_succ_iff missing constants).1 hfills
    rw [← hpush] at hresult
    cases hconstants with
    | cons hfirst hothers => exact ⟨first, _, _, hfirst, ⟨others, hrest, hothers, hresult⟩, rfl⟩
  · rintro ⟨first, front, back, hfirst, ⟨others, hfills, hothers, hresult⟩, rfl⟩
    have hall := (Layout.fills_succ_iff missing (first :: others)).2 ⟨first, others, rfl, hfills⟩
    exact ⟨first :: others, hall, .cons hfirst hothers, hresult.trans (hpush first others)⟩

theorem reads_constantsDecoder (missing : Nat) (pool : ConstantPool) :
    Reads (constantsDecoder missing pool) (filling missing pool) := by
  induction missing, pool using constantsDecoder.induct with
  | case1 pool =>
    exact (reads_pure pool).congr fun result bytes => (filling_zero_iff pool result bytes).symm
  | case2 pool =>
    refine ((reads_constantDecoder _).thenPure pool.push).congr fun result bytes => ?_
    have hmissing (first : Constant) : 0 + 1 - (Layout.taken first).length = 0 :=
      Nat.sub_eq_zero_of_le (Layout.length_taken_pos first)
    simp only [filling_succ_iff 0, hmissing, filling_zero_iff]
    constructor
    · rintro ⟨first, hfirst, rfl⟩
      exact ⟨first, bytes, [], hfirst, ⟨rfl, rfl⟩, (List.append_nil bytes).symm⟩
    · rintro ⟨first, front, _, hfirst, ⟨rfl, rfl⟩, rfl⟩
      exact ⟨first, by rwa [List.append_nil], rfl⟩
  | case3 missing pool ihWide ihNarrow =>
    have hnext (constant : Constant) : Reads
        (if constant.isWide then constantsDecoder missing (pool.push constant)
          else constantsDecoder (missing + 1) (pool.push constant))
        (filling (missing + 2 - (Layout.taken constant).length) (pool.push constant)) := by
      rw [Layout.length_taken]
      split
      · exact ihWide constant
      · exact ihNarrow constant
    refine ((reads_constantDecoder _).bind hnext).congr fun result bytes => ?_
    exact (filling_succ_iff (missing + 1) pool result bytes).symm

theorem reads_poolDecoder : Reads poolDecoder Layout.pool := by
  refine (reads_u16.bind fun count => reads_constantsDecoder (count.toNat - 1) .empty).congr
    fun pool bytes => ?_
  constructor
  · rintro ⟨count, _, back, rfl, ⟨constants, hfills, hconstants, hpool⟩, rfl⟩
    exact ⟨count.toNat, constants, back, count.toNat_lt, hfills, hconstants, hpool, rfl⟩
  · rintro ⟨count, constants, back, hlt, hfills, hconstants, hpool, rfl⟩
    have hcount := UInt16.toNat_ofNat_of_lt' hlt
    refine ⟨.ofNat count, _, back, rfl, ⟨constants, ?_, hconstants, hpool⟩, by rw [hcount]⟩
    rwa [hcount]

end ClassMachine.ClassFile
