import ClassMachine.Pool.Validity
import ClassMachine.Proofs.Course

/-!
# Where references land

Constants refer to each other by position, and a reference is right if there is a constant of the
kind that is wanted. The check of a pool follows every reference but one: the descriptor of a name
and type is only looked at for the sake of a member. Hence what is refused has a wrong reference,
but a name and type to which no member refers may be accepted without a descriptor.
-/

namespace ClassMachine.ConstantPool

open Work

variable {pool : ConstantPool} {position : Nat}

section accessors

theorem get_eq_ok_iff {constant : Constant} :
    pool.get position = .ok constant ↔
      pool.constants[position]? = some constant ∧ constant ≠ .empty := by
  unfold get
  cases h : pool.constants[position]? with
  | none => simp
  | some found => cases found <;> simp <;> rintro rfl <;> simp

theorem utf8_eq_ok_iff {bytes : Bytes} :
    pool.utf8 position = .ok bytes ↔ pool.constants[position]? = some (.utf8 bytes) := by
  simp only [utf8, bind_eq_ok_iff, get_eq_ok_iff]
  constructor
  · rintro ⟨constant, ⟨hconstant, -⟩, hbytes⟩
    cases constant <;> try contradiction
    obtain rfl := Except.ok.inj hbytes
    exact hconstant
  · intro h
    exact ⟨_, ⟨h, by simp⟩, rfl⟩

theorem className_eq_ok_iff {name : Bytes} :
    pool.className position = .ok name ↔
      ∃ place, pool.constants[position]? = some (.classEntry place) ∧
        pool.utf8 place = .ok name := by
  simp only [className, bind_eq_ok_iff, get_eq_ok_iff]
  constructor
  · rintro ⟨constant, ⟨hconstant, -⟩, hname⟩
    cases constant <;> try contradiction
    exact ⟨_, hconstant, hname⟩
  · rintro ⟨place, hplace, hname⟩
    exact ⟨_, ⟨hplace, by simp⟩, hname⟩

theorem nameAndType_eq_ok_iff {found : Bytes × Bytes} :
    pool.nameAndType position = .ok found ↔
      ∃ name descriptor, pool.constants[position]? = some (.nameAndType name descriptor) ∧
        pool.utf8 name = .ok found.1 ∧ pool.utf8 descriptor = .ok found.2 := by
  simp only [nameAndType, bind_eq_ok_iff, get_eq_ok_iff]
  constructor
  · rintro ⟨constant, ⟨hconstant, -⟩, hfound⟩
    cases constant <;> try contradiction
    simp only [bind_eq_ok_iff] at hfound
    obtain ⟨name, hname, descriptor, hdescriptor, hpair⟩ := hfound
    obtain rfl := Except.ok.inj hpair
    exact ⟨_, _, hconstant, hname, hdescriptor⟩
  · rintro ⟨name, descriptor, hplace, hname, hdescriptor⟩
    refine ⟨_, ⟨hplace, by simp⟩, ?_⟩
    simp only [bind_eq_ok_iff]
    exact ⟨_, hname, _, hdescriptor, rfl⟩

theorem memberRef_eq_ok_iff {found : MemberRef} :
    pool.memberRef position = .ok found ↔
      ∃ owner nameAndType, pool.constants[position]? = some (.member found.kind owner nameAndType) ∧
        pool.className owner = .ok found.className ∧
        pool.nameAndType nameAndType = .ok (found.name, found.descriptor) := by
  simp only [memberRef, bind_eq_ok_iff, get_eq_ok_iff]
  constructor
  · rintro ⟨constant, ⟨hconstant, -⟩, hfound⟩
    cases constant <;> try contradiction
    simp only [bind_eq_ok_iff] at hfound
    obtain ⟨owner, howner, ⟨name, descriptor⟩, hnames, hmember⟩ := hfound
    obtain rfl := Except.ok.inj hmember
    exact ⟨_, _, hconstant, howner, hnames⟩
  · rintro ⟨owner, nameAndType, hplace, howner, hnames⟩
    refine ⟨_, ⟨hplace, by simp⟩, ?_⟩
    simp only [bind_eq_ok_iff]
    exact ⟨_, howner, _, hnames, rfl⟩

end accessors

def HoldsText (pool : ConstantPool) (position : Nat) : Prop :=
  ∃ bytes, pool.constants[position]? = some (.utf8 bytes)

def HoldsClass (pool : ConstantPool) (position : Nat) : Prop :=
  ∃ name, pool.constants[position]? = some (.classEntry name)

def NamesClass (pool : ConstantPool) (position : Nat) : Prop :=
  ∃ name, pool.constants[position]? = some (.classEntry name) ∧ pool.HoldsText name

def HoldsNameAndType (pool : ConstantPool) (position : Nat) : Prop :=
  ∃ name descriptor, pool.constants[position]? = some (.nameAndType name descriptor)

/-- Each reference of a constant lands on a constant of the right kind. -/
def RefersRightly (pool : ConstantPool) : Constant → Prop
  | .classEntry name => pool.HoldsText name
  | .nameAndType name descriptor => pool.HoldsText name ∧ pool.HoldsText descriptor
  | .string text => pool.HoldsText text
  | .member _ owner nameAndType => pool.HoldsClass owner ∧ pool.HoldsNameAndType nameAndType
  | _ => True

/-- All constants refer to constants of the right kinds, which therefore do so as well. -/
def Coherent (pool : ConstantPool) : Prop :=
  ∀ constant ∈ pool.constants, pool.RefersRightly constant

def Described (pool : ConstantPool) (position : Nat) : Prop :=
  ∃ kind owner, .member kind owner position ∈ pool.constants

/-- The accessor for the kind of a constant succeeds; of a name and type only the name counts. -/
def Opens (pool : ConstantPool) (position : Nat) : Constant → Prop
  | .classEntry _ => ∃ name, pool.className position = .ok name
  | .nameAndType name _ => ∃ text, pool.utf8 name = .ok text
  | .utf8 bytes => pool.utf8 position = .ok bytes
  | .member .. => ∃ member, pool.memberRef position = .ok member
  | .empty => True
  | _ => ∃ value, pool.literal position = .ok value

theorem exists_utf8_iff : (∃ bytes, pool.utf8 position = .ok bytes) ↔ pool.HoldsText position := by
  simp only [utf8_eq_ok_iff, HoldsText]

theorem exists_className_iff :
    (∃ name, pool.className position = .ok name) ↔ pool.NamesClass position := by
  simp only [className_eq_ok_iff, NamesClass, ← exists_utf8_iff]
  constructor
  · rintro ⟨name, place, hplace, hname⟩
    exact ⟨place, hplace, name, hname⟩
  · rintro ⟨place, hplace, name, hname⟩
    exact ⟨name, place, hplace, hname⟩

theorem exists_nameAndType_iff :
    (∃ found, pool.nameAndType position = .ok found) ↔
      ∃ name descriptor, pool.constants[position]? = some (.nameAndType name descriptor) ∧
        pool.HoldsText name ∧ pool.HoldsText descriptor := by
  simp only [nameAndType_eq_ok_iff, ← exists_utf8_iff]
  constructor
  · rintro ⟨found, name, descriptor, hplace, hname, hdescriptor⟩
    exact ⟨name, descriptor, hplace, ⟨_, hname⟩, ⟨_, hdescriptor⟩⟩
  · rintro ⟨name, descriptor, hplace, ⟨text, hname⟩, type, hdescriptor⟩
    exact ⟨(text, type), name, descriptor, hplace, hname, hdescriptor⟩

theorem exists_memberRef_iff {kind : MemberKind} {owner nameAndType : Nat}
    (h : pool.constants[position]? = some (.member kind owner nameAndType)) :
    (∃ member, pool.memberRef position = .ok member) ↔
      (∃ name, pool.className owner = .ok name) ∧
        ∃ found, pool.nameAndType nameAndType = .ok found := by
  simp only [memberRef_eq_ok_iff, h, Option.some.injEq, Constant.member.injEq]
  constructor
  · rintro ⟨member, _, _, ⟨-, rfl, rfl⟩, howner, hnames⟩
    exact ⟨⟨_, howner⟩, ⟨_, hnames⟩⟩
  · rintro ⟨⟨name, howner⟩, found, hnames⟩
    exact ⟨⟨kind, name, found.1, found.2⟩, _, _, ⟨rfl, rfl, rfl⟩, howner, hnames⟩

/-- The constant is a literal; a string needs its text. -/
def Loads (pool : ConstantPool) : Constant → Prop
  | .string text => pool.HoldsText text
  | .integer _ | .long _ | .float _ | .double _ => True
  | _ => False

def HoldsLiteral (pool : ConstantPool) (position : Nat) : Prop :=
  ∃ constant, pool.constants[position]? = some constant ∧ pool.Loads constant

theorem exists_literal_iff :
    (∃ value, pool.literal position = .ok value) ↔ pool.HoldsLiteral position := by
  cases hget : pool.get position with
  | error e =>
    refine iff_of_false (fun ⟨value, hvalue⟩ => ?_) fun ⟨constant, hconstant, hloads⟩ => ?_
    · simp only [literal, hget] at hvalue
      contradiction
    · have hne : constant ≠ .empty := by
        rintro rfl
        exact hloads
      exact nomatch hget.symm.trans (get_eq_ok_iff.2 ⟨hconstant, hne⟩)
  | ok constant =>
    have hplace := (get_eq_ok_iff.1 hget).1
    simp only [HoldsLiteral, hplace, Option.some.injEq, exists_eq_left']
    unfold literal
    rw [hget]
    cases constant with
    | string text =>
      show (∃ value, (do return Slot.of (.string (Utf8.lenient (← pool.utf8 text)))) =
        Except.ok value) ↔ pool.HoldsText text
      simp only [bind_eq_ok_iff, ← exists_utf8_iff]
      constructor
      · rintro ⟨value, bytes, hbytes, -⟩
        exact ⟨bytes, hbytes⟩
      · rintro ⟨bytes, hbytes⟩
        exact ⟨_, bytes, hbytes, rfl⟩
    | integer x => exact iff_of_true ⟨_, rfl⟩ trivial
    | long x => exact iff_of_true ⟨_, rfl⟩ trivial
    | float x => exact iff_of_true ⟨_, rfl⟩ trivial
    | double x => exact iff_of_true ⟨_, rfl⟩ trivial
    | _ => exact iff_of_false (fun ⟨_, h⟩ => nomatch h) id

section check

/-- What the check follows of a constant: all its references, and for a member those of the name and
type, but of a name and type itself only the name. -/
def Followed (pool : ConstantPool) : Constant → Prop
  | .classEntry name => pool.HoldsText name
  | .nameAndType name _ => pool.HoldsText name
  | .string text => pool.HoldsText text
  | .member _ owner nameAndType =>
    pool.NamesClass owner ∧
      ∃ name descriptor, pool.constants[nameAndType]? = some (.nameAndType name descriptor) ∧
        pool.HoldsText name ∧ pool.HoldsText descriptor
  | _ => True

theorem checkConstant_eq_ok_iff (constant : Constant) :
    pool.checkConstant constant = .ok () ↔ pool.Followed constant := by
  cases constant with
  | classEntry name => rw [checkConstant, discard_eq_ok_iff, exists_utf8_iff, Followed]
  | nameAndType name descriptor =>
    rw [checkConstant, discard_eq_ok_iff, exists_utf8_iff, Followed]
  | string text => rw [checkConstant, discard_eq_ok_iff, exists_utf8_iff, Followed]
  | member kind owner nameAndType =>
    rw [Followed, ← exists_className_iff, ← exists_nameAndType_iff, ← discard_eq_ok_iff,
      ← discard_eq_ok_iff, checkConstant, check_bind_eq_ok_iff]
  | _ => exact iff_of_true rfl trivial

theorem check_eq_ok_iff_followed :
    pool.check = .ok () ↔ ∀ (position : Nat) (constant : Constant),
      pool.constants[position]? = some constant → pool.Followed constant := by
  simp only [check, forM_eq_ok_iff, checkConstant_eq_ok_iff, Array.mem_toList_iff,
    Array.mem_iff_getElem?]
  constructor
  · intro h position constant hconstant
    exact h constant ⟨position, hconstant⟩
  · rintro h constant ⟨position, hconstant⟩
    exact h position constant hconstant

theorem opens_iff_followed {constant : Constant}
    (h : pool.constants[position]? = some constant) :
    pool.Opens position constant ↔ pool.Followed constant := by
  cases constant with
  | classEntry name => simp [Opens, Followed, exists_className_iff, NamesClass, h]
  | nameAndType name descriptor => exact exists_utf8_iff
  | utf8 bytes => exact iff_of_true (utf8_eq_ok_iff.2 h) trivial
  | member kind owner nameAndType =>
    rw [Opens, exists_memberRef_iff h, exists_className_iff, exists_nameAndType_iff, Followed]
  | empty => exact Iff.rfl
  | string text => simp [Opens, Followed, exists_literal_iff, HoldsLiteral, h, Loads]
  | _ => simp [Opens, Followed, exists_literal_iff, HoldsLiteral, h, Loads]

/-- In a pool that is accepted a constant can be looked up by its accessor. -/
theorem opens_of_check (hcheck : pool.check = .ok ()) {constant : Constant}
    (h : pool.constants[position]? = some constant) : pool.Opens position constant :=
  (opens_iff_followed h).2 (check_eq_ok_iff_followed.1 hcheck position constant h)

end check

/-- A pool is accepted if every reference is right, apart from descriptors of names and types to
which no member refers; in other words, if the accessors succeed at all constants of their kinds,
those of such names and types excepted. -/
theorem check_eq_ok_iff (pool : ConstantPool) :
    (pool.check = .ok () ↔ ∀ (position : Nat) (constant : Constant),
      pool.constants[position]? = some constant →
        pool.RefersRightly constant ∨ ¬ pool.Described position ∧
          ∃ name descriptor, constant = .nameAndType name descriptor ∧ pool.HoldsText name) ∧
    (pool.check = .ok () ↔ ∀ (position : Nat) (constant : Constant),
      pool.constants[position]? = some constant → pool.Opens position constant) := by
  rw [check_eq_ok_iff_followed]
  refine ⟨⟨fun h position constant hconstant => ?_, fun h position constant hconstant => ?_⟩, ?_⟩
  · have hfollowed := h position constant hconstant
    cases constant with
    | nameAndType name descriptor =>
      by_cases hdescribed : pool.Described position
      · obtain ⟨kind, owner, hmember⟩ := hdescribed
        obtain ⟨place, hplace⟩ := Array.mem_iff_getElem?.1 hmember
        obtain ⟨-, _, _, hsame, htexts⟩ := h place _ hplace
        rw [hconstant, Option.some.injEq, Constant.nameAndType.injEq] at hsame
        obtain ⟨rfl, rfl⟩ := hsame
        exact .inl htexts
      · exact .inr ⟨hdescribed, name, descriptor, rfl, hfollowed⟩
    | member kind owner nameAndType =>
      obtain ⟨⟨place, hplace, -⟩, name, descriptor, hnames, -⟩ := hfollowed
      exact .inl ⟨⟨place, hplace⟩, name, descriptor, hnames⟩
    | _ => exact .inl hfollowed
  · have hright := h position constant hconstant
    cases constant with
    | nameAndType name descriptor =>
      rcases hright with ⟨hname, -⟩ | ⟨-, _, _, hsame, hname⟩
      · exact hname
      · obtain ⟨rfl, rfl⟩ := Constant.nameAndType.inj hsame
        exact hname
    | member kind owner nameAndType =>
      obtain ⟨⟨place, hplace⟩, name, descriptor, hnames⟩ := hright.resolve_right (by simp)
      have hclass := (h owner _ hplace).resolve_right (by simp)
      -- The member itself refers to the name and type, so that its descriptor counts.
      have hdescribed : pool.Described nameAndType :=
        ⟨kind, owner, Array.mem_iff_getElem?.2 ⟨position, hconstant⟩⟩
      have htexts := (h nameAndType _ hnames).resolve_right fun hnot => hnot.1 hdescribed
      exact ⟨⟨place, hplace, hclass⟩, name, descriptor, hnames, htexts⟩
    | _ => exact hright.resolve_right (by simp)
  · exact forall₃_congr fun position constant hconstant => (opens_iff_followed hconstant).symm

/-- A name and type that is its own descriptor. -/
def selfDescribed : ConstantPool :=
  ⟨#[.utf8 [102], .nameAndType 0 1]⟩

/-- Not every pool that is accepted has right references only, and not every name and type in it can
be looked up. -/
theorem check_selfDescribed :
    selfDescribed.check = .ok () ∧ ¬ selfDescribed.Coherent ∧
      selfDescribed.constants[1]? = some (.nameAndType 0 1) ∧
      selfDescribed.nameAndType 1 = .error (.unexpectedConstant 1 "Utf8") := by
  refine ⟨rfl, fun hcoherent => ?_, rfl, rfl⟩
  have hmember : .nameAndType 0 1 ∈ selfDescribed.constants :=
    Array.mem_iff_getElem?.2 ⟨1, rfl⟩
  obtain ⟨-, bytes, htext⟩ := hcoherent _ hmember
  exact nomatch htext

end ClassMachine.ConstantPool
