import ClassMachine.Proofs.ClassFile.Coverage
import ClassMachine.Proofs.ClassTable.Loading

/-!
# The count in front of the constants

The count announces positions, but constants are read until at least that many are taken. So the
pool of an accepted class file may have been announced by one less than its positions ask for, if
its last constant is a wide one. Under any other count the same bytes are read as another class or
not at all, and the pool of that class goes on where the one of the first class ends, or ends before
it does.
-/

namespace ClassMachine

open Decoder

namespace Layout

theorem length_le_slots (constants : List Constant) : constants.length ≤ slots constants := by
  induction constants with
  | nil => exact Nat.le_refl 0
  | cons constant constants ih =>
    have hpos := length_taken_pos constant
    rw [List.length_cons, slots_cons]
    omega

/-- Constants that take as many positions as their beginning are no more than that. -/
theorem eq_of_isPrefix_of_slots_le {front constants : List Constant} (hfront : front <+: constants)
    (h : slots constants ≤ slots front) : front = constants := by
  obtain ⟨back, rfl⟩ := hfront
  have hback := length_le_slots back
  rw [slots_append] at h
  rw [List.eq_nil_of_length_eq_zero (l := back) (by omega), List.append_nil]

/-- Constants are read under the count that their positions ask for, and under one less if the last
of them is wide. -/
theorem fills_concat_iff (count : Nat) (front : List Constant) (last : Constant) :
    Fills (count - 1) (front ++ [last]) ↔ count = slots (front ++ [last]) + 1 ∨
      count = slots (front ++ [last]) ∧ last.isWide := by
  have hslots : slots (front ++ [last]) = slots front + if last.isWide then 2 else 1 := by
    rw [slots_append, ← length_taken, slots_cons]
    rfl
  have hfills : Fills (count - 1) (front ++ [last]) ↔
      count - 1 ≤ slots (front ++ [last]) ∧ slots front < count - 1 := by
    refine and_congr_right' ⟨fun h => h front last rfl, fun h other constant heq => ?_⟩
    obtain ⟨rfl, -⟩ := List.append_inj' heq rfl
    exact h
  rw [hfills, hslots]
  cases last.isWide <;> simp <;> omega

/-- The bytes write the class file with these constants, which fill its pool; the count in front of
them is left open. -/
structure Behind (file : ClassFile) (constants : List Constant) (bytes : Bytes) : Prop where
  pool : file.pool.constants.toList = positions constants
  parts : ∃ back more, Form.sequence constant constants back ∧ behindPool field file more ∧
    bytes = back ++ more

theorem classFile_iff_count {file : ClassFile} {content : Bytes} :
    classFile file content ↔ ∃ count constants bytes, count < 2 ^ 16 ∧
      Fills (count - 1) constants ∧ Behind file constants bytes ∧
      content = head file ++ (Bytes.ofNat 2 count ++ bytes) := by
  rw [classFile_iff_parts]
  constructor
  · rintro ⟨_, more, ⟨count, constants, back, hcount, hfills, hconstants, hpool, rfl⟩, hmore, rfl⟩
    exact ⟨count, constants, _, hcount, hfills, ⟨hpool, back, more, hconstants, hmore, rfl⟩,
      by rw [List.append_assoc]⟩
  · rintro ⟨count, constants, _, hcount, hfills, ⟨hpool, back, more, hconstants, hmore, rfl⟩, rfl⟩
    exact ⟨_, more, ⟨count, constants, back, hcount, hfills, hconstants, hpool, rfl⟩, hmore,
      by rw [List.append_assoc]⟩

end Layout

namespace ConstantPool

def EndsWide (pool : ConstantPool) : Prop :=
  pool.constants.back? = some .empty

theorem endsWide_iff {pool : ConstantPool} {front : List Constant} {last : Constant}
    (hpool : pool.constants.toList = Layout.positions (front ++ [last])) (h : last ≠ .empty) :
    pool.EndsWide ↔ last.isWide := by
  have hlast : Layout.positions (front ++ [last]) = Layout.positions front ++ Layout.taken last := by
    rw [Layout.positions_append, Layout.positions_cons]
    exact congrArg _ (List.append_nil _)
  rw [EndsWide, ← Array.getLast?_toList, hpool, hlast]
  cases last <;> simp [Layout.taken, Constant.isWide] at h ⊢

def Extends (longer pool : ConstantPool) : Prop :=
  ∃ more, more ≠ [] ∧
    longer.constants.toList = pool.constants.toList ++ Layout.positions more

end ConstantPool

namespace ClassFile

/-- The same bytes with that count in front of the constants. -/
def withCount (count : Nat) (content : Bytes) : Bytes :=
  content.take 8 ++ (Bytes.ofNat 2 count ++ content.drop 10)

def declaredCount (content : Bytes) : Nat :=
  Bytes.toNat ((content.drop 8).take 2)

section counts

variable {file other : ClassFile} {count declared : Nat} {constants others : List Constant}
  {bytes : Bytes}

theorem withCount_head :
    withCount count (Layout.head file ++ (Bytes.ofNat 2 declared ++ bytes)) =
      Layout.head file ++ (Bytes.ofNat 2 count ++ bytes) := by
  have htwo : (Bytes.ofNat 2 declared).length = 2 := Bytes.length_ofNat _ _
  have hdrop : (Layout.head file ++ (Bytes.ofNat 2 declared ++ bytes)).drop (8 + 2) = bytes := by
    rw [← List.drop_drop, List.drop_left' (Layout.length_head file), List.drop_left' htwo]
  rw [withCount, hdrop, List.take_left' (Layout.length_head file)]

theorem declaredCount_head (h : declared < 2 ^ 16) :
    declaredCount (Layout.head file ++ (Bytes.ofNat 2 declared ++ bytes)) = declared := by
  rw [declaredCount, List.drop_left' (Layout.length_head file),
    List.take_left' (Bytes.length_ofNat _ _), Bytes.toNat_ofNat_of_lt h]

theorem parse_of_behind (hcount : count < 2 ^ 16) (hfills : Layout.Fills (count - 1) constants)
    (h : Layout.Behind file constants bytes) :
    parse (Layout.head file ++ (Bytes.ofNat 2 count ++ bytes)) = .ok file :=
  parse_of_layout (Layout.classFile_iff_count.2 ⟨count, constants, bytes, hcount, hfills, h, rfl⟩)

/-- Whatever is read behind a count, its constants fill the positions that the count announces. -/
theorem behind_of_parse (hcount : count < 2 ^ 16)
    (h : parse (Layout.head file ++ (Bytes.ofNat 2 count ++ bytes)) = .ok other) :
    Layout.head file = Layout.head other ∧ ∃ others, Layout.Fills (count - 1) others ∧
      Layout.Behind other others bytes := by
  obtain ⟨found, others, rest, hfound, hfills, hbehind, hbytes⟩ :=
    Layout.classFile_iff_count.1 (layout_of_parse h)
  obtain ⟨hhead, hrest⟩ := List.append_inj hbytes (by simp only [Layout.length_head])
  obtain ⟨hsame, rfl⟩ := List.append_inj hrest (by simp only [Bytes.length_ofNat])
  obtain rfl : count = found := Bytes.ofNat_injective hcount hfound hsame
  exact ⟨hhead, others, hfills, hbehind⟩

theorem comparable_of_behind (h : Layout.Behind file constants bytes)
    (hother : Layout.Behind other others bytes) : constants <+: others ∨ others <+: constants := by
  obtain ⟨-, back, more, hback, -, rfl⟩ := h
  obtain ⟨-, back', more', hback', -, hbytes⟩ := hother
  exact (reads_constantDecoder 0).comparable hback hback' hbytes

theorem size_of_behind (h : Layout.Behind file constants bytes) :
    file.pool.size = Layout.slots constants := by
  rw [ConstantPool.size, ← Array.length_toList, h.pool, Layout.slots]

theorem constants_of_behind (h : Layout.Behind file constants bytes)
    (hother : Layout.Behind file others bytes) : constants = others := by
  have hslots := (size_of_behind h).symm.trans (size_of_behind hother)
  rcases comparable_of_behind h hother with hbegins | hbegins
  · exact Layout.eq_of_isPrefix_of_slots_le hbegins (Nat.le_of_eq hslots.symm)
  · exact (Layout.eq_of_isPrefix_of_slots_le hbegins (Nat.le_of_eq hslots)).symm

theorem eq_of_behind (hdeclared : declared < 2 ^ 16)
    (hfills : Layout.Fills (declared - 1) constants) (h : Layout.Behind file constants bytes)
    (hother : Layout.Behind other constants bytes) (hhead : Layout.head file = Layout.head other) :
    other = file := by
  have hfile := parse_of_behind hdeclared hfills h
  rw [hhead, parse_of_behind hdeclared hfills hother] at hfile
  exact Except.ok.inj hfile

theorem constant_ne_empty (h : Layout.Behind file constants bytes) {constant : Constant}
    (hmem : constant ∈ constants) : constant ≠ .empty := by
  obtain ⟨-, back, -, hback, -⟩ := h
  obtain ⟨part, body, hbody, -⟩ := hback.exists_item constant hmem
  rintro rfl
  exact hbody

theorem constants_ne_nil (h : Layout.Behind file constants bytes) (hcheck : file.check = .ok ()) :
    constants ≠ [] := by
  rintro rfl
  obtain ⟨-, ⟨name, hname, -⟩, -⟩ := check_eq_ok_iff_steps.1 hcheck
  rw [← Array.getElem?_toList, h.pool] at hname
  simp [Layout.positions] at hname

/-- The counts under which the constants of a checked class file are read. -/
theorem fills_iff_of_check (h : Layout.Behind file constants bytes)
    (hcheck : file.check = .ok ()) : Layout.Fills (count - 1) constants ↔
      count = file.pool.size + 1 ∨ count = file.pool.size ∧ file.pool.EndsWide := by
  obtain ⟨front, last, rfl⟩ :=
    (List.eq_nil_or_concat constants).resolve_left (constants_ne_nil h hcheck)
  rw [List.concat_eq_append] at h ⊢
  have hlast : last ≠ .empty := constant_ne_empty h (List.mem_append_right _ (by simp))
  rw [Layout.fills_concat_iff, size_of_behind h, ConstantPool.endsWide_iff h.pool hlast]

theorem extends_of_isPrefix (h : Layout.Behind file constants bytes)
    (hother : Layout.Behind other others bytes) (hbegins : constants <+: others)
    (hne : constants ≠ others) : other.pool.Extends file.pool := by
  obtain ⟨more, rfl⟩ := hbegins
  refine ⟨more, fun hmore => hne (by rw [hmore, List.append_nil]), ?_⟩
  rw [hother.pool, h.pool, Layout.positions_append]

end counts

/-- The count of an accepted class file is one more than the number of positions in its pool, or as
much as that number if the last constant is wide. Under both counts, and no others, the bytes are
accepted as that class file. If they are accepted as another one, its pool is longer or shorter. -/
theorem parseChecked_count {content : Bytes} {file : ClassFile}
    (h : parseChecked content = .ok file) :
    (declaredCount content = file.pool.size + 1 ∨
      declaredCount content = file.pool.size ∧ file.pool.EndsWide) ∧
    (∀ count < 2 ^ 16, parseChecked (withCount count content) = .ok file ↔
      count = file.pool.size + 1 ∨ count = file.pool.size ∧ file.pool.EndsWide) ∧
    ∀ count < 2 ^ 16, ∀ other, parseChecked (withCount count content) = .ok other →
      other ≠ file → other.pool.Extends file.pool ∨ file.pool.Extends other.pool := by
  obtain ⟨hparse, hcheck⟩ := (parseChecked_eq_ok_iff content file).1 h
  obtain ⟨declared, constants, bytes, hdeclared, hfills, hbehind, rfl⟩ :=
    Layout.classFile_iff_count.1 (layout_of_parse hparse)
  rw [declaredCount_head hdeclared]
  refine ⟨(fills_iff_of_check hbehind hcheck).1 hfills, fun count hcount => ?_,
    fun count hcount other hother hne => ?_⟩
  · rw [withCount_head, parseChecked_eq_ok_iff, ← fills_iff_of_check hbehind hcheck]
    constructor
    · rintro ⟨hread, -⟩
      obtain ⟨-, others, hothers, hbehind'⟩ := behind_of_parse hcount hread
      rwa [constants_of_behind hbehind hbehind']
    · exact fun hcounted => ⟨parse_of_behind hcount hcounted hbehind, hcheck⟩
  · rw [withCount_head] at hother
    have hread := ((parseChecked_eq_ok_iff _ _).1 hother).1
    obtain ⟨hhead, others, -, hbehind'⟩ := behind_of_parse hcount hread
    -- The count is not part of what is read, so the same constants would give the same class.
    have hconstants : constants ≠ others := by
      rintro rfl
      exact hne (eq_of_behind hdeclared hfills hbehind hbehind' hhead)
    rcases comparable_of_behind hbehind hbehind' with hbegins | hbegins
    · exact .inl (extends_of_isPrefix hbehind hbehind' hbegins hconstants)
    · exact .inr (extends_of_isPrefix hbehind' hbehind hbegins hconstants.symm)

/-- A class whose last constant is a long, with that count in front of its constants. -/
def wideContent (count : UInt8) : Bytes :=
  [0xca, 0xfe, 0xba, 0xbe, 0, 0, 0, 52, 0, count, 1, 0, 1, 0x41, 7, 0, 1, 5, 0, 0, 0, 0, 0, 0, 0, 5,
    0, 1, 0, 2, 0, 0, 0, 0, 0, 0, 0, 0, 0, 0]

def wideClass : ClassFile where
  majorVersion := 52
  pool := ⟨#[.utf8 [0x41], .classEntry 0, .long 5, .empty]⟩
  thisClass := 1

theorem parseChecked_count_wide : parseChecked (wideContent 5) = .ok wideClass ∧
    declaredCount (wideContent 5) = 5 ∧ wideClass.pool.size = 4 ∧
    parseChecked (withCount 4 (wideContent 5)) = .ok wideClass := by
  have h : parseChecked (wideContent 5) = .ok wideClass := by decide +kernel
  exact ⟨h, by decide, rfl, ((parseChecked_count h).2.1 4 (by decide)).2 (.inr ⟨rfl, rfl⟩)⟩

/-- A long whose second position is not announced is accepted, and so is the file that announces
it. -/
theorem parseChecked_unannounced : declaredCount (wideContent 4) = wideClass.pool.size ∧
    parseChecked (wideContent 4) = .ok wideClass ∧
    wideContent 5 = withCount 5 (wideContent 4) ∧
    parseChecked (wideContent 5) = .ok wideClass := by
  decide +kernel

end ClassFile

end ClassMachine
