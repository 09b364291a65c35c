import ClassMachine.Machine.Frame

/-!
# Where arguments lie

The arguments of a call lie one after another from local variable 0 on. A long or double takes two
local variables, the second of which is null, so each argument lies behind as many local variables
as the arguments before it are wide together. If all of them are as wide as their types say, that
can be told from the signature of the method.
-/

namespace ClassMachine

/-- Local variables that arguments take together. -/
def Slot.span (args : List Slot) : Nat :=
  args.foldr (fun value width => value.width + width) 0

@[simp]
theorem Slot.span_nil : span [] = 0 :=
  rfl

@[simp]
theorem Slot.span_cons (value : Slot) (args : List Slot) :
    span (value :: args) = value.width + span args :=
  rfl

theorem Slot.span_append (args others : List Slot) :
    span (args ++ others) = span args + span others := by
  induction args with
  | nil => simp
  | cons value args ih => simp [ih, Nat.add_assoc]

theorem Slot.width_eq (value : Slot) : value.width = 1 ∨ value.width = 2 := by
  obtain ⟨tag, payload⟩ := value
  cases payload <;> simp [Slot.width, Value.width]

/-- Arguments as wide as the types say take as many local variables as the signature does. -/
theorem Slot.span_eq_slots {args : List Slot} {signature : MethodSignature}
    (h : args.map Slot.width = signature.params.map FieldType.size) :
    span args = signature.slots := by
  obtain ⟨params, result⟩ := signature
  simp only [MethodSignature.slots] at h ⊢
  induction args generalizing params with
  | nil => simp [List.map_eq_nil_iff.1 h.symm]
  | cons value args ih =>
    cases params with
    | nil => contradiction
    | cons type params =>
      obtain ⟨hwidth, hrest⟩ := List.cons.inj h
      rw [span_cons, List.foldr_cons, ih params hrest, hwidth]

namespace MethodSignature

def first (signature : MethodSignature) (count : Nat) : MethodSignature :=
  { signature with params := signature.params.take count }

end MethodSignature

namespace Frame

@[simp]
theorem length_spread (value : Slot) : (spread value).length = value.width := by
  rcases value.width_eq with hwidth | hwidth <;> simp [spread, hwidth]

theorem length_flatMap_spread (args : List Slot) :
    (args.flatMap spread).length = Slot.span args := by
  induction args with
  | nil => rfl
  | cons value args ih => simp [ih]

theorem getElem?_flatMap_spread {args : List Slot} {i : Nat} {value : Slot}
    (h : args[i]? = some value) (k : Nat) (hk : k < value.width) :
    (args.flatMap spread)[Slot.span (args.take i) + k]? = (spread value)[k]? := by
  induction args generalizing i with
  | nil => contradiction
  | cons first args ih =>
    rw [List.flatMap_cons]
    cases i with
    | zero =>
      obtain rfl : first = value := Option.some.inj h
      rw [List.take_zero, Slot.span_nil, Nat.zero_add]
      exact List.getElem?_append_left (by simpa using hk)
    | succ i =>
      rw [List.take_succ_cons, Slot.span_cons, List.getElem?_append_right (by simp; omega),
        length_spread]
      have hplace : first.width + Slot.span (args.take i) + k - first.width =
          Slot.span (args.take i) + k := by omega
      rw [hplace]
      exact ih h

theorem getElem?_initialLocals (maxLocals : Nat) {args : List Slot} {i : Nat} {value : Slot}
    (h : args[i]? = some value) (k : Nat) (hk : k < value.width) :
    (initialLocals maxLocals args)[Slot.span (args.take i) + k]? = (spread value)[k]? := by
  have hspread := getElem?_flatMap_spread h k hk
  have hinside : Slot.span (args.take i) + k < (args.flatMap spread).length := by
    refine Nat.lt_of_not_le fun hle => ?_
    rw [List.getElem?_eq_none hle] at hspread
    have hnone := List.getElem?_eq_none_iff.1 hspread.symm
    rw [length_spread] at hnone
    omega
  rw [initialLocals, List.getElem?_append_left hinside, hspread]

theorem spread_zero (value : Slot) : (spread value)[0]? = some value := by
  rcases value.width_eq with hwidth | hwidth <;> simp [spread, hwidth]

theorem spread_one {value : Slot} (hwidth : value.width = 2) :
    (spread value)[1]? = some .null := by
  simp [spread, hwidth]

/-- The receiver, if there is one, and the parameters are where the signature says, behind as many
local variables as the receiver takes; all others are null. -/
structure LaidOut (frame : Frame) (code : Code) (signature : MethodSignature)
    (lead values : List Slot) : Prop where
  receiver : ∀ value, lead.head? = some value →
    frame.locals[0]? = some value ∧ (value.width = 2 → frame.locals[1]? = some .null)
  param : ∀ (i : Nat) value, values[i]? = some value →
    frame.locals[Slot.span lead + (signature.first i).slots]? = some value
  filler : ∀ (i : Nat) value, values[i]? = some value → value.width = 2 →
    frame.locals[Slot.span lead + (signature.first i).slots + 1]? = some .null
  rest : ∀ place, Slot.span lead + signature.slots ≤ place → place < frame.locals.length →
    frame.locals[place]? = some .null
  length : frame.locals.length = max code.maxLocals.toNat (Slot.span lead + signature.slots)

theorem laidOut_enter (code : Code) {signature : MethodSignature} (lead : List Slot)
    {values : List Slot} (hwidths : values.map Slot.width = signature.params.map FieldType.size) :
    (enter code (lead ++ values)).LaidOut code signature lead values := by
  have hspan : Slot.span (lead ++ values) = Slot.span lead + signature.slots := by
    rw [Slot.span_append, Slot.span_eq_slots hwidths]
  have hplace (i : Nat) : Slot.span ((lead ++ values).take (lead.length + i)) =
      Slot.span lead + (signature.first i).slots := by
    have hfirst : (values.take i).map Slot.width =
        (signature.first i).params.map FieldType.size := by
      rw [MethodSignature.first, List.map_take, List.map_take, hwidths]
    rw [List.take_length_add_append, Slot.span_append, Slot.span_eq_slots hfirst]
  have hvalue (i : Nat) (value : Slot) (h : values[i]? = some value) :
      (lead ++ values)[lead.length + i]? = some value := by
    rw [List.getElem?_append_right (Nat.le_add_right _ _), Nat.add_sub_cancel_left, h]
  have hlength : (enter code (lead ++ values)).locals.length =
      max code.maxLocals.toNat (Slot.span lead + signature.slots) := by
    rw [enter, length_initialLocals, length_flatMap_spread, hspan]
  constructor
  case receiver =>
    intro value hhead
    have hzero : (lead ++ values)[0]? = some value := by
      rw [← List.head?_eq_getElem?, List.head?_append, hhead]
      rfl
    have hpos : 0 < value.width := by rcases value.width_eq with h | h <;> omega
    have hslot := getElem?_initialLocals code.maxLocals.toNat hzero 0 hpos
    rw [List.take_zero, Slot.span_nil, spread_zero] at hslot
    refine ⟨hslot, fun hwidth => ?_⟩
    have hfiller := getElem?_initialLocals code.maxLocals.toNat hzero 1 (by omega)
    rw [List.take_zero, Slot.span_nil, spread_one hwidth] at hfiller
    exact hfiller
  case param =>
    intro i value h
    have hpos : 0 < value.width := by rcases value.width_eq with h | h <;> omega
    have hslot := getElem?_initialLocals code.maxLocals.toNat (hvalue i value h) 0 hpos
    rw [hplace, spread_zero, Nat.add_zero] at hslot
    exact hslot
  case filler =>
    intro i value h hwidth
    have hslot := getElem?_initialLocals code.maxLocals.toNat (hvalue i value h) 1 (by omega)
    rw [hplace, spread_one hwidth] at hslot
    exact hslot
  case rest =>
    intro place hle hlt
    rw [enter, length_initialLocals, length_flatMap_spread, hspan] at hlt
    have hbehind : ((lead ++ values).flatMap spread).length ≤ place := by
      rw [length_flatMap_spread, hspan]
      exact hle
    rw [enter, initialLocals, List.getElem?_append_right hbehind, List.getElem?_replicate,
      length_flatMap_spread, hspan, if_pos (by omega)]
  case length => exact hlength

end Frame

end ClassMachine
