import ClassMachine.Proofs.Descriptor.Signatures
import ClassMachine.Proofs.Native.Assembly

/-!
# The choice of a method goes by types

Methods are compared by what their parameters are spelled like. As long as every method has the
signature of its descriptor this is to compare the types of the parameters: a call means the only
method of its name that takes parameters of the types in the descriptor of the call.
-/

namespace ClassMachine

namespace ClassFile

variable {file : ClassFile} {name descriptor : Bytes}

def Offers (file : ClassFile) (name : Bytes) (params : List FieldType) (place : Nat) : Prop :=
  ∃ method, file.methods[place]? = some method ∧ file.text? method.name = some name ∧
    method.signature.params = params

theorem mem_fitting_iff {method : Method} {place : Nat} :
    (method, place) ∈ file.fitting name descriptor ↔
      file.methods[place]? = some method ∧ file.fits name descriptor method = true := by
  rw [fitting, List.mem_filter, List.mem_zipIdx_iff_getElem?]

theorem fitting_nodup (file : ClassFile) (name descriptor : Bytes) :
    ((file.fitting name descriptor).map Prod.snd).Nodup := by
  refine List.Nodup.sublist (List.filter_sublist.map Prod.snd) ?_
  rw [List.zipIdx_map_snd]
  exact List.nodup_range'

theorem overload_eq_ok_iff {found : Method × Nat} :
    file.overload name descriptor = .ok found ↔ file.fitting name descriptor = [found] := by
  unfold overload
  cases file.fitting name descriptor with
  | nil => simp
  | cons first others =>
    cases others with
    | nil => simp
    | cons second others => simp

theorem overload_eq_noSuchMethod_iff :
    file.overload name descriptor = .error
        (.noSuchMethod file.displayName (Utf8.lenient name) (Utf8.lenient descriptor)) ↔
      file.fitting name descriptor = [] := by
  unfold overload
  cases file.fitting name descriptor with
  | nil => simp
  | cons first others =>
    cases others with
    | nil => simp
    | cons second others => simp

theorem overload_eq_ambiguousOverload_iff :
    file.overload name descriptor = .error
        (.ambiguousOverload file.displayName (Utf8.lenient name) (Utf8.lenient descriptor)) ↔
      ∃ first second others, file.fitting name descriptor = first :: second :: others := by
  unfold overload
  cases file.fitting name descriptor with
  | nil => simp
  | cons first others =>
    cases others with
    | nil => simp
    | cons second others => simp

theorem Signed.fits_iff (hfile : file.Signed) {signature : MethodSignature}
    (hparse : MethodSignature.parse descriptor = .ok signature) {method : Method}
    (hmethod : method ∈ file.methods) :
    file.fits name descriptor method = true ↔
      file.text? method.name = some name ∧ method.signature.params = signature.params := by
  obtain ⟨text, htext, hsignature⟩ := hfile method hmethod
  have hdescriptor : file.text? method.descriptor = some text := by
    rw [text?, htext]
    rfl
  rw [fits, Bool.and_eq_true, beq_iff_eq, beq_iff_eq, hdescriptor, Option.map_some,
    Option.some.injEq, MethodSignature.paramsText_eq_iff hsignature hparse]

theorem Signed.offers_iff (hfile : file.Signed) {signature : MethodSignature}
    (hparse : MethodSignature.parse descriptor = .ok signature) {place : Nat} :
    file.Offers name signature.params place ↔
      ∃ method, (method, place) ∈ file.fitting name descriptor := by
  refine exists_congr fun method => ?_
  rw [mem_fitting_iff]
  refine and_congr_right fun hget => ?_
  exact (hfile.fits_iff hparse (List.mem_of_getElem? hget)).symm

/-- A choice by types: what is chosen if the places of the methods that a call may mean are given. -/
structure ChoosesBy (file : ClassFile) (name descriptor : Bytes) (offered : Nat → Prop) : Prop where
  found : ∀ method place, file.overload name descriptor = .ok (method, place) ↔
    file.methods[place]? = some method ∧ ∀ other, offered other ↔ other = place
  missing : file.overload name descriptor = .error
      (.noSuchMethod file.displayName (Utf8.lenient name) (Utf8.lenient descriptor)) ↔
    ∀ place, ¬ offered place
  ambiguous : file.overload name descriptor = .error
      (.ambiguousOverload file.displayName (Utf8.lenient name) (Utf8.lenient descriptor)) ↔
    ∃ place other, place ≠ other ∧ offered place ∧ offered other

/-- The choice is right for the places of the methods that fit. -/
theorem choosesBy_fitting (file : ClassFile) (name descriptor : Bytes) :
    file.ChoosesBy name descriptor fun place =>
      ∃ method, (method, place) ∈ file.fitting name descriptor := by
  have hnodup := file.fitting_nodup name descriptor
  have hfits := @mem_fitting_iff file name descriptor
  constructor
  case found =>
    intro method place
    rw [overload_eq_ok_iff]
    constructor
    · intro hfitting
      rw [hfitting] at hfits ⊢
      refine ⟨(hfits.1 (List.mem_singleton_self _)).1, fun other => ?_⟩
      simp
    · rintro ⟨hget, hplaces⟩
      have hplace (other : Method × Nat) (hmem : other ∈ file.fitting name descriptor) :
          other.2 = place := (hplaces other.2).1 ⟨other.1, hmem⟩
      obtain ⟨chosen, hchosen⟩ := (hplaces place).2 rfl
      obtain rfl : chosen = method := Option.some.inj ((hfits.1 hchosen).1.symm.trans hget)
      cases hfitting : file.fitting name descriptor with
      | nil => simp [hfitting] at hchosen
      | cons first others =>
        cases others with
        | nil =>
          rw [hfitting] at hchosen
          rw [List.mem_singleton.1 hchosen]
        | cons second others =>
          -- Two methods that fit would both be at that place.
          have hfirst := hplace first (by simp [hfitting])
          have hsecond := hplace second (by simp [hfitting])
          simp [hfitting, hfirst, hsecond] at hnodup
  case missing =>
    rw [overload_eq_noSuchMethod_iff, List.eq_nil_iff_forall_not_mem]
    exact ⟨fun h place ⟨method, hmem⟩ => h _ hmem, fun h found hmem => h found.2 ⟨found.1, hmem⟩⟩
  case ambiguous =>
    rw [overload_eq_ambiguousOverload_iff]
    constructor
    · rintro ⟨first, second, others, hfitting⟩
      rw [hfitting, List.map_cons, List.nodup_cons] at hnodup
      refine ⟨first.2, second.2, fun hsame => hnodup.1 ?_, ⟨first.1, ?_⟩, ⟨second.1, ?_⟩⟩
      · simp [hsame]
      · simp [hfitting]
      · simp [hfitting]
    · rintro ⟨place, other, hne, ⟨method, hmethod⟩, rival, hrival⟩
      cases hfitting : file.fitting name descriptor with
      | nil => simp [hfitting] at hmethod
      | cons first others =>
        cases others with
        | cons second others => exact ⟨first, second, others, rfl⟩
        | nil =>
          rw [hfitting, List.mem_singleton] at hmethod hrival
          have hsame := congrArg Prod.snd (hmethod.trans hrival.symm)
          contradiction

/-- If all methods have the signatures of their descriptors, the choice goes by the types in the
descriptor of the call. -/
theorem Signed.choosesBy_offers (hfile : file.Signed) {signature : MethodSignature}
    (hparse : MethodSignature.parse descriptor = .ok signature) (name : Bytes) :
    file.ChoosesBy name descriptor (file.Offers name signature.params) := by
  have hoffers : file.Offers name signature.params = fun place =>
      ∃ method, (method, place) ∈ file.fitting name descriptor :=
    funext fun place => propext (hfile.offers_iff hparse)
  exact hoffers ▸ file.choosesBy_fitting name descriptor

end ClassFile

end ClassMachine
