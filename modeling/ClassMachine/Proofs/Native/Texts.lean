import ClassMachine.Proofs.Native.Assembly

/-!
# The texts of a draft

The constants of a draft are texts and classes. A text is noted with its position when it is added,
so that it is not added again, and a class is added with its name. So the notes tell exactly which
texts there are and where, and every reference of a constant lands on a text.
-/

namespace ClassMachine

open Work

namespace ConstantPool

variable {pool later : ConstantPool}

theorem Grows.trans {last : ConstantPool} (h : pool.Grows later) (hlast : later.Grows last) :
    pool.Grows last :=
  fun position constant hconstant => hlast position constant (h position constant hconstant)

theorem Grows.holdsText (h : pool.Grows later) {position : Nat} (htext : pool.HoldsText position) :
    later.HoldsText position := by
  obtain ⟨text, hget⟩ := htext
  exact ⟨text, h _ _ hget⟩

theorem Grows.className (h : pool.Grows later) {position : Nat} {name : Bytes}
    (hname : pool.className position = .ok name) : later.className position = .ok name := by
  obtain ⟨place, hget, htext⟩ := className_eq_ok_iff.1 hname
  exact className_eq_ok_iff.2 ⟨place, h _ _ hget, h.utf8 htext⟩

theorem getElem?_push {constant : Constant} (h : constant.isWide = false) (position : Nat) :
    (pool.push constant).constants[position]? =
      if position = pool.size then some constant else pool.constants[position]? := by
  rw [push, if_neg (by simp [h]), Array.getElem?_push, size]

theorem utf8_push_iff {constant : Constant} (h : constant.isWide = false)
    (htext : ∀ text, constant ≠ .utf8 text) {position : Nat} {content : Bytes} :
    (pool.push constant).utf8 position = .ok content ↔ pool.utf8 position = .ok content := by
  rw [utf8_eq_ok_iff, utf8_eq_ok_iff, getElem?_push h]
  split
  next hlast =>
    have hnone : pool.constants[position]? = none := Array.getElem?_eq_none (Nat.le_of_eq hlast.symm)
    simp [htext, hnone]
  next => rfl

theorem utf8_push_utf8_iff {text content : Bytes} {position : Nat} :
    (pool.push (.utf8 text)).utf8 position = .ok content ↔
      if position = pool.size then text = content else pool.utf8 position = .ok content := by
  rw [utf8_eq_ok_iff, utf8_eq_ok_iff, getElem?_push rfl]
  split <;> simp

end ConstantPool

/-- The noted texts are those in the constant pool, each at its position, and all other constants
are classes with a name. -/
structure NativeDraft.Interned (draft : NativeDraft) : Prop where
  texts : ∀ content position, draft.texts.get? content = some position ↔
    draft.pool.utf8 position = .ok content
  constants : ∀ (position : Nat) (constant : Constant),
    draft.pool.constants[position]? = some constant →
      (∃ text, constant = .utf8 text) ∨
        ∃ name, constant = .classEntry name ∧ draft.pool.HoldsText name

structure NativeDraft.Extends (draft later : NativeDraft) : Prop where
  interned : later.Interned
  grows : draft.pool.Grows later.pool
  others : later = { draft with pool := later.pool, texts := later.texts }

namespace NativeDraft

variable {draft later : NativeDraft}

theorem interned_empty : ({} : NativeDraft).Interned where
  texts content position := by
    rw [ConstantPool.utf8_eq_ok_iff]
    exact iff_of_false (fun h => nomatch h) fun h => nomatch h
  constants position constant hget := nomatch hget

theorem Interned.constants_push (h : draft.Interned) {constant : Constant}
    (hwide : constant.isWide = false)
    (hconstant : (∃ text, constant = .utf8 text) ∨
      ∃ name, constant = .classEntry name ∧ draft.pool.HoldsText name)
    (position : Nat) (found : Constant)
    (hget : (draft.pool.push constant).constants[position]? = some found) :
    (∃ text, found = .utf8 text) ∨
      ∃ name, found = .classEntry name ∧ (draft.pool.push constant).HoldsText name := by
  have hgrows := draft.pool.grows_push constant
  rw [ConstantPool.getElem?_push hwide] at hget
  have hfound : (∃ text, found = .utf8 text) ∨
      ∃ name, found = .classEntry name ∧ draft.pool.HoldsText name := by
    split at hget
    · exact Option.some.inj hget ▸ hconstant
    · exact h.constants position found hget
  exact hfound.imp_right fun ⟨name, hname, htext⟩ => ⟨name, hname, hgrows.holdsText htext⟩

theorem Interned.push_text (h : draft.Interned) {content : Bytes}
    (hnew : draft.texts.get? content = none) :
    ({ draft with
      pool := draft.pool.push (.utf8 content)
      texts := draft.texts.insert content draft.pool.size } : NativeDraft).Interned where
  texts other position := by
    simp only [NameMap.get?_insert, ConstantPool.utf8_push_utf8_iff]
    by_cases hother : other = content
    · rw [if_pos hother, hother]
      split
      next hlast => simp [hlast]
      next hlast =>
        rw [← h.texts content position, hnew]
        simp [Ne.symm hlast]
    · rw [if_neg hother, h.texts other position]
      split
      next hlast =>
        have hnone : draft.pool.constants[position]? = none :=
          Array.getElem?_eq_none (Nat.le_of_eq hlast.symm)
        simp [ConstantPool.utf8_eq_ok_iff, hnone, Ne.symm hother]
      next => rfl
  constants := h.constants_push rfl (.inl ⟨content, rfl⟩)

theorem Interned.push_classEntry (h : draft.Interned) {name : Nat}
    (hname : draft.pool.HoldsText name) :
    ({ draft with pool := draft.pool.push (.classEntry name) } : NativeDraft).Interned where
  texts content position := by
    rw [h.texts content position]
    exact (ConstantPool.utf8_push_iff rfl (by simp)).symm
  constants := h.constants_push rfl (.inr ⟨name, rfl, hname⟩)

theorem Interned.text_unique (h : draft.Interned) {content : Bytes} {position other : Nat}
    (hposition : draft.pool.utf8 position = .ok content)
    (hother : draft.pool.utf8 other = .ok content) : position = other := by
  rw [← h.texts] at hposition hother
  exact Option.some.inj (hposition.symm.trans hother)

/-- The references of the constants land where they should. -/
theorem Interned.check (h : draft.Interned) : draft.pool.check = .ok () := by
  refine ConstantPool.check_eq_ok_iff_followed.2 fun position constant hconstant => ?_
  rcases h.constants position constant hconstant with ⟨text, rfl⟩ | ⟨name, rfl, htext⟩
  · trivial
  · exact htext

theorem Interned.extends_refl (h : draft.Interned) : draft.Extends draft :=
  ⟨h, fun _ _ hconstant => hconstant, rfl⟩

theorem Extends.trans {last : NativeDraft} (h : draft.Extends later) (hlast : later.Extends last) :
    draft.Extends last where
  interned := hlast.interned
  grows := h.grows.trans hlast.grows
  others := by
    rw [hlast.others, h.others]

end NativeDraft

namespace Drafting

variable {draft : NativeDraft}

/-- A text gets the one position at which it is found. -/
theorem run_text_extends (h : draft.Interned) (content : Bytes) :
    ∃ position later, (text content).run draft = .ok position later ∧ draft.Extends later ∧
      later.pool.utf8 position = .ok content := by
  simp only [text, EStateM.run_bind, EStateM.run_get]
  cases hget : draft.texts.get? content with
  | some position => exact ⟨position, draft, rfl, h.extends_refl, (h.texts _ _).1 hget⟩
  | none =>
    exact ⟨_, _, rfl, ⟨h.push_text hget, ConstantPool.grows_push _, rfl⟩,
      draft.pool.utf8_push content⟩

theorem run_classEntry (h : draft.Interned) (name : Bytes) :
    ∃ position later, (classEntry name).run draft = .ok position later ∧ draft.Extends later ∧
      later.pool.className position = .ok name := by
  obtain ⟨place, middle, hrun, hmiddle, htext⟩ := run_text_extends h name
  have hholds : middle.pool.HoldsText place := ⟨name, ConstantPool.utf8_eq_ok_iff.1 htext⟩
  have hgrows := middle.pool.grows_push (.classEntry place)
  have hlater : middle.Extends { middle with pool := middle.pool.push (.classEntry place) } :=
    ⟨hmiddle.interned.push_classEntry hholds, hgrows, rfl⟩
  refine ⟨middle.pool.size, _, ?_, hmiddle.trans hlater, ?_⟩
  · rw [classEntry, EStateM.run_bind, hrun]
    rfl
  · refine ConstantPool.className_eq_ok_iff.2 ⟨place, ?_, hgrows.utf8 htext⟩
    rw [ConstantPool.getElem?_push rfl, if_pos rfl]

theorem run_texts (h : draft.Interned) (name descriptor : Bytes) :
    ∃ namePosition descriptorPosition later, draft.Extends later ∧
      later.pool.utf8 namePosition = .ok name ∧
      later.pool.utf8 descriptorPosition = .ok descriptor ∧
      ∀ next : Nat → Nat → Drafting Unit,
        (text name >>= fun i => text descriptor >>= next i).run draft =
          (next namePosition descriptorPosition).run later := by
  obtain ⟨namePosition, middle, hfirst, hmiddle, hname⟩ := run_text_extends h name
  obtain ⟨descriptorPosition, later, hsecond, hlater, hdescriptor⟩ :=
    run_text_extends hmiddle.interned descriptor
  refine ⟨namePosition, descriptorPosition, later, hmiddle.trans hlater,
    hlater.grows.utf8 hname, hdescriptor, fun next => ?_⟩
  simp only [EStateM.run_bind, hfirst, hsecond]

end Drafting

end ClassMachine
