import ClassMachine.Decoder
import ClassMachine.Proofs.Course
import Mathlib.Algebra.Ring.Nat
import Mathlib.Data.List.Induction

/-!
# What decoders read

A form relates a value to the byte strings that write it. A decoder reads a form if it succeeds
exactly when the next bytes are of the form, gives the value that they write, and moves behind
them. Forms follow the way in which decoders are put together, so that the form of a whole file is
worked out piece by piece.
-/

namespace ClassMachine

open Decoder

variable {α β : Type}

/-- The byte strings that write a value. -/
abbrev Form (α : Type) := α → Bytes → Prop

namespace Form

def number (width : Nat) : Form Nat :=
  fun n bytes => n < 256 ^ width ∧ bytes = Bytes.ofNat width n

inductive sequence (item : Form α) : Form (List α)
  | nil : sequence item [] []
  | cons {a : α} {front : Bytes} {others : List α} {back : Bytes} :
      item a front → sequence item others back → sequence item (a :: others) (front ++ back)

theorem sequence.exists_item {item : Form α} {items : List α} {bytes : Bytes}
    (h : sequence item items bytes) : ∀ a ∈ items, ∃ part, item a part := by
  induction h with
  | nil => simp
  | cons hfirst _ ih =>
    intro a ha
    rcases List.mem_cons.1 ha with rfl | ha
    · exact ⟨_, hfirst⟩
    · exact ih a ha

def table (item : Form α) : Form (List α) :=
  fun items bytes => ∃ back, items.length < 2 ^ 16 ∧ sequence item items back ∧
    bytes = Bytes.ofNat 2 items.length ++ back

/-- A pool position is written as the index above it, and 0 is written where there is none. -/
def optionalPosition : Form (Option Nat) :=
  fun place bytes =>
    let index := place.elim 0 (· + 1)
    index < 2 ^ 16 ∧ bytes = Bytes.ofNat 2 index

def position : Form Nat :=
  fun place bytes => place + 1 < 2 ^ 16 ∧ bytes = Bytes.ofNat 2 (place + 1)

end Form

namespace Bytes

theorem ofNat_toNat (bytes : Bytes) : ofNat bytes.length (toNat bytes) = bytes := by
  induction bytes using List.reverseRecOn with
  | nil => rfl
  | append_singleton front b ih =>
    have hb : b.toNat < 256 := b.toNat_lt
    have hdiv : (toNat front * 256 + b.toNat) / 256 = toNat front := by omega
    have hmod : (toNat front * 256 + b.toNat).toUInt8 = b := by
      apply UInt8.toNat_inj.1
      rw [Nat.toUInt8_eq, UInt8.toNat_ofNat']
      omega
    rw [toNat_append_singleton, List.length_append, List.length_singleton, ofNat, hdiv, hmod, ih]

theorem toNat_ofNat (width n : Nat) : toNat (ofNat width n) = n % 256 ^ width := by
  induction width generalizing n with
  | zero => simp [ofNat, toNat, Nat.mod_one]
  | succ width ih =>
    rw [ofNat, toNat_append_singleton, ih, Nat.pow_succ, Nat.mul_comm (256 ^ width) 256,
      Nat.mod_mul, Nat.toUInt8_eq, UInt8.toNat_ofNat']
    omega

theorem toNat_lt (bytes : Bytes) : toNat bytes < 256 ^ bytes.length := by
  have h := toNat_ofNat bytes.length (toNat bytes)
  rw [ofNat_toNat] at h
  rw [h]
  exact Nat.mod_lt _ (Nat.pow_pos (by decide))

theorem toNat_ofNat_of_lt {width n : Nat} (h : n < 256 ^ width) : toNat (ofNat width n) = n := by
  rw [toNat_ofNat, Nat.mod_eq_of_lt h]

theorem ofNat_injective {width n k : Nat} (hn : n < 256 ^ width) (hk : k < 256 ^ width)
    (h : ofNat width n = ofNat width k) : n = k := by
  rw [← toNat_ofNat_of_lt hn, h, toNat_ofNat_of_lt hk]

end Bytes

namespace Decoder

/-- The decoder succeeds exactly when the next bytes are of the form and the cursor behind them
meets the condition. -/
def ReadsIf (condition : Cursor → Prop) (decoder : Decoder α) (form : Form α) : Prop :=
  ∀ cursor a after, decoder.run cursor = .ok a after ↔
    ∃ bytes, form a bytes ∧ cursor.rest = bytes ++ after.rest ∧
      after.position = cursor.position + bytes.length ∧ condition after

def Reads (decoder : Decoder α) (form : Form α) : Prop :=
  ReadsIf (fun _ => True) decoder form

/-- The decoder succeeds and has nothing left over exactly for the byte strings of the form. -/
def UsesUp (decoder : Decoder α) (form : Form α) : Prop :=
  ∀ bytes a, (∃ after, decoder.runOn bytes = .ok a after ∧ after.rest = []) ↔ form a bytes

variable {condition : Cursor → Prop} {decoder : Decoder α} {form : Form α}

theorem ReadsIf.congr {other : Form α} (h : ReadsIf condition decoder form)
    (hform : ∀ a bytes, form a bytes ↔ other a bytes) : ReadsIf condition decoder other := by
  intro cursor a after
  rw [h cursor a after]
  simp only [hform]

theorem Reads.congr {other : Form α} (h : Reads decoder form)
    (hform : ∀ a bytes, form a bytes ↔ other a bytes) : Reads decoder other :=
  ReadsIf.congr h hform

theorem Reads.usesUp (h : Reads decoder form) : UsesUp decoder form := by
  intro bytes a
  constructor
  · rintro ⟨after, hrun, hrest⟩
    obtain ⟨front, hform, hbytes, -, -⟩ := (h _ _ _).1 hrun
    rw [hrest, List.append_nil] at hbytes
    obtain rfl : bytes = front := hbytes
    exact hform
  · intro hform
    refine ⟨⟨bytes.length, []⟩, (h _ _ _).2 ⟨bytes, hform, ?_, ?_, trivial⟩, rfl⟩
    · exact (List.append_nil bytes).symm
    · exact (Nat.zero_add _).symm

theorem Reads.run (h : Reads decoder form) {a : α} {read : Bytes} (ha : form a read)
    (position : Nat) (rest : Bytes) :
    decoder.run ⟨position, read ++ rest⟩ = .ok a ⟨position + read.length, rest⟩ :=
  (h _ _ _).2 ⟨read, ha, rfl, rfl, trivial⟩

theorem Reads.unique (h : Reads decoder form) {a b : α} {front other rest more : Bytes}
    (ha : form a front) (hb : form b other) (hbytes : front ++ rest = other ++ more) :
    a = b ∧ front = other ∧ rest = more := by
  have hrun := h.run ha 0 rest
  rw [hbytes, h.run hb 0 more] at hrun
  obtain ⟨rfl, hafter⟩ := EStateM.Result.ok.inj hrun
  obtain rfl : more = rest := congrArg Cursor.rest hafter
  exact ⟨rfl, List.append_cancel_right hbytes, rfl⟩

/-- Of two sequences at the front of the bytes one begins with the other. -/
theorem Reads.comparable (h : Reads decoder form) {as bs : List α} {front other rest more : Bytes}
    (has : Form.sequence form as front) (hbs : Form.sequence form bs other)
    (hbytes : front ++ rest = other ++ more) : as <+: bs ∨ bs <+: as := by
  induction has generalizing bs other with
  | nil => exact .inl List.nil_prefix
  | cons ha _ ih =>
    cases hbs with
    | nil => exact .inr List.nil_prefix
    | cons hb hothers =>
      rw [List.append_assoc, List.append_assoc] at hbytes
      obtain ⟨rfl, -, hrest⟩ := h.unique ha hb hbytes
      simpa only [List.cons_prefix_cons, true_and] using ih hothers hrest

theorem reads_pure (a : α) : Reads (pure a) fun b bytes => b = a ∧ bytes = [] := by
  intro cursor b after
  obtain ⟨position, rest⟩ := cursor
  obtain ⟨place, back⟩ := after
  constructor
  · intro h
    simp only [EStateM.run_pure, EStateM.Result.ok.injEq, Cursor.mk.injEq] at h
    obtain ⟨rfl, rfl, rfl⟩ := h
    exact ⟨[], ⟨rfl, rfl⟩, rfl, rfl, trivial⟩
  · rintro ⟨_, ⟨rfl, rfl⟩, hrest, hposition, -⟩
    simp only [List.nil_append, List.length_nil, Nat.add_zero] at hrest hposition
    rw [EStateM.run_pure, hrest, hposition]

theorem reads_throw (e : StructuralError) :
    Reads (throw e : Decoder α) fun _ _ => False := by
  intro cursor a after
  simp

theorem ReadsIf.bind {next : α → Decoder β} {forms : α → Form β} (h : Reads decoder form)
    (hnext : ∀ a, ReadsIf condition (next a) (forms a)) :
    ReadsIf condition (decoder >>= next) fun b bytes =>
      ∃ a front back, form a front ∧ forms a b back ∧ bytes = front ++ back := by
  intro cursor b after
  rw [Work.run_bind_eq_ok_iff]
  constructor
  · rintro ⟨a, between, hfirst, hrun⟩
    obtain ⟨front, hfront, hrest, hplace, -⟩ := (h _ _ _).1 hfirst
    obtain ⟨back, hback, hrest', hplace', hafter⟩ := (hnext a _ _ _).1 hrun
    refine ⟨front ++ back, ⟨a, front, back, hfront, hback, rfl⟩, ?_, ?_, hafter⟩
    · rw [hrest, hrest', List.append_assoc]
    · rw [hplace', hplace, List.length_append, Nat.add_assoc]
  · rintro ⟨_, ⟨a, front, back, hfront, hback, rfl⟩, hrest, hplace, hafter⟩
    have hfirst : decoder.run cursor =
        .ok a ⟨cursor.position + front.length, back ++ after.rest⟩ :=
      (h _ _ _).2 ⟨front, hfront, by rw [hrest, List.append_assoc], rfl, trivial⟩
    refine ⟨a, _, hfirst, (hnext a _ _ _).2 ⟨back, hback, rfl, ?_, hafter⟩⟩
    rw [hplace, List.length_append, Nat.add_assoc]

theorem Reads.bind {next : α → Decoder β} {forms : α → Form β} (h : Reads decoder form)
    (hnext : ∀ a, Reads (next a) (forms a)) :
    Reads (decoder >>= next) fun b bytes =>
      ∃ a front back, form a front ∧ forms a b back ∧ bytes = front ++ back :=
  ReadsIf.bind h hnext

theorem Reads.map (f : α → β) (h : Reads decoder form) :
    Reads (f <$> decoder) fun b bytes => ∃ a, form a bytes ∧ f a = b := by
  intro cursor b after
  rw [Work.run_map_eq_ok_iff]
  constructor
  · rintro ⟨a, hrun, rfl⟩
    obtain ⟨bytes, hform, hrest⟩ := (h _ _ _).1 hrun
    exact ⟨bytes, ⟨a, hform, rfl⟩, hrest⟩
  · rintro ⟨bytes, ⟨a, hform, rfl⟩, hrest⟩
    exact ⟨a, (h cursor a after).2 ⟨bytes, hform, hrest⟩, rfl⟩

theorem reads_lift (answer : Except StructuralError α) :
    Reads (lift answer) fun a bytes => answer = .ok a ∧ bytes = [] := by
  cases answer with
  | error e => exact (reads_throw e).congr (by simp)
  | ok b => exact (reads_pure b).congr (by simp [eq_comm])

theorem reads_bytes (width : Nat) :
    Reads (bytes width) fun a bytes => a = bytes ∧ bytes.length = width := by
  intro cursor a after
  obtain ⟨position, rest⟩ := cursor
  obtain ⟨place, back⟩ := after
  rw [run_bytes, Cursor.remaining]
  constructor
  · intro h
    split at h
    next hle =>
      simp only [EStateM.Result.ok.injEq, Cursor.mk.injEq] at h
      obtain ⟨rfl, rfl, rfl⟩ := h
      have hlength : (rest.take width).length = width := List.length_take_of_le hle
      refine ⟨_, ⟨rfl, hlength⟩, (List.take_append_drop width rest).symm, ?_, trivial⟩
      rw [hlength]
    next => contradiction
  · rintro ⟨_, ⟨rfl, rfl⟩, hrest, hposition, -⟩
    simp only at hrest hposition
    subst hrest hposition
    simp

theorem reads_unsigned (width : Nat) : Reads (unsigned width) (Form.number width) := by
  refine ((reads_bytes width).map Bytes.toNat).congr fun n bytes => ?_
  constructor
  · rintro ⟨_, ⟨rfl, rfl⟩, rfl⟩
    exact ⟨Bytes.toNat_lt _, (Bytes.ofNat_toNat _).symm⟩
  · rintro ⟨hn, rfl⟩
    exact ⟨_, ⟨rfl, Bytes.length_ofNat _ _⟩, Bytes.toNat_ofNat_of_lt hn⟩

theorem reads_word {width : Nat} {ofNat : Nat → α} {toNat : α → Nat}
    (hlt : ∀ x, toNat x < 256 ^ width) (hof : ∀ x, ofNat (toNat x) = x)
    (hto : ∀ n < 256 ^ width, toNat (ofNat n) = n) :
    Reads (ofNat <$> unsigned width) fun x bytes => bytes = Bytes.ofNat width (toNat x) := by
  refine ((reads_unsigned width).map ofNat).congr fun x bytes => ?_
  constructor
  · rintro ⟨n, ⟨hn, rfl⟩, rfl⟩
    rw [hto n hn]
  · rintro rfl
    exact ⟨toNat x, ⟨hlt x, rfl⟩, hof x⟩

theorem reads_u8 : Reads u8 fun x bytes => bytes = Bytes.ofNat 1 x.toNat :=
  reads_word UInt8.toNat_lt (fun _ => UInt8.ofNat_toNat) fun _ h => UInt8.toNat_ofNat_of_lt' h

theorem reads_u16 : Reads u16 fun x bytes => bytes = Bytes.ofNat 2 x.toNat :=
  reads_word UInt16.toNat_lt (fun _ => UInt16.ofNat_toNat) fun _ h => UInt16.toNat_ofNat_of_lt' h

theorem reads_u32 : Reads u32 fun x bytes => bytes = Bytes.ofNat 4 x.toNat :=
  reads_word UInt32.toNat_lt (fun _ => UInt32.ofNat_toNat) fun _ h => UInt32.toNat_ofNat_of_lt' h

theorem reads_u64 : Reads u64 fun x bytes => bytes = Bytes.ofNat 8 x.toNat :=
  reads_word UInt64.toNat_lt (fun _ => UInt64.ofNat_toNat) fun _ h => UInt64.toNat_ofNat_of_lt' h

theorem reads_optionalPoolIndex : Reads optionalPoolIndex Form.optionalPosition := by
  have hindex : Reads optionalPoolIndex fun place bytes => ∃ (index : UInt16) (front back : Bytes),
      front = Bytes.ofNat 2 index.toNat ∧
        (place.elim 0 (· + 1) = index.toNat ∧ back = []) ∧ bytes = front ++ back := by
    refine reads_u16.bind fun index => ?_
    cases index.toNat with
    | zero => exact (reads_pure none).congr fun place bytes => by cases place <;> simp
    | succ n => exact (reads_pure (some n)).congr fun place bytes => by cases place <;> simp
  refine hindex.congr fun place bytes => ?_
  constructor
  · rintro ⟨index, _, _, rfl, ⟨hplace, rfl⟩, rfl⟩
    simp only [Form.optionalPosition, hplace, List.append_nil]
    exact ⟨index.toNat_lt, trivial⟩
  · rintro ⟨hlt, rfl⟩
    have hindex := UInt16.toNat_ofNat_of_lt' hlt
    exact ⟨_, _, [], rfl, ⟨hindex.symm, rfl⟩, by rw [hindex, List.append_nil]⟩

theorem reads_poolIndex : Reads poolIndex Form.position := by
  have hplace : Reads poolIndex fun position bytes => ∃ (place : Option Nat) (front back : Bytes),
      Form.optionalPosition place front ∧ (place = some position ∧ back = []) ∧
        bytes = front ++ back := by
    refine reads_optionalPoolIndex.bind fun place => ?_
    cases place with
    | none => exact (reads_throw _).congr (by simp)
    | some n => exact (reads_pure n).congr (by simp [eq_comm])
  refine hplace.congr fun position bytes => ?_
  constructor
  · rintro ⟨_, front, _, hfront, ⟨rfl, rfl⟩, rfl⟩
    rw [List.append_nil]
    exact hfront
  · intro h
    exact ⟨some position, bytes, [], h, ⟨rfl, rfl⟩, (List.append_nil bytes).symm⟩

theorem Reads.times (h : Reads decoder form) (count : Nat) :
    Reads (times count decoder) fun items bytes =>
      items.length = count ∧ Form.sequence form items bytes := by
  induction count with
  | zero =>
    refine (reads_pure []).congr fun items bytes => ?_
    constructor
    · rintro ⟨rfl, rfl⟩
      exact ⟨rfl, .nil⟩
    · rintro ⟨hlength, hitems⟩
      cases hitems with
      | nil => exact ⟨rfl, rfl⟩
      | cons => contradiction
  | succ count ih =>
    have hcons (first : α) := (ih.bind fun others => reads_pure (first :: others))
    refine (h.bind hcons).congr fun items bytes => ?_
    constructor
    · rintro ⟨first, front, _, hfirst, ⟨others, back, _, ⟨hlength, hothers⟩, ⟨rfl, rfl⟩, rfl⟩, rfl⟩
      rw [List.append_nil]
      exact ⟨by rw [List.length_cons, hlength], .cons hfirst hothers⟩
    · rintro ⟨hlength, hitems⟩
      cases hitems with
      | nil => contradiction
      | @cons first front others back hfirst hothers =>
        refine ⟨first, front, back, hfirst, ⟨others, back, [], ⟨?_, hothers⟩, ⟨rfl, rfl⟩, ?_⟩, rfl⟩
        · exact Nat.succ.inj hlength
        · exact (List.append_nil back).symm

theorem Reads.table (h : Reads decoder form) : Reads (table decoder) (Form.table form) := by
  refine (reads_u16.bind fun count => h.times count.toNat).congr fun items bytes => ?_
  constructor
  · rintro ⟨count, _, back, rfl, ⟨hlength, hitems⟩, rfl⟩
    exact ⟨back, hlength ▸ count.toNat_lt, hitems, by rw [hlength]⟩
  · rintro ⟨back, hlength, hitems, rfl⟩
    have hcount := UInt16.toNat_ofNat_of_lt' hlength
    exact ⟨_, _, back, rfl, ⟨hcount.symm, hitems⟩, by rw [hcount]⟩

theorem usesUp_rest : UsesUp rest fun a bytes => a = bytes := by
  intro bytes a
  constructor
  · rintro ⟨after, hrun, -⟩
    rw [runOn, run_rest] at hrun
    simp only [EStateM.Result.ok.injEq] at hrun
    exact hrun.1.symm
  · rintro rfl
    exact ⟨⟨a.length, []⟩, by rw [runOn, run_rest, Cursor.length_ofBytes]; rfl, rfl⟩

theorem UsesUp.map (f : α → β) (h : UsesUp decoder form) :
    UsesUp (f <$> decoder) fun b bytes => ∃ a, form a bytes ∧ f a = b := by
  intro bytes b
  simp only [runOn, Work.run_map_eq_ok_iff]
  constructor
  · rintro ⟨after, ⟨a, hrun, rfl⟩, hrest⟩
    exact ⟨a, (h bytes a).1 ⟨after, hrun, hrest⟩, rfl⟩
  · rintro ⟨a, hform, rfl⟩
    obtain ⟨after, hrun, hrest⟩ := (h bytes a).2 hform
    exact ⟨after, ⟨a, hrun, rfl⟩, hrest⟩

theorem Reads.thenPure {β : Type} (h : Reads decoder form) (f : α → β) :
    Reads (do return f (← decoder)) fun b bytes => ∃ a, form a bytes ∧ f a = b := by
  refine (h.bind fun a => reads_pure (f a)).congr fun b bytes => ?_
  constructor
  · rintro ⟨a, front, _, hfront, ⟨rfl, rfl⟩, rfl⟩
    exact ⟨a, by rwa [List.append_nil], rfl⟩
  · rintro ⟨a, hform, rfl⟩
    exact ⟨a, bytes, [], hform, ⟨rfl, rfl⟩, (List.append_nil bytes).symm⟩

theorem Reads.discard (h : Reads decoder form) :
    Reads (discard decoder) fun _ bytes => ∃ a, form a bytes := by
  refine (h.map fun _ => PUnit.unit).congr fun _ bytes => ?_
  simp

theorem UsesUp.congr {other : Form α} (h : UsesUp decoder form)
    (hform : ∀ a bytes, form a bytes ↔ other a bytes) : UsesUp decoder other := by
  intro bytes a
  rw [h bytes a, hform]

theorem ReadsIf.ite {other : Decoder α} {otherForm : Form α}
    {p : Prop} [Decidable p] (h : ReadsIf condition decoder form)
    (hother : ReadsIf condition other otherForm) :
    ReadsIf condition (if p then decoder else other) fun a bytes =>
      if p then form a bytes else otherForm a bytes := by
  split
  · exact h.congr (by simp [*])
  · exact hother.congr (by simp [*])

end Decoder

end ClassMachine
