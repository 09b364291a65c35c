import ClassMachine.Proofs.ClassFile.Statics
import ClassMachine.Proofs.NameMap

/-!
# The slots of fields

Fields get their slots by name. Where several fields have one name there is one slot for all of
them: that of a new object holds what the last of them starts with, and that of the static fields
what the first one starts with. So each field has a slot of its own, with its own value, exactly if
no other field beside it has its name.
-/

namespace ClassMachine.ClassFile

open Work

variable {file : ClassFile} {fields : List Field}

def lastValue (file : ClassFile) (fields : List Field) (name : Bytes) : Option Slot :=
  file.firstValue fields.reverse name

def fieldNames (file : ClassFile) (fields : List Field) : List Bytes :=
  fields.filterMap fun field => file.text? field.name

/-- Each of the fields has a slot of its own, and starts with its value in it. -/
structure OneSlotEach (file : ClassFile) (fields : List Field) (slots : FieldMap) : Prop where
  count : slots.size = fields.length
  reads : ∀ field ∈ fields, ∀ name value, file.pool.utf8 field.name = .ok name →
    file.initialValue field = .ok value → slots.get? name = some value

theorem mem_of_mem_instanceFields (field : Field) (h : field ∈ file.instanceFields) :
    field ∈ file.fields :=
  (List.mem_filter.1 h).1

theorem text?_of_utf8 {position : Nat} {name : Bytes} (h : file.pool.utf8 position = .ok name) :
    file.text? position = some name := by
  rw [text?, h]
  rfl

theorem fieldNames_cons {field : Field} {name : Bytes} (h : file.pool.utf8 field.name = .ok name)
    (fields : List Field) : file.fieldNames (field :: fields) = name :: file.fieldNames fields := by
  simp [fieldNames, text?_of_utf8 h]

theorem fieldNames_append (front back : List Field) :
    file.fieldNames (front ++ back) = file.fieldNames front ++ file.fieldNames back :=
  List.filterMap_append ..

theorem fieldNames_reverse (fields : List Field) :
    file.fieldNames fields.reverse = (file.fieldNames fields).reverse :=
  List.filterMap_reverse ..

theorem length_fieldNames (h : file.check = .ok ())
    (hfields : ∀ field ∈ fields, field ∈ file.fields) :
    (file.fieldNames fields).length = fields.length := by
  induction fields with
  | nil => rfl
  | cons field fields ih =>
    obtain ⟨hfield, hrest⟩ := List.forall_mem_cons.1 hfields
    obtain ⟨name, hname⟩ := fieldName_of_check h hfield
    rw [fieldNames_cons hname, List.length_cons, ih hrest, List.length_cons]

theorem isSome_firstValue_iff
    (hvalues : ∀ field ∈ fields, ∃ value, file.initialValue field = .ok value) (name : Bytes) :
    (file.firstValue fields name).isSome = true ↔ name ∈ file.fieldNames fields := by
  have hnamed (field : Field) :
      file.isNamed name field = true ↔ file.text? field.name = some name :=
    beq_iff_eq
  simp only [firstValue, fieldNames, List.mem_filterMap]
  cases hfind : fields.find? (file.isNamed name) with
  | none =>
    refine iff_of_false Bool.false_ne_true ?_
    rintro ⟨field, hfield, htext⟩
    exact absurd ((hnamed field).2 htext) (List.find?_eq_none.1 hfind field hfield)
  | some field =>
    have hfield := List.mem_of_find?_eq_some hfind
    obtain ⟨value, hvalue⟩ := hvalues field hfield
    refine ⟨fun _ => ⟨field, hfield, (hnamed field).1 (List.find?_some hfind)⟩, fun _ => ?_⟩
    rw [Option.bind_some, hvalue]
    rfl

theorem firstValue_of_nodup (hnodup : (file.fieldNames fields).Nodup) {field : Field}
    (hfield : field ∈ fields) {name : Bytes} (hname : file.pool.utf8 field.name = .ok name)
    {value : Slot} (hvalue : file.initialValue field = .ok value) :
    file.firstValue fields name = some value := by
  obtain ⟨front, back, rfl⟩ := List.append_of_mem hfield
  have htext := text?_of_utf8 hname
  rw [fieldNames_append, fieldNames_cons hname] at hnodup
  have hnew : name ∉ file.fieldNames front := by
    intro hmem
    exact (List.disjoint_of_nodup_append hnodup) hmem (List.mem_cons_self ..)
  have hfront : front.find? (file.isNamed name) = none := by
    refine List.find?_eq_none.2 fun other hother hnamed => hnew ?_
    exact List.mem_filterMap.2 ⟨other, hother, beq_iff_eq.1 hnamed⟩
  have hself : file.isNamed name field = true := beq_iff_eq.2 htext
  rw [firstValue, List.find?_append, hfront, List.find?_cons_of_pos hself, Option.none_or,
    Option.bind_some, hvalue]
  rfl

/-- There is one slot for all fields of one name, and it holds the value that is given for them. -/
structure Allotted (file : ClassFile) (fields : List Field) (value : Bytes → Option Slot)
    (slots : FieldMap) : Prop where
  reads : ∀ name, slots.get? name = value name
  size : slots.size = (file.fieldNames fields).dedup.length
  oneEach : file.OneSlotEach fields slots ↔ (file.fieldNames fields).Nodup

theorem allotted (h : file.check = .ok ()) (hfields : ∀ field ∈ fields, field ∈ file.fields)
    {value : Bytes → Option Slot} {slots : FieldMap} (hordered : slots.Ordered)
    (hreads : ∀ name, slots.get? name = value name)
    (hnames : ∀ name, (value name).isSome = true ↔ name ∈ file.fieldNames fields)
    (hown : (file.fieldNames fields).Nodup → ∀ field ∈ fields, ∀ name own,
      file.pool.utf8 field.name = .ok name → file.initialValue field = .ok own →
        value name = some own) :
    file.Allotted fields value slots := by
  have hsize : slots.size = (file.fieldNames fields).dedup.length :=
    hordered.size_eq fun name => by rw [NameMap.contains, hreads, hnames]
  have hlength := length_fieldNames h hfields
  refine ⟨hreads, hsize, fun heach => ?_, fun hnodup => ⟨?_, ?_⟩⟩
  · have hsame : (file.fieldNames fields).dedup.length = (file.fieldNames fields).length := by
      rw [← hsize, heach.count, hlength]
    rw [← (List.dedup_sublist _).eq_of_length hsame]
    exact List.nodup_dedup _
  · rw [hsize, hnodup.dedup, hlength]
  · intro field hfield name own hname hvalue
    rw [hreads]
    exact hown hnodup field hfield name own hname hvalue

section instances

theorem lastValue_cons {field : Field} {found : Bytes}
    (hfound : file.pool.utf8 field.name = .ok found) {value : Slot}
    (hvalue : file.initialValue field = .ok value)
    (hvalues : ∀ other ∈ fields, ∃ own, file.initialValue other = .ok own) (name : Bytes) :
    file.lastValue (field :: fields) name =
      (file.lastValue fields name).or (if name = found then some value else none) := by
  simp only [lastValue, firstValue, List.reverse_cons, List.find?_append]
  cases hfind : fields.reverse.find? (file.isNamed name) with
  | some other =>
    have hmem := List.mem_reverse.1 (List.mem_of_find?_eq_some hfind)
    obtain ⟨own, hown⟩ := hvalues other hmem
    simp [hown, Except.toOption]
  | none =>
    have hnamed : file.isNamed name field = (found == name) := by
      simp [isNamed, text?_of_utf8 hfound]
    by_cases heq : name = found
    · subst heq
      simp [hnamed, hvalue, Except.toOption]
    · simp [hnamed, heq, Ne.symm heq]

/-- Every field gets its slot, over that of an earlier field of its name. -/
theorem get?_of_fillInstance {slots filled : FieldMap}
    (hfill : file.fillInstance fields slots = .ok filled) :
    (∀ field ∈ fields, ∃ value, file.initialValue field = .ok value) ∧
      ∀ name, filled.get? name = (file.lastValue fields name).or (slots.get? name) := by
  induction fields generalizing slots with
  | nil =>
    obtain rfl := Except.ok.inj hfill
    exact ⟨fun field hfield => absurd hfield List.not_mem_nil, fun name => rfl⟩
  | cons field fields ih =>
    simp only [fillInstance, bind_eq_ok_iff] at hfill
    obtain ⟨found, hfound, value, hvalue, hrest⟩ := hfill
    obtain ⟨hvalues, hget⟩ := ih hrest
    refine ⟨List.forall_mem_cons.2 ⟨⟨value, hvalue⟩, hvalues⟩, fun name => ?_⟩
    rw [hget, lastValue_cons hfound hvalue hvalues, NameMap.get?_insert]
    split <;> cases file.lastValue fields name <;> rfl

theorem get?_of_newInstance {slots : FieldMap} (h : file.newInstance = .ok slots) (name : Bytes) :
    slots.get? name = file.lastValue file.instanceFields name := by
  rw [(get?_of_fillInstance h).2, NameMap.get?_empty, Option.or_none]

theorem isSome_lastValue_iff {slots : FieldMap} (h : file.newInstance = .ok slots) (name : Bytes) :
    (file.lastValue file.instanceFields name).isSome = true ↔
      name ∈ file.fieldNames file.instanceFields := by
  rw [lastValue, isSome_firstValue_iff, fieldNames_reverse, List.mem_reverse]
  exact fun field hfield => (get?_of_fillInstance h).1 field (List.mem_reverse.1 hfield)

theorem exists_fillInstance (h : file.check = .ok ())
    (hfields : ∀ field ∈ fields, field ∈ file.fields) {slots : FieldMap}
    (hordered : slots.Ordered) :
    ∃ filled, file.fillInstance fields slots = .ok filled ∧ filled.Ordered := by
  induction fields generalizing slots with
  | nil => exact ⟨slots, rfl, hordered⟩
  | cons field fields ih =>
    obtain ⟨hfield, hrest⟩ := List.forall_mem_cons.1 hfields
    obtain ⟨found, hfound⟩ := fieldName_of_check h hfield
    obtain ⟨value, hvalue⟩ := initialValue_of_check h hfield
    obtain ⟨filled, hfilled, hlater⟩ := ih hrest (hordered.insert found value)
    refine ⟨filled, ?_, hlater⟩
    simp only [fillInstance, bind_eq_ok_iff]
    exact ⟨found, hfound, value, hvalue, hfilled⟩

theorem lastValue_of_nodup (hnodup : (file.fieldNames fields).Nodup) {field : Field}
    (hfield : field ∈ fields) {name : Bytes} (hname : file.pool.utf8 field.name = .ok name)
    {value : Slot} (hvalue : file.initialValue field = .ok value) :
    file.lastValue fields name = some value := by
  refine firstValue_of_nodup ?_ (List.mem_reverse.2 hfield) hname hvalue
  rw [fieldNames_reverse]
  exact List.nodup_reverse.2 hnodup

/-- A new object has one slot for all fields of one name, which holds the value of the last one. -/
theorem exists_newInstance (h : file.check = .ok ()) :
    ∃ slots, file.newInstance = .ok slots ∧
      file.Allotted file.instanceFields (file.lastValue file.instanceFields) slots := by
  obtain ⟨slots, hslots, hordered⟩ :=
    exists_fillInstance h mem_of_mem_instanceFields NameMap.ordered_empty
  refine ⟨slots, hslots, allotted h mem_of_mem_instanceFields hordered
    (get?_of_newInstance hslots) (isSome_lastValue_iff hslots) ?_⟩
  exact fun hnodup field hfield name own hname hvalue =>
    lastValue_of_nodup hnodup hfield hname hvalue

/-- The first field of a name, if it is no static one and no other field of an object has the name,
starts with what a new object has under that name. -/
theorem OneSlotEach.get?_of_fieldIndex? {slots : FieldMap}
    (heach : file.OneSlotEach file.instanceFields slots) {name : Bytes} {place : Nat}
    {field : Field} (hplace : file.fieldIndex? name = some place)
    (hfield : file.fields[place]? = some field)
    (hstatic : field.flags.isStatic = false) {value : Slot}
    (hvalue : file.initialValue field = .ok value) : slots.get? name = some value := by
  obtain ⟨hlt, hnamed, -⟩ := List.findIdx?_eq_some_iff_getElem.1 hplace
  obtain rfl : file.fields[place] = field :=
    Option.some.inj ((List.getElem?_eq_getElem hlt).symm.trans hfield)
  have hmem : file.fields[place] ∈ file.instanceFields :=
    List.mem_filter.2 ⟨List.getElem_mem hlt, by simp [hstatic]⟩
  refine heach.reads _ hmem name value ?_ hvalue
  rw [beq_iff_eq, text?] at hnamed
  cases hutf8 : file.pool.utf8 file.fields[place].name with
  | error e =>
    rw [hutf8] at hnamed
    contradiction
  | ok found =>
    rw [hutf8] at hnamed
    exact congrArg Except.ok (Option.some.inj hnamed)

end instances

section statics

theorem ordered_fillStatics (h : file.check = .ok ())
    (hfields : ∀ field ∈ fields, field ∈ file.fields) {statics : FieldMap}
    (hordered : statics.Ordered) :
    (final ((file.fillStatics fields).run statics)).Ordered := by
  induction fields generalizing statics with
  | nil => exact hordered
  | cons field fields ih =>
    obtain ⟨hfield, hrest⟩ := List.forall_mem_cons.1 hfields
    obtain ⟨found, hfound⟩ := fieldName_of_check h hfield
    obtain ⟨value, hvalue⟩ := initialValue_of_check h hfield
    rw [run_fillStatics_cons hfound hvalue]
    split
    · exact ih hrest hordered
    · exact ih hrest (hordered.insert found value)

theorem exists_fillStatics (h : file.check = .ok ()) :
    ∃ slots, (file.fillStatics file.staticFields).run .empty = .ok () slots ∧
      file.Allotted file.staticFields file.initialStatic slots := by
  obtain ⟨slots, hslots, hget⟩ := run_fillStatics h mem_of_mem_staticFields .empty
  have hordered := ordered_fillStatics h mem_of_mem_staticFields NameMap.ordered_empty
  rw [hslots] at hordered
  refine ⟨slots, hslots, allotted h mem_of_mem_staticFields hordered (fun name => ?_)
    (isSome_firstValue_iff fun field hfield =>
      initialValue_of_check h (mem_of_mem_staticFields field hfield))
    fun hnodup field hfield name own hname hvalue => firstValue_of_nodup hnodup hfield hname hvalue⟩
  rw [hget, NameMap.get?_empty, Option.none_or]
  rfl

end statics

end ClassMachine.ClassFile
