import ClassMachine.Native.Bootstrap
import ClassMachine.Proofs.ClassTable.Initialization
import ClassMachine.Proofs.Machine.Ownership

/-!
# The classes that are there from the start

The drafts of these classes are fixed, so what they come to is computed. The machine is then the
empty one with the four classes entered one after another, and has one object, the stream.
-/

namespace ClassMachine.Bootstrap

open Work

/-- What the machine relies on in a class of its own. -/
structure Installed (name : Bytes) (c : LoadedClass) : Prop where
  named : c.file.name = .ok name
  checked : c.file.check = .ok ()
  done : c.state = .done
  super : c.file.superName = .ok none ∨ c.file.superName = .ok (some Drafting.objectName)
  takesNothing : c.file.TakesNothing
  creates : c.file.newInstance = .ok .empty

def answers {ε α : Type} [DecidableEq α] (answer : Except ε α) (a : α) : Bool :=
  match answer with
  | .ok b => b = a
  | .error _ => false

theorem eq_ok_of_answers {ε α : Type} [DecidableEq α] {answer : Except ε α} {a : α}
    (h : answers answer a = true) : answer = .ok a := by
  cases answer with
  | error e => contradiction
  | ok b => rw [of_decide_eq_true h]

def installs (name : Bytes) (work : Drafting Unit) : Bool :=
  match work.build with
  | .error _ => false
  | .ok c =>
    answers c.file.name name && answers c.file.check () && c.state = .done &&
      (answers c.file.superName none || answers c.file.superName (some Drafting.objectName)) &&
      c.file.methods.all (fun method => match method.body with
        | .bytecode => true
        | .native actions => !actions.contains .discard) &&
      answers c.file.newInstance .empty

theorem exists_of_installs {name : Bytes} {work : Drafting Unit} (h : installs name work = true) :
    ∃ c, work.build = .ok c ∧ Installed name c := by
  unfold installs at h
  split at h
  next => contradiction
  next c hbuild =>
    simp only [Bool.and_eq_true, Bool.or_eq_true, decide_eq_true_eq, List.all_eq_true] at h
    obtain ⟨⟨⟨⟨⟨hname, hcheck⟩, hdone⟩, hsuper⟩, hmethods⟩, hcreates⟩ := h
    refine ⟨c, hbuild, eq_ok_of_answers hname, eq_ok_of_answers hcheck, hdone,
      hsuper.imp eq_ok_of_answers eq_ok_of_answers, ?_, eq_ok_of_answers hcreates⟩
    intro method hmethod actions hbody
    have hmethod := hmethods method hmethod
    simpa [hbody] using hmethod

theorem objectClass_installs : installs Drafting.objectName objectClass = true := by
  decide +kernel

theorem stringClass_installs : installs stringName stringClass = true := by
  decide +kernel

theorem printStreamClass_installs : installs printStreamName printStreamClass = true := by
  decide +kernel

theorem systemClass_installs : installs systemName (systemClass (.of (.object 0))) = true := by
  decide +kernel

theorem names_nodup : [Drafting.objectName, stringName, printStreamName, systemName].Nodup := by
  decide +kernel

theorem run_register {name : Bytes} {work : Drafting Unit} {c : LoadedClass} {machine : Machine}
    (hbuild : work.build = .ok c) (hc : Installed name c)
    (hmissing : machine.table.get? name = none) :
    (register work).run machine = .ok name { machine with table :=
      { machine.table with classes := machine.table.classes.insert name c } } := by
  have hcontains : machine.table.contains name = false := by
    rw [ClassTable.contains_eq, hmissing]
    rfl
  simp only [register, hbuild, Run.structural, EStateM.run_bind, EStateM.run_pure, Run.run_link,
    Linking.run_register, hc.named, hcontains]
  rfl

theorem installed_of_build {name : Bytes} {work : Drafting Unit} {c : LoadedClass}
    (h : installs name work = true) (hbuild : work.build = .ok c) : Installed name c := by
  obtain ⟨d, hd, hinstalled⟩ := exists_of_installs h
  exact Except.ok.inj (hbuild.symm.trans hd) ▸ hinstalled

theorem machine_of_build {object string stream system : LoadedClass}
    (hobject : objectClass.build = .ok object) (hstring : stringClass.build = .ok string)
    (hstream : printStreamClass.build = .ok stream)
    (hsystem : (systemClass (.of (.object 0))).build = .ok system) (source : ClassSource)
    (console : Console) (address : ObjectId → Nat) :
    machine source console address = {
      table := { source, classes := NameMap.empty.insert Drafting.objectName object
        |>.insert stringName string |>.insert printStreamName stream
        |>.insert systemName system }
      heap := ⟨#[⟨printStreamName, .empty⟩], address⟩
      console } := by
  have stream_installed := installed_of_build printStreamClass_installs hstream
  have hnames := names_nodup
  simp only [List.nodup_cons, List.mem_cons, List.not_mem_nil, not_or, or_false] at hnames
  obtain ⟨⟨hos, hop, hoy⟩, ⟨hsp, hsy⟩, hpy, -⟩ := hnames
  unfold machine install
  simp only [EStateM.run_bind, run_discard]
  rw [run_register hobject (installed_of_build objectClass_installs hobject) rfl]
  simp only
  rw [run_register hstring (installed_of_build stringClass_installs hstring)
    (by simp [ClassTable.get?, Ne.symm hos])]
  simp only
  rw [run_register hstream stream_installed
    (by simp [ClassTable.get?, Ne.symm hop, Ne.symm hsp])]
  have hcreate (table : ClassTable) :
      (Run.create stream.file).run { table, heap := { address }, console } =
        .ok (.of (.object 0))
          { table, heap := ⟨#[⟨printStreamName, .empty⟩], address⟩, console } := by
    simp only [Run.create, Run.structural, stream_installed.named, stream_installed.creates,
      EStateM.run_bind, EStateM.run_pure, EStateM.run_get]
    rfl
  simp only [Run.run_link, Linking.run_lookup, ClassTable.get?, NameMap.get?_insert, if_true,
    hcreate]
  rw [run_register hsystem (installed_of_build systemClass_installs hsystem)
    (by simp [ClassTable.get?, Ne.symm hoy, Ne.symm hsy, Ne.symm hpy])]

/-- The machine at the start, with its classes in the order in which they are entered. -/
theorem machine_eq (source : ClassSource) (console : Console)
    (address : ObjectId → Nat) :
    ∃ object string stream system : LoadedClass,
      Installed Drafting.objectName object ∧ Installed stringName string ∧
      Installed printStreamName stream ∧ Installed systemName system ∧
      machine source console address = {
        table := { source, classes := NameMap.empty.insert Drafting.objectName object
          |>.insert stringName string |>.insert printStreamName stream
          |>.insert systemName system }
        heap := ⟨#[⟨printStreamName, .empty⟩], address⟩
        console } := by
  obtain ⟨object, hobject, object_installed⟩ := exists_of_installs objectClass_installs
  obtain ⟨string, hstring, string_installed⟩ := exists_of_installs stringClass_installs
  obtain ⟨stream, hstream, stream_installed⟩ := exists_of_installs printStreamClass_installs
  obtain ⟨system, hsystem, system_installed⟩ := exists_of_installs systemClass_installs
  exact ⟨object, string, stream, system, object_installed, string_installed, stream_installed,
    system_installed, machine_of_build hobject hstring hstream hsystem source console address⟩

theorem build_of_get? {source : ClassSource} {console : Console}
    {address : ObjectId → Nat} {name : Bytes} {c : LoadedClass}
    (h : (machine source console address).table.get? name = some c) :
    ∃ work ∈ [objectClass, stringClass, printStreamClass, systemClass (.of (.object 0))],
      work.build = .ok c := by
  obtain ⟨object, hobject, -⟩ := exists_of_installs objectClass_installs
  obtain ⟨string, hstring, -⟩ := exists_of_installs stringClass_installs
  obtain ⟨stream, hstream, -⟩ := exists_of_installs printStreamClass_installs
  obtain ⟨system, hsystem, -⟩ := exists_of_installs systemClass_installs
  simp only [machine_of_build hobject hstring hstream hsystem, ClassTable.get?,
    NameMap.get?_insert, NameMap.get?_empty] at h
  split_ifs at h <;> cases h <;> simp_all

theorem installed_of_get? {source : ClassSource} {console : Console}
    {address : ObjectId → Nat} {name : Bytes}
    {c : LoadedClass} (h : (machine source console address).table.get? name = some c) :
    Installed name c := by
  obtain ⟨object, string, stream, system, hobject, hstring, hstream, hsystem, hmachine⟩ :=
    machine_eq source console address
  simp only [hmachine, ClassTable.get?, NameMap.get?_insert, NameMap.get?_empty] at h
  split_ifs at h with hname hname hname hname <;> cases h <;> subst hname <;> assumption

theorem get?_objectName (source : ClassSource) (console : Console)
    (address : ObjectId → Nat) :
    ∃ c, (machine source console address).table.get? Drafting.objectName = some c := by
  obtain ⟨object, string, stream, system, hobject, hstring, hstream, hsystem, hmachine⟩ :=
    machine_eq source console address
  have hnames := names_nodup
  simp only [List.nodup_cons, List.mem_cons, List.not_mem_nil, not_or, or_false] at hnames
  exact ⟨object, by simp [hmachine, ClassTable.get?, hnames.1]⟩

theorem get?_eq_none (source : ClassSource) (console : Console)
    (address : ObjectId → Nat) {name : Bytes}
    (hname : name ∉ [Drafting.objectName, stringName, printStreamName, systemName]) :
    (machine source console address).table.get? name = none := by
  obtain ⟨object, string, stream, system, hobject, hstring, hstream, hsystem, hmachine⟩ :=
    machine_eq source console address
  simp only [List.mem_cons, List.not_mem_nil, not_or, or_false] at hname
  obtain ⟨ho, hs, hp, hy⟩ := hname
  simp [hmachine, ClassTable.get?, ho, hs, hp, hy]

theorem machine_source (source : ClassSource) (console : Console)
    (address : ObjectId → Nat) :
    (machine source console address).table.source = source := by
  obtain ⟨object, string, stream, system, hobject, hstring, hstream, hsystem, hmachine⟩ :=
    machine_eq source console address
  rw [hmachine]

theorem machine_checked (source : ClassSource) (console : Console)
    (address : ObjectId → Nat) :
    (machine source console address).table.Checked :=
  fun _ _ h => ⟨(installed_of_get? h).named, (installed_of_get? h).checked⟩

theorem machine_takesNothing (source : ClassSource) (console : Console)
    (address : ObjectId → Nat) :
    (machine source console address).table.TakesNothing :=
  fun _ _ h => (installed_of_get? h).takesNothing

end ClassMachine.Bootstrap
