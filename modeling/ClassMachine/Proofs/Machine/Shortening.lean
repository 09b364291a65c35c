import ClassMachine.Proofs.Machine.Stability

/-!
# Runs that are cut short by the console

A run with a limited console goes like the run without a limit until a text is written that does not
fit. The console takes the beginning of that text, the write fails, and nothing catches the failure.
So either the two runs come to the same, or the limited one stops at that write, and what it has
dispatched until then is what the other one had dispatched before it wrote the text.
-/

namespace ClassMachine

open Work

namespace Machine

/-- The number of bytes that the console has taken. -/
def printed (machine : Machine) : Nat :=
  machine.console.output.length

def withRoom (room : Option Nat) (machine : Machine) : Machine :=
  { machine with console := { machine.console with room } }

/-- The machine with a console that takes `total` bytes together with those it has taken. -/
def limit (total : Nat) (machine : Machine) : Machine :=
  machine.withRoom (some (total - machine.printed))

def wrote (text : Bytes) (machine : Machine) : Machine :=
  { machine with console := machine.console.write text }

/-- A console without a limit goes on having none, and what the console has taken stays. -/
structure Precedes (machine later : Machine) : Prop where
  room : machine.console.room = none → later.console.room = none
  taken : machine.console.taken <:+ later.console.taken

theorem Precedes.refl (machine : Machine) : machine.Precedes machine :=
  ⟨id, List.suffix_rfl⟩

theorem Precedes.trans (first second third : Machine) (h : first.Precedes second)
    (hthird : second.Precedes third) : first.Precedes third :=
  ⟨hthird.room ∘ h.room, h.taken.trans hthird.taken⟩

theorem precedes_of_console_eq {machine later : Machine} (h : later.console = machine.console) :
    machine.Precedes later where
  room hroom := h ▸ hroom
  taken := h ▸ List.suffix_rfl

theorem precedes_wrote (machine : Machine) (text : Bytes) :
    machine.Precedes (machine.wrote text) where
  room hroom := by rw [wrote, Console.write, hroom]; rfl
  taken := List.suffix_cons _ _

/-- Only a write touches the console. -/
theorem precedes_stable : Stable Precedes where
  refl := Precedes.refl
  trans := Precedes.trans
  stack _ _ := precedes_of_console_eq rfl
  console machine text := machine.precedes_wrote text
  field _ _ _ _ := precedes_of_console_eq rfl
  load name machine := by
    rw [Run.run_link]
    split <;> exact precedes_of_console_eq rfl
  init depth name machine := by
    rw [Run.run_link]
    split <;> exact precedes_of_console_eq rfl
  create name := by
    refine Within.bind Precedes.trans (fun machine => ?_) fun file machine => ?_
    · rw [Run.run_link]
      split <;> exact precedes_of_console_eq rfl
    · simp only [Run.create, Run.structural]
      cases file.name with
      | error e => exact Precedes.refl machine
      | ok className =>
        cases file.newInstance with
        | error e => exact Precedes.refl machine
        | ok fields => exact precedes_of_console_eq rfl

/-- What becomes of a run and of its dispatches if the console takes `total` bytes: nothing changes if
these are enough, and else the run stops with the first text that does not fit. -/
inductive Cut (total : Nat) (machine : Machine) {α : Type} :
    EStateM.Result Stop Machine α → List Machine → EStateM.Result Stop Machine α → List Machine →
      Prop
  | same {result met} : (final result).printed ≤ total → (∀ m ∈ met, m.Precedes (final result)) →
      Cut total machine result met (onState (limit total) result) (met.map (limit total))
  | short {result ran rest last text} : machine.Precedes last → last.printed ≤ total →
      total < (last.wrote text).printed → (last.wrote text).Precedes (final result) →
      (∀ m ∈ ran, m.Precedes last) → (∀ m ∈ rest, (last.wrote text).Precedes m) →
      Cut total machine result (ran ++ rest)
        (.error (.fault (.io .consoleFull)) ((last.limit total).wrote text)) (ran.map (limit total))

/-- Work with the machines at its dispatches, which a limited console only cuts short. -/
structure Cuts (total : Nat) {α : Type} (work : Run α) (dispatches : Machine → List Machine) :
    Prop where
  within : Within Precedes work
  later : ∀ machine, ∀ met ∈ dispatches machine, machine.Precedes met
  cut : ∀ machine, machine.console.room = none → machine.printed ≤ total →
    Cut total machine (work.run machine) (dispatches machine) (work.run (machine.limit total))
      (dispatches (machine.limit total))

/-- The machines at the dispatches of work, and of what follows it if it succeeds. -/
def following {α : Type} (dispatches : Machine → List Machine) (work : Run α)
    (next : α → Machine → List Machine) (machine : Machine) : List Machine :=
  dispatches machine ++
    match work.run machine with
    | .ok a later => next a later
    | .error _ _ => []

section cuts

variable {total : Nat} {α β : Type} {machine later : Machine}

/-- What comes before a run goes before it with a limit as well. -/
theorem Cut.prepend {result limited : EStateM.Result Stop Machine α}
    {front met found : List Machine} (h : Cut total later result met limited found)
    (hlater : machine.Precedes later) (hresult : later.Precedes (final result))
    (hfront : ∀ m ∈ front, m.Precedes later) :
    Cut total machine result (front ++ met) limited (front.map (limit total) ++ found) := by
  cases h with
  | same hfinal hmet =>
    rw [← List.map_append]
    refine .same hfinal (List.forall_mem_append.2 ⟨fun m hm => ?_, hmet⟩)
    exact (hfront m hm).trans _ _ _ hresult
  | short hlast hfits htoo hrest hran hmore =>
    rw [← List.append_assoc, ← List.map_append]
    refine .short (hlater.trans _ _ _ hlast) hfits htoo hrest
      (List.forall_mem_append.2 ⟨fun m hm => ?_, hran⟩) hmore
    exact (hfront m hm).trans _ _ _ hlast

theorem Cuts.bind {work : Run α} {next : α → Run β} {dispatches : Machine → List Machine}
    {after : α → Machine → List Machine} (h : Cuts total work dispatches)
    (hnext : ∀ a, Cuts total (next a) (after a)) :
    Cuts total (work >>= next) (following dispatches work after) where
  within := h.within.bind Precedes.trans fun a => (hnext a).within
  later machine met hmem := by
    rcases List.mem_append.1 hmem with hmem | hmem
    · exact h.later machine met hmem
    · cases hrun : work.run machine with
      | error stop later => simp [hrun] at hmem
      | ok a later =>
        rw [hrun] at hmem
        exact (h.within.ok hrun).trans _ _ _ ((hnext a).later later met hmem)
  cut machine hroom hprinted := by
    have hcut := h.cut machine hroom hprinted
    simp only [following, EStateM.run_bind]
    generalize work.run (machine.limit total) = limited at hcut ⊢
    generalize dispatches (machine.limit total) = found at hcut ⊢
    generalize dispatches machine = met at hcut ⊢
    cases hrun : work.run machine with
    | error stop later =>
      rw [hrun] at hcut
      cases hcut with
      | same hfinal hmet =>
        simp only [onState, List.append_nil]
        exact .same hfinal hmet
      | short hlast hfits htoo hrest hran hmore =>
        simp only [List.append_nil]
        exact .short hlast hfits htoo hrest hran hmore
    | ok a later =>
      have hlater := h.within.ok hrun
      rw [hrun] at hcut
      cases hcut with
      | same hfinal hmet =>
        have hafter := (hnext a).cut later (hlater.room hroom) hfinal
        exact hafter.prepend hlater ((hnext a).within later) hmet
      | short hlast hfits htoo hrest hran hmore =>
        -- What follows in the run without a limit comes after the text.
        simp only [List.append_nil, List.append_assoc]
        refine .short hlast hfits htoo (hrest.trans _ _ _ ((hnext a).within later)) hran ?_
        refine List.forall_mem_append.2 ⟨hmore, fun m hm => ?_⟩
        exact hrest.trans _ _ _ ((hnext a).later later m hm)

theorem Cuts.congr {work : Run α} {dispatches found : Machine → List Machine}
    (h : Cuts total work dispatches) (hsame : ∀ machine, found machine = dispatches machine) :
    Cuts total work found :=
  funext hsame ▸ h

theorem Cuts.thenQuiet {work : Run α} {next : α → Run β} (h : Cuts total work fun _ => [])
    (hnext : ∀ a, Cuts total (next a) fun _ => []) : Cuts total (work >>= next) fun _ => [] := by
  refine (h.bind hnext).congr fun machine => ?_
  rw [following]
  split <;> rfl

theorem Cuts.view {γ : Type} (view : Machine → γ) {next : γ → Run α}
    {dispatches : Machine → List Machine}
    (hview : ∀ machine, view (machine.limit total) = view machine)
    (h : ∀ c, Cuts total (next c) dispatches) :
    Cuts total (do next (view (← get))) dispatches where
  within machine := (h (view machine)).within machine
  later := fun machine => (h (view machine)).later machine
  cut machine hroom hprinted := by
    have hcut := (h (view machine)).cut machine hroom hprinted
    show Cut total machine ((next (view machine)).run machine) (dispatches machine)
      ((next (view (machine.limit total))).run (machine.limit total)) (dispatches _)
    rw [hview]
    exact hcut

/-- Work that does not look at the console and leaves it as it is. -/
theorem cuts_of_blind {work : Run α} (hwithin : Within Precedes work)
    (hlimit : ∀ machine, work.run (machine.limit total) = onState (limit total) (work.run machine))
    (hconsole : ∀ machine, (final (work.run machine)).console = machine.console) :
    Cuts total work fun _ => [] where
  within := hwithin
  later := fun _ _ hmem => nomatch hmem
  cut machine _ hprinted := by
    rw [hlimit]
    refine .same ?_ fun _ hmem => nomatch hmem
    rw [printed, hconsole]
    exact hprinted

theorem cuts_pure (a : α) : Cuts total (pure a) fun _ => [] :=
  cuts_of_blind (within_pure Precedes.refl a) (fun _ => rfl) fun _ => rfl

theorem cuts_throw (stop : Stop) : Cuts total (throw stop : Run α) fun _ => [] :=
  cuts_of_blind (within_throw Precedes.refl stop) (fun _ => rfl) fun _ => rfl

theorem cuts_push (value : Slot) : Cuts total (Run.push value) fun _ => [] :=
  cuts_of_blind (precedes_stable.plain (.push value)) (fun _ => rfl) fun _ => rfl

theorem cuts_pop : Cuts total Run.pop fun _ => [] := by
  refine cuts_of_blind (precedes_stable.plain .pop) (fun machine => ?_) fun machine => ?_
  · simp only [Run.pop, EStateM.run_bind, EStateM.run_get]
    have hstack : (machine.limit total).stack = machine.stack := rfl
    rw [hstack]
    cases machine.stack.pop? <;> rfl
  · simp only [Run.pop, EStateM.run_bind, EStateM.run_get]
    cases machine.stack.pop? <;> rfl

theorem cuts_setField (id : ObjectId) (name : Bytes) (value : Slot) :
    Cuts total (modify fun machine => { machine with heap := machine.heap.setField id name value })
      fun _ => [] :=
  cuts_of_blind (precedes_stable.plain (.setField id name value rfl)) (fun _ => rfl) fun _ => rfl

theorem run_print (text : String) (machine : Machine) :
    (Run.print text).run machine =
      if machine.console.fits (Utf8.encode text) then .ok () (machine.wrote (Utf8.encode text))
      else .error (.fault (.io .consoleFull)) (machine.wrote (Utf8.encode text)) := by
  simp only [Run.print, EStateM.run_bind, EStateM.run_get, EStateM.run_modify]
  split <;> rfl

theorem printed_wrote (hroom : machine.console.room = none) (text : Bytes) :
    (machine.wrote text).printed = machine.printed + text.length := by
  rw [printed, wrote, Console.output_write, Console.cut, hroom, List.length_append, printed]

theorem limit_wrote (hroom : machine.console.room = none) {text : Bytes}
    (hfits : text.length ≤ total - machine.printed) :
    (machine.limit total).wrote text = (machine.wrote text).limit total := by
  have hcut : (machine.limit total).console.cut text = machine.console.cut text := by
    rw [Console.cut, Console.cut, hroom]
    exact List.take_of_length_le hfits
  have hleft : total - (machine.wrote text).printed = total - machine.printed - text.length := by
    rw [printed_wrote hroom]
    omega
  calc
    (machine.limit total).wrote text =
        { machine with console := ⟨some (total - machine.printed - text.length),
          (machine.limit total).console.cut text :: machine.console.taken⟩ } := rfl
    _ = { machine with console := ⟨some (total - (machine.wrote text).printed),
          machine.console.cut text :: machine.console.taken⟩ } := by rw [hcut, hleft]
    _ = (machine.wrote text).limit total := rfl

theorem cuts_print (text : String) : Cuts total (Run.print text) fun _ => [] where
  within := precedes_stable.plain (.print text rfl)
  later := fun _ _ hmem => nomatch hmem
  cut machine hroom hprinted := by
    have hfree : machine.console.fits (Utf8.encode text) = true := by rw [Console.fits, hroom]
    have hlimited : (machine.limit total).console.fits (Utf8.encode text) =
        decide ((Utf8.encode text).length ≤ total - machine.printed) := rfl
    rw [run_print, run_print, hfree, hlimited, if_pos rfl]
    by_cases hfits : (Utf8.encode text).length ≤ total - machine.printed
    · rw [if_pos (decide_eq_true hfits), limit_wrote hroom hfits]
      refine .same ?_ fun _ hmem => nomatch hmem
      rw [final, printed_wrote hroom]
      omega
    · rw [if_neg fun h => hfits (of_decide_eq_true h)]
      show Cut total machine _ ([] ++ []) _ (([] : List Machine).map (limit total))
      refine .short (Precedes.refl machine) hprinted ?_ (Precedes.refl _)
        (fun _ hmem => nomatch hmem) fun _ hmem => nomatch hmem
      rw [printed_wrote hroom]
      omega

theorem cuts_plain {work : Run α} (h : Run.Plain true work) : Cuts total work fun _ => [] := by
  induction h with
  | pure a => exact cuts_pure a
  | fail fault => exact cuts_throw _
  | bind _ _ ih ihnext => exact ih.thenQuiet ihnext
  | push value => exact cuts_push value
  | pop => exact cuts_pop
  | heap _ ih => exact Cuts.view Machine.heap (fun _ => rfl) ih
  | setField id name value => exact cuts_setField id name value
  | print text => exact cuts_print text

theorem cuts_link (work : Linking α) : Cuts total (Run.link work) fun _ => [] := by
  refine cuts_of_blind (fun machine => ?_) (fun machine => ?_) fun machine => ?_
  · rw [Run.run_link]
    split <;> exact precedes_of_console_eq rfl
  · have htable : (machine.limit total).table = machine.table := rfl
    rw [Run.run_link, Run.run_link, htable]
    split <;> rfl
  · rw [Run.run_link]
    split <;> rfl

theorem cuts_create (file : ClassFile) : Cuts total (Run.create file) fun _ => [] := by
  apply (cuts_plain (.still (.structural _))).thenQuiet
  intro className
  apply (cuts_plain (.still (.structural _))).thenQuiet
  intro fields
  exact cuts_of_blind (fun _ => precedes_of_console_eq rfl) (fun _ => rfl) fun _ => rfl

theorem cuts_calling (pool : ConstantPool) (operand : Nat) (frame : Frame) :
    Cuts total (Instruction.calling pool operand frame) fun _ => [] := by
  apply (cuts_plain (.still (.memberRef pool operand))).thenQuiet
  intro member
  apply (cuts_link _).thenQuiet
  intro target
  exact (cuts_plain (.popMany _ frame [])).thenQuiet fun _ => cuts_pure _

theorem cuts_staticField (depth : Nat) (member : MemberRef) :
    Cuts total (Instruction.staticField depth member) fun _ => [] :=
  cuts_link _

theorem cuts_newObject (pool : ConstantPool) (operand : Nat) :
    Cuts total (Instruction.newObject pool operand) fun _ => [] := by
  apply (cuts_plain (.still (.position operand))).thenQuiet
  intro place
  apply (cuts_plain (.still (.structural _))).thenQuiet
  intro name
  exact (cuts_link _).thenQuiet cuts_create

section calls

variable {call : ResolvedMethod → List Slot → Run Unit}
  {callDispatches : ResolvedMethod → List Slot → Machine → List Machine}

/-- The dispatches of a call are those of the method that is called. -/
theorem cuts_complete {target : ResolvedMethod} {args : List Slot}
    (hcall : Cuts total (call target args) (callDispatches target args)) (frame : Frame) :
    Cuts total (Instruction.complete call target args frame) (callDispatches target args) := by
  have hreturn (before after : Nat) : Cuts total (do
      if after < before then Run.execution .stackUnderflow
      return { frame with owned := frame.owned + (after - before) }) fun _ => [] := by
    split
    · exact (cuts_throw _).thenQuiet fun _ => cuts_pure _
    · exact cuts_pure _
  have hrest (before : Nat) : Cuts total (do
      call target args
      let after := (← get).stack.size
      if after < before then Run.execution .stackUnderflow
      return { frame with owned := frame.owned + (after - before) })
      (callDispatches target args) := by
    refine (hcall.bind fun _ => Cuts.view (·.stack.size) (fun _ => rfl) (hreturn before)).congr
      fun machine => ?_
    rw [following]
    split <;> exact (List.append_nil _).symm
  exact Cuts.view (·.stack.size) (fun _ => rfl) hrest

theorem cuts_invoke (hcall : ∀ target args, Cuts total (call target args) (callDispatches target args))
    (pool : ConstantPool) (operand : Nat) (frame : Frame) :
    Cuts total (Instruction.invoke call pool operand frame)
      (Instruction.dispatches callDispatches pool .invokevirtual operand frame) := by
  rw [Instruction.invoke_eq]
  refine ((cuts_calling pool operand frame).bind fun answer =>
    cuts_complete (hcall answer.1 answer.2.1) answer.2.2).congr fun machine => ?_
  simp only [Instruction.dispatches, following, List.nil_append]
  cases (Instruction.calling pool operand frame).run machine <;> rfl

theorem cuts_run (hcall : ∀ target args, Cuts total (call target args) (callDispatches target args))
    (depth : Nat) (pool : ConstantPool) (pc : Nat) (opcode : Opcode) (operand : Nat) (frame : Frame) :
    Cuts total (Instruction.run call depth pool pc opcode operand frame)
      (Instruction.dispatches callDispatches pool opcode operand frame) := by
  have hpush (value : Slot) : Cuts total (do return some (← frame.push value)) fun _ => [] :=
    cuts_plain (.bind (.framePush frame value) fun _ => .pure _)
  have hinvoke : Cuts total (do return some (← Instruction.invoke call pool operand frame))
      (Instruction.dispatches callDispatches pool .invokevirtual operand frame) := by
    refine ((cuts_invoke hcall pool operand frame).bind fun _ => cuts_pure _).congr fun machine => ?_
    rw [following]
    split <;> exact (List.append_nil _).symm
  cases opcode with
  | getstatic =>
    apply (cuts_plain (.still (.memberRef pool operand))).thenQuiet
    intro member
    exact (cuts_staticField depth member).thenQuiet hpush
  | new => exact (cuts_newObject pool operand).thenQuiet hpush
  | invokevirtual => exact hinvoke
  | invokespecial => exact hinvoke
  | _ => exact cuts_plain (Run.Plain.run call depth pool pc operand frame rfl).outwards

/-- The machine at the dispatch of an instruction comes before all that the instruction comes to. -/
theorem Cuts.dispatch {work : Run α} {dispatches : Machine → List Machine}
    (h : Cuts total work dispatches) : Cuts total work fun machine => machine :: dispatches machine where
  within := h.within
  later machine := List.forall_mem_cons.2 ⟨Precedes.refl machine, h.later machine⟩
  cut machine hroom hprinted := by
    have hfront : ∀ m ∈ [machine], m.Precedes machine :=
      fun m hm => List.mem_singleton.1 hm ▸ Precedes.refl machine
    exact (h.cut machine hroom hprinted).prepend (Precedes.refl machine) (h.within machine) hfront

theorem cuts_goingOn {work : Frame → Run Unit} {dispatches : Frame → Machine → List Machine}
    (h : ∀ frame, Cuts total (work frame) (dispatches frame)) (goesOn : Option Frame) :
    Cuts total
      (match goesOn with
        | some frame => work frame
        | none => return)
      (match goesOn with
        | some frame => dispatches frame
        | none => fun _ => []) := by
  cases goesOn with
  | some frame => exact h frame
  | none => exact cuts_pure ()

theorem cuts_execute (hcall : ∀ target args, Cuts total (call target args) (callDispatches target args))
    (depth : Nat) (pool : ConstantPool) (listing : Listing) (frame : Frame) :
    Cuts total (execute call depth pool listing frame)
      (executeDispatches call callDispatches depth pool listing frame) := by
  induction listing generalizing frame with
  | exhausted => exact cuts_throw _
  | truncated pc opcode => exact cuts_throw _
  | instruction pc opcode operand next ih =>
    refine ((cuts_run hcall depth pool pc opcode operand frame).dispatch.bind
      (cuts_goingOn ih)).congr fun machine => ?_
    simp only [executeDispatches, following]
    cases (Instruction.run call depth pool pc opcode operand frame).run machine with
    | error stop later => rfl
    | ok goesOn later => cases goesOn <;> rfl

end calls

theorem cuts_runMethod (depth : Nat) (target : ResolvedMethod) (args : List Slot) :
    Cuts total (runMethod depth target args) (methodDispatches depth target args) := by
  induction depth generalizing target args with
  | zero => exact cuts_throw _
  | succ depth ih =>
    unfold runMethod
    cases hbody : target.method.body with
    | native actions =>
      refine (cuts_plain (.performAll args actions)).congr fun machine => ?_
      simp only [methodDispatches, hbody]
    | bytecode =>
      cases hcode : target.method.code? with
      | none =>
        refine (cuts_throw _).congr fun machine => ?_
        simp only [methodDispatches, hbody, hcode]
      | some code =>
        refine (cuts_execute ih depth _ _ _).congr fun machine => ?_
        simp only [methodDispatches, hbody, hcode]

/-- An invocation dispatches nothing before it has found its method. -/
theorem cuts_invocation (depth : Nat) (className name descriptor : Bytes) (args : List Slot) :
    Cuts total (Machine.invoke depth className name descriptor args)
      (following (fun _ => []) (finding depth className name descriptor) fun target =>
        methodDispatches depth target args) :=
  (cuts_link _).bind fun target => cuts_runMethod depth target args

end cuts

end Machine

end ClassMachine
