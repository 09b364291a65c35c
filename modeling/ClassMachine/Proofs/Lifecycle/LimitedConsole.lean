import ClassMachine.Proofs.Lifecycle.Registry
import ClassMachine.Proofs.Machine.Shortening

/-!
# Running with a limited console

What is printed is the beginning of what would be printed without a limit. If the console takes all
of it, the limit makes no other difference. If not, the run fails while it prints the line for which
there is no room any more, and after that no instruction is dispatched in any activation.
-/

namespace ClassMachine

open Work

namespace Console

/-- Takes pieces of a text one after another, up to the first that does not fit, and tells whether
all of them have. -/
def pour (console : Console) : List Bytes → Console × Bool
  | [] => (console, true)
  | piece :: pieces =>
    if console.fits piece then (console.write piece).pour pieces else (console.write piece, false)

/-- The text that does not fit is cut where it is cut together with what follows it. -/
theorem write_append_of_not_fits {console : Console} {text : Bytes} (h : console.fits text = false)
    (more : Bytes) :
    (console.write (text ++ more)).output = (console.write text).output ∧
      (console.write (text ++ more)).room = (console.write text).room ∧
      console.fits (text ++ more) = false := by
  unfold fits at h
  cases hroom : console.room with
  | none => simp [hroom] at h
  | some room =>
    simp only [hroom, decide_eq_false_iff_not, Nat.not_le] at h
    refine ⟨?_, ?_, ?_⟩
    · simp only [output_write, cut, hroom, List.take_append_of_le_length (Nat.le_of_lt h)]
    · simp only [write, hroom, Option.map_some, Option.some.injEq, List.length_append]
      omega
    · simp only [fits, hroom, decide_eq_false_iff_not, List.length_append]
      omega

theorem write_append_of_fits {console : Console} {text : Bytes} (h : console.fits text = true)
    (more : Bytes) :
    (console.write (text ++ more)).output = ((console.write text).write more).output ∧
      (console.write (text ++ more)).room = ((console.write text).write more).room ∧
      console.fits (text ++ more) = (console.write text).fits more := by
  unfold fits at h
  cases hroom : console.room with
  | none => simp [cut, write, fits, hroom, output]
  | some room =>
    simp only [hroom, decide_eq_true_eq] at h
    refine ⟨?_, ?_, ?_⟩
    · simp only [output_write, List.append_assoc]
      simp only [cut, write, hroom, Option.map_some, List.take_append]
    · simp only [write, hroom, Option.map_some, Option.some.injEq, List.length_append]
      omega
    · simp only [fits, write, hroom, Option.map_some, List.length_append, decide_eq_decide]
      omega

/-- A text that is written in pieces is taken like one that is written at once. -/
theorem pour_eq_write (console : Console) (pieces : List Bytes) :
    (console.pour pieces).1.output = (console.write pieces.flatten).output ∧
      (console.pour pieces).1.room = (console.write pieces.flatten).room ∧
      (console.pour pieces).2 = console.fits pieces.flatten := by
  induction pieces generalizing console with
  | nil => cases hroom : console.room <;> simp [pour, write, cut, fits, output, hroom]
  | cons piece pieces ih =>
    rw [List.flatten_cons, pour]
    cases hfits : console.fits piece with
    | true =>
      obtain ⟨houtput, hroom, hall⟩ := write_append_of_fits hfits pieces.flatten
      rw [if_pos rfl, houtput, hroom, hall]
      exact ih (console.write piece)
    | false =>
      obtain ⟨houtput, hroom, hall⟩ := write_append_of_not_fits hfits pieces.flatten
      rw [if_neg Bool.false_ne_true, houtput, hroom, hall]
      exact ⟨rfl, rfl, rfl⟩

end Console

namespace Machine

theorem Precedes.exists_texts {machine later : Machine} (h : machine.Precedes later) :
    ∃ texts : List Bytes, later.console.taken = texts.reverse ++ machine.console.taken := by
  obtain ⟨taken, htaken⟩ := h.taken
  exact ⟨taken.reverse, by rw [List.reverse_reverse, htaken]⟩

theorem output_of_taken {machine later : Machine} {texts : List Bytes}
    (h : later.console.taken = texts.reverse ++ machine.console.taken) :
    later.console.output = machine.console.output ++ texts.flatten := by
  rw [Console.output, h, List.reverse_append, List.reverse_reverse, List.flatten_append]
  rfl

theorem take_flatten {before after : List Bytes} {line : Bytes} {room : Nat}
    (hbefore : before.flatten.length ≤ room) (hline : room ≤ before.flatten.length + line.length) :
    (before ++ line :: after).flatten.take room =
      (before ++ [line.take (room - before.flatten.length)]).flatten := by
  have hshort : room - before.flatten.length ≤ line.length := by omega
  rw [List.flatten_append, List.flatten_append, List.flatten_cons, List.take_append,
    List.take_of_length_le hbefore, List.take_append_of_le_length hshort, List.flatten_singleton]

/-- What room for so many bytes on the console makes of a run that prints these texts without a limit,
and of the machines at its dispatches. -/
structure LimitedTo (machine : Machine) (room : Nat) (texts : List Bytes) {α : Type}
    (free limited : EStateM.Result Stop Machine α) (met found : List Machine) : Prop where
  /-- The first bytes of the texts are printed. -/
  output : (final limited).console.output = machine.console.output ++ texts.flatten.take room
  /-- If that is all of them, the runs come to the same, with as much less room. -/
  same : texts.flatten.length ≤ room →
    limited = onState (limit (machine.printed + room)) free ∧
      found = met.map (limit (machine.printed + room))
  /-- If not, the run fails with the line that goes beyond these bytes, and has only dispatched what
  comes before that line. -/
  fails : room < texts.flatten.length →
    ∃ before line after, texts = before ++ line :: after ∧
      before.flatten.length ≤ room ∧ room < before.flatten.length + line.length ∧
      (∃ stopped, limited = .error (.fault (.io .consoleFull)) stopped ∧
        stopped.console.taken = line.take (room - before.flatten.length) ::
          (before.reverse ++ machine.console.taken)) ∧
      ∃ ran rest, met = ran ++ rest ∧ found = ran.map (limit (machine.printed + room)) ∧
        (∀ m ∈ ran, m.console.taken <:+ before.reverse ++ machine.console.taken) ∧
        ∀ m ∈ rest, line :: (before.reverse ++ machine.console.taken) <:+ m.console.taken

/-- The text at which a run is cut short is the line that goes beyond the room. -/
theorem Cut.limitedTo {α : Type} {machine : Machine} {room : Nat}
    {result limited : EStateM.Result Stop Machine α} {met found : List Machine} {texts : List Bytes}
    (h : Cut (machine.printed + room) machine result met limited found)
    (hroom : machine.console.room = none)
    (htexts : (final result).console.taken = texts.reverse ++ machine.console.taken) :
    machine.LimitedTo room texts result limited met found := by
  have hfinal : (final result).printed = machine.printed + texts.flatten.length := by
    rw [printed, output_of_taken htexts, List.length_append, printed]
  cases h with
  | same hle _ =>
    have hlength : texts.flatten.length ≤ room := by omega
    refine ⟨?_, fun _ => ⟨rfl, rfl⟩, fun hmore => absurd hlength (Nat.not_le_of_lt hmore)⟩
    rw [final_onState, List.take_of_length_le hlength]
    exact output_of_taken htexts
  | @short ran rest last line hlast hfits htoo hrest hran hmore =>
    obtain ⟨before, hbefore⟩ := hlast.exists_texts
    obtain ⟨after, hafter⟩ := hrest.exists_texts
    have hfree := hlast.room hroom
    have hline : (last.wrote line).console.taken =
        line :: (before.reverse ++ machine.console.taken) := by
      rw [wrote, Console.write, Console.cut, hfree, hbefore]
    have hsplit : texts = before ++ line :: after := by
      rw [htexts, hline, ← List.cons_append, ← List.append_assoc] at hafter
      have hreverse := List.append_cancel_right hafter
      rw [← List.reverse_inj, hreverse]
      simp
    have hprinted : last.printed = machine.printed + before.flatten.length := by
      rw [printed, output_of_taken hbefore, List.length_append, printed]
    have hwrote := printed_wrote hfree line
    have hstopped : ((last.limit (machine.printed + room)).wrote line).console.taken =
        line.take (room - before.flatten.length) :: (before.reverse ++ machine.console.taken) := by
      have hleft : machine.printed + room - last.printed = room - before.flatten.length := by omega
      rw [← hleft, ← hbefore]
      rfl
    have hbeyond : room < texts.flatten.length := by
      rw [hsplit, List.flatten_append, List.flatten_cons, List.length_append, List.length_append]
      omega
    refine ⟨?_, fun hall => absurd hall (Nat.not_le_of_lt hbeyond), fun _ => ?_⟩
    · rw [hsplit, take_flatten (by omega) (by omega)]
      refine output_of_taken (hstopped.trans ?_)
      rw [List.reverse_append]
      rfl
    · refine ⟨before, line, after, hsplit, by omega, by omega, ⟨_, rfl, hstopped⟩, ran, rest, rfl,
        rfl, fun m hm => hbefore ▸ (hran m hm).taken, fun m hm => hline ▸ (hmore m hm).taken⟩

end Machine

namespace Lifecycle

open Machine

theorem Operation.cuts_invoke (total depth : Nat) (className name descriptor : Bytes)
    (args : List Slot) :
    let operation := invoke className name descriptor args
    Cuts total (operation.work depth) (operation.machines depth) := by
  refine (cuts_invocation depth className name descriptor args).dispatch.congr fun machine => ?_
  simp only [machines, following, List.nil_append]
  cases (finding depth className name descriptor).run machine <;> rfl

/-- An invocation with room for `k` bytes on the console prints the first `k` bytes of what it prints
without a limit. If that is all, it comes to the same. If not, it fails while it prints the line that
goes beyond these bytes, and no instruction is dispatched after that. It makes no difference for the
console in which pieces a line is written. -/
theorem limited_invocation :
    (∀ (console : Console) (pieces : List Bytes),
      (console.pour pieces).1.output = (console.write pieces.flatten).output ∧
      (console.pour pieces).1.room = (console.write pieces.flatten).room ∧
      (console.pour pieces).2 = console.fits pieces.flatten) ∧
    ∀ (depth : Nat) (className name descriptor : Bytes) (args : List Slot) (machine : Machine)
      (k : Nat),
      let operation := Operation.invoke className name descriptor args
      let free := machine.withRoom none
      let limited := machine.withRoom (some k)
      ∃ texts : List Bytes,
        (final ((operation.work depth).run free)).console.taken =
          texts.reverse ++ machine.console.taken ∧
        (final ((operation.work depth).run free)).console.output =
          machine.console.output ++ texts.flatten ∧
        free.LimitedTo k texts ((operation.work depth).run free)
          ((operation.work depth).run limited) (operation.machines depth free)
          (operation.machines depth limited) := by
  refine ⟨Console.pour_eq_write, ?_⟩
  intro depth className name descriptor args machine k operation free limited
  have hcuts := Operation.cuts_invoke (free.printed + k) depth className name descriptor args
  have hlimit : free.limit (free.printed + k) = limited := by
    have hleft : free.printed + k - free.printed = k := Nat.add_sub_cancel_left _ _
    rw [limit, hleft]
    rfl
  have hcut := hcuts.cut free rfl (Nat.le_add_right _ _)
  rw [hlimit] at hcut
  obtain ⟨texts, htexts⟩ := (hcuts.within free).exists_texts
  exact ⟨texts, htexts, output_of_taken htexts, hcut.limitedTo rfl htexts⟩

-- A number of two digits is printed with room for one byte.
example :
    let operation := Operation.invoke Bootstrap.printStreamName (Utf8.encode "println")
      (Utf8.encode "(I)V") [.null, .int 42]
    (final ((operation.work 1).run ((Bootstrap.machine .none {}).withRoom (some 1)))).console.output =
      Utf8.encode "4" := by
  decide +kernel

end Lifecycle

end ClassMachine
