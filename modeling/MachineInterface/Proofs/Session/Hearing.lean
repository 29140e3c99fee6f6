import MachineInterface.Proofs.Record.Replies
import MachineInterface.Rehearsal.Stage

/-!
# What a debugger hears

A command is written as one line, and a debugger that reads the line finds the number and the command
in it.

* `hears_commands`: each command is heard as it was asked, under its number.
-/

namespace MachineInterface

open Text

/-- A command in one line, of which no carriage return is lost. -/
def IsPlainCommand (command : String) : Prop := '\n' ∉ command.toList ∧ '\r' ∉ command.toList

namespace ScriptedDebugger

/-- What a debugger hears of what was written, line by line. -/
def hears (written : List Outgoing) : List Heard :=
  (written.flatMap Outgoing.lines).map fun line =>
    Heard.ofLine (String.ofList (readLine .obedient line))

/-- The line of a command. -/
def commandLine (token : UInt64) (command : String) : List Char :=
  printToken (some token) ++ '-' :: command.toList

theorem lines_command {token : UInt64} {command : String} (h : '\n' ∉ command.toList) :
    (Outgoing.command token command).lines = [commandLine token command] := by
  have hwire : (Outgoing.command token command).wire.toList = commandLine token command ++ ['\n'] := by
    simp [Outgoing.wire, Exchange.wire, commandLine, printToken]
  have hline : ∀ c ∈ commandLine token command, (c == '\n') = false := by
    intro c hc
    rcases List.mem_append.mp hc with hc | hc
    · have hdigit := digits_printToken (some token) c hc
      simp only [beq_eq_false_iff_ne]
      rintro rfl
      exact absurd hdigit (by decide)
    · rcases List.mem_cons.mp hc with rfl | hc
      · decide
      · simpa using ne_of_mem_of_not_mem hc h
  rw [Outgoing.lines, hwire, List.splitOn,
    List.splitOnP_append_cons_of_forall_mem hline '\n' (by decide)]
  rfl

theorem readLine_command {token : UInt64} {command : String} (h : '\r' ∉ command.toList) :
    readLine .obedient (commandLine token command) = commandLine token command := by
  refine Record.dropReturns_eq_self fun hlast => ?_
  rw [commandLine, List.getLast?_append, List.getLast?_cons, Option.some_or] at hlast
  cases hc : command.toList.getLast? with
  | none => simp [hc] at hlast
  | some c =>
    have hreturn : c = '\r' := by simpa [hc] using hlast
    exact h (hreturn ▸ List.mem_of_getLast? hc)

/-- A debugger hears the number and the command. -/
theorem ofLine_command (token : UInt64) (command : String) :
    (Heard.ofLine (String.ofList (commandLine token command))).token = some token ∧
      (Heard.ofLine (String.ofList (commandLine token command))).command = command := by
  have hdigits := digits_printToken (some token)
  have hall : ∀ c ∈ printToken (some token), Numeral.isDigit c = true := fun c hc =>
    Record.isDigit_iff.mpr (hdigits c hc)
  have htake : (commandLine token command).takeWhile Numeral.isDigit = printToken (some token) := by
    rw [commandLine, List.takeWhile_append_of_pos hall, List.takeWhile_cons_of_neg (by decide),
      List.append_nil]
  have hdrop : (commandLine token command).dropWhile Numeral.isDigit = '-' :: command.toList := by
    rw [commandLine, List.dropWhile_append_of_pos hall, List.dropWhile_cons_of_neg (by decide)]
  simp only [Heard.ofLine, String.toList_ofList, htake, hdrop, Record.readUInt64?_digits hdigits,
    token?_printToken, String.ofList_toList, and_self]

theorem hears_eq_map {asked : List (UInt64 × String)} (h : ∀ q ∈ asked, IsPlainCommand q.2) :
    hears (asked.map fun q => .command q.1 q.2) =
      asked.map fun q => Heard.ofLine (String.ofList (commandLine q.1 q.2)) := by
  induction asked with
  | nil => rfl
  | cons q asked ih =>
    obtain ⟨hnewline, hreturn⟩ := h q List.mem_cons_self
    have hothers := ih fun r hr => h r (List.mem_cons_of_mem _ hr)
    rw [List.map_cons, hears, List.flatMap_cons, lines_command hnewline, List.singleton_append,
      List.map_cons, readLine_command hreturn]
    exact congrArg _ hothers

/-- Each command is heard as it was asked, under its number. -/
theorem hears_commands {asked : List (UInt64 × String)} (h : ∀ q ∈ asked, IsPlainCommand q.2)
    {i : Nat} {token : UInt64} {command : String} (hi : asked[i]? = some (token, command)) :
    ∃ heard, (hears (asked.map fun q => .command q.1 q.2))[i]? = some heard ∧
      heard.token = some token ∧ heard.command = command := by
  refine ⟨_, ?_, ofLine_command token command⟩
  rw [hears_eq_map h, List.getElem?_map, hi, Option.map_some]

end ScriptedDebugger

end MachineInterface
