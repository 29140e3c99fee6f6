import MachineInterface.Proofs.Line.Cuts
import MachineInterface.Proofs.Session.Hearing
import MachineInterface.Proofs.Session.Splicing
import MachineInterface.Proofs.Text.Encoded

/-!
# One command in one line

A debugger reads what was written line by line. It finds the commands that were issued, under their
numbers and in order, exactly if none of them holds a newline or ends in a carriage return. No
quoting takes such a character away, so it comes down to the texts of which the commands are made.

* `heard_eq_issued_iff`: when all that was written is heard as it was issued.
* `commands_in_lines`: every run.
-/

namespace MachineInterface

open Text LineBuffer

/-! ## What is written and heard -/

/-- The bytes of all that was written. -/
def Outgoing.bytes (written : List Outgoing) : List UInt8 :=
  written.flatMap fun o => Utf8.encode o.wire

/-- The characters of something written, without the newline that ends it. -/
def Outgoing.line : Outgoing → List Char
  | command token text => ScriptedDebugger.commandLine token text
  | raw line => line.toList

/-- The number and the command that a line gives to a debugger. -/
def Heard.pair (h : Heard) : Option UInt64 × String := (h.token, h.command)

/-- The number and the command that are to be heard. A line written as it is may have none. -/
def Outgoing.issued : Outgoing → Option UInt64 × String
  | command token text => (some token, text)
  | raw line => (Heard.ofLine line).pair

/-- What a debugger reads in bytes, line by line. -/
def Heard.ofBytes (bytes : List UInt8) : List Heard :=
  (push {} bytes).1.map fun line =>
    Heard.ofLine (String.ofList (ScriptedDebugger.readLine .obedient line.toList))

/-- Something written is one line, all of which is read. -/
def Outgoing.IsOneLine (o : Outgoing) : Prop :=
  '\n' ∉ o.text.toList ∧ o.text.toList.getLast? ≠ some '\r'

/-! ## Lines -/

namespace LineBuffer

/-- A reader that drops carriage returns reads the same whether one was dropped before or not. -/
theorem dropReturns_decode_dropReturn (bytes : List UInt8) :
    Record.dropReturns (Utf8.decode (dropReturn bytes)).toList =
      Record.dropReturns (Utf8.decode bytes).toList := by
  unfold dropReturn
  split_ifs with h
  · obtain ⟨start, rfl⟩ := List.getLast?_eq_some_iff.mp h
    rw [List.dropLast_concat, decode_concat_return]
    simp [Record.dropReturns]
  · rfl

end LineBuffer

namespace Text.Utf8

theorem newline_mem_encodeChars {cs : List Char} :
    LineBuffer.newline ∈ encodeChars cs ↔ '\n' ∈ cs := by
  constructor
  · intro h
    obtain ⟨c, hc, hmem⟩ := List.mem_flatMap.mp h
    have hcode := mem_encodeChar_of_lt (by decide) hmem
    obtain rfl : '\n' = c := Char.toNat_inj.mp hcode
    exact hc
  · intro h
    refine List.mem_flatMap.mpr ⟨'\n', h, ?_⟩
    decide

theorem encodeChars_append (xs ys : List Char) :
    encodeChars (xs ++ ys) = encodeChars xs ++ encodeChars ys := List.flatMap_append

end Text.Utf8

/-! ## What a debugger makes of a line -/

namespace Heard

theorem getLast?_cons_eq {c d : Char} (h : c ≠ d) (cs : List Char) :
    (c :: cs).getLast? = some d ↔ cs.getLast? = some d := by
  rw [List.getLast?_cons]
  cases cs.getLast? with
  | none => simpa using h
  | some e => simp

/-- A carriage return at the end of a line is part of the command. -/
theorem getLast?_command (cs : List Char) :
    (Heard.ofLine (String.ofList cs)).command.toList.getLast? = some '\r' ↔
      cs.getLast? = some '\r' := by
  have hrest : (cs.dropWhile Numeral.isDigit).getLast? = some '\r' ↔ cs.getLast? = some '\r' := by
    rcases List.eq_nil_or_concat' cs with rfl | ⟨start, last, rfl⟩
    · rfl
    · rw [List.dropWhile_append, List.getLast?_concat]
      split
      · by_cases hlast : Numeral.isDigit last = true
        · have hne : last ≠ '\r' := by
            rintro rfl
            cases hlast
          simp [hlast, hne]
        · simp [hlast]
      · rw [List.getLast?_concat]
  simp only [ofLine, String.toList_ofList]
  rw [← hrest]
  split
  · rename_i rest heq
    rw [heq]
    exact (getLast?_cons_eq (by decide) rest).symm
  · rfl

/-- A line is heard as it stands exactly if it does not end in a carriage return. -/
theorem pair_dropReturns_iff (cs : List Char) :
    (Heard.ofLine (String.ofList (Record.dropReturns cs))).pair =
        (Heard.ofLine (String.ofList cs)).pair ↔ cs.getLast? ≠ some '\r' := by
  constructor
  · intro h hlast
    have hcommand : (Heard.ofLine (String.ofList (Record.dropReturns cs))).command =
        (Heard.ofLine (String.ofList cs)).command := congrArg Prod.snd h
    have hreturn := (getLast?_command cs).mpr hlast
    rw [← hcommand, getLast?_command] at hreturn
    exact (Record.dropReturns_spec cs).2 hreturn
  · intro h
    rw [Record.dropReturns_eq_self h]

end Heard

namespace Outgoing

variable {o : Outgoing} {written : List Outgoing}

theorem toList_wire (o : Outgoing) : o.wire.toList = o.line ++ ['\n'] := by
  cases o with
  | command token text =>
    simp [wire, line, Exchange.wire, ScriptedDebugger.commandLine, printToken]
  | raw line => simp [wire, Outgoing.line]

theorem bytes_cons (o : Outgoing) (written : List Outgoing) :
    bytes (o :: written) = Utf8.encodeChars o.line ++ newline :: bytes written := by
  have hnewline : Utf8.encodeChars ['\n'] = [newline] := by decide
  rw [bytes, List.flatMap_cons, Utf8.encode, toList_wire, Utf8.encodeChars_append, hnewline,
    List.append_assoc]
  rfl

theorem pair_line (o : Outgoing) : (Heard.ofLine (String.ofList o.line)).pair = o.issued := by
  cases o with
  | command token text =>
    obtain ⟨htoken, hcommand⟩ := ScriptedDebugger.ofLine_command token text
    rw [Outgoing.line, Heard.pair, htoken, hcommand, issued]
  | raw line => rw [Outgoing.line, String.ofList_toList, issued]

/-- Neither the number nor the hyphen in front of a command makes a difference. -/
theorem isOneLine_iff : o.IsOneLine ↔ '\n' ∉ o.line ∧ o.line.getLast? ≠ some '\r' := by
  cases o with
  | command token text =>
    have hnewline : '\n' ∉ printToken (some token) := fun h =>
      absurd (digits_printToken (some token) _ h) (by decide)
    have hlast : (line (command token text)).getLast? = some '\r' ↔
        text.toList.getLast? = some '\r' := by
      rw [line, ScriptedDebugger.commandLine,
        List.getLast?_append_of_ne_nil _ (List.cons_ne_nil _ _)]
      exact Heard.getLast?_cons_eq (by decide) _
    rw [Ne, hlast]
    simp [IsOneLine, Outgoing.text, line, ScriptedDebugger.commandLine, hnewline]
  | raw line => rfl

/-! ## All that was written -/

/-- There are as many lines as things written exactly if none of these holds a newline. -/
theorem count_bytes_iff : (bytes written).count newline = written.length ↔
    ∀ o ∈ written, '\n' ∉ o.line := by
  have hle : ∀ written : List Outgoing, written.length ≤ (bytes written).count newline := by
    intro written
    induction written with
    | nil => exact Nat.le_refl 0
    | cons o written ih =>
      rw [bytes_cons, List.count_append, List.count_cons_self, List.length_cons]
      omega
  induction written with
  | nil => simp [bytes]
  | cons o written ih =>
    have hrest := hle written
    have hnone : (Utf8.encodeChars o.line).count newline = 0 ↔ '\n' ∉ o.line := by
      rw [List.count_eq_zero, Utf8.newline_mem_encodeChars]
    rw [bytes_cons, List.count_append, List.count_cons_self, List.length_cons, List.forall_mem_cons]
    refine Iff.trans ?_ (and_congr hnone ih)
    omega

theorem ofBytes_of_forall (h : ∀ o ∈ written, '\n' ∉ o.line) : Heard.ofBytes (bytes written) =
    written.map fun o => Heard.ofLine (String.ofList (Record.dropReturns o.line)) := by
  induction written with
  | nil => rfl
  | cons o written ih =>
    obtain ⟨ho, hwritten⟩ := List.forall_mem_cons.mp h
    have hbytes : newline ∉ Utf8.encodeChars o.line := mt Utf8.newline_mem_encodeChars.mp ho
    have hread := dropReturns_decode_dropReturn (Utf8.encodeChars o.line)
    rw [Utf8.decode_encodeChars, String.toList_ofList] at hread
    rw [Heard.ofBytes, bytes_cons, push_line hbytes, List.map_cons, List.map_cons, ← ih hwritten]
    exact congrArg (fun cs => Heard.ofLine (String.ofList cs) :: _) hread

/-- All that was written is heard as it was issued exactly if each thing is one line. -/
theorem heard_eq_issued_iff :
    (Heard.ofBytes (bytes written)).map Heard.pair = written.map Outgoing.issued ↔
      ∀ o ∈ written, o.IsOneLine := by
  have hlines : (∀ o ∈ written, '\n' ∉ o.line) →
      ((Heard.ofBytes (bytes written)).map Heard.pair = written.map Outgoing.issued ↔
        ∀ o ∈ written, o.line.getLast? ≠ some '\r') := by
    intro h
    rw [ofBytes_of_forall h, List.map_map, List.map_inj_left]
    refine forall₂_congr fun o _ => ?_
    rw [Function.comp_apply, ← pair_line, Heard.pair_dropReturns_iff]
  simp only [isOneLine_iff, forall_and]
  constructor
  · intro h
    -- As many lines are heard as things were written, so none of these was cut.
    have hlength := congrArg List.length h
    rw [List.length_map, List.length_map, Heard.ofBytes, List.length_map, length_lines,
      count_bytes_iff] at hlength
    exact ⟨hlength, (hlines hlength).mp h⟩
  · rintro ⟨hnewlines, hreturns⟩
    exact (hlines hnewlines).mpr hreturns

end Outgoing

/-! ## Runs -/

namespace Session

/-- The commands and the other lines that were written, in order. -/
def issued (s : Session) : List (Option UInt64 × String) := s.outbox.map Outgoing.issued

/-- What a debugger hears that reads all that was written, line by line. -/
def heard (s : Session) : List (Option UInt64 × String) :=
  (Heard.ofBytes (Outgoing.bytes s.outbox)).map Heard.pair

end Session

namespace Ensemble

/--
In every run a debugger that reads line by line hears all that was written as it was issued, under
its number and in order, exactly if each command and each line that was written as it is holds no
newline and does not end in a carriage return. Where the settings, what was asked of the session and
the answers it received have no line breaks, that is the case.
-/
theorem commands_in_lines (config : Config) (turns : List Turn) :
    ((run config turns).session.heard = (run config turns).session.issued ↔
        ∀ o ∈ (run config turns).session.outbox, o.IsOneLine) ∧
      (config.debugger.Tidy → (∀ op, .call op ∈ turns → op.Tidy) →
        (∀ c ∈ (run config turns).session.exchange.completions, TidyReply c.reply) →
          (run config turns).session.heard = (run config turns).session.issued) := by
  have hiff : (run config turns).session.heard = (run config turns).session.issued ↔
      ∀ o ∈ (run config turns).session.outbox, o.IsOneLine := Outgoing.heard_eq_issued_iff
  refine ⟨hiff, fun hconfig hops hanswers => hiff.mpr fun o ho => ?_⟩
  obtain ⟨htidy, -⟩ := tidy_run hconfig hops hanswers
  obtain ⟨hnewline, hreturn⟩ := unbroken_iff.mp (htidy.outbox o ho)
  exact ⟨hnewline, fun hlast => hreturn (List.mem_of_getLast? hlast)⟩

/-- A line for the console with quotes and backslashes, and an expression with blanks. -/
theorem commands_in_lines_quoted :
    let l : Launch := { cwd := "/w", mode := .load "a.out" none none }
    let turns : List Turn := [.call (.bringUp l), .news (.hear (Utf8.encode "1^done\n2^error\n")),
      .call (.sendUserInput "print \"a\\b\"" 1 0), .call (.evaluate " x + 1" 0 0)]
    (run {} turns).session.heard = (run {} turns).session.issued ∧
      (run {} turns).session.issued.drop 5 =
        [(some 6, "interpreter-exec --thread 1 --frame 0 console \"print \\\"a\\\\b\\\"\""),
          (some 7, "data-evaluate-expression  x + 1")] := by
  intro l turns
  have hconfig : ({} : Config).debugger.Tidy := by
    constructor
    · rintro e ⟨⟩
    · rintro c ⟨⟩
  have hlaunch : l.Tidy := by
    refine ⟨by decide, ⟨by decide, ?_, ?_⟩, ?_⟩
    · rintro t ⟨⟩
    · rintro t ⟨⟩
    · rintro line ⟨⟩
  have htexts : Unbroken "print \"a\\b\"" ∧ Unbroken " x + 1" := by decide +kernel
  have hops : ∀ op, .call op ∈ turns → op.Tidy := by
    intro op hop
    simp only [turns, List.mem_cons, Turn.call.injEq, reduceCtorEq, List.not_mem_nil, or_false,
      false_or] at hop
    rcases hop with rfl | rfl | rfl
    · exact hlaunch
    · exact htexts.1
    · exact htexts.2
  have hanswers : ∀ c ∈ (run {} turns).session.exchange.completions, TidyReply c.reply := by
    decide +kernel
  exact ⟨(commands_in_lines {} turns).2 hconfig hops hanswers, by decide +kernel⟩

/--
An expression and a text to complete with a newline, and an expression that ends in a carriage
return: the debugger hears a request to end that nobody made, half a command and another expression.
-/
theorem commands_cut :
    let l : Launch := { cwd := "/w", mode := .load "a.out" none none }
    let turns : List Turn := [.call (.bringUp l), .call (.evaluate "x\n-gdb-exit" 0 0),
      .call (.completions "a\nb"), .call (.evaluate "y\r" 0 0)]
    let s := (run {} turns).session
    s.issued.drop 5 = [(some 6, "data-evaluate-expression x\n-gdb-exit"),
        (some 7, "complete \"a\nb\""), (some 8, "data-evaluate-expression y\r")] ∧
      s.heard.drop 5 = [(some 6, "data-evaluate-expression x"), (none, "gdb-exit"),
        (some 7, "complete \"a"), (none, "b\""), (some 8, "data-evaluate-expression y")] ∧
      (Heard.ofBytes (Outgoing.bytes s.outbox)).any Heard.asksToExit = true ∧
      s.heard ≠ s.issued := by
  decide +kernel

end Ensemble

end MachineInterface
