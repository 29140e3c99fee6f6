import MachineInterface.Proofs.Exchange.Serving
import MachineInterface.Proofs.Session.Installing
import MachineInterface.Proofs.Text.Digits

/-!
# Debuggers that accept every insert

A debugger numbers the breakpoints in the order in which their inserts arrive, and answers every
other command by its text. Then the answers to one addition do not depend on what else is under way.

* `Acceptor.addition`, `Acceptor.template?`: what comes of an addition whose insert is the `j`-th.
* `Acceptor.Installs.advance`: each section of an addition goes on towards this.
-/

namespace MachineInterface

open Text Session

/-- Whether a command inserts a breakpoint. -/
def isInsert (command : String) : Bool := "break-insert ".toList.isPrefixOf command.toList

theorem isInsert_append {a : String} (h : 13 ≤ a.toList.length) (b : String) :
    isInsert (a ++ b) = isInsert a := by
  rw [Bool.eq_iff_iff, isInsert, isInsert, List.isPrefixOf_iff_prefix, List.isPrefixOf_iff_prefix,
    String.toList_append]
  have hlong := List.prefix_append a.toList b.toList
  exact ⟨fun hab => List.prefix_of_prefix_length_le hab hlong h, fun ha => ha.trans hlong⟩

theorem isInsert_insertCommand (l : Location) (policy : Option HitPolicy) :
    isInsert (insertCommand l policy) = true := by
  unfold insertCommand
  rw [String.append_assoc, isInsert_append (by decide)]
  decide

theorem isInsert_conditionCommand (id : UInt32) (condition : String) :
    isInsert (conditionCommand id condition) = false := by
  unfold conditionCommand
  rw [String.append_assoc, String.append_assoc, isInsert_append (by decide)]
  decide

theorem isInsert_breakCommands (t : LogTemplate) (id : UInt32) :
    isInsert (t.breakCommands id) = false := by
  unfold LogTemplate.breakCommands
  rw [String.append_assoc, isInsert_append (by decide)]
  decide

/-- A debugger that accepts every insert. -/
structure Acceptor where
  /-- The answer to an insert, told how many came before it. -/
  insertion : Nat → String → ResultBody
  /-- The answer to any other command. -/
  others : String → Answer
  number : Nat → UInt32
  accepts : ∀ j command, (insertion j command).outcome ≠ .error
  numbers : ∀ j command token,
    (((insertion j command).record token).text? "bkpt.number").bind Numeral.readUInt32? =
      some (number j)

/-- A number is read back from its decimal digits. -/
theorem readUInt32?_toString (n : UInt32) : Numeral.readUInt32? (toString n.toNat) = some n := by
  have hdigits : (toString n.toNat).toList = Nat.toDigits 10 n.toNat := String.toList_ofList
  have hread : Numeral.readNat? 10 0x100000000 (Nat.toDigits 10 n.toNat) = some n.toNat :=
    Numeral.readNat?_of_value? (Numeral.value?_toDigits (by omega) (by omega) _) n.toNat_lt
  rw [Numeral.readUInt32?, hdigits, hread, Option.map_some, UInt32.ofNat_toNat]

namespace Acceptor

/-- The answer to an insert that tells only the number of the breakpoint. -/
def numberBody (number : String) : ResultBody where
  outcome := .done
  fields := [("bkpt", .tuple [("number", .const number)])]
  trailing := Value.printFields [("bkpt", .tuple [("number", .const number)])]
  stands := Value.trailingText_print ⟨by decide, ⟨by decide, trivial, trivial⟩, trivial⟩
  oneLine := by
    simp [Value.printFields, Value.print, Value.printText, newline_not_mem_encodeChars]

theorem text?_numberBody (number : String) (token : Option UInt64) :
    ((numberBody number).record token).text? "bkpt.number" = some number := by
  have hpath : Path.ofChars? "number".toList = some [⟨"number", []⟩] := by decide +kernel
  have hvalue : (Value.tuple [("number", .const number)]).lookupChars? "number".toList =
      some (.const number) := by
    rw [Value.lookupChars?, hpath]
    rfl
  exact congrArg (·.bind Value.text?) hvalue

/-- A debugger that counts the breakpoints from one on and agrees to everything else. -/
def counting : Acceptor where
  insertion j _ := numberBody (toString (UInt32.ofNat (j + 1)).toNat)
  others _ := .result ⟨.done, [], [], .nil, List.not_mem_nil⟩
  number j := .ofNat (j + 1)
  accepts := by
    rintro j command ⟨⟩
  numbers := by
    intro j command token
    rw [text?_numberBody, Option.bind_some, readUInt32?_toString]

variable (D : Acceptor) {asked : List Pending} {j q : Nat} {l : Location} {d : Descriptor}
  {s : Session}

/-- The answer to a command, told the commands before it. -/
def answer (before : List String) (command : String) : Answer :=
  if isInsert command then .result (D.insertion (before.countP isInsert) command)
  else D.others command

/-- The first numbers are all different. -/
def Distinct (n : Nat) : Prop := ∀ i j, i < j → j < n → D.number i ≠ D.number j

theorem distinct_counting {n : Nat} (h : n < 2 ^ 32) : counting.Distinct n := by
  intro i j hij hj heq
  have htoNat := congrArg UInt32.toNat heq
  simp only [counting, UInt32.toNat_ofNat'] at htoNat
  omega

/-! ## What comes of an addition -/

/-- The breakpoint that the `j`-th insert brings. -/
def breakpoint (j : Nat) (l : Location) (d : Descriptor) : Breakpoint :=
  let answer := (D.insertion j (insertCommand l d.hitPolicy?)).record none
  { id := D.number j
    location := l
    file := d.file <|> answer.text? "bkpt.file"
    line := (answer.text? "bkpt.line").bind Numeral.readUInt32?
    condition := d.condition
    logMessage := d.logMessage }

/-- Whether a command other than an insert succeeds, or why it does not. -/
def verdict (command : String) : Except Error Unit :=
  ((D.others command).reply 0 command false).map fun _ => ()

/-- Whether a breakpoint has its condition, or why it does not. -/
def condition (j : Nat) (d : Descriptor) : Except Error Unit :=
  match nonEmpty d.condition with
  | some c => D.verdict (conditionCommand (D.number j) c)
  | none => .ok ()

/-- Whether a breakpoint has its message, or why it does not. -/
def message (j : Nat) (d : Descriptor) : Except Error Unit :=
  match nonEmpty d.logMessage with
  | some m =>
    if (LogTemplate.ofMessage m).expressions.isEmpty then .ok ()
    else D.verdict ((LogTemplate.ofMessage m).breakCommands (D.number j))
  | none => .ok ()

/-- The template that is registered for a breakpoint. -/
def template? (j : Nat) (d : Descriptor) : Option LogTemplate :=
  match D.message j d with
  | .ok () => (nonEmpty d.logMessage).map LogTemplate.ofMessage
  | .error _ => none

/-- What an addition gives whose insert is the `j`-th. -/
def addition (j : Nat) (l : Location) (d : Descriptor) : Addition :=
  concluded (D.breakpoint j l d) (D.condition j d) (D.message j d)

/-- The session after the last section of an addition. -/
def leave (j : Nat) (d : Descriptor) (s : Session) : Session :=
  match D.template? j d with
  | some t => { s with logPoints := s.logPoints.register (D.number j) t }
  | none => s

/-- The end of an addition registers at most the template of its breakpoint. -/
theorem exists_leave_eq (j : Nat) (d : Descriptor) (s : Session) :
    ∃ logPoints : LogPoints, D.leave j d s = { s with logPoints } ∧
      ∀ id, logPoints.templates.get? id =
        if D.number j = id then (D.template? j d).or (s.logPoints.templates.get? id)
        else s.logPoints.templates.get? id := by
  unfold leave
  cases D.template? j d with
  | none => exact ⟨s.logPoints, rfl, by simp⟩
  | some t =>
    exact ⟨s.logPoints.register (D.number j) t, rfl, fun id =>
      Table.get?_insert s.logPoints.templates (D.number j) id t⟩

theorem breakpoint?_addition (j : Nat) (l : Location) (d : Descriptor) :
    (D.addition j l d).breakpoint? = some (D.breakpoint j l d) := by
  unfold addition concluded
  split <;> rfl

theorem ofAnswer_insertion (j : Nat) (l : Location) (d : Descriptor) (token : Option UInt64) :
    Breakpoint.ofAnswer (insertCommand l d.hitPolicy?) l d
      ((D.insertion j (insertCommand l d.hitPolicy?)).record token) =
        .ok (D.breakpoint j l d) := by
  rw [Breakpoint.ofAnswer, D.numbers]
  rfl

/-- The number of a command makes no difference to the verdict. -/
theorem map_reply_others (token : UInt64) (command : String) :
    ((D.others command).reply token command false).map (fun _ => ()) = D.verdict command := by
  unfold verdict
  cases D.others command with
  | error message => rfl
  | result body =>
    unfold Answer.reply
    dsimp only
    split <;> rfl

/-! ## Sections -/

/-- What is left of an addition that waits for the answer to the `q`-th of some commands. -/
inductive Installs (asked : List Pending) (j : Nat) (l : Location) (d : Descriptor) (q : Nat) :
    Call (Except Error Addition) → Prop
  | inserting {p : Pending} (hp : asked[q]? = some p)
    (hcommand : p.command = insertCommand l d.hitPolicy?)
    (hcount : ((asked.take q).map (·.command)).countP isInsert = j) :
    Installs asked j l d q (awaitInsert p.ticket l d)
  | conditioning {p : Pending} {c : String} (hp : asked[q]? = some p)
    (hc : nonEmpty d.condition = some c) (hcommand : p.command = conditionCommand (D.number j) c) :
    Installs asked j l d q (awaitCondition p.ticket (D.breakpoint j l d) d)
  | messaging {p : Pending} {m : String} (hp : asked[q]? = some p)
    (hm : nonEmpty d.logMessage = some m)
    (hasks : (LogTemplate.ofMessage m).expressions.isEmpty = false)
    (hcommand : p.command = (LogTemplate.ofMessage m).breakCommands (D.number j)) :
    Installs asked j l d q
      (awaitMessage p.ticket (D.breakpoint j l d) (D.condition j d) (.ofMessage m))

/-- What a section of an addition comes to: one more command, or the end. -/
inductive Goes (asked : List Pending) (j : Nat) (l : Location) (d : Descriptor) (s : Session) :
    Call (Except Error Addition) × Session → Prop
  | asks {command : String} {c : Call (Except Error Addition)} (hother : isInsert command = false)
    (h : D.Installs (asked ++ [s.exchange.nextPending command false]) j l d asked.length c) :
    Goes asked j l d s (c, (s.issue command false).2)
  | ends : Goes asked j l d s (.done (.ok (D.addition j l d)), D.leave j d s)

variable {D}

theorem Installs.mono {c : Call (Except Error Addition)} (h : D.Installs asked j l d q c)
    (more : List Pending) : D.Installs (asked ++ more) j l d q c := by
  have hlater : ∀ {p : Pending}, asked[q]? = some p → (asked ++ more)[q]? = some p :=
    fun hp => by rw [List.getElem?_append_left (List.getElem?_eq_some_iff.mp hp).1, hp]
  cases h with
  | inserting hp hcommand hcount =>
    refine .inserting (hlater hp) hcommand ?_
    rwa [List.take_append_of_le_length (Nat.le_of_lt (List.getElem?_eq_some_iff.mp hp).1)]
  | conditioning hp hc hcommand => exact .conditioning (hlater hp) hc hcommand
  | messaging hp hm hasks hcommand => exact .messaging (hlater hp) hm hasks hcommand

theorem Installs.waits {c : Call (Except Error Addition)} (h : D.Installs asked j l d q c) :
    ∃ p release next, asked[q]? = some p ∧ c = .reply p.ticket release next := by
  cases h with
  | inserting hp => exact ⟨_, _, _, hp, rfl⟩
  | conditioning hp => exact ⟨_, _, _, hp, rfl⟩
  | messaging hp => exact ⟨_, _, _, hp, rfl⟩

theorem goes_addMessage (hopen : s.link = .open) (hr : s.exchange.reply? s.exchange.issued = none) :
    D.Goes asked j l d s
      ((addMessage (D.breakpoint j l d) d (D.condition j d)).run.advance s) := by
  cases hm : nonEmpty d.logMessage with
  | none =>
    have hmessage : D.message j d = .ok () := by simp only [message, hm]
    have hleave : D.leave j d s = s := by simp only [leave, template?, hmessage, hm, Option.map_none]
    rw [advance_addMessage_none hm]
    have hends : D.Goes asked j l d s _ := .ends
    rwa [hleave, addition, hmessage] at hends
  | some m =>
    cases hasks : (LogTemplate.ofMessage m).expressions.isEmpty with
    | true =>
      have hmessage : D.message j d = .ok () := by simp only [message, hm, hasks, if_true]
      have hleave : D.leave j d s =
          { s with logPoints := s.logPoints.register (D.number j) (.ofMessage m) } := by
        simp only [leave, template?, hmessage, hm, Option.map_some]
      rw [advance_addMessage_plain hm hasks]
      have hends : D.Goes asked j l d s _ := .ends
      rwa [hleave, addition, hmessage] at hends
    | false =>
      rw [advance_addMessage_asked hm hasks hopen hr]
      exact .asks (isInsert_breakCommands _ _)
        (.messaging List.getElem?_concat_length hm hasks rfl)

theorem goes_addCondition (hopen : s.link = .open)
    (hr : s.exchange.reply? s.exchange.issued = none) :
    D.Goes asked j l d s ((addCondition (D.breakpoint j l d) d).run.advance s) := by
  cases hc : nonEmpty d.condition with
  | none =>
    have hcondition : D.condition j d = .ok () := by simp only [condition, hc]
    have hmessage : D.Goes asked j l d s _ := goes_addMessage hopen hr
    rwa [hcondition, ← advance_addCondition_none hc] at hmessage
  | some c =>
    rw [advance_addCondition_asked hc hopen hr]
    exact .asks (isInsert_conditionCommand _ _) (.conditioning List.getElem?_concat_length hc rfl)

/-- Once its command was answered, an addition goes on. -/
theorem Installs.advance {c : Call (Except Error Addition)} {p : Pending}
    (h : D.Installs asked j l d q c) (hopen : s.link = .open)
    (hr : s.exchange.reply? s.exchange.issued = none) (hp : asked[q]? = some p)
    (hreply : s.exchange.reply? p.ticket =
      some ((D.answer ((asked.take q).map (·.command)) p.command).reply p.token p.command false)) :
    D.Goes asked j l d s (c.advance s) := by
  cases h with
  | inserting hp' hcommand hcount =>
    obtain rfl := Option.some.inj (hp.symm.trans hp')
    rw [hcommand, answer, if_pos (isInsert_insertCommand _ _), hcount, Answer.reply,
      if_neg (fun h => D.accepts _ _ h.1)] at hreply
    rw [awaitInsert, Call.advance_reply_of_some hreply]
    dsimp only
    rw [D.ofAnswer_insertion]
    exact goes_addCondition hopen hr
  | @conditioning _ c hp' hc hcommand =>
    obtain rfl := Option.some.inj (hp.symm.trans hp')
    rw [hcommand, answer, if_neg (by simp [isInsert_conditionCommand])] at hreply
    have hcondition : D.condition j d = D.verdict (conditionCommand (D.number j) c) := by
      simp only [condition, hc]
    rw [awaitCondition, Call.advance_reply_of_some hreply, map_reply_others, ← hcondition]
    exact goes_addMessage hopen hr
  | @messaging _ m hp' hm hasks hcommand =>
    obtain rfl := Option.some.inj (hp.symm.trans hp')
    set command := (LogTemplate.ofMessage m).breakCommands (D.number j) with hdef
    rw [hcommand, answer, if_neg (by simp [hdef, isInsert_breakCommands])] at hreply
    have hmessage : D.message j d =
        ((D.others command).reply p.token command false).map fun _ => () := by
      rw [map_reply_others]
      simp only [message, hm, hasks, Bool.false_eq_true, if_false, hdef]
    have hends : D.Goes asked j l d s _ := .ends
    rw [awaitMessage, Call.advance_reply_of_some hreply]
    simp only [addition, leave, template?, hmessage, hm] at hends
    cases hanswer : (D.others command).reply p.token command false with
    | ok answer =>
      rw [hanswer] at hends
      exact hends
    | error e =>
      rw [hanswer] at hends
      exact hends

end Acceptor

end MachineInterface
