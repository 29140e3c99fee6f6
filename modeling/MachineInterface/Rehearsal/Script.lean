import MachineInterface.Text.Blank
import MachineInterface.Text.CString
import MachineInterface.Text.Cut
import MachineInterface.Text.Numeral

/-!
# Scripts

A scripted debugger answers a line by the first rule that applies to it. A rule may be used up.
-/

namespace MachineInterface

open Text

/-! ## What a scripted debugger hears -/

/-- A line that a debugger has read: an optional number, a hyphen, and a command. -/
structure Heard where
  line : String
  token : Option UInt64
  command : String
  deriving Repr, DecidableEq

namespace Heard

/-- What a line says. A number that is too large counts as none. -/
def ofLine (line : String) : Heard :=
  let cs := line.toList
  let command := match cs.dropWhile Numeral.isDigit with
    | '-' :: rest => rest
    | rest => rest
  { line
    token := Numeral.readUInt64? 10 (cs.takeWhile Numeral.isDigit)
    command := String.ofList command }

/-- The first word of the command. -/
def name (h : Heard) : String := (firstWord? h.command).getD ""

/-- Whether the line asks the debugger to end. -/
def asksToExit (h : Heard) : Bool := h.token.isNone && h.name == "gdb-exit"

/-- The number as text. -/
def tokenText (h : Heard) : String :=
  match h.token with
  | some token => toString token.toNat
  | none => ""

/-- A result for the command. -/
def result (h : Heard) (body : String) : String := h.tokenText ++ "^" ++ body

end Heard

/-! ## Rules -/

/-- What a rule answers. -/
inductive Response where
  /-- Lines in which `%T` stands for the number of the command and `%N` for a counter. -/
  | lines (templates : List String)
  /-- Success with these results. -/
  | doneWith (results : String)
  /-- An error with this message. -/
  | error (message : String)
  deriving Repr, DecidableEq

/-- An answer to certain commands. -/
structure Rule where
  /-- The name of a command, a whole command, or `*` for all of them. -/
  on : String
  response : Response
  /-- How often the rule can be used, if there is a limit. -/
  limit : Option Nat := none
  uses : Nat := 0
  deriving Repr, DecidableEq

namespace Rule

/-- Whether a rule can be used for a line. -/
def applies (r : Rule) (h : Heard) : Bool :=
  (r.on == h.name || r.on == h.command || r.on == "*")
    && (match r.limit with
      | some limit => r.uses < limit
      | none => true)

/-- The response of the first rule that applies, and the rules after its use. -/
def use (h : Heard) : List Rule → Option (Response × List Rule)
  | [] => none
  | r :: rules =>
    if r.applies h then some (r.response, { r with uses := r.uses + 1 } :: rules)
    else (use h rules).map fun (response, rules) => (response, r :: rules)

end Rule

/-! ## Scripts -/

/-- The rules of a scripted debugger, and its counter. -/
structure Script where
  rules : List Rule := []
  counter : Nat := 1
  deriving Repr, DecidableEq

namespace Script

/-- A template with its marks filled in. -/
def fill (token count : List Char) : List Char → List Char
  | '%' :: 'T' :: rest => token ++ fill token count rest
  | '%' :: 'N' :: rest => count ++ fill token count rest
  | c :: rest => c :: fill token count rest
  | [] => []

/-- Whether a template shows the counter. -/
def showsCounter (template : String) : Bool := (afterFirst? "%N".toList template.toList).isSome

/-- The lines that a script answers, if a rule applies; the counter goes on where it was shown. -/
def answer (s : Script) (h : Heard) : Option (List String × Script) :=
  (Rule.use h s.rules).map fun (response, rules) =>
    match response with
    | .lines templates =>
      let count := toString s.counter
      (templates.map fun t => String.ofList (fill h.tokenText.toList count.toList t.toList),
        { rules, counter := if templates.any showsCounter then s.counter + 1 else s.counter })
    | .doneWith results => ([h.result ("done," ++ results)], { s with rules })
    | .error message =>
      ([h.result ("error,msg=\"" ++ CString.encode message ++ "\"")], { s with rules })

end Script

end MachineInterface
