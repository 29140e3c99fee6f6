import MachineInterface.Config.Log.Level
import MachineInterface.Config.Log.Subject
import MachineInterface.Text.Alphanumeric
import MachineInterface.Text.Blank
import MachineInterface.Text.Cut

/-!
# Log directives

A directive gives a level to a subject. It is written `target[span{field=value}]=level`, where the
brackets and the level may be left out, and so may the parts in the brackets and the target in front
of them. A word alone is a level for all messages, or else a target.

* `ofChars?_eq_none_of_start`: a wrong first character makes the directive wrong.
* `ofChars?_level`: the word for a level is the directive of this level for all messages.
-/

namespace MachineInterface

open Text

/-- A part of a text: where it starts and how long it is, in bytes. -/
structure TextPart where
  start : Nat
  size : Nat
  deriving Repr, DecidableEq

namespace TextPart

/-- Where the part ends. -/
def stop (p : TextPart) : Nat := p.start + p.size

/-- The part of a text, if it does not split a character. -/
def cut? (p : TextPart) (cs : List Char) : Option String :=
  ((dropBytes? p.start cs).bind (takeBytes? p.size)).map String.ofList

end TextPart

/-! ## Outlines -/

namespace LogDirective

/-- Where the parts of a directive lie in its text. -/
structure Outline where
  /-- How long the target is; it stands at the start. -/
  target : Nat
  span : Option TextPart := none
  field : Option TextPart := none
  /-- Where the level starts, after its equals sign. -/
  level : Option Nat := none
  deriving Repr, DecidableEq

namespace Outline

/-- The outline with what follows at a place: nothing, or a level. -/
def close? (o : Outline) (place : Nat) : List Char → Option Outline
  | [] => some o
  | '=' :: _ => some { o with level := some (place + 1) }
  | _ => none

/-- The outline of a directive. Empty text before a field is no span. -/
def ofChars? (cs : List Char) : Option Outline :=
  let isTarget (c : Char) : Bool := c != '=' && c != '['
  let isSpan (c : Char) : Bool := c != '{' && c != ']'
  let target := byteSize (cs.takeWhile isTarget)
  match cs.dropWhile isTarget with
  | '[' :: inside =>
    let span : TextPart := ⟨target + 1, byteSize (inside.takeWhile isSpan)⟩
    match inside.dropWhile isSpan with
    | ']' :: rest => close? { target, span := some span } (span.stop + 1) rest
    | '{' :: braces =>
      let field : TextPart := ⟨span.stop + 1, byteSize (braces.takeWhile (· != '}'))⟩
      match braces.dropWhile (· != '}') with
      | '}' :: ']' :: rest =>
        let span := if span.size = 0 then none else some span
        close? { target, span, field := some field } (field.stop + 2) rest
      | _ => none
    | _ => none
  | rest => close? { target } target rest

/-- Whether a directive is a word alone. -/
def isWord (o : Outline) : Bool := o.span.isNone && o.field.isNone && o.level.isNone

/-- The subject that an outline cuts out of a text, if there is one. -/
def subject? (o : Outline) (cs : List Char) : Option LogSubject := do
  let target ← TextPart.cut? ⟨0, o.target⟩ cs
  let span ← o.span.mapM (·.cut? cs)
  let field ← o.field.mapM fun part => (part.cut? cs).bind FieldFilter.ofText?
  return ⟨if o.target = 0 then none else some target, span, field⟩

/-- The level that an outline cuts out of a text. No text stands for all of them. -/
def level? (o : Outline) (cs : List Char) : Option LogLevel := do
  match (← o.level.mapM (dropBytes? · cs)).getD [] with
  | [] => some .trace
  | level => LogLevel.ofText? (String.ofList level)

end Outline

end LogDirective

/-! ## Directives -/

/-- A level for a subject. -/
structure LogDirective where
  subject : LogSubject
  level : LogLevel
  deriving Repr, DecidableEq

namespace LogDirective

/-- A level for all messages. -/
def all (level : LogLevel) : LogDirective := ⟨{}, level⟩

/-- Whether a character may start a directive. -/
def isStart (c : Char) : Bool :=
  c == '[' || c == '-' || c == ':' || c == '_' || isLetterOrNumber c

/-- The directive of a word: a level, or else a target of which all is kept. -/
def ofWord (s : String) : LogDirective :=
  match LogLevel.ofText? s with
  | some level => all level
  | none => ⟨{ target := some s }, .trace⟩

/--
The directive that a text stands for. Its parts are measured without the outer blanks and then cut
out of the whole text, so that blanks in front shift the cut. A cut does not split a character.
-/
def ofChars? (cs : List Char) : Option LogDirective := do
  let bare := trimChars cs
  if !(bare.head?.map isStart).getD false then none
  else
    let o ← Outline.ofChars? bare
    if o.isWord then some (ofWord (String.ofList cs))
    else return ⟨← o.subject? cs, ← o.level? cs⟩

/-- A wrong first character makes the directive wrong. -/
theorem ofChars?_eq_none_of_start {cs rest : List Char} {c : Char} (h : trimChars cs = c :: rest)
    (hc : isStart c = false) : ofChars? cs = none := by
  simp [ofChars?, h, hc]

/-- The word for a level is the directive of this level for all messages. -/
theorem ofChars?_level (level : LogLevel) : ofChars? level.text.toList = some (all level) := by
  cases level <;> rfl

/-- The directive as text. -/
def text (d : LogDirective) : String :=
  if d.subject = {} then d.level.text else d.subject.text ++ "=" ++ d.level.text

end LogDirective

end MachineInterface
