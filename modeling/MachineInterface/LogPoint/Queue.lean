import MachineInterface.LogPoint.Template
import MachineInterface.Table

/-!
# Log points

A log point is a breakpoint whose hit is told as a message. The debugger prints the values of a hit
after the hit; the hits that wait for values stand in a queue.

* `onHit_of_no_expressions`: a message without expressions is told at once.
* `onConsole_of_not_value`: a line that prints no value changes nothing.
-/

namespace MachineInterface

/-- A hit that waits for values, and those that have arrived. -/
structure Hit where
  template : LogTemplate
  values : List (Option String) := []
  deriving Repr, DecidableEq

/-- Whether every expression has its value. -/
def Hit.isComplete (h : Hit) : Bool := h.template.expressions.length ≤ h.values.length

/-- The message with the values that have arrived. -/
def Hit.message (h : Hit) : String := h.template.fill h.values

/-- The templates by breakpoint, and the hits that wait, oldest first. -/
structure LogPoints where
  templates : Table UInt32 LogTemplate := {}
  waiting : List Hit := []
  deriving Repr, DecidableEq

namespace LogPoints

/-- The log points with a template for a breakpoint. -/
def register (l : LogPoints) (id : UInt32) (t : LogTemplate) : LogPoints :=
  { l with templates := l.templates.insert id t }

/-- The log points without the template of a breakpoint. Hits that wait are kept. -/
def remove (l : LogPoints) (id : UInt32) : LogPoints :=
  { l with templates := l.templates.erase id }

/-- Whether a breakpoint has a template. -/
def contains (l : LogPoints) (id : UInt32) : Bool := l.templates.contains id

/-- A breakpoint was hit: the message, if it is complete at once. -/
def onHit (l : LogPoints) (id : UInt32) : Option String × LogPoints :=
  match l.templates.get? id with
  | none => (none, l)
  | some template =>
    let hit : Hit := { template }
    if hit.isComplete then (some hit.message, l)
    else (none, { l with waiting := l.waiting ++ [hit] })

/-- Whether a console line prints a value. -/
def printsValue (line : String) : Bool := line.toList.head? == some '$'

/-- The console printed a line: the message of the oldest hit, if this completes it. -/
def onConsole (l : LogPoints) (line : String) : Option String × LogPoints :=
  if printsValue line then
    match l.waiting with
    | [] => (none, l)
    | hit :: waiting =>
      let hit := { hit with values := hit.values ++ [LogTemplate.printedValue? line] }
      if hit.isComplete then (some hit.message, { l with waiting })
      else (none, { l with waiting := hit :: waiting })
  else (none, l)

/-- A message without expressions is told at once. -/
theorem onHit_of_no_expressions {l : LogPoints} {id : UInt32} {t : LogTemplate}
    (h : l.templates.get? id = some t) (he : t.expressions = []) :
    l.onHit id = (some (String.ofList t.text), l) := by
  simp [onHit, h, Hit.isComplete, he, Hit.message, LogTemplate.fill, LogTemplate.fillChars_nil]

/-- A line that prints no value changes nothing. -/
theorem onConsole_of_not_value {l : LogPoints} {line : String} (h : printsValue line = false) :
    l.onConsole line = (none, l) := by
  simp [onConsole, h]

end LogPoints

end MachineInterface
