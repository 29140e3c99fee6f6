import MachineInterface.Record.Basic
import MachineInterface.Text.Blank
import MachineInterface.Text.Numeral

/-!
# Threads

The threads that the debugger lists, and the number by which the operating system knows them.

* `ThreadId.ofTarget?_ne_zero`: a thread's number is never zero.
-/

namespace MachineInterface

open Text

namespace ThreadId

/-- A whole number at the start of a text, after blanks and a sign; what follows it is not read. -/
def leadingInt? (cs : List Char) : Option Int :=
  let magnitude (digits : List Char) : Option Nat :=
    Numeral.readNat? 10 0x8000000000000000 (digits.takeWhile Numeral.isDigit)
  match dropBlanks cs with
  | '-' :: rest => (magnitude rest).map fun n => -(n : Int)
  | '+' :: rest => (magnitude rest).map Int.ofNat
  | rest => (magnitude rest).map Int.ofNat

/-- A number at the start of a text that is not zero. -/
def leadingNonzero? (cs : List Char) : Option Int := (leadingInt? cs).filter (· ≠ 0)

/-- The text after a word, whose letters may be of either case. -/
def afterWord? (word : String) (cs : List Char) : Option (List Char) :=
  let n := word.toList.length
  if (cs.take n).map Char.toLower = word.toList then some (cs.drop n) else none

/-- The number of a thread in parentheses. -/
def inParentheses? (cs : List Char) : Option Int :=
  (afterFirst? "(LWP ".toList cs).bind fun rest =>
    (cut? ')' rest).bind fun p => leadingNonzero? p.1

/--
The number that the operating system gives a thread, from the debugger's name for it: a bare number,
a number after `Thread`, `Process` or `LWP`, or a thread's number in parentheses.
-/
def ofChars? (cs : List Char) : Option Int :=
  let thread := afterWord? "thread " cs
  (leadingNonzero? cs).or <|
    (thread.bind leadingNonzero?).or <|
    ((afterWord? "process " cs).bind leadingNonzero?).or <|
    (thread.bind fun _ => inParentheses? cs).or <|
    (afterWord? "lwp " cs).bind leadingNonzero?

/-- The number that the operating system gives a thread, from the debugger's name for it. -/
def ofTarget? (target : String) : Option Int := ofChars? target.toList

theorem leadingNonzero?_ne_zero {cs : List Char} {n : Int} (h : leadingNonzero? cs = some n) :
    n ≠ 0 := by
  simpa using (Option.filter_eq_some_iff.1 h).2

theorem inParentheses?_ne_zero {cs : List Char} {n : Int} (h : inParentheses? cs = some n) :
    n ≠ 0 := by
  obtain ⟨_, _, h⟩ := Option.bind_eq_some_iff.1 h
  obtain ⟨_, _, h⟩ := Option.bind_eq_some_iff.1 h
  exact leadingNonzero?_ne_zero h

/-- A thread's number is never zero. -/
theorem ofTarget?_ne_zero {target : String} {n : Int} (h : ofTarget? target = some n) : n ≠ 0 := by
  have ofBind {o : Option (List Char)} {f : List Char → Option Int}
      (hf : ∀ {cs n}, f cs = some n → n ≠ 0) (h : o.bind f = some n) : n ≠ 0 := by
    obtain ⟨_, _, h⟩ := Option.bind_eq_some_iff.1 h
    exact hf h
  simp only [ofTarget?, ofChars?, Option.or_eq_some_iff] at h
  rcases h with h | ⟨_, h | ⟨_, h | ⟨_, h | ⟨_, h⟩⟩⟩⟩
  · exact leadingNonzero?_ne_zero h
  · exact ofBind leadingNonzero?_ne_zero h
  · exact ofBind leadingNonzero?_ne_zero h
  · obtain ⟨_, _, h⟩ := Option.bind_eq_some_iff.1 h
    exact inParentheses?_ne_zero h
  · exact ofBind leadingNonzero?_ne_zero h

end ThreadId

/-- A thread as the debugger lists it. -/
structure Thread where
  id : UInt32
  /-- The debugger's name for the thread. -/
  target : String
  name : Option String
  /-- The operating system's number for the thread. -/
  systemId : Option Int
  deriving Repr, DecidableEq

/-- The thread that an entry of a list describes. -/
def Thread.ofValue? (v : Value) : Option Thread := do
  let id ← (← v.lookupText? "id") |> Numeral.readUInt32?
  let target := (v.lookupText? "target-id").getD ""
  return {
    id, target
    name := (v.lookupText? "name").filter (!·.isEmpty)
    systemId := ThreadId.ofTarget? target }

/-- The best label for a thread. -/
def Thread.label (t : Thread) : String :=
  match t.name, t.systemId with
  | some name, some n => name ++ " [" ++ toString n ++ "]"
  | some name, none => name
  | none, _ => if t.target.isEmpty then "<unnamed>" else t.target

end MachineInterface
