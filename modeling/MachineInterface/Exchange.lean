import MachineInterface.Error
import MachineInterface.Record.Basic

/-!
# Exchange

Commands go out under numbers, and an answer names the number of its command. The exchange gives out
the numbers, keeps the commands that wait, and records each answer once for the caller of its
command.

* `firstFree?_eq_some`: the number given out is not taken and not zero.
-/

namespace MachineInterface

/-- What the caller of a command receives. -/
abbrev Reply := Except Error ResultRecord

instance decidableEqReply : DecidableEq Reply
  | .ok r, .ok s => decidable_of_iff (r = s) (by simp)
  | .error e, .error f => decidable_of_iff (e = f) (by simp)
  | .ok _, .error _ => isFalse (by simp)
  | .error _, .ok _ => isFalse (by simp)

/-- A command that waits for its answer. -/
structure Pending where
  /-- How many commands were registered before this one. -/
  ticket : Nat
  token : UInt64
  command : String
  /-- Whether an error of the debugger is passed on as an ordinary answer. -/
  tolerant : Bool
  /-- Whether the caller still waits. -/
  awaited : Bool := true
  deriving Repr, DecidableEq

/-- An answer that a caller received. -/
structure Completion where
  ticket : Nat
  token : UInt64
  reply : Reply
  deriving Repr, DecidableEq

/-- The commands of one session. -/
structure Exchange where
  /-- Where the search for the next number starts. -/
  nextToken : UInt64 := 1
  /-- How many commands were registered. -/
  issued : Nat := 0
  pending : List Pending := []
  /-- The answers in the order in which they were received. -/
  completions : List Completion := []
  deriving Repr, DecidableEq

/-- What became of a result that the debugger sent. -/
inductive Resolution where
  /-- It went to the caller of its command. -/
  | completed
  /-- It went to the caller as an ordinary answer although it is an error. -/
  | suppressed (command message : String)
  /-- No command waits under its number. -/
  | unmatched (record : ResultRecord)
  deriving Repr, DecidableEq

namespace Exchange

/-! ## Numbers -/

/-- The first of `count` successive numbers, from `start` on, that is neither zero nor taken. -/
def firstFree? (taken : UInt64 → Bool) : (count : Nat) → (start : UInt64) → Option UInt64
  | 0, _ => none
  | count + 1, start =>
    if start = 0 ∨ taken start = true then firstFree? taken count (start + 1) else some start

theorem firstFree?_eq_some {taken : UInt64 → Bool} {count : Nat} {start token : UInt64}
    (h : firstFree? taken count start = some token) : token ≠ 0 ∧ taken token = false := by
  induction count generalizing start with
  | zero => cases h
  | succ count ih =>
    unfold firstFree? at h
    split at h
    · exact ih h
    · rename_i hs
      cases h
      simpa using hs

/-- Whether a command waits under a number. -/
def isPending (x : Exchange) (token : UInt64) : Bool := x.pending.any (·.token = token)

/--
The number for the next command: the first free one from `nextToken` on, past the largest number
back to the smallest. Among two more numbers than commands wait, one is free and not zero.
-/
def freeToken (x : Exchange) : UInt64 :=
  (firstFree? x.isPending (x.pending.length + 2) x.nextToken).getD x.nextToken

/-! ## Registering and answering -/

/-- The exchange with one more command that waits, and its ticket and number. -/
def register (x : Exchange) (command : String) (tolerant : Bool) : (Nat × UInt64) × Exchange :=
  let token := x.freeToken
  ((x.issued, token),
    { x with
      nextToken := token + 1
      issued := x.issued + 1
      pending := x.pending ++ [{ ticket := x.issued, token, command, tolerant }] })

/-- The exchange after a command was answered; an answer for which nobody waits is not recorded. -/
def complete (x : Exchange) (p : Pending) (reply : Reply) : Exchange :=
  { x with
    pending := x.pending.filter (·.ticket ≠ p.ticket)
    completions :=
      if p.awaited then x.completions ++ [⟨p.ticket, p.token, reply⟩] else x.completions }

/-- The command that waits under a number. -/
def pending? (x : Exchange) (token : UInt64) : Option Pending :=
  x.pending.find? (·.token = token)

/-- The message of an error that carries none. -/
def defaultMessage : String := "Internal error"

/-- What became of a result, and the exchange after it. -/
def resolve (x : Exchange) (r : ResultRecord) : Resolution × Exchange :=
  match r.token.bind x.pending? with
  | none => (.unmatched r, x)
  | some p =>
    if r.outcome ≠ .error then (.completed, x.complete p (.ok r))
    else
      let message := r.message?.getD defaultMessage
      if p.tolerant then (.suppressed p.command message, x.complete p (.ok r))
      else (.completed, x.complete p (.error (.command message p.command)))

/-- The exchange after the command under a number failed. -/
def cancel (x : Exchange) (token : UInt64) (e : Error) : Exchange :=
  match x.pending? token with
  | none => x
  | some p => x.complete p (.error e)

/-- The exchange after every command that waits failed. -/
def failAll (x : Exchange) (e : Error) : Exchange :=
  x.pending.foldl (fun x p => x.complete p (.error e)) x

/-- The exchange after the caller with a ticket stopped waiting. The command still waits. -/
def abandon (x : Exchange) (ticket : Nat) : Exchange :=
  { x with
    pending := x.pending.map fun p => if p.ticket = ticket then { p with awaited := false } else p }

/-- The answer that the caller with a ticket received. -/
def reply? (x : Exchange) (ticket : Nat) : Option Reply :=
  (x.completions.find? (·.ticket = ticket)).map (·.reply)

/-- How a command is written: its number, a hyphen, its text and a newline. -/
def wire (token : UInt64) (command : String) : String :=
  toString token.toNat ++ "-" ++ command ++ "\n"

/-! ## What an answer changes -/

theorem resolve_unmatched {x : Exchange} {r : ResultRecord} (h : r.token.bind x.pending? = none) :
    x.resolve r = (.unmatched r, x) := by
  simp [resolve, h]

end Exchange

end MachineInterface
