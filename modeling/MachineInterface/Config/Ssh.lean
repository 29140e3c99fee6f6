/-!
# Remote debuggers

How the client for a remote shell is called to run the debugger on another machine.

* `remoteCommand_of_no_bootstrap`: without a first command, the debugger's is the only one.
-/

namespace MachineInterface

/-- How the other machine knows the user. -/
inductive SshAuth where
  /-- By the running key agent. -/
  | agent
  | keyFile (path : String)
  | password (text : String)
  deriving Repr, DecidableEq

/-- A place on another machine where the debugger runs. -/
structure SshArgs where
  host : String := ""
  port : UInt16 := 22
  user : String := ""
  auth : SshAuth := .agent
  /-- Whether windows of the program show here. -/
  forwardX11 : Bool := false
  /-- The host of the window server; none for the local socket. -/
  x11Host : String := ""
  /-- The port of the window server, or the number of its local socket. -/
  x11Port : UInt16 := 0
  /-- A shell command to run before the debugger. -/
  bootstrap : Option String := none
  /-- The client program. -/
  program : String := "ssh"
  deriving Repr, DecidableEq

namespace SshArgs

/-- The port of the first display of a window server. -/
def firstDisplayPort : Nat := 6000

/-- The local display on which the windows show. -/
def localDisplay (a : SshArgs) : String :=
  let port := a.x11Port.toNat
  if a.x11Host.isEmpty then ":" ++ toString port
  else
    let display := if firstDisplayPort ≤ port then port - firstDisplayPort else port
    a.x11Host ++ ":" ++ toString display

/-- The shell line for the other machine. -/
def remoteCommand (a : SshArgs) (debugger : String) : String :=
  match a.bootstrap with
  | some first => if first.isEmpty then debugger else first ++ " && " ++ debugger
  | none => debugger

/-- Without a first command, the debugger's is the only one. -/
theorem remoteCommand_of_no_bootstrap {a : SshArgs} (h : a.bootstrap = none) (debugger : String) :
    a.remoteCommand debugger = debugger := by
  simp [remoteCommand, h]

/-- The client's arguments about the user. -/
def authArgs : SshAuth → List String
  | .agent => ["-o", "BatchMode=yes"]
  | .keyFile path => ["-o", "BatchMode=yes", "-i", path]
  | .password _ => ["-o", "PreferredAuthentications=password,keyboard-interactive"]

/-- The client's arguments. -/
def argv (a : SshArgs) (debugger : String) : List String :=
  ["-T", "-p", toString a.port.toNat]
    ++ (if a.user.isEmpty then [] else ["-l", a.user])
    ++ authArgs a.auth
    ++ (if a.forwardX11 then ["-X"] else [])
    ++ [a.host, a.remoteCommand debugger]

end SshArgs

end MachineInterface
