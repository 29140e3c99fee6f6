import MachineInterface.Config.TextMap

/-!
# Settings

What can be chosen about the debugger, the log and a session.

* `Config.default_values`: what holds where nothing is chosen.
-/

namespace MachineInterface

/-- The kinds of debugger that speak the interface. -/
inductive Flavor where
  | gdb
  | lldb
  deriving Repr, DecidableEq

namespace Flavor

/-- The word for a kind of debugger. -/
def text : Flavor → String
  | gdb => "gdb"
  | lldb => "lldb"

/-- The kind of debugger that a word stands for. -/
def ofText? (s : String) : Option Flavor :=
  if s = "gdb" then some gdb else if s = "lldb" then some lldb else none

/-- The program of a kind of debugger. -/
def defaultProgram : Flavor → String
  | gdb => "gdb"
  | lldb => "lldb-mi"

/-- The arguments that make a debugger speak the interface. -/
def defaultArgs : Flavor → List String
  | gdb => ["-q", "--interpreter=mi2"]
  | lldb => []

end Flavor

/-- A command to run while the debugger is set up. -/
structure SetupCommand where
  text : String
  ignoreFailures : Bool := false
  deriving Repr, DecidableEq

/-- What can be chosen about the debugger. -/
structure DebuggerConfig where
  flavor : Flavor := .gdb
  /-- The program, if it is not the usual one. -/
  path : Option String := none
  /-- What replaces the usual arguments. -/
  args : Option (List String) := none
  /-- What follows the arguments. -/
  extraArgs : List String := []
  env : TextMap := .empty
  frameFilters : Bool := true
  setupCommands : List SetupCommand := []
  /-- The places of source files by the places where they were compiled. -/
  sourceFileMap : TextMap := .empty
  deriving DecidableEq

/-- What can be chosen about the log. -/
structure LoggingConfig where
  /-- A level, or a list of directives. -/
  level : String := "info"
  json : Bool := false
  deriving Repr, DecidableEq

/-- What can be chosen about a session. -/
structure SessionConfig where
  /-- How long a debugger that was asked to quit may take. -/
  quitGracePeriodMs : UInt64 := 1000
  deriving Repr, DecidableEq

/-- All settings. -/
structure Config where
  debugger : DebuggerConfig := {}
  logging : LoggingConfig := {}
  session : SessionConfig := {}
  deriving DecidableEq

/-- What holds where nothing is chosen. -/
theorem Config.default_values :
    ({} : Config).debugger.flavor = .gdb ∧ ({} : Config).debugger.frameFilters = true
      ∧ ({} : Config).logging.level = "info" ∧ ({} : Config).session.quitGracePeriodMs = 1000 :=
  ⟨rfl, rfl, rfl, rfl⟩

end MachineInterface
