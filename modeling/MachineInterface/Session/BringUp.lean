import MachineInterface.Config.Command
import MachineInterface.Config.Ssh
import MachineInterface.Record.Answer
import MachineInterface.Session.Call
import MachineInterface.Session.Command

/-!
# Bring-up

How a debugger is started and set up: all commands are written at once, and the debugger is ready
when each has had its answer.

* `Launch.modeCommands_eq`: the commands of each mode, written out.
* `Launch.commands_prefix`: every bring-up starts with the same two commands.
-/

namespace MachineInterface

open Text

/-- What the debugger is to do with which program. -/
inductive LaunchMode where
  /-- Run a program of this machine. -/
  | load (target : String) (programArgs tty : Option String)
  /-- Attach to a process, or to a target that outlives its programs. -/
  | attach (target : String) (executable : Option String)
  /-- Connect to a debug server. -/
  | connect (target : String) (executable : Option String)
  /-- Run a program where the debugger runs. -/
  | remoteLoad (target : String) (programArgs : Option String)
  /-- Attach to a process where the debugger runs. -/
  | remoteAttach (target : String)
  deriving Repr, DecidableEq

/-- A wish to debug a program. -/
structure Launch where
  /-- The working directory, in the syntax of the debugger's machine. -/
  cwd : String
  mode : LaunchMode
  /-- Lines of user input to run at the end. -/
  autorun : List String := []
  deriving Repr, DecidableEq

/-- A command to write, and whether its failure is passed over. -/
abbrev SetupLine := String × Bool

namespace Launch

/-- A command whose failure matters. -/
def must (command : String) : SetupLine := (command, false)

/-- The command that tells where source files are now. -/
def mapCommand (flavor : Flavor) (entry : String × String) : String :=
  match flavor with
  | .gdb => "gdb-set substitute-path " ++ Quote.quoted entry.1 ++ " " ++ Quote.quoted entry.2
  | .lldb =>
    "interpreter-exec console "
      ++ Quote.quoted ("settings append target.source-map " ++ entry.1 ++ " " ++ entry.2)

/-- The program whose symbols are read first. -/
def symbolFile (l : Launch) : Option String :=
  match l.mode with
  | .load target _ _ => some (Target.join l.cwd target)
  | .remoteLoad target _ => some (Target.join l.cwd target)
  | _ => none

/-- The commands of every bring-up. -/
def commonCommands (config : DebuggerConfig) (l : Launch) : List SetupLine :=
  ("gdb-set target-async on", true) :: must "list-features"
    :: ("environment-directory " ++ Quote.quoted l.cwd, true)
    :: (l.symbolFile.map fun path => must ("file-exec-and-symbols " ++ Quote.quoted path)).toList
    ++ (if config.frameFilters then [must "enable-frame-filters"] else [])
    ++ config.sourceFileMap.entries.map (fun e => must (mapCommand config.flavor e))
    ++ config.setupCommands.map (fun c => (Command.ofInput c.text, c.ignoreFailures))

/-- A command about an optional text that is not empty. -/
def optional (start : String) (text : Option String) : List SetupLine :=
  ((nonEmpty text).map fun t => must (start ++ t)).toList

/-- Whether a target outlives its programs. -/
def isExtended (target : String) : Bool := "extended-remote".toList.isPrefixOf target.toList

theorem isExtended_iff {target : String} :
    isExtended target = true ↔ "extended-remote".toList <+: target.toList :=
  List.isPrefixOf_iff_prefix

/-- The commands of a mode. -/
def modeCommands (l : Launch) : List SetupLine :=
  match l.mode with
  | .load _ programArgs tty =>
    optional "exec-arguments " programArgs ++ optional "inferior-tty-set " tty
  | .attach target executable =>
    let symbols (command : String) : List SetupLine :=
      ((nonEmpty executable).map fun path =>
        must (command ++ Quote.quoted (Target.join l.cwd path))).toList
    if isExtended target then
      must ("target-select " ++ target) :: symbols "file-symbol-file "
    else symbols "file-exec-and-symbols " ++ [must ("target-attach " ++ target)]
  | .connect target _ => [must ("target-select remote " ++ target)]
  | .remoteLoad _ programArgs =>
    must ("environment-cd " ++ Quote.quoted l.cwd) :: optional "exec-arguments " programArgs
  | .remoteAttach target =>
    [must ("environment-cd " ++ Quote.quoted l.cwd), must ("target-attach " ++ target)]

/--
The commands of each mode. None of their failures is passed over. Arguments, a terminal or a program
are asked for where they are given and not empty; the symbols of the program are read before a
process is attached to, but after a target that outlives its programs was selected.
-/
theorem modeCommands_eq (l : Launch) :
    let quoted := fun text : String => "\"" ++ Quote.escape text ++ "\""
    let asked := fun (text : Option String) (command : String → String) =>
      if text.getD "" = "" then [] else [(command (text.getD ""), false)]
    l.modeCommands = match l.mode with
      | .load _ programArgs tty =>
        asked programArgs ("exec-arguments " ++ ·) ++ asked tty ("inferior-tty-set " ++ ·)
      | .attach target executable =>
        if "extended-remote".toList <+: target.toList then
          ("target-select " ++ target, false) :: asked executable fun path =>
            "file-symbol-file " ++ quoted (Target.join l.cwd path)
        else
          asked executable (fun path => "file-exec-and-symbols " ++ quoted (Target.join l.cwd path))
            ++ [("target-attach " ++ target, false)]
      | .connect target _ => [("target-select remote " ++ target, false)]
      | .remoteLoad _ programArgs =>
        ("environment-cd " ++ quoted l.cwd, false) :: asked programArgs ("exec-arguments " ++ ·)
      | .remoteAttach target =>
        [("environment-cd " ++ quoted l.cwd, false), ("target-attach " ++ target, false)] := by
  intro quoted asked
  have hasked : ∀ (text : Option String) (command : String → String),
      ((nonEmpty text).map fun t => must (command t)).toList = asked text command := by
    intro text command
    rw [nonEmpty_eq]
    dsimp only [asked]
    split
    · rfl
    · rfl
  obtain ⟨cwd, mode, autorun⟩ := l
  cases mode with
  | load target programArgs tty =>
    dsimp only [modeCommands, optional]
    rw [hasked programArgs ("exec-arguments " ++ ·), hasked tty ("inferior-tty-set " ++ ·)]
  | attach target executable =>
    dsimp only [modeCommands]
    rw [hasked executable fun path => "file-symbol-file " ++ Quote.quoted (Target.join cwd path),
      hasked executable fun path => "file-exec-and-symbols " ++ Quote.quoted (Target.join cwd path)]
    by_cases h : isExtended target = true
    · rw [if_pos h, if_pos (isExtended_iff.mp h)]
      rfl
    · rw [if_neg h, if_neg (mt isExtended_iff.mpr h)]
      rfl
  | connect target executable => rfl
  | remoteLoad target programArgs =>
    dsimp only [modeCommands, optional]
    rw [hasked programArgs ("exec-arguments " ++ ·)]
    rfl
  | remoteAttach target => rfl

example : modeCommands { cwd := "/w", mode := .attach "extended-remote :1" (some "a") } =
    [("target-select extended-remote :1", false), ("file-symbol-file \"/w/a\"", false)] := by
  decide +kernel

/-- The commands of a bring-up, in order. -/
def commands (config : DebuggerConfig) (l : Launch) : List SetupLine :=
  commonCommands config l ++ l.modeCommands
    ++ l.autorun.map (fun line => must (Command.userInput line 0 0))

/-- Every bring-up starts with the same two commands. -/
theorem commands_prefix (config : DebuggerConfig) (l : Launch) :
    ∃ rest, l.commands config =
      ("gdb-set target-async on", true) :: must "list-features" :: rest := by
  simp only [commands, commonCommands, List.cons_append]
  exact ⟨_, rfl⟩

/-- What follows the debugger's program on its command line. -/
def trailingArgs (l : Launch) : List String :=
  match l.mode with
  | .connect _ executable => ((nonEmpty executable).map (Target.join l.cwd)).toList
  | _ => []

end Launch

/-! ## Starting programs -/

/-- What is known of this machine. -/
structure Host where
  /-- Why a program cannot be started. -/
  startError? : (program : String) → Option String
  fileExists : (path : String) → Bool

namespace Host

/-- Whether the debugger can be started here, or why not. -/
def startLocal (h : Host) (c : LocalCommand) : Except String Unit :=
  match h.startError? c.program with
  | some detail => .error (c.program ++ ": " ++ detail)
  | none => .ok ()

/-- Whether a debugger can be started on another machine, or why not. -/
def startSsh (h : Host) (a : SshArgs) : Except String Unit :=
  let missingKey := match a.auth with
    | .keyFile path => !h.fileExists path
    | _ => false
  if missingKey then .error "SSH key file does not exist!"
  else match h.startError? a.program with
    | some detail => .error ("could not run ssh: " ++ detail)
    | none => .ok ()

end Host

namespace Session

/-- The features that a debugger lists in an answer. -/
def listed (r : ResultRecord) : List String := (r.elements "features").filterMap Value.text?

/-- A debugger that was started is set up. -/
def bringUp (l : Launch) : CallM Unit := do
  CallM.locked connect
  let config ← CallM.read (·.config.debugger)
  match ← CallM.locked (issueAll (l.commands config)) with
  | first :: features :: rest =>
    let answer ← CallM.attempt (CallM.await features)
    CallM.modify fun s => { s with features := (answer.map listed).toOption.getD [] }
    (first :: rest).forM fun ticket => discard (CallM.await ticket)
    CallM.modify (·.emit .debugReady)
  | _ => return

/-- A debugger is set up if it could be started. -/
def bringUpStarted (started : Except String Unit) (l : Launch) : CallM Unit := do
  match started with
  | .ok () => bringUp l
  | .error detail =>
    CallM.modify (·.launchFailed detail)
    throw (.launch detail)

/-- A debugger is started on this machine and set up. -/
def startLocal (host : Host) (l : Launch) : CallM Unit := do
  let config ← CallM.read (·.config.debugger)
  let cwd := if l.cwd.isEmpty then none else some l.cwd
  bringUpStarted (host.startLocal (config.localCommand cwd l.trailingArgs)) l

/-- A debugger is started on another machine and set up. -/
def startSsh (host : Host) (a : SshArgs) (l : Launch) : CallM Unit :=
  bringUpStarted (host.startSsh a) l

end Session

end MachineInterface
