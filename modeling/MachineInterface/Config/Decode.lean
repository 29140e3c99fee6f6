import MachineInterface.Config.Basic
import MachineInterface.Config.Toml.Reader

/-!
# Settings from a document

The settings that a document chooses. A group of settings is a table, or an array of its values in
their fixed order; keys that mean nothing are passed over.

* `Config.ofEntries?_nil`: a document without tables chooses nothing.
-/

namespace MachineInterface

open Toml

namespace Config

/-! ## Single values -/

/-- A text. -/
def text? : Node → Option String
  | .text s => some s
  | _ => none

/-- A truth value. -/
def boolean? : Node → Option Bool
  | .boolean b => some b
  | _ => none

/-- A number that is not negative. -/
def natural? : Node → Option UInt64
  | .integer n => if 0 ≤ n then some (UInt64.ofNat n.toNat) else none
  | _ => none

/-- The items of an array, or the tables under a repeated header. -/
def items? : Node → Option (List Node)
  | .array items => some items
  | .tables items => some (items.map (.table .header))
  | _ => none

/-- Texts in an array. -/
def texts? (v : Node) : Option (List String) := (items? v).bind (·.mapM text?)

/-- The key under which a date or a time stands when a table is asked for. -/
def datetimeKey : String := "$__toml_private_datetime"

/-- The entries of a table; a date or a time counts as a table of one entry. -/
def entries? : Node → Option Entries
  | .table _ entries => some entries
  | .datetime s => some [(datetimeKey, .text s)]
  | _ => none

/-- Texts under keys. -/
def textMap? (v : Node) : Option TextMap := do
  let es ← (← entries? v).mapM fun e => (text? e.2).map (e.1, ·)
  return TextMap.ofList es

/-- Whether a value holds nothing. -/
def isEmpty : Node → Bool
  | .array items => items.isEmpty
  | .tables items => items.isEmpty
  | .table _ entries => entries.isEmpty
  | _ => false

/-- A kind of debugger: its word, or a table with this word as its only key and an empty value. -/
def flavor? : Node → Option Flavor
  | .text s => Flavor.ofText? s
  | .table _ [(key, v)] => if isEmpty v then Flavor.ofText? key else none
  | _ => none

/-! ## Groups of settings -/

/-- The values of a group of settings by name. An array gives them in the order of `names`. -/
def group? (names : List String) (v : Node) : Option Entries :=
  (entries? v).or ((items? v).map (names.zip ·))

/-- A setting, or what holds where it is not chosen. -/
def setting? {α : Type} (es : Entries) (name : String) (read : Node → Option α) (otherwise : α) :
    Option α :=
  match es.lookup name with
  | some v => read v
  | none => some otherwise

/-- A command to run while the debugger is set up. Its text cannot be left out. -/
def setupCommand? (v : Node) : Option SetupCommand := do
  let es ← group? ["text", "ignore_failures"] v
  let text ← (es.lookup "text").bind text?
  return ⟨text, ← setting? es "ignore_failures" boolean? false⟩

/-- What is chosen about the debugger. -/
def debugger? (v : Node) : Option DebuggerConfig := do
  let es ← group? ["flavor", "path", "args", "extra_args", "env", "frame_filters",
    "setup_commands", "source_file_map"] v
  let usual : DebuggerConfig := {}
  return {
    flavor := ← setting? es "flavor" flavor? usual.flavor
    path := ← setting? es "path" (fun v => (text? v).map some) usual.path
    args := ← setting? es "args" (fun v => (texts? v).map some) usual.args
    extraArgs := ← setting? es "extra_args" texts? usual.extraArgs
    env := ← setting? es "env" textMap? usual.env
    frameFilters := ← setting? es "frame_filters" boolean? usual.frameFilters
    setupCommands := ← setting? es "setup_commands"
      (fun v => (items? v).bind (·.mapM setupCommand?)) usual.setupCommands
    sourceFileMap := ← setting? es "source_file_map" textMap? usual.sourceFileMap }

/-- What is chosen about the log. -/
def logging? (v : Node) : Option LoggingConfig := do
  let es ← group? ["level", "json"] v
  let usual : LoggingConfig := {}
  return ⟨← setting? es "level" text? usual.level, ← setting? es "json" boolean? usual.json⟩

/-- What is chosen about a session. -/
def session? (v : Node) : Option SessionConfig := do
  let es ← group? ["quit_grace_period_ms"] v
  let usual : SessionConfig := {}
  return ⟨← setting? es "quit_grace_period_ms" natural? usual.quitGracePeriodMs⟩

/-- The settings that the tables of a document choose. -/
def ofEntries? (es : Entries) : Option Config := do
  return {
    debugger := ← setting? es "debugger" debugger? {}
    logging := ← setting? es "logging" logging? {}
    session := ← setting? es "session" session? {} }

/-- The settings that a document chooses. -/
def ofText? (text : String) : Option Config := (Entries.ofDocument? text).bind ofEntries?

/-- A document without tables chooses nothing. -/
theorem ofEntries?_nil : ofEntries? [] = some {} := rfl

end Config

/-! ## Settings from a file -/

/-- Why settings could not be had. -/
inductive ConfigError where
  /-- The file could not be read. -/
  | io (path : String) (detail : String)
  /-- The file is no document of settings. -/
  | invalid
  deriving Repr, DecidableEq

/-- The settings in the contents of a file, or in the reason why there are none. -/
def Config.ofContents (path : String) (contents : Except String String) :
    Except ConfigError Config :=
  match contents with
  | .error detail => .error (.io path detail)
  | .ok text =>
    match Config.ofText? text with
    | some c => .ok c
    | none => .error .invalid

/-- The error for a reader. -/
def ConfigError.message : ConfigError → String
  | io path detail => "failed to read config file " ++ path ++ ": " ++ detail
  | invalid => "failed to parse toml config"

end MachineInterface
