import MachineInterface.Breakpoint.Basic
import MachineInterface.Breakpoint.Board
import MachineInterface.Breakpoint.HitPolicy
import MachineInterface.Config.Basic
import MachineInterface.Config.Command
import MachineInterface.Config.Decode
import MachineInterface.Config.Log.Directive
import MachineInterface.Config.Log.Filter
import MachineInterface.Config.Log.Level
import MachineInterface.Config.Log.Pattern.CharClass
import MachineInterface.Config.Log.Pattern.Escape
import MachineInterface.Config.Log.Pattern.Reader
import MachineInterface.Config.Log.Subject
import MachineInterface.Config.Ssh
import MachineInterface.Config.TextMap
import MachineInterface.Config.Toml.Basic
import MachineInterface.Config.Toml.Quoted
import MachineInterface.Config.Toml.Reader
import MachineInterface.Config.Toml.Scalar
import MachineInterface.Error
import MachineInterface.Event
import MachineInterface.Event.Report
import MachineInterface.Exchange
import MachineInterface.Frame
import MachineInterface.Line.Buffer
import MachineInterface.Line.Kind
import MachineInterface.LogPoint.Queue
import MachineInterface.LogPoint.Template
import MachineInterface.Main
import MachineInterface.Memory.Address
import MachineInterface.Memory.Read
import MachineInterface.Proofs.Breakpoint.Board
import MachineInterface.Proofs.Breakpoint.Firsts
import MachineInterface.Proofs.Breakpoint.Tables
import MachineInterface.Proofs.Breakpoint.Turnover
import MachineInterface.Proofs.Config.ShellWords
import MachineInterface.Proofs.Exchange.Answers
import MachineInterface.Proofs.Exchange.Effect
import MachineInterface.Proofs.Exchange.FirstAnswers
import MachineInterface.Proofs.Exchange.History
import MachineInterface.Proofs.Exchange.Numbers
import MachineInterface.Proofs.Exchange.Serving
import MachineInterface.Proofs.Exchange.Tickets
import MachineInterface.Proofs.Line.Chunks
import MachineInterface.Proofs.Line.Cuts
import MachineInterface.Proofs.Line.Flush
import MachineInterface.Proofs.Line.Split
import MachineInterface.Proofs.LogPoint.Filling
import MachineInterface.Proofs.LogPoint.Ledger
import MachineInterface.Proofs.LogPoint.Shares
import MachineInterface.Proofs.LogPoint.Windows
import MachineInterface.Proofs.Memory.Pages
import MachineInterface.Proofs.Memory.References
import MachineInterface.Proofs.Record.Arguments
import MachineInterface.Proofs.Record.Grammar
import MachineInterface.Proofs.Record.Printing
import MachineInterface.Proofs.Record.Reading
import MachineInterface.Proofs.Record.Replies
import MachineInterface.Proofs.Record.Texts
import MachineInterface.Proofs.Sequence
import MachineInterface.Proofs.Session.Accepting
import MachineInterface.Proofs.Session.Adding
import MachineInterface.Proofs.Session.Asking
import MachineInterface.Proofs.Session.Booking
import MachineInterface.Proofs.Session.Calls
import MachineInterface.Proofs.Session.Clearing
import MachineInterface.Proofs.Session.Closing
import MachineInterface.Proofs.Session.Completing
import MachineInterface.Proofs.Session.Concluding
import MachineInterface.Proofs.Session.Conduct
import MachineInterface.Proofs.Session.Deeds
import MachineInterface.Proofs.Session.Deleting
import MachineInterface.Proofs.Session.Dialogue
import MachineInterface.Proofs.Session.Ending
import MachineInterface.Proofs.Session.Inquiring
import MachineInterface.Proofs.Session.Reversing
import MachineInterface.Proofs.Session.Ensemble
import MachineInterface.Proofs.Session.Faults
import MachineInterface.Proofs.Session.Filing
import MachineInterface.Proofs.Session.Finales
import MachineInterface.Proofs.Session.Frame
import MachineInterface.Proofs.Session.Framing
import MachineInterface.Proofs.Session.Gathering
import MachineInterface.Proofs.Session.Growth
import MachineInterface.Proofs.Session.Hearing
import MachineInterface.Proofs.Session.Inserting
import MachineInterface.Proofs.Session.Installing
import MachineInterface.Proofs.Session.Interleaving
import MachineInterface.Proofs.Session.Listing
import MachineInterface.Proofs.Session.Loading
import MachineInterface.Proofs.Session.Operations
import MachineInterface.Proofs.Session.Outset
import MachineInterface.Proofs.Session.Quitting
import MachineInterface.Proofs.Session.Reading
import MachineInterface.Proofs.Session.Refusing
import MachineInterface.Proofs.Session.Reports
import MachineInterface.Proofs.Session.RunState
import MachineInterface.Proofs.Session.Scoping
import MachineInterface.Proofs.Session.Sections
import MachineInterface.Proofs.Session.SettingUp
import MachineInterface.Proofs.Session.Splicing
import MachineInterface.Proofs.Session.Starting
import MachineInterface.Proofs.Session.Tallying
import MachineInterface.Proofs.Session.Tidy
import MachineInterface.Proofs.Session.Together
import MachineInterface.Proofs.Session.Unexpected
import MachineInterface.Proofs.Session.Upholding
import MachineInterface.Proofs.Session.Waiting
import MachineInterface.Proofs.Text.CString
import MachineInterface.Proofs.Text.Digits
import MachineInterface.Proofs.Text.Encoded
import MachineInterface.Proofs.Text.Unbroken
import MachineInterface.Proofs.Text.Utf8
import MachineInterface.Proofs.Variable.Handles
import MachineInterface.Proofs.Variable.Locals
import MachineInterface.Record.Answer
import MachineInterface.Record.Basic
import MachineInterface.Record.Path
import MachineInterface.Record.Printer
import MachineInterface.Record.Reader
import MachineInterface.Record.Value
import MachineInterface.Register
import MachineInterface.Rehearsal.Debugger
import MachineInterface.Rehearsal.Script
import MachineInterface.Rehearsal.Stage
import MachineInterface.Session.Breakpoints
import MachineInterface.Session.BringUp
import MachineInterface.Session.Call
import MachineInterface.Session.Command
import MachineInterface.Session.Control
import MachineInterface.Session.Dispatch
import MachineInterface.Session.Inspection
import MachineInterface.Session.Operation
import MachineInterface.Session.State
import MachineInterface.Session.Variables
import MachineInterface.Table
import MachineInterface.Text.Alphanumeric
import MachineInterface.Text.Base64
import MachineInterface.Text.Binary64
import MachineInterface.Text.Blank
import MachineInterface.Text.CString
import MachineInterface.Text.Cut
import MachineInterface.Text.JsonString
import MachineInterface.Text.Numeral
import MachineInterface.Text.Quote
import MachineInterface.Text.Utf8
import MachineInterface.Thread
import MachineInterface.Variable.Object
import MachineInterface.Variable.Registry
import MachineInterface.Variable.Row
import MachineInterface.Proofs.Memory.References
import MachineInterface.Proofs.Memory.Answers
import MachineInterface.Proofs.Variable.Changes
import MachineInterface.Proofs.Session.Updating
import MachineInterface.Proofs.Breakpoint.HitCounts
import MachineInterface.Proofs.Session.Naming
import MachineInterface.Proofs.LogPoint.Messages
import MachineInterface.Proofs.Session.Identifying
import MachineInterface.Proofs.Text.Spellings
import MachineInterface.Proofs.Record.Lookup
import MachineInterface.Proofs.Thread.Numbers
import MachineInterface.Proofs.Memory.Printed
import MachineInterface.Proofs.Session.Outcomes
import MachineInterface.Proofs.Session.Referring
