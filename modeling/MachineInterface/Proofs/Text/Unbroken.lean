import MachineInterface.Breakpoint.Basic
import MachineInterface.LogPoint.Template
import MachineInterface.Memory.Address
import MachineInterface.Session.Command

/-!
# Texts without line breaks

A reader of lines ends a line at a newline and drops carriage returns at its end. What is done to a
text before it becomes part of a command neither adds such characters nor takes any away.

* `unbroken_quoted`, `unbroken_userInput`: quoting keeps the line breaks of a text.
* `unbroken_breakCommands`: only a placeholder in one line is printed, whatever the message says.
-/

namespace MachineInterface

namespace Text

/-- Whether a reader of lines takes a character for the end of a line or for a part of it. -/
def isBreak (c : Char) : Bool := c == '\n' || c == '\r'

/-- A text that stays in one line. -/
def Unbroken (s : String) : Prop := ∀ c ∈ s.toList, isBreak c = false

instance (s : String) : Decidable (Unbroken s) :=
  List.decidableBAll (fun c => isBreak c = false) s.toList

variable {s t : String} {cs : List Char}

theorem unbroken_iff : Unbroken s ↔ '\n' ∉ s.toList ∧ '\r' ∉ s.toList := by
  simp only [Unbroken, isBreak, Bool.or_eq_false_iff, beq_eq_false_iff_ne]
  constructor
  · exact fun h => ⟨fun hmem => (h _ hmem).1 rfl, fun hmem => (h _ hmem).2 rfl⟩
  · rintro ⟨hnewline, hreturn⟩ c hc
    exact ⟨fun h => hnewline (h ▸ hc), fun h => hreturn (h ▸ hc)⟩

@[simp] theorem unbroken_append : Unbroken (s ++ t) ↔ Unbroken s ∧ Unbroken t := by
  simp only [Unbroken, String.toList_append, List.forall_mem_append]

@[simp] theorem unbroken_ofList : Unbroken (String.ofList cs) ↔ ∀ c ∈ cs, isBreak c = false := by
  rw [Unbroken, String.toList_ofList]

theorem unbroken_join {texts : List String} (h : ∀ t ∈ texts, Unbroken t) :
    Unbroken (String.join texts) := by
  rw [Unbroken, String.toList_join]
  intro c hc
  obtain ⟨t, ht, hct⟩ := List.mem_flatMap.mp hc
  exact h t ht c hct

/-! ## Numbers -/

theorem isBreak_digitChar : ∀ n < 16, isBreak (Nat.digitChar n) = false := by decide

@[simp] theorem unbroken_repr (n : Nat) : Unbroken n.repr := by
  change Unbroken (String.ofList (Nat.toDigits 10 n))
  have hdigit (d : Nat) (hd : d < 10) := isBreak_digitChar d (by omega)
  exact unbroken_ofList.mpr (Numeral.forall_mem_toDigits (by omega) hdigit n)

theorem isBreak_hexPadded (width n : Nat) :
    ∀ c ∈ Numeral.hexPadded width n, isBreak c = false :=
  Numeral.forall_mem_hexPadded isBreak_digitChar width n

/-! ## Quoting -/

/-- Writing each character in another way keeps line breaks if it keeps those of each character. -/
theorem isBreak_flatMap {f : Char → List Char}
    (hf : ∀ c, (∀ x ∈ f c, isBreak x = false) ↔ isBreak c = false) :
    (∀ c ∈ cs.flatMap f, isBreak c = false) ↔ ∀ c ∈ cs, isBreak c = false := by
  simp only [List.mem_flatMap, forall_exists_index, and_imp]
  constructor
  · exact fun h c hc => (hf c).mp fun x hx => h x c hc hx
  · exact fun h x c hc hx => (hf c).mpr (h c hc) x hx

theorem isBreak_escapeChar (c : Char) :
    (∀ x ∈ Quote.escapeChar c, isBreak x = false) ↔ isBreak c = false := by
  unfold Quote.escapeChar
  split
  · have hbackslash : isBreak '\\' = false := rfl
    simp [hbackslash]
  · simp

@[simp] theorem unbroken_escape : Unbroken (Quote.escape s) ↔ Unbroken s := by
  rw [Quote.escape, unbroken_ofList, Quote.escapeChars, isBreak_flatMap isBreak_escapeChar,
    Unbroken]

@[simp] theorem unbroken_quoted : Unbroken (Quote.quoted s) ↔ Unbroken s := by
  have hmark : Unbroken "\"" := by decide
  simp [Quote.quoted, hmark]

@[simp] theorem unbroken_argument : Unbroken (Quote.argument s) ↔ Unbroken s := by
  unfold Quote.argument
  split
  · rfl
  · exact unbroken_quoted

theorem isBreak_consoleChar (c : Char) :
    (∀ x ∈ Command.consoleChar c, isBreak x = false) ↔ isBreak c = false := by
  unfold Command.consoleChar
  split
  · have hbackslash : isBreak '\\' = false := rfl
    simp [hbackslash]
  · simp

end Text

open Text

/-! ## Parts of commands -/

@[simp] theorem Command.unbroken_frameOptions (thread level : UInt32) :
    Unbroken (Command.frameOptions thread level) := by
  have hparts : Unbroken "" ∧ Unbroken "--thread " ∧ Unbroken " --frame " ∧ Unbroken " " := by
    decide
  unfold frameOptions
  split <;> simp [hparts]

theorem Command.unbroken_ofInput {text : String} (h : Unbroken text) :
    Unbroken (Command.ofInput text) := by
  rw [ofInput, unbroken_ofList]
  unfold dropDash
  split
  · rename_i rest hrest
    exact fun c hc => h c (hrest ▸ List.mem_cons_of_mem _ hc)
  · exact h

/-- A line that a user types becomes a command in one line exactly if it is one itself. -/
theorem Command.unbroken_userInput {text : String} {thread level : UInt32} :
    Unbroken (Command.userInput text thread level) ↔ Unbroken text := by
  have hparts : Unbroken "interpreter-exec " ∧ Unbroken "console \"" ∧ Unbroken "\"" := by decide
  unfold userInput
  split
  · rename_i rest hrest
    have hdash : isBreak '-' = false := rfl
    rw [unbroken_ofList, Unbroken, hrest, List.forall_mem_cons, and_iff_right hdash]
  · rw [unbroken_append, unbroken_append, unbroken_ofList, isBreak_flatMap isBreak_consoleChar,
      ← Unbroken]
    simp [hparts]

theorem Target.unbroken_join {directory path : String} (hd : Unbroken directory)
    (hp : Unbroken path) : Unbroken (Target.join directory path) := by
  have htrailing : ∀ separator : Char → Bool,
      ∀ c ∈ Target.dropTrailing separator directory.toList, isBreak c = false := by
    intro separator c hc
    have hmem := (List.dropWhile_sublist _).subset (List.mem_reverse.mp hc)
    exact hd c (List.mem_reverse.mp hmem)
  have hslash : isBreak '/' = false := rfl
  have hbackslash : isBreak '\\' = false := rfl
  rw [Target.join, unbroken_ofList, Target.joinChars]
  split
  · split
    · exact hp
    · exact List.forall_mem_append.mpr
        ⟨htrailing _, List.forall_mem_cons.mpr ⟨hslash, hp⟩⟩
  · split
    · exact hp
    · exact List.forall_mem_append.mpr
        ⟨htrailing _, List.forall_mem_cons.mpr ⟨hbackslash, hp⟩⟩

/-- The text of a location. -/
def Location.text : Location → String
  | .raw text => text
  | .source file _ => file

@[simp] theorem Location.unbroken_argument {l : Location} :
    Unbroken l.argument ↔ Unbroken l.text := by
  have hmark : Unbroken "\"" := by decide
  have hcolon : Unbroken ":" := by decide
  cases l with
  | raw text => exact unbroken_quoted
  | source file line => simp [Location.argument, Location.text, hmark, hcolon]

theorem HitPolicy.unbroken_modifiers (p : HitPolicy) : Unbroken p.modifiers := by
  have hparts :
      Unbroken "" ∧ Unbroken "-i " ∧ Unbroken "-t -i " ∧ Unbroken " " ∧ Unbroken "-t " := by
    decide
  unfold modifiers
  split
  · simp [hparts]
  · split <;> simp [hparts]
  · simp [hparts]

/-- An insert is a command in one line exactly if its location has no line break. -/
theorem unbroken_insertCommand {l : Location} {policy : Option HitPolicy} :
    Unbroken (insertCommand l policy) ↔ Unbroken l.text := by
  have hinsert : Unbroken "break-insert -f " := by decide
  have hmodifiers : Unbroken ((policy.map HitPolicy.modifiers).getD "") := by
    cases policy with
    | none => decide
    | some p => exact p.unbroken_modifiers
  have hstart := unbroken_append.mpr ⟨hinsert, hmodifiers⟩
  unfold insertCommand
  rw [unbroken_append, and_iff_right hstart, Location.unbroken_argument]

theorem Address.unbroken_readCommand (a count : UInt64) :
    Unbroken (Address.readCommand a count) := by
  have hparts : Unbroken "data-read-memory-bytes 0x" ∧ Unbroken " " := by decide
  have hhex : Unbroken (String.ofList (Numeral.hexPadded 16 a.toNat)) :=
    unbroken_ofList.mpr (isBreak_hexPadded 16 _)
  unfold readCommand
  simp [hparts, hhex]

/-! ## Log points -/

namespace LogTemplate

theorem isBreak_of_isPrintableChar {c : Char} (h : isPrintableChar c = true) :
    isBreak c = false := by
  simp only [isBreak, Bool.or_eq_false_iff, beq_eq_false_iff_ne]
  constructor
  · rintro rfl
    exact absurd h (by decide)
  · rintro rfl
    exact absurd h (by decide)

theorem unbroken_expressions (cs : List Char) : ∀ e ∈ (ofChars cs).expressions, Unbroken e := by
  fun_induction ofChars cs with
  | case1 => simp
  | case2 cs content after _ _ hprintable ih =>
    have hall : content.all isPrintableChar = true := (Bool.and_eq_true_iff.mp hprintable).2
    refine List.forall_mem_cons.mpr ⟨unbroken_ofList.mpr fun c hc => ?_, ih⟩
    exact isBreak_of_isPrintableChar (List.all_eq_true.mp hall c hc)
  | case3 cs content after _ _ _ ih => exact ih
  | case4 cs _ ih => exact ih
  | case5 c cs _ ih => exact ih

/-- Only a placeholder in one line is printed, whatever the message says. -/
theorem unbroken_breakCommands (message : String) (id : UInt32) :
    Unbroken ((ofMessage message).breakCommands id) := by
  have hparts : Unbroken "break-commands " ∧ Unbroken " \"print " ∧ Unbroken "\"" := by decide
  unfold breakCommands
  have hstart := unbroken_append.mpr ⟨hparts.1, unbroken_repr id.toNat⟩
  refine unbroken_append.mpr ⟨hstart, unbroken_join fun t ht => ?_⟩
  obtain ⟨e, he, rfl⟩ := List.mem_map.mp ht
  have hexpression := unbroken_escape.mpr (unbroken_expressions _ e he)
  exact unbroken_append.mpr ⟨unbroken_append.mpr ⟨hparts.2.1, hexpression⟩, hparts.2.2⟩

end LogTemplate

end MachineInterface
