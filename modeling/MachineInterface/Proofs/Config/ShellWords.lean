import MachineInterface.Config.Command

/-!
# What a shell reads in the debugger's command line

A shell reads words with blanks between them. Single quotes hold everything up to the next single
quote, and outside of them a backslash quotes the character after it. A character that makes a shell
do anything more is refused here unless it is quoted.

* `read?_quoteChars`: a shell reads a quoted text as that text.
* `words?_line`: a line is read as the texts it was made of.
* `words?_shellCommand`: the debugger's command line is read as its program and arguments.
-/

namespace MachineInterface.Shell

/-! ## Reading a line -/

def isBlank (c : Char) : Bool := c == ' ' || c == '\t'

/-- Whether a shell does more with a character than read it. -/
def isSpecial (c : Char) : Bool := "|&;<>()$`\"\n*?[#~".toList.contains c

/-- Where a shell is in a line, with what it has read of a word. -/
inductive Place
  | between
  | word (read : List Char)
  | escape (read : List Char)
  | quotes (read : List Char)

/-- Where a character leads that stands in a word and in no quotes. -/
def Place.next? (read : List Char) (c : Char) : Option Place :=
  if c = '\'' then some (.quotes read)
  else if c = '\\' then some (.escape read)
  else if isSpecial c then none
  else some (.word (read ++ [c]))

/-- The words that a shell reads from a place to the line's end. -/
def read? : Place → List Char → Option (List (List Char))
  | .between, [] => some []
  | .word read, [] => some [read]
  | .escape _, [] => none
  | .quotes _, [] => none
  | .between, c :: cs =>
    if isBlank c then read? .between cs else (Place.next? [] c).bind (read? · cs)
  | .word read, c :: cs =>
    if isBlank c then (read? .between cs).map (read :: ·)
    else (Place.next? read c).bind (read? · cs)
  | .escape read, c :: cs => read? (.word (read ++ [c])) cs
  | .quotes read, c :: cs =>
    if c = '\'' then read? (.word read) cs else read? (.quotes (read ++ [c])) cs

/-- The words of a line, if all it takes to read it is to split it and to remove the quotes. -/
def words? (line : String) : Option (List String) :=
  (read? .between line.toList).map (·.map String.ofList)

/-! ## Quoted texts -/

/-- The characters that a shell does not simply read. -/
def marks : List Char := ' ' :: '\t' :: '\'' :: '\\' :: "|&;<>()$`\"\n*?[#~".toList

theorem not_mem_marks {c : Char} (h : isPlain c = true) : c ∉ marks := by
  have hmarks : marks.all (!isPlain ·) = true := by decide +kernel
  intro hc
  have hnot := List.all_eq_true.mp hmarks c hc
  rw [h] at hnot
  cases hnot

theorem isBlank_of_isPlain {c : Char} (h : isPlain c = true) : isBlank c = false := by
  have hmarks := not_mem_marks h
  simp_all [isBlank, marks]

theorem next?_of_isPlain {c : Char} (h : isPlain c = true) (read : List Char) :
    Place.next? read c = some (.word (read ++ [c])) := by
  have hmarks := not_mem_marks h
  simp_all [Place.next?, isSpecial, marks]

theorem read?_word_plain {cs : List Char} (h : cs.all isPlain = true) (read rest : List Char) :
    read? (.word read) (cs ++ rest) = read? (.word (read ++ cs)) rest := by
  induction cs generalizing read with
  | nil => simp
  | cons c cs ih =>
    obtain ⟨hc, hcs⟩ : isPlain c = true ∧ cs.all isPlain = true := by simpa using h
    simp [read?, isBlank_of_isPlain hc, next?_of_isPlain hc, ih hcs]

/-- Between quotes a character is read as itself, a single quote through an escape outside of them. -/
theorem read?_quoteChar (c : Char) (read rest : List Char) :
    read? (.quotes read) (quoteChar c ++ rest) = read? (.quotes (read ++ [c])) rest := by
  by_cases hc : c = '\''
  · subst hc
    simp [quoteChar, read?, isBlank, Place.next?]
  · simp [quoteChar, read?, hc]

theorem read?_flatMap_quoteChar (cs read rest : List Char) :
    read? (.quotes read) (cs.flatMap quoteChar ++ '\'' :: rest) = read? (.word (read ++ cs)) rest := by
  induction cs generalizing read with
  | nil => simp [read?]
  | cons c cs ih =>
    rw [List.flatMap_cons, List.append_assoc, read?_quoteChar, ih, List.append_assoc,
      List.singleton_append]

/-- A shell reads a quoted text as that text, whatever follows. -/
theorem read?_quoteChars (cs rest : List Char) :
    read? .between (quoteChars cs ++ rest) = read? (.word cs) rest := by
  unfold quoteChars
  split
  · rename_i h
    obtain ⟨hne, hplain⟩ := h
    cases cs with
    | nil => contradiction
    | cons c cs =>
      obtain ⟨hc, hcs⟩ : isPlain c = true ∧ cs.all isPlain = true := by simpa using hplain
      have hword := read?_word_plain hcs [c] rest
      simpa [read?, isBlank_of_isPlain hc, next?_of_isPlain hc] using hword
  · have hquotes := read?_flatMap_quoteChar cs [] rest
    simpa [read?, isBlank, Place.next?] using hquotes

/-! ## Lines -/

theorem read?_intercalate (words : List (List Char)) :
    read? .between ([' '].intercalate (words.map quoteChars)) = some words := by
  induction words with
  | nil => rfl
  | cons word words ih =>
    cases words with
    | nil => simpa [read?] using read?_quoteChars word []
    | cons other words =>
      rw [List.map_cons] at ih
      rw [List.map_cons, List.map_cons, List.intercalate_cons_cons, List.append_assoc,
        read?_quoteChars]
      simp [read?, isBlank, ih]

/-- A shell reads a line as the texts it was made of. -/
theorem words?_line (words : List String) : words? (line words) = some words := by
  have hline : (line words).toList = [' '].intercalate ((words.map String.toList).map quoteChars) := by
    simp [line, quote, String.toList_intercalate, Function.comp_def]
  rw [words?, hline, read?_intercalate, Option.map_some, List.map_map]
  simp [Function.comp_def]

/--
A shell reads the debugger's command line as the debugger's program and its arguments, word for word,
and comes upon nothing else to do.
-/
theorem words?_shellCommand (d : DebuggerConfig) (trailing : List String) :
    words? (d.shellCommand trailing) = some (d.program :: d.argv trailing) := words?_line _

/-- Texts that a shell would take apart come through whole, and one that is not quoted does not. -/
example : words? (line ["", "a b", "it's", "\\n$HOME\n"]) = some ["", "a b", "it's", "\\n$HOME\n"] ∧
    words? "echo $HOME" = none := by
  decide +kernel

end MachineInterface.Shell
