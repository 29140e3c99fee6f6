import MachineInterface.Proofs.Memory.References
import MachineInterface.Proofs.Record.Arguments

/-!
# The name of an object as an argument

The debugger reads a command as arguments with blanks between them. An argument is a bare word, or a
constant in double quotes; only a bare word can be an option.

* `read?_argument`: a quoted text is read as one argument, and what follows is read as it would be.
* `names_read_back`: the commands about an object name it, unless its name is empty.
* `empty_name_lost`: an empty name is no argument, and the next one is read in its place.
-/

namespace MachineInterface

open Text

/-! ## Reading a command -/

/-- An argument of a command, with the text that it stands for. -/
inductive Argument where
  | word (text : String)
  | quoted (text : String)
  deriving Repr, DecidableEq

namespace Argument

def text : Argument → String
  | word text => text
  | quoted text => text

/-- A bare word with a dash in front is an option. -/
def isOption : Argument → Bool
  | word text => text.toList.head? == some '-'
  | quoted _ => false

/-- Where a debugger is in a command, with what it has read of an argument. -/
inductive Place where
  | between
  | word (read : List Char)
  | quotes (read : List Char)
  | escape (read : List Char)
  | closed (body : List Char)

/-- The arguments from a place to the end. After the quotes of a constant there must be a blank. -/
def read? : Place → List Char → Option (List Argument)
  | .between, [] => some []
  | .word read, [] => some [word (String.ofList read)]
  | .quotes _, [] => none
  | .escape _, [] => none
  | .closed body, [] => some [quoted (CString.decodeChars body)]
  | .between, c :: cs =>
    if isBlank c then read? .between cs
    else if c = '"' then read? (.quotes []) cs
    else read? (.word [c]) cs
  | .word read, c :: cs =>
    if isBlank c then (read? .between cs).map (word (String.ofList read) :: ·)
    else read? (.word (read ++ [c])) cs
  | .quotes read, c :: cs =>
    if c = '"' then read? (.closed read) cs
    else if c = '\\' then read? (.escape read) cs
    else read? (.quotes (read ++ [c])) cs
  | .escape read, c :: cs => read? (.quotes (read ++ ['\\', c])) cs
  | .closed body, c :: cs =>
    if isBlank c then (read? .between cs).map (quoted (CString.decodeChars body) :: ·) else none

/-- The arguments of a command, its name included. -/
def all? (command : String) : Option (List Argument) := read? .between command.toList

variable {cs rest : List Char} {t : String}

/-! ## Words -/

theorem read?_word (h : ∀ c ∈ cs, isBlank c = false) (hrest : ∀ c ∈ rest.head?, isBlank c = true)
    (read : List Char) : read? (.word read) (cs ++ rest) =
      (read? .between rest).map (word (String.ofList (read ++ cs)) :: ·) := by
  induction cs generalizing read with
  | nil =>
    cases rest with
    | nil => simp [read?]
    | cons b rest => simp [read?, hrest b rfl]
  | cons c cs ih =>
    obtain ⟨hc, hcs⟩ := List.forall_mem_cons.mp h
    rw [List.cons_append, read?, hc, if_neg Bool.false_ne_true, ih hcs, List.append_assoc,
      List.singleton_append]

/-- A text without blanks and quotes is one word. -/
theorem read?_between_word (hne : cs ≠ []) (hquote : cs.head? ≠ some '"')
    (h : ∀ c ∈ cs, isBlank c = false) (hrest : ∀ c ∈ rest.head?, isBlank c = true) :
    read? .between (cs ++ rest) =
      (read? .between rest).map (word (String.ofList cs) :: ·) := by
  obtain ⟨c, cs, rfl⟩ := List.exists_cons_of_ne_nil hne
  obtain ⟨hc, hcs⟩ := List.forall_mem_cons.mp h
  have hnot : c ≠ '"' := fun heq => hquote (congrArg some heq)
  rw [List.cons_append, read?, hc, if_neg Bool.false_ne_true, if_neg hnot, read?_word hcs hrest,
    List.singleton_append]

/-! ## Quoted texts -/

theorem read?_escapeChar (c : Char) (read rest : List Char) :
    read? (.quotes read) (Quote.escapeChar c ++ rest) =
      read? (.quotes (read ++ Quote.escapeChar c)) rest := by
  unfold Quote.escapeChar
  split
  · simp [read?]
  · rename_i h
    obtain ⟨hb, hq⟩ := not_or.mp h
    simp [read?, hb, hq]

theorem read?_escapeChars (cs read rest : List Char) :
    read? (.quotes read) (cs.flatMap Quote.escapeChar ++ '"' :: rest) =
      read? (.closed (read ++ cs.flatMap Quote.escapeChar)) rest := by
  induction cs generalizing read with
  | nil => simp [read?]
  | cons c cs ih =>
    rw [List.flatMap_cons, List.append_assoc, read?_escapeChar, ih, List.append_assoc]

/-- A text in quotes is one argument, whatever its characters are. -/
theorem read?_quoted (t : String) (hrest : ∀ c ∈ rest.head?, isBlank c = true) :
    read? .between ((Quote.quoted t).toList ++ rest) =
      (read? .between rest).map (quoted t :: ·) := by
  have hblank : isBlank '"' = false := by decide
  have hdecode : CString.decodeChars (t.toList.flatMap Quote.escapeChar) = t := by
    rw [CString.decodeChars_flatMap Quote.standsFor_escapeChar, String.ofList_toList]
  rw [Quote.toList_quoted, List.cons_append, List.append_assoc, List.singleton_append, read?,
    hblank, if_neg Bool.false_ne_true, if_pos rfl, read?_escapeChars, List.nil_append]
  cases rest with
  | nil => simp [read?, hdecode]
  | cons b rest => simp [read?, hrest b rfl, hdecode]

/-! ## Texts as arguments -/

/-- The argument that stands for a text. -/
def ofText (t : String) : Argument := if Quote.isBareWord t.toList then word t else quoted t

theorem text_ofText (t : String) : (ofText t).text = t := by
  unfold ofText
  split
  · rfl
  · rfl

theorem isOption_ofText (t : String) : (ofText t).isOption = false := by
  unfold ofText
  split
  · rename_i h
    simp only [Quote.isBareWord, Bool.and_eq_true, bne_iff_ne] at h
    simpa [isOption] using h.1
  · rfl

theorem isBlank_of_isPlain {c : Char} (h : Quote.isPlain c = true) : isBlank c = false := by
  have hmarks : isBlank '_' = false ∧ isBlank '/' = false ∧ isBlank '-' = false ∧
      isBlank '.' = false := by decide
  obtain ⟨hunderscore, hslash, hdash, hdot⟩ := hmarks
  simp only [Quote.isPlain, Bool.or_eq_true, beq_iff_eq] at h
  obtain (((h | rfl) | rfl) | rfl) | rfl := h
  · exact isBlank_of_isAlphanumeric h
  · exact hunderscore
  · exact hslash
  · exact hdash
  · exact hdot

/-- A text that is not empty is read as one argument, and what follows is read as it would be. -/
theorem read?_argument (hne : t ≠ "") (hrest : ∀ c ∈ rest.head?, isBlank c = true) :
    read? .between ((Quote.argument t).toList ++ rest) =
      (read? .between rest).map (ofText t :: ·) := by
  unfold Quote.argument ofText
  split
  · rename_i h
    have hplain : ∀ c ∈ t.toList, Quote.isPlain c = true :=
      List.all_eq_true.mp (Bool.and_eq_true_iff.mp h).2
    have hnil : t.toList ≠ [] := by simpa using hne
    have hquote : t.toList.head? ≠ some '"' := fun hhead =>
      absurd (hplain '"' (List.mem_of_mem_head? hhead)) (by decide)
    rw [read?_between_word hnil hquote (fun c hc => isBlank_of_isPlain (hplain c hc)) hrest,
      String.ofList_toList]
  · exact read?_quoted t hrest

/-! ## Words in front -/

/-- Whether a text is read as one bare word. -/
def isWord (t : String) : Bool :=
  t.toList.head?.any (· != '"') && t.toList.all (!isBlank ·)

/-- Words at the start of a command, each with a blank after it. -/
theorem read?_words {front : List String} (hfront : front.all isWord = true) (cs : List Char) :
    read? .between (front.flatMap (·.toList ++ [' ']) ++ cs) =
      (read? .between cs).map (front.map word ++ ·) := by
  induction front with
  | nil => simp
  | cons t front ih =>
    obtain ⟨ht, hfront⟩ : isWord t = true ∧ front.all isWord = true := by simpa using hfront
    obtain ⟨hhead, hblank⟩ := Bool.and_eq_true_iff.mp ht
    have hne : t.toList ≠ [] := by
      intro hnil
      rw [hnil] at hhead
      cases hhead
    have hquote : t.toList.head? ≠ some '"' := by
      intro hfirst
      rw [hfirst] at hhead
      cases hhead
    have hspace : read? .between (' ' :: (front.flatMap (·.toList ++ [' ']) ++ cs)) =
        read? .between (front.flatMap (·.toList ++ [' ']) ++ cs) := rfl
    rw [List.flatMap_cons, List.append_assoc, List.append_assoc, List.singleton_append,
      read?_between_word hne hquote (fun c hc => by simpa using List.all_eq_true.mp hblank c hc)
        (by rintro c ⟨⟩; rfl), hspace, ih hfront, String.ofList_toList, Option.map_map]
    rfl

end Argument

/-! ## Commands about an object -/

namespace Session

variable {α : Type} {name command : String}

/-- A call asks the debugger one thing. -/
structure AsksFor (c : CallM α) (command : String) : Prop where
  /-- A debugger that reads is asked at once. -/
  asks : ∀ s : Session, s.link = .open →
    (c.run.stride s).2.outbox = s.outbox ++ [.command s.exchange.freeToken command]
  /-- Nothing else is written, whatever happens between its sections. -/
  only : ∀ us, ∀ o ∈ c.run.written us, ∃ token, o = .command token command

theorem asksFor_bind {f : ResultRecord → CallM α}
    (hf : ∀ answer, (f answer).Writes (fun _ => True) (· = command) fun _ => True) :
    AsksFor (CallM.ask command >>= f) command where
  asks s hs := by
    have hstride : ((CallM.ask command >>= f).run.stride s).2 = (s.issue command false).2 := rfl
    rw [hstride, issue_of_open hs]
  only us o ho := by
    have hwrites : (CallM.ask command >>= f).Writes (fun _ => True) (· = command) fun _ => True :=
      CallM.writes_bind (CallM.writes_ask rfl) fun answer _ => hf answer
    obtain ⟨token, text, rfl, rfl⟩ := hwrites.written (fun _ _ => trivial) o ho
    exact ⟨token, rfl⟩

/-- A call asks one thing only. -/
theorem AsksFor.unique {c : CallM α} {other : String} (h : AsksFor c command)
    (h' : AsksFor c other) : command = other := by
  have hboth := (h.asks { link := .open } rfl).symm.trans (h'.asks { link := .open } rfl)
  simpa using hboth

theorem asksFor_updateVariable (name : String) :
    AsksFor (updateVariable name) ("var-update --all-values " ++ Quote.argument name) :=
  asksFor_bind fun _ => CallM.writes_lift fun _ _ => ⟨.of_outbox_eq rfl, trivial⟩

theorem asksFor_listChildren (name : String) :
    AsksFor (listChildren name) ("var-list-children --all-values " ++ Quote.argument name) :=
  asksFor_bind fun _ => CallM.writes_pure trivial

theorem asksFor_assignVariable (name expression : String) :
    AsksFor (assignVariable name expression)
      ("var-assign " ++ Quote.argument name ++ " " ++ expression) :=
  asksFor_bind fun _ => CallM.writes_except fun _ _ => trivial

theorem asksFor_evaluateVariable (name : String) :
    AsksFor (evaluateVariable name) ("var-evaluate-expression " ++ Quote.argument name) :=
  asksFor_bind fun _ => CallM.writes_except fun _ _ => trivial

/-- The command of a call is read as some words, one argument for a name, and what follows it. -/
def ReadBack (c : CallM α) (front : List String) (name following : String) : Prop :=
  ∃ command argument, AsksFor c command ∧ argument.text = name ∧ argument.isOption = false ∧
    Argument.all? command =
      (Argument.all? following).map fun rest => front.map .word ++ argument :: rest

/-- The commands about an object name it. -/
structure NamedInAll (name : String) : Prop where
  update : ReadBack (updateVariable name) ["var-update", "--all-values"] name ""
  children : ReadBack (listChildren name) ["var-list-children", "--all-values"] name ""
  assign : ∀ expression, ReadBack (assignVariable name expression) ["var-assign"] name expression
  evaluate : ReadBack (evaluateVariable name) ["var-evaluate-expression"] name ""

section

variable {c : CallM α} {front : List String} {following : String}

theorem readBack_of_asksFor (rest : List Char) (h : AsksFor c command) (hname : name ≠ "")
    (htext : command.toList =
      front.flatMap (·.toList ++ [' ']) ++ ((Quote.argument name).toList ++ rest))
    (hfront : front.all Argument.isWord = true) (hrest : ∀ c ∈ rest.head?, isBlank c = true)
    (hfollowing : Argument.read? .between rest = Argument.all? following) :
    ReadBack c front name following := by
  refine ⟨command, .ofText name, h, Argument.text_ofText name, Argument.isOption_ofText name, ?_⟩
  rw [Argument.all?, htext, Argument.read?_words hfront, Argument.read?_argument hname hrest,
    hfollowing, Option.map_map]
  rfl

end

theorem namedInAll_of_ne (hname : name ≠ "") : NamedInAll name where
  update := readBack_of_asksFor [] (asksFor_updateVariable name) hname
    (by simp) (by decide) (by simp) rfl
  children := readBack_of_asksFor [] (asksFor_listChildren name) hname
    (by simp) (by decide) (by simp) rfl
  assign expression :=
    readBack_of_asksFor (' ' :: expression.toList) (asksFor_assignVariable name expression)
      hname (by simp) (by decide) (by rintro c ⟨⟩; rfl) rfl
  evaluate := readBack_of_asksFor [] (asksFor_evaluateVariable name) hname
    (by simp) (by decide) (by simp) rfl

theorem not_namedInAll_empty : ¬ NamedInAll "" := by
  intro h
  obtain ⟨command, argument, hasks, -, -, hread⟩ := h.evaluate
  obtain rfl := hasks.unique (asksFor_evaluateVariable "")
  have hwords : Argument.all? ("var-evaluate-expression " ++ Quote.argument "") =
    some [.word "var-evaluate-expression"] := by decide
  rw [hwords] at hread
  cases hread

/-- Every name but the empty one is read as one argument, in all commands about an object. -/
theorem names_read_back (name : String) : NamedInAll name ↔ name ≠ "" := by
  refine ⟨?_, namedInAll_of_ne⟩
  rintro h rfl
  exact not_namedInAll_empty h

/-- With an empty name, what is assigned is read as the object to assign to. -/
theorem empty_name_lost :
    AsksFor (assignVariable "" "5") "var-assign  5" ∧
      Argument.all? "var-assign  5" = some [.word "var-assign", .word "5"] ∧
      ¬ ReadBack (assignVariable "" "5") ["var-assign"] "" "5" := by
  have hasks : AsksFor (assignVariable "" "5") "var-assign  5" := asksFor_assignVariable "" "5"
  have hwords : Argument.all? "var-assign  5" = some [.word "var-assign", .word "5"] := by decide
  refine ⟨hasks, hwords, ?_⟩
  rintro ⟨command, argument, h, -, -, hread⟩
  obtain rfl := h.unique hasks
  rw [hwords] at hread
  cases hread

end Session

end MachineInterface
