import MachineInterface.Proofs.Session.Interleaving
import MachineInterface.Session.Variables

/-!
# What the expansion of a scope writes

The locals of a scope are listed, brought up to date or created, and described, with one command
after the other. Between two of these the debugger and other calls may do what they like.

* `Writes.written`: what a call writes, whatever happens between its sections.
* `written_locals`: each command that evaluates something is placed in the frame of the scope, but
  for those that ask for the address of an array.
-/

namespace MachineInterface

open Text

/-- Commands are added to what was written, of which each text is as it should be. -/
def Session.Says (said : String → Prop) (s u : Session) : Prop :=
  ∃ more, u.outbox = s.outbox ++ more ∧
    ∀ o ∈ more, ∃ token text, o = .command token text ∧ said text

namespace Session

variable {said : String → Prop} {s u : Session}

theorem Says.of_outbox_eq (h : u.outbox = s.outbox) : Says said s u :=
  ⟨[], by rw [h, List.append_nil], fun o ho => absurd ho List.not_mem_nil⟩

theorem says_issue {command : String} (h : said command) (s : Session) (tolerant : Bool) :
    Says said s (s.issue command tolerant).2 := by
  unfold issue
  split
  · exact .of_outbox_eq rfl
  · exact .of_outbox_eq rfl
  · refine ⟨[.command s.exchange.freeToken command], rfl, fun o ho => ?_⟩
    exact ⟨_, command, List.mem_singleton.mp ho, h⟩
  · exact .of_outbox_eq rfl

end Session

open Session (Says says_issue)

namespace Call

variable {α β : Type}

/-- What a call writes that goes on in each of some sessions. -/
def written : Call α → List Session → List Outgoing
  | _, [] => []
  | c, u :: us => (c.stride u).2.outbox.drop u.outbox.length ++ (c.stride u).1.written us

/--
A call writes certain commands only and gives what is promised, if it meets with certain sessions
only. One section may find the session quite different from how another left it.
-/
def Writes (met : Session → Prop) (said : String → Prop) (post : α → Prop) : Call α → Prop
  | done a => post a
  | step run next => ∀ u, met u → Says said u (run u).2 ∧ (next (run u).1).Writes met said post
  | reply ticket _ next => ∀ u r, met u → u.exchange.reply? ticket = some r →
    (next r).Writes met said post
  | ending _ next => (next true).Writes met said post

variable {met : Session → Prop} {said : String → Prop} {post : α → Prop} {c : Call α}

theorem Writes.stride (h : c.Writes met said post) {u : Session} (hu : met u) :
    Says said u (c.stride u).2 ∧ (c.stride u).1.Writes met said post := by
  cases c with
  | done a => exact ⟨.of_outbox_eq rfl, h⟩
  | step run next => exact h u hu
  | reply ticket release next =>
    cases hr : u.exchange.reply? ticket with
    | none =>
      simp only [Call.stride, hr]
      exact ⟨.of_outbox_eq rfl, h⟩
    | some r =>
      simp only [Call.stride, hr]
      exact ⟨.of_outbox_eq rfl, h u r hu hr⟩
  | ending patient next =>
    refine ⟨.of_outbox_eq rfl, ?_⟩
    unfold Call.stride
    dsimp only
    split
    · exact h
    · exact h

/-- Whatever happens between its sections, a call writes what it may. -/
theorem Writes.written (h : c.Writes met said post) {us : List Session} (hus : ∀ u ∈ us, met u) :
    ∀ o ∈ c.written us, ∃ token text, o = .command token text ∧ said text := by
  induction us generalizing c with
  | nil => exact fun o ho => absurd ho List.not_mem_nil
  | cons u us ih =>
    obtain ⟨hu, hus⟩ := List.forall_mem_cons.mp hus
    obtain ⟨⟨more, hmore, hsaid⟩, hrest⟩ := h.stride hu
    intro o ho
    rw [Call.written, hmore, List.drop_left] at ho
    rcases List.mem_append.mp ho with ho | ho
    · exact hsaid o ho
    · exact ih hrest hus o ho

theorem writes_bind {pre : α → Prop} {post : β → Prop} {f : α → Call β}
    (hc : c.Writes met said pre) (hf : ∀ a, pre a → (f a).Writes met said post) :
    (c.bind f).Writes met said post := by
  induction c with
  | done a => exact hf a hc
  | step run next ih => exact fun u hu => ⟨(hc u hu).1, ih _ (hc u hu).2⟩
  | reply ticket release next ih => exact fun u r hu hr => ih r (hc u r hu hr)
  | ending patient next ih => exact ih true hc

end Call

namespace CallM

variable {α β : Type} {met : Session → Prop} {said : String → Prop} {post : α → Prop}

/-- A look at the session is over at once. -/
theorem stride_read_bind (f : Session → α) (g : α → CallM β) (s : Session) :
    (read f >>= g).run.stride s = ((g (f s)).run, s) := rfl

/-- What a call that may fail writes, and what is promised of what it gives. -/
def Writes (met : Session → Prop) (said : String → Prop) (post : α → Prop) (c : CallM α) : Prop :=
  Call.Writes met said (fun r => ∀ a, r = .ok a → post a) c.run

theorem writes_pure {a : α} (h : post a) : (pure a : CallM α).Writes met said post := by
  rintro _ ⟨⟩
  exact h

theorem writes_throw (e : Error) : (throw e : CallM α).Writes met said post := by
  rintro _ ⟨⟩

theorem writes_bind {pre : α → Prop} {post : β → Prop} {c : CallM α} {f : α → CallM β}
    (hc : c.Writes met said pre) (hf : ∀ a, pre a → (f a).Writes met said post) :
    (c >>= f).Writes met said post := by
  refine Call.writes_bind hc fun r hr => ?_
  cases r with
  | ok a => exact hf a (hr a rfl)
  | error e => exact writes_throw e

theorem writes_lift {c : Call α} (hc : c.Writes met said post) :
    CallM.Writes met said post (ExceptT.lift c) := by
  refine Call.writes_bind hc fun a ha => ?_
  rintro _ ⟨⟩
  exact ha

theorem writes_attempt {c : CallM α} (hc : c.Writes met said post) :
    (attempt c).Writes met said fun r => ∀ a, r = .ok a → post a := writes_lift hc

theorem writes_read {f : Session → α} (h : ∀ u, met u → post (f u)) :
    (read f).Writes met said post := writes_lift fun u hu => ⟨.of_outbox_eq rfl, h u hu⟩

theorem writes_except {e : Except Error α} (h : ∀ a, e = .ok a → post a) :
    (liftM e : CallM α).Writes met said post := h

/-- The answer to a command was met with in a session. -/
theorem writes_send {command : String} (h : said command) (tolerant : Bool) :
    (send command tolerant).Writes met said fun answer =>
      ∃ u ticket, met u ∧ u.exchange.reply? ticket = some (.ok answer) := by
  have hissue : (locked (Session.issue command tolerant)).Writes met said fun _ => True :=
    fun u _ => ⟨says_issue h u tolerant, fun _ _ => trivial⟩
  refine writes_bind hissue fun ticket _ => ?_
  rintro u r hu hr answer rfl
  exact ⟨u, ticket, hu, hr⟩

theorem writes_ask {command : String} (h : said command) :
    (ask command).Writes met said fun answer =>
      ∃ u ticket, met u ∧ u.exchange.reply? ticket = some (.ok answer) := writes_send h false

theorem writes_mapM {f : α → CallM β} (hf : ∀ a, (f a).Writes met said fun _ => True)
    (as : List α) : (as.mapM f).Writes met said fun _ => True := by
  induction as with
  | nil => exact writes_pure trivial
  | cons a as ih =>
    rw [List.mapM_cons]
    exact writes_bind (hf a) fun _ _ => writes_bind ih fun _ _ => writes_pure trivial

end CallM

/-! ## The frame of a command -/

namespace Command

/-- The commands with which a debugger evaluates an expression or creates an object for one. -/
def evaluating : List String := ["stack-list-variables", "var-create", "data-evaluate-expression"]

/-- Whether a command makes the debugger evaluate expressions. -/
def Evaluates (text : String) : Prop := ∃ word ∈ evaluating, (word ++ " ").toList <+: text.toList

/-- Whether a command makes the debugger evaluate expressions in a frame of a thread. -/
def IsPlaced (thread level : UInt32) (text : String) : Prop :=
  ∃ word ∈ evaluating, (word ++ " --thread " ++ toString thread.toNat ++ " --frame " ++
    toString level.toNat ++ " ").toList <+: text.toList

instance (text : String) : Decidable (Evaluates text) :=
  inferInstanceAs (Decidable (∃ word ∈ evaluating, _))

instance (thread level : UInt32) (text : String) : Decidable (IsPlaced thread level text) :=
  inferInstanceAs (Decidable (∃ word ∈ evaluating, _))

variable {thread level : UInt32} {text : String}

theorem starts_append (start rest : String) : start.toList <+: (start ++ rest).toList := by
  rw [String.toList_append]
  exact List.prefix_append _ _

/-- A text that starts otherwise does not start with a word. -/
theorem not_starts {word start text : String} (ht : start.toList <+: text.toList)
    (h : ¬ word.toList <+: start.toList) (h' : ¬ start.toList <+: word.toList) :
    ¬ word.toList <+: text.toList := fun hword =>
  (List.prefix_or_prefix_of_prefix hword ht).elim h h'

/-- The word of a command that is placed in a frame is followed by an option. -/
theorem IsPlaced.exists_option (h : IsPlaced thread level text) :
    ∃ word ∈ evaluating, (word ++ " --").toList <+: text.toList := by
  obtain ⟨word, hword, hstarts⟩ := h
  refine ⟨word, hword, List.IsPrefix.trans ?_ hstarts⟩
  simp only [String.toList_append, List.append_assoc]
  rw [List.prefix_append_right_inj]
  exact List.IsPrefix.trans (by decide) (List.prefix_append _ _)

theorem not_evaluates_update (name : String) :
    ¬ Evaluates ("var-update --all-values " ++ name) := by
  rintro ⟨word, hword, hstarts⟩
  have hother : ∀ word ∈ evaluating,
      ¬ (word ++ " ").toList <+: "var-update --all-values ".toList ∧
        ¬ "var-update --all-values ".toList <+: (word ++ " ").toList := by decide
  obtain ⟨h, h'⟩ := hother word hword
  exact not_starts (starts_append _ name) h h' hstarts

/-- The command that asks for the address of an expression. -/
def addressOf (expression : String) : String :=
  "data-evaluate-expression &(" ++ (expression ++ ")")

theorem evaluate_eq_addressOf (expression : String) : "data-evaluate-expression " ++
    frameOptions 0 0 ++ ("&(" ++ expression ++ ")") = addressOf expression := by
  have hstart : "data-evaluate-expression " ++ frameOptions 0 0 ++ "&(" =
      "data-evaluate-expression &(" := by decide
  calc
    _ = "data-evaluate-expression " ++ frameOptions 0 0 ++ "&(" ++ (expression ++ ")") := by
      simp only [String.append_assoc]
    _ = addressOf expression := congrArg (· ++ (expression ++ ")")) hstart

theorem starts_addressOf (expression : String) :
    "data-evaluate-expression &(".toList <+: (addressOf expression).toList := starts_append _ _

theorem evaluates_addressOf (expression : String) : Evaluates (addressOf expression) := by
  refine ⟨"data-evaluate-expression", by decide, ?_⟩
  exact List.IsPrefix.trans (by decide) (starts_addressOf expression)

theorem not_isPlaced_addressOf (expression : String) :
    ¬ IsPlaced thread level (addressOf expression) := by
  intro hplaced
  obtain ⟨word, hword, hstarts⟩ := hplaced.exists_option
  have hother : ∀ word ∈ evaluating,
      ¬ (word ++ " --").toList <+: "data-evaluate-expression &(".toList ∧
        ¬ "data-evaluate-expression &(".toList <+: (word ++ " --").toList := by decide
  obtain ⟨h, h'⟩ := hother word hword
  exact not_starts (starts_addressOf expression) h h' hstarts

theorem isPlaced_list (thread level : UInt32) :
    IsPlaced thread level ("stack-list-variables --thread " ++ toString thread.toNat ++
      " --frame " ++ toString level.toNat ++ " --simple-values") := by
  refine ⟨"stack-list-variables", by decide, "--simple-values".toList, ?_⟩
  simp [String.toList_append]

theorem isPlaced_create (h : thread ≠ 0) (rest : String) :
    IsPlaced thread level ("var-create " ++ (frameOptions thread level ++ rest)) := by
  refine ⟨"var-create", by decide, rest.toList, ?_⟩
  rw [frameOptions, if_neg h]
  simp [String.toList_append]

end Command

namespace VariableObject

/-- Whether the value is printed as that of an array. -/
def IsArray (o : VariableObject) : Prop := ∃ x, o.memoryHint = .addressOf x

/-- An array is referred to by the address of its expression. -/
theorem memoryHint_eq_addressOf {o : VariableObject} {x : String}
    (h : o.memoryHint = .addressOf x) : x = "&(" ++ o.expression ++ ")" := by
  unfold memoryHint at h
  dsimp only at h
  repeat' split at h
  all_goals cases h
  rfl

end VariableObject

/-! ## Locals -/

namespace Session

open CallM

/-- An object that a session knows, or that an answer describes but for the expression. -/
def Shows (s : Session) (o : VariableObject) : Prop :=
  (∃ name, s.registry.byName? name = some o) ∨
    ∃ ticket answer new expression, s.exchange.reply? ticket = some (.ok answer) ∧
      VariableObject.ofValue? (.tuple answer.fields) = some new ∧ o = { new with expression }

/-- A command asks for the address of an array that one of some sessions shows. -/
def AsksAddress (us : List Session) (text : String) : Prop :=
  ∃ u ∈ us, ∃ o, u.Shows o ∧ o.IsArray ∧ text = Command.addressOf o.expression

/-- The command that lists the locals of a scope. -/
def listCommand (key : ScopeKey) : String :=
  "stack-list-variables --thread " ++ toString key.thread.toNat ++ " --frame " ++
    toString key.level.toNat ++ " --simple-values"

/-- The command that creates the object of a local. -/
def createCommand (scope : Handle) (key : ScopeKey) (name : String) : String :=
  "var-create " ++ Command.frameOptions key.thread key.level ++
    Quote.argument (objectName scope name) ++ " @ " ++ Quote.quoted name

/-- The command that brings the object of a local up to date. -/
def updateCommand (scope : Handle) (name : String) : String :=
  "var-update --all-values " ++ Quote.argument (objectName scope name)

/-- What may be written when the locals of a scope are shown. -/
inductive LocalsText (scope : Handle) (key : ScopeKey) (us : List Session) : String → Prop
  | list : LocalsText scope key us (listCommand key)
  | create (name : String) : LocalsText scope key us (createCommand scope key name)
  | update (name : String) : LocalsText scope key us (updateCommand scope name)
  | address {text : String} (h : AsksAddress us text) : LocalsText scope key us text

section

variable {scope : Handle} {key : ScopeKey} {us : List Session}

theorem writes_describe {o : VariableObject} (h : ∃ u ∈ us, u.Shows o) :
    (describe o).Writes (· ∈ us) (LocalsText scope key us) fun _ => True := by
  have hreference : (memoryReference o).Writes (· ∈ us) (LocalsText scope key us)
      fun _ => True := by
    unfold memoryReference
    cases hhint : o.memoryHint with
    | none => trivial
    | literal reference => trivial
    | addressOf x =>
      obtain ⟨u, hu, hshows⟩ := h
      have htext : LocalsText scope key us ("data-evaluate-expression " ++
          Command.frameOptions 0 0 ++ x) := by
        refine .address ⟨u, hu, o, hshows, ⟨x, hhint⟩, ?_⟩
        rw [VariableObject.memoryHint_eq_addressOf hhint]
        exact Command.evaluate_eq_addressOf o.expression
      have hevaluate : (evaluate x 0 0).Writes (· ∈ us) (LocalsText scope key us)
          fun _ => True :=
        writes_bind (writes_ask htext) fun _ _ => fun _ _ => trivial
      exact Call.writes_bind hevaluate fun _ _ => trivial
  refine Call.writes_bind hreference fun reference _ => ?_
  have htrack : (Call.locked (track o)).Writes (· ∈ us) (LocalsText scope key us) fun _ => True :=
    fun u _ => ⟨.of_outbox_eq rfl, trivial⟩
  exact Call.writes_bind htrack fun handle _ => trivial

theorem writes_refresh (name : String) :
    (refresh (objectName scope name)).Writes (· ∈ us) (LocalsText scope key us) fun found =>
      ∀ o, found = some o → ∃ u ∈ us, u.Shows o := by
  have hlook : (CallM.read (·.registry.byName? (objectName scope name))).Writes (· ∈ us)
      (LocalsText scope key us) fun found => ∀ o, found = some o → ∃ u ∈ us, u.Shows o :=
    writes_read fun u hu o ho => ⟨u, hu, .inl ⟨_, ho⟩⟩
  have hupdate : (updateVariable (objectName scope name)).Writes (· ∈ us)
      (LocalsText scope key us) fun _ => True := by
    refine writes_bind (writes_ask (.update name)) fun answer _ => ?_
    exact writes_lift fun u _ => ⟨.of_outbox_eq rfl, trivial⟩
  unfold refresh
  refine writes_bind hlook fun known _ => ?_
  split
  · refine writes_pure ?_
    rintro o ⟨⟩
  · refine writes_bind (writes_attempt hupdate) fun updated _ => ?_
    split
    · exact hlook
    · split
      · refine writes_pure ?_
        rintro o ⟨⟩
      · exact writes_throw _

theorem writes_createVariable (name : String) :
    (createVariable name (some (objectName scope name)) key.thread key.level).Writes (· ∈ us)
      (LocalsText scope key us) fun o => ∃ u ∈ us, ∃ ticket answer,
        u.exchange.reply? ticket = some (.ok answer) ∧
          VariableObject.ofValue? (.tuple answer.fields) = some o := by
  unfold createVariable
  refine writes_bind (writes_ask (.create name)) fun answer hanswer => ?_
  obtain ⟨u, ticket, hu, hr⟩ := hanswer
  split
  · rename_i o ho
    exact writes_pure ⟨u, hu, ticket, answer, hr, ho⟩
  · exact writes_throw _

theorem writes_objectOfLocal (name : String) :
    (objectOfLocal scope key name).Writes (· ∈ us) (LocalsText scope key us) fun o =>
      ∃ u ∈ us, u.Shows o := by
  unfold objectOfLocal
  refine writes_bind (writes_refresh name) fun found hfound => ?_
  split
  · exact writes_pure (hfound _ rfl)
  · refine writes_bind (writes_createVariable name) fun o ho => writes_pure ?_
    obtain ⟨u, hu, ticket, answer, hr, hobject⟩ := ho
    exact ⟨u, hu, .inr ⟨ticket, answer, o, name, hr, hobject, rfl⟩⟩

theorem writes_rowOfLocal (name : String) :
    (rowOfLocal scope key name).Writes (· ∈ us) (LocalsText scope key us) fun _ => True := by
  refine Call.writes_bind (writes_objectOfLocal name) fun r hr => ?_
  cases r with
  | ok o => exact writes_describe (hr o rfl)
  | error e => trivial

theorem writes_stackVariables (scope : Handle) (thread level : UInt32) :
    (stackVariables thread level).Writes (· ∈ us) (LocalsText scope ⟨.locals, thread, level⟩ us)
      fun _ => True := by
  unfold stackVariables
  refine writes_bind (writes_ask ?_) fun _ _ => writes_pure trivial
  exact .list

theorem writes_locals (scope : Handle) (thread level : UInt32) :
    (rowsOfScope scope ⟨.locals, thread, level⟩).Writes (· ∈ us)
      (LocalsText scope ⟨.locals, thread, level⟩ us) fun _ => True := by
  unfold rowsOfScope
  dsimp only
  refine writes_bind (writes_stackVariables scope thread level) fun vs _ => ?_
  refine writes_mapM (fun v => ?_) vs
  exact writes_lift (writes_rowOfLocal v.name)

/-- What is written for a scope is placed in its frame, unless it asks for an address. -/
theorem LocalsText.placed {thread level : UInt32} {text : String} (hthread : thread ≠ 0)
    (h : LocalsText scope ⟨.locals, thread, level⟩ us text) :
    Command.Evaluates text ∧ ¬ Command.IsPlaced thread level text ↔ AsksAddress us text := by
  constructor
  · rintro ⟨hevaluates, hplaced⟩
    cases h with
    | list => exact absurd (Command.isPlaced_list thread level) hplaced
    | create name =>
      rw [createCommand, String.append_assoc, String.append_assoc, String.append_assoc] at hplaced
      exact absurd (Command.isPlaced_create hthread _) hplaced
    | update name => exact absurd hevaluates (Command.not_evaluates_update _)
    | address h => exact h
  · rintro ⟨u, -, o, -, -, rfl⟩
    exact ⟨Command.evaluates_addressOf _, Command.not_isPlaced_addressOf _⟩

end

/--
Each command that is written when a Locals scope is expanded, and that makes the debugger evaluate
expressions, chooses the thread and the frame of the scope, except for those that ask for the
address of an array: these choose none. The expansion starts in a session in which the handle stands
for the scope. Between its sections the debugger may give any answers and other calls may change the
session in any way.
-/
theorem written_locals {s : Session} {h : Handle} {thread level : UInt32} (hthread : thread ≠ 0)
    (hscope : s.registry.entry? h = some (.scope ⟨.locals, thread, level⟩)) (us : List Session) :
    ∀ o ∈ (expand h).run.written (s :: us), ∃ token text, o = .command token text ∧
      (Command.Evaluates text ∧ ¬ Command.IsPlaced thread level text ↔
        AsksAddress (s :: us) text) := by
  have hstride : (expand h).run.stride s = ((rowsOfScope h ⟨.locals, thread, level⟩).run, s) := by
    unfold expand
    rw [stride_read_bind, hscope]
  have hwrites : (rowsOfScope h ⟨.locals, thread, level⟩).Writes (· ∈ s :: us)
      (LocalsText h ⟨.locals, thread, level⟩ (s :: us)) fun _ => True :=
    writes_locals h thread level
  rw [Call.written, hstride, List.drop_length, List.nil_append]
  intro o ho
  obtain ⟨token, text, rfl, htext⟩ :=
    Call.Writes.written hwrites (fun u hu => List.mem_cons_of_mem s hu) o ho
  exact ⟨token, text, rfl, htext.placed hthread⟩

/-- A number as a local: the list, the creation and nothing else, both in the frame of the scope. -/
theorem written_locals_number :
    let turns : List Turn := [.call (.bringUp { cwd := "/w", mode := .load "a.out" none none }),
      .call (.scopes (FrameId.pack 1 2)), .call (.expand 1),
      .news (.hear (Utf8.encode "6^done,variables=[\x7bname=\"a\"\x7d]\n")), .move 2 .resume,
      .news (.hear (Utf8.encode "7^done,name=\"var_1_a\",value=\"4\"\n")), .move 2 .resume]
    let s (n : Nat) := (Ensemble.run {} (turns.take n)).session
    let written := (expand 1).run.written [s 2, s 2, s 4, s 4, s 4, s 6, s 6]
    written = [.command 6 "stack-list-variables --thread 1 --frame 2 --simple-values",
        .command 7 "var-create --thread 1 --frame 2 var_1_a @ \"a\""] ∧
      ∀ o ∈ written, ∃ token text, o = .command token text ∧
        (Command.Evaluates text ∧ ¬ Command.IsPlaced 1 2 text ↔
          AsksAddress [s 2, s 2, s 4, s 4, s 4, s 6, s 6] text) := by
  intro turns s written
  refine ⟨by decide +kernel, ?_⟩
  exact written_locals (by decide) (by decide +kernel) [s 2, s 4, s 4, s 4, s 6, s 6]

/--
An array as a local of frame 2 in thread 1: its address is asked for in the frame that the debugger
has selected, whichever that is.
-/
theorem array_not_placed :
    let turns : List Turn := [.call (.bringUp { cwd := "/w", mode := .load "a.out" none none }),
      .call (.scopes (FrameId.pack 1 2)), .call (.expand 1),
      .news (.hear (Utf8.encode "6^done,variables=[\x7bname=\"a\"\x7d]\n")), .move 2 .resume,
      .news (.hear (Utf8.encode "7^done,name=\"var_1_a\",numchild=\"4\",value=\"[4]\"\n")),
      .move 2 .resume]
    let s (n : Nat) := (Ensemble.run {} (turns.take n)).session
    let written := (expand 1).run.written [s 2, s 2, s 4, s 4, s 4, s 6, s 6]
    let address := "data-evaluate-expression &(a)"
    (s 2).registry.entry? 1 = some (.scope ⟨.locals, 1, 2⟩) ∧
      (s 7).outbox = (s 2).outbox ++ written ∧ .command 8 address ∈ written ∧
      Command.Evaluates address ∧ ¬ Command.IsPlaced 1 2 address := by
  decide +kernel

end Session

end MachineInterface
