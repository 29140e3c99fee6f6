import MachineInterface.Proofs.Memory.Answers
import MachineInterface.Proofs.Memory.Printed
import MachineInterface.Proofs.Session.Outcomes

/-!
# References that are reported

A session reports how the value of a variable can be read from memory. What it reports is a
reference to the address that the value shows, and reading there is refused for no other reason than
an offset that leads out of the addresses.

* `meets_memoryReference`: the text from which a reference is taken.
* `readable_of_opens`: when a read is refused as a wrong argument.
* `reported_references_readable`: both for each reference that a session reports in any run.
* `nested_group_misread`: a group inside another one ends it too early.
-/

namespace MachineInterface

open Text

open Session (Grows)

/-! ## Commands -/

namespace CallM

variable {s : Session} {command : String} {tolerant : Bool}

/-- A command that cannot be numbered is an error, and any other one gives its answer. -/
theorem meets_send {post : Except Error ResultRecord → Session → Prop}
    (hfail : ∀ e, (s.issue command tolerant).1 = .error e →
      post (.error e) (s.issue command tolerant).2)
    (hreply : ∀ ticket, (s.issue command tolerant).1 = .ok ticket → ∀ u r,
      u.exchange.reply? ticket = some r → post r u) :
    (send command tolerant).run.Meets growing post s := by
  unfold send
  rw [meets_bind, meets_locked]
  cases hissue : (s.issue command tolerant).1 with
  | error e => exact hfail e hissue
  | ok ticket =>
    exact meets_await.mpr fun u _ => ⟨trivial, fun r hr => hreply ticket hissue u r hr⟩

end CallM

/-! ## References -/

namespace Session

/-- The text that shows the address of an object: its value or, for an array, that of its address. -/
inductive Printed (o : VariableObject) (s u : Session) : String → Prop
  | value {text : String} (ho : ¬ o.IsArray) (h : o.value = some text) : Printed o s u text
  | evaluated {ticket : Nat} {answer : ResultRecord} {text : String} (ho : o.IsArray)
    (hissue : (s.issue (Command.addressOf o.expression) false).1 = .ok ticket)
    (hreply : u.exchange.reply? ticket = some (.ok answer)) (h : answer.text? "value" = some text) :
    Printed o s u text

theorem Printed.later {o : VariableObject} {s u v : Session} {text : String}
    (h : Printed o s u text) (hv : Grows u v) : Printed o s v text := by
  cases h with
  | value ho h => exact .value ho h
  | evaluated ho hissue hreply h =>
    exact .evaluated ho hissue (Exchange.reply?_of_prefix hv.answers hreply) h

/-- A reference that is given was taken from the text that shows the address. -/
def TakenFrom (o : VariableObject) (s : Session) (reference : Option String) (u : Session) : Prop :=
  ∀ r, reference = some r → ∃ text, Printed o s u text ∧ VariableObject.addressText? text = some r

variable {o : VariableObject}

theorem value_of_memoryHint {reference : String} (h : o.memoryHint = .literal reference) :
    ∃ text, o.value = some text ∧ VariableObject.addressText? text = some reference := by
  unfold VariableObject.memoryHint at h
  cases hvalue : o.value with
  | none => simp [hvalue] at h
  | some text =>
    rw [hvalue] at h
    dsimp only [Option.getD_some] at h
    rw [String.ofList_toList] at h
    split at h
    · cases h
    · split at h
      · cases h
      · split at h
        · rename_i taken htaken
          obtain rfl := MemoryHint.literal.inj h
          exact ⟨text, rfl, htaken⟩
        · cases h

/-- A reference is taken from the value of an object, or from that of an array's address. -/
theorem meets_memoryReference (o : VariableObject) (s : Session) :
    (memoryReference o).Meets growing (TakenFrom o s) s := by
  unfold memoryReference
  cases hhint : o.memoryHint with
  | none => rintro _ ⟨⟩
  | literal reference =>
    rintro _ ⟨⟩
    obtain ⟨text, hvalue, htaken⟩ := value_of_memoryHint hhint
    refine ⟨text, .value ?_ hvalue, htaken⟩
    rintro ⟨x, hx⟩
    rw [hhint] at hx
    cases hx
  | addressOf x =>
    have hevaluate : (evaluate x 0 0).run.Meets growing
        (fun r u => ∀ text, r = .ok text → Printed o s u text) s := by
      rw [VariableObject.memoryHint_eq_addressOf hhint, evaluate, Command.evaluate_eq_addressOf]
      rw [CallM.meets_bind]
      refine CallM.meets_send ?_ fun ticket hissue u r hr => ?_
      · rintro e - _ ⟨⟩
      · cases r with
        | error e => rintro _ ⟨⟩
        | ok answer =>
          intro text htext
          exact .evaluated ⟨x, hhint⟩ hissue hr (ResultRecord.require_eq_ok_iff.mp htext)
    refine Call.meets_bind.mpr (hevaluate.mono fun r u hr => ?_)
    intro reference hreference
    cases r with
    | error e => cases hreference
    | ok text => exact ⟨text, hr text rfl, hreference⟩

/-! ## Reads -/

/-- A read that is answered is not refused as a wrong argument. -/
theorem ofAnswer_ne_invalidArgument {command : String} {a count : UInt64} {answer : ResultRecord}
    (detail : String) :
    MemoryRead.ofAnswer command a count answer ≠ .error (.invalidArgument detail) := by
  intro h
  cases hstart : answer.memoryNumber? "begin" with
  | none =>
    obtain ⟨fault, -, name, -, herror⟩ := MemoryRead.ofAnswer_of_no_number (.inl hstart)
    cases h.symm.trans herror
  | some start =>
    cases hoffset : answer.memoryNumber? "offset" with
    | none =>
      obtain ⟨fault, -, name, -, herror⟩ := MemoryRead.ofAnswer_of_no_number (.inr hoffset)
      cases h.symm.trans herror
    | some offset =>
      rw [MemoryRead.ofAnswer_of_numbers hstart hoffset] at h
      split at h
      · cases h
      · cases hcontents : answer.memoryText? "contents" with
        | none =>
          rw [hcontents] at h
          cases h
        | some contents =>
          rw [hcontents] at h
          cases h

variable {reference : String} {offset : Int} {a : UInt64}

/-- A command that cannot be numbered has no debugger to go to. -/
theorem ne_invalidArgument_of_issue {s : Session} {command : String} {tolerant : Bool} {e : Error}
    (h : (s.issue command tolerant).1 = .error e) (detail : String) :
    e ≠ .invalidArgument detail := by
  unfold issue at h
  split at h
  all_goals
    cases h
    try rintro ⟨⟩

/-- A read at an address is refused as a wrong argument only if a command was answered so. -/
theorem meets_readMemory (h : Address.resolve reference offset = .ok a) (count : UInt64)
    (s : Session) : (readMemory reference offset count).run.Meets growing
      (fun result u => ∀ detail, result = .error (.invalidArgument detail) →
        ∃ ticket, u.exchange.reply? ticket = some (.error (.invalidArgument detail))) s := by
  rw [readMemory, h]
  rw [CallM.meets_bind, CallM.meets_except]
  dsimp only
  split
  · rintro detail ⟨⟩
  · rw [CallM.meets_bind]
    refine CallM.meets_send ?_ fun ticket _ u r hr => ?_
    · rintro e he detail hdetail
      exact absurd (Except.error.inj hdetail) (ne_invalidArgument_of_issue he detail)
    · cases r with
      | error e =>
        rintro detail hdetail
        obtain rfl := Except.error.inj hdetail
        exact ⟨ticket, hr⟩
      | ok answer =>
        dsimp only
        split
        · exact fun detail hdetail => absurd hdetail (ofAnswer_ne_invalidArgument detail)
        · rename_i e he
          split
          · rintro detail ⟨⟩
          · intro detail hdetail
            unfold ResultRecord.accepted at he
            split at he
            · obtain rfl := Except.error.inj he
              cases hdetail
            · cases he

end Session

/-! ## Rows -/

/-- The reference of a row, if it has one, was taken from some printed text. -/
def Variable.IsTaken (row : Variable) : Prop :=
  ∀ r, row.memoryReference = some r → ∃ text, VariableObject.addressText? text = some r

namespace Session

open CallM

theorem upholds_describe (o : VariableObject) :
    (describe o).Upholds anyPremise Variable.IsTaken := by
  have hreference : (memoryReference o).Upholds anyPremise fun reference =>
      ∀ r, reference = some r → ∃ text, VariableObject.addressText? text = some r := by
    unfold memoryReference
    split
    · rintro _ ⟨⟩
    · rename_i reference hhint
      rintro _ ⟨⟩
      obtain ⟨text, -, htaken⟩ := value_of_memoryHint hhint
      exact ⟨text, htaken⟩
    · refine Call.upholds_bind (Call.upholds_any _) fun result _ r hr => ?_
      obtain ⟨text, -, htaken⟩ := Option.bind_eq_some_iff.mp hr
      exact ⟨text, htaken⟩
  exact Call.upholds_bind hreference fun reference htaken =>
    Call.upholds_bind (Call.upholds_any _) fun _ _ => htaken

theorem upholds_rowOfLocal (scope : Handle) (key : ScopeKey) (name : String) :
    (rowOfLocal scope key name).Upholds anyPremise Variable.IsTaken := by
  unfold rowOfLocal
  refine Call.upholds_bind (Call.upholds_any _) fun object _ => ?_
  split
  · exact upholds_describe _
  · rintro _ ⟨⟩

/-- The references of all rows of an expansion were taken from printed texts. -/
theorem upholds_expand (handle : Handle) :
    (expand handle).Upholds anyPremise fun rows => ∀ row ∈ rows, row.IsTaken := by
  unfold expand
  refine upholds_bind (upholds_any _) fun entry _ => ?_
  split
  · exact upholds_pure fun row hrow => absurd hrow List.not_mem_nil
  · unfold rowsOfScope
    split
    · refine upholds_bind (upholds_any _) fun registers _ => upholds_pure fun row hrow => ?_
      obtain ⟨register, -, rfl⟩ := List.mem_map.mp hrow
      rintro _ ⟨⟩
    · exact upholds_bind (upholds_any _) fun locals _ => upholds_mapM
        (fun v _ => upholds_lift (upholds_rowOfLocal _ _ v.name)) fun _ _ => trivial
  · exact upholds_bind (upholds_any _) fun children _ => upholds_mapM
      (fun child _ => upholds_lift (upholds_describe child)) fun _ _ => trivial

end Session

/-! ## Runs -/

open Ensemble (run)

/--
A reference stands for an address, and reading there is refused as a wrong argument for no other
reason than an offset that leads out of the addresses.
-/
def ReadableAt (reference : String) (a : UInt64) : Prop :=
  Address.resolve reference 0 = .ok a ∧
    ∀ (config : Config) (turns : List Turn) (offset : Int) (count : UInt64)
      (result : Except Error MemoryRead),
      (⟨.readMemory reference offset count, some (.done result)⟩ : Ongoing) ∈
        (run config turns).calls →
      ((∃ detail, result = .error (.invalidArgument detail)) ↔
        ¬ (0 ≤ (a.toNat : Int) + offset ∧ (a.toNat : Int) + offset < 0x10000000000000000))

/-- A reference that starts with an address can be read. -/
theorem readable_of_opens {reference : String} {a : UInt64}
    (h : Address.Opens reference.toList a) : ReadableAt reference a := by
  have hzero : Address.offset? a 0 = some a :=
    Address.offset?_eq_some_iff.mpr (Int.add_zero (a.toNat : Int))
  refine ⟨by rw [h.resolve, hzero]; rfl, fun config turns offset count result hcall => ?_⟩
  obtain ⟨before, after, -, houtcome⟩ := Ensemble.outcome_of_call hcall
  have hresolve := h.resolve offset
  by_cases hin : 0 ≤ (a.toNat : Int) + offset ∧ (a.toNat : Int) + offset < 0x10000000000000000
  · rw [Address.offset?, if_pos hin] at hresolve
    refine iff_of_false ?_ (not_not.mpr hin)
    rintro ⟨detail, rfl⟩
    obtain ⟨ticket, hreply⟩ := houtcome _
      (fun _ u v hpost hv detail hdetail => by
        obtain ⟨ticket, hreply⟩ := hpost detail hdetail
        exact ⟨ticket, Exchange.reply?_of_prefix hv.answers hreply⟩)
      (Session.meets_readMemory hresolve count _) detail rfl
    cases (Ensemble.explained_run config turns).reply hreply
  · rw [Address.offset?, if_neg hin] at hresolve
    have hrefused : result = .error (Address.overflow reference offset) := by
      refine houtcome (fun result _ => result = .error (Address.overflow reference offset))
        (fun _ _ _ hpost _ => hpost) ?_
      rw [Operation.call, Session.readMemory_of_error hresolve]
      rfl
    exact iff_of_true ⟨_, hrefused⟩ hin

/-! ## Reported references -/

/--
Each reference that a session gives for an object, in any run, was taken from the text that shows
the address: the value itself or, for an array, what the debugger printed for its address. The
reference can be read at the address that the text shows. It is the one at the start of the text or,
where that is a brace, after the first closing one, and so after a group at the start if no other
one is inside. The references of the rows of an expansion can be read in the same way.
-/
theorem reported_references_readable (config : Config) (turns : List Turn) :
    (∀ (o : VariableObject) (r : String),
      (⟨.memoryReference o, some (.done (some r))⟩ : Ongoing) ∈ (run config turns).calls →
      ∃ before after text a, turns = before ++ .call (.memoryReference o) :: after ∧
        Session.Printed o (run config before).session (run config turns).session text ∧
        Address.ShownBy a text.toList ∧
        (∀ group rest, text.toList = group ++ rest → Address.IsGroup group → '{' ∉ group.tail →
          Address.Opens rest a) ∧
        ReadableAt r a) ∧
    ∀ (handle : Handle) (rows : List Variable),
      (⟨.expand handle, some (.done (.ok rows))⟩ : Ongoing) ∈ (run config turns).calls →
      ∀ row ∈ rows, ∀ r, row.memoryReference = some r →
        ∃ text a, Address.ShownBy a text ∧ ReadableAt r a := by
  constructor
  · intro o r hcall
    obtain ⟨before, after, hturns, houtcome⟩ := Ensemble.outcome_of_call hcall
    obtain ⟨text, hprinted, htaken⟩ := houtcome _
      (fun reference u v htaken hv r hr => by
        obtain ⟨text, hprinted, htext⟩ := htaken r hr
        exact ⟨text, hprinted.later hv, htext⟩)
      (Session.meets_memoryReference o (run config before).session) r rfl
    obtain ⟨a, hshown, hopens⟩ := Address.addressText?_eq_some htaken
    refine ⟨before, after, text, a, hturns, hprinted, hshown, ?_, readable_of_opens hopens⟩
    intro group rest htext hgroup hflat
    rw [htext] at hshown
    exact hshown.of_flat_group hgroup hflat
  · intro handle rows hcall row hrow r hr
    obtain ⟨before, after, -, houtcome⟩ := Ensemble.outcome_of_call hcall
    obtain ⟨text, htaken⟩ := houtcome _ (fun _ _ _ hpost _ => hpost)
      (Call.Upholds.meets (Session.upholds_expand handle) _) rows rfl row hrow r hr
    obtain ⟨a, hshown, hopens⟩ := Address.addressText?_eq_some htaken
    exact ⟨text.toList, a, hshown, readable_of_opens hopens⟩

/-- The object and the reference that a call gave for it. -/
def Ongoing.reference? : Ongoing → Option (VariableObject × String)
  | ⟨.memoryReference o, some (.done (some r))⟩ => some (o, r)
  | _ => none

/-- A call that gave a reference is among the calls. -/
theorem Ongoing.mem_of_reference? {calls : List Ongoing} {i : Nat} {o : VariableObject} {r : String}
    (h : calls[i]?.bind Ongoing.reference? = some (o, r)) :
    (⟨.memoryReference o, some (.done (some r))⟩ : Ongoing) ∈ calls := by
  obtain ⟨c, hc, hreference⟩ := Option.bind_eq_some_iff.mp h
  have hmem := List.mem_of_getElem? hc
  unfold Ongoing.reference? at hreference
  split at hreference
  · cases hreference
    exact hmem
  · cases hreference

/-- An array, of which the debugger prints the address with a name behind it. -/
theorem reported_references_readable_array :
    let o : VariableObject := { name := "v", expression := "a", value := some "[3]" }
    let turns : List Turn := [.call (.bringUp { cwd := "/w", mode := .load "a.out" none none }),
      .call (.memoryReference o),
      .news (.hear (Utf8.encode "6^done,value=\"0x7ffe10 <a>\"\n")), .move 1 .resume]
    (⟨.memoryReference o, some (.done (some "0x7ffe10 <a>"))⟩ : Ongoing) ∈ (run {} turns).calls ∧
      ReadableAt "0x7ffe10 <a>" 0x7ffe10 := by
  intro o turns
  have hgiven : (run {} turns).calls[1]?.bind Ongoing.reference? = some (o, "0x7ffe10 <a>") := by
    decide +kernel
  have hmem := Ongoing.mem_of_reference? hgiven
  obtain ⟨-, -, -, a, -, -, -, -, hreadable⟩ := (reported_references_readable {} turns).1 o _ hmem
  have hread : Address.ofReference? "0x7ffe10 <a>" = some 0x7ffe10 := by decide +kernel
  have hresolve := (readable_of_opens (Address.ofReference?_eq_some_iff.mp hread)).1
  obtain rfl := Except.ok.inj (hreadable.1.symm.trans hresolve)
  exact ⟨hmem, hreadable⟩

/-- The inner group ends the outer one, and the number of a part is taken for that of the whole. -/
theorem nested_group_misread :
    let group := "\x7bf = \x7bint (int)\x7d 0x401136 <add>, n = 3\x7d"
    let o : VariableObject := { name := "v", value := some (group ++ " 0x7ffe10") }
    let r := "0x401136 <add>, n = 3\x7d 0x7ffe10"
    Address.IsGroup group.toList ∧ Address.Opens " 0x7ffe10".toList 0x7ffe10 ∧
      (⟨.memoryReference o, some (.done (some r))⟩ : Ongoing) ∈
        (run {} [.call (.memoryReference o)]).calls ∧
      Address.resolve r 0 = .ok 0x401136 := by
  intro group o r
  have hinner : Address.Balanced ("int (int)".toList ++ []) :=
    .append_left (by decide) (by decide) .nil
  have hrest : Address.Balanced (" 0x401136 <add>, n = 3".toList ++ []) :=
    .append_left (by decide) (by decide) .nil
  have hgroup : Address.IsGroup group.toList :=
    ⟨"f = ".toList ++ _, .append_left (by decide) (by decide) (.group hinner hrest), by decide⟩
  have hafter : Address.ofReference? " 0x7ffe10" = some 0x7ffe10 := by decide +kernel
  have hread : Address.ofReference? r = some 0x401136 := by decide +kernel
  have hopens := Address.ofReference?_eq_some_iff.mp hread
  have hgiven : (run {} [.call (.memoryReference o)]).calls[0]?.bind Ongoing.reference? =
      some (o, r) := by
    decide +kernel
  exact ⟨hgroup, Address.ofReference?_eq_some_iff.mp hafter, Ongoing.mem_of_reference? hgiven,
    (readable_of_opens hopens).1⟩

end MachineInterface
