import MachineInterface.Proofs.Session.Interleaving
import MachineInterface.Proofs.Variable.Changes
import MachineInterface.Session.Variables

/-!
# Updates of variable objects

An update asks the debugger what has changed, waits for the answer, and hands the changes to the
registry. Each of the three happens in a session of its own, as others may act in between.

* `registry_issue`: asking leaves the registry alone.
* `takes_applyChanges`: what becomes of a session that takes the changes.
* `updates_in_place`: the whole course of an update.
-/

namespace MachineInterface

open Text

namespace Session

/-- Asking leaves the registry alone. -/
theorem registry_issue (s : Session) (command : String) (tolerant : Bool) :
    (s.issue command tolerant).2.registry = s.registry := by
  unfold issue
  split <;> rfl

/--
What becomes of a session that takes some changes: each object follows its own changes in their
order, under its handle and as the object that it was. The rest of the session stays, and with it the
entries that no change names, and all names and handles.
-/
structure Takes (changes : List Value) (v : Session) (handles : List Handle) (w : Session) :
    Prop where
  handles : handles = changes.filterMap v.registry.target?
  patches : Registry.Patches changes v.registry w.registry
  others : ∀ n, (∀ c ∈ changes, v.registry.target? c ≠ some n) →
    w.registry.entry? n = v.registry.entry? n
  objects : ∀ n o, v.registry.object? n = some o → ∃ o', w.registry.object? n = some o' ∧
    VariableObject.Patched (v.registry.changesOf n changes) o o' ∧
    (o'.typeName ≠ o.typeName → ∃ c ∈ v.registry.changesOf n changes, ∃ t,
      VariableObject.isSet (c.lookupText? "type_changed") = true ∧
      c.lookupText? "new_type" = some t ∧ o'.typeName = some t)
  rest : w = { v with registry := w.registry }

theorem takes_applyChanges (changes : List Value) (v : Session) :
    Takes changes v (applyChanges changes v).1 (applyChanges changes v).2 := by
  obtain ⟨hhandles, hpatches⟩ := v.registry.patches_applyAll changes
  refine ⟨?_, hpatches, fun n => hpatches.entry?_of_others, fun n o ho => ?_, rfl⟩
  · change (v.registry.applyAll changes).1.filterMap id = _
    rw [hhandles, List.filterMap_map]
    rfl
  · obtain ⟨o', ho', hpatched⟩ := hpatches.exists_object ho
    exact ⟨o', ho', hpatched, hpatched.retyped⟩

/-! ## The three steps -/

/-- The command that asks what has changed. -/
def updateText (name : String) : String := "var-update --all-values " ++ Quote.argument name

/-- The changes in an answer are taken. -/
def takeChanges (answer : ResultRecord) : CallM (List Handle) :=
  ExceptT.lift (Call.locked (applyChanges (answer.elements "changelist")))

/-- What an update goes on with once it has its answer. -/
def afterReply (r : Reply) : CallM (List Handle) := (ExceptT.mk (.done r) : CallM _) >>= takeChanges

/-- What an update goes on with once its command was numbered. -/
def afterIssue (r : Except Error Nat) : Call (Except Error (List Handle)) :=
  match r with
  | .ok ticket => .reply ticket id fun r => (afterReply r).run
  | .error e => .done (.error e)

theorem stride_updateVariable (name : String) (s : Session) :
    (updateVariable name).run.stride s =
      (afterIssue (s.issue (updateText name) false).1, (s.issue (updateText name) false).2) := by
  have hstride : (updateVariable name).run.stride s =
      ((((ExceptT.mk (.done (s.issue (updateText name) false).1) : CallM _) >>= CallM.await) >>=
        takeChanges).run, (s.issue (updateText name) false).2) := rfl
  rw [hstride]
  cases (s.issue (updateText name) false).1 <;> rfl

theorem stride_takeChanges (answer : ResultRecord) (v : Session) :
    (afterReply (.ok answer)).run.stride v =
      (.done (.ok (applyChanges (answer.elements "changelist") v).1),
        (applyChanges (answer.elements "changelist") v).2) := rfl

/-! ## The whole course -/

/--
The course of an update, in three sessions that need not have anything to do with each other. Where
the command fails, at once or by its answer, or where the caller gives up, the registry is as it was.
Otherwise the session takes the changes in the answer.
-/
theorem updates_in_place (name : String) (s u v : Session) :
    let issued := s.issue ("var-update --all-values " ++ Quote.argument name) false
    let sent := (updateVariable name).run.stride s
    sent.2 = issued.2 ∧ sent.2.registry = s.registry ∧ (sent.1.drop u).registry = u.registry ∧
    (∀ e, issued.1 = .error e → sent.1 = .done (.error e)) ∧
    ∀ ticket, issued.1 = .ok ticket →
      (u.exchange.reply? ticket = none → sent.1.stride u = (sent.1, u)) ∧
      (∀ e, u.exchange.reply? ticket = some (.error e) →
        sent.1.stride u = (.done (.error e), u)) ∧
      ∀ answer, u.exchange.reply? ticket = some (.ok answer) → (sent.1.stride u).2 = u ∧
        ∃ handles w, (sent.1.stride u).1.stride v = (.done (.ok handles), w) ∧
          Takes (answer.elements "changelist") v handles w := by
  intro issued sent
  have hsent : sent = (afterIssue issued.1, issued.2) := stride_updateVariable name s
  have hregistry : issued.2.registry = s.registry := registry_issue s (updateText name) false
  rw [hsent]
  refine ⟨rfl, hregistry, ?_, fun e he => by rw [he]; rfl, fun ticket hticket => ?_⟩
  · cases issued.1 <;> rfl
  · rw [hticket]
    refine ⟨fun hnone => ?_, fun e he => ?_, fun answer hanswer => ?_⟩
    · simp only [afterIssue, Call.stride, hnone]
    · simp only [afterIssue, Call.stride, he]
      rfl
    · simp only [afterIssue, Call.stride, hanswer]
      exact ⟨trivial, _, _, stride_takeChanges answer v, takes_applyChanges _ v⟩

/-- A registry with two objects. -/
def twoObjects : Registry :=
  ((({} : Registry).track { name := "a", typeName := some "int", value := some "1" }).2.track
    { name := "b", value := some "7" }).2

/-- The last change of the first object in the answer below. -/
def lastChange : Value := .tuple [("name", .const "a"), ("value", .const "3")]

/-- An answer that names the first object twice and another one that is not known. -/
def repeatedAnswer : ResultRecord := ⟨none, .done, [("changelist", .list
  [(none, .tuple [("name", .const "a"), ("type_changed", .const "true"), ("new_type", .const "long")]),
    (none, .tuple [("name", .const "z"), ("value", .const "9")]), (none, lastChange)])]⟩

/-- The first object has the new type and the last value; the second one stays. -/
theorem updates_in_place_repeated : ∃ (s u v w : Session) (o : VariableObject),
    (((updateVariable "*").run.stride s).1.stride u).1.stride v = (.done (.ok [1, 1]), w) ∧
      w.registry.object? 1 = some o ∧ o.typeName = some "long" ∧ o.value = some "3" ∧
      w.registry.entry? 2 = v.registry.entry? 2 := by
  obtain ⟨-, -, -, -, hissued⟩ := updates_in_place "*" { link := .open }
    { exchange := { completions := [⟨0, 1, .ok repeatedAnswer⟩] } } { registry := twoObjects }
  obtain ⟨-, -, hanswered⟩ := hissued 0 rfl
  obtain ⟨-, handles, w, hrun, htakes⟩ := hanswered repeatedAnswer rfl
  have hhandles : handles = [1, 1] := htakes.handles.trans (by decide +kernel)
  obtain ⟨o, ho, hpatched, -⟩ := htakes.objects 1 _ rfl
  refine ⟨_, _, _, w, o, hhandles ▸ hrun, ho, ?_, ?_, htakes.others 2 (by decide +kernel)⟩
  · exact hpatched.typeName.trans (by decide +kernel)
  · exact (hpatched.latest lastChange (by decide +kernel)).1.trans (by decide +kernel)

end Session

end MachineInterface
