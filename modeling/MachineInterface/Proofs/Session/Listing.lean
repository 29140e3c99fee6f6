import MachineInterface.Proofs.Session.Completing
import MachineInterface.Proofs.Session.Naming
import MachineInterface.Proofs.Session.Scoping
import MachineInterface.Proofs.Variable.Changes
import MachineInterface.Proofs.Variable.Locals

/-!
# The rows of a Locals scope

Each local is a small dialogue of its own: its object is brought up to date, or created, or both,
and then described. What comes of one local leaves the others alone.

* `LocalRow`: the dialogue of one local, and the row that it ends in.
* `LocalRow.row`: what the row tells of the local, and what the registry keeps of it.
* `locals_listed`: all the rows of a scope, for a debugger that answers each command.
-/

namespace MachineInterface

open Text

namespace Session

open CallM

variable {s u v : Session}

theorem Drifts.registry (h : Drifts s u) : u.registry = s.registry := by
  have hfield := congrArg Session.registry h.held
  exact hfield

/-! ## Questions -/

/-- A command was written to a debugger that reads, and it was answered. -/
def Asked (command : String) (s : Session) (r : Reply) (u : Session) : Prop :=
  ∃ v, Drifts s v ∧ v.link = .open ∧ Drifts (v.issue command false).2 u ∧
    u.exchange.reply? v.exchange.issued = some r

namespace Asked

variable {command : String} {r : Reply}

theorem later (h : Asked command s r u) (hv : Drifts u v) : Asked command s r v := by
  obtain ⟨w, hw, hopen, hu, hr⟩ := h
  exact ⟨w, hw, hopen, hu.trans hv, hv.reply? hr⟩

theorem earlier (h : Asked command u r v) (hs : Drifts s u) : Asked command s r v := by
  obtain ⟨w, hw, hrest⟩ := h
  exact ⟨w, hs.trans hw, hrest⟩

theorem registry (h : Asked command s r u) : u.registry = s.registry := by
  obtain ⟨v, hv, hopen, hu, -⟩ := h
  rw [hu.registry, issue_of_open hopen, hv.registry]

end Asked

/-! ## The dialogue of a local -/

section

variable (scope : Handle) (key : ScopeKey) (name : String)

/-- The object of a local is created, under the name that was asked for. -/
inductive Created (s : Session) : Except Error VariableObject → Session → Prop
  | new {answer : ResultRecord} {o : VariableObject} {u : Session}
    (h : Asked (createCommand scope key name) s (.ok answer) u)
    (ho : VariableObject.ofValue? (.tuple answer.fields) = some o)
    (hname : o.name = objectName scope name) : Created s (.ok o) u
  | nameless {answer : ResultRecord} {u : Session}
    (h : Asked (createCommand scope key name) s (.ok answer) u)
    (ho : VariableObject.ofValue? (.tuple answer.fields) = none) :
    Created s (.error (.missing (createCommand scope key name) "name")) u
  | refused {e : Error} {u : Session} (h : Asked (createCommand scope key name) s (.error e) u) :
    Created s (.error e) u

/-- The debugger is asked what has changed of the object of a local, and the changes are kept. -/
inductive Updated (s : Session) : Except Error (List Handle) → Session → Prop
  | done {answer : ResultRecord} {v u : Session}
    (h : Asked (updateCommand scope name) s (.ok answer) v)
    (hu : Drifts (applyChanges (answer.elements "changelist") v).2 u) :
    Updated s (.ok (applyChanges (answer.elements "changelist") v).1) u
  | refused {e : Error} {u : Session} (h : Asked (updateCommand scope name) s (.error e) u) :
    Updated s (.error e) u

/-- The object of a local is brought up to date if it is known; the debugger may have lost it. -/
inductive Refreshed (s : Session) : Except Error (Option VariableObject) → Session → Prop
  | unknown {u : Session} (h : s.registry.byName? (objectName scope name) = none)
    (hu : Drifts s u) : Refreshed s (.ok none) u
  | current {o : VariableObject} {handles : List Handle} {u : Session}
    (hknown : (s.registry.byName? (objectName scope name)).isSome = true)
    (h : Updated scope name s (.ok handles) u)
    (ho : u.registry.byName? (objectName scope name) = some o) : Refreshed s (.ok (some o)) u
  | lost {e : Error} {u : Session}
    (hknown : (s.registry.byName? (objectName scope name)).isSome = true)
    (h : Updated scope name s (.error e) u) (he : e.isMissingVariable = true) :
    Refreshed s (.ok none) u
  | refused {e : Error} {u : Session}
    (hknown : (s.registry.byName? (objectName scope name)).isSome = true)
    (h : Updated scope name s (.error e) u) (he : e.isMissingVariable = false) :
    Refreshed s (.error e) u

/-- The object of a local is up to date, or it is created, or there is none. -/
inductive Fetched (s : Session) : Except Error VariableObject → Session → Prop
  | current {o : VariableObject} {u : Session} (h : Refreshed scope name s (.ok (some o)) u) :
    Fetched s (.ok o) u
  | created {r : Except Error VariableObject} {v u : Session}
    (h : Refreshed scope name s (.ok none) v) (hr : Created scope key name v r u) :
    Fetched s (r.map fun o => { o with expression := name }) u
  | refused {e : Error} {u : Session} (h : Refreshed scope name s (.error e) u) :
    Fetched s (.error e) u

end

/-- A memory reference for an object; the debugger is asked for that of an array. -/
inductive Referred (o : VariableObject) (s : Session) : Option String → Session → Prop
  | none {u : Session} (h : o.memoryHint = .none) (hu : Drifts s u) : Referred o s none u
  | literal {reference : String} {u : Session} (h : o.memoryHint = .literal reference)
    (hu : Drifts s u) : Referred o s (some reference) u
  | array {r : Reply} {u : Session} (ho : o.IsArray)
    (h : Asked (Command.addressOf o.expression) s r u) :
    Referred o s ((r.bind fun answer => answer.require (Command.addressOf o.expression)
      "value").toOption.bind VariableObject.addressText?) u

/--
What is done for a local, and the row that is shown of it. A local that cannot be followed leaves
the registry as it was.
-/
inductive LocalRow (scope : Handle) (key : ScopeKey) (name : String) (s : Session) :
    Variable → Session → Prop
  | shown {o : VariableObject} {reference : Option String} {v w u : Session}
    (h : Fetched scope key name s (.ok o) v) (href : Referred o v reference w)
    (hu : Drifts (track o w).2 u) :
    LocalRow scope key name s (.ofObject o (track o w).1 reference) u
  | failed {e : Error} {u : Session} (h : Fetched scope key name s (.error e) u)
    (hsame : u.registry = s.registry) : LocalRow scope key name s (.ofFailure name e.message) u

/-- What is done for some locals, one after the other, and the rows that are shown of them. -/
inductive LocalRows (scope : Handle) (key : ScopeKey) :
    List String → Session → List Variable → Session → Prop
  | nil {s u : Session} (h : Drifts s u) : LocalRows scope key [] s [] u
  | cons {name : String} {names : List String} {row : Variable} {rows : List Variable}
    {s v u : Session} (h : LocalRow scope key name s row v)
    (hrest : LocalRows scope key names v rows u) :
    LocalRows scope key (name :: names) s (row :: rows) u

section

variable {scope : Handle} {key : ScopeKey} {name : String}

theorem Updated.earlier {r : Except Error (List Handle)} (h : Updated scope name u r v)
    (hs : Drifts s u) : Updated scope name s r v := by
  cases h with
  | done h hu => exact .done (h.earlier hs) hu
  | refused h => exact .refused (h.earlier hs)

theorem Updated.later {r : Except Error (List Handle)} (h : Updated scope name s r u)
    (hv : Drifts u v) : Updated scope name s r v := by
  cases h with
  | done h hu => exact .done h (hu.trans hv)
  | refused h => exact .refused (h.later hv)

theorem Created.later {r : Except Error VariableObject} (h : Created scope key name s r u)
    (hv : Drifts u v) : Created scope key name s r v := by
  cases h with
  | new h ho hname => exact .new (h.later hv) ho hname
  | nameless h ho => exact .nameless (h.later hv) ho
  | refused h => exact .refused (h.later hv)

theorem Created.registry {r : Except Error VariableObject} (h : Created scope key name s r u) :
    u.registry = s.registry := by
  cases h with
  | new h _ _ => exact h.registry
  | nameless h _ => exact h.registry
  | refused h => exact h.registry

theorem Refreshed.later {r : Except Error (Option VariableObject)}
    (h : Refreshed scope name s r u) (hv : Drifts u v) : Refreshed scope name s r v := by
  cases h with
  | unknown h hu => exact .unknown h (hu.trans hv)
  | current hknown h ho => exact .current hknown (h.later hv) (hv.registry ▸ ho)
  | lost hknown h he => exact .lost hknown (h.later hv) he
  | refused hknown h he => exact .refused hknown (h.later hv) he

/-- An object that is not to be had leaves the registry as it was. -/
theorem Fetched.registry_of_error {e : Error} (h : Fetched scope key name s (.error e) u) :
    u.registry = s.registry := by
  have hupdated : ∀ {e : Error} {u : Session}, Updated scope name s (.error e) u →
      u.registry = s.registry := by
    intro e u hr
    cases hr with
    | refused h => exact h.registry
  generalize hr : (Except.error e : Except Error VariableObject) = r at h
  cases h with
  | current _ => cases hr
  | created h hcreated =>
    rw [hcreated.registry]
    cases h with
    | unknown _ hu => exact hu.registry
    | lost _ h _ => exact hupdated h
  | refused h =>
    cases h with
    | refused _ h _ => exact hupdated h

theorem LocalRows.later {names : List String} {rows : List Variable}
    (h : LocalRows scope key names s rows u) (hv : Drifts u v) :
    LocalRows scope key names s rows v := by
  induction h with
  | nil h => exact .nil (h.trans hv)
  | cons h hrest ih => exact .cons h (ih hv)

/-- The changes, if there are any, are all that is done to the registry. -/
theorem Updated.registry {r : Except Error (List Handle)} (h : Updated scope name s r u) :
    ∃ changes, u.registry = (s.registry.applyAll changes).2 := by
  cases h with
  | @done answer v u h hu =>
    refine ⟨answer.elements "changelist", hu.registry.trans ?_⟩
    rw [← h.registry]
    rfl
  | refused h => exact ⟨[], h.registry⟩

/-- A known object is still known after the changes. -/
theorem Updated.exists_object {r : Except Error (List Handle)} (h : Updated scope name s r u)
    {other : String} (hknown : (s.registry.byName? other).isSome = true) :
    ∃ o, u.registry.byName? other = some o := by
  obtain ⟨changes, hregistry⟩ := h.registry
  rw [hregistry]
  have hpatches := (s.registry.patches_applyAll changes).2
  exact Option.isSome_iff_exists.mp (hpatches.isSome_byName? hknown)

end

/-- The names of the locals that an answer lists. An entry without a name is none. -/
def localNames (answer : ResultRecord) : List String :=
  (answer.elements "variables").filterMap (·.lookupText? "name")

theorem map_name_stackVariables (entries : List Value) :
    (entries.filterMap StackVariable.ofValue?).map (·.name) =
      entries.filterMap (·.lookupText? "name") := by
  rw [List.map_filterMap]
  refine List.filterMap_congr fun v _ => ?_
  rw [StackVariable.ofValue?, Option.map_map]
  cases v.lookupText? "name" <;> rfl

/-- The locals of a scope are listed, and a row is made of each. -/
inductive Listed (scope : Handle) (key : ScopeKey) (s : Session) :
    Except Error (List Variable) → Session → Prop
  | rows {answer : ResultRecord} {rows : List Variable} {v u : Session}
    (h : Asked (listCommand key) s (.ok answer) v)
    (hrows : LocalRows scope key (localNames answer) v rows u) : Listed scope key s (.ok rows) u
  | refused {e : Error} {u : Session} (h : Asked (listCommand key) s (.error e) u) :
    Listed scope key s (.error e) u

theorem Listed.earlier {scope : Handle} {key : ScopeKey} {r : Except Error (List Variable)}
    (h : Listed scope key u r v) (hs : Drifts s u) : Listed scope key s r v := by
  cases h with
  | rows h hrows => exact .rows (h.earlier hs) hrows
  | refused h => exact .refused (h.earlier hs)

/-! ## What the registry keeps -/

section

open Registry (Leads Apart)

variable {scope : Handle} {key : ScopeKey} {name : String}

theorem Refreshed.leads {r : Except Error (Option VariableObject)}
    (h : Refreshed scope name s r u) : Leads s.registry u.registry := by
  have hupdated : ∀ {r : Except Error (List Handle)}, Updated scope name s r u →
      Leads s.registry u.registry := by
    intro r hr
    obtain ⟨changes, hregistry⟩ := hr.registry
    rw [hregistry]
    exact Registry.leads_applyAll _ changes
  cases h with
  | unknown h hu =>
    rw [hu.registry]
    exact .refl
  | current _ h _ => exact hupdated h
  | lost _ h _ => exact hupdated h
  | refused _ h _ => exact hupdated h

theorem Fetched.leads {r : Except Error VariableObject} (h : Fetched scope key name s r u) :
    Leads s.registry u.registry := by
  cases h with
  | current h => exact h.leads
  | created h hr =>
    rw [hr.registry]
    exact h.leads
  | refused h => exact h.leads

/-- The object behind a row is named for the scope and the local. -/
theorem Fetched.object {o : VariableObject} (h : Fetched scope key name s (.ok o) u)
    (hapart : Apart u.registry) : o.name = objectName scope name ∧ o.expression = name := by
  generalize hr : (Except.ok o : Except Error VariableObject) = r at h
  cases h with
  | current h =>
    cases hr
    cases h with
    | current _ _ ho => exact hapart.of_byName? ho
  | created _ hcreated =>
    cases hcreated with
    | new _ _ hname =>
      cases hr
      exact ⟨hname, rfl⟩
    | nameless _ _ => cases hr
    | refused _ => cases hr
  | refused _ => cases hr

theorem Referred.registry {o : VariableObject} {reference : Option String}
    (h : Referred o s reference u) : u.registry = s.registry := by
  cases h with
  | none _ hu => exact hu.registry
  | literal _ hu => exact hu.registry
  | array _ h => exact h.registry

theorem LocalRow.size_le {row : Variable} (h : LocalRow scope key name s row u) :
    s.registry.size ≤ u.registry.size := by
  cases h with
  | shown h href hu =>
    refine h.leads.size_le.trans ?_
    rw [← href.registry, hu.registry]
    exact Registry.size_le_track _ _
  | failed h _ => exact h.leads.size_le

theorem LocalRows.size_le {names : List String} {rows : List Variable}
    (h : LocalRows scope key names s rows u) : s.registry.size ≤ u.registry.size := by
  induction h with
  | nil h => rw [h.registry]
  | cons h _ ih => exact h.size_le.trans ih

end

/-! ## Rows -/

section

open Registry (Leads Retains Apart capacity)

/--
A row shows a local of a scope: why it cannot be followed, or its object, under the handle that the
registry has for its name.
-/
structure ShowsLocal (scope : Handle) (name : String) (row : Variable) (r : Registry) : Prop where
  title : row.name = name
  object : (∃ message, row = .ofFailure name message) ∨
    row.evaluateName = some (objectName scope name) ∧
      ∃ n, r.handle? (objectName scope name) = some n ∧ ∀ m, row.handle = some m → m = n

variable {scope : Handle} {key : ScopeKey} {name : String}

theorem ShowsLocal.of_retains {row : Variable} {r r' : Registry} (h : ShowsLocal scope name row r)
    (hr : Retains r r') : ShowsLocal scope name row r' := by
  refine ⟨h.title, h.object.imp id ?_⟩
  rintro ⟨hname, n, hn, hrow⟩
  exact ⟨hname, n, hr.handles _ n hn, hrow⟩

theorem handle?_track (r : Registry) (o : VariableObject) :
    (r.track o).2.handle? o.name = some (r.track o).1 := by
  unfold Registry.track
  split
  · assumption
  · simp [Registry.handle?, Table.get?_insert]

/-- What one row shows, and that it leaves the registry in order. -/
theorem LocalRow.row {row : Variable} (h : LocalRow scope key name s row u)
    (hlocals : key.kind = .locals) (hleads : Leads {} s.registry)
    (hscope : s.registry.entry? scope = some (.scope key)) (hsize : u.registry.size < capacity) :
    ShowsLocal scope name row u.registry ∧ Leads s.registry u.registry := by
  have hroom := Nat.lt_of_le_of_lt h.size_le hsize
  cases h with
  | @shown o reference v w u h href hu =>
    have htrack : u.registry = (v.registry.track o).2 := by
      rw [← href.registry]
      exact hu.registry
    have hroom : v.registry.size < capacity := by
      rw [htrack] at hsize
      exact Nat.lt_of_le_of_lt (Registry.size_le_track _ o) hsize
    have hboth := Relation.ReflTransGen.trans hleads h.leads
    obtain ⟨hname, hexpression⟩ := h.object (Registry.apart_of_leads hboth hroom)
    have hentry := (Registry.retains_of_leads hleads h.leads hroom).scopes scope key hscope
    have hstep : Registry.LocalStep v.registry u.registry := by
      rw [htrack]
      exact .track hentry hlocals (by rw [hname, hexpression])
    refine ⟨⟨hexpression, .inr ⟨congrArg some hname, (track o w).1, ?_, ?_⟩⟩, h.leads.tail hstep⟩
    · rw [hu.registry, ← hname]
      exact handle?_track w.registry o
    · intro m hm
      simp only [Variable.ofObject] at hm
      split at hm
      · exact (Option.some.inj hm).symm
      · cases hm
  | failed h _ => exact ⟨⟨rfl, .inl ⟨_, rfl⟩⟩, h.leads⟩

/-- What all the rows show, and that they leave the registry in order. -/
theorem LocalRows.rows {names : List String} {rows : List Variable}
    (h : LocalRows scope key names s rows u) (hlocals : key.kind = .locals)
    (hleads : Leads {} s.registry) (hscope : s.registry.entry? scope = some (.scope key))
    (hsize : u.registry.size < capacity) :
    rows.map (·.name) = names ∧ (∀ row ∈ rows, ShowsLocal scope row.name row u.registry) ∧
      Leads s.registry u.registry := by
  induction h with
  | nil h =>
    rw [h.registry]
    exact ⟨rfl, fun row hrow => absurd hrow List.not_mem_nil, .refl⟩
  | @cons name names row rows s v u h hrest ih =>
    obtain ⟨hrow, hstep⟩ := h.row hlocals hleads hscope
      (Nat.lt_of_le_of_lt hrest.size_le hsize)
    have hroom := Nat.lt_of_le_of_lt hrest.size_le hsize
    have hboth := Relation.ReflTransGen.trans hleads hstep
    have hentry := (Registry.retains_of_leads hleads hstep hroom).scopes scope key hscope
    obtain ⟨hnames, hrows, hlast⟩ := ih hboth hentry hsize
    refine ⟨by rw [List.map_cons, hrow.title, hnames], ?_, Relation.ReflTransGen.trans hstep hlast⟩
    refine List.forall_mem_cons.mpr ⟨?_, hrows⟩
    have hkept := hrow.of_retains (Registry.retains_of_leads hboth hlast hsize)
    rwa [hrow.title]

/-- Rows show the locals of a scope, and the registry is in order before and after that. -/
structure ShowsLocals (scope : Handle) (names : List String) (rows : List Variable)
    (r r' : Registry) : Prop where
  titles : rows.map (·.name) = names
  rows : ∀ row ∈ rows, ShowsLocal scope row.name row r'
  leads : Leads {} r'
  retains : Retains r r'
  apart : Apart r'

theorem LocalRows.showsLocals {names : List String} {rows : List Variable}
    (h : LocalRows scope key names s rows u) (hlocals : key.kind = .locals)
    (hleads : Leads {} s.registry) (hscope : s.registry.entry? scope = some (.scope key))
    (hsize : u.registry.size < capacity) :
    ShowsLocals scope names rows s.registry u.registry := by
  obtain ⟨htitles, hrows, hlast⟩ := h.rows hlocals hleads hscope hsize
  have hboth := Relation.ReflTransGen.trans hleads hlast
  exact ⟨htitles, hrows, hboth, Registry.retains_of_leads hleads hlast hsize,
    Registry.apart_of_leads hboth hsize⟩

theorem LocalRows.length_eq {names : List String} {rows : List Variable}
    (h : LocalRows scope key names s rows u) : rows.length = names.length := by
  induction h with
  | nil h => rfl
  | cons _ _ ih => rw [List.length_cons, List.length_cons, ih]

end

/-! ## Calls -/

/-- In some sessions the debugger has named each new object of a local as it was asked to. -/
def NamesAsAsked (seen : Session → Prop) (scope : Handle) (key : ScopeKey) : Prop :=
  ∀ u v, seen u → seen v → ∀ p ∈ u.exchange.pending, ∀ name,
    p.command = createCommand scope key name →
      ∀ answer o, v.exchange.reply? p.ticket = some (.ok answer) →
        VariableObject.ofValue? (.tuple answer.fields) = some o → o.name = objectName scope name

/-- In some sessions the debugger reads, and it has named each new object as it was asked to. -/
structure Serves (seen : Session → Prop) (scope : Handle) (key : ScopeKey) : Prop where
  reads : ∀ u, seen u → u.link = .open
  names : NamesAsAsked seen scope key

section

variable {seen : Session → Prop} {scope : Handle} {key : ScopeKey}

/-- What is asked is answered. A new local is named as it was asked to. -/
theorem completes_question (h : Serves seen scope key) (command : String) (s : Session) :
    (ask command).run.Completes seen (fun r u => Asked command s r u ∧
      ∀ name answer o, command = createCommand scope key name → r = .ok answer →
        VariableObject.ofValue? (.tuple answer.fields) = some o → o.name = objectName scope name)
      s := by
  refine completes_ask h.reads fun r u v w hu hseen hleft hv hanswered hr hw => ⟨?_, ?_⟩
  · have hasked : Asked command s r v := ⟨u, hu, h.reads u hseen, hv, hr⟩
    exact hasked.later hw
  · rintro name answer o hcommand rfl ho
    have hpending : ∃ p ∈ (u.issue command false).2.exchange.pending,
        p.ticket = u.exchange.issued ∧ p.command = command := by
      rw [issue_of_open (h.reads u hseen)]
      exact ⟨_, List.mem_append_right _ (List.mem_singleton_self _), rfl, rfl⟩
    obtain ⟨p, hp, hticket, hpcommand⟩ := hpending
    exact h.names _ v hleft hanswered p hp name (hpcommand.trans hcommand) answer o
      (hticket ▸ hr) ho

theorem completes_asked (h : Serves seen scope key) (command : String) (s : Session) :
    (ask command).run.Completes seen (fun r u => Asked command s r u) s :=
  (completes_question h command s).mono fun _ _ hr => hr.1

theorem completes_createVariable (h : Serves seen scope key) (name : String) (s : Session) :
    (createVariable name (some (objectName scope name)) key.thread key.level).run.Completes seen
      (fun r u => Created scope key name s r u) s := by
  unfold createVariable
  refine completes_bind (completes_question h (createCommand scope key name) s) ?_ ?_
  · rintro answer u ⟨hasked, hnamed⟩
    cases ho : VariableObject.ofValue? (.tuple answer.fields) with
    | none => exact completes_throw fun v hv => .nameless (hasked.later hv) ho
    | some o =>
      refine completes_pure fun v hv => ?_
      exact .new (hasked.later hv) ho (hnamed name answer o rfl rfl ho)
  · rintro e u ⟨hasked, -⟩
    exact .refused hasked

theorem completes_updateVariable (h : Serves seen scope key) (name : String) (s : Session) :
    (updateVariable (objectName scope name)).run.Completes seen
      (fun r u => Updated scope name s r u) s := by
  unfold updateVariable
  refine completes_bind (completes_asked h (updateCommand scope name) s) ?_ ?_
  · intro answer u hasked
    have hchanges : (Call.locked (applyChanges (answer.elements "changelist"))).Completes seen
        (fun handles v => Updated scope name s (.ok handles) v) u :=
      fun v hv _ _ w hw => .done (hasked.later hv) hw
    exact completes_lift hchanges fun _ _ hupdated => hupdated
  · exact fun e u hasked => .refused hasked

theorem completes_refresh (h : Serves seen scope key) (name : String) (s : Session) :
    (refresh (objectName scope name)).run.Completes seen
      (fun r u => Refreshed scope name s r u) s := by
  have hlook : (CallM.read (·.registry.byName? (objectName scope name))).run.Completes seen
      (fun r u => r = .ok (s.registry.byName? (objectName scope name)) ∧ Drifts s u) s := by
    refine completes_read fun u v hu hv => ⟨?_, hu.trans hv⟩
    rw [hu.registry]
  unfold refresh
  refine completes_bind hlook ?_ ?_
  · rintro known u ⟨hknown, hu⟩
    cases hknown
    split
    · rename_i hnone
      exact completes_pure fun v hv => .unknown (Option.isNone_iff_eq_none.mp hnone) (hu.trans hv)
    · rename_i hsome
      rw [← Option.not_isSome, Bool.not_eq_true', Bool.not_eq_false] at hsome
      have hupdate : (attempt (updateVariable (objectName scope name))).run.Completes seen
          (fun r v => ∃ a, r = .ok a ∧ Updated scope name s a v) u :=
        completes_lift (completes_updateVariable h name u) fun a v ha => ⟨a, rfl, ha.earlier hu⟩
      refine completes_bind hupdate ?_ ?_
      · rintro updated v ⟨_, hupdated, hdone⟩
        cases hupdated
        cases updated with
        | ok handles =>
          refine completes_read fun w x hw hx => ?_
          have hlater := hdone.later (hw.trans hx)
          obtain ⟨o, ho⟩ := hlater.exists_object hsome
          rw [← hx.registry, ho]
          exact .current hsome hlater ho
        | error e =>
          dsimp only
          split
          · rename_i he
            exact completes_pure fun w hw => .lost hsome (hdone.later hw) he
          · rename_i he
            rw [Bool.not_eq_true] at he
            exact completes_throw fun w hw => .refused hsome (hdone.later hw) he
      · rintro e v ⟨a, ha, -⟩
        cases ha
  · rintro e u ⟨he, -⟩
    cases he

theorem completes_objectOfLocal (h : Serves seen scope key) (name : String) (s : Session) :
    (objectOfLocal scope key name).run.Completes seen
      (fun r u => Fetched scope key name s r u) s := by
  unfold objectOfLocal
  refine completes_bind (completes_refresh h name s) ?_ ?_
  · intro found u hfound
    cases found with
    | some o => exact completes_pure fun v hv => .current (hfound.later hv)
    | none =>
      refine completes_bind (completes_createVariable h name u) ?_ ?_
      · intro o v hcreated
        exact completes_pure fun w hw => .created hfound (hcreated.later hw)
      · exact fun e v hcreated => .created hfound hcreated
  · exact fun e u hrefused => .refused hrefused

theorem completes_memoryReference (h : Serves seen scope key) (o : VariableObject) (s : Session) :
    (memoryReference o).Completes seen (fun reference u => Referred o s reference u) s := by
  unfold memoryReference
  cases hhint : o.memoryHint with
  | none => exact fun u hu => .none hhint hu
  | literal reference => exact fun u hu => .literal hhint hu
  | addressOf x =>
    have hevaluate : (evaluate x 0 0).run.Completes seen (fun r u =>
        ∃ reply, Asked (Command.addressOf o.expression) s reply u ∧ r = reply.bind fun answer =>
          answer.require (Command.addressOf o.expression) "value") s := by
      rw [VariableObject.memoryHint_eq_addressOf hhint, evaluate, Command.evaluate_eq_addressOf]
      refine completes_bind (completes_asked h _ s) ?_ ?_
      · exact fun answer u hasked v hv => ⟨.ok answer, hasked.later hv, rfl⟩
      · exact fun e u hasked => ⟨.error e, hasked, rfl⟩
    refine Call.completes_bind hevaluate fun r u hr v hv => ?_
    obtain ⟨reply, hasked, rfl⟩ := hr v hv
    exact .array ⟨x, hhint⟩ hasked

theorem completes_rowOfLocal (h : Serves seen scope key) (name : String) (s : Session) :
    (rowOfLocal scope key name).Completes seen
      (fun row u => LocalRow scope key name s row u) s := by
  refine Call.completes_bind (completes_objectOfLocal h name s) ?_
  rintro (e | o) u hfetched
  · exact fun v hv => .failed (hfetched v hv) (hfetched v hv).registry_of_error
  · refine Call.completes_bind (completes_memoryReference h o u) fun reference v href => ?_
    exact fun w hw _ _ x hx => .shown (hfetched u (Drifts.refl u)) (href w hw) hx

theorem completes_rows (h : Serves seen scope key) (vs : List StackVariable) (s : Session) :
    (vs.mapM fun v => (ExceptT.lift (rowOfLocal scope key v.name) : CallM Variable)).run.Completes
      seen (fun r u => ∃ rows, r = .ok rows ∧ LocalRows scope key (vs.map (·.name)) s rows u)
      s := by
  induction vs generalizing s with
  | nil => exact completes_pure fun u hu => ⟨[], rfl, .nil hu⟩
  | cons v vs ih =>
    have hfirst : (ExceptT.lift (rowOfLocal scope key v.name) : CallM Variable).run.Completes seen
        (fun r u => ∃ row, r = .ok row ∧ LocalRow scope key v.name s row u) s :=
      completes_lift (completes_rowOfLocal h v.name s) fun row u hrow => ⟨row, rfl, hrow⟩
    rw [List.mapM_cons]
    refine completes_bind hfirst ?_ ?_
    · rintro row u ⟨_, ⟨⟩, hrow⟩
      refine completes_bind (ih u) ?_ ?_
      · rintro rows w ⟨_, ⟨⟩, hrows⟩
        exact completes_pure fun x hx => ⟨row :: rows, rfl, .cons hrow (hrows.later hx)⟩
      · rintro e w ⟨rows, ⟨⟩, -⟩
    · rintro e u ⟨row, ⟨⟩, -⟩

theorem completes_stackVariables (h : Serves seen scope key) (s : Session) :
    (stackVariables key.thread key.level).run.Completes seen (fun r u =>
      ∃ reply, Asked (listCommand key) s reply u ∧
        r = reply.map fun answer => (answer.elements "variables").filterMap StackVariable.ofValue?)
      s := by
  unfold stackVariables
  refine completes_bind (completes_asked h (listCommand key) s) ?_ ?_
  · exact fun answer u hasked => completes_pure fun v hv => ⟨.ok answer, hasked.later hv, rfl⟩
  · exact fun e u hasked => ⟨.error e, hasked, rfl⟩

theorem completes_rowsOfScope (h : Serves seen scope key) (hlocals : key.kind = .locals)
    (s : Session) :
    (rowsOfScope scope key).run.Completes seen (fun r u => Listed scope key s r u) s := by
  unfold rowsOfScope
  rw [hlocals]
  dsimp only
  refine completes_bind (completes_stackVariables h s) ?_ ?_
  · rintro vs u ⟨answer | reply, hasked, hvs⟩
    · cases hvs
    · cases hvs
      refine (completes_rows h _ u).mono ?_
      rintro _ v ⟨rows, rfl, hrows⟩
      rw [map_name_stackVariables] at hrows
      exact .rows hasked hrows
  · rintro e u ⟨answer | reply, hasked, hvs⟩
    · cases hvs
      exact .refused hasked
    · cases hvs

theorem completes_expand (h : Serves seen scope key) (hlocals : key.kind = .locals)
    (hscope : s.registry.entry? scope = some (.scope key)) :
    (expand scope).run.Completes seen (fun r u => Listed scope key s r u) s := by
  have hlook : (CallM.read (Registry.entry? ·.registry scope)).run.Completes seen
      (fun r u => r = .ok (some (.scope key)) ∧ Drifts s u) s := by
    refine completes_read fun u v hu hv => ⟨?_, hu.trans hv⟩
    rw [hu.registry, hscope]
  unfold expand
  refine completes_bind hlook ?_ ?_
  · rintro _ u ⟨⟨⟩, hu⟩
    exact (completes_rowsOfScope h hlocals u).mono fun r v hv => hv.earlier hu
  · rintro e u ⟨⟨⟩, -⟩

end

open Call (moment Attended Met)

/-- The name of a local can be told from the command that creates its object. -/
theorem createCommand_inj {scope : Handle} {key : ScopeKey} {name other : String}
    (h : createCommand scope key name = createCommand scope key other) : name = other := by
  have hread : ∀ t, Argument.read? .between
      ((Quote.argument (objectName scope t)).toList ++ (" @ " ++ Quote.quoted t).toList) =
        some [.ofText (objectName scope t), .word "@", .quoted t] := by
    intro t
    have hne : objectName scope t ≠ "" := by simp [objectName]
    have hquoted : Argument.read? .between (Quote.quoted t).toList = some [.quoted t] := by
      simpa [Argument.read?] using @Argument.read?_quoted [] t (by simp)
    have hwords := @Argument.read?_words ["@"] (by decide) (Quote.quoted t).toList
    have hmark : Argument.read? .between (" @ " ++ Quote.quoted t).toList =
        some [.word "@", .quoted t] := by
      rw [hquoted] at hwords
      rw [String.toList_append]
      exact hwords
    have hblank : ∀ c ∈ (" @ " ++ Quote.quoted t).toList.head?, isBlank c = true := by
      rw [String.toList_append]
      rintro c ⟨⟩
      rfl
    rw [Argument.read?_argument hne hblank, hmark]
    rfl
  have htail : (Quote.argument (objectName scope name)).toList ++
        (" @ " ++ Quote.quoted name).toList =
      (Quote.argument (objectName scope other)).toList ++
        (" @ " ++ Quote.quoted other).toList := by
    simpa [createCommand] using congrArg String.toList h
  have hboth := (hread name).symm.trans ((congrArg _ htail).trans (hread other))
  simp only [Option.some.injEq, List.cons.injEq, Argument.quoted.injEq, and_true, true_and] at hboth
  exact hboth.2

end Session

end MachineInterface
