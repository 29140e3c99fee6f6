import MachineInterface.Proofs.Variable.Handles
import MachineInterface.Session.Variables
import Mathlib.Logic.Relation

/-!
# Objects of locals

The object behind a local is named for its scope and for the local. So it is found again each time
that the scope is expanded, and it is nobody else's, as long as the registry has handles to give.

* `objectName_eq_iff`: the scope and the local can be told from the name.
* `Knows.step`: one more local that is followed, or whatever else is done to the registry.
* `retains_of_leads`, `apart_of_leads`: handles stay, and each belongs to one local of one scope.
-/

namespace MachineInterface

namespace Session

theorem toList_objectName (scope : Handle) (name : String) : (objectName scope name).toList =
    "var_".toList ++ (Nat.toDigits 10 scope.toNat ++ '_' :: name.toList) := by
  simp [objectName, String.toList_append, Nat.toString_eq_repr]

/-- The scope and the local can be told from the name of the object. -/
theorem objectName_eq_iff {scope other : Handle} {name name' : String} :
    objectName scope name = objectName other name' ↔ scope = other ∧ name = name' := by
  refine ⟨fun h => ?_, fun ⟨hscope, hname⟩ => by rw [hscope, hname]⟩
  -- The digits of the scope end where the underscore comes.
  have htake : ∀ (n : Nat) (rest : List Char),
      (Nat.toDigits 10 n ++ '_' :: rest).takeWhile Char.isDigit = Nat.toDigits 10 n := by
    intro n rest
    have hdigits : ∀ c ∈ Nat.toDigits 10 n, c.isDigit = true :=
      fun c hc => Nat.isDigit_of_mem_toDigits (by decide) (by decide) hc
    have hunderscore : '_'.isDigit = false := by decide
    rw [List.takeWhile_append_of_pos hdigits, List.takeWhile_cons, hunderscore]
    exact List.append_nil _
  have hlists := congrArg String.toList h
  rw [toList_objectName, toList_objectName, List.append_cancel_left_eq] at hlists
  have hdigits := congrArg (List.takeWhile Char.isDigit) hlists
  rw [htake, htake] at hdigits
  have hscope : scope = other := by
    apply UInt32.toNat_inj.mp
    rw [← Nat.ofDigitChars_ten_toDigits (n := scope.toNat), hdigits,
      Nat.ofDigitChars_ten_toDigits]
  rw [hscope] at h
  exact ⟨hscope, objectName_inj h⟩

end Session

open Session (objectName objectName_eq_iff)

namespace Registry

/--
Something that is done to a registry when frames are looked at: a scope is asked for, a change that
the debugger reports is taken in, or a local of a Locals scope is followed.
-/
inductive LocalStep (r : Registry) : Registry → Prop
  | scope (key : ScopeKey) : LocalStep r (r.scopeHandle key).2
  | change (c : Value) : LocalStep r (r.apply c).2
  | track {scope : Handle} {key : ScopeKey} {o : VariableObject}
    (hscope : r.entry? scope = some (.scope key)) (hlocals : key.kind = .locals)
    (hname : o.name = objectName scope o.expression) : LocalStep r (r.track o).2

/-- What a registry becomes while scopes are asked for and the locals of some are shown. -/
def Leads : Registry → Registry → Prop := Relation.ReflTransGen LocalStep

theorem leads_applyAll (r : Registry) (changes : List Value) : Leads r (r.applyAll changes).2 := by
  induction changes generalizing r with
  | nil => exact .refl
  | cons c changes ih => exact .head (.change c) (ih (r.apply c).2)

/-! ## Room for more handles -/

theorem size_le_size_insert {r : Registry} (h : Handle) (e : HandleEntry) :
    r.size ≤ (r.entries.insert h e).size := by
  rw [Table.size_insert]
  split
  · exact Nat.le_refl _
  · exact Nat.le_succ _

theorem size_le_apply (r : Registry) (c : Value) : r.size ≤ (r.apply c).2.size := by
  unfold apply
  split
  · exact Nat.le_refl _
  · split
    · exact size_le_size_insert _ _
    · exact Nat.le_refl _

theorem size_le_scopeHandle (r : Registry) (key : ScopeKey) :
    r.size ≤ (r.scopeHandle key).2.size := by
  unfold scopeHandle
  split
  · exact Nat.le_refl _
  · exact size_le_size_insert _ _

theorem size_le_track (r : Registry) (o : VariableObject) : r.size ≤ (r.track o).2.size := by
  unfold track
  split
  · exact size_le_size_insert _ _
  · exact size_le_size_insert _ _

theorem Leads.size_le {r r' : Registry} (h : Leads r r') : r.size ≤ r'.size := by
  induction h with
  | refl => exact Nat.le_refl _
  | tail _ hstep ih =>
    refine Nat.le_trans ih ?_
    cases hstep with
    | scope key => exact size_le_scopeHandle _ key
    | change c => exact size_le_apply _ c
    | track _ _ _ => exact size_le_track _ _

/-- The number of handles that there are. -/
def capacity : Nat := 0xFFFFFFFF

/-- A request that leaves room in the registry brings in no key too many. -/
theorem Numbers.room_serve {requests : List Request} {r : Registry} {a : Request}
    (h : Numbers requests r) (hroom : (keys requests).length < capacity)
    (hsize : (r.serve a).2.size < capacity) : (keys (requests ++ [a])).length < capacity := by
  have hvacant := h.contains_fresh hroom
  have hnew : ∀ {k e}, a.opens? = some k →
      (k ∉ keys requests → (r.serve a).2.entries = r.entries.insert r.fresh e) →
        (keys (requests ++ [a])).length < capacity := by
    intro k e ha hentries
    by_cases hk : k ∈ keys requests
    · rwa [keys_of_mem hk ha]
    · have hlength : (r.serve a).2.size = (keys requests).length + 1 := by
        calc (r.serve a).2.size = (r.entries.insert r.fresh e).size :=
              congrArg Table.size (hentries hk)
          _ = r.size + 1 := by rw [Table.size_insert, hvacant]; rfl
          _ = (keys requests).length + 1 := by rw [h.size]
      rw [keys_concat, see, ha]
      simp only [hk, if_false, List.length_append, List.length_singleton]
      omega
  cases a with
  | scope key =>
    refine hnew (e := .scope key) rfl fun hk => ?_
    have hget := h.scopes key
    rw [handleOf?, if_neg hk] at hget
    simp only [Registry.serve, scopeHandle, hget, allocate]
  | track o =>
    refine hnew (e := .object o) rfl fun hk => ?_
    have hget := h.objects o.name
    rw [handleOf?, if_neg hk] at hget
    simp only [Registry.serve, Registry.track, hget, allocate]
  | change c =>
    have hkeys : keys (requests ++ [.change c]) = keys requests := keys_concat
    rwa [hkeys]

/-! ## What the registry knows of locals -/

/-- The registry agrees with requests that follow nothing but locals, and has room. -/
structure Knows (requests : List Request) (r : Registry) : Prop where
  numbers : Numbers requests r
  room : (keys requests).length < capacity
  locals : ∀ name o, latest? requests name = some o →
    ∃ scope, name = objectName scope o.expression

namespace Knows

variable {requests : List Request} {r r' : Registry}

theorem serve (h : Knows requests r) {a : Request} (hsize : (r.serve a).2.size < capacity)
    (ha : ∀ o, a = .track o → ∃ scope, o.name = objectName scope o.expression) :
    Knows (requests ++ [a]) (r.serve a).2 := by
  have hroom := h.numbers.room_serve h.room hsize
  refine ⟨(h.numbers.serve a hroom).2, hroom, fun name o ho => ?_⟩
  rw [latest?_concat] at ho
  cases a with
  | scope key => exact h.locals name o ho
  | track o' =>
    rw [note] at ho
    split at ho
    · rename_i hname
      cases ho
      rw [← hname]
      exact ha o rfl
    · exact h.locals name o ho
  | change c =>
    rw [note] at ho
    split at ho
    · obtain ⟨o', ho', rfl⟩ := Option.map_eq_some_iff.mp ho
      exact h.locals name o' ho'
    · exact h.locals name o ho

/-- One more thing is done to the registry. -/
theorem step (h : Knows requests r) (hstep : LocalStep r r') (hsize : r'.size < capacity) :
    ∃ a, Knows (requests ++ [a]) r' := by
  cases hstep with
  | scope key => exact ⟨.scope key, h.serve hsize fun o ho => Request.noConfusion ho⟩
  | change c => exact ⟨.change c, h.serve hsize fun o ho => Request.noConfusion ho⟩
  | @track scope key o hscope hlocals hname =>
    refine ⟨.track o, h.serve hsize ?_⟩
    rintro _ ⟨⟩
    exact ⟨scope, hname⟩

/-- All that is done to the registry, as long as it has room. -/
theorem leads (h : Knows requests r) (hleads : Leads r r') (hsize : r'.size < capacity) :
    ∃ more, Knows (requests ++ more) r' := by
  induction hleads with
  | refl => exact ⟨[], by rwa [List.append_nil]⟩
  | tail _ hstep ih =>
    have hle := Leads.size_le (.single hstep)
    obtain ⟨more, hmore⟩ := ih (Nat.lt_of_le_of_lt hle hsize)
    obtain ⟨a, ha⟩ := hmore.step hstep hsize
    exact ⟨more ++ [a], by rwa [← List.append_assoc]⟩

theorem mem_of_handle? (h : Knows requests r) {name : String} {n : Handle}
    (hn : r.handle? name = some n) :
    .object name ∈ keys requests ∧ n = handleOf (keys requests) (.object name) := by
  have hget := (h.numbers.objects name).symm.trans hn
  rw [handleOf?] at hget
  split at hget
  · rename_i hmem
    exact ⟨hmem, (Option.some.inj hget).symm⟩
  · cases hget

/-- The handle of a name stands for the object of this name, which is that of a local. -/
theorem exists_object (h : Knows requests r) {name : String} {n : Handle}
    (hn : r.handle? name = some n) : ∃ o scope, r.entry? n = some (.object o) ∧ o.name = name ∧
      name = objectName scope o.expression := by
  obtain ⟨hmem, rfl⟩ := h.mem_of_handle? hn
  obtain ⟨o, ho⟩ := Option.isSome_iff_exists.mp (isSome_latest?.mpr hmem)
  obtain ⟨scope, hname⟩ := h.locals name o ho
  refine ⟨o, scope, ?_, name_of_latest? ho, hname⟩
  unfold Registry.entry?
  rw [h.numbers.entries _ hmem, known?, ho, Option.map_some]

end Knows

theorem exists_knows {r : Registry} (h : Leads {} r) (hsize : r.size < capacity) :
    ∃ requests, Knows requests r := by
  have hempty : Knows [] {} := by
    refine ⟨Numbers.empty, by decide, ?_⟩
    rintro name o ⟨⟩
  exact hempty.leads h hsize

/-! ## Handles of locals -/

/-- Handles stay with their names, and those of scopes with their scopes. -/
structure Retains (r r' : Registry) : Prop where
  handles : ∀ name n, r.handle? name = some n → r'.handle? name = some n
  scopes : ∀ n key, r.entry? n = some (.scope key) → r'.entry? n = some (.scope key)

/-- The handle of a local is that of no other local, and it stands for an object of this local. -/
structure Apart (r : Registry) : Prop where
  handles : ∀ scope name scope' name' n, r.handle? (objectName scope name) = some n →
    r.handle? (objectName scope' name') = some n → scope' = scope ∧ name' = name
  entries : ∀ scope name n, r.handle? (objectName scope name) = some n →
    ∃ o, r.entry? n = some (.object o) ∧ o.name = objectName scope name ∧ o.expression = name

variable {r r' : Registry}

theorem retains_of_leads (h : Leads {} r) (hleads : Leads r r') (hsize : r'.size < capacity) :
    Retains r r' := by
  obtain ⟨requests, hr⟩ := exists_knows h (Nat.lt_of_le_of_lt hleads.size_le hsize)
  obtain ⟨more, hr'⟩ := hr.leads hleads hsize
  have hkeys := prefix_keys_append requests more
  constructor
  · intro name n hn
    obtain ⟨hmem, rfl⟩ := hr.mem_of_handle? hn
    have hget := hr'.numbers.objects name
    rwa [handleOf?, if_pos (hkeys.subset hmem), handleOf_of_longer hkeys hmem] at hget
  · intro n key hn
    have hcontains : r.entries.contains n = true := by
      rw [Table.contains_eq_isSome]
      exact congrArg Option.isSome hn
    obtain ⟨k, hk, rfl⟩ := hr.numbers.given n hcontains
    have hkey : k = .scope key := (key_of_known? ((hr.numbers.entries k hk).symm.trans hn)).symm
    have hentry := hr'.numbers.entries k (hkeys.subset hk)
    rw [handleOf_of_longer hkeys hk, hkey] at hentry
    rw [hkey]
    exact hentry

theorem apart_of_leads (h : Leads {} r) (hsize : r.size < capacity) : Apart r := by
  obtain ⟨requests, hr⟩ := exists_knows h hsize
  constructor
  · intro scope name scope' name' n hn hn'
    obtain ⟨hmem, hhandle⟩ := hr.mem_of_handle? hn
    obtain ⟨hmem', hhandle'⟩ := hr.mem_of_handle? hn'
    have hkeys := (handleOf_inj hr.room hmem' hmem).mp (hhandle'.symm.trans hhandle)
    exact objectName_eq_iff.mp (HandleKey.object.inj hkeys)
  · intro scope name n hn
    obtain ⟨o, scope', hentry, hname, hobject⟩ := hr.exists_object hn
    exact ⟨o, hentry, hname, (objectName_eq_iff.mp hobject).2.symm⟩

/-- A known object of a local shows the local under the name of the object. -/
theorem Apart.of_byName? (h : Apart r) {scope : Handle} {name : String} {o : VariableObject}
    (ho : r.byName? (objectName scope name) = some o) :
    o.name = objectName scope name ∧ o.expression = name := by
  obtain ⟨n, hn, hobject⟩ := Option.bind_eq_some_iff.mp ho
  obtain ⟨o', hentry, hname, hexpression⟩ := h.entries scope name n hn
  rw [object?, hentry] at hobject
  cases hobject
  exact ⟨hname, hexpression⟩

end Registry

end MachineInterface
