import MachineInterface.Proofs.Breakpoint.Board
import MachineInterface.Variable.Registry
import Mathlib.Data.List.Basic
import Mathlib.Data.List.Induction

/-!
# Stable handles

A registry numbers its keys, which are scopes and names of objects, in the order in which they were
first asked for. The number of a key never changes, and what it stands for is what the requests say
about this key alone.

* `Numbers.serve`: one more request, against the list of keys and what is known of each.
* `handles_stable`: every handle that was ever given, after any requests.
-/

namespace MachineInterface

/-- What a handle is given for. -/
inductive HandleKey where
  | scope (key : ScopeKey)
  | object (name : String)
  deriving Repr, DecidableEq

/-- The key of what a handle stands for. -/
def HandleEntry.key : HandleEntry → HandleKey
  | scope key => .scope key
  | object o => .object o.name

/-- Something that is asked of a registry. -/
inductive Request where
  | scope (key : ScopeKey)
  | track (o : VariableObject)
  | change (change : Value)

namespace Request

/-- What a request is about, unless it is a change that names no object. -/
def key? : Request → Option HandleKey
  | scope key => some (.scope key)
  | track o => some (.object o.name)
  | change c => (c.lookupText? "name").map .object

/-- The key that a request brings in, if it is new. A change brings none in. -/
def opens? : Request → Option HandleKey
  | change _ => none
  | a => a.key?

end Request

namespace Registry

/-- The handle that a request is answered with, and the registry after it. -/
def serve (r : Registry) : Request → Option Handle × Registry
  | .scope key => (some (r.scopeHandle key).1, (r.scopeHandle key).2)
  | .track o => (some (r.track o).1, (r.track o).2)
  | .change c => r.apply c

/-- The answers to some requests, in order, and the registry after them. -/
def serveAll (r : Registry) : List Request → List (Option Handle) × Registry
  | [] => ([], r)
  | a :: rest =>
    let (handle, r) := r.serve a
    let (handles, r) := r.serveAll rest
    (handle :: handles, r)

theorem serveAll_concat (r : Registry) (requests : List Request) (a : Request) :
    r.serveAll (requests ++ [a]) =
      ((r.serveAll requests).1 ++ [((r.serveAll requests).2.serve a).1],
        ((r.serveAll requests).2.serve a).2) := by
  induction requests generalizing r with
  | nil => rfl
  | cons b requests ih => simp only [List.cons_append, serveAll, ih]

theorem length_serveAll (r : Registry) (requests : List Request) :
    (r.serveAll requests).1.length = requests.length := by
  induction requests generalizing r with
  | nil => rfl
  | cons a requests ih => simp only [serveAll, List.length_cons, ih]

theorem serveAll_append (r : Registry) (requests more : List Request) :
    (r.serveAll (requests ++ more)).2 = ((r.serveAll requests).2.serveAll more).2 := by
  induction requests generalizing r with
  | nil => rfl
  | cons a requests ih => exact ih (r.serve a).2

/-- A registry has served some more requests. -/
def Later (r r' : Registry) : Prop := ∃ requests, r' = (r.serveAll requests).2

namespace Later

theorem refl (r : Registry) : r.Later r := ⟨[], rfl⟩

theorem trans {r r' r'' : Registry} (h : r.Later r') (h' : r'.Later r'') : r.Later r'' := by
  obtain ⟨requests, rfl⟩ := h
  obtain ⟨more, rfl⟩ := h'
  exact ⟨requests ++ more, (r.serveAll_append requests more).symm⟩

theorem serve (r : Registry) (a : Request) : r.Later (r.serve a).2 := ⟨[a], rfl⟩

theorem applyAll (r : Registry) (changes : List Value) : r.Later (r.applyAll changes).2 := by
  induction changes generalizing r with
  | nil => exact refl r
  | cons c changes ih => exact (serve r (.change c)).trans (ih (r.apply c).2)

end Later

/-! ## What the requests say -/

/-- Keys with one more behind them, if it is new. -/
def see (keys : List HandleKey) (a : Request) : List HandleKey :=
  match a.opens? with
  | some k => if k ∈ keys then keys else keys ++ [k]
  | none => keys

/-- The keys that some requests bring in, in the order in which they first do. -/
def keys (requests : List Request) : List HandleKey := requests.foldl see []

/-- The data of an object after one more request. -/
def note (name : String) (known : Option VariableObject) : Request → Option VariableObject
  | .scope _ => known
  | .track o => if o.name = name then some o else known
  | .change c => if c.lookupText? "name" = some name then known.map (·.apply c) else known

/-- The data that was last tracked under a name, with all later changes. -/
def latest? (requests : List Request) (name : String) : Option VariableObject :=
  requests.foldl (note name) none

/-- What the requests say about a key. -/
def known? (requests : List Request) : HandleKey → Option HandleEntry
  | .scope key => some (.scope key)
  | .object name => (latest? requests name).map .object

/-- The handle of a key: its place among the keys, counted from one. -/
def handleOf (keys : List HandleKey) (k : HandleKey) : Handle := UInt32.ofNat (keys.idxOf k + 1)

section

variable {requests : List Request} {a : Request} {k : HandleKey}

theorem keys_concat : keys (requests ++ [a]) = see (keys requests) a := by
  simp [keys]

theorem latest?_concat (name : String) :
    latest? (requests ++ [a]) name = note name (latest? requests name) a := by
  simp [latest?]

theorem prefix_see (ks : List HandleKey) (a : Request) : ks <+: see ks a := by
  unfold see
  split
  · split
    · exact List.prefix_rfl
    · exact List.prefix_append _ _
  · exact List.prefix_rfl

theorem prefix_keys_append (earlier later : List Request) :
    keys earlier <+: keys (earlier ++ later) := by
  induction later using List.reverseRecOn with
  | nil => simp
  | append_singleton later a ih =>
    rw [← List.append_assoc, keys_concat]
    exact ih.trans (prefix_see _ a)

theorem mem_see {ks : List HandleKey} : k ∈ see ks a ↔ k ∈ ks ∨ a.opens? = some k := by
  unfold see
  split
  · split
    · rename_i k' hk hmem
      rw [hk, Option.some.injEq]
      exact ⟨.inl, fun h => h.elim id fun h => h ▸ hmem⟩
    · rename_i k' hk hmem
      rw [hk, Option.some.injEq, List.mem_append, List.mem_singleton, eq_comm]
  · rename_i hnone
    simp [hnone]

/-- The data under a name is an object of this name. -/
theorem name_of_latest? {name : String} {o : VariableObject} (h : latest? requests name = some o) :
    o.name = name := by
  induction requests using List.reverseRecOn generalizing o with
  | nil => cases h
  | append_singleton requests a ih =>
    rw [latest?_concat] at h
    cases a with
    | scope key => exact ih h
    | track o' =>
      simp only [note] at h
      split at h
      · cases h
        assumption
      · exact ih h
    | change c =>
      simp only [note] at h
      split at h
      · obtain ⟨o', ho', rfl⟩ := Option.map_eq_some_iff.mp h
        rw [VariableObject.name_apply, ih ho']
      · exact ih h

/-- There is data under a name exactly when an object of this name was tracked. -/
theorem isSome_latest? {name : String} :
    (latest? requests name).isSome = true ↔ .object name ∈ keys requests := by
  induction requests using List.reverseRecOn with
  | nil => simp [latest?, keys]
  | append_singleton requests a ih =>
    rw [latest?_concat, keys_concat, mem_see, ← ih]
    cases a with
    | scope key => simp [note, Request.opens?, Request.key?]
    | track o => by_cases h : o.name = name <;> simp [note, Request.opens?, Request.key?, h]
    | change c => by_cases h : c.lookupText? "name" = some name <;> simp [note, Request.opens?, h]

theorem isSome_known? (h : k ∈ keys requests) : (known? requests k).isSome = true := by
  cases k with
  | scope key => rfl
  | object name => rw [known?, Option.isSome_map, isSome_latest?.mpr h]

theorem key_of_known? {e : HandleEntry} (h : known? requests k = some e) : e.key = k := by
  cases k with
  | scope key =>
    cases h
    rfl
  | object name =>
    obtain ⟨o, ho, rfl⟩ := Option.map_eq_some_iff.mp h
    exact congrArg HandleKey.object (name_of_latest? ho)

end

/-! ## Handles by their keys -/

section

variable {ks : List HandleKey} {k k' : HandleKey}

theorem toNat_handleOf (hroom : ks.length < 0xFFFFFFFF) (h : k ∈ ks) :
    (handleOf ks k).toNat = ks.idxOf k + 1 := by
  have hlt := List.idxOf_lt_length_iff.mpr h
  rw [handleOf, UInt32.toNat_ofNat', Nat.mod_eq_of_lt (by omega)]

theorem handleOf_ne_zero (hroom : ks.length < 0xFFFFFFFF) (h : k ∈ ks) : handleOf ks k ≠ 0 := by
  intro hzero
  have hnat := toNat_handleOf hroom h
  rw [hzero, UInt32.toNat_zero] at hnat
  omega

theorem handleOf_inj (hroom : ks.length < 0xFFFFFFFF) (h : k ∈ ks) (h' : k' ∈ ks) :
    handleOf ks k = handleOf ks k' ↔ k = k' := by
  refine ⟨fun heq => ?_, congrArg _⟩
  have hnat := congrArg UInt32.toNat heq
  rw [toNat_handleOf hroom h, toNat_handleOf hroom h', Nat.add_right_cancel_iff] at hnat
  exact (List.idxOf_inj h).mp hnat

/-- More keys do not change the handle of an earlier one. -/
theorem handleOf_of_longer {more : List HandleKey} (hp : ks <+: more) (h : k ∈ ks) :
    handleOf more k = handleOf ks k := by
  obtain ⟨new, rfl⟩ := hp
  rw [handleOf, handleOf, List.idxOf_append_of_mem h]

theorem handleOf_concat (h : k ∉ ks) : handleOf (ks ++ [k]) k = UInt32.ofNat (ks.length + 1) := by
  rw [handleOf, List.idxOf_append_of_notMem h, List.idxOf_cons_self, Nat.add_zero]

end

/-- A request says nothing about another key. -/
theorem known?_concat_of_ne {requests : List Request} {a : Request} {k : HandleKey}
    (h : a.key? ≠ some k) : known? (requests ++ [a]) k = known? requests k := by
  cases k with
  | scope key => rfl
  | object name =>
    rw [known?, known?, latest?_concat]
    cases a with
    | scope key => rfl
    | track o =>
      have hname : o.name ≠ name := by
        rintro rfl
        exact h rfl
      rw [note, if_neg hname]
    | change c =>
      have hname : c.lookupText? "name" ≠ some name := by
        intro hc
        exact h (by rw [Request.key?, hc, Option.map_some])
      rw [note, if_neg hname]

end Registry

/-- A new key makes a table larger by one. -/
theorem Table.size_insert {κ α : Type} [DecidableEq κ] (t : Table κ α) (k : κ) (a : α) :
    (t.insert k a).size = if t.contains k then t.size else t.size + 1 := by
  obtain ⟨es⟩ := t
  simp only [insert, size, contains]
  induction es with
  | nil => rfl
  | cons e es ih =>
    by_cases he : e.1 = k
    · simp [put, he]
    · cases hany : es.any (·.1 = k) <;> simp [put, he, ih, hany]

namespace Registry

/-! ## The numbering -/

/-- The handle of a key that was brought in. -/
def handleOf? (ks : List HandleKey) (k : HandleKey) : Option Handle :=
  if k ∈ ks then some (handleOf ks k) else none

theorem handleOf?_concat {ks : List HandleKey} {k : HandleKey} (h : k ∉ ks) :
    handleOf? (ks ++ [k]) k = some (UInt32.ofNat (ks.length + 1)) := by
  rw [handleOf?, if_pos (by simp), handleOf_concat h]

theorem handleOf?_concat_of_ne {ks : List HandleKey} {k k' : HandleKey} (hne : k ≠ k') :
    handleOf? (ks ++ [k]) k' = handleOf? ks k' := by
  by_cases hk' : k' ∈ ks
  · rw [handleOf?, handleOf?, if_pos hk', if_pos (List.mem_append_left _ hk'),
      handleOf_of_longer (List.prefix_append _ _) hk']
  · rw [handleOf?, handleOf?, if_neg hk', if_neg]
    simpa [hk'] using hne.symm

/-- A registry agrees with the requests: its keys are numbered, and it holds what is known. -/
structure Numbers (requests : List Request) (r : Registry) : Prop where
  fresh : r.fresh = UInt32.ofNat ((keys requests).length + 1)
  scopes : ∀ key, r.scopes.get? key = handleOf? (keys requests) (.scope key)
  objects : ∀ name, r.objects.get? name = handleOf? (keys requests) (.object name)
  entries : ∀ k ∈ keys requests, r.entries.get? (handleOf (keys requests) k) = known? requests k
  given : ∀ h, r.entries.contains h = true → ∃ k ∈ keys requests, h = handleOf (keys requests) k
  size : r.size = (keys requests).length

namespace Numbers

variable {requests : List Request} {r : Registry} {a : Request} {k : HandleKey} {e : HandleEntry}

theorem empty : Numbers [] {} := by
  refine ⟨rfl, fun _ => rfl, fun _ => rfl, ?_, ?_, rfl⟩
  · intro k hk
    cases hk
  · intro h hh
    cases hh

/-- A handle that is not known yet stands for nothing. -/
theorem contains_fresh (h : Numbers requests r) (hroom : (keys requests).length < 0xFFFFFFFF) :
    r.entries.contains r.fresh = false := by
  rw [← Bool.not_eq_true]
  intro hcontains
  obtain ⟨k, hk, hfresh⟩ := h.given _ hcontains
  have hnat := congrArg UInt32.toNat (h.fresh.symm.trans hfresh)
  have hlt := List.idxOf_lt_length_iff.mpr hk
  rw [toNat_handleOf hroom hk, UInt32.toNat_ofNat', Nat.mod_eq_of_lt (by omega)] at hnat
  omega

/-- A request that brings in no key and changes nothing. -/
theorem same (h : Numbers requests r) (hkeys : keys (requests ++ [a]) = keys requests)
    (hknown : ∀ k ∈ keys requests, known? (requests ++ [a]) k = known? requests k) :
    Numbers (requests ++ [a]) r := by
  refine ⟨?_, ?_, ?_, ?_, ?_, ?_⟩
  · rw [hkeys, h.fresh]
  · rw [hkeys]
    exact h.scopes
  · rw [hkeys]
    exact h.objects
  · intro k hk
    rw [hkeys] at hk ⊢
    rw [h.entries k hk, hknown k hk]
  · rw [hkeys]
    exact h.given
  · rw [hkeys, h.size]

/-- A request that replaces what is known of a key. -/
theorem replace (h : Numbers requests r) (hroom : (keys requests).length < 0xFFFFFFFF)
    (hkeys : keys (requests ++ [a]) = keys requests) (hk : k ∈ keys requests)
    (ha : a.key? = some k) (he : known? (requests ++ [a]) k = some e) :
    Numbers (requests ++ [a])
      { r with entries := r.entries.insert (handleOf (keys requests) k) e } := by
  have hcontains : r.entries.contains (handleOf (keys requests) k) = true := by
    rw [Table.contains_eq_isSome, h.entries k hk, isSome_known? hk]
  refine ⟨?_, ?_, ?_, ?_, ?_, ?_⟩
  · rw [hkeys]
    exact h.fresh
  · rw [hkeys]
    exact h.scopes
  · rw [hkeys]
    exact h.objects
  · intro k' hk'
    rw [hkeys] at hk' ⊢
    rw [Table.get?_insert]
    by_cases hne : k = k'
    · rw [if_pos (congrArg _ hne), ← hne, he]
    · rw [if_neg ((handleOf_inj hroom hk hk').not.mpr hne), h.entries k' hk',
        known?_concat_of_ne (by rwa [ha, Ne, Option.some.injEq])]
  · intro n hn
    rw [hkeys]
    rw [Table.contains_eq_isSome, Table.get?_insert] at hn
    split at hn
    · rename_i heq
      exact ⟨k, hk, heq.symm⟩
    · exact h.given n (by rw [Table.contains_eq_isSome, hn])
  · rw [hkeys]
    exact (Table.size_insert r.entries _ e).trans ((if_pos hcontains).trans h.size)

theorem fresh_of_next {r' : Registry} {n : Nat} (hnext : r'.next = successor r.fresh)
    (hfresh : r.fresh = UInt32.ofNat (n + 1)) (hroom : n + 1 < 0xFFFFFFFF) :
    r'.fresh = UInt32.ofNat (n + 1 + 1) := by
  have hnat : r.fresh.toNat = n + 1 := by
    rw [hfresh, UInt32.toNat_ofNat', Nat.mod_eq_of_lt (by omega)]
  have hlast : r.fresh ≠ 0xFFFFFFFF := by
    intro heq
    rw [heq] at hnat
    exact absurd hnat (by simp; omega)
  have hsuccessor : r'.next = UInt32.ofNat (n + 1 + 1) := by
    rw [hnext, successor, if_neg hlast, hfresh]
    apply UInt32.toNat_inj.mp
    simp
  have hzero : r'.next ≠ 0 := by
    intro heq
    have hnat' := congrArg UInt32.toNat (hsuccessor.symm.trans heq)
    rw [UInt32.toNat_ofNat', Nat.mod_eq_of_lt (by omega)] at hnat'
    cases hnat'
  rw [Registry.fresh, if_neg hzero, hsuccessor]

/-- A request that brings in a key, which gets the next handle. -/
theorem bring {r' : Registry} (h : Numbers requests r)
    (hroom : (keys (requests ++ [a])).length < 0xFFFFFFFF) (hk : k ∉ keys requests)
    (ha : a.opens? = some k) (hkey : a.key? = some k) (he : known? (requests ++ [a]) k = some e)
    (hnext : r'.next = successor r.fresh) (hentries : r'.entries = r.entries.insert r.fresh e)
    (hscopes : ∀ key, r'.scopes.get? key =
      if k = .scope key then some r.fresh else r.scopes.get? key)
    (hobjects : ∀ name, r'.objects.get? name =
      if k = .object name then some r.fresh else r.objects.get? name) :
    some r.fresh = handleOf? (keys (requests ++ [a])) k ∧ Numbers (requests ++ [a]) r' := by
  have hkeys : keys (requests ++ [a]) = keys requests ++ [k] := by
    rw [keys_concat, see, ha]
    exact if_neg hk
  have hlength : (keys requests).length + 1 < 0xFFFFFFFF := by
    rwa [hkeys, List.length_append, List.length_singleton] at hroom
  have hnew : handleOf (keys requests ++ [k]) k = r.fresh := by
    rw [handleOf_concat hk, h.fresh]
  have hold : ∀ k' ∈ keys requests,
      handleOf (keys requests ++ [k]) k' = handleOf (keys requests) k' :=
    fun k' hk' => handleOf_of_longer (List.prefix_append _ _) hk'
  have hself : handleOf? (keys requests ++ [k]) k = some r.fresh := by
    rw [handleOf?_concat hk, h.fresh]
  refine ⟨by rw [hkeys, hself], ?_, ?_, ?_, ?_, ?_, ?_⟩
  · rw [hkeys, List.length_append, List.length_singleton, ← fresh_of_next hnext h.fresh hlength]
  · intro key
    rw [hkeys, hscopes]
    split
    · rename_i heq
      rw [← heq, hself]
    · rename_i hne
      rw [handleOf?_concat_of_ne hne, h.scopes]
  · intro name
    rw [hkeys, hobjects]
    split
    · rename_i heq
      rw [← heq, hself]
    · rename_i hne
      rw [handleOf?_concat_of_ne hne, h.objects]
  · intro k' hk'
    rw [hkeys] at hk' ⊢
    rw [hentries, Table.get?_insert]
    rcases List.mem_append.mp hk' with hmem | hmem
    · have hne : k ≠ k' := by
        rintro rfl
        exact hk hmem
      have hvacant := h.contains_fresh (by omega)
      rw [hold k' hmem, if_neg, h.entries k' hmem,
        known?_concat_of_ne (by rwa [hkey, Ne, Option.some.injEq])]
      intro heq
      rw [heq, Table.contains_eq_isSome, h.entries k' hmem, isSome_known? hmem] at hvacant
      cases hvacant
    · obtain rfl := List.mem_singleton.mp hmem
      rw [hnew, if_pos rfl, he]
  · intro n hn
    rw [hkeys]
    rw [hentries, Table.contains_eq_isSome, Table.get?_insert] at hn
    split at hn
    · rename_i heq
      exact ⟨k, by simp, heq.symm.trans hnew.symm⟩
    · obtain ⟨k', hk', rfl⟩ := h.given n (by rw [Table.contains_eq_isSome, hn])
      exact ⟨k', List.mem_append_left _ hk', (hold k' hk').symm⟩
  · rw [hkeys, List.length_append, List.length_singleton, ← h.size]
    have hvacant := h.contains_fresh (by omega)
    calc r'.size = (r.entries.insert r.fresh e).size := congrArg Table.size hentries
      _ = r.size + 1 := by rw [Table.size_insert, hvacant]; rfl

/-- A key that is there already is not brought in again. -/
theorem keys_of_mem (hk : k ∈ keys requests) (ha : a.opens? = some k) :
    keys (requests ++ [a]) = keys requests := by
  rw [keys_concat, see, ha]
  exact if_pos hk

theorem serve_scope (h : Numbers requests r) (key : ScopeKey)
    (hroom : (keys (requests ++ [.scope key])).length < 0xFFFFFFFF) :
    (r.serve (.scope key)).1 = handleOf? (keys (requests ++ [.scope key])) (.scope key) ∧
      Numbers (requests ++ [.scope key]) (r.serve (.scope key)).2 := by
  have hget := h.scopes key
  by_cases hk : .scope key ∈ keys requests
  · have hkeys := keys_of_mem (a := .scope key) hk rfl
    have hserve : r.serve (.scope key) = (handleOf? (keys requests) (.scope key), r) := by
      rw [handleOf?, if_pos hk] at hget ⊢
      simp only [Registry.serve, scopeHandle, hget]
    rw [hserve, hkeys]
    refine ⟨rfl, h.same hkeys fun k _ => ?_⟩
    cases k with
    | scope key => rfl
    | object name => rw [known?, known?, latest?_concat, note]
  · have hserve : r.serve (.scope key) = (some r.fresh,
        { r.allocate (.scope key) with scopes := r.scopes.insert key r.fresh }) := by
      rw [handleOf?, if_neg hk] at hget
      simp only [Registry.serve, scopeHandle, hget]
    rw [hserve]
    refine h.bring hroom hk rfl rfl rfl rfl rfl (fun key' => ?_) fun name => ?_
    · simp only [Table.get?_insert, HandleKey.scope.injEq]
    · rw [if_neg (by rintro ⟨⟩)]
      rfl

theorem serve_track (h : Numbers requests r) (o : VariableObject)
    (hroom : (keys (requests ++ [.track o])).length < 0xFFFFFFFF) :
    (r.serve (.track o)).1 = handleOf? (keys (requests ++ [.track o])) (.object o.name) ∧
      Numbers (requests ++ [.track o]) (r.serve (.track o)).2 := by
  have hget := h.objects o.name
  have hdata : known? (requests ++ [.track o]) (.object o.name) = some (.object o) := by
    rw [known?, latest?_concat, note, if_pos rfl, Option.map_some]
  by_cases hk : .object o.name ∈ keys requests
  · have hkeys := keys_of_mem (a := .track o) hk rfl
    have hserve : r.serve (.track o) = (handleOf? (keys requests) (.object o.name),
        { r with
          entries := r.entries.insert (handleOf (keys requests) (.object o.name))
            (.object o) }) := by
      rw [handleOf?, if_pos hk] at hget ⊢
      simp only [Registry.serve, track, hget]
    rw [hserve, hkeys]
    exact ⟨rfl, h.replace (hkeys ▸ hroom) hkeys hk rfl hdata⟩
  · have hserve : r.serve (.track o) = (some r.fresh,
        { r.allocate (.object o) with objects := r.objects.insert o.name r.fresh }) := by
      rw [handleOf?, if_neg hk] at hget
      simp only [Registry.serve, track, hget]
    rw [hserve]
    refine h.bring hroom hk rfl rfl hdata rfl rfl (fun key => ?_) fun name => ?_
    · rw [if_neg (by rintro ⟨⟩)]
      rfl
    · simp only [Table.get?_insert, HandleKey.object.injEq]

theorem serve_change (h : Numbers requests r) (c : Value)
    (hroom : (keys requests).length < 0xFFFFFFFF) :
    (r.serve (.change c)).1 = (Request.change c).key?.bind (handleOf? (keys requests)) ∧
      Numbers (requests ++ [.change c]) (r.serve (.change c)).2 := by
  have hkeys : keys (requests ++ [.change c]) = keys requests := keys_concat
  have hother : ∀ k, (Request.change c).key? ≠ some k →
      known? (requests ++ [.change c]) k = known? requests k := fun _ => known?_concat_of_ne
  cases hname : c.lookupText? "name" with
  | none =>
    have hkey : (Request.change c).key? = none := by
      rw [Request.key?, hname, Option.map_none]
    have hserve : r.serve (.change c) = (none, r) := by
      simp only [Registry.serve, apply, hname, Option.bind_none]
    rw [hserve, hkey]
    exact ⟨rfl, h.same hkeys fun k _ => hother k (by rw [hkey]; rintro ⟨⟩)⟩
  | some name =>
    have hkey : (Request.change c).key? = some (.object name) := by
      rw [Request.key?, hname, Option.map_some]
    have hget := h.objects name
    rw [hkey, Option.bind_some]
    by_cases hk : .object name ∈ keys requests
    · obtain ⟨o, ho⟩ := Option.isSome_iff_exists.mp (isSome_latest?.mpr hk)
      have hentry := h.entries _ hk
      rw [known?, ho, Option.map_some] at hentry
      have hdata : known? (requests ++ [.change c]) (.object name) =
          some (.object (o.apply c)) := by
        rw [known?, latest?_concat, note, if_pos hname, ho, Option.map_some, Option.map_some]
      have hserve : r.serve (.change c) = (handleOf? (keys requests) (.object name),
          { r with
            entries := r.entries.insert (handleOf (keys requests) (.object name))
              (.object (o.apply c)) }) := by
        rw [handleOf?, if_pos hk] at hget ⊢
        simp only [Registry.serve, apply, hname, Option.bind_some, handle?, hget, object?, entry?,
          hentry]
      rw [hserve]
      exact ⟨rfl, h.replace hroom hkeys hk hkey hdata⟩
    · have hserve : r.serve (.change c) = (handleOf? (keys requests) (.object name), r) := by
        rw [handleOf?, if_neg hk] at hget ⊢
        simp only [Registry.serve, apply, hname, Option.bind_some, handle?, hget]
      rw [hserve]
      refine ⟨rfl, h.same hkeys fun k hk' => hother k ?_⟩
      rw [hkey]
      rintro ⟨⟩
      exact hk hk'

/-- One more request: its answer is the handle of its key, if the key was brought in. -/
theorem serve (h : Numbers requests r) (a : Request)
    (hroom : (keys (requests ++ [a])).length < 0xFFFFFFFF) :
    (r.serve a).1 = a.key?.bind (handleOf? (keys (requests ++ [a]))) ∧
      Numbers (requests ++ [a]) (r.serve a).2 := by
  cases a with
  | scope key => exact h.serve_scope key hroom
  | track o => exact h.serve_track o hroom
  | change c =>
    have hkeys : keys (requests ++ [.change c]) = keys requests := keys_concat
    rw [hkeys] at hroom ⊢
    exact h.serve_change c hroom

end Numbers

/-! ## Any requests -/

/-- The registry after some requests, and the answer to each of them. -/
theorem numbers_serveAll {requests : List Request}
    (hroom : (keys requests).length < 0xFFFFFFFF) :
    Numbers requests (serveAll {} requests).2 ∧
      ∀ (i : Nat) (a : Request) (answer : Option Handle), requests[i]? = some a →
        (serveAll {} requests).1[i]? = some answer →
        answer = a.key?.bind (handleOf? (keys (requests.take (i + 1)))) := by
  induction requests using List.reverseRecOn with
  | nil =>
    refine ⟨Numbers.empty, fun i a answer hi => ?_⟩
    cases hi
  | append_singleton requests b ih =>
    obtain ⟨hnumbers, hanswers⟩ :=
      ih (Nat.lt_of_le_of_lt (prefix_keys_append requests [b]).length_le hroom)
    obtain ⟨hlast, hnext⟩ := hnumbers.serve b hroom
    rw [serveAll_concat]
    refine ⟨hnext, fun i a answer hi hanswer => ?_⟩
    rcases Nat.lt_trichotomy i requests.length with hlt | rfl | hgt
    · rw [List.getElem?_append_left hlt] at hi
      rw [List.getElem?_append_left (by rwa [length_serveAll])] at hanswer
      rw [List.take_append_of_le_length hlt]
      exact hanswers i a answer hi hanswer
    · rw [List.getElem?_append_right (Nat.le_refl _), Nat.sub_self, List.getElem?_cons_zero] at hi
      rw [List.getElem?_append_right (Nat.le_of_eq (length_serveAll _ _)), length_serveAll,
        Nat.sub_self, List.getElem?_cons_zero] at hanswer
      cases hi
      cases hanswer
      rw [List.take_of_length_le (by simp)]
      exact hlast
    · rw [List.getElem?_append_right (by omega), List.getElem?_eq_none (by simp; omega)] at hi
      cases hi

/-- A handle that was given is the one of its key among all keys. -/
theorem handle_serveAll {requests : List Request} (hroom : (keys requests).length < 0xFFFFFFFF)
    {i : Nat} {a : Request} {h : Handle} (hi : requests[i]? = some a)
    (hh : (serveAll {} requests).1[i]? = some (some h)) :
    ∃ k ∈ keys requests, a.key? = some k ∧ h = handleOf (keys requests) k := by
  obtain ⟨k, hk, hgiven⟩ := Option.bind_eq_some_iff.mp
    ((numbers_serveAll hroom).2 i a (some h) hi hh).symm
  have hprefix : keys (requests.take (i + 1)) <+: keys requests := by
    have happend := prefix_keys_append (requests.take (i + 1)) (requests.drop (i + 1))
    rwa [List.take_append_drop] at happend
  rw [handleOf?] at hgiven
  split at hgiven
  · rename_i hmem
    refine ⟨k, hprefix.subset hmem, hk, ?_⟩
    rw [handleOf_of_longer hprefix hmem]
    exact (Option.some.inj hgiven).symm
  · cases hgiven

/--
After any requests with fewer keys than there are handles: every handle that was given is not zero;
two requests got the same handle exactly when they are about the same scope or the same object; the
handle of a scope stands for this scope, and that of an object for the data last tracked under its
name with all later changes; what a handle once stood for keeps its key; there are as many entries
as keys. A request that brings in its key gets a handle, and a change gets one as soon as its object
was tracked.
-/
theorem handles_stable (requests : List Request) (hroom : (keys requests).length < 0xFFFFFFFF) :
    let handles := (serveAll {} requests).1
    let r := (serveAll {} requests).2
    (∀ (i : Nat) (h : Handle), handles[i]? = some (some h) → h ≠ 0) ∧
    (∀ (i j : Nat) (a b : Request) (h h' : Handle), requests[i]? = some a → requests[j]? = some b →
      handles[i]? = some (some h) → handles[j]? = some (some h') → (h = h' ↔ a.key? = b.key?)) ∧
    (∀ (i : Nat) (a : Request) (h : Handle) (key : ScopeKey), requests[i]? = some a →
      handles[i]? = some (some h) → a.key? = some (.scope key) → r.entry? h = some (.scope key)) ∧
    (∀ (i : Nat) (a : Request) (h : Handle) (name : String), requests[i]? = some a →
      handles[i]? = some (some h) → a.key? = some (.object name) →
      ∃ o, r.entry? h = some (.object o) ∧ o.name = name ∧ latest? requests name = some o) ∧
    (∀ (earlier later : List Request) (h : Handle) (e : HandleEntry), requests = earlier ++ later →
      Registry.entry? (serveAll {} earlier).2 h = some e →
        ∃ e', r.entry? h = some e' ∧ e'.key = e.key) ∧
    r.size = (keys requests).length ∧
    (∀ (i : Nat) (a : Request) (answer : Option Handle), requests[i]? = some a →
      handles[i]? = some answer →
      (answer.isSome = true ↔ ∃ k ∈ keys (requests.take (i + 1)), a.key? = some k)) := by
  intro handles r
  obtain ⟨hnumbers, hanswers⟩ := numbers_serveAll hroom
  refine ⟨?_, ?_, ?_, ?_, ?_, hnumbers.size, ?_⟩
  · intro i h hh
    have hlt : i < requests.length := by
      rw [← length_serveAll {} requests]
      exact (List.getElem?_eq_some_iff.mp hh).1
    obtain ⟨k, hk, -, rfl⟩ := handle_serveAll hroom (List.getElem?_eq_getElem hlt) hh
    exact handleOf_ne_zero hroom hk
  · intro i j a b h h' hi hj hh hh'
    obtain ⟨k, hk, ha, rfl⟩ := handle_serveAll hroom hi hh
    obtain ⟨k', hk', hb, rfl⟩ := handle_serveAll hroom hj hh'
    rw [handleOf_inj hroom hk hk', ha, hb, Option.some.injEq]
  · intro i a h key hi hh ha
    obtain ⟨k, hk, ha', rfl⟩ := handle_serveAll hroom hi hh
    cases ha.symm.trans ha'
    exact hnumbers.entries _ hk
  · intro i a h name hi hh ha
    obtain ⟨k, hk, ha', rfl⟩ := handle_serveAll hroom hi hh
    cases ha.symm.trans ha'
    obtain ⟨o, ho⟩ := Option.isSome_iff_exists.mp (isSome_latest?.mpr hk)
    have hentry := hnumbers.entries _ hk
    rw [known?, ho, Option.map_some] at hentry
    exact ⟨o, hentry, name_of_latest? ho, ho⟩
  · rintro earlier later h e rfl he
    have hprefix := prefix_keys_append earlier later
    obtain ⟨hearlier, -⟩ := numbers_serveAll (Nat.lt_of_le_of_lt hprefix.length_le hroom)
    have hcontains : (serveAll {} earlier).2.entries.contains h = true := by
      have hsome := congrArg Option.isSome he
      unfold Registry.entry? at hsome
      rwa [← Table.contains_eq_isSome] at hsome
    obtain ⟨k, hk, rfl⟩ := hearlier.given h hcontains
    have hmem := hprefix.subset hk
    have hkey := key_of_known? ((hearlier.entries k hk).symm.trans he)
    obtain ⟨e', he'⟩ := Option.isSome_iff_exists.mp (isSome_known? hmem)
    refine ⟨e', ?_, (key_of_known? he').trans hkey.symm⟩
    unfold Registry.entry?
    rw [← handleOf_of_longer hprefix hk, hnumbers.entries k hmem, he']
  · intro i a answer hi hanswer
    rw [hanswers i a answer hi hanswer]
    cases a.key? with
    | none => simp
    | some k => by_cases hk : k ∈ keys (requests.take (i + 1)) <;> simp [handleOf?, hk]

/-- A scope and an object are asked for again, and the object has changed in between. -/
theorem handles_stable_over_refresh :
    let key : ScopeKey := ⟨.locals, 1, 0⟩
    let x : VariableObject := { name := "var_1_x", value := some "1" }
    let change : Value := .tuple [("name", .const "var_1_x"), ("value", .const "2")]
    let requests : List Request :=
      [.change change, .scope key, .track x, .change change, .scope key]
    let r := (serveAll {} requests).2
    (keys requests).length < 0xFFFFFFFF ∧
      (serveAll {} requests).1 = [none, some 1, some 2, some 2, some 1] ∧ r.size = 2 ∧
        r.entry? 1 = some (.scope key) ∧
          r.entry? 2 = some (.object { x with value := some "2" }) := by
  intro key x change requests r
  have hroom : (keys requests).length < 0xFFFFFFFF := by decide +kernel
  have hhandles : (serveAll {} requests).1 = [none, some 1, some 2, some 2, some 1] := by
    decide +kernel
  obtain ⟨-, -, hscope, hobject, -, hsize, -⟩ := handles_stable requests hroom
  have hlatest : latest? requests "var_1_x" = some { x with value := some "2" } := by decide +kernel
  obtain ⟨o, ho, -, hdata⟩ :=
    hobject 2 (.track x) 2 "var_1_x" rfl (congrArg (·[2]?) hhandles) rfl
  cases hlatest.symm.trans hdata
  have hfirst := hscope 1 (.scope key) 1 key rfl (congrArg (·[1]?) hhandles) rfl
  exact ⟨hroom, hhandles, hsize, hfirst, ho⟩

end Registry

end MachineInterface
