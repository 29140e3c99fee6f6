import MachineInterface.Proofs.Memory.Answers
import MachineInterface.Record.Path

/-!
# Following a path

A path below a value is cut at its points. Below the fields of a record the name of a field is first
cut off, at a point or at a bracket, and one point after it is dropped. Both ways come to the same,
also for paths that are malformed or lead nowhere.

* `Value.lookupChars?_append`: a path of two parts is followed part by part.
* `Value.lookupChars?_indexed`: a name with positions is a name and then the positions.
* `Field.lookup?_point`, `Field.lookup?_bracket`: what is left below a field.
* `lookup_by_parts`: paths of two parts, and records as tuples.
-/

namespace MachineInterface

open Text

/-! ## Below a value -/

/-- Both parts around a point are read on their own. -/
theorem Path.ofChars?_append (p q : List Char) :
    Path.ofChars? (p ++ '.' :: q) =
      (Path.ofChars? p).bind fun ps => (Path.ofChars? q).map (ps ++ ·) := by
  have hsplit : (p ++ '.' :: q).splitOn '.' = p.splitOn '.' ++ q.splitOn '.' := by
    simp only [List.splitOn_eq_splitOnP]
    exact List.splitOnP_append_cons p q (by decide)
  rw [ofChars?, hsplit, List.mapM_append, ← ofChars?, ← ofChars?]
  cases Path.ofChars? p <;> cases Path.ofChars? q <;> rfl

namespace Value

variable {name : List Char}

/-- A path of two parts is followed part by part. -/
theorem lookupChars?_append (v : Value) (p q : List Char) :
    v.lookupChars? (p ++ '.' :: q) = (v.lookupChars? p).bind (·.lookupChars? q) := by
  unfold lookupChars?
  rw [Path.ofChars?_append]
  cases Path.ofChars? p with
  | none => rfl
  | some ps =>
    cases Path.ofChars? q with
    | none => simp only [Option.map_none, Option.bind_none, Option.bind_some, Option.bind_fun_none]
    | some qs => simp only [Option.map_some, Option.bind_some, resolve?_append]

/-- An empty path leads nowhere else. -/
theorem lookupChars?_nil (v : Value) : v.lookupChars? [] = some v := by
  have hpath : Path.ofChars? [] = some [⟨"", []⟩] := by decide +kernel
  rw [lookupChars?, hpath, Option.bind_some, resolve?]
  rfl

/-- A name without positions leads to the value of that name. -/
theorem lookupChars?_name (hne : name ≠ []) (h : ∀ c ∈ name, c ≠ '.' ∧ c ≠ '[') (v : Value) :
    v.lookupChars? name = v.get? (String.ofList name) := by
  have hsplit : name.splitOn '.' = [name] := by
    rw [List.splitOn_eq_splitOnP]
    exact List.splitOnP_eq_singleton fun c hc => by simpa using (h c hc).1
  have hsegment := Segment.ofChars?_name fun hc : '[' ∈ name => (h '[' hc).2 rfl
  have hpath : Path.ofChars? name = some [⟨String.ofList name, []⟩] := by
    simp [Path.ofChars?, hsplit, hsegment]
  have hempty : (String.ofList name).isEmpty = false := by simpa using hne
  rw [lookupChars?, hpath, Option.bind_some, resolve?]
  simp [step?, hempty]

/-- A text in front of the first point belongs to the first part alone. -/
theorem splitOn_append_of_not_mem {sep : Char} (h : sep ∉ name) {cs first : List Char}
    {others : List (List Char)} (hcs : cs.splitOn sep = first :: others) :
    (name ++ cs).splitOn sep = (name ++ first) :: others := by
  simp only [List.splitOn_eq_splitOnP] at hcs ⊢
  induction name with
  | nil => exact hcs
  | cons c name ih =>
    have hne : (c == sep) = false := beq_false_of_ne (List.ne_of_not_mem_cons h).symm
    have htail := ih (List.not_mem_of_not_mem_cons h)
    rw [List.cons_append, List.splitOnP_cons_eq_if_modifyHead, htail, hne]
    rfl

/-- The positions after a name are those that stand alone. -/
theorem ofChars?_indexed (h : ∀ c ∈ name, c ≠ '.' ∧ c ≠ '[') (rest : List Char) :
    Segment.ofChars? (name ++ '[' :: rest) =
      (Segment.ofChars? ('[' :: rest)).map fun s => ⟨String.ofList name, s.positions⟩ := by
  have hall : ∀ c ∈ name, (c != '[') = true := fun c hc => by simpa using (h c hc).2
  have htake : (name ++ '[' :: rest).takeWhile (· != '[') = name := by
    rw [List.takeWhile_append_of_pos hall]
    simp
  have hdrop : (name ++ '[' :: rest).dropWhile (· != '[') = '[' :: rest := by
    rw [List.dropWhile_append_of_pos hall]
    simp
  have hbracket : ('[' :: rest).dropWhile (· != '[') = '[' :: rest := by simp
  rw [Segment.ofChars?, Segment.ofChars?, htake, hdrop, hbracket, Option.map_map]
  rfl

/-- A segment without a name stays at the value, so a named one starts where the name leads. -/
theorem step?_named {name : String} (hne : name.isEmpty = false) (v : Value) (s : Segment)
    (hs : s.name = "") : v.step? ⟨name, s.positions⟩ = (v.get? name).bind (·.step? s) := by
  simp [step?, hne, hs]

/-- A name with positions is followed as the name, and then the positions. -/
theorem lookupChars?_indexed (hne : name ≠ []) (h : ∀ c ∈ name, c ≠ '.' ∧ c ≠ '[') (v : Value)
    (rest : List Char) : v.lookupChars? (name ++ '[' :: rest) =
      (v.get? (String.ofList name)).bind (·.lookupChars? ('[' :: rest)) := by
  have hempty : (String.ofList name).isEmpty = false := by simpa using hne
  obtain ⟨first, others, hfirst⟩ : ∃ first others, rest.splitOn '.' = first :: others :=
    List.exists_cons_of_ne_nil (by
      rw [List.splitOn_eq_splitOnP]
      exact List.splitOnP_ne_nil _ _)
  have halone : '.' ∉ ['['] := by decide
  have hbracket : ('[' :: rest).splitOn '.' = ('[' :: first) :: others :=
    splitOn_append_of_not_mem halone hfirst
  have hnamed : (name ++ '[' :: rest).splitOn '.' = (name ++ '[' :: first) :: others :=
    splitOn_append_of_not_mem (fun hc => (h '.' hc).1 rfl) hbracket
  unfold lookupChars? Path.ofChars?
  rw [hnamed, hbracket, List.mapM_cons, List.mapM_cons, ofChars?_indexed h]
  -- Both paths have the same positions and the same later segments, or both cannot be read.
  cases hsegment : Segment.ofChars? ('[' :: first) with
  | none => simp
  | some s =>
    have hs : s.name = "" := by
      obtain ⟨positions, -, rfl⟩ := Option.map_eq_some_iff.mp hsegment
      simp
    cases others.mapM Segment.ofChars? with
    | none => simp
    | some ss =>
      simp [resolve?, step?_named hempty v s hs, Option.bind_assoc]

end Value

/-! ## Below the fields of a record -/

namespace Field

variable {name : List Char}

/-- Each path starts with a name, which may be empty, up to a point, a bracket or its end. -/
theorem exists_name (path : List Char) : ∃ name rest : List Char, (∀ c ∈ name, c ≠ '.' ∧ c ≠ '[') ∧
    (path = name ∨ path = name ++ '.' :: rest ∨ path = name ++ '[' :: rest) := by
  induction path with
  | nil => exact ⟨[], [], by simp, .inl rfl⟩
  | cons c path ih =>
    obtain ⟨name, rest, hname, hpath⟩ := ih
    by_cases hpoint : c = '.'
    · exact ⟨[], path, by simp, .inr (.inl (by simp [hpoint]))⟩
    by_cases hbracket : c = '['
    · exact ⟨[], path, by simp, .inr (.inr (by simp [hbracket]))⟩
    refine ⟨c :: name, rest, List.forall_mem_cons.mpr ⟨⟨hpoint, hbracket⟩, hname⟩, ?_⟩
    simpa using hpath

/-- What is looked up below a field, when `tail` stands behind its name. -/
def below : List Char → List Char
  | '.' :: rest => rest
  | tail => tail

/-- The name of a field ends where a point or a bracket stands. -/
theorem lookup?_append (h : ∀ c ∈ name, c ≠ '.' ∧ c ≠ '[') (fields : List Field) {tail : List Char}
    (htail : ∀ c ∈ tail.head?, c = '.' ∨ c = '[') : lookup? fields (String.ofList (name ++ tail)) =
      (find? (String.ofList name) fields).bind (·.lookupChars? (below tail)) := by
  have hall : ∀ c ∈ name, (!(c == '.' || c == '[')) = true := fun c hc => by
    simpa using h c hc
  have hstop : tail.takeWhile (fun c => !(c == '.' || c == '[')) = [] ∧
      tail.dropWhile (fun c => !(c == '.' || c == '[')) = tail := by
    cases tail with
    | nil => exact ⟨rfl, rfl⟩
    | cons c tail => rcases htail c rfl with rfl | rfl <;> exact ⟨rfl, rfl⟩
  -- With nothing left the field itself is the answer, as it is for the empty path.
  have hstay (root : Value) (rest : List Char) :
      (if rest.isEmpty then some root else root.lookupChars? rest) = root.lookupChars? rest := by
    cases rest with
    | nil => rw [Value.lookupChars?_nil, List.isEmpty_nil, if_pos rfl]
    | cons c rest => rw [List.isEmpty_cons, if_neg Bool.false_ne_true]
  unfold lookup?
  simp only [String.toList_ofList, List.takeWhile_append_of_pos hall,
    List.dropWhile_append_of_pos hall, hstop, List.append_nil, Option.bind_eq_bind, hstay]
  rfl

theorem lookup?_name (h : ∀ c ∈ name, c ≠ '.' ∧ c ≠ '[') (fields : List Field) :
    lookup? fields (String.ofList name) = find? (String.ofList name) fields := by
  have hnil := @lookup?_append name h fields [] (by simp)
  simpa [below, Value.lookupChars?_nil] using hnil

theorem lookup?_point (h : ∀ c ∈ name, c ≠ '.' ∧ c ≠ '[') (fields : List Field)
    (rest : List Char) : lookup? fields (String.ofList (name ++ '.' :: rest)) =
      (find? (String.ofList name) fields).bind (·.lookupChars? rest) :=
  lookup?_append h fields (by simp)

theorem lookup?_bracket (h : ∀ c ∈ name, c ≠ '.' ∧ c ≠ '[') (fields : List Field)
    (rest : List Char) : lookup? fields (String.ofList (name ++ '[' :: rest)) =
      (find? (String.ofList name) fields).bind (·.lookupChars? ('[' :: rest)) :=
  lookup?_append h fields (by simp)

/-- A path of two parts below some fields is followed part by part. -/
theorem lookup?_two (fields : List Field) (p q : List Char) :
    lookup? fields (String.ofList (p ++ '.' :: q)) =
      (lookup? fields (String.ofList p)).bind (·.lookupChars? q) := by
  obtain ⟨name, rest, hname, rfl | rfl | rfl⟩ := exists_name p
  · rw [lookup?_point hname, lookup?_name hname]
  · rw [List.append_assoc, List.cons_append, lookup?_point hname, lookup?_point hname,
      Option.bind_assoc]
    simp only [Value.lookupChars?_append]
  · rw [List.append_assoc, List.cons_append, lookup?_bracket hname, lookup?_bracket hname,
      Option.bind_assoc]
    simp only [← List.cons_append, Value.lookupChars?_append]

/-- A path that starts with a name leads to the same place below fields and below their tuple. -/
theorem lookup?_eq_lookupChars? (fields : List Field) {path : List Char} (hne : path ≠ [])
    (hstart : ∀ c ∈ path.head?, c ≠ '.' ∧ c ≠ '[') :
    lookup? fields (String.ofList path) = (Value.tuple fields).lookupChars? path := by
  obtain ⟨name, rest, hname, hpath⟩ := exists_name path
  have hnamed : name ≠ [] := by
    rintro rfl
    rcases hpath with rfl | rfl | rfl
    · exact hne rfl
    · exact (hstart '.' rfl).1 rfl
    · exact (hstart '[' rfl).2 rfl
  rcases hpath with rfl | rfl | rfl
  · rw [lookup?_name hname, Value.lookupChars?_name hnamed hname, Value.get?]
  · rw [lookup?_point hname, Value.lookupChars?_append, Value.lookupChars?_name hnamed hname,
      Value.get?]
  · rw [lookup?_bracket hname, Value.lookupChars?_indexed hnamed hname, Value.get?]

end Field

/--
A path of two parts is followed part by part, below a value and below the fields of a record. A path
below fields that starts with a name is the same path below the tuple of these fields. This holds of
all texts, also of those that are no paths or lead nowhere.
-/
theorem lookup_by_parts :
    (∀ (v : Value) (p q : String),
      v.lookup? (p ++ "." ++ q) = (v.lookup? p).bind (·.lookup? q)) ∧
    (∀ (fields : List Field) (p q : String),
      Field.lookup? fields (p ++ "." ++ q) = (Field.lookup? fields p).bind (·.lookup? q)) ∧
    ∀ (fields : List Field) (path : String), path ≠ "" →
      (∀ c ∈ path.toList.head?, c ≠ '.' ∧ c ≠ '[') →
      Field.lookup? fields path = (Value.tuple fields).lookup? path := by
  have hpoint (p q : String) : (p ++ "." ++ q).toList = p.toList ++ '.' :: q.toList := by
    simp [String.toList_append]
  refine ⟨fun v p q => ?_, fun fields p q => ?_, fun fields path hne hstart => ?_⟩
  · simp only [Value.lookup?, hpoint, Value.lookupChars?_append]
  · have htwo := Field.lookup?_two fields p.toList q.toList
    rwa [← hpoint, String.ofList_toList, String.ofList_toList] at htwo
  · have hnil : path.toList ≠ [] := by simpa using hne
    have hsame := Field.lookup?_eq_lookupChars? fields hnil hstart
    rwa [String.ofList_toList] at hsame

/-- A bracket that a point cuts in two, and a keyed item with a point at the end of the path. -/
theorem lookup_by_parts_malformed :
    let fields : List Field :=
      [("stack", .list [(some "frame", .tuple [("level", .const "0")])])]
    Field.lookup? fields "stack[0.level" = (Value.tuple fields).lookup? "stack[0.level" ∧
      Field.lookup? fields "stack[0.level" = none ∧
      Field.lookup? fields "stack.frame.level." =
        (Value.tuple fields).lookup? "stack.frame.level." ∧
      Field.lookup? fields "stack.frame.level." = some (.const "0") := by
  intro fields
  obtain ⟨-, -, hsame⟩ := lookup_by_parts
  have hname : 's' ≠ '.' ∧ 's' ≠ '[' := by decide
  have hcut := hsame fields "stack[0.level" (by decide) (by rintro c ⟨⟩; exact hname)
  have hpoint := hsame fields "stack.frame.level." (by decide) (by rintro c ⟨⟩; exact hname)
  exact ⟨hcut, by decide +kernel, hpoint, by decide +kernel⟩

end MachineInterface
