import MachineInterface.Proofs.Text.CString
import MachineInterface.Record.Reader
import Mathlib.Data.List.TakeWhile

/-!
# The grammar of records

Which texts stand for which values and records, without a reader.

* `readers_sound`: what is read is a text of what is given.
* `ValueText.read?_eq`: a text of a value is read whole, whatever follows it.
-/

namespace MachineInterface

open Text

/-! ## Values -/

/-- A name is not empty and has none of the signs that end it. -/
def IsName (name : List Char) : Prop :=
  name ≠ [] ∧ ∀ c ∈ name, c ≠ '=' ∧ c ≠ ',' ∧ c ≠ '}' ∧ c ≠ ']'

mutual

/-- A text stands for a value. -/
inductive ValueText : List Char → Value → Prop
  | const {cs : List Char} (h : CString.IsBody cs) :
      ValueText ('"' :: cs ++ ['"']) (.const (CString.decodeChars cs))
  | emptyTuple : ValueText ['{', '}'] (.tuple [])
  | tuple {cs : List Char} {fields : List Field} (h : FieldsText cs fields) :
      ValueText ('{' :: cs ++ ['}']) (.tuple fields)
  | emptyList : ValueText ['[', ']'] (.list [])
  | list {cs : List Char} {items : List Item} (h : ItemsText cs items) :
      ValueText ('[' :: cs ++ [']']) (.list items)

/-- A text stands for a named value. -/
inductive FieldText : List Char → Field → Prop
  | named {name cs : List Char} {v : Value} (hn : IsName name) (hv : ValueText cs v) :
      FieldText (name ++ '=' :: cs) (String.ofList name, v)

/-- A text stands for one or more fields with commas between them. -/
inductive FieldsText : List Char → List Field → Prop
  | single {cs : List Char} {f : Field} (h : FieldText cs f) : FieldsText cs [f]
  | cons {cs ds : List Char} {f : Field} {fields : List Field} (h : FieldText cs f)
      (hs : FieldsText ds fields) : FieldsText (cs ++ ',' :: ds) (f :: fields)

/-- A text stands for an item. It is bare if it starts like a value. -/
inductive ItemText : List Char → Item → Prop
  | bare {cs : List Char} {v : Value} (h : ValueText cs v) : ItemText cs (none, v)
  | named {cs : List Char} {name : String} {v : Value} (h : FieldText cs (name, v))
      (hc : ∀ c ∈ cs.head?, c ≠ '"' ∧ c ≠ '{' ∧ c ≠ '[') : ItemText cs (some name, v)

/-- A text stands for one or more items with commas between them. -/
inductive ItemsText : List Char → List Item → Prop
  | single {cs : List Char} {i : Item} (h : ItemText cs i) : ItemsText cs [i]
  | cons {cs ds : List Char} {i : Item} {items : List Item} (h : ItemText cs i)
      (hs : ItemsText ds items) : ItemsText (cs ++ ',' :: ds) (i :: items)

end

namespace Value

/-! ## Names -/

theorem endsName_eq_false_iff {c : Char} :
    endsName c = false ↔ c ≠ '=' ∧ c ≠ ',' ∧ c ≠ '}' ∧ c ≠ ']' := by
  simp [endsName, and_assoc]

/-- A name is read if it is one and an equals sign follows. -/
theorem readName?_eq_some_iff {cs rest : List Char} {name : String} :
    readName? cs = some (name, rest) ↔
      ∃ chars, IsName chars ∧ name = String.ofList chars ∧ cs = chars ++ '=' :: rest := by
  constructor
  · intro h
    unfold readName? at h
    split at h
    · rename_i c chars rest' htake hdrop
      cases h
      refine ⟨c :: chars, ⟨by simp, ?_⟩, rfl, ?_⟩
      · intro d hd
        rw [← htake] at hd
        exact endsName_eq_false_iff.mp (by simpa using List.mem_takeWhile_imp hd)
      · rw [← htake, ← hdrop, List.takeWhile_append_dropWhile]
    · cases h
  · rintro ⟨chars, ⟨hne, hname⟩, rfl, rfl⟩
    have hall : ∀ c ∈ chars, (!endsName c) = true := fun c hc => by
      simpa using endsName_eq_false_iff.mpr (hname c hc)
    have hend : (!endsName '=') = false := by decide
    obtain ⟨c, chars, rfl⟩ := List.exists_cons_of_ne_nil hne
    have htake : (c :: chars ++ '=' :: rest).takeWhile (!endsName ·) = c :: chars := by
      rw [List.takeWhile_append_of_pos hall, List.takeWhile_cons, hend]
      simp
    have hdrop : (c :: chars ++ '=' :: rest).dropWhile (!endsName ·) = '=' :: rest := by
      rw [List.dropWhile_append_of_pos hall, List.dropWhile_cons, hend]
      simp
    simp only [readName?, htake, hdrop]

theorem readConst?_eq_some_iff {cs rest : List Char} {v : Value} :
    readConst? cs = some (v, rest) ↔
      ∃ body, CString.IsBody body ∧ v = .const (CString.decodeChars body) ∧
        cs = body ++ '"' :: rest := by
  simp only [readConst?, Option.map_eq_some_iff, Prod.exists, CString.body?_eq_some_iff,
    Prod.mk.injEq]
  constructor
  · rintro ⟨body, _, ⟨hbody, rfl⟩, rfl, rfl⟩
    exact ⟨body, hbody, rfl, rfl⟩
  · rintro ⟨body, hbody, rfl, rfl⟩
    exact ⟨body, rest, ⟨hbody, rfl⟩, rfl, rfl⟩

/-! ## What is read stands for what is given -/

/-- What the reader of values takes is a text of the value. -/
def ValuesSound (n : Nat) : Prop :=
  ∀ {cs v rest}, read? n cs = some (v, rest) → ∃ used, cs = used ++ rest ∧ ValueText used v

/-- What the reader of fields takes is a text of the fields and the brace after it. -/
def FieldsSound (n : Nat) : Prop :=
  ∀ {cs fields rest}, readFields? n cs = some (fields, rest) →
    ∃ used, cs = used ++ '}' :: rest ∧ FieldsText used fields

/-- What the reader of items takes is a text of the items and the bracket after it. -/
def ItemsSound (n : Nat) : Prop :=
  ∀ {cs items rest}, readItems? n cs = some (items, rest) →
    ∃ used, cs = used ++ ']' :: rest ∧ ItemsText used items

variable {n : Nat}

theorem ValuesSound.fieldText (hv : ValuesSound n) {cs mid rest : List Char} {name : String}
    {v : Value} (hname : readName? cs = some (name, mid)) (hvalue : read? n mid = some (v, rest)) :
    ∃ used, cs = used ++ rest ∧ FieldText used (name, v) := by
  obtain ⟨chars, hchars, rfl, rfl⟩ := readName?_eq_some_iff.mp hname
  obtain ⟨used, rfl, htext⟩ := hv hvalue
  exact ⟨chars ++ '=' :: used, by simp, .named hchars htext⟩

theorem valuesSound_succ (hf : FieldsSound n) (hi : ItemsSound n) : ValuesSound (n + 1) := by
  intro cs v rest h
  unfold read? at h
  split at h
  · cases ‹_ = 0›
  · obtain ⟨body, hbody, rfl, rfl⟩ := readConst?_eq_some_iff.mp h
    exact ⟨_, by simp, .const hbody⟩
  · cases h
    exact ⟨_, rfl, .emptyTuple⟩
  · obtain rfl := Nat.succ.inj ‹n + 1 = _›
    obtain ⟨p, hp, heq⟩ := Option.map_eq_some_iff.mp h
    cases heq
    obtain ⟨used, rfl, hused⟩ := hf hp
    exact ⟨_, by simp, .tuple hused⟩
  · cases h
    exact ⟨_, rfl, .emptyList⟩
  · obtain rfl := Nat.succ.inj ‹n + 1 = _›
    obtain ⟨p, hp, heq⟩ := Option.map_eq_some_iff.mp h
    cases heq
    obtain ⟨used, rfl, hused⟩ := hi hp
    exact ⟨_, by simp, .list hused⟩
  · cases h

theorem fieldsSound_succ (hv : ValuesSound n) (hf : FieldsSound n) : FieldsSound (n + 1) := by
  intro cs fields rest h
  unfold readFields? at h
  simp only [Option.bind_eq_bind, Option.bind_eq_some_iff, Prod.exists] at h
  obtain ⟨name, mid, hname, v, next, hvalue, h⟩ := h
  obtain ⟨used, rfl, hused⟩ := hv.fieldText hname hvalue
  split at h
  · simp only [Option.bind_eq_some_iff, Prod.exists] at h
    obtain ⟨others, last, hothers, heq⟩ := h
    cases heq
    obtain ⟨more, rfl, hmore⟩ := hf hothers
    exact ⟨used ++ ',' :: more, by simp, .cons hused hmore⟩
  · cases h
    exact ⟨used, rfl, .single hused⟩
  · cases h

theorem startsValue_iff {c : Char} : startsValue c = true ↔ c = '"' ∨ c = '{' ∨ c = '[' := by
  simp [startsValue, or_assoc]

/-- The name of an item, if it has one, and the text of its value. -/
def itemName? (cs : List Char) : Option (Option String × List Char) :=
  if (cs.head?.map startsValue).getD false then some (none, cs)
  else (readName? cs).map fun p => (some p.1, p.2)

theorem readItems?_succ (n : Nat) (cs : List Char) :
    readItems? (n + 1) cs = (itemName? cs).bind fun p => (read? n p.2).bind fun q =>
      match q.2 with
      | ',' :: rest => (readItems? n rest).bind fun r => some ((p.1, q.1) :: r.1, r.2)
      | ']' :: rest => some ([(p.1, q.1)], rest)
      | _ => none := by
  rw [readItems?, itemName?]
  split <;> rfl

theorem itemsSound_succ (hv : ValuesSound n) (hi : ItemsSound n) : ItemsSound (n + 1) := by
  intro cs items rest h
  rw [readItems?_succ] at h
  simp only [Option.bind_eq_some_iff, Prod.exists] at h
  obtain ⟨name, mid, hname, v, next, hvalue, h⟩ := h
  have hitem : ∃ used, cs = used ++ next ∧ ItemText used (name, v) := by
    unfold itemName? at hname
    split at hname
    · cases hname
      obtain ⟨used, rfl, hused⟩ := hv hvalue
      exact ⟨used, rfl, .bare hused⟩
    · rename_i hstart
      obtain ⟨p, hp, heq⟩ := Option.map_eq_some_iff.mp hname
      cases heq
      obtain ⟨used, rfl, hused⟩ := hv.fieldText hp hvalue
      refine ⟨used, rfl, .named hused ?_⟩
      intro c hc
      have hhead : (used ++ next).head? = some c := by
        rw [List.head?_append, show used.head? = some c from hc, Option.some_or]
      rw [hhead, Option.map_some, Option.getD_some, startsValue_iff] at hstart
      simpa only [not_or] using hstart
  obtain ⟨used, rfl, hused⟩ := hitem
  split at h
  · obtain ⟨others, hothers, heq⟩ := Option.bind_eq_some_iff.mp h
    cases heq
    obtain ⟨more, rfl, hmore⟩ := hi hothers
    exact ⟨used ++ ',' :: more, by simp, .cons hused hmore⟩
  · cases h
    exact ⟨used, rfl, .single hused⟩
  · cases h

/-- The readers call each other with a smaller bound, so the induction is on the bound. -/
theorem readers_sound (n : Nat) : ValuesSound n ∧ FieldsSound n ∧ ItemsSound n := by
  induction n with
  | zero =>
    refine ⟨?_, ?_, ?_⟩
    · intro cs v rest h
      cases h
    · intro cs fields rest h
      cases h
    · intro cs items rest h
      cases h
  | succ n ih =>
    obtain ⟨hv, hf, hi⟩ := ih
    exact ⟨valuesSound_succ hf hi, fieldsSound_succ hv hf, itemsSound_succ hv hi⟩

end Value

/-! ## What stands for a value is read -/

open Value

theorem ValueText.exists_head {cs : List Char} {v : Value} (h : ValueText cs v) :
    ∃ c more, cs = c :: more ∧ startsValue c = true := by
  cases h with
  | const h => exact ⟨'"', _, rfl, by decide⟩
  | emptyTuple => exact ⟨'{', _, rfl, by decide⟩
  | tuple h => exact ⟨'{', _, rfl, by decide⟩
  | emptyList => exact ⟨'[', _, rfl, by decide⟩
  | list h => exact ⟨'[', _, rfl, by decide⟩

theorem FieldText.exists_head {cs : List Char} {f : Field} (h : FieldText cs f) :
    ∃ c more, cs = c :: more ∧ c ≠ '}' ∧ c ≠ ']' := by
  cases h with
  | @named name cs v hn hv =>
    obtain ⟨c, name, rfl⟩ := List.exists_cons_of_ne_nil hn.1
    obtain ⟨-, -, hc⟩ := hn.2 c List.mem_cons_self
    exact ⟨c, _, rfl, hc⟩

theorem FieldsText.exists_head {cs : List Char} {fields : List Field} (h : FieldsText cs fields) :
    ∃ c more, cs = c :: more ∧ c ≠ '}' := by
  cases h with
  | single h =>
    obtain ⟨c, more, rfl, hc, -⟩ := h.exists_head
    exact ⟨c, more, rfl, hc⟩
  | cons h hs =>
    obtain ⟨c, more, rfl, hc, -⟩ := h.exists_head
    exact ⟨c, _, rfl, hc⟩

theorem ItemText.exists_head {cs : List Char} {i : Item} (h : ItemText cs i) :
    ∃ c more, cs = c :: more ∧ c ≠ ']' := by
  cases h with
  | bare h =>
    obtain ⟨c, more, rfl, hc⟩ := h.exists_head
    refine ⟨c, more, rfl, ?_⟩
    rintro rfl
    cases hc
  | named h hc =>
    obtain ⟨c, more, rfl, -, hc⟩ := h.exists_head
    exact ⟨c, more, rfl, hc⟩

theorem ItemsText.exists_head {cs : List Char} {items : List Item} (h : ItemsText cs items) :
    ∃ c more, cs = c :: more ∧ c ≠ ']' := by
  cases h with
  | single h => exact h.exists_head
  | cons h hs =>
    obtain ⟨c, more, rfl, hc⟩ := h.exists_head
    exact ⟨c, _, rfl, hc⟩

theorem read?_brace {c : Char} (hc : c ≠ '}') (n : Nat) (cs : List Char) :
    read? (n + 1) ('{' :: c :: cs) = (readFields? n (c :: cs)).map fun p => (tuple p.1, p.2) := by
  rw [read?]
  intro more h
  exact hc (List.cons.inj h).1

theorem read?_bracket {c : Char} (hc : c ≠ ']') (n : Nat) (cs : List Char) :
    read? (n + 1) ('[' :: c :: cs) = (readItems? n (c :: cs)).map fun p => (list p.1, p.2) := by
  rw [read?]
  intro more h
  exact hc (List.cons.inj h).1

theorem readFields?_succ (n : Nat) (cs : List Char) :
    readFields? (n + 1) cs = (readName? cs).bind fun p => (read? n p.2).bind fun q =>
      match q.2 with
      | ',' :: rest => (readFields? n rest).bind fun r => some ((p.1, q.1) :: r.1, r.2)
      | '}' :: rest => some ([(p.1, q.1)], rest)
      | _ => none := by
  rw [readFields?]
  rfl

theorem itemName?_of_startsValue {c : Char} (hc : startsValue c = true) (cs : List Char) :
    itemName? (c :: cs) = some (none, c :: cs) := by
  simp [itemName?, hc]

theorem itemName?_of_name {c : Char} (hc : startsValue c = false) {cs mid : List Char}
    {name : String} (h : readName? (c :: cs) = some (name, mid)) :
    itemName? (c :: cs) = some (some name, mid) := by
  simp [itemName?, hc, h]

mutual

/-- A text of a value is read whole, whatever follows it. -/
theorem ValueText.read?_eq {cs : List Char} {v : Value} (h : ValueText cs v) {n : Nat}
    (hn : cs.length ≤ n) (rest : List Char) : read? n (cs ++ rest) = some (v, rest) := by
  obtain ⟨n, rfl⟩ : ∃ m, n = m + 1 := by
    obtain ⟨c, more, rfl, -⟩ := h.exists_head
    exact ⟨n - 1, by simp only [List.length_cons] at hn; omega⟩
  cases h with
  | const h =>
    simp only [List.cons_append, List.append_assoc, List.nil_append]
    rw [read?, readConst?_eq_some_iff]
    exact ⟨_, h, rfl, rfl⟩
  | emptyTuple => rfl
  | @tuple cs fields h =>
    simp only [List.cons_append, List.length_cons, List.length_append, List.length_nil] at hn
    have hread := FieldsText.readFields?_eq h (n := n) (by omega) rest
    obtain ⟨c, more, rfl, hc⟩ := h.exists_head
    simp only [List.cons_append, List.append_assoc, List.nil_append] at hread ⊢
    rw [read?_brace hc, hread, Option.map_some]
  | emptyList => rfl
  | @list cs items h =>
    simp only [List.cons_append, List.length_cons, List.length_append, List.length_nil] at hn
    have hread := ItemsText.readItems?_eq h (n := n) (by omega) rest
    obtain ⟨c, more, rfl, hc⟩ := h.exists_head
    simp only [List.cons_append, List.append_assoc, List.nil_append] at hread ⊢
    rw [read?_bracket hc, hread, Option.map_some]

/-- A text of a named value is read whole, whatever follows it. -/
theorem FieldText.read?_eq {cs : List Char} {f : Field} (h : FieldText cs f) {n : Nat}
    (hn : cs.length ≤ n) (rest : List Char) :
    ∃ mid, readName? (cs ++ rest) = some (f.1, mid) ∧ read? n mid = some (f.2, rest) := by
  cases h with
  | @named name cs v hname hv =>
    simp only [List.length_append, List.length_cons] at hn
    refine ⟨cs ++ rest, ?_, ValueText.read?_eq hv (by omega) rest⟩
    rw [readName?_eq_some_iff]
    exact ⟨name, hname, rfl, by simp⟩

/-- A text of fields is read up to the closing brace. -/
theorem FieldsText.readFields?_eq {cs : List Char} {fields : List Field} (h : FieldsText cs fields)
    {n : Nat} (hn : cs.length < n) (rest : List Char) :
    readFields? n (cs ++ '}' :: rest) = some (fields, rest) := by
  obtain ⟨n, rfl⟩ : ∃ m, n = m + 1 := ⟨n - 1, by omega⟩
  cases h with
  | single h =>
    obtain ⟨mid, hname, hvalue⟩ := FieldText.read?_eq h (n := n) (by omega) ('}' :: rest)
    simp only [readFields?_succ, hname, hvalue, Option.bind_some]
  | @cons cs ds f fields h hs =>
    simp only [List.length_append, List.length_cons] at hn
    obtain ⟨mid, hname, hvalue⟩ :=
      FieldText.read?_eq h (n := n) (by omega) (',' :: (ds ++ '}' :: rest))
    have hothers := FieldsText.readFields?_eq hs (n := n) (by omega) rest
    simp only [List.append_assoc, List.cons_append, readFields?_succ, hname, hvalue, hothers,
      Option.bind_some]

/-- A text of an item is read whole, whatever follows it. -/
theorem ItemText.read?_eq {cs : List Char} {i : Item} (h : ItemText cs i) {n : Nat}
    (hn : cs.length ≤ n) (rest : List Char) :
    ∃ mid, itemName? (cs ++ rest) = some (i.1, mid) ∧ read? n mid = some (i.2, rest) := by
  cases h with
  | bare h =>
    have hvalue := ValueText.read?_eq h hn rest
    obtain ⟨c, more, rfl, hc⟩ := h.exists_head
    exact ⟨_, itemName?_of_startsValue hc _, hvalue⟩
  | named h hstart =>
    obtain ⟨mid, hname, hvalue⟩ := FieldText.read?_eq h hn rest
    obtain ⟨c, more, rfl, -⟩ := h.exists_head
    have hc : startsValue c = false := by
      rw [← Bool.not_eq_true, startsValue_iff]
      simpa only [not_or] using hstart c rfl
    exact ⟨mid, itemName?_of_name hc hname, hvalue⟩

/-- A text of items is read up to the closing bracket. -/
theorem ItemsText.readItems?_eq {cs : List Char} {items : List Item} (h : ItemsText cs items)
    {n : Nat} (hn : cs.length < n) (rest : List Char) :
    readItems? n (cs ++ ']' :: rest) = some (items, rest) := by
  obtain ⟨n, rfl⟩ : ∃ m, n = m + 1 := ⟨n - 1, by omega⟩
  cases h with
  | single h =>
    obtain ⟨mid, hname, hvalue⟩ := ItemText.read?_eq h (n := n) (by omega) (']' :: rest)
    simp only [readItems?_succ, hname, hvalue, Option.bind_some]
  | @cons cs ds i items h hs =>
    simp only [List.length_append, List.length_cons] at hn
    obtain ⟨mid, hname, hvalue⟩ :=
      ItemText.read?_eq h (n := n) (by omega) (',' :: (ds ++ ']' :: rest))
    have hothers := ItemsText.readItems?_eq hs (n := n) (by omega) rest
    simp only [List.append_assoc, List.cons_append, readItems?_succ, hname, hvalue, hothers,
      Option.bind_some]

end

end MachineInterface
