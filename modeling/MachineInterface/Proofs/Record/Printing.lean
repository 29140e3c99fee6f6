import MachineInterface.Proofs.Record.Reading
import MachineInterface.Record.Printer

/-!
# Reading a printed record

What is printed for a record is a text of the record in the grammar of lines, if its names and its
word can be told from the signs around them.

* `valueText_print`: what is printed for a value is a text of the value.
* `recordText_print`: the same for a record.
* `ofLine_print_iff`: which records are read back from what is printed for them.
-/

namespace MachineInterface

open Text

/-! ## What can be read back -/

/-- A name of an item must not start like a value. -/
def IsKey (name : List Char) : Prop :=
  IsName name ∧ ∀ c ∈ name.head?, c ≠ '"' ∧ c ≠ '{' ∧ c ≠ '['

-- The characters of the name are tried, not all characters there are.
instance (name : List Char) : Decidable (IsName name) :=
  @instDecidableAnd _ _ inferInstance (List.decidableBAll _ name)

instance (name : List Char) : Decidable (IsKey name) :=
  @instDecidableAnd _ _ inferInstance (Option.decidableForallMem name.head?)

namespace Value

mutual

/-- The names in a value can be told from the signs around them. -/
def Readable : Value → Prop
  | const _ => True
  | tuple fields => FieldsReadable fields
  | list items => ItemsReadable items

/-- The names of fields and in their values can be told from the signs around them. -/
def FieldsReadable : List Field → Prop
  | [] => True
  | (name, v) :: fields => IsName name.toList ∧ Readable v ∧ FieldsReadable fields

/-- The names of items and in their values can be told from the signs around them. -/
def ItemsReadable : List Item → Prop
  | [] => True
  | (name, v) :: items => (∀ key ∈ name, IsKey key.toList) ∧ Readable v ∧ ItemsReadable items

end

mutual

/-- The names are checked one by one, in the order in which they are printed. -/
def decReadable : (v : Value) → Decidable v.Readable
  | const _ => .isTrue trivial
  | tuple fields => decFieldsReadable fields
  | list items => decItemsReadable items

def decFieldsReadable : (fields : List Field) → Decidable (FieldsReadable fields)
  | [] => .isTrue trivial
  | (name, v) :: fields =>
    have := decReadable v
    have := decFieldsReadable fields
    inferInstanceAs (Decidable (IsName name.toList ∧ Readable v ∧ FieldsReadable fields))

def decItemsReadable : (items : List Item) → Decidable (ItemsReadable items)
  | [] => .isTrue trivial
  | (name, v) :: items =>
    have := decReadable v
    have := decItemsReadable items
    inferInstanceAs (Decidable
      ((∀ key ∈ name, IsKey key.toList) ∧ Readable v ∧ ItemsReadable items))

end

instance : DecidablePred FieldsReadable := decFieldsReadable

end Value

/--
A record that can be read back from its line. The word of a notice goes up to the first comma, and
at the end of the line it loses its carriage returns.
-/
def Record.Readable : Record → Prop
  | result r => Value.FieldsReadable r.fields
  | notice n => n.event ≠ "" ∧ ',' ∉ n.event.toList ∧
      (n.fields = [] → n.event.toList.getLast? ≠ some '\r') ∧ Value.FieldsReadable n.fields
  | stream _ _ => True
  | unhandled _ => False

instance : DecidablePred Record.Readable
  | .result r => inferInstanceAs (Decidable (Value.FieldsReadable r.fields))
  | .notice n => inferInstanceAs (Decidable (n.event ≠ "" ∧ ',' ∉ n.event.toList ∧
      (n.fields = [] → n.event.toList.getLast? ≠ some '\r') ∧ Value.FieldsReadable n.fields))
  | .stream _ _ => .isTrue trivial
  | .unhandled _ => .isFalse id

/-! ## Values -/

namespace Value

theorem fieldText_print {name : String} {v : Value} (hn : IsName name.toList)
    (hv : ValueText v.print v) : FieldText (name.toList ++ '=' :: v.print) (name, v) := by
  have h := FieldText.named hn hv
  rwa [String.ofList_toList] at h

theorem itemText_print {name : Option String} {v : Value} (hn : ∀ key ∈ name, IsKey key.toList)
    (hv : ValueText v.print v) : ItemText (printKey name ++ v.print) (name, v) := by
  cases name with
  | none => exact .bare hv
  | some name =>
    obtain ⟨hname, hhead⟩ := hn name rfl
    rw [printKey, List.append_assoc]
    refine .named (fieldText_print hname hv) ?_
    obtain ⟨c, more, hcs⟩ := List.exists_cons_of_ne_nil hname.1
    rw [hcs] at hhead ⊢
    exact hhead

mutual

/-- What is printed for a value is a text of the value. -/
theorem valueText_print (v : Value) (h : v.Readable) : ValueText v.print v := by
  cases v with
  | const text =>
    have h := ValueText.const (CString.isBody_encodeChars text.toList)
    rwa [CString.decodeChars_encodeChars, String.ofList_toList] at h
  | tuple fields =>
    cases fields with
    | nil => exact .emptyTuple
    | cons f fields =>
      obtain ⟨hn, hv, hfields⟩ := h
      have htext := fieldsText_print fields hfields (fieldText_print hn (valueText_print f.2 hv))
      simpa [print] using ValueText.tuple htext
  | list items =>
    cases items with
    | nil => exact .emptyList
    | cons i items =>
      obtain ⟨hn, hv, hitems⟩ := h
      have htext := itemsText_print items hitems (itemText_print hn (valueText_print i.2 hv))
      simpa [print] using ValueText.list htext

/-- What is printed for fields goes on with the fields after a first one. -/
theorem fieldsText_print (fields : List Field) (h : FieldsReadable fields) {cs : List Char}
    {first : Field} (hfirst : FieldText cs first) :
    FieldsText (cs ++ printFields fields) (first :: fields) := by
  cases fields with
  | nil => simpa [printFields] using FieldsText.single hfirst
  | cons f fields =>
    obtain ⟨hn, hv, hfields⟩ := h
    have htext := fieldsText_print fields hfields (fieldText_print hn (valueText_print f.2 hv))
    simpa [printFields] using FieldsText.cons hfirst htext

/-- What is printed for items goes on with the items after a first one. -/
theorem itemsText_print (items : List Item) (h : ItemsReadable items) {cs : List Char}
    {first : Item} (hfirst : ItemText cs first) :
    ItemsText (cs ++ printItems items) (first :: items) := by
  cases items with
  | nil => simpa [printItems] using ItemsText.single hfirst
  | cons i items =>
    obtain ⟨hn, hv, hitems⟩ := h
    have htext := itemsText_print items hitems (itemText_print hn (valueText_print i.2 hv))
    simpa [printItems] using ItemsText.cons hfirst htext

end

/-- What is printed for fields is a text of the fields that each follow a comma. -/
theorem trailingText_print {fields : List Field} (h : FieldsReadable fields) :
    TrailingText (printFields fields) fields := by
  induction fields with
  | nil => exact .nil
  | cons f fields ih =>
    obtain ⟨hn, hv, hfields⟩ := h
    have htext := TrailingText.cons (fieldText_print hn (valueText_print f.2 hv)) (ih hfields)
    simpa [printFields] using htext

end Value

/-! ## What stands for a value can be read back -/

mutual

theorem ValueText.readable {cs : List Char} {v : Value} (h : ValueText cs v) : v.Readable := by
  cases h with
  | const h => trivial
  | emptyTuple => trivial
  | tuple h => exact FieldsText.readable h
  | emptyList => trivial
  | list h => exact ItemsText.readable h

theorem FieldText.readable {cs : List Char} {f : Field} (h : FieldText cs f) :
    IsName f.1.toList ∧ f.2.Readable := by
  cases h with
  | named hn hv => exact ⟨by rwa [String.toList_ofList], ValueText.readable hv⟩

theorem FieldsText.readable {cs : List Char} {fields : List Field} (h : FieldsText cs fields) :
    Value.FieldsReadable fields := by
  cases h with
  | single h =>
    obtain ⟨hn, hv⟩ := FieldText.readable h
    exact ⟨hn, hv, trivial⟩
  | cons h hs =>
    obtain ⟨hn, hv⟩ := FieldText.readable h
    exact ⟨hn, hv, FieldsText.readable hs⟩

theorem ItemText.readable {cs : List Char} {i : Item} (h : ItemText cs i) :
    (∀ key ∈ i.1, IsKey key.toList) ∧ i.2.Readable := by
  cases h with
  | bare h => exact ⟨by simp, ValueText.readable h⟩
  | @named cs name v h hc =>
    obtain ⟨hn, hv⟩ := FieldText.readable h
    refine ⟨?_, hv⟩
    rintro key ⟨⟩
    refine ⟨hn, ?_⟩
    cases h with
    | @named chars cs v hn' hv' =>
      obtain ⟨c, more, rfl⟩ := List.exists_cons_of_ne_nil hn'.1
      rw [String.toList_ofList]
      exact hc

theorem ItemsText.readable {cs : List Char} {items : List Item} (h : ItemsText cs items) :
    Value.ItemsReadable items := by
  cases h with
  | single h =>
    obtain ⟨hn, hv⟩ := ItemText.readable h
    exact ⟨hn, hv, trivial⟩
  | cons h hs =>
    obtain ⟨hn, hv⟩ := ItemText.readable h
    exact ⟨hn, hv, ItemsText.readable hs⟩

end

theorem TrailingText.readable {cs : List Char} {fields : List Field} (h : TrailingText cs fields) :
    Value.FieldsReadable fields := by
  induction h with
  | nil => trivial
  | cons h hs ih =>
    obtain ⟨hn, hv⟩ := h.readable
    exact ⟨hn, hv, ih⟩

/-- A text without a carriage return at its end stands for a record that can be read back. -/
theorem RecordText.readable {cs : List Char} {r : Record}
    (h : RecordText cs r) (hend : cs.getLast? ≠ some '\r') : r.Readable := by
  obtain ⟨digits, more, -, rfl, hmore⟩ := h
  cases hmore with
  | result outcome h => exact h.readable
  | @notice kind word cs fields hword hcomma h =>
    rw [Record.Readable, String.toList_ofList]
    refine ⟨by simpa using hword, hcomma, ?_, h.readable⟩
    rintro rfl
    cases h
    rw [List.getLast?_append, List.append_nil, List.getLast?_cons] at hend
    cases hlast : word.getLast? with
    | none => simp
    | some c => simpa [hlast] using hend
  | stream kind h => trivial

/-! ## Numbers -/

theorem digits_printToken (token : Option UInt64) : ∀ c ∈ printToken token, '0' ≤ c ∧ c ≤ '9' := by
  cases token with
  | none => simp [printToken]
  | some t =>
    intro c hc
    have hdigit : c.isDigit = true := Nat.isDigit_of_mem_toDigits (by omega) (by omega) hc
    simp only [Char.isDigit, Bool.and_eq_true, decide_eq_true_eq] at hdigit
    exact hdigit

/-- The digits of a number stand for the number. -/
theorem token?_printToken (token : Option UInt64) : token? (printToken token) = token := by
  cases token with
  | none => rfl
  | some t =>
    have hdigits : printToken (some t) = Nat.toDigits 10 t.toNat := rfl
    have hread := Record.valueFrom?_digits (digits_printToken (some t)) 0
    rw [hdigits, Numeral.valueFrom?_toDigits (by omega) (by omega), Option.some.injEq] at hread
    have hdecimal : decimal (Nat.toDigits 10 t.toNat) = t.toNat := hread.symm
    have hlt : t.toNat < 2 ^ 64 := t.toNat_lt
    rw [hdigits, token?, hdecimal, UInt64.ofNat_toNat, if_neg]
    rintro (h | h)
    · exact Nat.toDigits_ne_nil h
    · omega

/-! ## The end of a line -/

/-- A line that does not end in a carriage return keeps all of its characters. -/
theorem Record.dropReturns_eq_self {cs : List Char} (h : cs.getLast? ≠ some '\r') :
    dropReturns cs = cs := by
  obtain ⟨⟨count, hcs⟩, -⟩ := dropReturns_spec cs
  cases count with
  | zero => rw [List.replicate_zero, List.append_nil] at hcs; exact hcs.symm
  | succ count =>
    rw [hcs, List.replicate_succ', ← List.append_assoc, List.getLast?_concat] at h
    exact absurd rfl h

theorem ValueText.getLast? {cs : List Char} {v : Value} (h : ValueText cs v) :
    ∃ c, cs.getLast? = some c ∧ c ≠ '\r' := by
  cases h with
  | const h => exact ⟨'"', List.getLast?_concat .., by decide⟩
  | emptyTuple => exact ⟨'}', rfl, by decide⟩
  | tuple h => exact ⟨'}', List.getLast?_concat .., by decide⟩
  | emptyList => exact ⟨']', rfl, by decide⟩
  | list h => exact ⟨']', List.getLast?_concat .., by decide⟩

/-- Fields end like their last value, so they end in no carriage return. -/
theorem TrailingText.getLast?_append {cs : List Char} {fields : List Field}
    (h : TrailingText cs fields) {start : List Char}
    (hs : fields = [] → start.getLast? ≠ some '\r') : (start ++ cs).getLast? ≠ some '\r' := by
  induction h generalizing start with
  | nil => simpa using hs
  | @cons cs ds f fields h hds ih =>
    have hfield : (start ++ ',' :: cs).getLast? ≠ some '\r' := by
      cases h with
      | named hn hv =>
        obtain ⟨c, hlast, hc⟩ := hv.getLast?
        simp [List.getLast?_append, List.getLast?_cons, hlast, hc]
    simpa using ih fun _ => hfield

theorem Outcome.getLast?_text (outcome : Outcome) :
    ∃ c, outcome.text.toList.getLast? = some c ∧ c ≠ '\r' := by
  cases outcome <;> exact ⟨_, rfl, by decide⟩

/-! ## Records -/

namespace Record

/-- A record that can be read back ends in no carriage return. -/
theorem getLast?_print {r : Record} (h : r.Readable) : r.print.getLast? ≠ some '\r' := by
  cases r with
  | result r =>
    refine (Value.trailingText_print h).getLast?_append fun _ => ?_
    obtain ⟨c, hlast, hc⟩ := r.outcome.getLast?_text
    simp [List.getLast?_append, List.getLast?_cons, hlast, hc]
  | notice n =>
    obtain ⟨hevent, -, hend, hnames⟩ := h
    refine (Value.trailingText_print hnames).getLast?_append fun hfields => ?_
    cases hlast : n.event.toList.getLast? with
    | none => exact absurd (String.toList_eq_nil_iff.mp (List.getLast?_eq_none_iff.mp hlast)) hevent
    | some c =>
      have hc : c ≠ '\r' := fun hc => hend hfields (hlast.trans (congrArg some hc))
      simp [List.getLast?_append, List.getLast?_cons, hlast, hc]
  | stream kind text =>
    have hquote : (Value.printText text).getLast? = some '"' := List.getLast?_concat ..
    rw [print, List.getLast?_cons, hquote, Option.getD_some]
    decide
  | unhandled line => exact h.elim

/-- What is printed for a record is a text of the record. -/
theorem recordText_print {r : Record} (h : r.Readable) : RecordText r.print r := by
  cases r with
  | result r =>
    refine ⟨printToken r.token, _, digits_printToken r.token, List.append_assoc .., ?_⟩
    rw [token?_printToken]
    exact .result r.outcome (Value.trailingText_print h)
  | notice n =>
    obtain ⟨hevent, hcomma, -, hfields⟩ := h
    refine ⟨printToken n.token, _, digits_printToken n.token, List.append_assoc .., ?_⟩
    have hword : n.event.toList ≠ [] := by simpa using hevent
    rw [token?_printToken]
    have htext : SignText n.token _ _ :=
      .notice n.kind hword hcomma (Value.trailingText_print hfields)
    rwa [String.ofList_toList] at htext
  | stream kind text =>
    refine ⟨[], _, by simp, rfl, ?_⟩
    have htext : SignText (token? []) _ _ :=
      .stream kind (CString.isBody_encodeChars text.toList)
    rwa [CString.decodeChars_encodeChars, String.ofList_toList] at htext
  | unhandled line => exact h.elim

/--
A record is read back from what is printed for it if, and only if, its names and its word can be told
from the signs around them.
-/
theorem ofLine_print_iff {r : Record} (hr : ∀ line, r ≠ unhandled line) :
    ofLine (String.ofList r.print) = r ↔ r.Readable := by
  simp only [ofLine, String.toList_ofList]
  constructor
  · intro h
    cases hread : ofChars? (dropReturns r.print) with
    | none =>
      rw [hread, Option.getD_none] at h
      exact absurd h.symm (hr _)
    | some record =>
      rw [hread, Option.getD_some] at h
      subst h
      exact RecordText.readable (ofChars?_eq_some_iff.mp hread) (dropReturns_spec _).2
  · intro h
    rw [dropReturns_eq_self (getLast?_print h), ofChars?_eq_some_iff.mpr (recordText_print h),
      Option.getD_some]

theorem ofLine_print_nested :
    ofLine (String.ofList (result ⟨some 7, .done, [("bkpt", .tuple [("at", .const "é\x7d\"\n\\"),
      ("in[", .list [(none, .list []), (some "fn", .tuple [])])]), ("bkpt", .const "")]⟩).print) =
    result ⟨some 7, .done, [("bkpt", .tuple [("at", .const "é\x7d\"\n\\"),
      ("in[", .list [(none, .list []), (some "fn", .tuple [])])]), ("bkpt", .const "")]⟩ :=
  (ofLine_print_iff (by simp)).mpr (by decide)

end Record

end MachineInterface
