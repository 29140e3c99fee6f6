import MachineInterface.Record.Answer

/-!
# Texts of a value

All texts that a value holds, at any depth. What a path leads to holds no other ones.

* `texts_lookup?`: the texts at a path of a value are texts of the value.
* `texts_element`, `text_mem_texts`: the same for the elements of a list and for a constant.
-/

namespace MachineInterface

namespace Value

mutual

/-- The texts in a value. -/
def texts : Value → List String
  | const text => [text]
  | tuple fields => fieldTexts fields
  | list items => itemTexts items

/-- The texts in some fields. -/
def fieldTexts : List Field → List String
  | [] => []
  | (_, v) :: fields => v.texts ++ fieldTexts fields

/-- The texts in some items. -/
def itemTexts : List Item → List String
  | [] => []
  | (_, v) :: items => v.texts ++ itemTexts items

end

theorem texts_field {name : String} {v : Value} {fields : List Field} (h : (name, v) ∈ fields) :
    v.texts ⊆ fieldTexts fields := by
  induction fields with
  | nil => cases h
  | cons f fields ih =>
    rcases List.mem_cons.mp h with rfl | h
    · exact List.subset_append_left _ _
    · exact List.subset_append_of_subset_right _ (ih h)

theorem texts_item {name : Option String} {v : Value} {items : List Item}
    (h : (name, v) ∈ items) : v.texts ⊆ itemTexts items := by
  induction items with
  | nil => cases h
  | cons i items ih =>
    rcases List.mem_cons.mp h with rfl | h
    · exact List.subset_append_left _ _
    · exact List.subset_append_of_subset_right _ (ih h)

theorem mem_of_lookup {κ : Type} [BEq κ] [LawfulBEq κ] {key : κ} {v : Value}
    {es : List (κ × Value)} (h : es.lookup key = some v) : (key, v) ∈ es := by
  obtain ⟨before, after, rfl, -⟩ := List.lookup_eq_some_iff.mp h
  simp

variable {v w : Value}

theorem texts_get? {name : String} (h : v.get? name = some w) : w.texts ⊆ v.texts := by
  cases v with
  | const text => cases h
  | tuple fields => exact texts_field (mem_of_lookup h)
  | list items => exact texts_item (mem_of_lookup h)

theorem texts_at? {i : Nat} (h : v.at? i = some w) : w.texts ⊆ v.texts := by
  cases v with
  | const text => cases h
  | tuple fields =>
    obtain ⟨⟨name, u⟩, hget, rfl⟩ := Option.map_eq_some_iff.mp h
    exact texts_field (List.mem_of_getElem? hget)
  | list items =>
    obtain ⟨⟨name, u⟩, hget, rfl⟩ := Option.map_eq_some_iff.mp h
    exact texts_item (List.mem_of_getElem? hget)

/-- What steps lead to has no texts of its own if none of them leads to any. -/
theorem texts_foldlM {ι : Type} {step : Value → ι → Option Value}
    (hstep : ∀ v i w, step v i = some w → w.texts ⊆ v.texts) {is : List ι}
    (h : is.foldlM step v = some w) : w.texts ⊆ v.texts := by
  induction is generalizing v with
  | nil =>
    cases h
    exact List.Subset.refl _
  | cons i is ih =>
    rw [List.foldlM_cons] at h
    obtain ⟨u, hu, hrest⟩ := Option.bind_eq_some_iff.mp h
    exact List.Subset.trans (ih hrest) (hstep v i u hu)

theorem texts_step? {s : Segment} (h : v.step? s = some w) : w.texts ⊆ v.texts := by
  have hpositions : ∀ {named}, s.positions.foldlM (fun w i => w.at? i) named = some w →
      w.texts ⊆ named.texts := texts_foldlM fun _ _ _ => texts_at?
  unfold step? at h
  dsimp only at h
  split at h
  · exact hpositions h
  · obtain ⟨named, hnamed, hrest⟩ := Option.bind_eq_some_iff.mp h
    exact List.Subset.trans (hpositions hrest) (texts_get? hnamed)

theorem texts_lookupChars? {path : List Char} (h : v.lookupChars? path = some w) :
    w.texts ⊆ v.texts := by
  obtain ⟨p, -, hresolve⟩ := Option.bind_eq_some_iff.mp h
  exact texts_foldlM (fun _ _ _ => texts_step?) hresolve

/-- The texts at a path of a value are texts of the value. -/
theorem texts_lookup? {path : String} (h : v.lookup? path = some w) : w.texts ⊆ v.texts :=
  texts_lookupChars? h

theorem text_mem_texts {text : String} (h : v.text? = some text) : text ∈ v.texts := by
  cases v with
  | const t =>
    cases h
    exact List.mem_singleton_self _
  | _ => cases h

theorem lookupText?_mem_texts {path text : String} (h : v.lookupText? path = some text) :
    text ∈ v.texts := by
  obtain ⟨w, hlookup, htext⟩ := Option.bind_eq_some_iff.mp h
  exact texts_lookup? hlookup (text_mem_texts htext)

theorem texts_element (h : w ∈ v.elements) : w.texts ⊆ v.texts := by
  cases v with
  | list items =>
    obtain ⟨⟨name, u⟩, hmem, rfl⟩ := List.mem_map.mp h
    exact texts_item hmem
  | _ => cases h

end Value

/-- The texts below some fields are texts of the fields. -/
theorem Field.texts_lookup? {fields : List Field} {path : String} {v : Value}
    (h : Field.lookup? fields path = some v) : v.texts ⊆ Value.fieldTexts fields := by
  obtain ⟨root, hroot, hrest⟩ := Option.bind_eq_some_iff.mp h
  have hbelow : ∀ rest : List Char,
      (if rest.isEmpty then some root else root.lookupChars? rest) = some v →
        v.texts ⊆ root.texts := by
    intro rest hrest
    split at hrest
    · cases hrest
      exact List.Subset.refl _
    · exact Value.texts_lookupChars? hrest
  exact List.Subset.trans (hbelow _ hrest) (Value.texts_field (Value.mem_of_lookup hroot))

/-- The texts of the elements at a path of a result are texts of the result. -/
theorem ResultRecord.texts_element {r : ResultRecord} {path : String} {v : Value}
    (h : v ∈ r.elements path) : v.texts ⊆ Value.fieldTexts r.fields := by
  unfold elements at h
  cases hlookup : Field.lookup? r.fields path with
  | none =>
    rw [hlookup] at h
    cases h
  | some list =>
    rw [hlookup] at h
    exact List.Subset.trans (Value.texts_element h) (Field.texts_lookup? hlookup)

end MachineInterface
