/-!
# Ordered texts

Texts under keys, in the order of the keys.

* `mem_insertEntry`: what an insertion leaves in a list of entries.
-/

namespace MachineInterface

namespace TextMap

/-- The entries with one more in its place, or with one replaced. -/
def insertEntry (key value : String) : List (String × String) → List (String × String)
  | [] => [(key, value)]
  | e :: es =>
    if key < e.1 then (key, value) :: e :: es
    else if key = e.1 then (key, value) :: es
    else e :: insertEntry key value es

theorem mem_insertEntry {key value : String} {es : List (String × String)} {e : String × String}
    (h : e ∈ insertEntry key value es) : e = (key, value) ∨ e ∈ es := by
  induction es with
  | nil => exact .inl (List.mem_singleton.1 h)
  | cons x es ih =>
    simp only [insertEntry] at h
    split at h
    · exact (List.mem_cons.1 h).imp_right id
    · split at h
      · exact (List.mem_cons.1 h).imp_right (List.mem_cons_of_mem _)
      · rcases List.mem_cons.1 h with rfl | h
        · exact .inr List.mem_cons_self
        · exact (ih h).imp_right (List.mem_cons_of_mem _)

/-- Whether the keys of some entries go up. -/
def Sorted (es : List (String × String)) : Prop := es.Pairwise fun a b => a.1 < b.1

theorem sorted_insertEntry {key value : String} {es : List (String × String)} (h : Sorted es) :
    Sorted (insertEntry key value es) := by
  induction es with
  | nil => exact List.pairwise_singleton _ _
  | cons x es ih =>
    obtain ⟨hx, hes⟩ := List.pairwise_cons.1 h
    simp only [insertEntry]
    split
    · rename_i hlt
      refine List.pairwise_cons.2 ⟨fun e he => ?_, h⟩
      rcases List.mem_cons.1 he with rfl | he
      · exact hlt
      · exact String.lt_trans hlt (hx e he)
    · split
      · rename_i heq
        exact List.pairwise_cons.2 ⟨fun e he => heq ▸ hx e he, hes⟩
      · rename_i hnlt hne
        refine List.pairwise_cons.2 ⟨fun e he => ?_, ih hes⟩
        rcases mem_insertEntry he with rfl | he
        · exact Std.lt_of_le_of_ne (String.not_lt.1 hnlt) (Ne.symm hne)
        · exact hx e he

end TextMap

/-- Texts under keys, in the order of the keys. -/
structure TextMap where
  entries : List (String × String)
  sorted : TextMap.Sorted entries
  deriving DecidableEq

namespace TextMap

/-- The map without texts. -/
def empty : TextMap := ⟨[], List.Pairwise.nil⟩

/-- The map with a text under a key; an earlier text of the key is replaced. -/
def insert (m : TextMap) (key value : String) : TextMap :=
  ⟨insertEntry key value m.entries, sorted_insertEntry m.sorted⟩

/-- The map with some texts under their keys; of two for one key, the later stands. -/
def ofList (es : List (String × String)) : TextMap := es.foldl (fun m e => m.insert e.1 e.2) empty

end TextMap

end MachineInterface
