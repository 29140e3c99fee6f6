import MachineInterface.LogPoint.Queue
import MachineInterface.Proofs.Breakpoint.Board
import Mathlib.Data.List.Nodup

/-!
# Breakpoints and templates

The board holds the breakpoints by location, and the log points hold the templates of their messages
by number. The two are changed together: where a breakpoint is put, where a location is emptied, and
where a file is cleared.

* `Tallies`: when the two tables tell the same about the log points that stand.
* `Tallies.put`, `Tallies.take`, `Tallies.clear`: each change keeps them so.
-/

namespace MachineInterface

/-- The template of the message of a breakpoint, if the message is not empty. -/
def Breakpoint.template? (b : Breakpoint) : Option LogTemplate :=
  (nonEmpty b.logMessage).map LogTemplate.ofMessage

/-- The breakpoints that stand, by location, and the templates that are registered, by number. -/
structure Tables where
  installed : Table Location Breakpoint
  templates : Table UInt32 LogTemplate

/-! ## Entries of a table -/

namespace Table

theorem mem_values {κ α : Type} {t : Table κ α} {a : α} :
    a ∈ t.values ↔ ∃ k, (k, a) ∈ t.entries := by
  simp [values]

variable {κ α : Type} [DecidableEq κ] {t : Table κ α} {k : κ} {a : α}

theorem mem_entries_of_get? (h : t.get? k = some a) : (k, a) ∈ t.entries := by
  obtain ⟨e, he, rfl⟩ := Option.map_eq_some_iff.mp h
  have hkey : e.1 = k := by simpa using List.find?_some he
  exact hkey ▸ List.mem_of_find?_eq_some he

/-- Where no key occurs twice, an entry is what its key holds. -/
theorem get?_of_mem (hkeys : t.keys.Nodup) (h : (k, a) ∈ t.entries) : t.get? k = some a := by
  rw [get?, Option.map_eq_some_iff]
  cases hfind : t.entries.find? (·.1 = k) with
  | none =>
    have hne := List.find?_eq_none.mp hfind (k, a) h
    simp at hne
  | some e =>
    have hkey : e.1 = k := by simpa using List.find?_some hfind
    exact ⟨e, rfl, congrArg Prod.snd
      (List.inj_on_of_nodup_map hkeys (List.mem_of_find?_eq_some hfind) h hkey)⟩

theorem mem_entries_erase {e : κ × α} : e ∈ (t.erase k).entries ↔ e ∈ t.entries ∧ e.1 ≠ k := by
  simp [erase]

theorem notMem_keys (h : t.contains k = false) : k ∉ t.keys := by
  rw [contains, List.any_eq_false] at h
  rw [keys, List.mem_map]
  rintro ⟨e, he, rfl⟩
  exact h e he (decide_eq_true rfl)

theorem mem_values_insert {v : α} (h : t.contains k = false) :
    a ∈ (t.insert k v).values ↔ a ∈ t.values ∨ a = v := by
  rw [values, values, entries_insert_of_not_contains h]
  simp

end Table

/-! ## Tallies -/

variable {placed added ousted : Breakpoint → Prop} {x : Tables} {b : Breakpoint}

/--
The breakpoints that stand were placed, and those that were placed have different numbers. The
templates are those of the log points that stand, or of some that were ousted; a log point that was
added in full has its template.
-/
structure Tallies (placed added ousted : Breakpoint → Prop) (x : Tables) : Prop where
  keys : x.installed.keys.Nodup
  stands : ∀ e ∈ x.installed.entries, e.2.location = e.1 ∧ placed e.2
  apart : ∀ b b', placed b → placed b' → b.id = b'.id → b = b'
  sound : ∀ b, added b → placed b
  owned : ∀ id t, x.templates.get? id = some t → ∃ b : Breakpoint, b.id = id ∧
    b.template? = some t ∧ (b ∈ x.installed.values ∨ ousted b)
  registered : ∀ b t, added b → b ∈ x.installed.values → b.template? = some t →
    x.templates.get? b.id = some t

/-- What becomes of the templates where a breakpoint is put, in full or not. -/
def Fills (b : Breakpoint) (full : Prop) (templates templates' : Table UInt32 LogTemplate) : Prop :=
  (templates' = templates ∧ (full → b.template? = none)) ∨
    ∃ t, b.template? = some t ∧ templates' = templates.insert b.id t

namespace Fills

variable {full : Prop} {templates templates' : Table UInt32 LogTemplate} {id : UInt32}
variable {t : LogTemplate}

theorem get?_of_ne (h : Fills b full templates templates') (hne : b.id ≠ id) :
    templates'.get? id = templates.get? id := by
  rcases h with ⟨rfl, -⟩ | ⟨t, -, rfl⟩
  · rfl
  · rw [Table.get?_insert, if_neg hne]

theorem get?_self (h : Fills b full templates templates') (hfull : full)
    (ht : b.template? = some t) : templates'.get? b.id = some t := by
  rcases h with ⟨-, hnone⟩ | ⟨t', ht', rfl⟩
  · cases (hnone hfull).symm.trans ht
  · rw [Table.get?_insert, if_pos rfl, ← ht', ht]

/-- A template was there before, or it is that of the new breakpoint. -/
theorem old_or_own (h : Fills b full templates templates') (ht : templates'.get? id = some t) :
    templates.get? id = some t ∨ b.id = id ∧ b.template? = some t := by
  rcases h with ⟨rfl, -⟩ | ⟨t', ht', rfl⟩
  · exact .inl ht
  · rw [Table.get?_insert] at ht
    split at ht
    · rename_i hid
      exact .inr ⟨hid, ht'.trans ht⟩
    · exact .inl ht

end Fills

namespace Tallies

theorem empty : Tallies (fun _ => False) (fun _ => False) ousted ⟨{}, {}⟩ where
  keys := List.nodup_nil
  stands := by simp
  apart := by simp
  sound := by simp
  owned := by simp [Table.get?]
  registered := by simp

/-- More may have been ousted. -/
theorem mono {placed' added' ousted' : Breakpoint → Prop} (h : Tallies placed added ousted x)
    (hplaced : ∀ b, placed' b ↔ placed b) (hadded : ∀ b, added' b ↔ added b)
    (housted : ∀ b, ousted b → ousted' b) : Tallies placed' added' ousted' x := by
  obtain rfl : placed' = placed := funext fun b => propext (hplaced b)
  obtain rfl : added' = added := funext fun b => propext (hadded b)
  refine ⟨h.keys, h.stands, h.apart, h.sound, fun id t ht => ?_, h.registered⟩
  obtain ⟨b, hid, htemplate, hb⟩ := h.owned id t ht
  exact ⟨b, hid, htemplate, hb.imp_right (housted b)⟩

theorem mem_entries (h : Tallies placed added ousted x) (hb : b ∈ x.installed.values) :
    (b.location, b) ∈ x.installed.entries := by
  obtain ⟨l, hmem⟩ := Table.mem_values.mp hb
  have hlocation : b.location = l := (h.stands _ hmem).1
  exact hlocation ▸ hmem

theorem placed_of_mem (h : Tallies placed added ousted x) (hb : b ∈ x.installed.values) :
    placed b := (h.stands _ (h.mem_entries hb)).2

/-- A breakpoint with a new number is put at a location where none stands. -/
theorem put {full : Prop} {templates : Table UInt32 LogTemplate}
    (h : Tallies placed added ousted x) (hvacant : x.installed.contains b.location = false)
    (hnew : ∀ b', placed b' → b'.id ≠ b.id) (hfills : Fills b full x.templates templates) :
    Tallies (fun b' => placed b' ∨ b' = b) (fun b' => added b' ∨ full ∧ b' = b) ousted
      ⟨x.installed.insert b.location b, templates⟩ := by
  have hentries := Table.entries_insert_of_not_contains hvacant b
  have hvalues : ∀ b', b' ∈ (x.installed.insert b.location b).values ↔
      b' ∈ x.installed.values ∨ b' = b := fun _ => Table.mem_values_insert hvacant
  refine ⟨?_, ?_, ?_, ?_, ?_, ?_⟩
  · rw [Table.keys, hentries, List.map_append]
    exact List.Nodup.append h.keys (List.nodup_singleton _)
      (List.disjoint_singleton.mpr (Table.notMem_keys hvacant))
  · dsimp only
    rw [hentries]
    intro e he
    rcases List.mem_append.mp he with hold | hlast
    · exact (h.stands e hold).imp_right .inl
    · obtain rfl := List.mem_singleton.mp hlast
      exact ⟨rfl, .inr rfl⟩
  · rintro b₁ b₂ (h₁ | rfl) (h₂ | rfl) hid
    · exact h.apart b₁ b₂ h₁ h₂ hid
    · exact absurd hid (hnew b₁ h₁)
    · exact absurd hid.symm (hnew b₂ h₂)
    · rfl
  · rintro b' (hb' | ⟨-, rfl⟩)
    · exact .inl (h.sound b' hb')
    · exact .inr rfl
  · intro id t ht
    rcases hfills.old_or_own ht with hold | ⟨hid, htemplate⟩
    · obtain ⟨b', hid, htemplate, hb'⟩ := h.owned id t hold
      exact ⟨b', hid, htemplate, hb'.imp_left fun hmem => (hvalues b').mpr (.inl hmem)⟩
    · exact ⟨b, hid, htemplate, .inl ((hvalues b).mpr (.inr rfl))⟩
  · intro b' t hb' hmem ht
    have hcase : added b' ∨ full ∧ b' = b := hb'
    rcases hcase with hadded | ⟨hf, rfl⟩
    · have hne := hnew b' (h.sound b' hadded)
      have hstood : b' ∈ x.installed.values := by
        rcases (hvalues b').mp hmem with hstood | rfl
        · exact hstood
        · exact absurd rfl hne
      exact (hfills.get?_of_ne hne.symm).trans (h.registered b' t hadded hstood ht)
    · exact hfills.get?_self hf ht

/--
A location is emptied, and the template of a breakpoint that once stood there is dropped. Any other
breakpoint that stands there now is ousted.
-/
theorem take {found : Breakpoint} (h : Tallies placed added ousted x) (hfound : placed found)
    (housted : ∀ b, x.installed.get? found.location = some b → b.id ≠ found.id → ousted b) :
    Tallies placed added ousted
      ⟨x.installed.erase found.location, x.templates.erase found.id⟩ := by
  have hvalues : ∀ b, b ∈ (x.installed.erase found.location).values ↔
      b ∈ x.installed.values ∧ b.location ≠ found.location := by
    intro b
    constructor
    · intro hb
      obtain ⟨l, hmem⟩ := Table.mem_values.mp hb
      obtain ⟨hmem, hne⟩ := Table.mem_entries_erase.mp hmem
      exact ⟨Table.mem_values.mpr ⟨l, hmem⟩, fun hl => hne ((h.stands _ hmem).1 ▸ hl)⟩
    · rintro ⟨hb, hne⟩
      exact Table.mem_values.mpr ⟨_, Table.mem_entries_erase.mpr ⟨h.mem_entries hb, hne⟩⟩
  refine ⟨?_, ?_, h.apart, h.sound, ?_, ?_⟩
  · exact h.keys.sublist (List.filter_sublist.map _)
  · exact fun e he => h.stands e (Table.mem_entries_erase.mp he).1
  · intro id t ht
    have hne : found.id ≠ id := by
      rintro rfl
      simp [Table.get?_erase] at ht
    rw [Table.get?_erase, if_neg hne] at ht
    obtain ⟨b, rfl, htemplate, hb⟩ := h.owned id t ht
    refine ⟨b, rfl, htemplate, ?_⟩
    rcases hb with hmem | hout
    · by_cases hl : b.location = found.location
      · have hget := Table.get?_of_mem h.keys (h.mem_entries hmem)
        exact .inr (housted b (hl ▸ hget) hne.symm)
      · exact .inl ((hvalues b).mpr ⟨hmem, hl⟩)
    · exact .inr hout
  · intro b t hadded hb ht
    obtain ⟨hmem, hl⟩ := (hvalues b).mp hb
    have hne : found.id ≠ b.id := by
      intro hid
      exact hl (h.apart b found (h.sound b hadded) hfound hid.symm ▸ rfl)
    rw [Table.get?_erase, if_neg hne]
    exact h.registered b t hadded hmem ht

end Tallies

/-! ## Clearing a file -/

/-- Templates are dropped one after the other. -/
theorem LogPoints.get?_foldl_remove (bs : List Breakpoint) (l : LogPoints) (id : UInt32) :
    (bs.foldl (fun l b => l.remove b.id) l).templates.get? id =
      if id ∈ bs.map (·.id) then none else l.templates.get? id := by
  induction bs generalizing l with
  | nil => rfl
  | cons b bs ih =>
    rw [List.foldl_cons, ih, List.map_cons]
    change (if id ∈ bs.map (·.id) then none else (l.templates.erase b.id).get? id) = _
    rw [Table.get?_erase]
    by_cases hid : b.id = id
    · simp [hid]
    · simp [hid, Ne.symm hid]

theorem Board.mem_takeSource {board : Board} {source : Option String} :
    b ∈ (board.takeSource source).1 ↔ b ∈ board.installed.values ∧ b.file = source := by
  simp [takeSource, sortById]

/-- A file is cleared: its breakpoints and their templates go together. -/
theorem Tallies.clear {board : Board} {l : LogPoints} (source : Option String)
    (h : Tallies placed added ousted ⟨board.installed, l.templates⟩) :
    Tallies placed added ousted ⟨(board.takeSource source).2.installed,
      ((board.takeSource source).1.foldl (fun l b => l.remove b.id) l).templates⟩ := by
  have hvalues : ∀ b, b ∈ (board.takeSource source).2.installed.values ↔
      b ∈ board.installed.values ∧ b.file ≠ source := by
    intro b
    simp only [Table.mem_values, Board.mem_takeSource_kept, exists_and_right]
  have hplaced : ∀ b ∈ board.installed.values, placed b := fun b hb => h.placed_of_mem hb
  refine ⟨?_, ?_, h.apart, h.sound, ?_, ?_⟩
  · exact h.keys.sublist (List.filter_sublist.map _)
  · exact fun e he => h.stands e (Board.mem_takeSource_kept.mp he).1
  · intro id t ht
    dsimp only at ht
    rw [LogPoints.get?_foldl_remove] at ht
    split at ht
    · cases ht
    · rename_i hid
      obtain ⟨b, rfl, htemplate, hb⟩ := h.owned id t ht
      refine ⟨b, rfl, htemplate, hb.imp_left fun hmem => (hvalues b).mpr ⟨hmem, ?_⟩⟩
      intro hfile
      exact hid (List.mem_map_of_mem (Board.mem_takeSource.mpr ⟨hmem, hfile⟩))
  · intro b t hadded hb ht
    obtain ⟨hmem, hfile⟩ := (hvalues b).mp hb
    have hid : b.id ∉ (board.takeSource source).1.map (·.id) := by
      intro hid
      obtain ⟨b', hb', hsame⟩ := List.mem_map.mp hid
      obtain ⟨hmem', hfile'⟩ := Board.mem_takeSource.mp hb'
      have heq := h.apart b' b (hplaced b' hmem') (hplaced b hmem) hsame
      exact hfile (heq ▸ hfile')
    dsimp only
    rw [LogPoints.get?_foldl_remove, if_neg hid]
    exact h.registered b t hadded hmem ht

end MachineInterface
