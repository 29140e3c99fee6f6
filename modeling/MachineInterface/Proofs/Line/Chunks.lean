import MachineInterface.Proofs.Line.Split

/-!
# Lines that chunks complete

However the bytes are cut, the chunks complete the lines of the whole, and what is left over is what
follows the last newline.

* `parts_iff`: bytes have one way to be lines and a rest.
* `pushAll_flatten`: chunks give what their bytes give at once.
* `pushAll_parts`: which lines and which rest these are.
-/

namespace MachineInterface.LineBuffer

open Text

/-! ## Lines and rest -/

/-- The bytes are lines, each with its newline, and a rest that has none. -/
structure Parts (bytes : List UInt8) (lines : List (List UInt8)) (rest : List UInt8) : Prop where
  whole : lines.flatMap (· ++ [newline]) ++ rest = bytes
  lines : ∀ line ∈ lines, newline ∉ line
  rest : newline ∉ rest

theorem parts_split (bytes : List UInt8) : Parts bytes (split bytes).1 (split bytes).2 := by
  induction bytes with
  | nil => exact ⟨rfl, by simp [split], by simp [split]⟩
  | cons b bytes ih =>
    by_cases hb : b = newline
    · subst hb
      rw [split_cons_newline]
      refine ⟨?_, List.forall_mem_cons.mpr ⟨List.not_mem_nil, ih.lines⟩, ih.rest⟩
      rw [List.flatMap_cons, List.append_assoc, ih.whole]
      rfl
    · have hnot : newline ∉ [b] := by simpa using Ne.symm hb
      have hsplit := split_append_of_not_mem hnot bytes
      rw [List.singleton_append] at hsplit
      rw [hsplit]
      cases hlines : (split bytes).1 with
      | nil =>
        have hwhole := ih.whole
        rw [hlines, List.flatMap_nil, List.nil_append] at hwhole
        refine ⟨congrArg (b :: ·) hwhole, by simp, ?_⟩
        simpa [Ne.symm hb] using ih.rest
      | cons line lines =>
        have hwhole := ih.whole
        have hall := ih.lines
        rw [hlines] at hwhole hall
        obtain ⟨hline, hrest⟩ := List.forall_mem_cons.mp hall
        refine ⟨congrArg (b :: ·) hwhole, List.forall_mem_cons.mpr ⟨?_, hrest⟩, ih.rest⟩
        simpa [Ne.symm hb] using hline

/-- Bytes have one way to be lines and a rest. -/
theorem parts_iff {bytes : List UInt8} {lines : List (List UInt8)} {rest : List UInt8} :
    Parts bytes lines rest ↔ lines = (split bytes).1 ∧ rest = (split bytes).2 := by
  constructor
  · rintro ⟨rfl, hlines, hrest⟩
    induction lines with
    | nil => simp [split_of_not_mem hrest]
    | cons line lines ih =>
      obtain ⟨hline, hothers⟩ := List.forall_mem_cons.mp hlines
      obtain ⟨hsame, hleft⟩ := ih hothers
      rw [List.flatMap_cons, List.append_assoc, List.append_assoc, List.singleton_append,
        split_line hline]
      exact ⟨congrArg _ hsame, hleft⟩
  · rintro ⟨rfl, rfl⟩
    exact parts_split bytes

/-! ## Chunks -/

/-- The lines that chunks complete one after the other, and the buffer after them. -/
def pushAll (buffer : LineBuffer) : List (List UInt8) → List String × LineBuffer
  | [] => ([], buffer)
  | chunk :: chunks =>
    let (lines, buffer) := buffer.push chunk
    let (more, buffer) := pushAll buffer chunks
    (lines ++ more, buffer)

theorem newline_not_mem_push (buffer : LineBuffer) (chunk : List UInt8) :
    newline ∉ (buffer.push chunk).2.rest := (parts_split (buffer.rest ++ chunk)).rest

/-- Chunks give what their bytes give at once. -/
theorem pushAll_flatten (chunks : List (List UInt8)) {buffer : LineBuffer}
    (h : newline ∉ buffer.rest) : buffer.pushAll chunks = buffer.push chunks.flatten := by
  induction chunks generalizing buffer with
  | nil => simp [pushAll, push, split_of_not_mem h]
  | cons chunk chunks ih =>
    have hchunks := ih (newline_not_mem_push buffer chunk)
    rw [pushAll, List.flatten_cons, push_append]
    dsimp only
    rw [hchunks]

/--
The chunks complete one line for each newline, the same as their bytes do at once: what stands
between it and the newline before, decoded and without a carriage return at its end. Left over is
what follows the last newline.
-/
theorem pushAll_parts (chunks : List (List UInt8)) :
    pushAll {} chunks = push {} chunks.flatten ∧
      ∃ lines rest,
        (∀ lines' rest', Parts chunks.flatten lines' rest' ↔ lines' = lines ∧ rest' = rest) ∧
        lines.length = chunks.flatten.count newline ∧
        (pushAll {} chunks).1 = lines.map (fun line => Utf8.decode (dropReturn line)) ∧
        (pushAll {} chunks).2.takeAll? =
          if rest = [] then none else some (Utf8.decode rest, {}) := by
  have hflatten : pushAll {} chunks = push {} chunks.flatten := pushAll_flatten chunks List.not_mem_nil
  refine ⟨hflatten, (split chunks.flatten).1, (split chunks.flatten).2, fun _ _ => parts_iff,
    length_split _, ?_, ?_⟩
  · rw [hflatten]
    rfl
  · rw [hflatten, takeAll?]
    simp only [push, List.nil_append, List.isEmpty_iff]

/-- A character and a carriage return with its newline are cut, and one chunk is empty. -/
example : pushAll {} [[0x68, 0xC3], [], [0xA9, 0x0D], [0x0A, 0x0A, 0x62]] =
    (["hé", ""], ⟨[0x62]⟩) := by
  decide +kernel

end MachineInterface.LineBuffer
