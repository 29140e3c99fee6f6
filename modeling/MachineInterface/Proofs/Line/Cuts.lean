import MachineInterface.Proofs.Line.Flush
import MachineInterface.Proofs.Line.Split

/-!
# Bytes that arrive in chunks

The debugger's bytes can be cut anywhere. A chunk ends lines, and the start of the next line may be
shown before the rest of it arrives; what then arrives is read as a line of its own.

* `recordLines_eq_allLines`: the chunks do not matter if no line hides a record behind a start that
  is shown at once.
* `exists_cuts_records_ne`: a line that does so brings one more record if it is cut there.
-/

namespace MachineInterface.LineBuffer

open Text Line

/-- Whether a line is a record that follows the rules. -/
def isRecord (line : String) : Bool := (record? line).isSome

/-- The lines to handle when the buffered bytes are followed by chunks and then by the end. -/
def taken (buffer : LineBuffer) : List (List UInt8) → List String
  | [] => (buffer.takeAll?.map (·.1)).toList
  | chunk :: chunks => (buffer.push chunk).1 ++ taken (buffer.push chunk).2.flushed chunks

/-- The lines to handle that are records. -/
def recordLines (buffer : LineBuffer) (chunks : List (List UInt8)) : List String :=
  (buffer.taken chunks).filter isRecord

/-- The records that are handled. -/
def records (buffer : LineBuffer) (chunks : List (List UInt8)) : List Record :=
  (buffer.taken chunks).filterMap record?

/-- The chunks are the bytes, and none of them is empty. -/
def IsCut (bytes : List UInt8) (chunks : List (List UInt8)) : Prop :=
  chunks.flatten = bytes ∧ ∀ chunk ∈ chunks, chunk ≠ []

instance (bytes : List UInt8) (chunks : List (List UInt8)) : Decidable (IsCut bytes chunks) :=
  inferInstanceAs (Decidable (_ ∧ _))

/-- A line of the bytes stands between two newlines or ends of the bytes. -/
def IsLine (bytes line : List UInt8) : Prop :=
  ∃ before after, bytes = before ++ (line ++ after) ∧ EndsLine before ∧ newline ∉ line ∧
    (after = [] ∨ ∃ rest, after = newline :: rest)

/-- No line has a record behind a start that is shown at once. -/
def NoHiddenRecord (bytes : List UInt8) : Prop :=
  ∀ start more, IsLine bytes (start ++ more) → Shown start → record? (Utf8.decode more) = none

/-! ## The lines of the bytes -/

/-- All lines of the bytes; the last one may have no newline. -/
def allLines (bytes : List UInt8) : List String :=
  (push {} bytes).1 ++ taken (push {} bytes).2 []

theorem push_eq (buffer : LineBuffer) (chunk : List UInt8) :
    buffer.push chunk = push {} (buffer.rest ++ chunk) := rfl

theorem allLines_append (xs ys : List UInt8) :
    allLines (xs ++ ys) = (push {} xs).1 ++ allLines ((push {} xs).2.rest ++ ys) := by
  rw [allLines, push_append, push_eq, List.append_assoc]
  rfl

variable {line : List UInt8}

theorem push_of_not_mem (h : newline ∉ line) : push {} line = ([], ⟨line⟩) := by
  simp [push, split_of_not_mem h]

theorem push_line (h : newline ∉ line) (bytes : List UInt8) :
    push {} (line ++ newline :: bytes) =
      (Utf8.decode (dropReturn line) :: (push {} bytes).1, (push {} bytes).2) := by
  simp [push, split_line h]

theorem allLines_line (h : newline ∉ line) (bytes : List UInt8) :
    allLines (line ++ newline :: bytes) = Utf8.decode (dropReturn line) :: allLines bytes := by
  rw [allLines, push_line h, List.cons_append]
  rfl

theorem taken_nil (buffer : LineBuffer) :
    buffer.taken [] = if buffer.rest = [] then [] else [Utf8.decode buffer.rest] := by
  unfold taken takeAll?
  cases h : buffer.rest <;> simp

theorem allLines_of_not_mem (h : newline ∉ line) :
    allLines line = if line = [] then [] else [Utf8.decode line] := by
  rw [allLines, push_of_not_mem h, taken_nil, List.nil_append]

theorem record?_decode_nil : record? (Utf8.decode []) = none := by cbv

/-- The record of the first line comes before those of the others. -/
theorem filterMap_allLines {after : List UInt8} (h : newline ∉ line)
    (ha : after = [] ∨ ∃ rest, after = newline :: rest) :
    (allLines (line ++ after)).filterMap record? =
      (record? (Utf8.decode line)).toList ++ (allLines after.tail).filterMap record? := by
  rcases ha with rfl | ⟨rest, rfl⟩
  · have hnil : allLines [] = [] := by rw [allLines_of_not_mem (by simp), if_pos rfl]
    rw [List.append_nil, List.tail_nil, hnil, allLines_of_not_mem h]
    split_ifs with hl
    · simp [hl, record?_decode_nil]
    · cases hr : record? (Utf8.decode line) <;> simp [hr]
  · rw [allLines_line h, List.tail_cons, List.filterMap_cons, record?_decode_dropReturn]
    cases record? (Utf8.decode line) <;> rfl

/-! ## Lines without hidden records -/

theorem NoHiddenRecord.of_append {done bytes : List UInt8} (hd : EndsLine done)
    (h : NoHiddenRecord (done ++ bytes)) : NoHiddenRecord bytes := by
  rintro start more ⟨before, after, rfl, hb, hn, ha⟩ hs
  exact h start more ⟨done ++ before, after, by simp, hd.append hb, hn, ha⟩ hs

/-- The bytes that a line starts with were shown already, or there are none. -/
def Started (start : List UInt8) : Prop := start = [] ∨ Shown start

/-- Of a started line, the rest is the record that the whole line is. -/
theorem filter_decode_of_started {start more after : List UInt8} (hs : Started start)
    (hn : newline ∉ start ++ more) (ha : after = [] ∨ ∃ rest, after = newline :: rest)
    (h : NoHiddenRecord (start ++ more ++ after)) (text : List UInt8 → String)
    (htext : ∀ xs, record? (text xs) = record? (Utf8.decode xs)) :
    [text more].filter isRecord = [text (start ++ more)].filter isRecord := by
  rcases hs with rfl | hs
  · rfl
  · have hline : IsLine (start ++ more ++ after) (start ++ more) :=
      ⟨[], after, by simp, .inl rfl, hn, ha⟩
    have hmore : record? (Utf8.decode more) = none := h start more hline hs
    simp [isRecord, htext, hmore, record?_eq_none_of_shown hs]

/-- What is shown of the buffer goes over to the part of the line that was shown. -/
theorem exists_started_flushed {start : List UInt8} (hs : Started start) (buffer : LineBuffer) :
    ∃ shown, Started shown ∧ shown ++ buffer.flushed.rest = start ++ buffer.rest := by
  by_cases h : Shown buffer.rest
  · refine ⟨start ++ buffer.rest, .inr ?_, by simp [flushed_of_shown h]⟩
    rcases hs with rfl | hs
    · exact h
    · exact hs.append h
  · exact ⟨start, hs, by rw [flushed_of_not_shown h]⟩

theorem filter_taken_nil {start rest : List UInt8} (hs : Started start) (hn : newline ∉ start ++ rest)
    (h : NoHiddenRecord (start ++ rest)) :
    (taken ⟨rest⟩ []).filter isRecord = (allLines (start ++ rest)).filter isRecord := by
  have key := filter_decode_of_started hs hn (.inl rfl) (by simpa using h) Utf8.decode fun _ => rfl
  have hnil : [Utf8.decode []].filter isRecord = [] := by simp [isRecord, record?_decode_nil]
  rw [taken_nil, allLines_of_not_mem hn]
  -- An empty line is no record, so it does not matter that there is none.
  split_ifs with hr hsr hsr
  · rfl
  · rw [← key, show rest = [] from hr, hnil]
    rfl
  · exact absurd (List.append_eq_nil_iff.mp hsr).2 hr
  · exact key

/-- The induction is on the chunks; of the line that is not ended, some part was shown. -/
theorem filter_taken_flushed (chunks : List (List UInt8)) {start : List UInt8}
    {buffer : LineBuffer} (hs : Started start) (hn : newline ∉ start ++ buffer.rest)
    (h : NoHiddenRecord (start ++ buffer.rest ++ chunks.flatten)) :
    (buffer.flushed.taken chunks).filter isRecord =
      (allLines (start ++ buffer.rest ++ chunks.flatten)).filter isRecord := by
  induction chunks generalizing start buffer with
  | nil =>
    obtain ⟨shown, hshown, heq⟩ := exists_started_flushed hs buffer
    rw [List.flatten_nil, List.append_nil, ← heq] at h ⊢
    rw [← heq] at hn
    exact filter_taken_nil hshown hn h
  | cons chunk chunks ih =>
    obtain ⟨shown, hshown, heq⟩ := exists_started_flushed hs buffer
    rw [← heq] at hn h ⊢
    rw [List.flatten_cons, taken, push_eq, List.append_assoc] at *
    generalize buffer.flushed.rest = rest at *
    rw [← List.append_assoc rest chunk] at *
    rcases not_mem_or_exists_line (rest ++ chunk) with hline | ⟨line, bytes, hline, hnl⟩
    · have hns : newline ∉ shown ++ (rest ++ chunk) := by
        simp only [List.mem_append, not_or] at hn hline ⊢
        exact ⟨hn.1, hline⟩
      rw [push_of_not_mem hline, List.nil_append]
      rw [← List.append_assoc] at h ⊢
      exact ih hshown hns h
    · have hns : newline ∉ shown ++ line := by
        simp only [List.mem_append, not_or] at hn ⊢
        exact ⟨hn.1, hnl⟩
      obtain ⟨done, hdone, hends, hrest⟩ := exists_split_rest bytes
      have hfirst := filter_decode_of_started hshown hns
        (.inr ⟨bytes ++ chunks.flatten, rfl⟩) (by simpa [hline] using h)
        (fun xs => Utf8.decode (dropReturn xs)) record?_decode_dropReturn
      have hafter : NoHiddenRecord ((push {} bytes).2.rest ++ chunks.flatten) := by
        have hends : EndsLine (shown ++ line ++ [newline] ++ done) :=
          .append (endsLine_concat _) hends
        have hbytes : done ++ (push {} bytes).2.rest = bytes := hdone.symm
        refine .of_append hends ?_
        rw [hline] at h
        simpa [← List.append_assoc done, hbytes] using h
      have hothers : ((push {} bytes).2.flushed.taken chunks).filter isRecord =
          (allLines ((push {} bytes).2.rest ++ chunks.flatten)).filter isRecord :=
        ih (.inl rfl) hrest hafter
      have hall : allLines (shown ++ (rest ++ chunk ++ chunks.flatten)) =
          [Utf8.decode (dropReturn (shown ++ line))] ++
            ((push {} bytes).1 ++ allLines ((push {} bytes).2.rest ++ chunks.flatten)) := by
        rw [← allLines_append, List.singleton_append, ← allLines_line hns, hline]
        simp
      rw [hall, hline, push_line hnl, ← List.singleton_append, List.append_assoc]
      simp only [List.filter_append, hfirst, hothers]

theorem flushed_empty : ({} : LineBuffer).flushed = {} :=
  flushed_of_not_shown fun h => h.ne_nil rfl

/-- Without hidden records, the chunks do not matter. -/
theorem recordLines_eq_allLines {bytes : List UInt8} (h : NoHiddenRecord bytes)
    {chunks : List (List UInt8)} (hc : chunks.flatten = bytes) :
    recordLines {} chunks = (allLines bytes).filter isRecord := by
  subst hc
  have hfresh : newline ∉ ([] : List UInt8) ++ ({} : LineBuffer).rest := List.not_mem_nil
  have key := filter_taken_flushed chunks (.inl rfl) hfresh h
  rw [flushed_empty] at key
  exact key

theorem records_eq_filterMap (buffer : LineBuffer) (chunks : List (List UInt8)) :
    buffer.records chunks = (buffer.recordLines chunks).filterMap record? := by
  rw [records, recordLines, List.filterMap_filter]
  congr 1
  funext line
  cases h : record? line <;> simp [isRecord, h]

/-! ## Lines with a hidden record -/

/-- Showing the start of the last line at once hides no record. -/
theorem records_flushed_nil (buffer : LineBuffer) : buffer.flushed.records [] = buffer.records [] := by
  by_cases h : Shown buffer.rest
  · have hnone := record?_eq_none_of_shown h []
    rw [List.append_nil] at hnone
    rw [flushed_of_shown h, records, records, taken_nil, taken_nil, if_pos rfl, if_neg h.ne_nil]
    simp [hnone]
  · rw [flushed_of_not_shown h]

theorem records_cons (buffer : LineBuffer) (chunk : List UInt8) (chunks : List (List UInt8)) :
    buffer.records (chunk :: chunks) =
      (buffer.push chunk).1.filterMap record? ++ (buffer.push chunk).2.flushed.records chunks := by
  rw [records, taken, List.filterMap_append]
  rfl

/-- In one chunk the bytes bring the records of their lines. -/
theorem records_singleton (bytes : List UInt8) :
    records {} [bytes] = (allLines bytes).filterMap record? := by
  rw [records_cons, records_flushed_nil, allLines, List.filterMap_append]
  rfl

/-- A hidden record is read if the bytes are cut before it, and only then. -/
theorem exists_cuts_records_ne {bytes : List UInt8} (h : ¬ NoHiddenRecord bytes) :
    ∃ xs ys, IsCut bytes xs ∧ IsCut bytes ys ∧ records {} xs ≠ records {} ys := by
  simp only [NoHiddenRecord, not_forall] at h
  obtain ⟨start, more, ⟨before, after, rfl, hends, hn, ha⟩, hs, hr⟩ := h
  have hmore : more ≠ [] := fun h => hr (h ▸ record?_decode_nil)
  simp only [List.mem_append, not_or] at hn
  have hpush : push {} (before ++ start) = ((push {} before).1, ⟨start⟩) := by
    have hrest : (push {} before).2 = {} := congrArg LineBuffer.mk (split_of_endsLine hends)
    rw [push_append, hrest, push_of_not_mem hn.1, List.append_nil]
  have hcut : records {} [before ++ start, more ++ after] =
      (push {} before).1.filterMap record? ++
        ((record? (Utf8.decode more)).toList ++ (allLines after.tail).filterMap record?) := by
    rw [records_cons, hpush, flushed_of_shown hs, records_singleton, filterMap_allLines hn.2 ha]
  have hwhole : records {} [before ++ (start ++ more ++ after)] =
      (push {} before).1.filterMap record? ++ (allLines after.tail).filterMap record? := by
    have hrest : (push {} before).2.rest = [] := split_of_endsLine hends
    have hnone := record?_eq_none_of_shown hs more
    rw [records_singleton, allLines_append, List.filterMap_append, hrest, List.nil_append,
      filterMap_allLines (by simp [hn]) ha, hnone]
    rfl
  refine ⟨[before ++ start, more ++ after], [before ++ (start ++ more ++ after)], ⟨by simp, ?_⟩,
    ⟨by simp, ?_⟩, ?_⟩
  · simp [hs.ne_nil, hmore]
  · simp [hs.ne_nil]
  · rw [hcut, hwhole]
    intro heq
    have hlen := congrArg List.length heq
    obtain ⟨record, hrecord⟩ := Option.ne_none_iff_exists'.mp hr
    simp [hrecord] at hlen

/-! ## Looking for hidden records -/

/-- The lines of the bytes, without their newlines. -/
def lines (bytes : List UInt8) : List (List UInt8) := (split bytes).1 ++ [(split bytes).2]

theorem lines_append {done : List UInt8} (h : EndsLine done) (bytes : List UInt8) :
    lines (done ++ bytes) = (split done).1 ++ lines bytes := by
  rw [lines, split_append, split_of_endsLine h, List.nil_append, List.append_assoc]
  rfl

theorem isLine_iff_mem_lines {bytes : List UInt8} : IsLine bytes line ↔ line ∈ lines bytes := by
  constructor
  · rintro ⟨before, after, rfl, hends, hn, rfl | ⟨rest, rfl⟩⟩
    · rw [List.append_nil, lines_append hends]
      simp [lines, split_of_not_mem hn]
    · rw [lines_append hends]
      simp [lines, split_line hn]
  · intro h
    generalize hlen : bytes.length = n
    induction n using Nat.strongRecOn generalizing bytes with
    | ind n ih =>
      rcases not_mem_or_exists_line bytes with hn | ⟨first, rest, rfl, hn⟩
      · obtain rfl : line = bytes := by simpa [lines, split_of_not_mem hn] using h
        exact ⟨[], [], by simp, .inl rfl, hn, .inl rfl⟩
      · simp only [lines, split_line hn, List.cons_append, List.mem_cons] at h
        rcases h with rfl | h
        · exact ⟨[], newline :: rest, rfl, .inl rfl, hn, .inr ⟨rest, rfl⟩⟩
        · have hlt : rest.length < n := by
            simp only [List.length_append, List.length_cons] at hlen
            omega
          obtain ⟨before, after, rfl, hends, hl, ha⟩ := ih rest.length hlt h rfl
          exact ⟨first ++ [newline] ++ before, after, by simp,
            (endsLine_concat first).append hends, hl, ha⟩

instance (start : List UInt8) : Decidable (Shown start) :=
  decidable_of_iff ((Utf8.decode? start).any isFlushable = true) (by simp [Shown, Option.any_eq_true])

/-- Each line is looked at with each of its starts. -/
theorem noHiddenRecord_iff {bytes : List UInt8} :
    NoHiddenRecord bytes ↔ ∀ line ∈ lines bytes, ∀ i < line.length + 1, Shown (line.take i) →
      record? (Utf8.decode (line.drop i)) = none := by
  constructor
  · intro h line hline i _ hs
    refine h (line.take i) (line.drop i) ?_ hs
    rwa [List.take_append_drop, isLine_iff_mem_lines]
  · intro h start more hline hs
    have hlt : start.length < (start ++ more).length + 1 := by
      rw [List.length_append]
      omega
    have hsplit := h _ (isLine_iff_mem_lines.mp hline) start.length hlt
    rw [List.take_left, List.drop_left] at hsplit
    exact hsplit hs

instance (bytes : List UInt8) : Decidable (NoHiddenRecord bytes) :=
  decidable_of_iff _ noHiddenRecord_iff.symm

end MachineInterface.LineBuffer
