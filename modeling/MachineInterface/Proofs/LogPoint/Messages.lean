import MachineInterface.Proofs.LogPoint.Filling
import MachineInterface.Proofs.LogPoint.Ledger
import Mathlib.Data.List.DropRight
import Mathlib.Data.List.Forall2

/-!
# Messages with their values

A message is read from the left: a placeholder is a group in braces with a printable expression, and
every other character stands for itself. Once all values have come, each placeholder should have
given way to its value. The marker that stands for a placeholder is a character itself, and a
message may hold it too.

* `exists_reads`, `Reads.unique`: every message is read in exactly one way.
* `answers_of_hit`: a hit is told with its last value, and what is told then.
* `told_as_read`: what is told is the message with its values, unless a marker of the message stands
  before a placeholder.
* `marker_in_message`: a marker of the message takes the value of the placeholder after it.
-/

namespace MachineInterface

open Text

namespace LogTemplate

/-! ## Reading a message -/

/-- A part of a message: a character, or a placeholder with its expression. -/
inductive Piece where
  | char (c : Char)
  | slot (expression : List Char)
  deriving Repr, DecidableEq

/-- An expression of letters, digits and a few signs. -/
def Printable (expression : List Char) : Prop :=
  expression ≠ [] ∧ ∀ c ∈ expression, c.isAlphanum = true ∨ c ∈ "-_.>&*[]".toList

/--
A message is read from the left. A group goes from a brace to the first closing brace after it;
where its content is no printable expression, its characters stand for themselves.
-/
inductive Reads : List Char → List Piece → Prop
  | nil : Reads [] []
  | char {c : Char} {cs : List Char} {ps : List Piece} (hc : c = '{' → '}' ∉ cs)
      (h : Reads cs ps) : Reads (c :: cs) (.char c :: ps)
  | slot {content cs : List Char} {ps : List Piece} (hcontent : '}' ∉ content)
      (hprint : Printable content) (h : Reads cs ps) :
      Reads ('{' :: (content ++ '}' :: cs)) (.slot content :: ps)
  | group {content cs : List Char} {ps : List Piece} (hcontent : '}' ∉ content)
      (hprint : ¬ Printable content) (h : Reads cs ps) :
      Reads ('{' :: (content ++ '}' :: cs)) (('{' :: (content ++ ['}'])).map .char ++ ps)

namespace Piece

/-- The expression of a placeholder. -/
def expression? : Piece → Option (List Char)
  | char _ => none
  | slot expression => some expression

/-- What stands for a part in the template of a message. -/
def mark : Piece → Char
  | char c => c
  | slot _ => marker

end Piece

/-- The expressions of the placeholders, in order. -/
def slots (ps : List Piece) : List (List Char) := ps.filterMap Piece.expression?

/-- The message with each placeholder replaced by the next value. -/
def replaced : List Piece → List String → List Char
  | [], _ => []
  | .char c :: ps, values => c :: replaced ps values
  | .slot _ :: ps, value :: values => value.toList ++ replaced ps values
  | .slot expression :: ps, [] => '{' :: (expression ++ '}' :: replaced ps [])

variable {cs : List Char} {ps qs : List Piece}

/-! ## The template of a message -/

theorem slots_chars (cs : List Char) (ps : List Piece) : slots (cs.map .char ++ ps) = slots ps := by
  induction cs with
  | nil => rfl
  | cons c cs ih => exact ih

theorem mark_chars (cs : List Char) : (cs.map Piece.char).map Piece.mark = cs := by
  simp [Function.comp_def, Piece.mark]

theorem isAlphanumeric_iff {c : Char} :
    Numeral.isAlphanumeric c = true ↔ c.isAlphanum = true := by
  have halphanum : c.isAlphanum = ((decide ('A'.val ≤ c.val ∧ c.val ≤ 'Z'.val) ||
      ('a'.val ≤ c.val && c.val ≤ 'z'.val)) || ('0'.val ≤ c.val && c.val ≤ '9'.val)) := rfl
  simp only [halphanum, Numeral.isAlphanumeric, Numeral.isDigit, Char.le_def, Bool.or_eq_true,
    Bool.and_eq_true, decide_eq_true_eq]
  tauto

theorem isPrintableChar_iff {c : Char} :
    isPrintableChar c = true ↔ c.isAlphanum = true ∨ c ∈ "-_.>&*[]".toList := by
  have hsigns : "-_.>&*[]".toList = ['-', '_', '.', '>', '&', '*', '[', ']'] := by decide
  simp only [hsigns, isPrintableChar, Bool.or_eq_true, isAlphanumeric_iff, beq_iff_eq,
    List.mem_cons, List.not_mem_nil, or_false]
  tauto

theorem printable_iff {expression : List Char} :
    isPrintable expression = true ↔ Printable expression := by
  simp only [isPrintable, Printable, Bool.and_eq_true, Bool.not_eq_true', List.isEmpty_eq_false_iff,
    List.all_eq_true, isPrintableChar_iff]

theorem ofChars_of_unopened {c : Char} (hc : c = '{' → '}' ∉ cs) :
    ofChars (c :: cs) = (ofChars cs).push c := by
  rw [ofChars]
  split
  · rename_i hbrace
    split
    · rename_i content after hcut
      obtain ⟨-, rfl⟩ := cut?_eq_some_iff.mp hcut
      exact absurd (by simp) (hc hbrace)
    · rw [hbrace]
  · rfl

theorem ofChars_of_group {content : List Char} (hcontent : '}' ∉ content) :
    ofChars ('{' :: (content ++ '}' :: cs)) =
      if isPrintable content then
        ⟨marker :: (ofChars cs).text, String.ofList content :: (ofChars cs).expressions⟩
      else { ofChars cs with text := '{' :: content ++ '}' :: (ofChars cs).text } := by
  have hcut : cut? '}' (content ++ '}' :: cs) = some (content, cs) :=
    cut?_eq_some_iff.mpr ⟨hcontent, rfl⟩
  rw [ofChars, if_pos rfl]
  split
  · rename_i found after hfound
    cases hfound.symm.trans hcut
    rfl
  · rename_i hnone
    cases hnone.symm.trans hcut

/-- The template has a mark for each part, and the expressions of the placeholders. -/
theorem Reads.ofChars (h : Reads cs ps) :
    ofChars cs = ⟨ps.map Piece.mark, (slots ps).map String.ofList⟩ := by
  induction h with
  | nil =>
    rw [LogTemplate.ofChars]
    rfl
  | char hc h ih =>
    rw [ofChars_of_unopened hc, ih]
    rfl
  | slot hcontent hprint h ih =>
    rw [ofChars_of_group hcontent, if_pos (printable_iff.mpr hprint), ih]
    rfl
  | @group content cs ps hcontent hprint h ih =>
    rw [ofChars_of_group hcontent, if_neg fun hp => hprint (printable_iff.mp hp), ih, slots_chars,
      List.map_append, mark_chars]
    simp

/-- Every message is read in some way. -/
theorem exists_reads (cs : List Char) : ∃ ps, Reads cs ps := by
  induction hn : cs.length using Nat.strongRecOn generalizing cs with
  | _ n ih =>
    cases cs with
    | nil => exact ⟨[], .nil⟩
    | cons c cs =>
      by_cases hopen : c = '{' ∧ '}' ∈ cs
      · obtain ⟨rfl, hmem⟩ := hopen
        obtain ⟨content, after, rfl, hcontent⟩ := List.eq_append_cons_of_mem hmem
        obtain ⟨ps, hps⟩ := ih after.length (by simp [← hn]; omega) after rfl
        by_cases hprint : Printable content
        · exact ⟨_, .slot hcontent hprint hps⟩
        · exact ⟨_, .group hcontent hprint hps⟩
      · obtain ⟨ps, hps⟩ := ih cs.length (by simp [← hn]) cs rfl
        exact ⟨_, .char (not_and.mp hopen) hps⟩

/-- A group ends at the first closing brace. -/
theorem group_inj {content content' cs' : List Char} (h : '}' ∉ content) (h' : '}' ∉ content')
    (heq : '{' :: (content ++ '}' :: cs) = '{' :: (content' ++ '}' :: cs')) :
    content = content' ∧ cs = cs' := by
  have hcut : cut? '}' (content ++ '}' :: cs) = some (content, cs) := cut?_eq_some_iff.mpr ⟨h, rfl⟩
  rw [(List.cons.inj heq).2, cut?_eq_some_iff.mpr ⟨h', rfl⟩] at hcut
  cases hcut
  exact ⟨rfl, rfl⟩

theorem Reads.exists_of_char {c : Char} (hc : c = '{' → '}' ∉ cs) (h : Reads (c :: cs) ps) :
    ∃ rest, ps = .char c :: rest ∧ Reads cs rest := by
  cases h with
  | char _ h => exact ⟨_, rfl, h⟩
  | slot => exact absurd (by simp) (hc rfl)
  | group => exact absurd (by simp) (hc rfl)

theorem Reads.exists_of_group {content : List Char} (hcontent : '}' ∉ content)
    (h : Reads ('{' :: (content ++ '}' :: cs)) ps) : ∃ rest, Reads cs rest ∧
      ((Printable content ∧ ps = .slot content :: rest) ∨
        (¬ Printable content ∧ ps = ('{' :: (content ++ ['}'])).map .char ++ rest)) := by
  generalize hmessage : '{' :: (content ++ '}' :: cs) = message at h
  cases h with
  | nil => cases hmessage
  | char hc h =>
    obtain ⟨rfl, rfl⟩ := List.cons.inj hmessage
    exact absurd (by simp) (hc rfl)
  | slot hcontent' hprint h =>
    obtain ⟨rfl, rfl⟩ := group_inj hcontent hcontent' hmessage
    exact ⟨_, h, .inl ⟨hprint, rfl⟩⟩
  | group hcontent' hprint h =>
    obtain ⟨rfl, rfl⟩ := group_inj hcontent hcontent' hmessage
    exact ⟨_, h, .inr ⟨hprint, rfl⟩⟩

/-- No message is read in two ways. -/
theorem Reads.unique (h : Reads cs ps) (h' : Reads cs qs) : ps = qs := by
  induction h generalizing qs with
  | nil =>
    cases h'
    rfl
  | char hc h ih =>
    obtain ⟨rest, rfl, hrest⟩ := h'.exists_of_char hc
    rw [ih hrest]
  | slot hcontent hprint h ih =>
    obtain ⟨rest, hrest, ⟨-, rfl⟩ | ⟨hnot, -⟩⟩ := h'.exists_of_group hcontent
    · rw [ih hrest]
    · exact absurd hprint hnot
  | group hcontent hprint h ih =>
    obtain ⟨rest, hrest, ⟨hyes, -⟩ | ⟨-, rfl⟩⟩ := h'.exists_of_group hcontent
    · exact absurd hyes hprint
    · rw [ih hrest]

/-! ## Markers in a message -/

/-- What stands for a part in the message. -/
def Piece.source : Piece → List Char
  | char c => [c]
  | slot expression => '{' :: (expression ++ ['}'])

theorem source_chars (cs : List Char) : (cs.map Piece.char).flatMap Piece.source = cs := by
  simp [List.flatMap_map, Piece.source]

theorem Reads.source (h : Reads cs ps) : ps.flatMap Piece.source = cs := by
  induction h with
  | nil => rfl
  | char hc h ih => rw [List.flatMap_cons, ih, Piece.source, List.singleton_append]
  | slot hcontent hprint h ih => simp [ih, Piece.source]
  | group hcontent hprint h ih => rw [List.flatMap_append, source_chars, ih]; simp

theorem Reads.printable (h : Reads cs ps) {expression : List Char}
    (hmem : .slot expression ∈ ps) : Printable expression := by
  induction h with
  | nil => cases hmem
  | char hc h ih => exact ih (by simpa using hmem)
  | slot hcontent hprint h ih =>
    rcases List.mem_cons.mp hmem with heq | hmem
    · cases heq
      exact hprint
    · exact ih hmem
  | group hcontent hprint h ih => exact ih (by simpa using hmem)

/-- A marker of the message stands for itself: no placeholder holds one. -/
theorem Reads.marker_mem_iff (h : Reads cs ps) : marker ∈ cs ↔ .char marker ∈ ps := by
  rw [← h.source, List.mem_flatMap]
  constructor
  · rintro ⟨p, hp, hmarker⟩
    cases p with
    | char c =>
      rw [List.mem_singleton.mp hmarker]
      exact hp
    | slot expression =>
      have hexpression : marker ∈ expression := by
        have hbraces : marker ≠ '{' ∧ marker ≠ '}' := by decide
        simpa [Piece.source, hbraces] using hmarker
      exact absurd ((h.printable hp).2 marker hexpression) (by decide)
  · exact fun hp => ⟨_, hp, List.mem_singleton_self _⟩

theorem count_marker (ps : List Piece) :
    (ps.map Piece.mark).count marker = (slots ps).length + ps.count (.char marker) := by
  induction ps with
  | nil => rfl
  | cons p ps ih =>
    cases p with
    | char c =>
      have hslots : slots (.char c :: ps) = slots ps := rfl
      simp only [List.map_cons, Piece.mark, List.count_cons, ih, hslots, beq_iff_eq,
        Piece.char.injEq]
      omega
    | slot expression =>
      have hslots : slots (.slot expression :: ps) = expression :: slots ps := rfl
      simp only [List.map_cons, Piece.mark, List.count_cons, ih, hslots, List.length_cons,
        beq_self_eq_true, if_true, beq_iff_eq, reduceCtorEq, if_false]
      omega

/-! ## Filling the template -/

/-- No marker of the message itself stands before a placeholder. -/
def Steady (ps : List Piece) : Prop :=
  ps.Pairwise fun p q => p = .char marker → q.expression? = none

theorem slots_eq_nil_iff : slots ps = [] ↔ ∀ p ∈ ps, p.expression? = none :=
  List.filterMap_eq_nil_iff

theorem steady_of_no_slots (h : slots ps = []) : Steady ps :=
  List.pairwise_of_forall_mem_list fun _ _ q hq _ => slots_eq_nil_iff.mp h q hq

/-- Each marker takes the value of its placeholder. -/
theorem filled_eq_replaced (h : Steady ps) {values : List String}
    (hlength : values.length = (slots ps).length) :
    filled (ps.map Piece.mark) (values.map some) = replaced ps values := by
  induction ps generalizing values with
  | nil => rfl
  | cons p ps ih =>
    obtain ⟨hp, hps⟩ := List.pairwise_cons.mp h
    cases p with
    | char c =>
      by_cases hc : c = marker
      · subst hc
        have hnone : slots ps = [] := slots_eq_nil_iff.mpr fun q hq => hp q hq rfl
        have hzero : values.length = 0 := hlength.trans (congrArg List.length hnone)
        obtain rfl := List.length_eq_zero_iff.mp hzero
        rw [List.map_cons, Piece.mark, List.map_nil, filled_marker_nil, replaced,
          ← ih hps (congrArg List.length hnone.symm), List.map_nil]
      · rw [List.map_cons, Piece.mark, filled_cons_of_ne hc, ih hps hlength, replaced]
    | slot expression =>
      cases values with
      | nil => cases hlength
      | cons value values =>
        rw [List.map_cons, List.map_cons, Piece.mark, filled_marker_cons,
          ih hps (Nat.succ.inj hlength), replaced]
        rfl

/-- A marker of the message takes the value of a placeholder after it. -/
theorem steady_of_filled
    (h : filled (ps.map Piece.mark) ((List.replicate (slots ps).length "a").map some) =
      replaced ps (List.replicate (slots ps).length "a")) : Steady ps := by
  induction ps with
  | nil => exact .nil
  | cons p ps ih =>
    cases p with
    | char c =>
      by_cases hc : c = marker
      · subst hc
        cases hslots : slots ps with
        | nil => exact steady_of_no_slots hslots
        | cons expression expressions =>
          have hlength : (slots (.char marker :: ps)).length = expressions.length + 1 :=
            congrArg List.length hslots
          rw [hlength, List.replicate_succ, List.map_cons, List.map_cons, Piece.mark,
            filled_marker_cons, replaced] at h
          exact absurd (List.cons.inj h).1 (by decide)
      · rw [List.map_cons, Piece.mark, filled_cons_of_ne hc, replaced] at h
        refine List.pairwise_cons.mpr ⟨fun q _ hmarker => ?_, ih (List.cons.inj h).2⟩
        exact absurd (Piece.char.inj hmarker) hc
    | slot expression =>
      have hlength : (slots (.slot expression :: ps)).length = (slots ps).length + 1 := rfl
      rw [hlength, List.replicate_succ, List.map_cons, List.map_cons, Piece.mark,
        filled_marker_cons, replaced] at h
      refine List.pairwise_cons.mpr ⟨fun q _ hmarker => ?_, ih (List.append_cancel_left h)⟩
      cases hmarker

/-! ## Lines with values -/

/-- A line that prints a value: a number after a dollar sign, an equals sign, and the value. -/
def ValueLine (line value : String) : Prop := ∃ digits ending,
  (∀ c ∈ digits, Numeral.isDigit c = true) ∧ (∀ c ∈ ending, isBlank c = true) ∧
    line.toList = '$' :: (digits ++ ' ' :: '=' :: ' ' :: (value.toList ++ ending))

/-- A value without line breaks and outer blanks. -/
structure Clean (value : String) : Prop where
  unbroken : '\n' ∉ value.toList
  first : ∀ c ∈ value.toList.head?, isBlank c = false
  last : ∀ c ∈ value.toList.getLast?, isBlank c = false

theorem clean_of_singleton {value : String} (c : Char) (hvalue : value.toList = [c])
    (hc : isBlank c = false) : Clean value where
  unbroken := by
    rw [hvalue, List.mem_singleton]
    rintro rfl
    exact absurd hc (by decide)
  first := by simp [hvalue, hc]
  last := by simp [hvalue, hc]

theorem dropTrailingBlanks_append {ending : List Char} (h : ∀ c ∈ ending, isBlank c = true)
    (cs : List Char) : dropTrailingBlanks (cs ++ ending) = dropTrailingBlanks cs := by
  rw [dropTrailingBlanks, List.reverse_append, List.dropWhile_append_of_pos, dropTrailingBlanks]
  exact fun c hc => h c (List.mem_reverse.mp hc)

theorem dropTrailingBlanks_concat {c : Char} (h : isBlank c = false) (cs : List Char) :
    dropTrailingBlanks (cs ++ [c]) = cs ++ [c] :=
  List.rdropWhile_concat_neg isBlank cs c (by simp [h])

section

variable {line value : String} {digits : List Char}

/-- A value is what is left when the blanks around it are dropped. -/
theorem Clean.trimChars (h : Clean value) : trimChars (' ' :: value.toList) = value.toList := by
  have hstart : dropBlanks (' ' :: value.toList) = value.toList := by
    rw [dropBlanks, List.dropWhile_cons_of_pos (by decide)]
    cases hvalue : value.toList with
    | nil => rfl
    | cons c cs =>
      have hc := h.first c (by rw [hvalue]; rfl)
      exact List.dropWhile_cons_of_neg (by simp [hc])
  rw [Text.trimChars, hstart]
  rcases List.eq_nil_or_concat' value.toList with hnil | ⟨cs, c, hconcat⟩
  · rw [hnil]
    rfl
  · have hc := h.last c (by rw [hconcat]; simp)
    rw [hconcat]
    exact dropTrailingBlanks_concat hc cs

/-- The value of a line is read. -/
theorem printedValue?_of_valueLine (h : ValueLine line value) (hvalue : Clean value) :
    printedValue? line = some value := by
  obtain ⟨digits, ending, hdigits, hending, hline⟩ := h
  have hnumber : ∀ c ∈ digits, '0' ≤ c ∧ c ≤ '9' := fun c hc => by
    simpa [Numeral.isDigit] using hdigits c hc
  refine printedValue?_eq_some_iff.mpr ?_
  rcases List.eq_nil_or_concat' value.toList with hnil | ⟨cs, c, hconcat⟩
  · -- Without a value, the blank after the equals sign is dropped from the line as well.
    have hblanks : ∀ c ∈ ' ' :: ending, isBlank c = true :=
      List.forall_mem_cons.mpr ⟨by decide, hending⟩
    have hcut : line.toList = '$' :: (digits ++ [' ', '=']) ++ ' ' :: ending := by
      simp [hline, hnil]
    refine ⟨digits, [' '], [], hnumber, by simp, ?_, ?_⟩
    · have hequals := dropTrailingBlanks_concat (c := '=') (by decide) ('$' :: (digits ++ [' ']))
      rw [hcut, dropTrailingBlanks_append hblanks]
      simpa using hequals
    · exact String.toList_inj.mp (hnil.trans (by decide))
  · have hc := hvalue.last c (by rw [hconcat]; simp)
    have hcut : line.toList = '$' :: (digits ++ ' ' :: '=' :: ' ' :: cs) ++ [c] ++ ending := by
      simp [hline, hconcat]
    refine ⟨digits, [' '], ' ' :: value.toList, hnumber, by simp, ?_, ?_⟩
    · rw [hcut, dropTrailingBlanks_append hending, dropTrailingBlanks_concat hc, hconcat]
      simp
    · have hbreak : (' ' :: value.toList).takeWhile (· != '\n') = ' ' :: value.toList := by
        refine List.takeWhile_eq_self_iff.mpr (List.forall_mem_cons.mpr ⟨by decide, fun d hd => ?_⟩)
        exact bne_iff_ne.mpr fun hd' => hvalue.unbroken (hd' ▸ hd)
      rw [hbreak, hvalue.trimChars, String.ofList_toList]

end

end LogTemplate

namespace LogPoints

open LogTemplate

/-! ## What is told -/

/-- What each act tells. -/
def answers (l : LogPoints) : List Act → List (Option String)
  | [] => []
  | a :: acts => (l.act a).1 :: (l.act a).2.answers acts

section

variable {l : LogPoints} {t : LogTemplate} {values : List (Option String)} {line : String}
  {lines : List String}

theorem onConsole_of_waiting (hline : printsValue line = true)
    (hwaiting : l.waiting = [⟨t, values⟩]) : l.onConsole line =
      if t.expressions.length ≤ values.length + 1 then
        (some (t.fill (values ++ [printedValue? line])), { l with waiting := [] })
      else (none, { l with waiting := [⟨t, values ++ [printedValue? line]⟩] }) := by
  simp [onConsole, hline, hwaiting, Hit.isComplete, Hit.message]

/-- The values of a hit arrive: the last of them completes the message. -/
theorem answers_consoles (hlines : ∀ line ∈ lines, printsValue line = true) (hne : lines ≠ [])
    (hwaiting : l.waiting = [⟨t, values⟩])
    (hlength : values.length + lines.length = t.expressions.length) :
    l.answers (lines.map .console) = List.replicate (lines.length - 1) none ++
      [some (t.fill (values ++ lines.map printedValue?))] := by
  induction lines generalizing l values with
  | nil => exact absurd rfl hne
  | cons line lines ih =>
    obtain ⟨hline, hlines⟩ := List.forall_mem_cons.mp hlines
    rw [List.length_cons] at hlength
    rw [List.map_cons, answers, act, onConsole_of_waiting hline hwaiting]
    cases lines with
    | nil =>
      rw [if_pos (by simp at hlength; omega)]
      rfl
    | cons next lines =>
      rw [if_neg (by simp at hlength; omega), ih hlines (List.cons_ne_nil _ _) rfl
        (by simp at hlength ⊢; omega)]
      simp [List.replicate_succ]

/-- A hit is told with its last value. -/
theorem answers_of_hit (hlines : ∀ line ∈ lines, printsValue line = true)
    (hlength : lines.length = t.expressions.length) (hwaiting : l.waiting = []) (id : UInt32) :
    l.answers (.register id t :: .hit id :: lines.map .console) =
      List.replicate (lines.length + 1) none ++ [some (t.fill (lines.map printedValue?))] := by
  have hget : (l.register id t).templates.get? id = some t := by
    rw [register, Table.get?_insert, if_pos rfl]
  have hnone : (l.register id t).waiting = [] := hwaiting
  rw [answers, answers, act, act, onHit, hget]
  cases lines with
  | nil =>
    have hcomplete : Hit.isComplete ⟨t, []⟩ = true := by simp [Hit.isComplete, ← hlength]
    simp [hcomplete, answers, Hit.message]
  | cons line lines =>
    have hcomplete : Hit.isComplete ⟨t, []⟩ = false := by simp [Hit.isComplete, ← hlength]
    have hvalues : (answers { l.register id t with waiting := [⟨t, []⟩] }
        ((line :: lines).map .console)) = _ :=
      answers_consoles hlines (List.cons_ne_nil _ _) rfl (by simpa using hlength)
    simp only [hcomplete, hnone, List.nil_append, Bool.false_eq_true, if_false, hvalues]
    simp [List.replicate_succ]

end

theorem printsValue_of_valueLine {line value : String} (h : ValueLine line value) :
    printsValue line = true := by
  obtain ⟨digits, ending, -, -, hline⟩ := h
  rw [printsValue, hline]
  rfl

theorem forall_printsValue {lines values : List String}
    (h : List.Forall₂ ValueLine lines values) : ∀ line ∈ lines, printsValue line = true := by
  induction h with
  | nil => exact fun line hline => absurd hline List.not_mem_nil
  | cons hline h ih => exact List.forall_mem_cons.mpr ⟨printsValue_of_valueLine hline, ih⟩

theorem map_printedValue? {lines values : List String} (h : List.Forall₂ ValueLine lines values)
    (hvalues : ∀ value ∈ values, Clean value) : lines.map printedValue? = values.map some := by
  induction h with
  | nil => rfl
  | cons hline h ih =>
    obtain ⟨hvalue, hvalues⟩ := List.forall_mem_cons.mp hvalues
    rw [List.map_cons, List.map_cons, printedValue?_of_valueLine hline hvalue, ih hvalues]

/--
The last value of a hit has the message told with its values, whatever they are. Until then nothing
is told.
-/
def TellsAsRead (message : String) (ps : List Piece) : Prop :=
  ∀ (l : LogPoints) (id : UInt32) (lines values : List String), l.waiting = [] →
    values.length = (slots ps).length → (∀ value ∈ values, Clean value) →
    List.Forall₂ ValueLine lines values →
    l.answers (.register id (ofMessage message) :: .hit id :: lines.map .console) =
      List.replicate (values.length + 1) none ++ [some (String.ofList (replaced ps values))]

variable {message : String} {ps : List Piece}

/-- What is told is the template with the values in place of its markers. -/
theorem answers_of_reads (h : Reads message.toList ps) {l : LogPoints} (hwaiting : l.waiting = [])
    (id : UInt32) {lines values : List String} (hlength : values.length = (slots ps).length)
    (hvalues : ∀ value ∈ values, Clean value) (hlines : List.Forall₂ ValueLine lines values) :
    l.answers (.register id (ofMessage message) :: .hit id :: lines.map .console) =
      List.replicate (values.length + 1) none ++
        [some (String.ofList (filled (ps.map Piece.mark) (values.map some)))] := by
  have hprints := forall_printsValue hlines
  have htemplate : ofMessage message = ⟨ps.map Piece.mark, (slots ps).map String.ofList⟩ :=
    h.ofChars
  rw [htemplate, answers_of_hit hprints (by simpa [hlines.length_eq] using hlength) hwaiting,
    map_printedValue? hlines hvalues, fill, fillChars_eq_filled, hlines.length_eq]

theorem tellsAsRead_iff (h : Reads message.toList ps) : TellsAsRead message ps ↔ Steady ps := by
  constructor
  · intro htells
    have hline : ValueLine "$1 = a" "a" :=
      ⟨['1'], [], List.forall_mem_singleton.mpr rfl, by simp, by decide⟩
    have hlines (n : Nat) :
        List.Forall₂ ValueLine (List.replicate n "$1 = a") (List.replicate n "a") := by
      induction n with
      | zero => exact .nil
      | succ n ih => exact .cons hline ih
    have hclean : ∀ value ∈ List.replicate (slots ps).length "a", Clean value := by
      intro value hmem
      rw [List.eq_of_mem_replicate hmem]
      exact clean_of_singleton 'a' (by decide) (by decide)
    have htold := htells {} 1 _ _ rfl (List.length_replicate ..) hclean (hlines _)
    rw [answers_of_reads h rfl 1 (List.length_replicate ..) hclean (hlines _)] at htold
    have hmessage := List.singleton_inj.mp (List.append_cancel_left htold)
    exact steady_of_filled (String.ofList_inj.mp (Option.some.inj hmessage))
  · intro hsteady l id lines values hwaiting hlength hvalues hlines
    rw [answers_of_reads h hwaiting id hlength hvalues hlines, filled_eq_replaced hsteady hlength]

/-- The template has one marker for each expression if the message has none of its own. -/
theorem count_marker_iff (h : Reads message.toList ps) :
    (ofMessage message).text.count marker = (ofMessage message).expressions.length ↔
      marker ∉ message.toList := by
  have htemplate : ofMessage message = ⟨ps.map Piece.mark, (slots ps).map String.ofList⟩ :=
    h.ofChars
  rw [htemplate, h.marker_mem_iff, count_marker, List.length_map, ← List.count_eq_zero]
  omega

/--
A message is read in one way, and its expressions are those of its placeholders. Once a hit has all
values, the message is told with each placeholder replaced by its value, exactly if no marker of the
message stands before a placeholder. Its template has one marker for each expression, exactly if it
holds no marker of its own.
-/
theorem told_as_read (message : String) : ∃ ps,
    (∀ qs, Reads message.toList qs ↔ qs = ps) ∧
      (ofMessage message).expressions = (slots ps).map String.ofList ∧
      (TellsAsRead message ps ↔ Steady ps) ∧
      ((ofMessage message).text.count marker = (ofMessage message).expressions.length ↔
        marker ∉ message.toList) := by
  obtain ⟨ps, h⟩ := exists_reads message.toList
  refine ⟨ps, fun qs => ⟨fun hqs => hqs.unique h, ?_⟩, ?_, tellsAsRead_iff h, count_marker_iff h⟩
  · rintro rfl
    exact h
  · exact congrArg expressions h.ofChars

/-- A marker in front of a placeholder takes its value, and the placeholder is told as a marker. -/
theorem marker_in_message :
    let message := String.ofList (marker :: "\x7bx\x7d".toList)
    let ps := [Piece.char marker, .slot ['x']]
    let acts := [Act.register 1 (ofMessage message), .hit 1, .console "$1 = 5\n"]
    Reads message.toList ps ∧ ValueLine "$1 = 5\n" "5" ∧ Clean "5" ∧
      answers {} acts = [none, none, some (String.ofList ['5', marker])] ∧
      replaced ps ["5"] = [marker, '5'] ∧ ¬ TellsAsRead message ps ∧
      (ofMessage message).text.count marker = 2 ∧ (ofMessage message).expressions = ["x"] := by
  intro message ps acts
  have hmessage : message.toList = marker :: '\x7b' :: (['x'] ++ '\x7d' :: []) := by decide
  have hprint : Printable ['x'] := ⟨by simp, List.forall_mem_singleton.mpr (.inl rfl)⟩
  have hreads : Reads message.toList ps := by
    rw [hmessage]
    exact .char (by decide) (.slot (by decide) hprint .nil)
  have htemplate : ofMessage message = ⟨[marker, marker], ["x"]⟩ := hreads.ofChars
  have hline : ValueLine "$1 = 5\n" "5" :=
    ⟨['1'], ['\n'], List.forall_mem_singleton.mpr rfl, List.forall_mem_singleton.mpr (by decide),
      by decide⟩
  have hclean : Clean "5" := clean_of_singleton '5' (by decide) (by decide)
  have htold : answers {} acts = [none, none, some (String.ofList ['5', marker])] := by
    simp only [acts, htemplate]
    decide
  refine ⟨hreads, hline, hclean, htold, rfl, fun h => ?_, ?_, ?_⟩
  · have hsteady : Steady ps := (tellsAsRead_iff hreads).mp h
    have hslot := (List.pairwise_cons.mp hsteady).1 (.slot ['x']) List.mem_cons_self rfl
    cases hslot
  · rw [htemplate]
    decide
  · rw [htemplate]

end LogPoints

end MachineInterface
