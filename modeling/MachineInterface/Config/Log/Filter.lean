import MachineInterface.Config.Basic
import MachineInterface.Config.Log.Directive

/-!
# Log filters

Which messages the log keeps: directives, each for a subject of its own. A filter is written as
directives between commas.

* `ofText?_none_of_invalid`: one wrong directive makes the whole filter wrong.
* `distinct_ofDirectives`: no two directives are about the same subject.
* `mem_add_iff`: what a filter holds after one more directive.
-/

namespace MachineInterface

open Text

/-- Directives, one for each subject. -/
structure LogFilter where
  directives : List LogDirective
  deriving Repr, DecidableEq

namespace LogFilter

/-- The filter with one more directive; an earlier one about the same subject is replaced. -/
def add (f : LogFilter) (d : LogDirective) : LogFilter :=
  ⟨f.directives.filter (!·.subject.isSame d.subject) ++ [d]⟩

/-- The filter of some directives. -/
def ofDirectives (ds : List LogDirective) : LogFilter := ds.foldl add ⟨[]⟩

/-- The filter that a text stands for. -/
def ofText? (s : String) : Option LogFilter :=
  (((s.toList.splitOn ',').filter (!·.isEmpty)).mapM LogDirective.ofChars?).map ofDirectives

/-- One wrong directive makes the whole filter wrong. -/
theorem ofText?_none_of_invalid {s : String} {d : List Char} (hd : d ∈ s.toList.splitOn ',')
    (hne : d ≠ []) (h : LogDirective.ofChars? d = none) : ofText? s = none := by
  have key : ∀ ds : List (List Char), d ∈ ds → ds.mapM LogDirective.ofChars? = none := by
    intro ds hmem
    induction ds with
    | nil => cases hmem
    | cons x xs ih =>
      rw [List.mapM_cons]
      rcases List.mem_cons.1 hmem with rfl | hmem
      · rw [h]
        rfl
      · cases LogDirective.ofChars? x with
        | none => rfl
        | some _ => rw [ih hmem]; rfl
  rw [ofText?, key _ (List.mem_filter.2 ⟨hd, by simpa using hne⟩)]
  rfl

/-! ## One directive for each subject -/

/-- Whether no two directives are about the same subject. -/
def IsDistinct (f : LogFilter) : Prop :=
  f.directives.Pairwise fun d e => d.subject.isSame e.subject = false

/-- A directive that is added replaces those about its subject and leaves the others. -/
theorem mem_add_iff {f : LogFilter} {d e : LogDirective} :
    e ∈ (f.add d).directives ↔
      e = d ∨ (e ∈ f.directives ∧ e.subject.isSame d.subject = false) := by
  simp [add, or_comm]

theorem IsDistinct.add {f : LogFilter} (h : f.IsDistinct) (d : LogDirective) :
    (f.add d).IsDistinct := by
  rw [IsDistinct, LogFilter.add, List.pairwise_append]
  refine ⟨h.sublist List.filter_sublist, List.pairwise_singleton _ _, ?_⟩
  intro e he t ht
  rw [List.mem_singleton.1 ht]
  simpa using (List.mem_filter.1 he).2

/-- No two directives are about the same subject. -/
theorem distinct_ofDirectives (ds : List LogDirective) : (ofDirectives ds).IsDistinct := by
  suffices ∀ f : LogFilter, f.IsDistinct → (ds.foldl LogFilter.add f).IsDistinct from
    this ⟨[]⟩ List.Pairwise.nil
  induction ds with
  | nil => exact fun _ h => h
  | cons d ds ih => exact fun f h => ih _ (h.add d)

/-! ## Printing -/

/-- Directives as text, those with the narrowest subjects first. -/
def texts (ds : List LogDirective) : List String :=
  (ds.mergeSort fun a b => (a.subject.order b.subject).isGE).map LogDirective.text

/--
The filter as text. First come the directives about what a message shows by itself, and then those
about a span or a field. A field without a value is both.
-/
def text (f : LogFilter) : String :=
  let fixed := f.directives.filter (·.subject.isStatic)
  let changing := f.directives.filter fun d => d.subject.span.isSome || d.subject.field.isSome
  ",".intercalate (texts fixed ++ texts changing)

end LogFilter

namespace LoggingConfig

/-- The directives of a chosen level: a level in any case, or a text that is kept as it is. -/
def directives (level : String) : String :=
  let word := trim level
  if word.isEmpty then "info"
  else
    let known := LogLevel.lower word
    if known = "warning" then "warn"
    else if ["trace", "debug", "info", "warn", "error"].contains known then known
    else word

/-- The filter of the chosen level alone. -/
def ownFilter (c : LoggingConfig) : LogFilter :=
  (LogFilter.ofText? (directives c.level)).getD ⟨[.all .info]⟩

/--
The filter of the chosen level, followed by the directives of the environment. Where both together
are wrong, those of the environment stand alone, and where these are wrong, the chosen level.
-/
def filter (c : LoggingConfig) (environment : Option String) : LogFilter :=
  match (environment.map trim).filter (!·.isEmpty) with
  | none => c.ownFilter
  | some extra =>
    ((LogFilter.ofText? (directives c.level ++ "," ++ extra)).or (LogFilter.ofText? extra)).getD
      c.ownFilter

end LoggingConfig

end MachineInterface
