import MachineInterface.Exchange
import MachineInterface.Line.Kind

/-!
# Answers stay

An answer that a caller received is never taken back or changed.

* `completions_resolve`, `completions_failAll`: whatever happens, the answers only grow.
* `reply?_of_prefix`: a caller who received an answer keeps it.
-/

namespace MachineInterface.Exchange

variable {x y : Exchange}

theorem completions_complete (x : Exchange) (p : Pending) (reply : Reply) :
    x.completions <+: (x.complete p reply).completions := by
  unfold complete
  dsimp only
  split
  · exact List.prefix_append _ _
  · exact List.prefix_rfl

theorem completions_resolve (x : Exchange) (r : ResultRecord) :
    x.completions <+: (x.resolve r).2.completions := by
  unfold resolve
  split
  · exact List.prefix_rfl
  · split
    · exact completions_complete x _ _
    · dsimp only
      split <;> exact completions_complete x _ _

theorem completions_cancel (x : Exchange) (token : UInt64) (e : Error) :
    x.completions <+: (x.cancel token e).completions := by
  unfold cancel
  split
  · exact List.prefix_rfl
  · exact completions_complete x _ _

theorem completions_failAll (x : Exchange) (e : Error) :
    x.completions <+: (x.failAll e).completions := by
  unfold failAll
  generalize x.pending = ps
  induction ps generalizing x with
  | nil => exact List.prefix_rfl
  | cons p ps ih => exact (completions_complete x p _).trans (ih _)

/-- The exchange after a line arrived: a result answers a command. -/
def hearLine (x : Exchange) (line : String) : Exchange :=
  match Line.classify line with
  | .record (.result r) => (x.resolve r).2
  | _ => x

theorem hearLine_result {line : String} {r : ResultRecord}
    (h : Line.classify line = .record (.result r)) : x.hearLine line = (x.resolve r).2 := by
  rw [hearLine, h]

theorem hearLine_of_no_result {line : String}
    (h : ∀ r, Line.classify line ≠ .record (.result r)) : x.hearLine line = x := by
  unfold hearLine
  split
  · rename_i r hr
    exact absurd hr (h r)
  · rfl

theorem completions_hearLine (x : Exchange) (line : String) :
    x.completions <+: (x.hearLine line).completions := by
  unfold hearLine
  split
  · exact completions_resolve x _
  · exact List.prefix_rfl

theorem completions_foldl_hearLine (x : Exchange) (lines : List String) :
    x.completions <+: (lines.foldl hearLine x).completions := by
  induction lines generalizing x with
  | nil => exact List.prefix_rfl
  | cons line lines ih => exact (completions_hearLine x line).trans (ih _)

/-- A caller who received an answer keeps it. -/
theorem reply?_of_prefix (h : x.completions <+: y.completions) {ticket : Nat} {r : Reply}
    (hr : x.reply? ticket = some r) : y.reply? ticket = some r := by
  obtain ⟨more, hmore⟩ := h
  obtain ⟨c, hc, rfl⟩ := Option.map_eq_some_iff.mp hr
  rw [reply?, ← hmore, List.find?_append, hc]
  rfl

end MachineInterface.Exchange
