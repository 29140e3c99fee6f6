import MachineInterface.Proofs.Exchange.Answers
import MachineInterface.Proofs.Exchange.Effect

/-!
# Tickets

Tickets are given out in order, and a command that waits has no answer yet. Unlike the numbers of
commands, tickets do not run out, so this holds whatever happens.

* `Orderly.register`, `Orderly.resolve`, `Orderly.failAll`: tickets stay in order.
* `reply?_failAll`: when all commands fail, each one that waits gets the failure.
-/

namespace MachineInterface.Exchange

/-- Tickets are given out in order, and no command that waits has an answer. -/
structure Orderly (x : Exchange) : Prop where
  distinct : (x.pending.map (·.ticket)).Nodup
  answered : ∀ c ∈ x.completions, c.ticket < x.issued
  waiting : ∀ p ∈ x.pending, p.ticket < x.issued
  apart : ∀ c ∈ x.completions, ∀ p ∈ x.pending, c.ticket ≠ p.ticket

theorem orderly_empty : Orderly {} := by
  constructor
  · exact List.nodup_nil
  · intro c hc
    cases hc
  · intro p hp
    cases hp
  · intro c hc
    cases hc

/-- A result answers one command that waits, or none. -/
theorem resolve_cases (x : Exchange) (r : ResultRecord) : (x.resolve r).2 = x ∨
    ∃ p ∈ x.pending, ∃ reply, (x.resolve r).2 = x.complete p reply := by
  unfold resolve
  split
  · exact .inl rfl
  · rename_i p hp
    obtain ⟨token, -, hp⟩ := Option.bind_eq_some_iff.mp hp
    refine .inr ⟨p, (mem_of_pending? hp).1, ?_⟩
    split
    · exact ⟨_, rfl⟩
    · dsimp only
      split <;> exact ⟨_, rfl⟩

namespace Orderly

variable {x : Exchange} {p : Pending}

theorem register (h : x.Orderly) (command : String) (tolerant : Bool) :
    (x.register command tolerant).2.Orderly := by
  have hpending : ∀ q ∈ (x.register command tolerant).2.pending,
      q ∈ x.pending ∨ q.ticket = x.issued := by
    intro q hq
    rcases List.mem_append.mp hq with hq | hq
    · exact .inl hq
    · obtain rfl := List.mem_singleton.mp hq
      exact .inr rfl
  refine ⟨?_, ?_, ?_, ?_⟩
  · simp only [Exchange.register, List.map_append, List.map_cons, List.map_nil]
    refine List.nodup_append.mpr ⟨h.distinct, List.nodup_singleton _, ?_⟩
    intro a ha b hb hab
    obtain ⟨q, hq, rfl⟩ := List.mem_map.mp ha
    have hlt := h.waiting q hq
    rw [List.mem_singleton] at hb
    omega
  · intro c hc
    exact Nat.lt_succ_of_lt (h.answered c hc)
  · intro q hq
    rcases hpending q hq with hq | hq
    · exact Nat.lt_succ_of_lt (h.waiting q hq)
    · rw [hq]
      exact Nat.lt_succ_self _
  · intro c hc q hq
    rcases hpending q hq with hq | hq
    · exact h.apart c hc q hq
    · have := h.answered c hc
      omega

theorem complete (h : x.Orderly) (hp : p.ticket < x.issued) (r : Reply) :
    (x.complete p r).Orderly := by
  have hcompletions : ∀ c ∈ (x.complete p r).completions,
      c ∈ x.completions ∨ c.ticket = p.ticket := by
    intro c hc
    unfold Exchange.complete at hc
    dsimp only at hc
    split at hc
    · rcases List.mem_append.mp hc with hc | hc
      · exact .inl hc
      · obtain rfl := List.mem_singleton.mp hc
        exact .inr rfl
    · exact .inl hc
  have hpending : ∀ q ∈ (x.complete p r).pending, q ∈ x.pending ∧ q.ticket ≠ p.ticket := by
    intro q hq
    simpa [Exchange.complete] using hq
  refine ⟨?_, ?_, ?_, ?_⟩
  · exact h.distinct.sublist (List.filter_sublist.map _)
  · intro c hc
    rcases hcompletions c hc with hc | hc
    · exact h.answered c hc
    · rw [hc]
      exact hp
  · intro q hq
    exact h.waiting q (hpending q hq).1
  · intro c hc q hq
    obtain ⟨hq, hne⟩ := hpending q hq
    rcases hcompletions c hc with hc | hc
    · exact h.apart c hc q hq
    · rw [hc]
      exact hne.symm

theorem resolve (h : x.Orderly) (r : ResultRecord) : (x.resolve r).2.Orderly := by
  rcases x.resolve_cases r with hr | ⟨p, hp, reply, hr⟩
  · rw [hr]
    exact h
  · rw [hr]
    exact h.complete (h.waiting p hp) reply

theorem cancel (h : x.Orderly) (token : UInt64) (e : Error) : (x.cancel token e).Orderly := by
  unfold Exchange.cancel
  split
  · exact h
  · rename_i p hp
    exact h.complete (h.waiting p (mem_of_pending? hp).1) _

theorem failAll (h : x.Orderly) (e : Error) : (x.failAll e).Orderly := by
  have hfold : ∀ (ps : List Pending) (y : Exchange), y.Orderly →
      (∀ p ∈ ps, p.ticket < y.issued) →
      (ps.foldl (fun y p => y.complete p (.error e)) y).Orderly := by
    intro ps
    induction ps with
    | nil => exact fun y hy _ => hy
    | cons p ps ih =>
      intro y hy hps
      refine ih _ (hy.complete (hps p List.mem_cons_self) _) ?_
      exact fun q hq => hps q (List.mem_cons_of_mem p hq)
  exact hfold x.pending x h h.waiting

theorem abandon (h : x.Orderly) (ticket : Nat) : (x.abandon ticket).Orderly := by
  have hpending : ∀ q ∈ (x.abandon ticket).pending, ∃ p ∈ x.pending, p.ticket = q.ticket := by
    intro q hq
    obtain ⟨p, hp, rfl⟩ := List.mem_map.mp hq
    refine ⟨p, hp, ?_⟩
    split <;> rfl
  have htickets : (x.abandon ticket).pending.map (·.ticket) = x.pending.map (·.ticket) := by
    rw [Exchange.abandon, List.map_map]
    refine List.map_congr_left fun p _ => ?_
    simp only [Function.comp_apply]
    split <;> rfl
  refine ⟨?_, h.answered, ?_, ?_⟩
  · rw [htickets]
    exact h.distinct
  · intro q hq
    obtain ⟨p, hp, hpq⟩ := hpending q hq
    rw [← hpq]
    exact h.waiting p hp
  · intro c hc q hq
    obtain ⟨p, hp, hpq⟩ := hpending q hq
    rw [← hpq]
    exact h.apart c hc p hp

theorem hearLine (h : x.Orderly) (line : String) : (x.hearLine line).Orderly := by
  unfold Exchange.hearLine
  split
  · exact h.resolve _
  · exact h

theorem foldl_hearLine (h : x.Orderly) (lines : List String) :
    (lines.foldl Exchange.hearLine x).Orderly := by
  induction lines generalizing x with
  | nil => exact h
  | cons line lines ih => exact ih (h.hearLine line)

/-- Nobody has an answer to a command that is not yet registered. -/
theorem reply?_issued (h : x.Orderly) : x.reply? x.issued = none := by
  rw [reply?, Option.map_eq_none_iff, List.find?_eq_none]
  intro c hc
  simpa using Nat.ne_of_lt (h.answered c hc)

/-- A command that is cancelled at once has failed, if it has an answer. -/
theorem reply?_cancel_register (h : x.Orderly) {command : String} {tolerant : Bool} {token : UInt64}
    {e : Error} {r : Reply}
    (hr : ((x.register command tolerant).2.cancel token e).reply? x.issued = some r) :
    r = .error e := by
  have hnone : (x.register command tolerant).2.reply? x.issued = none := h.reply?_issued
  unfold Exchange.cancel at hr
  split at hr
  · rw [hnone] at hr
    cases hr
  · rename_i q _
    rw [reply?, Option.map_eq_none_iff] at hnone
    unfold Exchange.complete at hr
    cases hq : q.awaited with
    | false =>
      simp only [reply?, hq, Bool.false_eq_true, if_false, hnone] at hr
      cases hr
    | true =>
      obtain ⟨c, hc, rfl⟩ := Option.map_eq_some_iff.mp hr
      simp only [hq, if_true, List.find?_append, hnone, Option.none_or] at hc
      rw [List.mem_singleton.mp (List.mem_of_find?_eq_some hc)]

theorem reply?_eq_none (h : x.Orderly) (hp : p ∈ x.pending) : x.reply? p.ticket = none := by
  rw [reply?, Option.map_eq_none_iff, List.find?_eq_none]
  intro c hc
  simpa using h.apart c hc p hp

/-- A command that waited still waits after a line, or its caller has received an answer. -/
theorem mem_or_answered_hearLine (h : x.Orderly) (hp : p ∈ x.pending) (hw : p.awaited = true)
    (line : String) :
    p ∈ (x.hearLine line).pending ∨ ∃ r, (x.hearLine line).reply? p.ticket = some r := by
  have hcomplete : ∀ q ∈ x.pending, ∀ reply, p ∈ (x.complete q reply).pending ∨
      ∃ r, (x.complete q reply).reply? p.ticket = some r := by
    intro q hq reply
    by_cases hticket : p.ticket = q.ticket
    · obtain rfl := List.inj_on_of_nodup_map h.distinct hp hq hticket
      have hnone : x.completions.find? (·.ticket = p.ticket) = none := by
        have hreply := h.reply?_eq_none hp
        rwa [reply?, Option.map_eq_none_iff] at hreply
      refine .inr ⟨reply, ?_⟩
      simp [reply?, Exchange.complete, hw, List.find?_append, hnone]
    · exact .inl (by simp [Exchange.complete, hp, hticket])
  unfold Exchange.hearLine
  split
  · rename_i record _
    rcases x.resolve_cases record with hr | ⟨q, hq, reply, hr⟩
    · rw [hr]
      exact .inl hp
    · rw [hr]
      exact hcomplete q hq reply
  · exact .inl hp

theorem mem_or_answered_foldl_hearLine (h : x.Orderly) (hp : p ∈ x.pending)
    (hw : p.awaited = true) (lines : List String) :
    p ∈ (lines.foldl Exchange.hearLine x).pending ∨
      ∃ r, (lines.foldl Exchange.hearLine x).reply? p.ticket = some r := by
  induction lines generalizing x with
  | nil => exact .inl hp
  | cons line lines ih =>
    rcases h.mem_or_answered_hearLine hp hw line with hline | ⟨r, hr⟩
    · exact ih (h.hearLine line) hline
    · exact .inr ⟨r, reply?_of_prefix (completions_foldl_hearLine _ lines) hr⟩

end Orderly

/-! ## When all fail -/

variable {x : Exchange}

theorem pending_failAll (x : Exchange) (e : Error) : (x.failAll e).pending = [] := by
  have hpending := (effect_failAll (x := x) e).pending
  simpa [Move.settles, Move.added] using hpending

theorem completion?_failAll (e : Error) (p : Pending) : (Move.failAll e).completion? p =
    if p.awaited then some ⟨p.ticket, p.token, .error e⟩ else none := rfl

/-- Each command that waits gets the failure, if its caller still waits too. -/
theorem reply?_failAll (h : x.Orderly) (e : Error) {p : Pending} (hp : p ∈ x.pending)
    (hw : p.awaited = true) : (x.failAll e).reply? p.ticket = some (.error e) := by
  have hcompletions := (effect_failAll (x := x) e).completions
  have hnone : x.completions.find? (·.ticket = p.ticket) = none := by
    have hreply := h.reply?_eq_none hp
    rwa [reply?, Option.map_eq_none_iff] at hreply
  have hmem : ⟨p.ticket, p.token, .error e⟩ ∈ x.pending.filterMap (Move.failAll e).completion? := by
    refine List.mem_filterMap.mpr ⟨p, hp, ?_⟩
    rw [completion?_failAll, if_pos hw]
  have hreply : ∀ c ∈ x.pending.filterMap (Move.failAll e).completion?, c.reply = .error e := by
    intro c hc
    obtain ⟨q, -, hq⟩ := List.mem_filterMap.mp hc
    rw [completion?_failAll] at hq
    split at hq
    · cases hq
      rfl
    · cases hq
  rw [reply?, hcompletions, List.find?_append, hnone, Option.none_or]
  cases hfind : (x.pending.filterMap (Move.failAll e).completion?).find? (·.ticket = p.ticket) with
  | none =>
    have hne := List.find?_eq_none.mp hfind _ hmem
    simp at hne
  | some c => rw [Option.map_some, hreply c (List.mem_of_find?_eq_some hfind)]

end MachineInterface.Exchange
