import MachineInterface.Proofs.Exchange.Tickets
import MachineInterface.Proofs.Record.Replies

/-!
# Answers to many callers

Some callers ask, and answers to them come in any order. Each answer names the number of its command,
so it goes to the caller of this command, whoever else still waits.

* `Serves.register`: one more caller asks.
* `Serves.resolve`: an answer to a caller who waits is received by this caller alone.
-/

namespace MachineInterface.Exchange

variable {x : Exchange} {p : Pending}

/-! ## One answer -/

theorem pending?_of_mem (h : (x.pending.map (·.token)).Nodup) (hp : p ∈ x.pending) :
    x.pending? p.token = some p := by
  cases hfind : x.pending? p.token with
  | none => exact absurd rfl (pending?_eq_none hfind p hp)
  | some q =>
    obtain ⟨hq, htoken⟩ := mem_of_pending? hfind
    rw [List.inj_on_of_nodup_map h hq hp htoken]

/-- What the caller of a command makes of a result. -/
def replyOf (p : Pending) (r : ResultRecord) : Reply :=
  if r.outcome = .error ∧ p.tolerant = false then
    .error (.command (r.message?.getD defaultMessage) p.command)
  else .ok r

/-- A result goes to the caller whose command waits under its number. -/
theorem resolve_matched {r : ResultRecord} (h : r.token.bind x.pending? = some p) :
    (x.resolve r).2 = x.complete p (replyOf p r) ∧ ∀ record, (x.resolve r).1 ≠ .unmatched record := by
  rw [resolve, h, replyOf]
  by_cases houtcome : r.outcome = .error
  · cases htolerant : p.tolerant <;> simp [houtcome, htolerant]
  · simp [houtcome]

/-- An answer under the number of a command says the same to its caller. -/
theorem replyOf_record (p : Pending) (a : Answer) :
    replyOf p (a.body.record (some p.token)) = a.reply p.token p.command p.tolerant := by
  cases a with
  | result body => rfl
  | error message =>
    have hmessage := message?_error message (some p.token)
    rw [replyOf, show (Answer.error message).body = .ofError message from rfl, hmessage]
    cases htolerant : p.tolerant <;> simp [Answer.reply, ResultBody.ofError, ResultBody.record]

/-- A command that is answered waits no more; all others still do. -/
theorem length_pending_complete (h : x.Orderly) (hp : p ∈ x.pending) (r : Reply) :
    (x.complete p r).pending.length + 1 = x.pending.length := by
  have hone : x.pending.countP (fun q => decide (q.ticket = p.ticket)) = 1 := by
    have hcount := List.count_eq_one_of_mem h.distinct (List.mem_map_of_mem hp)
    rw [List.count, List.countP_map] at hcount
    exact hcount
  have hsplit : x.pending.length = x.pending.countP (fun q => decide (q.ticket = p.ticket)) +
      x.pending.countP (fun q => decide ¬decide (q.ticket = p.ticket) = true) :=
    List.length_eq_countP_add_countP _
  have hpending : (x.complete p r).pending = x.pending.filter (·.ticket ≠ p.ticket) := rfl
  rw [hpending, ← List.countP_eq_length_filter, hsplit, hone, Nat.add_comm]
  simp

theorem reply?_complete (h : x.Orderly) (hp : p ∈ x.pending) (hw : p.awaited = true) (r : Reply) :
    (x.complete p r).reply? p.ticket = some r := by
  have hnone : x.completions.find? (·.ticket = p.ticket) = none := by
    have hreply := h.reply?_eq_none hp
    rwa [reply?, Option.map_eq_none_iff] at hreply
  simp [reply?, complete, hw, List.find?_append, hnone]

/-! ## Many callers -/

/-- The entry that the next command gets. -/
def nextPending (x : Exchange) (command : String) (tolerant : Bool) : Pending :=
  ⟨x.issued, x.freeToken, command, tolerant, true⟩

theorem pending_register (x : Exchange) (command : String) (tolerant : Bool) :
    (x.register command tolerant).2.pending = x.pending ++ [x.nextPending command tolerant] := rfl

/-- Some callers have asked, and some of them were answered. -/
structure Serves (start : Nat) (asked : List Pending) (given : List (Nat × Answer))
    (x : Exchange) : Prop where
  orderly : x.Orderly
  distinct : (x.pending.map (·.token)).Nodup
  issued : x.issued = start + asked.length
  tickets : ∀ i p, asked[i]? = some p → p.ticket = start + i ∧ p.awaited = true
  /-- Those wait who were not answered. -/
  mem_pending : ∀ p, p ∈ x.pending ↔ p ∈ asked ∧ ∀ q ∈ given, p.ticket ≠ start + q.1
  count : x.pending.length + given.length = asked.length
  /-- Those who were answered received what the answer to them says. -/
  replies : ∀ q ∈ given, ∃ p, asked[q.1]? = some p ∧
    x.reply? p.ticket = some (q.2.reply p.token p.command p.tolerant)

theorem serves_start (h : x.Orderly) (hp : x.pending = []) : Serves x.issued [] [] x where
  orderly := h
  distinct := by simp [hp]
  issued := rfl
  tickets := by simp
  mem_pending := by simp [hp]
  count := by simp [hp]
  replies := by simp

namespace Serves

variable {start : Nat} {asked : List Pending} {given : List (Nat × Answer)}

theorem lt_of_given (h : Serves start asked given x) {q : Nat × Answer} (hq : q ∈ given) :
    q.1 < asked.length := by
  obtain ⟨p, hp, -⟩ := h.replies q hq
  exact (List.getElem?_eq_some_iff.mp hp).1

/-- One more caller asks, as long as a number is left. -/
theorem register (h : Serves start asked given x) (command : String) (tolerant : Bool)
    (hroom : asked.length + 2 ≤ given.length + 2 ^ 64) :
    Serves start (asked ++ [x.nextPending command tolerant]) given
      (x.register command tolerant).2 := by
  have hissued := h.issued
  have hcount := h.count
  -- Fewer commands wait than there are numbers, so the new one has a number of its own.
  have hfree : x.isPending x.freeToken = false := by
    obtain ⟨i, -, hi⟩ := x.exists_isFree_nth (by omega)
    exact (freeToken_isFree ⟨_, hi⟩).2
  have hnew : ∀ q ∈ given, x.issued ≠ start + q.1 := by
    intro q hq
    have hlt := h.lt_of_given hq
    omega
  refine ⟨h.orderly.register command tolerant, ?_, ?_, ?_, ?_, ?_, ?_⟩
  · rw [pending_register, List.map_append]
    refine List.nodup_append.mpr ⟨h.distinct, List.nodup_singleton _, ?_⟩
    rintro t ht t' ht' rfl
    obtain rfl := List.mem_singleton.mp ht'
    have htaken : x.isPending x.freeToken = true := isPending_iff.mpr ht
    rw [hfree] at htaken
    cases htaken
  · change x.issued + 1 = _
    rw [List.length_append, List.length_singleton, hissued, Nat.add_assoc]
  · intro i q hq
    rcases Nat.lt_or_ge i asked.length with hlt | hge
    · rw [List.getElem?_append_left hlt] at hq
      exact h.tickets i q hq
    · rw [List.getElem?_append_right hge, List.getElem?_singleton] at hq
      obtain ⟨hlast, ⟨⟩⟩ := Option.ite_none_right_eq_some.mp hq
      have hticket : x.issued = start + i := by omega
      exact ⟨hticket, rfl⟩
  · intro q
    rw [pending_register, List.mem_append, List.mem_append, h.mem_pending, or_and_right]
    refine or_congr_right (iff_self_and.mpr fun hq => ?_)
    rwa [List.mem_singleton.mp hq]
  · rw [pending_register, List.length_append, List.length_append]
    omega
  · intro q hq
    obtain ⟨p, hp, hreply⟩ := h.replies q hq
    exact ⟨p, by rw [List.getElem?_append_left (h.lt_of_given hq), hp], hreply⟩

/-- An answer to a caller who waits is received by this caller alone. -/
theorem resolve (h : Serves start asked given x) {i : Nat} (hi : ∀ q ∈ given, q.1 ≠ i)
    (hp : asked[i]? = some p) (a : Answer) :
    Serves start asked (given ++ [(i, a)]) (x.resolve (a.body.record (some p.token))).2 ∧
      ∀ record, (x.resolve (a.body.record (some p.token))).1 ≠ .unmatched record := by
  obtain ⟨hticket, hawaited⟩ := h.tickets i p hp
  have hmem : p ∈ x.pending := by
    refine (h.mem_pending p).mpr ⟨List.mem_of_getElem? hp, fun q hq => ?_⟩
    have hne := hi q hq
    omega
  obtain ⟨hresolve, hmatched⟩ := resolve_matched
    (r := a.body.record (some p.token)) (pending?_of_mem h.distinct hmem)
  refine ⟨?_, hmatched⟩
  rw [hresolve, replyOf_record]
  set r := a.reply p.token p.command p.tolerant
  have hlength := length_pending_complete h.orderly hmem r
  have hpending : (x.complete p r).pending = x.pending.filter (·.ticket ≠ p.ticket) := rfl
  refine ⟨h.orderly.complete (h.orderly.waiting p hmem) r, ?_, h.issued, h.tickets, ?_, ?_, ?_⟩
  · exact h.distinct.sublist (List.filter_sublist.map _)
  · intro q
    rw [hpending, List.mem_filter, decide_eq_true_eq, h.mem_pending, and_assoc, hticket]
    simp [or_imp, forall_and]
  · have hcount := h.count
    rw [List.length_append, List.length_singleton]
    omega
  · intro q hq
    rcases List.mem_append.mp hq with hq | hq
    · obtain ⟨p', hp', hreply⟩ := h.replies q hq
      exact ⟨p', hp', reply?_of_prefix (completions_complete x p r) hreply⟩
    · obtain rfl := List.mem_singleton.mp hq
      exact ⟨p, hp, reply?_complete h.orderly hmem hawaited r⟩

/-- Once all callers were answered, nothing waits. -/
theorem pending_eq_nil (h : Serves start asked given x)
    (hall : ∀ i < asked.length, ∃ q ∈ given, q.1 = i) : x.pending = [] := by
  refine List.eq_nil_iff_forall_not_mem.mpr fun p hp => ?_
  obtain ⟨hasked, hopen⟩ := (h.mem_pending p).mp hp
  obtain ⟨i, hi⟩ := List.mem_iff_getElem?.mp hasked
  obtain ⟨q, hq, rfl⟩ := hall i (List.getElem?_eq_some_iff.mp hi).1
  exact hopen q hq (h.tickets _ p hi).1

end Serves

end MachineInterface.Exchange
