import MachineInterface.Proofs.Exchange.Numbers

/-!
# Moves of an exchange

Commands are registered, answered, cancelled, failed all at once, and given up by their callers.

* `effect_apply`: all that one move does to the commands that wait and to the answers that were
  received. Later proofs about histories use this and open no operation.
* `sound_apply`: numbers and tickets are not used twice, as long as numbers are left.
-/

namespace MachineInterface.Exchange

/-! ## Moves -/

/-- Something that happens to an exchange. -/
inductive Move where
  | register (command : String) (tolerant : Bool)
  /-- A result arrives. -/
  | resolve (record : ResultRecord)
  /-- The command under a number could not be written. -/
  | cancel (token : UInt64) (failure : Error)
  /-- The debugger is gone. -/
  | failAll (failure : Error)
  /-- The caller with a ticket stops waiting. -/
  | abandon (ticket : Nat)
  deriving DecidableEq

namespace Move

/-- The exchange after a move. -/
def apply (x : Exchange) : Move → Exchange
  | register command tolerant => (x.register command tolerant).2
  | resolve r => (x.resolve r).2
  | cancel token e => x.cancel token e
  | failAll e => x.failAll e
  | abandon ticket => x.abandon ticket

/-- Whether a move registers a command. -/
def isRegister : Move → Bool
  | register _ _ => true
  | _ => false

/-- Whether a move settles the command that waits under a number. -/
def settles (token : UInt64) : Move → Bool
  | resolve r => r.token = some token
  | cancel t _ => t = token
  | failAll _ => true
  | register _ _ | abandon _ => false

/--
What a move tells the caller of a command that waits under a number. A result goes to the caller as
it is, unless it is an error that the caller did not ask to have passed on.
-/
def answer? (token : UInt64) (command : String) (tolerant : Bool) : Move → Option Reply
  | resolve r =>
    if r.token = some token then
      if r.outcome = .error ∧ tolerant = false then
        some (.error (.command (r.message?.getD "Internal error") command))
      else some (.ok r)
    else none
  | cancel t e => if t = token then some (.error e) else none
  | failAll e => some (.error e)
  | register _ _ | abandon _ => none

theorem isSome_answer? (token : UInt64) (command : String) (tolerant : Bool) (m : Move) :
    (m.answer? token command tolerant).isSome = m.settles token := by
  cases m with
  | resolve r => by_cases h : r.token = some token <;> simp [answer?, settles, h, apply_ite]
  | cancel t e => by_cases h : t = token <;> simp [answer?, settles, h]
  | register _ _ | failAll _ | abandon _ => rfl

theorem answer?_eq_none_iff {token : UInt64} {command : String} {tolerant : Bool} {m : Move} :
    m.answer? token command tolerant = none ↔ m.settles token = false := by
  rw [← isSome_answer? token command tolerant, Option.isSome_eq_false_iff, Option.isNone_iff_eq_none]

end Move

/-! ## One move -/

namespace Move

/-- What the caller of a command that waits receives from a move. -/
def completion? (m : Move) (p : Pending) : Option Completion :=
  if p.awaited then (m.answer? p.token p.command p.tolerant).map (⟨p.ticket, p.token, ·⟩) else none

/-- A command that still waits after a move. -/
def keep (m : Move) (p : Pending) : Pending :=
  if m = abandon p.ticket then { p with awaited := false } else p

/-- The command that a move adds to those that wait. -/
def added (x : Exchange) : Move → List Pending
  | register command tolerant => [{ ticket := x.issued, token := x.freeToken, command, tolerant }]
  | _ => []

theorem keep_eq (m : Move) (p : Pending) :
    m.keep p = { p with awaited := p.awaited && decide (m ≠ abandon p.ticket) } := by
  unfold keep
  by_cases h : m = abandon p.ticket <;> simp [h]

@[simp] theorem ticket_keep (m : Move) (p : Pending) : (m.keep p).ticket = p.ticket := by
  unfold keep
  split <;> rfl

@[simp] theorem token_keep (m : Move) (p : Pending) : (m.keep p).token = p.token := by
  unfold keep
  split <;> rfl

theorem completion?_of_not_settles {m : Move} {p : Pending} (h : m.settles p.token = false) :
    m.completion? p = none := by
  simp [completion?, answer?_eq_none_iff.mpr h]

end Move

/-- Numbers and tickets are not used twice. -/
structure Sound (x : Exchange) : Prop where
  tokens : (x.pending.map (·.token)).Nodup
  tickets : (x.completions.map (·.ticket) ++ x.pending.map (·.ticket)).Nodup
  issued : ∀ k ∈ x.completions.map (·.ticket) ++ x.pending.map (·.ticket), k < x.issued

theorem sound_empty : Sound {} := ⟨List.nodup_nil, List.nodup_nil, by simp⟩

namespace Sound

variable {x : Exchange} {p q : Pending}

theorem pending_tickets (h : Sound x) : (x.pending.map (·.ticket)).Nodup :=
  h.tickets.of_append_right

theorem eq_of_token_eq (h : Sound x) (hp : p ∈ x.pending) (hq : q ∈ x.pending)
    (ht : p.token = q.token) : p = q :=
  List.inj_on_of_nodup_map h.tokens hp hq ht

theorem eq_of_ticket_eq (h : Sound x) (hp : p ∈ x.pending) (hq : q ∈ x.pending)
    (ht : p.ticket = q.ticket) : p = q :=
  List.inj_on_of_nodup_map h.pending_tickets hp hq ht

end Sound

/-- All that a move does to a sound exchange. -/
structure Effect (m : Move) (x y : Exchange) : Prop where
  pending : y.pending =
    (x.pending.filter fun p => !m.settles p.token).map m.keep ++ m.added x
  completions : y.completions = x.completions ++ x.pending.filterMap m.completion?
  issued : y.issued = x.issued + (m.added x).length

section Effect

variable {x : Exchange} {m : Move} {p : Pending}

theorem filter_eq_of_not_settles (h : ∀ p ∈ x.pending, m.settles p.token = false) :
    (x.pending.filter fun p => !m.settles p.token) = x.pending :=
  List.filter_eq_self.mpr fun p hp => by simp [h p hp]

theorem filterMap_eq_nil_of_not_settles (h : ∀ p ∈ x.pending, m.settles p.token = false) :
    x.pending.filterMap m.completion? = [] :=
  List.filterMap_eq_nil_iff.mpr fun p hp => Move.completion?_of_not_settles (h p hp)

theorem map_keep (hm : ∀ k, m ≠ .abandon k) (ps : List Pending) : ps.map m.keep = ps := by
  have : m.keep = id := by
    funext p
    simp [Move.keep, hm]
  rw [this, List.map_id]

/-- A move that settles nothing that waits, adds nothing and gives up nothing does nothing. -/
theorem effect_self (hs : ∀ p ∈ x.pending, m.settles p.token = false)
    (hm : ∀ k, m ≠ .abandon k) (ha : m.added x = []) : Effect m x x where
  pending := by rw [filter_eq_of_not_settles hs, map_keep hm, ha, List.append_nil]
  completions := by rw [filterMap_eq_nil_of_not_settles hs, List.append_nil]
  issued := by rw [ha]; rfl

/-- Among the commands that wait, the ones around a command have other numbers and tickets. -/
theorem Sound.others (h : Sound x) {before after : List Pending}
    (hx : x.pending = before ++ p :: after) :
    ∀ q ∈ before ++ after, q.token ≠ p.token ∧ q.ticket ≠ p.ticket := by
  have htok := h.tokens
  have htic := h.pending_tickets
  simp only [hx, List.map_append, List.map_cons] at htok htic
  rw [List.nodup_middle, List.nodup_cons, ← List.map_append] at htok htic
  intro q hq
  exact ⟨fun e => htok.1 (e ▸ List.mem_map_of_mem hq), fun e => htic.1 (e ▸ List.mem_map_of_mem hq)⟩

/-- A move that settles one command that waits answers this one. -/
theorem effect_complete (h : Sound x) (hp : p ∈ x.pending) {reply : Reply}
    (hm : ∀ t, m.settles t = decide (t = p.token)) (hk : ∀ k, m ≠ .abandon k)
    (ha : m.added x = []) (hans : m.answer? p.token p.command p.tolerant = some reply) :
    Effect m x (x.complete p reply) := by
  obtain ⟨before, after, hx⟩ := List.append_of_mem hp
  have hothers := h.others hx
  have hnone : ∀ q ∈ before ++ after, m.completion? q = none := fun q hq =>
    Move.completion?_of_not_settles (by simp [hm, (hothers q hq).1])
  refine ⟨?_, ?_, by rw [ha]; rfl⟩
  · rw [map_keep hk, ha, List.append_nil]
    refine List.filter_congr fun q hq => ?_
    have := h.eq_of_token_eq hq hp
    have := h.eq_of_ticket_eq hq hp
    by_cases he : q = p <;> simp_all
  · have hbefore : before.filterMap m.completion? = [] :=
      List.filterMap_eq_nil_iff.mpr fun q hq => hnone q (List.mem_append_left _ hq)
    have hafter : after.filterMap m.completion? = [] :=
      List.filterMap_eq_nil_iff.mpr fun q hq => hnone q (List.mem_append_right _ hq)
    simp only [hx, List.filterMap_append, List.filterMap_cons, hbefore, hafter]
    by_cases hw : p.awaited = true <;> simp [complete, Move.completion?, hw, hans]

theorem pending?_eq_none {t : UInt64} (h : x.pending? t = none) : ∀ p ∈ x.pending, p.token ≠ t :=
  fun p hp => by simpa using List.find?_eq_none.mp h p hp

theorem mem_of_pending? {t : UInt64} (h : x.pending? t = some p) : p ∈ x.pending ∧ p.token = t :=
  ⟨List.mem_of_find?_eq_some h, by simpa using List.find?_some h⟩

theorem effect_register (command : String) (tolerant : Bool) :
    Effect (.register command tolerant) x (x.register command tolerant).2 where
  pending := by
    rw [filter_eq_of_not_settles fun _ _ => rfl, map_keep (by simp)]
    rfl
  completions := by
    rw [filterMap_eq_nil_of_not_settles fun _ _ => rfl, List.append_nil]
    rfl
  issued := rfl

theorem effect_resolve (h : Sound x) (r : ResultRecord) : Effect (.resolve r) x (x.resolve r).2 := by
  cases hp : r.token.bind x.pending? with
  | none =>
    rw [resolve_unmatched hp]
    refine effect_self (fun p hp' => ?_) nofun rfl
    rw [Option.bind_eq_none_iff] at hp
    simp only [Move.settles, decide_eq_false_iff_not]
    intro ht
    exact pending?_eq_none (hp _ ht) p hp' rfl
  | some p =>
    obtain ⟨t, ht, hp'⟩ := Option.bind_eq_some_iff.mp hp
    obtain ⟨hmem, rfl⟩ := mem_of_pending? hp'
    have hm : ∀ u, (Move.resolve r).settles u = decide (u = p.token) := by
      intro u
      simp [Move.settles, ht, eq_comm]
    have hcomplete : ∀ reply, (Move.resolve r).answer? p.token p.command p.tolerant = some reply →
        Effect (.resolve r) x (x.complete p reply) :=
      fun reply => effect_complete h hmem hm nofun rfl
    unfold resolve
    rw [hp]
    dsimp only
    split
    · exact hcomplete _ (by simp_all [Move.answer?])
    · split
      · exact hcomplete _ (by simp_all [Move.answer?])
      · exact hcomplete _ (by simp_all [Move.answer?, defaultMessage])

theorem effect_cancel (h : Sound x) (t : UInt64) (e : Error) :
    Effect (.cancel t e) x (x.cancel t e) := by
  unfold cancel
  cases hp : x.pending? t with
  | none =>
    refine effect_self (fun p hp' => ?_) nofun rfl
    simpa [Move.settles, eq_comm] using pending?_eq_none hp p hp'
  | some p =>
    obtain ⟨hmem, rfl⟩ := mem_of_pending? hp
    exact effect_complete h hmem (fun u => by simp [Move.settles, eq_comm]) nofun rfl
      (by simp [Move.answer?])

/-- Commands that fail one after another. -/
theorem failAll_fold (e : Error) (ps : List Pending) (y : Exchange) :
    (ps.foldl (fun y p => y.complete p (.error e)) y).pending =
        y.pending.filter (fun q => ∀ p ∈ ps, q.ticket ≠ p.ticket) ∧
      (ps.foldl (fun y p => y.complete p (.error e)) y).completions =
        y.completions ++ ps.filterMap (Move.failAll e).completion? ∧
      (ps.foldl (fun y p => y.complete p (.error e)) y).issued = y.issued := by
  induction ps generalizing y with
  | nil => simp
  | cons p ps ih =>
    obtain ⟨hpending, hcompletions, hissued⟩ := ih (y.complete p (.error e))
    refine ⟨?_, ?_, hissued⟩
    · rw [List.foldl_cons, hpending]
      simp [complete, List.filter_filter, Bool.and_comm]
    · rw [List.foldl_cons, hcompletions]
      by_cases hw : p.awaited = true <;> simp [complete, Move.completion?, Move.answer?, hw]

theorem effect_failAll (e : Error) : Effect (.failAll e) x (x.failAll e) := by
  obtain ⟨hpending, hcompletions, hissued⟩ := failAll_fold e x.pending x
  refine ⟨?_, hcompletions, hissued⟩
  rw [failAll, hpending, map_keep (by simp)]
  simp only [Move.settles, Move.added, Bool.not_true, List.filter_false, List.append_nil]
  exact List.filter_eq_nil_iff.mpr fun p hp => by simpa using ⟨p, hp, rfl⟩

theorem effect_abandon (ticket : Nat) : Effect (.abandon ticket) x (x.abandon ticket) where
  pending := by
    have hadded : (Move.abandon ticket).added x = [] := rfl
    rw [filter_eq_of_not_settles fun _ _ => rfl, hadded, List.append_nil]
    refine List.map_congr_left fun p _ => ?_
    simp [Move.keep, eq_comm]
  completions := by
    rw [filterMap_eq_nil_of_not_settles fun _ _ => rfl, List.append_nil]
    rfl
  issued := rfl

/-- What each move does to a sound exchange. -/
theorem effect_apply (h : Sound x) (m : Move) : Effect m x (m.apply x) := by
  cases m with
  | register command tolerant => exact effect_register command tolerant
  | resolve r => exact effect_resolve h r
  | cancel t e => exact effect_cancel h t e
  | failAll e => exact effect_failAll e
  | abandon ticket => exact effect_abandon ticket

end Effect

/-! ## Soundness -/

section

variable {x y : Exchange} {m : Move}

theorem ticket_of_completion? {p : Pending} {c : Completion} (h : m.completion? p = some c) :
    c.ticket = p.ticket ∧ m.settles p.token = true := by
  unfold Move.completion? at h
  split at h
  · obtain ⟨r, hr, rfl⟩ := Option.map_eq_some_iff.mp h
    refine ⟨rfl, ?_⟩
    rw [← Move.isSome_answer? p.token p.command p.tolerant, hr]
    rfl
  · cases h

/-- New answers go to tickets of commands that are settled. -/
theorem completion_tickets_sublist (m : Move) (ps : List Pending) :
    ((ps.filterMap m.completion?).map (·.ticket)).Sublist
      ((ps.filter fun p => m.settles p.token).map (·.ticket)) := by
  induction ps with
  | nil => exact List.Sublist.refl _
  | cons p ps ih =>
    cases hc : m.completion? p with
    | none =>
      rw [List.filterMap_cons_none hc, List.filter_cons]
      split
      · exact ih.cons _
      · exact ih
    | some c =>
      obtain ⟨ht, hs⟩ := ticket_of_completion? hc
      rw [List.filterMap_cons_some hc, List.filter_cons, if_pos hs, List.map_cons, List.map_cons, ht]
      exact ih.cons_cons _

/-- The tickets after a move are those before it, and those of the commands that it adds. -/
theorem Effect.tickets_subperm (h : Effect m x y) :
    (y.completions.map (·.ticket) ++ y.pending.map (·.ticket)).Subperm
      ((x.completions.map (·.ticket) ++ x.pending.map (·.ticket)) ++
        (m.added x).map (·.ticket)) := by
  have hsplit := (List.filter_append_perm (fun p => m.settles p.token) x.pending).map (·.ticket)
  rw [List.map_append] at hsplit
  have hkeep : (fun p => (m.keep p).ticket) = fun p : Pending => p.ticket := by
    funext p
    exact m.ticket_keep p
  simp only [h.pending, h.completions, List.map_append, List.map_map, ← List.append_assoc,
    Function.comp_def, hkeep]
  refine (List.subperm_append_right _).mpr ?_
  rw [List.append_assoc, List.subperm_append_left]
  refine List.Subperm.trans (List.Sublist.subperm ?_) hsplit.subperm
  exact (completion_tickets_sublist m x.pending).append (List.Sublist.refl _)

/-- Numbers and tickets are not used twice after a move, if it finds a free number. -/
theorem sound_apply (h : Sound x) (m : Move)
    (room : ∀ command tolerant, m = .register command tolerant → x.HasRoom) :
    Sound (m.apply x) := by
  have he := effect_apply h m
  have hkeep : (fun p => (m.keep p).token) = fun p : Pending => p.token := by
    funext p
    exact m.token_keep p
  have hold : ((x.pending.filter fun p => !m.settles p.token).map (·.token)).Nodup :=
    h.tokens.sublist (List.filter_sublist.map _)
  have hadded : ((x.completions.map (·.ticket) ++ x.pending.map (·.ticket)) ++
      (m.added x).map (·.ticket)).Nodup := by
    cases m with
    | register command tolerant =>
      refine List.nodup_append.mpr ⟨h.tickets, List.nodup_singleton _, ?_⟩
      intro k hk k' hk' e
      have := h.issued k hk
      simp only [Move.added, List.map_cons, List.map_nil, List.mem_singleton] at hk'
      omega
    | resolve _ | cancel _ _ | failAll _ | abandon _ => simpa [Move.added] using h.tickets
  refine ⟨?_, ?_, ?_⟩
  · simp only [he.pending, List.map_append, List.map_map, Function.comp_def, hkeep]
    cases m with
    | register command tolerant =>
      obtain ⟨-, hfree⟩ := freeToken_isFree (room command tolerant rfl)
      refine List.nodup_append.mpr ⟨hold, List.nodup_singleton _, ?_⟩
      intro t ht t' ht' e
      simp only [Move.added, List.map_cons, List.map_nil, List.mem_singleton] at ht'
      have hmem : t ∈ x.pending.map (·.token) := (List.filter_sublist.map _).subset ht
      rw [← isPending_iff, e, ht', hfree] at hmem
      cases hmem
    | resolve _ | cancel _ _ | failAll _ | abandon _ => simpa [Move.added] using hold
  · obtain ⟨ks, hperm, hsub⟩ := he.tickets_subperm
    exact hperm.nodup_iff.mp (hadded.sublist hsub)
  · intro k hk
    rcases List.mem_append.mp (he.tickets_subperm.subset hk) with hk | hk
    · have := h.issued k hk
      rw [he.issued]
      omega
    · cases m with
      | register command tolerant =>
        simp only [Move.added, List.map_cons, List.map_nil, List.mem_singleton] at hk
        rw [he.issued, hk]
        exact Nat.lt_succ_self _
      | resolve _ | cancel _ _ | failAll _ | abandon _ => cases hk

end

end MachineInterface.Exchange
