import MachineInterface.Proofs.Exchange.Effect
import MachineInterface.Proofs.Sequence
import Mathlib.Data.List.Induction
import Mathlib.Data.List.TakeWhile

/-!
# The history of an exchange

What the caller of a command receives depends on the moves after its registration alone, and among
these on the first one that settles the command.

* `mem_pending_run`: who still waits after a history.
* `mem_completions_run`: who has received what.
* `settled_once`: all of it for any history, from an exchange without commands.
-/

namespace MachineInterface.Exchange

/-- The exchange after a history. -/
def run (moves : List Move) : Exchange := moves.foldl Move.apply {}

theorem run_snoc (moves : List Move) (m : Move) : run (moves ++ [m]) = m.apply (run moves) := by
  simp [run]

/-- Wherever a history registers a command, some number is free. -/
def NumbersSuffice (moves : List Move) : Prop :=
  ∀ earlier command tolerant later, moves = earlier ++ .register command tolerant :: later →
    (run earlier).HasRoom

theorem NumbersSuffice.of_append {moves more : List Move} (h : NumbersSuffice (moves ++ more)) :
    NumbersSuffice moves := fun earlier command tolerant later hm =>
  h earlier command tolerant (later ++ more) (by simp [hm])

theorem sound_run {moves : List Move} (h : NumbersSuffice moves) : Sound (run moves) := by
  induction moves using List.reverseRecOn with
  | nil => exact sound_empty
  | append_singleton moves m ih =>
    rw [run_snoc]
    refine sound_apply (ih h.of_append) m ?_
    intro command tolerant hm
    exact h moves command tolerant [] (by rw [hm])

/-! ## Registrations -/

/-- A history registers a command under a ticket and a number, and then goes on with `later`. -/
def Registered (moves : List Move) (ticket : Nat) (token : UInt64) (command : String)
    (tolerant : Bool) (later : List Move) : Prop :=
  ∃ earlier, moves = earlier ++ .register command tolerant :: later ∧
    ((run earlier).register command tolerant).1 = (ticket, token)

/--
What the caller of a command has received: the answer of the first move that settles the command,
unless the caller stopped waiting before it.
-/
def received (ticket : Nat) (token : UInt64) (command : String) (tolerant : Bool)
    (later : List Move) : Option Reply :=
  if .abandon ticket ∈ later.takeWhile (!·.settles token) then none
  else later.findSome? (·.answer? token command tolerant)

section

variable {moves later : List Move} {m : Move} {ticket : Nat} {token : UInt64} {command : String}
  {tolerant : Bool}

theorem registered_snoc :
    Registered (moves ++ [m]) ticket token command tolerant later ↔
      (∃ rest, later = rest ++ [m] ∧ Registered moves ticket token command tolerant rest) ∨
        (later = [] ∧ m = .register command tolerant ∧ ticket = (run moves).issued ∧
          token = (run moves).freeToken) := by
  constructor
  · rintro ⟨earlier, hm, hr⟩
    rcases snoc_eq_append_cons_iff.mp hm with ⟨rest, rfl, rfl⟩ | ⟨rfl, rfl, rfl⟩
    · exact .inl ⟨rest, rfl, earlier, rfl, hr⟩
    · obtain ⟨rfl, rfl⟩ := Prod.mk.inj hr
      exact .inr ⟨rfl, rfl, rfl, rfl⟩
  · rintro (⟨rest, rfl, earlier, rfl, hr⟩ | ⟨rfl, rfl, rfl, rfl⟩)
    · exact ⟨earlier, by simp, hr⟩
    · exact ⟨moves, rfl, rfl⟩

theorem received_of_not_settles (h : ∀ m ∈ later, m.settles token = false) :
    received ticket token command tolerant later = none := by
  unfold received
  split
  · rfl
  · exact List.findSome?_eq_none_iff.mpr fun m hm => Move.answer?_eq_none_iff.mpr (h m hm)

/-- A further move tells something only to a caller whose command is not settled. -/
theorem received_snoc :
    received ticket token command tolerant (later ++ [m]) =
      if ∀ m ∈ later, m.settles token = false then
        if .abandon ticket ∈ later then none else m.answer? token command tolerant
      else received ticket token command tolerant later := by
  split
  · rename_i h
    have hnone : later.findSome? (·.answer? token command tolerant) = none :=
      List.findSome?_eq_none_iff.mpr fun m hm => Move.answer?_eq_none_iff.mpr (h m hm)
    have hwhile : (later ++ [m]).takeWhile (!·.settles token) =
        later ++ [m].takeWhile (!·.settles token) :=
      List.takeWhile_append_of_pos fun m hm => by simp [h m hm]
    unfold received
    rw [hwhile, List.findSome?_append, hnone, Option.none_or, List.findSome?_singleton]
    by_cases hl : Move.abandon ticket ∈ later
    · rw [if_pos (List.mem_append_left _ hl), if_pos hl]
    · rw [if_neg hl]
      split
      · -- The further move can only be the one with which the caller stops waiting.
        rename_i hmem
        have hm := (List.mem_append.mp hmem).resolve_left hl
        obtain rfl := List.mem_singleton.mp ((List.takeWhile_sublist _).subset hm)
        rfl
      · rfl
  · rename_i h
    obtain ⟨m', hm', hs⟩ : ∃ m' ∈ later, m'.settles token = true := by simpa using h
    have hsome : (later.findSome? (·.answer? token command tolerant)).isSome :=
      List.findSome?_isSome_iff.mpr ⟨m', hm', by rw [Move.isSome_answer?, hs]⟩
    have hwhile : (later.takeWhile (!·.settles token)).length ≠ later.length := by
      intro hlen
      have := List.takeWhile_eq_self_iff.mp ((List.takeWhile_sublist _).eq_of_length hlen) m' hm'
      rw [hs] at this
      cases this
    unfold received
    rw [List.takeWhile_append, if_neg hwhile, List.findSome?_append, Option.or_of_isSome hsome]

end

/-! ## Numbers and tickets along a history -/

section

variable {moves : List Move}

theorem added_length (m : Move) (x : Exchange) :
    (m.added x).length = [m].countP (·.isRegister) := by
  cases m <;> rfl

theorem issued_run (h : NumbersSuffice moves) :
    (run moves).issued = moves.countP (·.isRegister) := by
  induction moves using List.reverseRecOn with
  | nil => rfl
  | append_singleton moves m ih =>
    have he := effect_apply (sound_run h.of_append) m
    rw [run_snoc, he.issued, ih h.of_append, List.countP_append, added_length]

/-- No ticket is given out twice. -/
theorem registered_unique (h : NumbersSuffice moves) {ticket : Nat} {token token' : UInt64}
    {command command' : String} {tolerant tolerant' : Bool} {later later' : List Move}
    (hr : Registered moves ticket token command tolerant later)
    (hr' : Registered moves ticket token' command' tolerant' later') : later = later' := by
  obtain ⟨earlier, hm, ht⟩ := hr
  obtain ⟨earlier', hm', ht'⟩ := hr'
  have hpre : NumbersSuffice earlier := (hm ▸ h).of_append
  have hpre' : NumbersSuffice earlier' := (hm' ▸ h).of_append
  have hcount : earlier.countP (·.isRegister) = earlier'.countP (·.isRegister) := by
    rw [← issued_run hpre, ← issued_run hpre']
    exact (congrArg Prod.fst ht).trans (congrArg Prod.fst ht').symm
  have heq : earlier ++ .register command tolerant :: later =
      earlier' ++ .register command' tolerant' :: later' := hm.symm.trans hm'
  rcases List.append_eq_append_iff.mp heq with ⟨zs, rfl, hz⟩ | ⟨zs, rfl, hz⟩
  · cases zs with
    | nil => exact (List.cons.inj hz).2
    | cons z zs =>
      obtain ⟨rfl, -⟩ := List.cons.inj hz
      simp [Move.isRegister] at hcount
  · cases zs with
    | nil => exact (List.cons.inj hz).2.symm
    | cons z zs =>
      obtain ⟨rfl, -⟩ := List.cons.inj hz
      simp [Move.isRegister] at hcount

/-- A history with fewer moves than there are numbers never runs out of them. -/
theorem numbersSuffice_of_length (h : moves.length < 2 ^ 64) :
    NumbersSuffice moves ∧ (run moves).pending.length ≤ moves.length := by
  induction moves using List.reverseRecOn with
  | nil =>
    refine ⟨?_, Nat.le_refl _⟩
    intro earlier command tolerant later hm
    simp at hm
  | append_singleton moves m ih =>
    rw [List.length_append, List.length_singleton] at h
    obtain ⟨hsuff, hlen⟩ := ih (by omega)
    have he := effect_apply (sound_run hsuff) m
    constructor
    · intro earlier command tolerant later hm
      rcases snoc_eq_append_cons_iff.mp hm with ⟨rest, -, hmoves⟩ | ⟨-, -, rfl⟩
      · exact hsuff earlier command tolerant rest hmoves
      · obtain ⟨i, -, hi⟩ := (run moves).exists_isFree_nth (by omega)
        exact ⟨_, hi⟩
    · have hadded : (m.added (run moves)).length ≤ 1 := by
        rw [added_length]
        exact List.countP_le_length
      have hfilter := List.length_filter_le (fun p : Pending => !m.settles p.token) (run moves).pending
      rw [run_snoc, he.pending]
      simp only [List.length_append, List.length_map, List.length_singleton]
      omega

end

/-! ## Who waits -/

section

variable {moves : List Move}

/-- A command waits after a history if the history registers it and no later move settles it. -/
theorem mem_pending_run (h : NumbersSuffice moves) {p : Pending} :
    p ∈ (run moves).pending ↔
      ∃ later, Registered moves p.ticket p.token p.command p.tolerant later ∧
        (∀ m ∈ later, m.settles p.token = false) ∧
        p.awaited = decide (.abandon p.ticket ∉ later) := by
  induction moves using List.reverseRecOn generalizing p with
  | nil =>
    constructor
    · intro hp
      cases hp
    · rintro ⟨later, ⟨earlier, hm, -⟩, -⟩
      simp at hm
  | append_singleton moves m ih =>
    have he := effect_apply (sound_run h.of_append) m
    rw [run_snoc, he.pending, List.mem_append, List.mem_map]
    constructor
    · rintro (⟨q, hq, rfl⟩ | hp)
      · obtain ⟨hq, hs⟩ := List.mem_filter.mp hq
        obtain ⟨later, hr, hlater, haw⟩ := (ih h.of_append).mp hq
        refine ⟨later ++ [m], registered_snoc.mpr (.inl ⟨later, rfl, ?_⟩), ?_, ?_⟩
        · rw [Move.keep_eq]
          exact hr
        · intro m' hm'
          rw [Move.token_keep]
          rcases List.mem_append.mp hm' with hm' | hm'
          · exact hlater m' hm'
          · rw [List.mem_singleton.mp hm']
            simpa using hs
        · rw [Move.keep_eq]
          simp [haw, eq_comm]
      · cases m with
        | register command tolerant =>
          obtain rfl := List.mem_singleton.mp hp
          exact ⟨[], registered_snoc.mpr (.inr ⟨rfl, rfl, rfl, rfl⟩), by simp, by simp⟩
        | resolve _ | cancel _ _ | failAll _ | abandon _ => cases hp
    · rintro ⟨later, hr, hlater, haw⟩
      rcases registered_snoc.mp hr with ⟨rest, rfl, hrest⟩ | ⟨rfl, rfl, ht, hk⟩
      · have hq : { p with awaited := decide (.abandon p.ticket ∉ rest) } ∈ (run moves).pending :=
          (ih h.of_append).mpr ⟨rest, hrest, fun m' hm' => hlater m' (List.mem_append_left _ hm'), rfl⟩
        refine .inl ⟨_, List.mem_filter.mpr ⟨hq, ?_⟩, ?_⟩
        · simpa using hlater m (by simp)
        · have hkeep : (decide (.abandon p.ticket ∉ rest) && decide (m ≠ .abandon p.ticket)) =
              p.awaited := by
            rw [haw, ← Bool.decide_and]
            simp [eq_comm]
          rw [Move.keep_eq]
          simp only [hkeep]
      · refine .inr (List.mem_singleton.mpr ?_)
        rw [← ht, ← hk]
        simp only [List.not_mem_nil, not_false_eq_true, decide_true] at haw
        rw [← haw]

/-! ## Who has received what -/

/-- An answer was received if it is the first one to a command that the history registers. -/
theorem mem_completions_run (h : NumbersSuffice moves) {c : Completion} :
    c ∈ (run moves).completions ↔
      ∃ command tolerant later, Registered moves c.ticket c.token command tolerant later ∧
        received c.ticket c.token command tolerant later = some c.reply := by
  induction moves using List.reverseRecOn generalizing c with
  | nil =>
    constructor
    · intro hc
      cases hc
    · rintro ⟨command, tolerant, later, ⟨earlier, hm, -⟩, -⟩
      simp at hm
  | append_singleton moves m ih =>
    have he := effect_apply (sound_run h.of_append) m
    rw [run_snoc, he.completions, List.mem_append, List.mem_filterMap]
    constructor
    · rintro (hc | ⟨p, hp, hc⟩)
      · obtain ⟨command, tolerant, later, hr, hrec⟩ := (ih h.of_append).mp hc
        refine ⟨command, tolerant, later ++ [m], registered_snoc.mpr (.inl ⟨later, rfl, hr⟩), ?_⟩
        rw [received_snoc, if_neg, hrec]
        intro hn
        rw [received_of_not_settles hn] at hrec
        cases hrec
      · obtain ⟨later, hr, hlater, haw⟩ := (mem_pending_run h.of_append).mp hp
        unfold Move.completion? at hc
        split at hc
        · rename_i hw
          obtain ⟨reply, hreply, rfl⟩ := Option.map_eq_some_iff.mp hc
          refine ⟨p.command, p.tolerant, later ++ [m],
            registered_snoc.mpr (.inl ⟨later, rfl, hr⟩), ?_⟩
          rw [haw, decide_eq_true_eq] at hw
          rw [received_snoc, if_pos hlater, if_neg hw, hreply]
        · cases hc
    · rintro ⟨command, tolerant, later, hr, hrec⟩
      rcases registered_snoc.mp hr with ⟨rest, rfl, hrest⟩ | ⟨rfl, -, -⟩
      · rw [received_snoc] at hrec
        split at hrec
        · rename_i hs
          split at hrec
          · cases hrec
          · rename_i hw
            refine .inr ⟨⟨c.ticket, c.token, command, tolerant, true⟩, ?_, ?_⟩
            · exact (mem_pending_run h.of_append).mpr ⟨rest, hrest, hs, by simp [hw]⟩
            · simp [Move.completion?, hrec]
        · exact .inl ((ih h.of_append).mpr ⟨command, tolerant, rest, hrest, hrec⟩)
      · simp [received] at hrec

end

/-! ## Any history -/

theorem resolve_eq_unmatched_iff {x : Exchange} {r : ResultRecord} :
    x.resolve r = (.unmatched r, x) ↔ ∀ t, r.token = some t → x.isPending t = false := by
  constructor
  · intro h t ht
    by_contra hp
    have hsome : (x.pending? t).isSome := by
      rw [Bool.not_eq_false] at hp
      simpa [pending?, isPending] using hp
    obtain ⟨p, hp⟩ := Option.isSome_iff_exists.mp hsome
    have hres := congrArg Prod.fst h
    simp only [resolve, ht, Option.bind_some, hp] at hres
    repeat' split at hres
    all_goals cases hres
  · intro h
    refine resolve_unmatched (Option.bind_eq_none_iff.mpr fun t ht => ?_)
    have := h t ht
    simpa [pending?, isPending] using this

/--
What any history comes to that finds a free number whenever it registers a command. A number given
out is not zero and nobody else's. A command waits as long as no move has settled it. Its caller
receives one answer at most, the one of the move that settles it. A result for nobody changes
nothing.
-/
theorem settled_once (moves : List Move) (h : NumbersSuffice moves) :
    (∀ earlier command tolerant later, moves = earlier ++ .register command tolerant :: later →
      ((run earlier).register command tolerant).1.2 ≠ 0 ∧
        ∀ p ∈ (run earlier).pending, p.token ≠ ((run earlier).register command tolerant).1.2) ∧
    ((run moves).pending.map (·.token)).Nodup ∧
    (∀ ticket token command tolerant later token' command' tolerant' later',
      Registered moves ticket token command tolerant later →
        Registered moves ticket token' command' tolerant' later' → later = later') ∧
    (∀ p, p ∈ (run moves).pending ↔
      ∃ later, Registered moves p.ticket p.token p.command p.tolerant later ∧
        (∀ m ∈ later, m.settles p.token = false) ∧
        p.awaited = decide (.abandon p.ticket ∉ later)) ∧
    ((run moves).completions.map (·.ticket)).Nodup ∧
    (∀ c, c ∈ (run moves).completions ↔
      ∃ command tolerant later, Registered moves c.ticket c.token command tolerant later ∧
        received c.ticket c.token command tolerant later = some c.reply) ∧
    ∀ r, (run moves).resolve r = (.unmatched r, run moves) ↔
      ∀ t, r.token = some t → (run moves).isPending t = false := by
  have hsound := sound_run h
  refine ⟨?_, hsound.tokens, ?_, fun p => mem_pending_run h, hsound.tickets.of_append_left,
    fun c => mem_completions_run h, fun r => resolve_eq_unmatched_iff⟩
  · intro earlier command tolerant later hm
    obtain ⟨hne, hfree⟩ := freeToken_isFree (h earlier command tolerant later hm)
    refine ⟨hne, fun p hp e => ?_⟩
    have : (run earlier).isPending p.token = true :=
      isPending_iff.mpr (List.mem_map_of_mem hp)
    rw [e] at this
    exact Bool.false_ne_true (hfree.symm.trans this)
  · intro ticket token command tolerant later token' command' tolerant' later' hr hr'
    exact registered_unique h hr hr'

/-- Two commands fail. The first caller is told so, and the second one receives the answer as it is. -/
theorem settled_once_two_failures :
    let moves : List Move := [.register "exec-run" false, .register "list-features" true,
      .resolve ⟨some 2, .error, []⟩, .resolve ⟨some 1, .error, []⟩, .failAll .sessionClosed]
    NumbersSuffice moves ∧
      ((run moves).completions.map (·.ticket)).Nodup ∧
      ⟨0, 1, .error (.command "Internal error" "exec-run")⟩ ∈ (run moves).completions ∧
      ⟨1, 2, .ok ⟨some 2, .error, []⟩⟩ ∈ (run moves).completions := by
  intro moves
  have hsuff : NumbersSuffice moves := (numbersSuffice_of_length (by decide)).1
  obtain ⟨-, -, -, -, hnodup, hcompletions, -⟩ := settled_once moves hsuff
  refine ⟨hsuff, hnodup, (hcompletions _).mpr ?_, (hcompletions _).mpr ?_⟩
  · exact ⟨"exec-run", false, moves.drop 1, ⟨[], rfl, by decide⟩, by decide⟩
  · exact ⟨"list-features", true, moves.drop 2, ⟨moves.take 1, rfl, by decide⟩, by decide⟩

end MachineInterface.Exchange
