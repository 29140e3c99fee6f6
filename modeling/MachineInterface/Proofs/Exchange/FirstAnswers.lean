import MachineInterface.Proofs.Exchange.Serving

/-!
# First answers

Callers who do not give up wait until a line answers their commands. Each receives the first result
under the number of its command, whatever is printed before and after.

* `register_counted`: as long as no number was used twice, commands are numbered in a row.
* `Heard.hearLine`: a line answers those who wait under its number, and all others still wait.
-/

namespace MachineInterface

/-- The result that a line is. -/
def Line.result? (line : String) : Option ResultRecord :=
  match classify line with
  | .record (.result r) => some r
  | _ => none

theorem Line.result?_eq_some_iff {line : String} {r : ResultRecord} :
    result? line = some r ↔ classify line = .record (.result r) := by
  unfold result?
  cases classify line with
  | record record => cases record <;> simp
  | _ => simp

namespace Exchange

variable {x : Exchange} {p : Pending}

/-! ## Numbers in a row -/

/-- Each command so far has the number one above its ticket. -/
structure Counted (x : Exchange) : Prop where
  next : x.nextToken = UInt64.ofNat (x.issued + 1)
  used : ∀ p ∈ x.pending, p.token.toNat ≤ x.issued

theorem counted_empty : Counted {} := by
  refine ⟨rfl, fun p hp => ?_⟩
  cases hp

/-- As long as no number was used twice, the next command gets the next number. -/
theorem Counted.register (h : x.Counted) (hroom : x.issued + 1 < 2 ^ 64) (command : String)
    (tolerant : Bool) :
    x.freeToken = UInt64.ofNat (x.issued + 1) ∧ (x.register command tolerant).2.Counted := by
  have htoNat : (UInt64.ofNat (x.issued + 1)).toNat = x.issued + 1 := UInt64.toNat_ofNat_of_lt hroom
  have hfree : IsFree x.isPending x.nextToken := by
    rw [h.next]
    constructor
    · intro hzero
      rw [hzero] at htoNat
      simp at htoNat
    · rw [Bool.eq_false_iff, Ne, isPending_iff, List.mem_map]
      rintro ⟨p, hp, htoken⟩
      have hused := h.used p hp
      rw [htoken, htoNat] at hused
      omega
  have htoken : x.freeToken = UInt64.ofNat (x.issued + 1) :=
    (freeToken_of_next hfree).trans h.next
  refine ⟨htoken, ?_, ?_⟩
  · change x.freeToken + 1 = UInt64.ofNat (x.issued + 1 + 1)
    rw [htoken, UInt64.ofNat_add (x.issued + 1)]
    rfl
  · intro p hp
    change p.token.toNat ≤ x.issued + 1
    rw [pending_register] at hp
    rcases List.mem_append.mp hp with hp | hp
    · exact Nat.le_succ_of_le (h.used p hp)
    · rw [List.mem_singleton.mp hp, nextPending, htoken, htoNat]

/-- The entries of commands with the tickets from `start` on. -/
def inRow : (start : Nat) → List (String × Bool) → List Pending
  | _, [] => []
  | start, c :: commands =>
    ⟨start, UInt64.ofNat (start + 1), c.1, c.2, true⟩ :: inRow (start + 1) commands

theorem getElem?_inRow (start : Nat) (commands : List (String × Bool)) (k : Nat) :
    (inRow start commands)[k]? = commands[k]?.map fun c =>
      ⟨start + k, UInt64.ofNat (start + k + 1), c.1, c.2, true⟩ := by
  induction commands generalizing start k with
  | nil => rfl
  | cons c commands ih =>
    cases k with
    | zero => rfl
    | succ k =>
      have hstart : start + 1 + k = start + (k + 1) := by omega
      rw [inRow, List.getElem?_cons_succ, ih, List.getElem?_cons_succ, hstart]

theorem length_inRow (start : Nat) (commands : List (String × Bool)) :
    (inRow start commands).length = commands.length := by
  induction commands generalizing start with
  | nil => rfl
  | cons c commands ih => rw [inRow, List.length_cons, ih, List.length_cons]

theorem tickets_inRow (start : Nat) (commands : List (String × Bool)) :
    (inRow start commands).map (·.ticket) = List.range' start commands.length := by
  induction commands generalizing start with
  | nil => rfl
  | cons c commands ih => rw [inRow, List.map_cons, ih, List.length_cons, List.range'_succ]

theorem nodup_tokens_inRow (start : Nat) (commands : List (String × Bool))
    (hroom : start + commands.length < 2 ^ 64) :
    ((inRow start commands).map (·.token)).Nodup := by
  have htokens : (inRow start commands).map (·.token) =
      ((inRow start commands).map (·.ticket)).map fun k => UInt64.ofNat (k + 1) := by
    rw [List.map_map]
    refine List.map_congr_left fun p hp => ?_
    obtain ⟨k, hk⟩ := List.mem_iff_getElem?.mp hp
    rw [getElem?_inRow] at hk
    obtain ⟨c, -, rfl⟩ := Option.map_eq_some_iff.mp hk
    rfl
  rw [htokens, tickets_inRow]
  refine List.Nodup.map_on ?_ List.nodup_range'
  intro i hi j hj heq
  have hi' := List.mem_range'_1.mp hi
  have hj' := List.mem_range'_1.mp hj
  have htoNat := congrArg UInt64.toNat heq
  rw [UInt64.toNat_ofNat', UInt64.toNat_ofNat'] at htoNat
  omega

/-! ## The first result -/

/-- The first result under a number that some lines bring. -/
def firstResult? (token : UInt64) (lines : List String) : Option ResultRecord :=
  (lines.filterMap Line.result?).find? (·.token = some token)

section

variable (lines : List String) (token : UInt64) {line : String}

theorem firstResult?_snoc_of_none (h : Line.result? line = none) :
    firstResult? token (lines ++ [line]) = firstResult? token lines := by
  simp [firstResult?, h]

theorem firstResult?_snoc_of_result {r : ResultRecord} (h : Line.result? line = some r) :
    firstResult? token (lines ++ [line]) =
      (firstResult? token lines).or (if r.token = some token then some r else none) := by
  have hline : [line].filterMap Line.result? = [r] := by simp [h]
  rw [firstResult?, List.filterMap_append, hline, List.find?_append, List.find?_singleton]
  simp only [decide_eq_true_eq]
  rfl

end

/-- Every caller whose command was answered has received the first answer. -/
def Replied (asked : List Pending) (lines : List String) (x : Exchange) : Prop :=
  ∀ p ∈ asked, ∀ r, firstResult? p.token lines = some r → x.reply? p.ticket = some (replyOf p r)

/-- Some lines were heard since some commands were asked, and those wait that they do not answer. -/
structure Heard (asked : List Pending) (lines : List String) (x : Exchange) : Prop where
  orderly : x.Orderly
  distinct : (x.pending.map (·.token)).Nodup
  awaited : ∀ p ∈ asked, p.awaited = true
  waiting : ∀ p ∈ asked, firstResult? p.token lines = none → p ∈ x.pending
  replied : x.Replied asked lines

variable {asked : List Pending} {lines : List String}

theorem Replied.mono {y : Exchange} (h : x.Replied asked lines)
    (hxy : x.completions <+: y.completions) : y.Replied asked lines :=
  fun p hp r hr => reply?_of_prefix hxy (h p hp r hr)

theorem heard_start (ho : x.Orderly) (hd : (x.pending.map (·.token)).Nodup)
    (hw : ∀ p ∈ x.pending, p.awaited = true) : x.Heard x.pending [] :=
  ⟨ho, hd, hw, fun _ hp _ => hp, fun _ _ _ hr => by cases hr⟩

/-- A line answers the command of its number if that waits, and changes nothing otherwise. -/
theorem Heard.hearLine (h : x.Heard asked lines) (line : String) :
    (x.hearLine line).Heard asked (lines ++ [line]) := by
  cases hline : Line.result? line with
  | none =>
    have hsame : x.hearLine line = x := by
      refine hearLine_of_no_result fun r hr => ?_
      rw [Line.result?_eq_some_iff.mpr hr] at hline
      cases hline
    have hfirst := fun token => firstResult?_snoc_of_none lines token hline
    rw [hsame]
    refine ⟨h.orderly, h.distinct, h.awaited, ?_, ?_⟩
    · intro p hp hnone
      exact h.waiting p hp (hfirst p.token ▸ hnone)
    · intro p hp r hr
      exact h.replied p hp r (hfirst p.token ▸ hr)
  | some r =>
    have hhear := hearLine_result (x := x) (Line.result?_eq_some_iff.mp hline)
    have hfirst := fun token => firstResult?_snoc_of_result lines token hline
    have horderly := h.orderly.resolve r
    rw [hhear]
    refine ⟨horderly, ?_, h.awaited, ?_, ?_⟩
    · rcases x.resolve_cases r with hr | ⟨q, -, reply, hr⟩
      · rw [hr]
        exact h.distinct
      · rw [hr]
        exact h.distinct.sublist (List.filter_sublist.map _)
    · intro p hp hnone
      rw [hfirst, Option.or_eq_none_iff] at hnone
      have hpending := h.waiting p hp hnone.1
      cases hfind : r.token.bind x.pending? with
      | none =>
        rw [resolve_unmatched hfind]
        exact hpending
      | some q =>
        obtain ⟨token, htoken, hq⟩ := Option.bind_eq_some_iff.mp hfind
        obtain ⟨hqmem, rfl⟩ := mem_of_pending? hq
        rw [(resolve_matched hfind).1]
        refine List.mem_filter.mpr ⟨hpending, ?_⟩
        rw [decide_eq_true_eq]
        intro hticket
        obtain rfl := List.inj_on_of_nodup_map h.orderly.distinct hpending hqmem hticket
        rw [if_pos htoken] at hnone
        cases hnone.2
    · intro p hp r' hr'
      rw [hfirst] at hr'
      cases hbefore : firstResult? p.token lines with
      | some r₀ =>
        rw [hbefore, Option.some_or] at hr'
        obtain rfl := Option.some.inj hr'
        exact reply?_of_prefix (completions_resolve x r) (h.replied p hp r₀ hbefore)
      | none =>
        rw [hbefore, Option.none_or, Option.ite_none_right_eq_some] at hr'
        obtain ⟨htoken, ⟨⟩⟩ := hr'
        have hpending := h.waiting p hp hbefore
        have hfind : r.token.bind x.pending? = some p := by
          rw [htoken, Option.bind_some, pending?_of_mem h.distinct hpending]
        rw [(resolve_matched hfind).1]
        exact reply?_complete h.orderly hpending (h.awaited p hp) _

theorem Heard.foldl_hearLine (h : x.Heard asked lines) (more : List String) :
    (more.foldl Exchange.hearLine x).Heard asked (lines ++ more) := by
  induction more generalizing x lines with
  | nil => rwa [List.append_nil]
  | cons line more ih =>
    rw [List.append_cons]
    exact ih (h.hearLine line)

end Exchange

end MachineInterface
