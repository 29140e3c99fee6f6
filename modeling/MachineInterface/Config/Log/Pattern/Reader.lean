import MachineInterface.Config.Log.Pattern.CharClass

/-!
# Patterns

Which texts are patterns for the value of a field: regular expressions with alternatives, groups,
classes of characters and repetitions without bounds, up to a height.

* `isPattern_of_plain`: a text of letters and digits is a pattern.
* `not_isPattern_of_repetition`: a pattern does not start with a repetition.
-/

namespace MachineInterface.Pattern

open Text

/-! ## Openings of groups -/

/-- What a parenthesis opens. -/
inductive Opening where
  /-- A group that may have a name, with a change of flags for it. -/
  | group (name : Option (List Char)) (letters : List Char)
  /-- A change of flags for the rest of the group around it. -/
  | flags (letters : List Char)
  deriving Repr, DecidableEq

/-- Whether a text is the name of a group. -/
def isName : List Char → Bool
  | [] => false
  | c :: cs =>
    (c == '_' || isLetter c)
      && cs.all fun c => isLetterOrNumber c || c == '_' || c == '.' || c == '[' || c == ']'

/-- Whether letters are flags, each once, with at most one hyphen, which is not the last. -/
def areFlags (letters : List Char) : Bool :=
  letters.all ("imsUuxR-".toList.contains ·) && letters.Nodup && letters.getLast? != some '-'

/-- The name of a group up to its bracket. -/
def readName? (cs : List Char) : Option (Opening × List Char) :=
  let name := cs.takeWhile (· != '>')
  match cs.drop name.length with
  | '>' :: rest => if isName name then some (.group (some name) [], rest) else none
  | _ => none

/-- What a parenthesis opens. Flags alone have to be some. -/
def readOpening? : List Char → Option (Opening × List Char)
  | '?' :: 'P' :: '<' :: cs => readName? cs
  | '?' :: '<' :: cs => readName? cs
  | '?' :: cs =>
    let letters := cs.takeWhile fun c => c != ':' && c != ')'
    if !areFlags letters then none
    else match cs.drop letters.length with
      | ':' :: rest => some (.group none letters, rest)
      | ')' :: rest => if letters.isEmpty then none else some (.flags letters, rest)
      | _ => none
  | cs => some (.group none [], cs)

/-! ## Progress -/

/-- A part of an alternative. -/
structure Part where
  height : Nat
  /-- Whether the part can be repeated; only a change of flags cannot. -/
  repeatable : Bool := true
  deriving Repr, DecidableEq

/-- A group of which the closing parenthesis has not been read. -/
structure OpenGroup where
  /-- The heights of the alternatives before the last one. -/
  alternatives : List Nat := []
  /-- The parts of the last alternative, the last part first. -/
  parts : List Part := []
  deriving Repr, DecidableEq

namespace OpenGroup

/-- The group with one more part. -/
def add (p : Part) (g : OpenGroup) : OpenGroup := { g with parts := p :: g.parts }

/-- The height of the last alternative. -/
def lastHeight (g : OpenGroup) : Nat := joinedHeight (g.parts.map (·.height))

/-- The height of what the group holds. -/
def height (g : OpenGroup) : Nat := joinedHeight (g.lastHeight :: g.alternatives)

/-- The group with a new alternative. -/
def alternate (g : OpenGroup) : OpenGroup := ⟨g.lastHeight :: g.alternatives, []⟩

/-- The group with its last part repeated, if there is one that can be. -/
def repeatLast? (g : OpenGroup) : Option OpenGroup :=
  match g.parts with
  | ⟨height, true⟩ :: parts => some { g with parts := ⟨height + 1, true⟩ :: parts }
  | _ => none

end OpenGroup

/-- What has been read of a pattern. -/
structure Progress where
  flags : Flags := {}
  /-- The names of the groups so far. -/
  names : List (List Char) := []
  inner : OpenGroup := {}
  /-- The groups around the inner one, each with the flags that hold again in it. -/
  outer : List (Flags × OpenGroup) := []
  deriving Repr, DecidableEq

namespace Progress

/-- The largest height of a pattern. -/
def maxHeight : Nat := 250

/-- Whether what has been read is a pattern. -/
def isComplete (p : Progress) : Bool := p.outer.isEmpty && p.inner.height ≤ maxHeight

/-- One more part. -/
def add (part : Part) (p : Progress) : Progress := { p with inner := p.inner.add part }

/-- What a parenthesis opens. A name is given once. -/
def enter? (p : Progress) : Opening → Option Progress
  | .group name letters =>
    if name.any p.names.contains then none
    else some
      { flags := p.flags.change letters, names := name.toList ++ p.names
        outer := (p.flags, p.inner) :: p.outer }
  | .flags letters => some { p.add ⟨0, false⟩ with flags := p.flags.change letters }

/-- The inner group is closed. -/
def leave? (p : Progress) : Option Progress :=
  match p.outer with
  | [] => none
  | (flags, group) :: outer =>
    some { p with flags, inner := group.add ⟨p.inner.height + 1, true⟩, outer }

/-- What has been read after the next part of a pattern, and what follows. -/
def step? (p : Progress) : List Char → Option (Progress × List Char)
  | [] => none
  | c :: cs =>
    match c with
    | '(' => do
      let (opening, rest) ← readOpening? (skip p.flags cs)
      return (← p.enter? opening, rest)
    | ')' => p.leave?.map (·, cs)
    | '|' => some ({ p with inner := p.inner.alternate }, cs)
    | '[' => (readClass? p.flags cs).map fun (height, rest) => (p.add ⟨height, true⟩, rest)
    | '\x7b' => none
    | '.' => if p.flags.unicode then some (p.add ⟨0, true⟩, cs) else none
    | _ =>
      if c == '?' || c == '*' || c == '+' then
        p.inner.repeatLast?.map fun inner =>
          ({ p with inner }, if cs.head? = some '?' then cs.tail else cs)
      else do
        let (atom, rest) ← readAtom? p.flags (c :: cs)
        if atom.isAllowed p.flags then some (p.add ⟨0, true⟩, rest) else none

/-- Whether a text completes a pattern. -/
def completes : (fuel : Nat) → Progress → List Char → Bool
  | 0, _, _ => false
  | fuel + 1, p, cs =>
    match skip p.flags cs with
    | [] => p.isComplete
    | cs => (p.step? cs).any fun next => completes fuel next.1 next.2

end Progress

/-- Whether a text is a pattern. -/
def isPattern (s : String) : Bool := Progress.completes (s.toList.length + 1) {} s.toList

/-- A pattern does not start with a repetition. -/
theorem not_isPattern_of_repetition {s : String} {cs : List Char}
    (h : s.toList = '?' :: cs ∨ s.toList = '*' :: cs ∨ s.toList = '+' :: cs) :
    isPattern s = false := by
  rcases h with h | h | h <;>
    simp [isPattern, h, Progress.completes, skip, Progress.step?, OpenGroup.repeatLast?]

theorem joinedHeight_le_one {hs : List Nat} (h : ∀ x ∈ hs, x = 0) : joinedHeight hs ≤ 1 := by
  have key (xs : List Nat) (hx : ∀ x ∈ xs, x = 0) : xs.foldl max 0 = 0 := by
    induction xs with
    | nil => rfl
    | cons x xs ih =>
      rw [List.foldl_cons, hx x List.mem_cons_self, Nat.max_self]
      exact ih fun y hy => hx y (List.mem_cons_of_mem _ hy)
  unfold joinedHeight
  split
  · omega
  · have := h _ List.mem_cons_self
    omega
  · have := key _ h
    omega

theorem Progress.completes_of_plain {parts : List Part} {fuel : Nat} {cs : List Char}
    (hp : ∀ part ∈ parts, part.height = 0) (hf : cs.length < fuel)
    (h : cs.all Numeral.isAlphanumeric = true) :
    completes fuel { inner := ⟨[], parts⟩ } cs = true := by
  induction cs generalizing parts fuel with
  | nil =>
    obtain ⟨fuel, rfl⟩ := Nat.exists_eq_add_one_of_ne_zero (by omega : fuel ≠ 0)
    have hle : joinedHeight (parts.map (·.height)) ≤ 1 := joinedHeight_le_one (by simpa using hp)
    exact decide_eq_true (Nat.le_trans hle (by decide : 1 ≤ maxHeight))
  | cons c cs ih =>
    obtain ⟨fuel, rfl⟩ := Nat.exists_eq_add_one_of_ne_zero (by omega : fuel ≠ 0)
    simp only [List.all_cons, Bool.and_eq_true, List.length_cons] at h hf
    have hc (d : Char) (hd : Numeral.isAlphanumeric d = false) : c ≠ d := by
      rintro rfl
      simp [hd] at h
    have hstep : step? { inner := ⟨[], parts⟩ } (c :: cs) =
        some ({ inner := ⟨[], ⟨0, true⟩ :: parts⟩ }, cs) := by
      unfold step?
      split
      · simp_all
      · rename_i heq
        cases heq
        split
        all_goals first
          | exact absurd rfl (hc _ (by decide))
          | simp [readAtom?_of_plain (hc '\\' (by decide)), hc '?' (by decide),
              hc '*' (by decide), hc '+' (by decide), Atom.isAllowed, add, OpenGroup.add]
    simp only [completes, skip, Bool.false_eq_true, if_false, hstep, Option.any_some]
    exact ih (by simpa using hp) (by omega) h.2

/-- A text of letters and digits is a pattern. -/
theorem isPattern_of_plain {s : String} (h : s.toList.all Numeral.isAlphanumeric = true) :
    isPattern s = true :=
  Progress.completes_of_plain (by simp) (Nat.lt_succ_self _) h

end MachineInterface.Pattern
