import MachineInterface.Memory.Read
import Mathlib.Order.Bounds.Basic

/-!
# Pages and unreadable bytes

A short read is taken to have stopped at the end of a page. The estimate of what cannot be read works
on words, where sums and products stop at the largest word. It is the estimate of exact arithmetic
for every range that lies within the address space, also for one that ends where that does.

* `nextPage_eq`, `isLeast_boundary`: the page ends at the next boundary, as far as that is a word.
* `unreadableWord?_eq`: on words, no difference is taken that does not exist.
* `unreadable_by_pages`: the estimate in exact arithmetic.
-/

namespace MachineInterface.Memory

/-! ## Boundaries -/

/-- The first page boundary after an address. -/
def boundary (a : Nat) : Nat := (a / pageSize + 1) * pageSize

theorem isLeast_boundary (a : Nat) : IsLeast {b | 4096 ∣ b ∧ a < b} (boundary a) := by
  unfold boundary pageSize
  refine ⟨⟨Nat.dvd_mul_left _ _, by omega⟩, ?_⟩
  rintro _ ⟨⟨k, rfl⟩, hk⟩
  omega

/-- A page ends at the first boundary after an address, or with the address space. -/
theorem nextPage_eq {a : Nat} (h : a ≤ wordLimit) : nextPage a = min (boundary a) wordLimit := by
  unfold nextPage boundary pageSize
  unfold wordLimit at h ⊢
  dsimp only
  split <;> omega

theorem le_nextPage {a : Nat} (h : a ≤ wordLimit) : a ≤ nextPage a ∧ nextPage a ≤ wordLimit := by
  rw [nextPage_eq h, Nat.le_min]
  exact ⟨⟨Nat.le_of_lt (isLeast_boundary a).1.2, h⟩, Nat.min_le_right _ _⟩

/-! ## Numbers -/

/-- The estimate for a short read, in terms of boundaries. -/
theorem unreadable_of_lt {address requested read : UInt64} (h : read < requested) :
    unreadable address requested read =
      let readEnd := min (address.toNat + read.toNat) wordLimit
      let page := min (boundary readEnd) wordLimit
      if page < min (address.toNat + requested.toNat) wordLimit then
        min (requested.toNat - read.toNat) (page - readEnd)
      else min (requested.toNat - read.toNat) pageSize := by
  unfold unreadable
  rw [if_neg (UInt64.not_le.mpr h)]
  dsimp only
  rw [nextPage_eq (Nat.min_le_right _ _)]

theorem unreadable_bounds {address requested read : UInt64} (h : read < requested) :
    1 ≤ unreadable address requested read ∧
      unreadable address requested read ≤ requested.toNat - read.toNat := by
  have hlt := UInt64.lt_iff_toNat_lt.mp h
  rw [unreadable_of_lt h]
  unfold boundary pageSize wordLimit
  dsimp only
  split <;> omega

/-- A range that lies within the address space is treated as exact arithmetic has it. -/
theorem unreadable_of_fits {address requested read : UInt64} (h : read < requested)
    (hfits : address.toNat + requested.toNat ≤ 0x10000000000000000) :
    unreadable address requested read =
      if boundary (address.toNat + read.toNat) < address.toNat + requested.toNat then
        min (requested.toNat - read.toNat)
          (boundary (address.toNat + read.toNat) - (address.toNat + read.toNat))
      else min (requested.toNat - read.toNat) 4096 := by
  have hlt := UInt64.lt_iff_toNat_lt.mp h
  have hend : min (address.toNat + read.toNat) wordLimit = address.toNat + read.toNat := by
    unfold wordLimit
    omega
  obtain ⟨⟨⟨k, hk⟩, hafter⟩, -⟩ := isLeast_boundary (address.toNat + read.toNat)
  rw [unreadable_of_lt h]
  dsimp only
  rw [hend, hk]
  -- The largest word is no boundary, so that the two comparisons agree at the end of the memory.
  have hpage : min (4096 * k) wordLimit < min (address.toNat + requested.toNat) wordLimit ↔
      4096 * k < address.toNat + requested.toNat := by
    unfold wordLimit
    omega
  simp only [hpage]
  split
  · have hword : min (4096 * k) wordLimit = 4096 * k := by
      unfold wordLimit
      omega
    rw [hword]
  · rfl

/-! ## Words -/

/-- The word for a number; a number that is too large has the largest word. -/
def clamp (n : Nat) : UInt64 := UInt64.ofNat (min n wordLimit)

@[simp] theorem toNat_clamp (n : Nat) : (clamp n).toNat = min n wordLimit := by
  unfold clamp wordLimit
  rw [UInt64.toNat_ofNat']
  omega

/-- The difference of two words, if there is one. -/
def minus? (a b : UInt64) : Option UInt64 := if b ≤ a then some (a - b) else none

theorem minus?_eq_some {a b : UInt64} (h : b.toNat ≤ a.toNat) :
    minus? a b = some (UInt64.ofNat (a.toNat - b.toNat)) := by
  have hle : b ≤ a := UInt64.le_iff_toNat_le.mpr h
  rw [minus?, if_pos hle, ← UInt64.toNat_sub_of_le _ _ hle, UInt64.ofNat_toNat]

/-- The end of a page as it is computed on words. -/
def nextPageWord (a : UInt64) : UInt64 :=
  let pages := a / 4096 + if a % 4096 = 0 then 0 else 1
  let next := clamp (pages.toNat * 4096)
  if next = a then clamp (a.toNat + 4096) else next

theorem toNat_nextPageWord (a : UInt64) : (nextPageWord a).toNat = nextPage a.toNat := by
  have ha := a.toNat_lt
  have hpages : (a / 4096 + if a % 4096 = 0 then 0 else 1).toNat = (a.toNat + 4095) / 4096 := by
    have hrest : a % 4096 = 0 ↔ a.toNat % 4096 = 0 := by
      rw [← UInt64.toNat_inj, UInt64.toNat_mod]
      rfl
    have hquotient : (a / 4096).toNat = a.toNat / 4096 := UInt64.toNat_div a 4096
    rw [UInt64.toNat_add, hquotient]
    simp only [hrest]
    split
    · rw [UInt64.toNat_zero]
      omega
    · rw [UInt64.toNat_one]
      omega
  have hround : a.toNat + 4096 - 1 = a.toNat + 4095 := rfl
  unfold nextPageWord nextPage pageSize
  simp only [hpages, hround]
  simp only [← UInt64.toNat_inj, apply_ite UInt64.toNat, toNat_clamp]

theorem min_ofNat {m n : Nat} (hm : m < UInt64.size) (hn : n < UInt64.size) :
    min (UInt64.ofNat m) (UInt64.ofNat n) = UInt64.ofNat (min m n) := by
  have hle : UInt64.ofNat m ≤ UInt64.ofNat n ↔ m ≤ n := by
    rw [UInt64.le_iff_toNat_le, UInt64.toNat_ofNat_of_lt' hm, UInt64.toNat_ofNat_of_lt' hn]
  by_cases h : m ≤ n
  · rw [Nat.min_eq_left h]
    exact if_pos (hle.mpr h)
  · rw [Nat.min_eq_right (Nat.le_of_not_le h)]
    exact if_neg fun h' => h (hle.mp h')

/-- The estimate as it is computed on words, with differences that need not exist. -/
def unreadableWord? (address requested read : UInt64) : Option UInt64 :=
  if requested ≤ read then some 0
  else do
    let shortfall ← minus? requested read
    let readEnd := clamp (address.toNat + read.toNat)
    let page := nextPageWord readEnd
    if page < clamp (address.toNat + requested.toNat) then
      return min shortfall (← minus? page readEnd)
    else return min shortfall 4096

/-- On words no difference is taken that does not exist, and the estimate is the same. -/
theorem unreadableWord?_eq (address requested read : UInt64) :
    unreadableWord? address requested read =
      some (UInt64.ofNat (unreadable address requested read)) := by
  unfold unreadableWord?
  by_cases h : requested ≤ read
  · rw [if_pos h, unreadable_of_le h]
    rfl
  · have hlt := UInt64.not_le.mp h
    have hle := Nat.le_of_lt (UInt64.lt_iff_toNat_lt.mp hlt)
    have hrequested := requested.toNat_lt
    obtain ⟨hpage, hlimit⟩ := le_nextPage (Nat.min_le_right (address.toNat + read.toNat) wordLimit)
    have hrest : minus? (nextPageWord (clamp (address.toNat + read.toNat)))
        (clamp (address.toNat + read.toNat)) = some (UInt64.ofNat
          (nextPage (min (address.toNat + read.toNat) wordLimit) -
            min (address.toNat + read.toNat) wordLimit)) := by
      rw [minus?_eq_some, toNat_nextPageWord, toNat_clamp]
      rwa [toNat_nextPageWord, toNat_clamp]
    have hwords : ∀ n ≤ wordLimit, min (UInt64.ofNat (requested.toNat - read.toNat))
        (UInt64.ofNat n) = UInt64.ofNat (min (requested.toNat - read.toNat) n) := by
      intro n hn
      unfold wordLimit at hn
      exact min_ofNat (by unfold UInt64.size; omega) (by unfold UInt64.size; omega)
    have hdistance := Nat.le_trans (Nat.sub_le _ (min (address.toNat + read.toNat) wordLimit)) hlimit
    have hsize : (4096 : UInt64) = UInt64.ofNat pageSize := rfl
    rw [if_neg h, minus?_eq_some hle]
    simp only [Option.bind_eq_bind, Option.bind_some, Option.pure_def, hrest, hsize,
      hwords _ hdistance, hwords pageSize (by decide), UInt64.lt_iff_toNat_lt,
      toNat_nextPageWord, toNat_clamp]
    unfold unreadable
    rw [if_neg h]
    dsimp only
    split
    · rfl
    · rfl

/--
The bytes that cannot be read after a short read. None are counted where all were read. Otherwise at
least one is and at most as many as are missing, for all words; on words too, no difference is taken
that does not exist. And where the range that was asked for lies within the address space, the rest
of the page counts as far as it is missing, if more was asked for than the page holds, and otherwise
what is missing, up to the size of a page.
-/
theorem unreadable_by_pages (address requested read : UInt64) :
    unreadableWord? address requested read =
        some (UInt64.ofNat (unreadable address requested read)) ∧
      (requested ≤ read → unreadable address requested read = 0) ∧
      (read < requested →
        let shortfall := requested.toNat - read.toNat
        let readEnd := address.toNat + read.toNat
        let stop := address.toNat + requested.toNat
        (1 ≤ unreadable address requested read ∧
          unreadable address requested read ≤ shortfall) ∧
        (stop ≤ 0x10000000000000000 → ∃ b, IsLeast {b | 4096 ∣ b ∧ readEnd < b} b ∧
          unreadable address requested read =
            if b < stop then min shortfall (b - readEnd) else min shortfall 4096)) := by
  refine ⟨unreadableWord?_eq address requested read, unreadable_of_le, fun h => ?_⟩
  exact ⟨unreadable_bounds h, fun hfits => ⟨_, isLeast_boundary _, unreadable_of_fits h hfits⟩⟩

/-- A read that stops one page before the end of the address space, and a full one. -/
theorem unreadable_by_pages_near_end :
    let address : UInt64 := 0xFFFFFFFFFFFFEF00
    let readEnd := address.toNat + (0x80 : UInt64).toNat
    let stop := address.toNat + (0x1100 : UInt64).toNat
    ((0x80 : UInt64) < 0x1100 ∧ stop ≤ 0x10000000000000000 ∧ (0x80 : UInt64) ≤ 0x80) ∧
      unreadable address 0x80 0x80 = 0 ∧ unreadable address 0x1100 0x80 = 0x80 ∧
      ∃ b, IsLeast {b | 4096 ∣ b ∧ readEnd < b} b ∧ unreadable address 0x1100 0x80 =
        if b < stop then min 0x1080 (b - readEnd) else min 0x1080 4096 := by
  intro address readEnd stop
  have hterms : (0x80 : UInt64) < 0x1100 ∧ stop ≤ 0x10000000000000000 ∧ (0x80 : UInt64) ≤ 0x80 := by
    decide +kernel
  have hfull := (unreadable_by_pages address 0x80 0x80).2.1 hterms.2.2
  have hshort := ((unreadable_by_pages address 0x1100 0x80).2.2 hterms.1).2 hterms.2.1
  exact ⟨hterms, hfull, by decide +kernel, hshort⟩

end MachineInterface.Memory
