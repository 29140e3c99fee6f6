import MachineInterface.Error
import MachineInterface.Text.Blank
import MachineInterface.Text.Numeral

/-!
# Addresses

A memory reference is a text that starts with a number. An offset is added to it exactly.

* `offset?_eq_some_iff`: an offset gives an address exactly when the sum is one.
-/

namespace MachineInterface

open Text

namespace Address

/-- The address that a word stands for; hexadecimal only after `0x`. -/
def ofWord? (word : List Char) : Option UInt64 :=
  match word with
  | '0' :: 'x' :: digits => Numeral.readUInt64? 16 digits
  | '0' :: 'X' :: digits => Numeral.readUInt64? 16 digits
  | digits => Numeral.readUInt64? 10 digits

/-- The address at the start of a reference. -/
def ofReference? (reference : String) : Option UInt64 :=
  (charWords reference.toList).head?.bind ofWord?

/-- An address moved by an offset, when it stays among the addresses. -/
def offset? (base : UInt64) (offset : Int) : Option UInt64 :=
  if 0 ≤ base.toNat + offset ∧ base.toNat + offset < 0x10000000000000000 then
    some (UInt64.ofNat (base.toNat + offset).toNat)
  else none

/-- An offset gives an address exactly when the sum is one. -/
theorem offset?_eq_some_iff {base a : UInt64} {offset : Int} :
    offset? base offset = some a ↔ (base.toNat : Int) + offset = a.toNat := by
  have ha := a.toNat_lt
  unfold offset?
  constructor
  · intro h
    split at h
    · rename_i hs
      cases h
      rw [UInt64.toNat_ofNat']
      omega
    · cases h
  · intro h
    rw [if_pos (by omega)]
    congr 1
    apply UInt64.toNat_inj.1
    rw [UInt64.toNat_ofNat']
    omega

/-- The address of a reference and an offset. -/
def resolve (reference : String) (offset : Int) : Except Error UInt64 :=
  if (trimChars reference.toList).isEmpty then .error (.invalidArgument "memory reference is empty")
  else match ofReference? reference with
    | none => .error (.invalidArgument ("invalid memory reference: " ++ reference))
    | some base =>
      match offset? base offset with
      | none =>
        .error
          (.invalidArgument ("memory offset " ++ toString offset ++ " overflows " ++ reference))
      | some a => .ok a

/-- The command that reads some bytes at an address. -/
def readCommand (a count : UInt64) : String :=
  "data-read-memory-bytes 0x" ++ String.ofList (Numeral.hexPadded 16 a.toNat) ++ " "
    ++ toString count.toNat

end Address

end MachineInterface
