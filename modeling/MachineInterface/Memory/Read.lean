import MachineInterface.Memory.Address
import MachineInterface.Record.Answer
import MachineInterface.Text.Base64

/-!
# Memory reads

The bytes in the answer to a read, and how many bytes after them cannot be read.

* `length_decodeHex_le`: no more bytes are taken than were asked for.
* `unreadable_of_le`: a full read leaves nothing out.
-/

namespace MachineInterface

open Text

namespace Memory

/-- The size of a page for the estimate of what cannot be read. -/
def pageSize : Nat := 4096

/-- The largest word of 64 bits, at which sums stop. -/
def wordLimit : Nat := 0xFFFFFFFFFFFFFFFF

/-- What the debugger says when no byte of a range can be read. -/
def unreadableMessage : String := "Unable to read memory."

/-- The bytes of pairs of hexadecimal digits, at most `limit`, up to the first pair that is none. -/
def decodeHex : List Char → (limit : Nat) → List UInt8
  | a :: b :: rest, limit + 1 =>
    match Numeral.readNat? 16 256 [a, b] with
    | some byte => UInt8.ofNat byte :: decodeHex rest limit
    | none => []
  | _, _ => []

/-- No more bytes are taken than were asked for. -/
theorem length_decodeHex_le (cs : List Char) (limit : Nat) :
    (decodeHex cs limit).length ≤ limit := by
  fun_induction decodeHex cs limit with
  | case1 _ _ _ _ _ _ ih => simpa using ih
  | case2 => simp
  | case3 => simp

/-- The first page boundary at or after an address, or the next one when the address is at one. -/
def nextPage (a : Nat) : Nat :=
  let boundary := min ((a + pageSize - 1) / pageSize * pageSize) wordLimit
  if boundary = a then min (a + pageSize) wordLimit else boundary

/--
How many bytes after a short read cannot be read. The read is taken to have stopped at a page: when
more was asked for than that page holds, only the rest of the page counts.
-/
def unreadable (address requested read : UInt64) : Nat :=
  if requested ≤ read then 0
  else
    let shortfall := requested.toNat - read.toNat
    let readEnd := min (address.toNat + read.toNat) wordLimit
    let page := nextPage readEnd
    if min (address.toNat + requested.toNat) wordLimit > page then min shortfall (page - readEnd)
    else min shortfall pageSize

/-- A full read leaves nothing out. -/
theorem unreadable_of_le {address requested read : UInt64} (h : requested ≤ read) :
    unreadable address requested read = 0 := by
  simp [unreadable, h]

end Memory

/-- The result of reading memory. -/
structure MemoryRead where
  address : UInt64
  bytes : List UInt8 := []
  /-- How many of the bytes that were asked for cannot be read. -/
  unreadable : Nat := 0
  deriving Repr, DecidableEq

namespace MemoryRead

/-- The bytes as text. -/
def base64 (r : MemoryRead) : String := Base64.encode r.bytes

/-- What the answer to a read of `count` bytes at `address` says. -/
def ofAnswer (command : String) (address count : UInt64) (answer : ResultRecord) :
    Except Error MemoryRead := do
  let field (name : String) : Except Error String := answer.require command ("memory[0]." ++ name)
  let number (name : String) : Except Error UInt64 := do
    match Address.ofReference? (← field name) with
    | some n => return n
    | none => throw (.malformed command ("memory[0]." ++ name))
  let start ← number "begin"
  let offset ← number "offset"
  let actual := start + offset
  if actual ≠ address then throw (.memoryAddressMismatch address actual)
  let contents ← field "contents"
  let bytes := Memory.decodeHex contents.toList count.toNat
  return ⟨address, bytes, Memory.unreadable address count (UInt64.ofNat bytes.length)⟩

end MemoryRead

end MachineInterface
