import MachineInterface.Record.Basic
import MachineInterface.Text.Numeral

/-!
# Stack frames

The frames that the debugger lists, and numbers that stand for a frame of a thread.

* `FrameId.thread_pack`, `FrameId.level_pack`: what a packed number keeps of a frame.
-/

namespace MachineInterface

open Text

/-- A thread and a level in one word: the level in the upper half, the thread in the lower. -/
structure FrameId where
  word : UInt32
  deriving Repr, DecidableEq

namespace FrameId

/-- The number of threads, and of levels, that a word tells apart. -/
def half : UInt32 := 0x10000

/-- The number for a frame. The upper halves of the thread and of the level are lost. -/
def pack (thread level : UInt32) : FrameId := ⟨level * half + thread % half⟩

/-- The thread that a number stands for. -/
def thread (f : FrameId) : UInt32 := f.word % half

/-- The level that a number stands for. -/
def level (f : FrameId) : UInt32 := f.word / half

theorem toNat_word_pack (thread level : UInt32) :
    (pack thread level).word.toNat =
      level.toNat % 0x10000 * 0x10000 + thread.toNat % 0x10000 := by
  simp only [pack, half, UInt32.toNat_add, UInt32.toNat_mul, UInt32.toNat_mod, UInt32.reduceToNat]
  omega

theorem thread_pack (thread level : UInt32) : (pack thread level).thread = thread % half := by
  apply UInt32.toNat_inj.1
  rw [FrameId.thread, UInt32.toNat_mod, toNat_word_pack, UInt32.toNat_mod]
  simp only [half, UInt32.reduceToNat]
  omega

theorem level_pack (thread level : UInt32) : (pack thread level).level = level % half := by
  apply UInt32.toNat_inj.1
  rw [FrameId.level, UInt32.toNat_div, toNat_word_pack, UInt32.toNat_mod]
  simp only [half, UInt32.reduceToNat]
  omega

end FrameId

/-- A frame as the debugger lists it. -/
structure Frame where
  level : UInt32
  address : String
  /-- The function, or else the library that the frame comes from. -/
  function : String
  fileName : Option String
  /-- The full path of the file, or else its name. -/
  file : Option String
  line : UInt32
  deriving Repr, DecidableEq

/-- The frame that an entry of a list describes. -/
def Frame.ofValue? (v : Value) : Option Frame := do
  let level ← (← v.lookupText? "level") |> Numeral.readUInt32?
  let fileName := v.lookupText? "file"
  return {
    level, fileName
    address := (v.lookupText? "addr").getD ""
    function := (v.lookupText? "func" <|> v.lookupText? "from").getD ""
    file := (v.lookupText? "fullname").filter (!·.isEmpty) <|> fileName
    line := ((v.lookupText? "line").bind Numeral.readUInt32?).getD 0 }

end MachineInterface
