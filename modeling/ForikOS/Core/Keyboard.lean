import ForikOS.Core.FsState
import ForikOS.Core.IoQueue

/-!
# The Keyboard Driver

`intr_keyboard_handler` of `device/keyboard.c`, which is called with every byte
that the keyboard sends.

A key sends its make code when it is pressed and its break code, the same with
bit seven set, when it is released. The codes of some keys begin with `0xe0`;
the handler then only sets a flag, and the next call puts the two bytes
together.

The bytes that have been typed wait in the ring of `device/ioqueue.c`, which is
the list of them here, the oldest first. The ring is full with one byte less
than it has elements.

## Main definitions

* `Keyboard`: The variables of the driver.
* `keymap`, `keyChar`: The characters of the keys, without and with shift.
* `release`, `press`: A break code and a make code.
* `intrKeyboardHandler`: The handler.
-/

namespace ForikOS

/-- The variables of the driver. `unknown` counts the messages about keys that it
    does not know. -/
structure Keyboard where
  ctrlStatus : Bool
  shiftStatus : Bool
  altStatus : Bool
  capsLockStatus : Bool
  extScancode : Bool
  kbdBuf : List Byte
  unknown : Nat
  deriving DecidableEq, Repr

/-- Static variables begin with zeros. -/
def Keyboard.init : Keyboard := ⟨false, false, false, false, false, [], 0⟩

def shiftLMake : BitVec 16 := 0x2a
def shiftRMake : BitVec 16 := 0x36
def altLMake : BitVec 16 := 0x38
def altRMake : BitVec 16 := 0xe038
def ctrlLMake : BitVec 16 := 0x1d
def ctrlRMake : BitVec 16 := 0xe01d
def capsLockMake : BitVec 16 := 0x3a

/-- `keymap`. Keys without a character have a zero. -/
def keymap : List (Byte × Byte) :=
  [ (0x00, 0x00), (0x1b, 0x1b), (0x31, 0x21), (0x32, 0x40), (0x33, 0x23), (0x34, 0x24),
    (0x35, 0x25), (0x36, 0x5e), (0x37, 0x26), (0x38, 0x2a), (0x39, 0x28), (0x30, 0x29),
    (0x2d, 0x5f), (0x3d, 0x2b), (0x08, 0x08), (0x09, 0x09),
    -- from `q` on, make code 0x10
    (0x71, 0x51), (0x77, 0x57), (0x65, 0x45), (0x72, 0x52), (0x74, 0x54), (0x79, 0x59),
    (0x75, 0x55), (0x69, 0x49), (0x6f, 0x4f), (0x70, 0x50), (0x5b, 0x7b), (0x5d, 0x7d),
    (0x0d, 0x0d), (0x00, 0x00),
    -- from `a` on, make code 0x1e
    (0x61, 0x41), (0x73, 0x53), (0x64, 0x44), (0x66, 0x46), (0x67, 0x47), (0x68, 0x48),
    (0x6a, 0x4a), (0x6b, 0x4b), (0x6c, 0x4c), (0x3b, 0x3a), (0x27, 0x22), (0x60, 0x7e),
    (0x00, 0x00), (0x5c, 0x7c),
    -- from `z` on, make code 0x2c
    (0x7a, 0x5a), (0x78, 0x58), (0x63, 0x43), (0x76, 0x56), (0x62, 0x42), (0x6e, 0x4e),
    (0x6d, 0x4d), (0x2c, 0x3c), (0x2e, 0x3e), (0x2f, 0x3f), (0x00, 0x00), (0x2a, 0x2a),
    (0x00, 0x00), (0x20, 0x20), (0x00, 0x00) ]

/-- The make codes that are looked up in `keymap`. -/
def Known (scancode : BitVec 16) : Prop :=
  (0x00 < scancode ∧ scancode < 0x3b) ∨ scancode = altRMake ∨ scancode = ctrlRMake

instance (scancode : BitVec 16) : Decidable (Known scancode) := inferInstanceAs (Decidable (_ ∨ _))

/-- `keymap[index][shift]`, with the low byte of the code. -/
def keyChar (scancode : BitVec 16) (shift : Bool) : Byte :=
  let chars := keymap.getD (scancode &&& 0x00ff).toNat (0, 0)
  if shift then chars.2 else chars.1

namespace Keyboard

/-- A break code, without its bit seven. -/
def release (k : Keyboard) (makeCode : BitVec 16) : Keyboard :=
  if makeCode = ctrlLMake ∨ makeCode = ctrlRMake then { k with ctrlStatus := false }
  else if makeCode = shiftLMake ∨ makeCode = shiftRMake then { k with shiftStatus := false }
  else if makeCode = altLMake ∨ makeCode = altRMake then { k with altStatus := false }
  else k

/-- Whether the character is the one with shift. For a letter caps lock counts,
    for a key with two characters it does not. -/
def shifted (k : Keyboard) (scancode : BitVec 16) : Bool :=
  if scancode < 0x0e ∨ scancode = 0x29 ∨ scancode = 0x1a ∨ scancode = 0x1b ∨ scancode = 0x2b ∨
      scancode = 0x27 ∨ scancode = 0x28 ∨ scancode = 0x33 ∨ scancode = 0x34 ∨ scancode = 0x35 then
    k.shiftStatus
  else if k.shiftStatus ∧ k.capsLockStatus then false
  else k.shiftStatus || k.capsLockStatus

/-- A character goes to the buffer, unless that is full. -/
def type (k : Keyboard) (curChar : Byte) : Keyboard :=
  -- ctrl-l and ctrl-u are told from the letters by the distance to `a`
  let curChar :=
    if (k.ctrlStatus ∧ curChar = 0x6c) ∨ (k.ctrlStatus ∧ curChar = 0x75) then curChar - 0x61
    else curChar
  if k.kbdBuf.length + 1 < bufsize then { k with kbdBuf := k.kbdBuf ++ [curChar] } else k

/-- A key without a character, by the low byte of its make code. -/
def control (k : Keyboard) (scancode : BitVec 16) : Keyboard :=
  if scancode = ctrlLMake ∨ scancode = ctrlRMake then { k with ctrlStatus := true }
  else if scancode = shiftLMake ∨ scancode = shiftRMake then { k with shiftStatus := true }
  else if scancode = altLMake ∨ scancode = altRMake then { k with altStatus := true }
  else if scancode = capsLockMake then { k with capsLockStatus := !k.capsLockStatus }
  else k

/-- A make code. -/
def press (k : Keyboard) (scancode : BitVec 16) : Keyboard :=
  if Known scancode then
    let curChar := keyChar scancode (k.shifted scancode)
    -- the prefix is gone when the flags are set: right ctrl is looked up as left ctrl
    if curChar ≠ 0 then k.type curChar else k.control (scancode &&& 0x00ff)
  else
    { k with unknown := k.unknown + 1 }

end Keyboard

/-- A byte with the prefix or without it. -/
def joinCode (ext : Bool) (port : Byte) : BitVec 16 :=
  if ext then 0xe000 ||| port.setWidth 16 else port.setWidth 16

/-- `intr_keyboard_handler`, with the byte that is read from the port. -/
def intrKeyboardHandler (k : Keyboard) (port : Byte) : Keyboard :=
  if port = 0xe0 then
    { k with extScancode := true }
  else
    let scancode := joinCode k.extScancode port
    -- the flag is off already when the byte is a code of its own
    let k := { k with extScancode := false }
    -- bit seven is the break code
    if scancode &&& 0x0080 ≠ 0 then k.release (scancode &&& 0xff7f) else k.press scancode

end ForikOS
