import ForikOS.Core.Stdio
import ForikOS.Core.Sync

/-!
# The Screen

`lib/print.asm`: characters, strings and numbers on a text screen of 25 rows
with 80 characters each.

A character is two bytes of the video memory, the code and the attribute. The
segment in `gs` has 32 KiB, and a write behind its end is a fault. The place of
the next character is in two registers of the display, of 8 bits each, which are
one number here. All arithmetic on it is in `bx`, with 16 bits, and `jl` compares
with a sign.

`device/console.c` has a lock around each of them. A thread that is putting a
string may be switched out behind any character, and behind any statement of the
functions of the lock. `put_char` itself is one step here.

## Main definitions

* `Console`: The video memory and the cursor.
* `putChar`, `rollScreen`, `setCursor`, `clsScreen`: The functions for characters.
* `putStr`, `putInt`: Strings, and numbers in base 16.
* `consoleSystem`: Any number of threads with the functions of
  `device/console.c`.
-/

namespace ForikOS

/-- The video memory from `0xc00b8000` on, and the cursor. -/
structure Console where
  vram : Nat → Byte
  cursor : BitVec 16

namespace Console

/-- `mov byte [gs:off], b`. -/
def gsStore (c : Console) (off : BitVec 16) (b : Byte) : Option Console :=
  if off.toNat < 0x8000 then some { c with vram := Function.update c.vram off.toNat b }
  else none

/-- `.cls`: a blank in each of the next `n` places, the words at `ebx` and up. -/
def cls : Nat → Nat → (Nat → Byte) → Nat → Byte
  | 0, _, vram => vram
  | n + 1, ebx, vram =>
      cls n (ebx + 2) (Function.update (Function.update vram ebx 0x20) (ebx + 1) 0x07)

end Console

/-- `rep movsd`: words of four bytes, upwards. -/
def repMovsd : Nat → Nat → Nat → (Nat → Byte) → Nat → Byte
  | 0, _, _, vram => vram
  | n + 1, esi, edi, vram =>
      let vram' := fun i =>
        if edi ≤ i ∧ i < edi + 4 then vram (esi + (i - edi)) else vram i
      repMovsd n (esi + 4) (edi + 4) vram'

/-- `set_cursor`. -/
def setCursor (c : Console) (bx : BitVec 16) : Console := { c with cursor := bx }

/-- `.roll_screen`. -/
def rollScreen (c : Console) : Console :=
  -- 24 rows of 160 bytes go up, and the last one is blanked.
  let vram := repMovsd 960 0xa0 0 c.vram
  let vram := Console.cls 80 3840 vram
  setCursor { c with vram := vram } 1920

/-- `.is_line_feed`, which is `.is_carriage_return` too. -/
def isLineFeed (c : Console) (bx : BitVec 16) : Console :=
  -- The beginning of the line, and one line down.
  let dx := bx % 80
  let bx := bx - dx
  let bx := bx + 80
  if bx.slt 2000 then setCursor c bx else rollScreen c

/-- `put_char`. -/
def putChar (c : Console) (cl : Byte) : Option Console := do
  let bx := c.cursor
  if cl = 0x0d then
    return isLineFeed c bx
  else if cl = 0x0a then
    return isLineFeed c bx
  else if cl = 0x08 then
    -- One place back, which gets a blank.
    let bx := bx - 1
    let bx := bx <<< 1
    let c ← c.gsStore bx 0x20
    let bx := bx + 1
    let c ← c.gsStore bx 0x07
    let bx := bx >>> 1
    return setCursor c bx
  else
    let bx := bx <<< 1
    let c ← c.gsStore bx cl
    let bx := bx + 1
    let c ← c.gsStore bx 0x07
    let bx := bx >>> 1
    let bx := bx + 1
    -- Behind the last place the screen goes up.
    if bx.slt 2000 then return setCursor c bx else return isLineFeed c bx

/-- `put_str`, up to the end of the string. -/
def putStr (c : Console) : List Byte → Option Console
  | [] => some c
  | cl :: str => do putStr (← putChar c cl) str

/-- `cls_screen`. -/
def clsScreen (c : Console) : Console :=
  setCursor { c with vram := Console.cls (80 * 25) 0 c.vram } 0

/-- The first loop of `put_int`: the digits, from the last one on. -/
def hexDigits : Nat → Word → List Byte → List Byte
  | 0, _, buffer => buffer
  | n + 1, eax, buffer =>
      let edx := eax &&& 0x0000000f
      let edx := if 9 < edx.toInt then edx - 10 + 0x41 else edx + 0x30
      hexDigits n (eax >>> 4) (edx.setWidth 8 :: buffer)

/-- `.skip_prefix_0`. -/
def skipPrefix0 : List Byte → List Byte
  | [] => [0x30]
  | cl :: buffer => if cl = 0x30 then skipPrefix0 buffer else cl :: buffer

/-- `put_int`. -/
def putInt (c : Console) (num : Word) : Option Console :=
  putStr c (skipPrefix0 (hexDigits 8 num []))

/-! ## The lock -/

/-- The place of a thread in `console_put_str`. The two other functions are the
    same for a string of one character, and for the digits of a number. -/
inductive ConsolePc
  | rest
  /-- Inside `console_acquire`. -/
  | acquiring (str : Str)
  /-- Inside `put_str`, behind `n` characters. -/
  | putting (str : Str) (n : Nat)
  /-- Inside `console_release`. -/
  | releasing (str : Str)

/-- What stops the machine. -/
inductive ConsoleFault
  | assertion (f : Func)
  /-- The end of the segment. -/
  | protection

/-- The screen and the threads that use it. -/
structure ConsoleState (T : Type) where
  lock : LockState T
  con : Console
  pc : T → ConsolePc
  /-- The strings that have been put, in the order of the calls of
      `console_release`. -/
  log : List Str

/-- A call of `console_put_str`, or the next step of a thread that is in it. -/
inductive ConsoleEvent (T : Type)
  | call (t : T) (str : Str)
  | run (t : T)

variable {T : Type} [DecidableEq T]

/-- A step of the lock. -/
def ConsoleState.lockStep (s : ConsoleState T) (e : LockEvent T) :
    Except ConsoleFault (ConsoleState T) :=
  match lockEventStep s.lock e with
  | .ok l => .ok { s with lock := l }
  | .error f => .error (.assertion f)

/-- Move a thread. -/
def ConsoleState.goto (s : ConsoleState T) (t : T) (pc : ConsolePc) : ConsoleState T :=
  { s with pc := Function.update s.pc t pc }

/-- What an event does. -/
def consoleStep (s : ConsoleState T) : ConsoleEvent T → Except ConsoleFault (ConsoleState T)
  | .call t str => do
      let s ← s.lockStep (.acquire t)
      .ok (s.goto t (.acquiring str))
  | .run t =>
      match s.pc t with
      | .rest => .ok s
      | .acquiring str => do
          let s ← s.lockStep (.run t)
          .ok (if s.lock.pc t = .rest then s.goto t (.putting str 0) else s)
      | .putting str n =>
          match str[n]? with
          | some cl =>
              match putChar s.con cl with
              | some con => .ok ({ s with con := con }.goto t (.putting str (n + 1)))
              | none => .error .protection
          -- The end of the string.
          | none => do
              let s ← s.lockStep (.release t)
              .ok ({ s with log := s.log ++ [str] }.goto t (.releasing str))
      | .releasing _ => do
          let s ← s.lockStep (.run t)
          .ok (if s.lock.pc t = .rest then s.goto t .rest else s)

/-- A string without a backspace is put by a thread that is not putting one; a
    blocked thread does not run. -/
def consoleEnabled (s : ConsoleState T) : ConsoleEvent T → Prop
  | .call t str => (s.pc t matches .rest) ∧ 0x08 ∉ str
  | .run t => ¬(s.pc t matches .rest) ∧ s.lock.pc t ≠ .waiting

/-- The screen behind `cls_screen`, with nobody using it. -/
def ConsoleInit (s : ConsoleState T) : Prop :=
  s.lock = { lock := lockInit, pc := fun _ => .rest, depth := fun _ => 0 } ∧
    (∃ c, s.con = clsScreen c) ∧ (∀ t, s.pc t = .rest) ∧ s.log = []

/-- Any number of threads putting strings. -/
def consoleSystem (T : Type) [DecidableEq T] :
    System (ConsoleState T) (ConsoleEvent T) ConsoleFault where
  init := ConsoleInit
  enabled := consoleEnabled
  step := consoleStep

end ForikOS
