import ForikOS.Core.CString
import ForikOS.Core.Memory

/-!
# Formatted Output

`itoa`, `vsprintf` and `printf` of `lib/stdio.c`.

The destination is an array of its own, without an end. The format and the
strings among the arguments are in the memory, which is not written. The
arguments are the words of a stack, one above the other, and `ap` is the number
of the last one that has been read: `va_start` leaves it at the format.

`index_char` is what `index_ptr` points to, at every test of the loop. A letter
without a case in the `switch` is not passed over, so the loop goes on with it.

## Main definitions

* `Out`: The destination and `buf_ptr`.
* `itoa`: A number in a base.
* `convert`: The `switch` of `vsprintf`.
* `vsprintf`, `printf`: The functions.
-/

namespace ForikOS

/-- `'%'`. -/
def percent : Byte := 0x25

/-- The destination, and the position in it. -/
structure Out where
  str : Nat → Byte
  ptr : Nat

/-- `*(buf_ptr++) = c`. -/
def Out.put (o : Out) (c : Byte) : Out := ⟨Function.update o.str o.ptr c, o.ptr + 1⟩

/-- `itoa`. -/
def itoa (base : Byte) : Nat → Word → Out → Option Out
  | 0, _, _ => none
  | fuel + 1, value, o =>
      let m := value % base.setWidth 32
      let i := value / base.setWidth 32
      (if i ≠ 0 then itoa base fuel i o else some o).map (fun o =>
        if m < 10 then o.put ((m + 0x30).setWidth 8) else o.put ((m - 10 + 0x41).setWidth 8))

/-- The local variables of `vsprintf`. -/
structure Formatter where
  out : Out
  indexPtr : Nat
  ap : Nat

section Format

variable (mem : Nat → Byte) (stack : Nat → Word)

/-- The `switch`, for the letter behind a percent sign. -/
def convert (indexChar : Byte) (f : Formatter) : Option Formatter :=
  let arg := stack (f.ap + 1)
  let next (out : Out) : Formatter := ⟨out, f.indexPtr + 1, f.ap + 1⟩
  -- `%s`: the zero of the string is copied, and `buf_ptr` stays on it
  if indexChar = 0x73 then
    (strcpy f.out.str f.out.ptr mem arg.toNat).bind (fun str =>
      (strlen mem arg.toNat).map (fun n => next ⟨str, f.out.ptr + n⟩))
  -- `%c`: the low byte of the word
  else if indexChar = 0x63 then
    some (next (f.out.put (arg.setWidth 8)))
  -- `%d`: a minus sign, and the number without it
  else if indexChar = 0x64 then
    (if arg.toInt < 0 then itoa 10 (2 ^ 32) (0 - arg) (f.out.put 0x2d)
    else itoa 10 (2 ^ 32) arg f.out).map next
  -- `%x`: the word without a sign
  else if indexChar = 0x78 then
    (itoa 16 (2 ^ 32) arg f.out).map next
  else
    some f

/-- The loop of `vsprintf`. -/
def vsprintfLoop : Nat → Formatter → Option Out
  | 0, _ => none
  | fuel + 1, f =>
      if mem f.indexPtr = 0 then
        some f.out
      else if mem f.indexPtr ≠ percent then
        vsprintfLoop fuel ⟨f.out.put (mem f.indexPtr), f.indexPtr + 1, f.ap⟩
      else
        (convert mem stack (mem (f.indexPtr + 1)) { f with indexPtr := f.indexPtr + 1 }).bind
          (vsprintfLoop fuel)

/-- `vsprintf`: what it returns, and the destination. -/
def vsprintf (str : Nat → Byte) (format ap : Nat) : Option (Nat × (Nat → Byte)) :=
  (vsprintfLoop mem stack (2 ^ 32) ⟨⟨str, 0⟩, format, ap⟩).bind (fun o =>
    (strlen o.str 0).map (fun n => (n, o.str)))

/-- `printf`: the string that it writes. The format is the argument in front of
    the others, and the destination begins with zeros. -/
def printf (format : Nat) : Option Str :=
  (vsprintf mem stack (fun _ => 0) (stack format).toNat format).bind (fun r => stringAt r.2 0)

end Format

end ForikOS
