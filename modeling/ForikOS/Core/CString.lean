import ForikOS.Core.FsState
import Mathlib.Algebra.Group.Nat.Defs
import Mathlib.Data.BitVec

/-!
# Strings

The functions of `lib/string.c` that work on terminated strings.

An array of characters is the memory from its first byte on, without an end,
and a pointer into it is the number of the byte it points to. Two pointers into
one array have the same memory, pointers into two arrays have two. A loop that
never meets a zero does not end in the source; here it stops after as many
steps as there are addresses, and has no answer.

A `char` has a sign, which shows where two of them are compared by size, and
where one of them is compared with a `uint8_t`. The assertions about null
pointers hold for arrays.

## Main definitions

* `strlen`, `strcpy`, `strcat`, `strcmp`, `strrchr`: The functions.
* `literal`: A string constant.
* `stringAt`: The string at an address, for what is printed.
-/

namespace ForikOS

/-- The array of a string constant. -/
def literal (s : Str) (i : Nat) : Byte := s.getD i 0

/-- `while (*p++)`, and one byte back: the first zero from `p` on. -/
def strEnd (str : Nat → Byte) : Nat → Nat → Option Nat
  | 0, _ => none
  | fuel + 1, p => if str p = 0 then some p else strEnd str fuel (p + 1)

/-- `strlen`. -/
def strlen (str : Nat → Byte) (p : Nat) : Option Nat := (strEnd str (2 ^ 32) p).map (fun e => e - p)

/-- The string at an address, up to its zero. -/
def stringAt (mem : Nat → Byte) (p : Nat) : Option Str :=
  (strlen mem p).map (fun n => (List.range n).map (fun i => mem (p + i)))

/-- `while ((*dst_++ = *src_++))`, from `src + q` to `dst + p`. -/
def copyLoop (src : Nat → Byte) : Nat → Nat → (Nat → Byte) → Nat → Option (Nat → Byte)
  | 0, _, _, _ => none
  | fuel + 1, q, dst, p =>
      -- the zero is copied as well
      let dst := Function.update dst p (src q)
      if src q = 0 then some dst else copyLoop src fuel (q + 1) dst (p + 1)

/-- `strcpy`. -/
def strcpy (dst : Nat → Byte) (p : Nat) (src : Nat → Byte) (q : Nat) : Option (Nat → Byte) :=
  copyLoop src (2 ^ 32) q dst p

/-- `strcat`. -/
def strcat (dst : Nat → Byte) (p : Nat) (src : Nat → Byte) (q : Nat) : Option (Nat → Byte) :=
  (strEnd dst (2 ^ 32) p).bind (copyLoop src (2 ^ 32) q dst)

/-- The loop of `strcmp`, and what it returns. -/
def compareLoop (a b : Nat → Byte) : Nat → Nat → Nat → Option Int
  | 0, _, _ => none
  | fuel + 1, p, q =>
      if a p ≠ 0 ∧ a p = b q then compareLoop a b fuel (p + 1) (q + 1)
      else some (if (a p).toInt < (b q).toInt then -1 else if (b q).toInt < (a p).toInt then 1 else 0)

/-- `strcmp`. -/
def strcmp (a : Nat → Byte) (p : Nat) (b : Nat → Byte) (q : Nat) : Option Int :=
  compareLoop a b (2 ^ 32) p q

/-- The loop of `strrchr`. The inner `none` is `NULL`. -/
def lastLoop (str : Nat → Byte) (ch : Byte) : Nat → Nat → Option Nat → Option (Option Nat)
  | 0, _, _ => none
  | fuel + 1, p, lastChar =>
      if str p = 0 then some lastChar
      -- `*str` has a sign here and `ch` has none, so a byte from 128 on is never found
      else lastLoop str ch fuel (p + 1)
        (if (str p).toInt = (ch.toNat : Int) then some p else lastChar)

/-- `strrchr`. -/
def strrchr (str : Nat → Byte) (p : Nat) (ch : Byte) : Option (Option Nat) :=
  lastLoop str ch (2 ^ 32) p none

end ForikOS
