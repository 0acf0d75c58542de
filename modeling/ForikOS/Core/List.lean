import Mathlib.Algebra.Group.Nat.Defs
import Mathlib.Logic.Function.Basic

/-!
# Lists in Memory

The intrusive lists of `lib/list.c`, over the words of a memory.

A `struct list_elem` at address `e` has its field `prev` in the word at `e`
and its field `next` in the word at `e + 4`. A `struct list` at address `l`
is two of them, `head` at `l` and `tail` at `l + 8`. The interrupt flag that
the functions save and restore is not part of this memory.

A loop along a list that never meets the tail does not end in the source. Here
it stops after as many steps as there are addresses, and has no answer. The
function that `list_traversal` is given is taken to leave the links alone.

## Main definitions

* `listInit`, `listInsertBefore`, `listPush`, `listAppend`, `listRemove`,
  `listPop`, `elemFind`, `listEmpty`, `listTraversal`, `listLen`: The functions
  of `lib/list.c`.
-/

namespace ForikOS

/-- The address of the field `next`. -/
def nextField (e : Nat) : Nat := e + 4

/-- The address of `tail` in a list. -/
def listTail (l : Nat) : Nat := l + 8

/-- `list_init`. -/
def listInit (mem : Nat → Nat) (l : Nat) : Nat → Nat :=
  let mem := Function.update mem l 0
  let mem := Function.update mem (nextField l) (listTail l)
  let mem := Function.update mem (listTail l) l
  Function.update mem (nextField (listTail l)) 0

/-- `list_insert_before`. -/
def listInsertBefore (mem : Nat → Nat) (before elem : Nat) : Nat → Nat :=
  let mem := Function.update mem (nextField (mem before)) elem
  let mem := Function.update mem elem (mem before)
  let mem := Function.update mem (nextField elem) before
  Function.update mem before elem

/-- `list_push`. -/
def listPush (mem : Nat → Nat) (l elem : Nat) : Nat → Nat :=
  listInsertBefore mem (mem (nextField l)) elem

/-- `list_append`. -/
def listAppend (mem : Nat → Nat) (l elem : Nat) : Nat → Nat :=
  listInsertBefore mem (listTail l) elem

/-- `list_remove`. -/
def listRemove (mem : Nat → Nat) (elem : Nat) : Nat → Nat :=
  let mem := Function.update mem (nextField (mem elem)) (mem (nextField elem))
  Function.update mem (mem (nextField elem)) (mem elem)

/-- `list_pop`. -/
def listPop (mem : Nat → Nat) (l : Nat) : (Nat → Nat) × Nat :=
  let elem := mem (nextField l)
  (listRemove mem elem, elem)

/-- The loop of `elem_find`. -/
def elemFindLoop (mem : Nat → Nat) (tail objElem : Nat) : Nat → Nat → Option Bool
  | 0, _ => none
  | fuel + 1, elem =>
      if elem = tail then some false
      else if elem = objElem then some true
      else elemFindLoop mem tail objElem fuel (mem (nextField elem))

/-- `elem_find`. -/
def elemFind (mem : Nat → Nat) (l objElem : Nat) : Option Bool :=
  elemFindLoop mem (listTail l) objElem (2 ^ 32) (mem (nextField l))

/-- `list_empty`. -/
def listEmpty (mem : Nat → Nat) (l : Nat) : Bool := mem (nextField l) = listTail l

/-- The loop of `list_traversal`. The inner `none` is `NULL`. -/
def listTraversalLoop (mem : Nat → Nat) (tail : Nat) (func : Nat → Int → Bool) (arg : Int) :
    Nat → Nat → Option (Option Nat)
  | 0, _ => none
  | fuel + 1, elem =>
      if elem = tail then some none
      else if func elem arg then some (some elem)
      else listTraversalLoop mem tail func arg fuel (mem (nextField elem))

/-- `list_traversal`. -/
def listTraversal (mem : Nat → Nat) (l : Nat) (func : Nat → Int → Bool) (arg : Int) :
    Option (Option Nat) :=
  if listEmpty mem l then some none
  else listTraversalLoop mem (listTail l) func arg (2 ^ 32) (mem (nextField l))

/-- The loop of `list_len`. -/
def listLenLoop (mem : Nat → Nat) (tail : Nat) : Nat → Nat → Nat → Option Nat
  | 0, _, _ => none
  | fuel + 1, elem, length =>
      if elem = tail then some length
      else listLenLoop mem tail fuel (mem (nextField elem)) (length + 1)

/-- `list_len`. -/
def listLen (mem : Nat → Nat) (l : Nat) : Option Nat :=
  listLenLoop mem (listTail l) (2 ^ 32) (mem (nextField l)) 0

end ForikOS
