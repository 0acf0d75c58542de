import ForikOS.Core.PathName

/-!
# Paths in Memory

`path_parse` and `path_depth_cnt` of `fs/fs.c` with their pointers.

`NameArray.pathParse` has the path as a list of bytes, and what is left of it as
another. Here the path is what it is in the source, the address of its first
byte in a memory, and what is returned is an address in it or null. The array
of the name is a memory of its own. As in the functions on strings, a loop that
never meets a zero stops after as many steps as there are addresses.

## Main definitions

* `PathPtr.pathParse`: `path_parse`.
* `PathPtr.pathDepthCnt`: `path_depth_cnt`.
-/

namespace ForikOS

namespace PathPtr

/-- What `path_parse` leaves: the pointer that is returned, where the inner
    `none` is `NULL`, the array of the name and the number of bytes stored in
    it. -/
structure Parsed where
  pathname : Option Nat
  name : Nat → Byte
  stored : Nat

section Parse

variable (mem : Nat → Byte)

/-- `while (*(++pathname) == '/')`. -/
def skipLoop : Nat → Nat → Option Nat
  | 0, _ => none
  | fuel + 1, pathname =>
      if mem (pathname + 1) = slash then skipLoop fuel (pathname + 1) else some (pathname + 1)

/-- `while (*pathname != '/' && *pathname != 0)`, when `n` bytes are stored, and
    the test behind it. -/
def storeLoop : Nat → Nat → (Nat → Byte) → Nat → Option Parsed
  | 0, _, _, _ => none
  | fuel + 1, pathname, name, n =>
      if mem pathname ≠ slash ∧ mem pathname ≠ 0 then
        storeLoop fuel (pathname + 1) (Function.update name n (mem pathname)) (n + 1)
      else
        -- The end of the path is null, whether or not a component has been stored.
        some ⟨if mem pathname = 0 then none else some pathname, name, n⟩

/-- `path_parse`. -/
def pathParse (pathname : Nat) (name : Nat → Byte) : Option Parsed :=
  (if mem pathname = slash then skipLoop mem (2 ^ 32) pathname else some pathname).bind
    (fun pathname => storeLoop mem (2 ^ 32) pathname name 0)

/-- `memset(name, 0, MAX_FILE_NAME_LEN)`. -/
def clear (name : Nat → Byte) (k : Nat) : Byte := if k < maxFileNameLen then 0 else name k

/-- The loop of `path_depth_cnt`. A null pointer is not followed, and the array
    stays as it was cleared. -/
def depthLoop : Nat → Option Nat → (Nat → Byte) → BitVec 32 → Option (BitVec 32)
  | 0, _, _, _ => none
  | fuel + 1, p, name, depth =>
      if name 0 = 0 then
        some depth
      else
        match p with
        | none => depthLoop fuel none (clear name) (depth + 1)
        | some p => (pathParse mem p (clear name)).bind
            (fun r => depthLoop fuel r.pathname r.name (depth + 1))

/-- `path_depth_cnt`, where the array is not set. A null pointer fails the
    assertion. -/
def pathDepthCnt (pathname : Nat) (junk : Nat → Byte) : Option Int :=
  if pathname ≠ 0 then
    (pathParse mem pathname junk).bind (fun r =>
      (depthLoop mem (2 ^ 32) r.pathname r.name 0).map BitVec.toInt)
  else
    none

end Parse

end PathPtr

end ForikOS
