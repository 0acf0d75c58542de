import ForikOS.Core.CString
import ForikOS.Core.PathName

/-!
# The Path Buffer of wash_path

`wash_path` of `shell/buildin_cmd.c` with the buffer it writes the path to.

`NameArray.washPath` follows the array of the names, and has a list for the
path without dots. Here that path is what the source has, a string in the
buffer of the caller, and the functions of `lib/string.c` work on it: `strrchr`
finds the last slash, a zero is written over it, and `strcat` goes on where the
zero is. The buffer is the memory from its first byte on, whatever it holds.

The rounds are the same as there, and the array of the names is the same.

## Main definitions

* `PathBuf.washName`: What is done with one name.
* `PathBuf.washPath`: `wash_path`.
-/

namespace ForikOS

namespace PathBuf

/-- The branch for `".."`: the last slash becomes the end of the string, or the
    byte behind it if it is the first byte. -/
def cutLast (newAbsPath : Nat → Byte) : Option (Nat → Byte) :=
  (strrchr newAbsPath 0 slash).bind (fun slashPtr => slashPtr.map (fun p =>
    if p ≠ 0 then Function.update newAbsPath p 0 else Function.update newAbsPath (p + 1) 0))

/-- The branch for a name: a slash, unless the path is `"/"`, and the name. -/
def append (newAbsPath name : Nat → Byte) : Option (Nat → Byte) :=
  (strcmp newAbsPath 0 (literal [slash]) 0).bind (fun r =>
    (if r ≠ 0 then strcat newAbsPath 0 (literal [slash]) 0 else some newAbsPath).bind
      (fun newAbsPath => strcat newAbsPath 0 name 0))

/-- What `wash_path` does with a name. -/
def washName (name newAbsPath : Nat → Byte) : Option (Nat → Byte) :=
  (strcmp (literal dotdotName) 0 name 0).bind (fun r =>
    if r = 0 then
      cutLast newAbsPath
    else
      (strcmp (literal dotName) 0 name 0).bind (fun r =>
        if r ≠ 0 then append newAbsPath name else some newAbsPath))

/-- The loop of `wash_path`. -/
def washLoop : Nat → NameArray → Option Str → (Nat → Byte) → Option (Nat → Byte)
  | 0, _, _, _ => none
  | n + 1, a, subPath, newAbsPath =>
      if a.bytes 0 = 0 then
        some newAbsPath
      else
        (washName a.bytes newAbsPath).bind
          (washLoop n (NameArray.parseNext subPath a).1 (NameArray.parseNext subPath a).2)

/-- `wash_path`. A path that does not begin with a slash fails the assertion. -/
def washPath (oldAbsPath : Str) (newAbsPath : Nat → Byte) : Option (Nat → Byte) :=
  if oldAbsPath.head? = some slash then
    let r := NameArray.zeros.pathParse oldAbsPath
    -- a path of slashes only
    if r.1.bytes 0 = 0 then
      some (Function.update (Function.update newAbsPath 0 slash) 1 0)
    else
      (strcat (Function.update newAbsPath 0 0) 0 (literal [slash]) 0).bind
        (washLoop (oldAbsPath.length + 2) r.1 r.2)
  else
    none

end PathBuf

end ForikOS
