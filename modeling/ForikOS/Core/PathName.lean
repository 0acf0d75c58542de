import ForikOS.Core.FileSys

/-!
# The Names of a Path

`path_parse` and the functions that call it, with the array the name is stored
in: `path_depth_cnt` and `search_file` of `fs/fs.c` and `wash_path` of
`shell/buildin_cmd.c`.

`path_parse` is given the address of the array but not its length. It copies
bytes up to the next slash, and no terminator; the callers clear the array
before, except that `path_depth_cnt` leaves it as it is the first time. The
array is modelled by the memory from its first byte on, so what is written
behind its end is there as well. How far `path_parse` has written and what the
array holds when it is passed on as a string is logged.

What `search_dir_entry` finds depends on the disk and is a parameter: the type
of the entry in each round, if there is one. The string in an array that is not
terminated goes on behind it; here it ends with the array.

## Main definitions

* `NameArray`, `NameEvent`: The array and what is logged.
* `NameArray.pathParse`: `path_parse`.
* `NameArray.pathDepthCnt`, `NameArray.searchFile`, `NameArray.washPath`: Its
  callers.
-/

namespace ForikOS

/-- What happens to the array of a name. -/
inductive NameEvent
  /-- `path_parse` has written `n` bytes from the first on. -/
  | stored (n : Nat)
  /-- The array is passed to `search_dir_entry`, `strcat` or `strcmp`. -/
  | passed (name : Nat → Byte)

/-- The memory from the first byte of the array on, and what has been logged,
    the first first. -/
structure NameArray where
  bytes : Nat → Byte
  log : List NameEvent

namespace NameArray

/-- Something is logged. -/
def push (a : NameArray) (e : NameEvent) : NameArray := { a with log := a.log ++ [e] }

/-- `memset(name, 0, MAX_FILE_NAME_LEN)`. -/
def clear (a : NameArray) : NameArray :=
  { a with bytes := fun k => if k < maxFileNameLen then 0 else a.bytes k }

/-- The array is passed on as a string. -/
def pass (a : NameArray) : NameArray := a.push (.passed a.bytes)

/-- The string in the array. -/
def str (a : NameArray) : Str := ((List.range maxFileNameLen).map a.bytes).takeWhile (· != 0)

/-- An array that is set to zero. -/
def zeros : NameArray := ⟨fun _ => 0, []⟩

/-- The first loop of `path_parse`. -/
def skipSlashes : Str → Str
  | [] => []
  | c :: p => if c = slash then skipSlashes p else c :: p

/-- The second loop of `path_parse`: the bytes up to the next slash are stored
    from `n` on. -/
def store : Str → Nat → NameArray → NameArray × Str
  | [], n, a => (a.push (.stored n), [])
  | c :: p, n, a =>
      if c = slash then (a.push (.stored n), c :: p)
      else store p (n + 1) { a with bytes := Function.update a.bytes n c }

/-- `path_parse`. -/
def pathParse (pathname : Str) (a : NameArray) : NameArray × Option Str :=
  let r := store (skipSlashes pathname) 0 a
  (r.1, if r.2 = [] then none else some r.2)

/-- `if (p) p = path_parse(p, name)`, once the array has been cleared. -/
def parseNext (p : Option Str) (a : NameArray) : NameArray × Option Str :=
  match p with
  | none => (a.clear, none)
  | some p => a.clear.pathParse p

/-- The loop of `path_depth_cnt`. `none` is a loop that has not ended. -/
def depthLoop : Nat → NameArray → Option Str → Nat → Option (NameArray × Nat)
  | 0, _, _, _ => none
  | n + 1, a, p, depth =>
      if a.bytes 0 = 0 then some (a, depth)
      else depthLoop n (parseNext p a).1 (parseNext p a).2 (depth + 1)

/-- `path_depth_cnt`, where the array is not set. -/
def pathDepthCnt (pathname : Str) (junk : Nat → Byte) : Option (NameArray × Nat) :=
  let r := pathParse pathname ⟨junk, []⟩
  depthLoop (pathname.length + 2) r.1 r.2 0

/-- The loop of `search_file`, from round `i` on, when `searched` bytes are in
    `searched_path`. -/
def searchLoop (find : Nat → Option FileType) :
    Nat → Nat → Nat → NameArray → Option Str → Option NameArray
  | 0, _, _, _, _ => none
  | n + 1, i, searched, a, subPath =>
      if a.bytes 0 = 0 then some a
      else if 512 ≤ searched then some a
      else
        -- `strcat` and `search_dir_entry` get the name.
        let b := a.pass.pass
        match find i with
        | none => some b
        | some .regular => some (parseNext subPath b).1
        | some _ => searchLoop find n (i + 1) (searched + 1 + a.str.length) (parseNext subPath b).1
            (parseNext subPath b).2

/-- `search_file`. An assertion ends it as far as the name is concerned. -/
def searchFile (find : Nat → Option FileType) (pathname : Str) : Option NameArray :=
  if pathname = [slash] ∨ pathname = slash :: dotName ∨ pathname = slash :: dotdotName then
    some zeros
  else if pathname.head? = some slash ∧ 1 < pathname.length ∧ pathname.length < maxPathLen then
    let r := zeros.pathParse pathname
    searchLoop find (pathname.length + 2) 0 0 r.1 r.2
  else
    some zeros

/-- The path without its last component: the last slash ends it, unless it is
    the first byte. -/
def cutLast (newAbsPath : Str) : Str :=
  let upTo := (newAbsPath.reverse.dropWhile (· != slash)).reverse
  if upTo.length = 1 then upTo else upTo.dropLast

/-- What `wash_path` does with a name. -/
def washName (a : NameArray) (newAbsPath : Str) : NameArray × Str :=
  let a := a.pass
  if a.str = dotdotName then
    (a, cutLast newAbsPath)
  else
    let a := a.pass
    if a.str = dotName then (a, newAbsPath)
    else (a.pass, (if newAbsPath = [slash] then [slash] else newAbsPath ++ [slash]) ++ a.str)

/-- The loop of `wash_path`. -/
def washLoop : Nat → NameArray → Option Str → Str → Option (NameArray × Str)
  | 0, _, _, _ => none
  | n + 1, a, subPath, newAbsPath =>
      if a.bytes 0 = 0 then some (a, newAbsPath)
      else
        let r := washName a newAbsPath
        washLoop n (parseNext subPath r.1).1 (parseNext subPath r.1).2 r.2

/-- `wash_path`: the array and the path without dots. A path that does not
    begin with a slash fails the assertion. -/
def washPath (oldAbsPath : Str) : Option (NameArray × Str) :=
  if oldAbsPath.head? = some slash then
    let r := zeros.pathParse oldAbsPath
    washLoop (oldAbsPath.length + 2) r.1 r.2 [slash]
  else
    some (zeros, [])

end NameArray

end ForikOS
