import ForikOS.Core.CString
import ForikOS.Core.Memory

/-!
# The Command Line

`readline` and `cmd_parse` of `shell/shell.c`: a line is typed, and it is split
into the arguments of a command.

`readline` puts every key in memory before it looks at it. The keys are those
that `read` will return from the keyboard, and where there is none left it
waits for ever. What the function writes to the screen is a list of the calls
it makes.

`cmd_parse` cuts the line in place: the separator behind a word becomes a zero,
and the array of arguments gets the address of the word. That array has sixteen
elements in the source. Here it has no end, so that a write behind the
sixteenth can be seen. The memory with the line and the array of arguments are
different objects.

A loop over a string that has no end stops after as many steps as there are
addresses, and has no answer.

## Main definitions

* `Line`: The line that is being typed, with the cursor and the screen.
* `readline`: `readline`, with the address of `cmd_line`.
* `cmdParse`: `cmd_parse`.
-/

namespace ForikOS

/-- `'\b'`. -/
def backspace : Byte := 0x08

/-- `'\n'`. -/
def newline : Byte := 0x0a

/-- `'\r'`. -/
def carriageReturn : Byte := 0x0d

/-- `'l' - 'a'`. -/
def ctrlL : Byte := 0x6c - 0x61

/-- `'u' - 'a'`. -/
def ctrlU : Byte := 0x75 - 0x61

/-- What is written to the screen: `putchar`, `clear`, `print_prompt`,
    `printf("%s", buf)` with the string, and the message about the missing key. -/
inductive Echo
  | putchar (c : Byte)
  | clear
  | prompt
  | text (s : Str)
  | noEnterKey
  deriving DecidableEq, Repr

/-- The memory, the cursor `pos`, and what has been written to the screen. -/
structure Line where
  mem : Nat → Byte
  pos : Nat
  echo : List Echo

namespace Line

/-- `*pos = c`. -/
def store (l : Line) (c : Byte) : Line := { l with mem := Function.update l.mem l.pos c }

/-- A call that writes to the screen. -/
def write (l : Line) (e : Echo) : Line := { l with echo := l.echo ++ [e] }

/-- `while (buf != pos) { putchar('\b'); *(pos--) = 0; }`. -/
def erase (buf : Nat) : Nat → Line → Option Line
  | 0, _ => none
  | fuel + 1, l =>
      if buf ≠ l.pos then
        let l := (l.write (.putchar backspace)).store 0
        erase buf fuel { l with pos := l.pos - 1 }
      else
        some l

/-- The `switch`, for a key that does not end the line. -/
def key (cmdLine buf : Nat) (l : Line) : Option Line :=
  if l.mem l.pos = backspace then
    -- the line counts as empty when its first byte is this key
    if l.mem cmdLine ≠ backspace then
      some ({ l with pos := l.pos - 1 }.write (.putchar backspace))
    else
      some l
  else if l.mem l.pos = ctrlL then
    -- the zero ends the string that is printed again
    let l := ((l.store 0).write .clear).write .prompt
    (stringAt l.mem buf).map (fun s => l.write (.text s))
  else if l.mem l.pos = ctrlU then
    erase buf (2 ^ 32) l
  else
    let l := l.write (.putchar (l.mem l.pos))
    some { l with pos := l.pos + 1 }

/-- The loop of `readline`. It leaves the keys that it has not read. -/
def loop (cmdLine buf : Nat) (count : Word) : Str → Line → Option (Line × Str)
  | [], _ => none
  | c :: keys, l =>
      -- `read` puts the key at the cursor before there is a test
      let l := l.store c
      if (l.pos : Int) - buf < count.toInt then
        if l.mem l.pos = newline ∨ l.mem l.pos = carriageReturn then
          some ((l.store 0).write (.putchar newline), keys)
        else
          (key cmdLine buf l).bind (loop cmdLine buf count keys)
      else
        some (l.write .noEnterKey, keys)

end Line

/-- `readline`. A null pointer and a count that is not positive fail the
    assertion. -/
def readline (cmdLine : Nat) (mem : Nat → Byte) (buf : Nat) (count : Word) (keys : Str) :
    Option (Line × Str) :=
  if buf ≠ 0 ∧ 0 < count.toInt then Line.loop cmdLine buf count keys ⟨mem, buf, []⟩ else none

/-- `MAX_ARG_NR`. -/
def maxArgNr : Nat := 16

/-- What `cmd_parse` returns, and what it leaves behind. -/
structure Parsed where
  ret : Int
  cmdStr : Nat → Byte
  argv : Nat → Option Nat

/-- The first loop: the first `n` arguments become `NULL`. -/
def clearArgs (argv : Nat → Option Nat) : Nat → Nat → Option Nat
  | 0 => argv
  | n + 1 => Function.update (clearArgs argv n) n none

/-- `while (*next == token)`. -/
def skipToken (cmdStr : Nat → Byte) (token : Byte) : Nat → Nat → Option Nat
  | 0, _ => none
  | fuel + 1, next =>
      if cmdStr next = token then skipToken cmdStr token fuel (next + 1) else some next

/-- `while (*next && *next != token)`. -/
def skipWord (cmdStr : Nat → Byte) (token : Byte) : Nat → Nat → Option Nat
  | 0, _ => none
  | fuel + 1, next =>
      if cmdStr next ≠ 0 ∧ cmdStr next ≠ token then skipWord cmdStr token fuel (next + 1)
      else some next

/-- The outer loop. The number of arguments is tested after the argument has
    been stored. -/
def cmdParseLoop (token : Byte) : Nat → (Nat → Byte) → (Nat → Option Nat) → Nat → Nat → Option Parsed
  | 0, _, _, _, _ => none
  | fuel + 1, cmdStr, argv, next, argc =>
      if cmdStr next = 0 then
        some ⟨argc, cmdStr, argv⟩
      else
        (skipToken cmdStr token (2 ^ 32) next).bind (fun next =>
          if cmdStr next = 0 then
            some ⟨argc, cmdStr, argv⟩
          else
            let argv := Function.update argv argc (some next)
            -- the word lies from `argv[argc]` up to `next`
            (skipWord cmdStr token (2 ^ 32) next).bind (fun next =>
              -- `if (*next) *next++ = 0;`
              let cut := if cmdStr next ≠ 0 then Function.update cmdStr next 0 else cmdStr
              let rest := if cmdStr next ≠ 0 then next + 1 else next
              if maxArgNr < argc then
                some ⟨-1, cut, argv⟩
              else
                cmdParseLoop token fuel cut argv rest (argc + 1)))

/-- `cmd_parse`. -/
def cmdParse (cmd : Nat → Byte) (cmdStr : Nat) (argv : Nat → Option Nat) (token : Byte) :
    Option Parsed :=
  cmdParseLoop token (2 ^ 32) cmd (clearArgs argv maxArgNr) cmdStr 0

end ForikOS
