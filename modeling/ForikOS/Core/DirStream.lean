import ForikOS.Core.FileSys
import ForikOS.Lib.Interleave

/-!
# Directory Streams

`sys_opendir`, `sys_readdir`, `sys_rewinddir` and `sys_closedir` of `fs/fs.c`
and `dir_read` of `fs/dir.c`.

A `struct dir` holds the place in the directory and the buffer for one of its
blocks. `dir_open` allocates one for every call, but for the path `"/"`
`sys_opendir` returns `&root_dir`, which there is once. The object of a user
process lies in the memory of the process, and no other process has a pointer
to it. A pointer is used between `sys_opendir` and `sys_closedir`, so an object
that has been freed is not looked at again, and a new one has an address of
its own.

`dir_read` works on one object and on the file system. It may wait for the
disk, for the table of indirect blocks and for each block, and what it has read
of the object before may be different afterwards. The entry it returns is a
pointer into the buffer; the model returns what is there.

## Main definitions

* `DirPtr`, `DirStream`, `DirFs`: The objects, and the file system with them.
* `scanBuf`, `readdirBlocks`, `dirRead`: `dir_read`.
* `sysOpendirPtr`, `sysReaddir`, `sysRewinddir`, `sysClosedirPtr`: The calls.
* `StreamCall`, `streamSystem`: Tasks that use directory streams.
* `DirOp`, `dirOps`: What a task does with a handle.
-/

namespace ForikOS

/-- A pointer to a `struct dir`: `&root_dir`, or what `dir_open` has
    allocated. -/
inductive DirPtr
  | root
  | heap (n : Nat)
  deriving DecidableEq

/-- `struct dir`. -/
structure DirStream where
  inode : Nat
  dirPos : Nat
  dirBuf : Nat → Byte

/-- The file system and the objects. -/
structure DirFs where
  fs : Fs
  dir : DirPtr → DirStream
  nextDir : Nat

/-- The file system and one of the objects. -/
abbrev StreamM := Prog (Fs × DirStream) FsFault

/-- The file system and all of them. -/
abbrev DirM := Prog DirFs FsFault

/-- The file system, beside an object. -/
def besideStream : View (Fs × DirStream) Fs where
  get s := s.1
  set fs s := (fs, s.2)
  get_set _ _ := rfl

/-- The file system, beside all of them. -/
def besideStreams : View DirFs Fs where
  get s := s.fs
  set fs s := { s with fs := fs }
  get_set _ _ := rfl

/-- What a pointer leads to, and the file system. -/
def streamView (d : DirPtr) : View DirFs (Fs × DirStream) where
  get s := (s.fs, s.dir d)
  set w s := { s with fs := w.1, dir := Function.update s.dir d w.2 }
  get_set w s := congrArg (w.1, ·) (Function.update_self d w.2 s.dir)

/-- `dir->dir_buf` from now on. -/
def setDirBuf (b : Nat → Byte) : StreamM Unit :=
  Prog.modify (fun s => (s.1, { s.2 with dirBuf := b }))

/-- The loop of `dir_read` over the `n` entries of a block from `j` on: it
    passes by those before the place in the directory. What it returns is
    `cur_dir_entry_pos` and the entry it stops at. -/
def scanBuf (buf : Nat → Byte) (dirPos : Nat) : Nat → Nat → Nat → Nat × Option Nat
  | 0, _, cur => (cur, none)
  | n + 1, j, cur =>
      if (decodeEntry buf (dirEntrySize * j)).fType = .unknown then
        scanBuf buf dirPos n (j + 1) cur
      else if cur < dirPos then
        scanBuf buf dirPos n (j + 1) (cur + dirEntrySize)
      else
        (cur, some j)

/-- The loop of `dir_read` over the `n` blocks from `blockIdx` on. -/
def readdirBlocks (t a : Nat) (all : Nat → Nat) : Nat → Nat → Nat → StreamM (Option DirEntry)
  | 0, _, _ => pure none
  | n + 1, blockIdx, cur => do
      let i ← Prog.focus besideStream (inodeAt t a)
      let dirPos ← Prog.read (fun s => s.2.dirPos)
      if i.iSize ≤ dirPos then
        pure none
      else if all blockIdx = 0 then
        readdirBlocks t a all n (blockIdx + 1) cur
      else do
        setDirBuf (fun _ => 0)
        let buf ← Prog.focus besideStream (ideRead (all blockIdx) 1)
        setDirBuf buf
        -- another task may have moved the place during the wait
        let dirPos ← Prog.read (fun s => s.2.dirPos)
        match scanBuf buf dirPos entriesPerSec 0 cur with
        | (cur, none) => readdirBlocks t a all n (blockIdx + 1) cur
        | (cur, some j) => do
            Prog.check (cur = dirPos) (.assertion .dirRead)
            Prog.modify (fun s => (s.1, { s.2 with dirPos := add32 dirPos dirEntrySize }))
            pure (some (decodeEntry buf (dirEntrySize * j)))

/-- `dir_read` by task `t`. -/
def dirRead (t : Nat) : StreamM (Option DirEntry) := do
  let a ← Prog.read (fun s => s.2.inode)
  let i ← Prog.focus besideStream (inodeAt t a)
  let all ← Prog.focus besideStream (readAllBlocks i)
  let _ ← Prog.focus besideStream sbDirEntrySize
  readdirBlocks t a all (if i.iSectors 12 ≠ 0 then 140 else 12) 0 0

/-- `sys_opendir` by task `t`. `none` is a null pointer. -/
def sysOpendirPtr (t : Nat) (name : Str) : DirM (Option DirPtr) := do
  let d ← Prog.focus besideStreams (sysOpendir t name)
  match d with
  | none => pure none
  | some d =>
      if d.isRoot = true then
        pure (some .root)
      else do
        let n ← Prog.read (fun s => s.nextDir)
        Prog.modify (fun s =>
          { s with
            dir := Function.update s.dir (.heap n)
              ⟨d.inode, 0, (s.dir (.heap n)).dirBuf⟩
            nextDir := n + 1 })
        pure (some (.heap n))

/-- `sys_readdir` by task `t`. -/
def sysReaddir (t : Nat) : Option DirPtr → DirM (Option DirEntry)
  | none => Prog.fail (.assertion .sysReaddir)
  | some d => Prog.focus (streamView d) (dirRead t)

/-- `sys_rewinddir`. -/
def sysRewinddir : Option DirPtr → DirM Unit
  | none => Prog.fail .wild
  | some d => Prog.focus (streamView d)
      (Prog.modify (fun s => (s.1, { s.2 with dirPos := 0 })))

/-- `sys_closedir` by task `t`. -/
def sysClosedirPtr (t : Nat) : Option DirPtr → DirM Int
  | none => pure (-1)
  | some d => do
      let a ← Prog.read (fun s => (s.dir d).inode)
      Prog.focus besideStreams (sysClosedir t ⟨a, decide (d = .root)⟩)

/-- The calls that use a directory stream, and any other use of the file
    system. -/
inductive StreamCall
  | opendir (t : Nat) (name : Str)
  | readdir (t : Nat) (d : Option DirPtr)
  | rewinddir (d : Option DirPtr)
  | closedir (t : Nat) (d : Option DirPtr)
  | other (x : FsM Unit)

/-- The program of a call. -/
def StreamCall.prog : StreamCall → DirM Unit
  | .opendir t name => sysOpendirPtr t name >>= fun _ => pure ()
  | .readdir t d => sysReaddir t d >>= fun _ => pure ()
  | .rewinddir d => sysRewinddir d
  | .closedir t d => sysClosedirPtr t d >>= fun _ => pure ()
  | .other x => Prog.focus besideStreams x

/-- One call. -/
def streamStep (s : DirFs) (c : StreamCall) : Except FsFault DirFs :=
  (c.prog.run s).map Prod.snd

/-- Tasks that use directory streams, from some state on. -/
def streamSystem (s₀ : DirFs) : System DirFs StreamCall FsFault where
  init s := s = s₀
  enabled _ _ := True
  step := streamStep

/-- What a task does with a handle. -/
inductive DirOp
  | readdir
  | rewinddir
  deriving DecidableEq

/-- A task that uses a handle again and again. Between two calls other tasks
    may run. The result is what the calls of `sys_readdir` have returned. -/
def dirOps (t : Nat) (d : DirPtr) : List DirOp → DirM (List (Option DirEntry))
  | [] => pure []
  | .readdir :: ops => do
      let e ← sysReaddir t (some d)
      Prog.pause
      let es ← dirOps t d ops
      pure (e :: es)
  | .rewinddir :: ops => do
      sysRewinddir (some d)
      Prog.pause
      dirOps t d ops

end ForikOS
