import ForikOS.Core.FileSys

/-!
# Tasks That Use the File System

Any number of kernel threads and user processes make system calls on files and
directories, one after another and in any order.

A directory that `sys_opendir` has returned is a handle of the caller until
`sys_closedir`; the handles are kept in a list, since only the caller knows
them. `open_inodes`, `file_table` and the working directories are part of the
file system.

## Main definitions

* `FsWorld`: The file system and the directory handles.
* `FsCall`: The calls.
* `fsStep`, `fsInit`, `fsCallSystem`: A call, the start, and the runs.
* `openPath`: How `sys_open` follows a path.
-/

namespace ForikOS

/-- The file system, and the directory handles with the tasks they belong
    to. -/
structure FsWorld where
  fs : Fs
  dirs : List (Nat × Dir)

/-- The calls by a task. A handle is closed by its place in the list. -/
inductive FsCall
  | open (t : Nat) (pathname : Str) (flags : Nat)
  | close (t : Nat) (fd : Int)
  | write (t : Nat) (fd : Int) (buf : Nat → Byte) (count : Nat)
  | read (t : Nat) (fd : Int) (buf : Option (Nat → Byte)) (count : Nat)
  | lseek (t : Nat) (fd offset : Int) (whence : Nat)
  | mkdir (t : Nat) (pathname : Str)
  | unlink (t : Nat) (pathname : Str)
  | rmdir (t : Nat) (pathname : Str)
  | stat (t : Nat) (path : Str)
  | chdir (t : Nat) (path : Str)
  | getcwd (t size : Nat)
  | opendir (t : Nat) (name : Str)
  | closedir (k : Nat)

/-- A call that opens no handle. -/
def FsWorld.call {α : Type} (w : FsWorld) (x : FsM α) : Except FsFault FsWorld :=
  match x.run w.fs with
  | .error e => .error e
  | .ok (_, fs) => .ok { w with fs := fs }

/-- One call. -/
def fsStep (w : FsWorld) : FsCall → Except FsFault FsWorld
  | .open t pathname flags => w.call (sysOpen t pathname flags)
  | .close t fd => w.call (sysClose t fd)
  | .write t fd buf count => w.call (sysWrite t fd buf count)
  | .read t fd buf count => w.call (sysRead t fd buf count)
  | .lseek t fd offset whence => w.call (sysLseek t fd offset whence)
  | .mkdir t pathname => w.call (sysMkdir t pathname)
  | .unlink t pathname => w.call (sysUnlink t pathname)
  | .rmdir t pathname => w.call (sysRmdir t pathname)
  | .stat t path => w.call (sysStat t path)
  | .chdir t path => w.call (sysChdir t path)
  | .getcwd t size => w.call (sysGetcwd t size)
  | .opendir t name =>
      match (sysOpendir t name).run w.fs with
      | .error e => .error e
      | .ok (none, fs) => .ok { w with fs := fs }
      | .ok (some d, fs) => .ok ⟨fs, (t, d) :: w.dirs⟩
  | .closedir k =>
      match w.dirs[k]? with
      | none => .ok w
      | some (t, d) =>
          match (sysClosedir t d).run w.fs with
          | .error e => .error e
          | .ok (_, fs) => .ok ⟨fs, w.dirs.eraseIdx k⟩

/-- Only a handle that is open is closed. -/
def fsEnabled (w : FsWorld) : FsCall → Prop
  | .closedir k => k < w.dirs.length
  | _ => True

/-- The file system is mounted, from whatever is on the disk, with no inode in
    memory before that, and nothing has been called. -/
def fsInit (w : FsWorld) : Prop :=
  (∃ t s u, (∀ a, s.home a = .freed) ∧ (filesysInit t).run s = .ok (u, w.fs)) ∧ w.dirs = []

/-- Tasks that use the file system. -/
def fsCallSystem : System FsWorld FsCall FsFault where
  init := fsInit
  enabled := fsEnabled
  step := fsStep

instance (w : FsWorld) (e : FsCall) : Decidable (fsCallSystem.enabled w e) :=
  match e with
  | .closedir k => inferInstanceAs (Decidable (k < w.dirs.length))
  | .open _ _ _ | .close _ _ | .write _ _ _ _ | .read _ _ _ _ | .lseek _ _ _ _ | .mkdir _ _
  | .unlink _ _ | .rmdir _ _ | .stat _ _ | .chdir _ _ | .getcwd _ _ | .opendir _ _ => isTrue trivial

/-- How `sys_open` follows a path: the number at its end, the record of the
    search, and whether the search got to the end. -/
def openPath (t : Nat) (pathname : Str) : FsM (Nat × PathSearchRecord × Bool) := do
  let pathnameDepth ← pathDepthCnt pathname
  let (inodeNo, r) ← searchFile t pathname
  let pathSearchedDepth ← pathDepthCnt r.searchedPath
  pure (inodeNo, r, decide (pathnameDepth = pathSearchedDepth))

end ForikOS
