import ForikOS.Theory.FsCalls
import ForikOS.Core.Fork

/-!
# Bad Descriptors

What `sys_close`, `sys_read`, `sys_write` and `sys_lseek` do with a descriptor
that is none.

All four find a negative one, but `sys_read` asserts before that the buffer is
not null. What else they find are standard streams they do
not serve: `sys_close` and `sys_read` by number, `sys_write` since the slot of
`file_table` with that number is never open for writing. `sys_lseek` follows
the null pointer in such a slot. For every other number `fd_local2global` reads
`fd_table` there, be it behind its end, and an assertion stops the machine at
what is not the number of a slot.

What lies behind `fd_table` is not known to the caller, so a call that refuses
a descriptor does so whatever is there (`Refused`).

## Main definitions

* `FdCall`: The four calls.
* `StdFds`: The standard streams of the tasks, and the slots they name.
* `BadFd`, `Refused`: A descriptor that is none, and how it is to be treated.

## Theorems

* `stdFds_fsStep`, `stdFds_reachable`: The calls leave the streams alone.
* `refused_of_std`, `not_refused`: The descriptors that are refused, and those
  that are not.
* `badFd_refused_iff`: Which bad descriptors a call refuses.
* `close_free_fd_panics`: A descriptor that is not open.
-/

namespace ForikOS

open Prog

/-- The calls on a descriptor, with their other arguments. The buffer of a read
    may be null. -/
inductive FdCall
  | close
  | read (dst : Option (Nat → Byte)) (count : Nat)
  | write (buf : Nat → Byte) (count : Nat)
  | lseek (offset : Int) (whence : Nat)

/-- The call by task `t`, and what it returns. -/
def FdCall.prog (t : Nat) (fd : Int) : FdCall → FsM Int
  | .close => sysClose t fd
  | .read dst count => do
      let (n, _) ← sysRead t fd dst count
      pure n
  | .write buf count => sysWrite t fd buf count
  | .lseek offset whence => sysLseek t fd offset whence

/-- The standard streams a call serves. -/
def FdCall.Serves : FdCall → Int → Prop
  | .read _ _, fd => fd = 0
  | .write _ _, fd => fd = 1
  | .close, _ => False
  | .lseek _ _, _ => False

/-- The standard streams of every task are its first three descriptors, and
    the slots with these numbers are never taken. -/
structure StdFds (s : Fs) : Prop where
  fds : ∀ t k, k < 3 → s.fdTable t k = k
  free : ∀ g, g < 3 → (s.fileTable g).fdInode = none
  flags : ∀ g, g < 3 → (s.fileTable g).fdFlag = 0

/-- A descriptor that is not open, or a stream the call does not serve. -/
def BadFd (s : Fs) (t : Nat) (c : FdCall) (fd : Int) : Prop :=
  fd < 0 ∨ maxFilesOpenPerProc ≤ fd ∨ s.fdTable t fd.toNat = -1 ∨ (fd ≤ 2 ∧ ¬ c.Serves fd)

/-- The same state, with other memory behind `fd_table` of task `t`. -/
def Fs.setBehind (s : Fs) (t : Nat) (g : Nat → Int) : Fs :=
  { s with
    fdTable := Function.update s.fdTable t
      (fun k => if k < maxFilesOpenPerProc then s.fdTable t k else g k) }

/-- The call returns `-1`, whatever lies behind `fd_table`, and the two tables,
    the inodes and the disk are as before. -/
def Refused (s : Fs) (t : Nat) (c : FdCall) (fd : Int) : Prop :=
  ∀ g, ∃ s', (c.prog t fd).run (s.setBehind t g) = .ok (-1, s') ∧
    s'.fileTable = (s.setBehind t g).fileTable ∧ s'.fdTable = (s.setBehind t g).fdTable ∧
    s'.inode = (s.setBehind t g).inode ∧ s'.disk = (s.setBehind t g).disk

section Streams

variable {s s' : Fs} {t : Nat}

/-- Only the two tables matter. -/
theorem StdFds.congr (h : StdFds s) (hfd : s'.fdTable = s.fdTable)
    (hslots : ∀ g, (s'.fileTable g).fdInode = (s.fileTable g).fdInode ∧
      (s'.fileTable g).fdFlag = (s.fileTable g).fdFlag) : StdFds s' where
  fds t k hk := by rw [hfd]; exact h.fds t k hk
  free g hg := (hslots g).1.trans (h.free g hg)
  flags g hg := (hslots g).2.trans (h.flags g hg)

theorem StdFds.setFile (h : StdFds s) {g : Nat} (hg : 3 ≤ g) (f : File) : StdFds (s.setFile g f) where
  fds := h.fds
  free x hx := by rw [setFile_of_ne s (by omega)]; exact h.free x hx
  flags x hx := by rw [setFile_of_ne s (by omega)]; exact h.flags x hx

theorem StdFds.setFd (h : StdFds s) {k : Nat} (hk : 3 ≤ k) (g : Int) : StdFds (s.setFd t k g) where
  fds u j hj := by rw [setFd_of_ne s (by omega)]; exact h.fds u j hj
  free := h.free
  flags := h.flags

/-- The streams of every task are as they are to be, if they were. -/
def StdKept (s s' : Fs) : Prop := StdFds s → StdFds s'

instance : IsPreorder Fs StdKept where
  refl _ h := h
  trans _ _ _ h h' hs := h' (h hs)

theorem stdKept_of_framed {α : Type} {x : FsM α} (h : Within Framed x) : Within StdKept x :=
  within_mono h (fun _ _ hf hs => hs.congr hf.fdTable hf.slots)

theorem stdKept_of_quiet {α : Type} {x : FsM α} (h : Within Quiet x) : Within StdKept x :=
  stdKept_of_framed (framed_of_quiet h)

/-- A change of anything but the two tables. -/
theorem stdKept_modify {f : Fs → Fs} (hfd : ∀ s, (f s).fdTable = s.fdTable)
    (hft : ∀ s, (f s).fileTable = s.fileTable) : Within StdKept (Prog.modify f : FsM Unit) :=
  within_modify (fun s hs => hs.congr (hfd s) (fun g => by rw [hft s]; exact ⟨rfl, rfl⟩))

theorem stdKept_setFile {g : Nat} (hg : 3 ≤ g) (f : Fs → File) :
    Within StdKept (Prog.modify (fun s => s.setFile g (f s)) : FsM Unit) :=
  within_modify (fun _ hs => hs.setFile hg _)

theorem stdKept_pcbFdInstall (t g : Nat) : Within StdKept (pcbFdInstall t g) := by
  intro s r s' hr hs
  rcases pcbFdInstall_run hr with ⟨-, rfl⟩ | ⟨k, -, hk, -, -, rfl⟩
  · exact hs
  · exact hs.setFd hk _

/-- A slot that is free is none of the streams'. -/
theorem stdKept_freeSlot {α : Type} {f : Option Nat → FsM α} (hnone : Within StdKept (f none))
    (hsome : ∀ g, 3 ≤ g → Within StdKept (f (some g))) :
    Within StdKept (getFreeSlotInGlobal >>= f) := by
  intro s r s' hr
  rcases run_bind_ok.mp hr with ⟨g, s₁, h₁, k₁⟩
  rcases read_ok h₁ with ⟨hg, rfl⟩
  cases g with
  | none => exact hnone _ _ _ k₁
  | some g => exact hsome g ((freeSlotFrom_first _).of_some hg.symm).1 _ _ _ k₁

theorem stdKept_fileOpen (t n flag : Nat) : Within StdKept (fileOpen t n flag) := by
  -- The slot that is filled is free, so it is none of the first three.
  refine stdKept_freeSlot within_pure (fun g hg => within_bind
    (stdKept_of_framed (framed_of_looked (looked_inodeOpen t n))) (fun a => ?_))
  refine within_bind (stdKept_setFile hg _) (fun _ => within_ite ?_ (stdKept_pcbFdInstall t g))
  exact within_bind (stdKept_of_quiet (quiet_inodeAt t a)) (fun i => within_ite within_pure
    (within_bind (stdKept_modify (fun _ => rfl) (fun _ => rfl))
      (fun _ => stdKept_pcbFdInstall t g)))

theorem stdKept_fileCreated (t : Nat) (d : Dir) (n a g : Nat) :
    Within StdKept (fileCreated t d n a g) := by
  refine within_bind (stdKept_of_quiet (quiet_inodeAt t _)) (fun _ => ?_)
  refine within_bind (stdKept_of_framed (framed_of_stored
    (storing_inodeSync storing_stored.any _ _))) (fun _ => ?_)
  refine within_bind (stdKept_of_quiet (quiet_inodeAt t _)) (fun _ => ?_)
  refine within_bind (stdKept_of_framed (framed_of_stored
    (storing_inodeSync storing_stored.any _ _))) (fun _ => ?_)
  refine within_bind (stdKept_of_framed (framed_of_stored
    (storing_bitmapSync storing_stored.any _ _))) (fun _ => ?_)
  refine within_bind (stdKept_modify (fun _ => rfl) (fun _ => rfl)) (fun _ => ?_)
  exact within_bind (stdKept_modify (fun _ => rfl) (fun _ => rfl)) (fun _ =>
    stdKept_pcbFdInstall t g)

theorem stdKept_fileCreateEntry {g : Nat} (hg : 3 ≤ g) (t : Nat) (d : Dir) (name : Str)
    (flag n a : Nat) : Within StdKept (fileCreateEntry t d name flag n a g) := by
  refine within_bind (stdKept_setFile hg _) (fun _ => ?_)
  refine within_bind (stdKept_of_quiet (quiet_createDirEntry _ _ _)) (fun _ => ?_)
  refine within_bind (stdKept_of_framed (framed_of_stored
    (storing_syncDirEntry storing_stored _ _ _))) (fun _ => ?_)
  refine within_ite (stdKept_fileCreated t d n a g) ?_
  refine within_bind (stdKept_setFile hg _) (fun _ => ?_)
  refine within_bind (stdKept_modify (fun _ => rfl) (fun _ => rfl)) (fun _ => ?_)
  exact within_bind (stdKept_modify (fun _ => rfl) (fun _ => rfl)) (fun _ => within_pure)

theorem stdKept_fileCreateInode (t : Nat) (d : Dir) (name : Str) (flag n : Nat) :
    Within StdKept (fileCreateInode t d name flag n) := by
  have hfree : ∀ {α : Type} (a : Nat) (r : α), Within StdKept
      (freeInode a >>= fun _ => freeInodeNo n >>= fun _ => (pure r : FsM α)) := fun a r =>
    within_bind (stdKept_modify (fun _ => rfl) (fun _ => rfl)) (fun _ =>
      within_bind (stdKept_modify (fun _ => rfl) (fun _ => rfl)) (fun _ => within_pure))
  refine within_bind (stdKept_of_quiet quiet_malloc) (fun _ => within_ite ?_ ?_)
  · refine within_read_bind (fun home => ?_)
    refine within_bind (within_read_bind (fun a => within_bind
      (stdKept_modify (fun _ => rfl) (fun _ => rfl)) (fun _ => within_pure))) (fun a => ?_)
    refine within_bind (stdKept_modify (fun _ => rfl) (fun _ => rfl)) (fun _ => ?_)
    exact stdKept_freeSlot (hfree a _) (fun g hg => stdKept_fileCreateEntry hg t d name flag n a)
  · exact within_bind (stdKept_modify (fun _ => rfl) (fun _ => rfl)) (fun _ => within_pure)

theorem stdKept_fileCreate (t : Nat) (d : Dir) (name : Str) (flag : Nat) :
    Within StdKept (fileCreate t d name flag) := by
  refine within_bind (stdKept_of_quiet quiet_malloc) (fun _ => within_ite ?_ within_pure)
  refine within_bind (stdKept_of_framed (framed_of_stored stored_inodeBitmapAlloc)) (fun n => ?_)
  cases n with
  | none => exact within_pure
  | some n => exact stdKept_fileCreateInode t d name flag n

theorem stdKept_sysOpen (t : Nat) (p : Str) (flags : Nat) : Within StdKept (sysOpen t p flags) := by
  intro s r s' hr
  have hpath : Within StdKept (openPath t p) :=
    stdKept_of_framed (framed_of_looked (looked_openPath t p))
  rcases sysOpen_cases hr with ⟨-, hlook, -⟩ | ⟨n, rec, s₁, hrun, -, -, -, hopen⟩ |
    ⟨rec, s₁, s₂, u, hrun, -, -, hcreate, hclose⟩
  · exact fun hs => hs.congr hlook.framed.fdTable hlook.framed.slots
  · exact IsTrans.trans _ _ _ (hpath _ _ _ hrun) (stdKept_fileOpen _ _ _ _ _ _ hopen)
  · exact IsTrans.trans _ _ _ (hpath _ _ _ hrun)
      (IsTrans.trans _ _ _ (stdKept_fileCreate _ _ _ _ _ _ _ hcreate)
        (stdKept_of_framed (framed_of_looked (looked_dirClose _ _)) _ _ _ hclose))

/-- A slot that is closed holds an inode, so it is none of the streams'. -/
theorem stdKept_sysClose (t : Nat) (fd : Int) : Within StdKept (sysClose t fd) := by
  intro s r s' hr hs
  rcases sysClose_steps hr with ⟨-, rfl⟩ | ⟨hfd, g, s₁, -, -, hclose, rfl⟩
  · exact hs
  · rcases fileClose_steps hclose with ⟨a, s₂, hslot, hinode, rfl⟩
    -- A standard stream has no inode, and `file_close` would have found none.
    have hg : 3 ≤ g := by
      by_contra hlt
      rw [hs.free g (by omega)] at hslot
      cases hslot
    have hlook := (looked_inodeClose _ _ _ _ _ hinode).framed
    have hs₂ : StdFds s₂ := hs.congr hlook.fdTable hlook.slots
    exact (hs₂.setFile hg _).setFd (by omega) _

end Streams

section Runs

/-- The tasks that use the file system, when their streams are set. -/
def stdSystem : System FsWorld FsCall FsFault :=
  { fsCallSystem with init := fun w => fsInit w ∧ StdFds w.fs }

variable {w w' : FsWorld}

/-- Every call leaves the streams of every task alone. -/
theorem stdFds_fsStep {e : FsCall} (h : StdFds w.fs) (hs : fsStep w e = .ok w') : StdFds w'.fs := by
  have hcall : ∀ {α : Type} {x : FsM α}, Within StdKept x → w.call x = .ok w' → StdFds w'.fs := by
    intro α x hx hx'
    rcases call_ok hx' with ⟨a, hrun, -⟩
    exact hx _ _ _ hrun h
  have hframed : ∀ {α : Type} {x : FsM α}, Within Framed x → w.call x = .ok w' → StdFds w'.fs :=
    fun hx => hcall (stdKept_of_framed hx)
  cases e with
  | «open» t p flags => exact hcall (stdKept_sysOpen t p flags) hs
  | close t fd => exact hcall (stdKept_sysClose t fd) hs
  | write t fd buf count => exact hframed (framed_of_moved (moved_sysWrite t fd buf count)) hs
  | read t fd buf count => exact hframed (framed_of_moved (moved_sysRead t fd buf count)) hs
  | lseek t fd offset whence => exact hframed (framed_of_moved (moved_sysLseek t fd offset whence)) hs
  | mkdir t p => exact hframed (framed_sysMkdir t p) hs
  | unlink t p => exact hframed (framed_sysUnlink t p) hs
  | rmdir t p => exact hframed (framed_sysRmdir t p) hs
  | stat t p => exact hframed (framed_of_looked (looked_sysStat t p)) hs
  | chdir t p => exact hframed (framed_sysChdir t p) hs
  | getcwd t size => exact hframed (framed_of_looked (looked_sysGetcwd t size)) hs
  | opendir t p =>
      rcases opendir_ok hs with ⟨r, hrun, -⟩
      exact stdKept_of_framed (framed_of_looked (looked_sysOpendir t p)) _ _ _ hrun h
  | closedir k =>
      rcases closedir_ok hs with rfl | ⟨t, d, u, -, hrun, -⟩
      · exact h
      · exact stdKept_of_framed (framed_of_looked (looked_sysClosedir t d)) _ _ _ hrun h

/-- In every run the streams stay as they are set at the start. -/
theorem stdFds_reachable (h : stdSystem.Reachable w) : StdFds w.fs :=
  System.invariant_of_step stdSystem (fun w => StdFds w.fs) (fun _ h0 => h0.2)
    (fun _ _ _ hinv _ hs => stdFds_fsStep hinv hs) w h

/-- A child has the streams of its parent. -/
theorem StdFds.inheritFds {s : Fs} (h : StdFds s) (child parent : Nat) :
    StdFds (inheritFds s child parent) where
  fds t k hk := by
    show Function.update s.fdTable child (s.fdTable parent) t k = k
    by_cases ht : t = child
    · rw [ht, Function.update_self]
      exact h.fds parent k hk
    · rw [Function.update_of_ne ht]
      exact h.fds t k hk
  free := h.free
  flags := h.flags

end Runs

section Calls

variable {s : Fs} {t : Nat} {c : FdCall} {fd : Int}

theorem StdFds.setBehind (h : StdFds s) (t : Nat) (g : Nat → Int) : StdFds (s.setBehind t g) where
  fds u k hk := by
    show Function.update s.fdTable t _ u k = k
    by_cases hu : u = t
    · have hmax : maxFilesOpenPerProc = 8 := rfl
      rw [hu, Function.update_self, if_pos (by omega)]
      exact h.fds t k hk
    · rw [Function.update_of_ne hu]
      exact h.fds u k hk
  free := h.free
  flags := h.flags

theorem run_fdLocal2global_neg {k : Nat}
    (hk : ¬ (0 ≤ s.fdTable t k ∧ s.fdTable t k < maxFileOpen)) :
    (fdLocal2global t k).run s = .error (.assertion .fdLocal2global) := by
  rw [fdLocal2global, run_bind_of (run_read _ s)]
  show ((assert _ _ >>= _ : FsM Nat)).run s = _
  rw [run_bind, assert, run_check_neg hk]
  rfl

theorem run_fdLocal2global_pos {k : Nat} (hk : 0 ≤ s.fdTable t k ∧ s.fdTable t k < maxFileOpen) :
    (fdLocal2global t k).run s = .ok ((s.fdTable t k).toNat, s) := by
  rw [fdLocal2global, run_bind_of (run_read _ s), run_bind_of (run_assert hk s)]
  rfl

/-- No call goes on with what is not the number of a slot. -/
theorem prog_fails (h3 : 3 ≤ fd)
    (hk : ¬ (0 ≤ s.fdTable t fd.toNat ∧ s.fdTable t fd.toNat < maxFileOpen)) :
    ∃ e, (c.prog t fd).run s = .error e := by
  have hfail := run_fdLocal2global_neg hk
  have hstop : ∀ {α : Type} (f : Nat → FsM α),
      (fdLocal2global t fd.toNat >>= f).run s = .error (.assertion .fdLocal2global) :=
    fun f => run_bind_error.mpr (Or.inl hfail)
  -- All four calls look the slot up before they do anything else.
  cases c with
  | close =>
      rw [FdCall.prog, sysClose, if_pos (by omega)]
      exact ⟨_, hstop _⟩
  | read buf count =>
      cases buf with
      | none => exact ⟨_, rfl⟩
      | some dst =>
          rw [FdCall.prog, sysRead, sysReadTo, if_neg (by omega), if_neg (by omega)]
          exact ⟨_, run_bind_error.mpr (Or.inl (hstop _))⟩
  | write buf count =>
      rw [FdCall.prog, sysWrite, if_neg (by omega), if_neg (by omega)]
      exact ⟨_, hstop _⟩
  | lseek offset whence =>
      rw [FdCall.prog, sysLseek, if_neg (by omega)]
      by_cases hw : 0 < whence ∧ whence < 4
      · rw [run_bind_of (run_assert hw s)]
        exact ⟨_, hstop _⟩
      · exact ⟨_, run_bind_error.mpr (Or.inl (run_check_neg hw s))⟩

/-- `sys_lseek` on a standard stream follows a null pointer. -/
theorem lseek_std_fails (h : StdFds s) (h0 : 0 ≤ fd) (h3 : fd < 3) (offset : Int) (whence : Nat) :
    ∃ e, (sysLseek t fd offset whence).run s = .error e := by
  rw [sysLseek, if_neg (by omega)]
  by_cases hw : 0 < whence ∧ whence < 4
  · have hfd : s.fdTable t fd.toNat = fd.toNat := h.fds t fd.toNat (by omega)
    have hmax : maxFileOpen = 32 := rfl
    have hslot : (s.fileTable fd.toNat).fdInode = none := h.free fd.toNat (by omega)
    rw [run_bind_of (run_assert hw s), run_bind_of (run_fdLocal2global_pos (by omega)), hfd,
      run_bind_of (run_read _ s)]
    refine ⟨.wild, run_bind_error.mpr (Or.inl (run_bind_error.mpr (Or.inl ?_)))⟩
    rw [fdInodeOf, run_bind_of (run_read _ s), Int.toNat_natCast, hslot]
    rfl
  · exact ⟨_, run_bind_error.mpr (Or.inl (run_check_neg hw s))⟩

/-- A negative number, or a standard stream that another call than `sys_lseek`
    does not serve. -/
theorem prog_refuses (h : StdFds s) (hserves : ¬ c.Serves fd)
    (hbuf : ∀ count, c ≠ .read none count)
    (hfd : fd < 0 ∨ (fd ≤ 2 ∧ ∀ offset whence, c ≠ .lseek offset whence)) :
    (c.prog t fd).run s = .ok (-1, s) := by
  cases c with
  | close =>
      rw [FdCall.prog, sysClose, if_neg (by omega)]
      rfl
  | read buf count =>
      have hne : fd ≠ 0 := hserves
      cases buf with
      | none => exact absurd rfl (hbuf count)
      | some dst =>
          rw [FdCall.prog, sysRead, sysReadTo, if_pos (by omega)]
          rfl
  | write buf count =>
      have hne : fd ≠ 1 := hserves
      rw [FdCall.prog, sysWrite]
      by_cases hneg : fd < 0
      · rw [if_pos hneg]
        rfl
      · have hslot : s.fdTable t fd.toNat = fd.toNat := h.fds t fd.toNat (by omega)
        have hmax : maxFileOpen = 32 := rfl
        have hflag : (s.fileTable fd.toNat).fdFlag = 0 := h.flags fd.toNat (by omega)
        rw [if_neg hneg, if_neg hne, run_bind_of (run_fdLocal2global_pos (by omega)), hslot,
          run_bind_of (run_read _ s), Int.toNat_natCast, hflag, if_neg (by decide)]
        rfl
  -- `sys_lseek` compares with 0 only.
  | lseek offset whence =>
      rcases hfd with hneg | ⟨-, hother⟩
      · rw [FdCall.prog, sysLseek, if_pos hneg]
        rfl
      · exact absurd rfl (hother offset whence)

/-- The bad descriptors that are refused. -/
theorem refused_of_std (h : StdFds s) (hserves : ¬ c.Serves fd)
    (hbuf : ∀ count, c ≠ .read none count)
    (hfd : fd < 0 ∨ (fd ≤ 2 ∧ ∀ offset whence, c ≠ .lseek offset whence)) : Refused s t c fd :=
  fun g => ⟨s.setBehind t g, prog_refuses (h.setBehind t g) hserves hbuf hfd, rfl, rfl, rfl, rfl⟩

/-- `sys_read` into a null buffer fails its assertion, whatever the descriptor. -/
theorem read_null_fails (count : Nat) : ¬ Refused s t (.read none count) fd := by
  intro href
  rcases href (fun _ => 0) with ⟨s', hrun, -⟩
  cases hrun

/-- The bad descriptors that are not: behind the standard streams whatever is
    read is not the number of a slot, or may not be. -/
theorem not_refused (h3 : 3 ≤ fd) (hbad : BadFd s t c fd) : ¬ Refused s t c fd := by
  intro href
  rcases href (fun _ => -1) with ⟨s', hrun, -⟩
  have hentry : (s.setBehind t (fun _ => -1)).fdTable t fd.toNat = -1 := by
    show Function.update s.fdTable t _ t fd.toNat = -1
    rw [Function.update_self]
    by_cases hk : fd.toNat < maxFilesOpenPerProc
    · rw [if_pos hk]
      rcases hbad with hneg | hbig | hfree | ⟨hstd, -⟩
      · omega
      · omega
      · exact hfree
      · omega
    · rw [if_neg hk]
  -- What is found is -1, so the assertion of `fd_local2global` fails.
  rcases prog_fails (c := c) h3 (by rw [hentry]; omega) with ⟨e, herr⟩
  rw [hrun] at herr
  cases herr

/-- A call refuses a bad descriptor exactly if it is negative, or a standard
    stream and the call is not `sys_lseek`; and, for `sys_read`, if the buffer
    is not null. -/
theorem badFd_refused_iff (h : StdFds s) (hbad : BadFd s t c fd) :
    Refused s t c fd ↔ (∀ count, c ≠ .read none count) ∧
      (fd < 0 ∨ (fd ≤ 2 ∧ ∀ offset whence, c ≠ .lseek offset whence)) := by
  -- A bad descriptor below 3 is one of the consoles in the wrong direction.
  have hserves : fd ≤ 2 → ¬ c.Serves fd := by
    intro hle hserves
    rcases hbad with hneg | hbig | hfree | ⟨-, hnot⟩
    · cases c with
      | read dst count => exact absurd (show fd = 0 from hserves) (by omega)
      | write buf count => exact absurd (show fd = 1 from hserves) (by omega)
      | close => exact hserves
      | lseek offset whence => exact hserves
    · have hmax : maxFilesOpenPerProc = 8 := rfl
      omega
    · rw [h.fds t fd.toNat (by omega)] at hfree
      omega
    · exact hnot hserves
  refine ⟨fun href => ⟨fun count hc => read_null_fails count (hc ▸ href), ?_⟩,
    fun hfd => refused_of_std h (hserves (by omega)) hfd.1 hfd.2⟩
  -- From 3 on the assertion stops the call, below 0 it is refused, and in between only `lseek`
  -- stops.
  by_cases h3 : 3 ≤ fd
  · exact absurd href (not_refused h3 hbad)
  by_cases h0 : fd < 0
  · exact Or.inl h0
  refine Or.inr ⟨by omega, fun offset whence hc => ?_⟩
  have hpos : 0 ≤ fd := by omega
  have hlt : fd < 3 := by omega
  rcases href (fun _ => 0) with ⟨s', hrun, -⟩
  rcases lseek_std_fails (h.setBehind t _) hpos hlt offset whence with ⟨e, herr⟩
  rw [hc, FdCall.prog, herr] at hrun
  cases hrun

/-- A task that has just been made, with its standard streams and nothing
    open. -/
def freshTask : Fs :=
  { blankFs 0 0 (fun _ => true) with fdTable := fun _ k => if k < 3 then k else -1 }

theorem stdFds_freshTask : StdFds freshTask where
  fds _ _ hk := if_pos hk
  free _ _ := rfl
  flags _ _ := rfl

/-- `sys_close` of a descriptor that is not open fails an assertion. -/
theorem close_free_fd_panics :
    BadFd freshTask 0 .close 3 ∧ ¬ Refused freshTask 0 .close 3 ∧
      (sysClose 0 3).run freshTask = .error (.assertion .fdLocal2global) := by
  have hbad : BadFd freshTask 0 .close 3 := Or.inr (Or.inr (Or.inl rfl))
  refine ⟨hbad, not_refused (by decide) hbad, ?_⟩
  rw [sysClose, if_pos (by decide)]
  exact run_bind_error.mpr (Or.inl (run_fdLocal2global_neg (by decide)))

/-- `sys_read` refuses the descriptor -5. -/
theorem badFd_refused_iff_negative :
    Refused freshTask 0 (.read (some (fun _ => 0)) 1) (-5) :=
  (badFd_refused_iff stdFds_freshTask (Or.inl (by decide))).mpr
    ⟨fun _ => nofun, Or.inl (by decide)⟩

end Calls

end ForikOS
