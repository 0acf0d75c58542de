import ForikOS.Core.FileSys
import ForikOS.Core.Fork

/-!
# Exit and Wait

The calls of `user/wait_exit.c` and `thread_exit` of `thread/thread.c` with
what they give back: the pages of the process, its page tables, the bitmap of
its addresses, its files, its page directory, its PCB and its pid.

`release_prog_resource` runs in the process that exits. It reads the page
directory through its kernel address and the page tables through the last
entry of the active directory, and `free_a_phy_page` only clears bits of the
pools, so everything stays mapped while the loops run. The rest is given back
by the parent, which finds the process hanging.

PCBs are records found by their address, so `release_pid` still finds the pid
after the page of the PCB has been given back. `exit_status`, the kernel
stacks and who runs next are part of the process table and are left out here.

## Main definitions

* `releasePtes`, `releasePdes`, `releaseProgResource`: What `sys_exit` gives
  back.
* `Kernel.threadExit`: What `sys_wait` gives back.
* `Kernel.sysExit`, `Kernel.sysWait`: The calls, up to where they give the
  processor away.
* `Kernel.switchTo`: Another process runs.
-/

namespace ForikOS

/-- `free_a_phy_page`, which does what `pfree` does. -/
def freeAPhyPage (m : Machine) (pgPhyAddr : Word) : Machine := pfree m pgPhyAddr

/-- The inner loop of `release_prog_resource`: `n` entries of a page table from
    `pteIdx` on. -/
def releasePtes (firstPteVaddrInPde : Word) : Nat → Nat → Machine → Except Func Machine
  | 0, _, m => .ok m
  | n + 1, pteIdx, m => do
      let pte ← load m (firstPteVaddrInPde + BitVec.ofNat 32 pteIdx * 4)
      let m := if isPresent pte then freeAPhyPage m (pte &&& 0xfffff000) else m
      releasePtes firstPteVaddrInPde n (pteIdx + 1) m

/-- The outer loop of `release_prog_resource`: `n` entries of the page directory
    from `pdeIdx` on. -/
def releasePdes (pgdirVaddr : Word) : Nat → Nat → Machine → Except Func Machine
  | 0, _, m => .ok m
  | n + 1, pdeIdx, m => do
      let pde ← load m (pgdirVaddr + BitVec.ofNat 32 pdeIdx * 4)
      let m ← if isPresent pde then do
          -- Every page of the table, then the table.
          let m ← releasePtes (ptePtr (BitVec.ofNat 32 pdeIdx * 0x400000)) 1024 0 m
          .ok (freeAPhyPage m (pde &&& 0xfffff000))
        else
          .ok m
      releasePdes pgdirVaddr n (pdeIdx + 1) m

/-- The pages of its bitmap that a process gives back: not rounded up, though
    the bitmap was taken in whole pages. -/
def releasedPgCnt (p : ProcMem) : Nat := p.btmpBytesLen / 4096

/-- `release_prog_resource`. -/
def releaseProgResource (k : Kernel) (releaseThread : Word) : Except Func Kernel := do
  let p := (k.pcb releaseThread).mem
  let m ← releasePdes p.pgdir 768 0 k.mem
  let m ← mfreePage m .kernel p.bits (releasedPgCnt p)
  -- The descriptors from 3 on that are open are closed.
  match (closeFilesFrom releaseThread.toNat (maxFilesOpenPerProc - 3) 3).run k.fs with
  | .error _ => .error .sysExit
  | .ok (_, fs) => .ok { k with mem := m, fs := fs }

/-- `main_thread`, whose PCB is below the stack the loader sets up. -/
def mainThread : Word := 0xc009e000

namespace Kernel

/-- `thread_exit(thread_over, false)`. -/
def threadExit (k : Kernel) (threadOver : Word) : Except Func Kernel := do
  let v := k.pcb threadOver
  let k := k.setPcb threadOver { v with status := .died }
  let m ← if v.mem.pgdir ≠ 0 then mfreePage k.mem .kernel v.mem.pgdir 1 else .ok k.mem
  let m ← if threadOver ≠ mainThread then mfreePage m .kernel threadOver 1 else .ok m
  .ok { k with
    mem := m
    threadReadyList := k.threadReadyList.erase threadOver
    threadAllList := k.threadAllList.erase threadOver
    pidPool := releasePid k.pidPool v.pid }

/-- `list_traversal` of all tasks with `init_adopt_a_child`. -/
def initAdoptAChild (k : Kernel) (pid : Int) : Kernel :=
  { k with pcb := fun t =>
      if t ∈ k.threadAllList ∧ (k.pcb t).parentPid = pid then { k.pcb t with parentPid := 1 }
      else k.pcb t }

/-- `pid2thread`. -/
def pid2thread (k : Kernel) (pid : Int) : Option Word :=
  k.threadAllList.find? (fun t => decide (((k.pcb t).pid : Int) = pid))

/-- The parent is woken if it waits. -/
def wakeParent (k : Kernel) (parent : Word) : Except Func Kernel :=
  if (k.pcb parent).status = .waiting then do
    ensure (parent ∉ k.threadReadyList) .threadUnblock
    .ok ({ k with threadReadyList := parent :: k.threadReadyList }.setPcb parent
      { k.pcb parent with status := .ready })
  else
    .ok k

/-- `sys_exit` of the running process, until it hangs. -/
def sysExit (k : Kernel) : Except Func Kernel := do
  let child := k.cur
  ensure ((k.pcb child).parentPid ≠ -1) .sysExit
  let k := k.initAdoptAChild (k.pcb child).pid
  let k ← releaseProgResource k child
  match k.pid2thread (k.pcb child).parentPid with
  | none => .error .pageFault
  | some parent =>
      let k ← k.wakeParent parent
      .ok (k.setPcb child { k.pcb child with status := .hanging })

/-- `list_traversal` of all tasks with `find_hanging_child`. -/
def findHangingChild (k : Kernel) (ppid : Int) : Option Word :=
  k.threadAllList.find? (fun t =>
    decide ((k.pcb t).parentPid = ppid ∧ (k.pcb t).status = .hanging))

/-- A round of `sys_wait` by the running process: the child that hangs is given
    back, if there is one. -/
def sysWait (k : Kernel) : Except Func (Kernel × Option Word) := do
  match k.findHangingChild (k.pcb k.cur).pid with
  | none => .ok (k, none)
  | some child =>
      let k ← k.threadExit child
      .ok (k, some child)

/-- Another process runs: what `process_activate` and `switch_to` do. -/
def switchTo (k : Kernel) (t : Word) : Except Func Kernel := do
  let m ← pageDirActivate k.mem (k.pcb t).mem.pgdir
  .ok { k with mem := { m with cur := (k.pcb t).mem }, cur := t }

end Kernel

end ForikOS
