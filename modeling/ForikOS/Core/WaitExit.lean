import ForikOS.Core.Exec
import ForikOS.Core.Thread

/-!
# The Process Table

Pids and the process tree: `thread/thread.c` from `allocate_pid` to
`pid2thread`, the end of `sys_fork`, and the calls of `user/wait_exit.c`. It
stands on the model of the scheduler, so a process that waits or hangs is one
that has given the processor away.

The system calls come through an interrupt gate and run with interrupts off,
so the timer does not interrupt them. They are switched out only where they
wait for a lock, and `sys_exit` has locks to take while it releases the
memory and the files of the process, between the adoption of its children and
the wakeup of its parent. It is two steps here, and anything can happen
between them. `sys_wait` takes no lock before it blocks, and a round of its
loop is one step.

`sys_fork` lengthens the name in the PCB and asserts that there is room for it,
so how deep the tree of processes can get depends on `sys_execv`, which gives a
process the name of the program it loads. Of that call only this is here.

A PCB page is used again for another process. `life` tells the processes
apart that have lived in one page, and `exits` and `waits` record what was
passed to `sys_exit` and what `sys_wait` has returned; they are the history of
a run and no step reads them.

## Main definitions

* `Procs`: The process table.
* `pid2thread`: Pids.
* `findChild`, `findHangingChild`, `initAdoptAChild`: The callbacks.
* `procFork`, `procRename`: `sys_fork`, and the end of `sys_execv`.
* `sysExitBegin`, `sysExitEnd`: `sys_exit`.
* `waitRound`: One round of `sys_wait`.
* `procSystem`: Any interleaving of the calls after `thread_init`.
-/

namespace ForikOS

/-- The call a task is in the middle of when it has been switched out. -/
inductive InCall
  | none
  | exiting
  | waiting
  deriving DecidableEq, Repr

/-- A call of `sys_exit`: the process, its pid and the argument. -/
structure ExitRecord where
  life : Nat
  pid : Nat
  status : BitVec 32

/-- A call of `sys_wait` that has returned a child: the process, the pid of
    the caller, the parent in the child's PCB, the result and the value behind
    `status`. -/
structure WaitRecord where
  life : Nat
  caller : Nat
  parentPid : Int
  result : Nat
  status : BitVec 32

/-- The scheduler, the fields of the PCBs that make up the process tree, and
    the pids. -/
structure Procs (T S P : Type) where
  sched : Sched T S P
  pid : T → Nat
  parentPid : T → Int
  name : T → Str
  exitStatus : T → BitVec 8
  pidPool : Bitmap
  call : T → InCall
  life : T → Nat
  nextLife : Nat
  exits : List ExitRecord
  waits : List WaitRecord

variable {T S P : Type} [DecidableEq T] [DecidableEq S]

namespace Procs

/-- `thread_all_list`. -/
def all (k : Procs T S P) : List T := k.sched.threadAllList

/-- `running_thread()`. -/
def cur (k : Procs T S P) : T := k.sched.cur

/-- The status in a PCB. -/
def status (k : Procs T S P) (t : T) : TaskStatus := (k.sched.task t).status

/-- Where a task is inside a call. -/
def setCall (k : Procs T S P) (t : T) (c : InCall) : Procs T S P :=
  { k with call := Function.update k.call t c }

end Procs

/-- `pid2thread`. -/
def pid2thread (k : Procs T S P) (pid : Int) : Option T :=
  k.all.find? (fun t => decide ((k.pid t : Int) = pid))

/-- `list_traversal` of all tasks with `find_child`. -/
def findChild (k : Procs T S P) (ppid : Int) : Option T :=
  k.all.find? (fun t => decide (k.parentPid t = ppid))

/-- `list_traversal` of all tasks with `find_hanging_child`. -/
def findHangingChild (k : Procs T S P) (ppid : Int) : Option T :=
  k.all.find? (fun t => decide (k.parentPid t = ppid ∧ k.status t = .hanging))

/-- `list_traversal` of all tasks with `init_adopt_a_child`. -/
def initAdoptAChild (k : Procs T S P) (pid : Int) : Procs T S P :=
  { k with parentPid := fun t => if t ∈ k.all ∧ k.parentPid t = pid then 1 else k.parentPid t }

/-- `sys_fork` into the fresh PCB `t` with the new page directory `pg`. -/
def procFork (k : Procs T S P) (t : T) (pg : P) : Except Func (Procs T S P) := do
  let (pool, pid) ← allocatePid k.pidPool
  -- The pid has been taken by then.
  ensure ((k.name k.cur).length < 11) .copyPcb
  let sched ← forkTail k.sched t pg
  .ok { k with
    sched := sched
    pidPool := pool
    pid := Function.update k.pid t pid
    parentPid := Function.update k.parentPid t (k.pid k.cur)
    name := Function.update k.name t (k.name k.cur ++ forkSuffix)
    -- Copied with the PCB, like everything that is not set.
    exitStatus := Function.update k.exitStatus t (k.exitStatus k.cur)
    call := Function.update k.call t .none
    life := Function.update k.life t k.nextLife
    nextLife := k.nextLife + 1 }

/-- The end of a `sys_execv` that has loaded a program. `found` is what is at
    the path then. -/
def procRename (k : Procs T S P) (found : Str) : Procs T S P :=
  { k with name := Function.update k.name k.cur (nameIn found) }

/-- `sys_exit` up to the release of the resources. `exit_status` has eight
    bits. -/
def sysExitBegin (k : Procs T S P) (status : BitVec 32) : Except Func (Procs T S P) := do
  let k := { k with
    sched := { k.sched with intr := .off }
    exitStatus := Function.update k.exitStatus k.cur (status.setWidth 8)
    exits := ⟨k.life k.cur, k.pid k.cur, status⟩ :: k.exits }
  ensure (k.parentPid k.cur ≠ -1) .sysExit
  .ok ((initAdoptAChild k (k.pid k.cur)).setCall k.cur .exiting)

/-- The parent of an exiting task is woken if it waits. -/
def wakeParent (k : Procs T S P) (parent : T) : Except Func (Sched T S P) :=
  if k.status parent = .waiting then threadUnblock k.sched parent else .ok k.sched

/-- The rest of `sys_exit`: the parent is woken, and the task hangs. -/
def sysExitEnd (k : Procs T S P) : Except Func (Procs T S P) := do
  match pid2thread k (k.parentPid k.cur) with
  -- The source reads the status of what `pid2thread` returns without a test.
  | none => .error .pageFault
  | some parent =>
      let sched ← wakeParent k parent
      let k := k.setCall k.cur .none
      let sched ← threadBlock sched .hanging
      .ok { k with sched := sched }

/-- `thread_exit(t, false)`, with the pid it returns. -/
def procThreadExit (k : Procs T S P) (t : T) : Procs T S P :=
  { k with sched := threadExit k.sched t, pidPool := releasePid k.pidPool (k.pid t) }

/-- One round of the loop of `sys_wait`. A call that returns goes back to the
    process with interrupts on. -/
def waitRound (k : Procs T S P) : Except Func (Procs T S P) :=
  let k := { k with sched := { k.sched with intr := .off } }
  let back (k : Procs T S P) : Procs T S P :=
    { k.setCall k.cur .none with sched := { k.sched with intr := .on } }
  match findHangingChild k (k.pid k.cur) with
  -- The PCB of the child is read before `thread_exit` gives it back.
  | some child =>
      let w : WaitRecord :=
        { life := k.life child
          caller := k.pid k.cur
          parentPid := k.parentPid child
          result := k.pid child
          status := (k.exitStatus child).signExtend 32 }
      .ok { back (procThreadExit k child) with waits := w :: k.waits }
  | none =>
      match findChild k (k.pid k.cur) with
      -- No child at all: -1.
      | none => .ok (back k)
      | some _ => do
          let sched ← threadBlock k.sched .waiting
          .ok { k.setCall k.cur .waiting with sched := sched }

/-- What can happen next. -/
inductive ProcEvent (T S P : Type)
  | timer
  | idle
  | yield
  | down (s : S)
  | resume
  | up (s : S)
  | fork (t : T) (pg : P)
  | exec (found : Str)
  | exit (status : BitVec 32)
  | exitEnd
  | wait

/-- The scheduler makes a step on its own. -/
def schedOnly (k : Procs T S P) (e : SchedEvent T S P) : Except Func (Procs T S P) := do
  let sched ← schedStep k.sched e
  .ok { k with sched := sched }

/-- The step of an event. -/
def procStep (k : Procs T S P) : ProcEvent T S P → Except Func (Procs T S P)
  | .timer => schedOnly k .timer
  | .idle => schedOnly k (.block .blocked)
  | .yield => schedOnly k .yield
  | .down s => schedOnly k (.down s)
  | .resume => schedOnly k .resume
  | .up s => schedOnly k (.up s)
  | .fork t pg => procFork k t pg
  | .exec found => .ok (procRename k found)
  | .exit status => sysExitBegin k status
  | .exitEnd => sysExitEnd k
  | .wait => waitRound k

/-- The current task is a process that runs its own code. -/
def InUserMode (k : Procs T S P) : Prop :=
  k.call k.cur = .none ∧ k.sched.inSemaDown k.cur = none ∧ k.sched.intr = .on ∧
    (k.sched.task k.cur).pgdir.isSome = true ∧ k.cur ≠ k.sched.idleThread

/-- Where an event can happen. Locks are taken and given back inside any call
    but `sys_wait`, and a process that has been woken inside `sys_wait` goes on
    with the next round. An interrupt handler gives a semaphore back whichever
    task it finds running. -/
def procEnabled (k : Procs T S P) : ProcEvent T S P → Prop
  | .timer => k.sched.intr = .on
  | .idle => k.cur = k.sched.idleThread
  | .yield => k.sched.inSemaDown k.cur = none ∧ k.cur ≠ k.sched.idleThread ∧ k.call k.cur = .none
  | .down _ => k.sched.inSemaDown k.cur = none ∧ k.cur ≠ k.sched.idleThread ∧
      k.call k.cur ≠ .waiting
  | .resume => k.sched.inSemaDown k.cur ≠ none
  | .up _ => k.sched.inSemaDown k.cur = none ∧ k.call k.cur ≠ .waiting
  | .fork t _ => InUserMode k ∧ t ∉ k.all
  | .exec _ => InUserMode k
  | .exit _ => InUserMode k
  | .exitEnd => k.call k.cur = .exiting ∧ k.sched.inSemaDown k.cur = none ∧
      k.cur ≠ k.sched.idleThread
  | .wait => InUserMode k ∨ (k.call k.cur = .waiting ∧ k.sched.inSemaDown k.cur = none ∧
      k.cur ≠ k.sched.idleThread)

/-- The state after `thread_init`: `init`, the main thread and the idle task
    have the pids 1, 2 and 3, and no parents. What the others are called is left open. -/
def procInit (k : Procs T S P) : Prop :=
  ∃ init main idle, init ≠ main ∧ init ≠ idle ∧ main ≠ idle ∧ schedInit k.sched ∧
    k.all = [init, main, idle] ∧ k.pid init = 1 ∧ k.pid main = 2 ∧ k.pid idle = 3 ∧
    k.name init = initName ∧ (∀ t, k.parentPid t = -1) ∧ (∀ t, k.call t = .none) ∧
    (∃ b, b.btmpBytesLen = 128 ∧ k.pidPool = bitmapSetRange (bitmapInit b) 0 true 3) ∧
    (∀ t, t ∈ k.all → k.life t < k.nextLife) ∧
    (∀ t u, t ∈ k.all → u ∈ k.all → k.life t = k.life u → t = u) ∧ k.exits = [] ∧ k.waits = []

/-- Any interleaving of the calls after `thread_init`. -/
def procSystem (T S P : Type) [DecidableEq T] [DecidableEq S] :
    System (Procs T S P) (ProcEvent T S P) Func where
  init := procInit
  enabled := procEnabled
  step := procStep

end ForikOS
