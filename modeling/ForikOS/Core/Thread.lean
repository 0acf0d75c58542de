import ForikOS.Core.Sync
import ForikOS.Core.Bitmap

/-!
# The Scheduler

The scheduling half of `thread/thread.c`, with the semaphore operations of
`thread/sync.c` as its clients.

A task is identified by its PCB. The fields of the PCB that the scheduler
reads are in `Task`; the two global lists are the sequences of tasks whose
tags are linked in them. `switch_to` hands the processor to another task,
which continues where it was switched out, so the part of a task's stack that
matters here is kept in two fields of the state: `oldStatus` is the interrupt
status the task restores when it runs again, and `inSemaDown` says that it is
inside the loop of `sema_down` and has to run the loop test again before it
does anything else.

The functions run with interrupts disabled, so each of them is one step. What
may be interleaved with what is in `schedEnabled`: a task whose `inSemaDown`
is set only continues that loop, the timer interrupts only where interrupts
are on, and the idle task runs nothing but its own loop. The handlers of other
interrupts wake tasks, whichever task they find running.

A step that fails an assertion returns the function whose assertion it was.

## Main definitions

* `TaskStatus`, `IntrStatus`, `Task`: The types of `thread/thread.h`.
* `Sched`: The state of the scheduler.
* `allocatePid`, `releasePid`: Pids.
* `schedule`, `threadBlock`, `threadUnblock`, `threadYield`: The functions of
  `thread/thread.c`.
* `intrTimerHandler`: The timer interrupt.
* `threadStart`, `forkTail`, `threadExit`: Tasks enter and leave the lists.
* `semaDownLoop`, `semaDownCall`, `semaUpCall`: The semaphore operations.
* `schedSystem`: Any interleaving of the above after `thread_init`.
-/

namespace ForikOS

/-- `enum task_status`. -/
inductive TaskStatus
  | running
  | ready
  | blocked
  | waiting
  | hanging
  | died
  deriving DecidableEq, Repr

/-- `enum intr_status`. -/
inductive IntrStatus
  | off
  | on
  deriving DecidableEq, Repr

/-- The fields of `struct task_struct` that the scheduler reads. `P` is the
    type of page directories; kernel threads have none. -/
structure Task (P : Type) where
  status : TaskStatus
  priority : UInt8
  ticks : UInt8
  elapsedTicks : UInt32
  pgdir : Option P

/-- The scheduler: `T` names tasks by their PCB and `S` names semaphores. -/
structure Sched (T S P : Type) where
  /-- The PCBs. -/
  task : T → Task P
  /-- `running_thread()`. -/
  cur : T
  idleThread : T
  threadReadyList : List T
  threadAllList : List T
  sema : S → Semaphore T
  /-- The interrupt flag of the processor. -/
  intr : IntrStatus
  /-- The interrupt status a task restores when it runs again. -/
  oldStatus : T → IntrStatus
  /-- The semaphore a task waits for inside `sema_down`, and the interrupt
      status that call restores in the end. -/
  inSemaDown : T → Option (S × IntrStatus)
  /-- The page directory in CR3; `none` is the kernel's own. -/
  cr3 : Option P
  /-- The task whose PCB page `tss.esp0` is the top of. -/
  esp0 : T

variable {T S P : Type} [DecidableEq T] [DecidableEq S]

namespace Sched

/-- Change one PCB. -/
def setTask (k : Sched T S P) (t : T) (v : Task P) : Sched T S P :=
  { k with task := Function.update k.task t v }

/-- Change the status in one PCB. -/
def setStatus (k : Sched T S P) (t : T) (st : TaskStatus) : Sched T S P :=
  k.setTask t { k.task t with status := st }

end Sched

/-- `allocate_pid`. The assertion of `bitmap_scan` excludes the failure that
    the source does not test for. -/
def allocatePid (b : Bitmap) : Except Func (Bitmap × Nat) := do
  match ← bitmapScan b 1 with
  | none => .error .bitmapScan
  -- Bit 0 is pid 1.
  | some bitIdx => .ok (bitmapSet b bitIdx true, bitIdx + 1)

/-- `release_pid`. -/
def releasePid (b : Bitmap) (pid : Nat) : Bitmap := bitmapSet b (pid - 1) false

/-- `process_activate`: load the task's page directory, and for a process the
    kernel stack it enters on. -/
def processActivate (k : Sched T S P) (t : T) : Sched T S P :=
  { k with cr3 := (k.task t).pgdir, esp0 := if (k.task t).pgdir.isSome then t else k.esp0 }

/-- `thread_unblock`: the task goes to the head of the ready list. The second
    assertion and the panic after it test the same condition. -/
def threadUnblock (k : Sched T S P) (t : T) : Except Func (Sched T S P) := do
  let st := (k.task t).status
  ensure (st = .blocked ∨ st = .waiting ∨ st = .hanging) .threadUnblock
  if st ≠ .ready then
    -- `list_push`, so that it runs soon.
    ensure (t ∉ k.threadReadyList) .threadUnblock
    .ok ({ k with threadReadyList := t :: k.threadReadyList }.setStatus t .ready)
  else
    .ok k

/-- The first part of `schedule`: a task whose time slice is over goes to the
    tail of the ready list. -/
def scheduleOut (k : Sched T S P) : Except Func (Sched T S P) :=
  let v := k.task k.cur
  if v.status = .running then do
    ensure (k.cur ∉ k.threadReadyList) .schedule
    .ok ({ k with threadReadyList := k.threadReadyList ++ [k.cur] }.setTask k.cur
      { v with ticks := v.priority, status := .ready })
  -- It has blocked itself, or `thread_yield` has put it on the list already.
  else
    .ok k

/-- The last part of `schedule`: the head of the ready list gets the
    processor and continues with the interrupt status it left with. -/
def scheduleIn (k : Sched T S P) : Except Func (Sched T S P) :=
  match k.threadReadyList with
  | [] => .error .schedule
  | next :: rest =>
      let k := { k with threadReadyList := rest }.setStatus next .running
      let k := processActivate k next
      .ok { k with cur := next, intr := k.oldStatus next }

/-- `schedule`. With nothing ready it wakes the idle task. -/
def schedule (k : Sched T S P) : Except Func (Sched T S P) := do
  ensure (k.intr = .off) .schedule
  let k ← scheduleOut k
  -- Nothing else can run.
  let k ← if k.threadReadyList = [] then threadUnblock k k.idleThread else .ok k
  scheduleIn k

/-- `thread_block`. -/
def threadBlock (k : Sched T S P) (st : TaskStatus) : Except Func (Sched T S P) := do
  ensure (st = .blocked ∨ st = .waiting ∨ st = .hanging) .threadBlock
  let k := { k with intr := .off, oldStatus := Function.update k.oldStatus k.cur k.intr }
  schedule (k.setStatus k.cur st)

/-- `thread_yield`. -/
def threadYield (k : Sched T S P) : Except Func (Sched T S P) := do
  let k := { k with intr := .off, oldStatus := Function.update k.oldStatus k.cur k.intr }
  ensure (k.cur ∉ k.threadReadyList) .threadYield
  let k := { k with threadReadyList := k.threadReadyList ++ [k.cur] }
  schedule (k.setStatus k.cur .ready)

/-- `intr_timer_handler`. The gate clears the interrupt flag and the return
    from the interrupt sets it again. -/
def intrTimerHandler (k : Sched T S P) : Except Func (Sched T S P) :=
  let v := { k.task k.cur with elapsedTicks := (k.task k.cur).elapsedTicks + 1 }
  if v.ticks = 0 then
    schedule { k.setTask k.cur v with
      intr := .off, oldStatus := Function.update k.oldStatus k.cur .on }
  else
    -- The slice is not over.
    .ok (k.setTask k.cur { v with ticks := v.ticks - 1 })

/-- The end of `thread_start` and of `sys_fork`: the new task enters the ready
    list and the list of all tasks. It starts with interrupts on. -/
def enterLists (k : Sched T S P) (f : Func) (t : T) (v : Task P) : Except Func (Sched T S P) := do
  ensure (t ∉ k.threadReadyList) f
  ensure (t ∉ k.threadAllList) f
  .ok { k.setTask t v with
    threadReadyList := k.threadReadyList ++ [t]
    threadAllList := k.threadAllList ++ [t]
    oldStatus := Function.update k.oldStatus t .on
    inSemaDown := Function.update k.inSemaDown t none }

/-- `thread_start` on the fresh PCB `t`, with what `init_thread` writes. -/
def threadStart (k : Sched T S P) (t : T) (prio : UInt8) : Except Func (Sched T S P) :=
  enterLists k .threadStart t
    { status := .ready, priority := prio, ticks := prio, elapsedTicks := 0, pgdir := none }

/-- `sys_fork` into the fresh PCB `t` with the new page directory `pg`: the
    parent's PCB is copied and the fields of the copy are set. -/
def forkTail (k : Sched T S P) (t : T) (pg : P) : Except Func (Sched T S P) :=
  let parent := k.task k.cur
  enterLists k .sysFork t
    { parent with
      status := .ready, ticks := parent.priority, elapsedTicks := 0, pgdir := some pg }

/-- `thread_exit(t, false)`, up to the pages and the pid it returns. It leaves
    interrupts disabled. -/
def threadExit (k : Sched T S P) (t : T) : Sched T S P :=
  let k := { k with intr := .off }.setStatus t .died
  { k with
    -- A hanging task is not on it; the source looks all the same.
    threadReadyList := if t ∈ k.threadReadyList then k.threadReadyList.erase t
      else k.threadReadyList
    threadAllList := k.threadAllList.erase t }

/-- One round of the loop of `sema_down` by the current task, in a call that
    restores `old` in the end. -/
def semaDownLoop (k : Sched T S P) (s : S) (old : IntrStatus) : Except Func (Sched T S P) := do
  let (p, blocks) ← semaDownIter k.cur (k.sema s)
  let k := { k with sema := Function.update k.sema s p }
  if blocks then
    -- The task is on the list of waiters, and goes round the loop when it runs again.
    threadBlock { k with inSemaDown := Function.update k.inSemaDown k.cur (some (s, old)) } .blocked
  else
    .ok { k with inSemaDown := Function.update k.inSemaDown k.cur none, intr := old }

/-- `sema_down`. -/
def semaDownCall (k : Sched T S P) (s : S) : Except Func (Sched T S P) :=
  semaDownLoop { k with intr := .off } s k.intr

/-- `sema_up`. -/
def semaUpCall (k : Sched T S P) (s : S) : Except Func (Sched T S P) := do
  let (p, woken) ← semaUp (k.sema s)
  let k := { k with sema := Function.update k.sema s p }
  match woken with
  | none => .ok k
  | some t => threadUnblock k t

/-- What can happen next: the timer, a call by the current task, or the
    current task going on inside `sema_down`. -/
inductive SchedEvent (T S P : Type)
  | timer
  | block (st : TaskStatus)
  | unblock (t : T)
  | yield
  | down (s : S)
  | resume
  | up (s : S)
  | start (t : T) (prio : UInt8)
  | fork (t : T) (pg : P)
  | exit (t : T)

/-- The step of an event. -/
def schedStep (k : Sched T S P) : SchedEvent T S P → Except Func (Sched T S P)
  | .timer => intrTimerHandler k
  | .block st => threadBlock k st
  | .unblock t => threadUnblock k t
  | .yield => threadYield k
  | .down s => semaDownCall k s
  -- Back from `thread_block` inside `sema_down`, at the loop test.
  | .resume =>
      match k.inSemaDown k.cur with
      | none => .ok k
      | some (s, old) => semaDownLoop k s old
  | .up s => semaUpCall k s
  | .start t prio => threadStart k t prio
  | .fork t pg => forkTail k t pg
  | .exit t => .ok (threadExit k t)

/-- Where an event can happen. Calls are made by the current task outside
    `sema_down`, and not by the idle task, which only blocks itself. But an
    interrupt handler runs on the stack of whatever task it interrupted, the
    idle task included, and it may raise a semaphore or unblock a task; inside
    the loop of `sema_down` interrupts are off. New tasks get an unused PCB,
    `thread_unblock` is called on a blocked task that waits for no semaphore,
    and `thread_exit` on a hanging one. -/
def schedEnabled (k : Sched T S P) : SchedEvent T S P → Prop
  | .timer => k.intr = .on
  | .resume => k.inSemaDown k.cur ≠ none
  | .block st => k.inSemaDown k.cur = none ∧ (st = .blocked ∨ st = .waiting ∨ st = .hanging) ∧
      (k.cur = k.idleThread → st = .blocked)
  | .unblock t => k.inSemaDown k.cur = none ∧ t ∈ k.threadAllList ∧
      ((k.task t).status = .blocked ∨ (k.task t).status = .waiting ∨
        (k.task t).status = .hanging) ∧ ∀ s, t ∉ (k.sema s).waiters
  | .yield => k.inSemaDown k.cur = none ∧ k.cur ≠ k.idleThread
  | .down _ => k.inSemaDown k.cur = none ∧ k.cur ≠ k.idleThread
  | .up _ => k.inSemaDown k.cur = none
  | .start t _ => k.inSemaDown k.cur = none ∧ k.cur ≠ k.idleThread ∧ t ∉ k.threadAllList
  | .fork t _ => k.inSemaDown k.cur = none ∧ k.cur ≠ k.idleThread ∧ t ∉ k.threadAllList
  | .exit t => k.inSemaDown k.cur = none ∧ k.cur ≠ k.idleThread ∧ t ∈ k.threadAllList ∧
      (k.task t).status = .hanging

/-- The state `thread_init` leaves: `init` and the idle task are ready, the
    main thread runs, no semaphore has a waiter. -/
def schedInit (k : Sched T S P) : Prop :=
  ∃ init main idle, init ≠ main ∧ init ≠ idle ∧ main ≠ idle ∧
    k.threadReadyList = [init, idle] ∧ k.threadAllList = [init, main, idle] ∧
    k.cur = main ∧ k.idleThread = idle ∧
    (k.task init).status = .ready ∧ (k.task idle).status = .ready ∧
    (k.task main).status = .running ∧
    (∀ t, k.inSemaDown t = none) ∧ ∀ s, (k.sema s).waiters = []

/-- Any interleaving of the events after `thread_init`. -/
def schedSystem (T S P : Type) [DecidableEq T] [DecidableEq S] :
    System (Sched T S P) (SchedEvent T S P) Func where
  init := schedInit
  enabled := schedEnabled
  step := schedStep

end ForikOS
