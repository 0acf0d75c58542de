import ForikOS.Lib.System
import Mathlib.Algebra.Group.Nat.Defs

/-!
# Semaphores and Locks

The data of `thread/sync.c` and what its two semaphore operations do to it.

Both operations run with interrupts disabled, so nothing is visible in the
middle of them except at the one place where `sema_down` gives the processor
away. `semaDownIter` is therefore one round of its `while` loop: either the
caller takes the semaphore, or it has appended itself to the waiters and is
about to block. A woken thread runs the same round again. `semaUp` pops at
most one waiter and hands it back to whoever models the scheduler.

The list of waiters is the sequence of threads whose `general_tag` is linked
in it, head first.

`lock_acquire` and `lock_release` are not atomic: they read and write the
holder with interrupts on. `LockPc` is the statement a thread executes next,
one constructor per statement of the two functions, and `lockStep` is what
that statement does. A thread may be switched out between any two of them.

`depth` is not a field of the source. It counts the calls of `lock_acquire`
a thread has returned from less the calls of `lock_release` it has finished,
so it says where the thread is without looking at the lock.

## Main definitions

* `Func`: The functions whose assertions can stop the machine.
* `Semaphore`, `Lock`: The two structures of `thread/sync.h`.
* `semaInit`, `lockInit`: Their initial values.
* `semaDownIter`: One round of the loop in `sema_down`.
* `semaUp`: Raising a semaphore, waking the first waiter.
* `LockPc`: The statement of the lock code a thread executes next.
* `lockStep`: One statement of `lock_acquire` or `lock_release`.
* `lockSystem`: Any number of threads using one lock.
-/

namespace ForikOS

/-- The functions whose `ASSERT` or `PANIC` can stop the machine. -/
inductive Func
  | schedule
  | threadBlock
  | threadUnblock
  | threadYield
  | threadStart
  | semaDown
  | semaUp
  | lockAcquire
  | lockRelease
  | sysFork
  | sysExit
  | copyPcb
  | updateInodeOpenCnts
  | bitmapScan
  | vaddrGet
  | pageTableAdd
  | mallocPage
  | mfreePage
  | getAPage
  | sysMalloc
  | sysFree
  | ioqWait
  | wakeup
  | ideRead
  | ideWrite
  | selectSector
  /-- A fault in the file system while a program is loaded. -/
  | load
  /-- A search along a list that never meets its tail. -/
  | elemFind
  /-- The page-fault exception, for which there is no handler. -/
  | pageFault
  deriving DecidableEq, Repr

/-- `struct semaphore`: the value and the threads waiting for it. -/
structure Semaphore (T : Type) where
  value : UInt8
  waiters : List T

/-- `struct lock`: a binary semaphore with its holder and how often the
    holder has taken it. -/
structure Lock (T : Type) where
  holder : Option T
  semaphore : Semaphore T
  holderRepeatNr : UInt32

variable {T : Type}

/-- `sema_init`. -/
def semaInit (value : UInt8) : Semaphore T :=
  { value := value, waiters := [] }

/-- `lock_init`. -/
def lockInit : Lock T :=
  { holder := none, semaphore := semaInit 1, holderRepeatNr := 0 }

variable [DecidableEq T]

/-- One round of the loop in `sema_down` run by `t`: at value zero the thread
    joins the waiters and the answer is that it has to block; otherwise it
    takes the semaphore. The assertion and the panic on the waiters test the
    same condition. -/
def semaDownIter (t : T) (p : Semaphore T) : Except Func (Semaphore T × Bool) :=
  if p.value = 0 then do
    ensure (t ∉ p.waiters) .semaDown
    .ok ({ p with waiters := p.waiters ++ [t] }, true)
  else do
    ensure (p.value - 1 = 0) .semaDown
    .ok ({ p with value := p.value - 1 }, false)

/-- `sema_up`: the first waiter, if any, leaves the list to be unblocked, and
    the value is raised. -/
def semaUp (p : Semaphore T) : Except Func (Semaphore T × Option T) := do
  ensure (p.value = 0) .semaUp
  ensure (p.value + 1 = 1) .semaUp
  .ok ({ value := p.value + 1, waiters := p.waiters.tail }, p.waiters.head?)

/-- The statement a thread executes next, one for each statement of
    `lock_acquire` and `lock_release`. -/
inductive LockPc
  /-- Running code of its own, outside both functions. -/
  | rest
  /-- `if (plock->holder != running_thread())`. -/
  | testHolder
  /-- The loop test of `sema_down`. -/
  | down
  /-- Blocked inside `sema_down`. -/
  | waiting
  /-- `plock->holder = running_thread()`. -/
  | setHolder
  /-- `ASSERT(plock->holder_repeat_nr == 0)`. -/
  | checkRepeat
  /-- `plock->holder_repeat_nr = 1`. -/
  | setRepeat
  /-- `plock->holder_repeat_nr++`. -/
  | incRepeat
  /-- `ASSERT(plock->holder == running_thread())`. -/
  | checkHolder
  /-- `if (plock->holder_repeat_nr > 1)`. -/
  | testRepeat
  /-- `plock->holder_repeat_nr--; return`. -/
  | decRepeat
  /-- `ASSERT(plock->holder_repeat_nr == 1)`. -/
  | checkOne
  /-- `plock->holder = NULL`. -/
  | clearHolder
  /-- `plock->holder_repeat_nr = 0`. -/
  | clearRepeat
  /-- `sema_up(&plock->semaphore)`. -/
  | up
  deriving DecidableEq, Repr

/-- One lock and the threads using it. -/
structure LockState (T : Type) where
  lock : Lock T
  pc : T → LockPc
  depth : T → Nat

/-- A thread calls one of the two functions, or executes its next statement
    of the call it is in. -/
inductive LockEvent (T : Type)
  | acquire (t : T)
  | release (t : T)
  | run (t : T)

namespace LockState

/-- Move a thread to another statement. -/
def goto (s : LockState T) (t : T) (pc : LockPc) : LockState T :=
  { s with pc := Function.update s.pc t pc }

/-- Return from the call, at the given nesting depth. -/
def finish (s : LockState T) (t : T) (d : Nat) : LockState T :=
  { s with pc := Function.update s.pc t .rest, depth := Function.update s.depth t d }

end LockState

/-- The statement `t` executes next. -/
def lockStep (s : LockState T) (t : T) : Except Func (LockState T) :=
  let lock := s.lock
  match s.pc t with
  | .rest => .ok s
  | .testHolder =>
      if lock.holder ≠ some t then .ok (s.goto t .down) else .ok (s.goto t .incRepeat)
  | .down => do
      let (sema, blocks) ← semaDownIter t lock.semaphore
      let s := { s with lock := { lock with semaphore := sema } }
      if blocks then .ok (s.goto t .waiting) else .ok (s.goto t .setHolder)
  | .waiting => .ok s
  | .setHolder =>
      .ok ({ s with lock := { lock with holder := some t } }.goto t .checkRepeat)
  | .checkRepeat => do
      ensure (lock.holderRepeatNr = 0) .lockAcquire
      .ok (s.goto t .setRepeat)
  | .setRepeat =>
      .ok ({ s with lock := { lock with holderRepeatNr := 1 } }.finish t (s.depth t + 1))
  | .incRepeat =>
      .ok ({ s with lock := { lock with holderRepeatNr := lock.holderRepeatNr + 1 } }.finish t
        (s.depth t + 1))
  | .checkHolder => do
      ensure (lock.holder = some t) .lockRelease
      .ok (s.goto t .testRepeat)
  | .testRepeat =>
      if 1 < lock.holderRepeatNr then .ok (s.goto t .decRepeat) else .ok (s.goto t .checkOne)
  | .decRepeat =>
      .ok ({ s with lock := { lock with holderRepeatNr := lock.holderRepeatNr - 1 } }.finish t
        (s.depth t - 1))
  | .checkOne => do
      ensure (lock.holderRepeatNr = 1) .lockRelease
      .ok (s.goto t .clearHolder)
  | .clearHolder => .ok ({ s with lock := { lock with holder := none } }.goto t .clearRepeat)
  | .clearRepeat => .ok ({ s with lock := { lock with holderRepeatNr := 0 } }.goto t .up)
  | .up => do
      let (sema, woken) ← semaUp lock.semaphore
      let s := { s with lock := { lock with semaphore := sema } }
      -- The popped thread is made ready; it runs the loop test of `sema_down` again.
      let s := match woken with
        | none => s
        | some u => s.goto u .down
      .ok (s.finish t (s.depth t - 1))

/-- What an event does to the lock and its threads. -/
def lockEventStep (s : LockState T) : LockEvent T → Except Func (LockState T)
  | .acquire t => .ok (s.goto t .testHolder)
  | .release t => .ok (s.goto t .checkHolder)
  | .run t => lockStep s t

/-- A thread calls the lock functions from its own code only, and releases
    only what it has acquired; a blocked thread does not run. -/
def lockEnabled (s : LockState T) : LockEvent T → Prop
  | .acquire t => s.pc t = .rest
  | .release t => s.pc t = .rest ∧ 0 < s.depth t
  | .run t => s.pc t ≠ .rest ∧ s.pc t ≠ .waiting

/-- Any number of threads using one freshly initialised lock, switched at
    any statement. -/
def lockSystem (T : Type) [DecidableEq T] : System (LockState T) (LockEvent T) Func where
  init := fun s => s = { lock := lockInit, pc := fun _ => .rest, depth := fun _ => 0 }
  enabled := lockEnabled
  step := lockEventStep

end ForikOS
