import ForikOS.Core.Sync
import ForikOS.Lib.Ring

/-!
# The I/O Queue

The ring buffer of `device/ioqueue.c` and the threads that read and write it.

Both functions run with interrupts disabled and give the processor away at
two places only: in the `sema_down` of `lock_acquire`, and in `ioq_wait`. So a
thread runs from one of them to the next without anything in between, and an
event is such a stretch: from a call, or from where the thread was woken, up
to where it blocks again or returns. `IoqPc` is where a thread stands between
events.

A thread that `ioq_wait` puts to sleep sleeps with the queue's lock in its
hands. Whoever wakes it does not take the lock, and the woken thread releases
it before it tests the ring again.

`stored` and `returned` are not fields of the source. They are the bytes that
`ioq_putchar` has put in the ring and that `ioq_getchar` has returned, oldest
first, each written where the source moves its cursor.

## Main definitions

* `IoQueue`: `struct ioqueue`.
* `ioqueueInit`, `nextPos`, `ioqFull`, `ioqEmpty`: Its functions.
* `IoqSide`: The fields a sleeping thread is recorded in.
* `IoqCall`, `IoqPc`: A call, and where a thread stands in it.
* `ioqWait`, `wakeup`, `wakeupAny`: Going to sleep on the queue, and waking a
  sleeper.
* `ioqAcquire`, `ioqRelease`: `lock_acquire` and `lock_release` on the
  queue's lock.
* `ioqGetchar`, `ioqPutchar`: The two functions from their loop test on.
* `ioqSystem`: Any number of threads reading and writing one queue.
-/

namespace ForikOS

/-- The size of the buffer. -/
def bufsize : Nat := 64

/-- `struct ioqueue`. -/
structure IoQueue (T : Type) where
  lock : Lock T
  producer : Option T
  consumer : Option T
  buf : Nat → UInt8
  head : Nat
  tail : Nat

/-- The two waiters of a queue, by their fields. -/
inductive IoqSide
  | producer
  | consumer
  deriving DecidableEq, Repr

/-- A call of one of the two functions. -/
inductive IoqCall
  | getchar
  | putchar (byte : UInt8)
  deriving DecidableEq, Repr

/-- The field in which a call records its thread. -/
def IoqCall.side : IoqCall → IoqSide
  | .getchar => .consumer
  | .putchar _ => .producer

/-- Where a thread stands. -/
inductive IoqPc
  /-- In code of its own. -/
  | rest
  /-- On the processor, inside a call. -/
  | running (c : IoqCall)
  /-- Blocked in `lock_acquire`. -/
  | locking (c : IoqCall)
  /-- Woken from there, at the loop test of `sema_down`. -/
  | lockWoken (c : IoqCall)
  /-- Blocked in `ioq_wait`. -/
  | waiting (c : IoqCall)
  /-- Woken from there, at the `lock_release` after it. -/
  | waitWoken (c : IoqCall)
  deriving DecidableEq, Repr

/-- One queue and the threads using it. -/
structure IoqState (T : Type) where
  ioq : IoQueue T
  pc : T → IoqPc
  stored : List UInt8
  returned : List UInt8

variable {T : Type}

/-- `ioqueue_init`. The buffer holds whatever it held before. -/
def ioqueueInit (buf : Nat → UInt8) : IoQueue T :=
  { lock := lockInit, producer := none, consumer := none, buf := buf, head := 0, tail := 0 }

/-- `next_pos`. -/
def nextPos (pos : Nat) : Nat := ringNext bufsize pos

/-- `ioq_full`. -/
def ioqFull (q : IoQueue T) : Prop := nextPos q.head = q.tail

/-- `ioq_empty`. -/
def ioqEmpty (q : IoQueue T) : Prop := q.head = q.tail

instance (q : IoQueue T) : Decidable (ioqFull q) := inferInstanceAs (Decidable (_ = _))

instance (q : IoQueue T) : Decidable (ioqEmpty q) := inferInstanceAs (Decidable (_ = _))

/-- Read `ioq->producer` or `ioq->consumer`. -/
def ioqWaiter (q : IoQueue T) : IoqSide → Option T
  | .producer => q.producer
  | .consumer => q.consumer

/-- Write `ioq->producer` or `ioq->consumer`. -/
def setWaiter (q : IoQueue T) (w : Option T) : IoqSide → IoQueue T
  | .producer => { q with producer := w }
  | .consumer => { q with consumer := w }

variable [DecidableEq T]

namespace IoqState

/-- Move a thread. -/
def goto (s : IoqState T) (t : T) (pc : IoqPc) : IoqState T :=
  { s with pc := Function.update s.pc t pc }

/-- `thread_unblock`: only a blocked thread may be woken. -/
def unblock (s : IoqState T) (t : T) : Except Func (IoqState T) :=
  match s.pc t with
  | .locking c => .ok (s.goto t (.lockWoken c))
  | .waiting c => .ok (s.goto t (.waitWoken c))
  | _ => .error .threadUnblock

end IoqState

/-- `ioq_wait` on the field of the call. -/
def ioqWait (s : IoqState T) (t : T) (c : IoqCall) : Except Func (IoqState T) := do
  ensure (ioqWaiter s.ioq c.side = none) .ioqWait
  .ok ({ s with ioq := setWaiter s.ioq (some t) c.side }.goto t (.waiting c))

/-- `wakeup`. -/
def wakeup (s : IoqState T) (side : IoqSide) : Except Func (IoqState T) :=
  match ioqWaiter s.ioq side with
  | none => .error .wakeup
  | some u => do
      let s ← s.unblock u
      .ok { s with ioq := setWaiter s.ioq none side }

/-- The end of both functions: `wakeup` if the field is not `NULL`. -/
def wakeupAny (s : IoqState T) (side : IoqSide) : Except Func (IoqState T) :=
  if ioqWaiter s.ioq side ≠ none then wakeup s side else .ok s

/-- The loop of `sema_down` in `lock_acquire`, the rest of `lock_acquire`, and
    the `ioq_wait` that follows it. At value zero the thread blocks instead. -/
def ioqSemaDown (s : IoqState T) (t : T) (c : IoqCall) : Except Func (IoqState T) := do
  let (sema, blocks) ← semaDownIter t s.ioq.lock.semaphore
  let s : IoqState T :=
    { s with ioq := { s.ioq with lock := { s.ioq.lock with semaphore := sema } } }
  if blocks then
    .ok (s.goto t (.locking c))
  else do
    -- The lock was free.
    ensure (s.ioq.lock.holderRepeatNr = 0) .lockAcquire
    let lock := { s.ioq.lock with holder := some t, holderRepeatNr := 1 }
    ioqWait { s with ioq := { s.ioq with lock := lock } } t c

/-- `lock_acquire` and the `ioq_wait` that follows it. -/
def ioqAcquire (s : IoqState T) (t : T) (c : IoqCall) : Except Func (IoqState T) :=
  if s.ioq.lock.holder ≠ some t then
    ioqSemaDown s t c
  else
    let lock := { s.ioq.lock with holderRepeatNr := s.ioq.lock.holderRepeatNr + 1 }
    ioqWait { s with ioq := { s.ioq with lock := lock } } t c

/-- `lock_release`. -/
def ioqRelease (s : IoqState T) (t : T) : Except Func (IoqState T) := do
  let lock := s.ioq.lock
  ensure (lock.holder = some t) .lockRelease
  if 1 < lock.holderRepeatNr then
    let lock := { lock with holderRepeatNr := lock.holderRepeatNr - 1 }
    .ok { s with ioq := { s.ioq with lock := lock } }
  else do
    ensure (lock.holderRepeatNr = 1) .lockRelease
    -- The holder is cleared before the waiter is woken.
    let (sema, woken) ← semaUp lock.semaphore
    let lock := { holder := none, semaphore := sema, holderRepeatNr := 0 }
    let s := { s with ioq := { s.ioq with lock := lock } }
    match woken with
    | none => .ok s
    | some u => s.unblock u

/-- `ioq_getchar` from its loop test on. -/
def ioqGetchar (s : IoqState T) (t : T) : Except Func (IoqState T) :=
  if ioqEmpty s.ioq then
    -- Nothing to read.
    ioqAcquire s t .getchar
  else do
    let byte := s.ioq.buf s.ioq.tail
    let s := { s with
      ioq := { s.ioq with tail := nextPos s.ioq.tail }
      returned := s.returned ++ [byte] }
    let s ← wakeupAny s .producer
    .ok (s.goto t .rest)

/-- `ioq_putchar` from its loop test on. -/
def ioqPutchar (s : IoqState T) (t : T) (byte : UInt8) : Except Func (IoqState T) :=
  if ioqFull s.ioq then
    -- No room: one cell stays unused.
    ioqAcquire s t (.putchar byte)
  else do
    let s := { s with
      ioq := { s.ioq with
        buf := Function.update s.ioq.buf s.ioq.head byte
        head := nextPos s.ioq.head }
      stored := s.stored ++ [byte] }
    let s ← wakeupAny s .consumer
    .ok (s.goto t .rest)

/-- A call from its loop test on. -/
def ioqLoop (s : IoqState T) (t : T) : IoqCall → Except Func (IoqState T)
  | .getchar => ioqGetchar s t
  | .putchar byte => ioqPutchar s t byte

/-- A thread calls one of the functions, or a woken thread gets the
    processor. -/
inductive IoqEvent (T : Type)
  | call (t : T) (c : IoqCall)
  | run (t : T)

/-- A stretch of a thread between two points where it gives the processor
    away. -/
def ioqStep (s : IoqState T) : IoqEvent T → Except Func (IoqState T)
  | .call t c => ioqLoop (s.goto t (.running c)) t c
  | .run t =>
      match s.pc t with
      | .lockWoken c => ioqSemaDown (s.goto t (.running c)) t c
      -- Back from `thread_block` in `ioq_wait`, with the lock still held.
      | .waitWoken c => do
          let s ← ioqRelease (s.goto t (.running c)) t
          ioqLoop s t c
      | _ => .ok s

/-- Calls come from code outside the queue, and only a woken thread goes on. -/
def ioqEnabled (s : IoqState T) : IoqEvent T → Prop
  | .call t _ => s.pc t = .rest
  | .run t => ∃ c, s.pc t = .lockWoken c ∨ s.pc t = .waitWoken c

/-- Any number of threads reading and writing one fresh queue, switched where
    they block. -/
def ioqSystem (T : Type) [DecidableEq T] : System (IoqState T) (IoqEvent T) Func where
  init := fun s => ∃ buf, s =
    { ioq := ioqueueInit buf, pc := fun _ => .rest, stored := [], returned := [] }
  enabled := ioqEnabled
  step := ioqStep

end ForikOS
