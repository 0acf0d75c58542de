import ForikOS.Core.FsState

/-!
# The Disk Driver

`ide_read`, `ide_write` and the interrupt handler of `device/ide.c`, for the
threads that use the disks of one channel.

A transfer goes through the channel's lock, and then once or several times
through a command to the disk and a `sema_down` that waits for it. Neither is
protected from interrupts, so a thread is at one statement at a time and may
be switched out, or interrupted, after each: `IdePc` has a constructor for
each statement that reads or writes something shared. Inside `lock_acquire`
and `lock_release` the statement is that of `LockState`. A read waits before
it moves the data and a write after it.

The disk interrupts when it likes. The handler raises `disk_done` if a command
was expected to answer, and otherwise does nothing. What `busy_wait` finds in
the status register is given with the event.

`cmds`, `downs` and `issuer` are not fields of the source. They count the
calls of `cmd_out` and the completed calls of `sema_down` on `disk_done`, and
name the thread that made the latest of the former.

The sectors themselves are not here: what moves between the data port and the
caller's buffer has no part in the protocol.

## Main definitions

* `IdeJob`: The arguments and local variables of a transfer.
* `IdePc`: The statement a thread executes next.
* `IdeRegs`: What was last written to the ports of the channel.
* `selectDisk`, `selectSector`, `cmdOut`: The functions that write them.
* `intrHdHandler`: The interrupt handler.
* `ideStep`: One statement of a thread, or an interrupt.
* `ideSystem`: Any number of threads and interrupts on one channel.
-/

namespace ForikOS

/-- `ide_read` or `ide_write`. -/
inductive IdeOp
  | read
  | write
  deriving DecidableEq, Repr

/-- The arguments and local variables of a transfer. -/
structure IdeJob where
  op : IdeOp
  devNo : UInt8
  lba : UInt32
  secCnt : UInt32
  secsDone : UInt32
  secsOp : UInt32
  deriving DecidableEq, Repr

/-- The statement a thread executes next. -/
inductive IdePc
  /-- In code of its own. -/
  | rest
  /-- Inside `lock_acquire(&hd->my_channel->lock)`. -/
  | locking (j : IdeJob)
  /-- `select_disk(hd)`. -/
  | disk (j : IdeJob)
  /-- `while (secs_done < sec_cnt)` and the choice of `secs_op`. -/
  | loop (j : IdeJob)
  /-- `select_sector(hd, lba + secs_done, secs_op)`. -/
  | sector (j : IdeJob)
  /-- `channel->expecting_intr = true` in `cmd_out`. -/
  | expect (j : IdeJob)
  /-- `outb(reg_cmd(channel), cmd)` in `cmd_out`. -/
  | command (j : IdeJob)
  /-- The loop test of `sema_down(&hd->my_channel->disk_done)`. -/
  | down (j : IdeJob)
  /-- Blocked there. -/
  | waiting (j : IdeJob)
  /-- `if (!busy_wait(hd))`. -/
  | busyWait (j : IdeJob)
  /-- `read_from_sector` or `write2sector`. -/
  | transfer (j : IdeJob)
  /-- `secs_done += secs_op`. -/
  | advance (j : IdeJob)
  /-- Inside `lock_release(&hd->my_channel->lock)`. -/
  | unlocking (j : IdeJob)
  deriving DecidableEq, Repr

/-- What was last written to the ports of the channel. -/
structure IdeRegs where
  sectCnt : UInt8
  lbaL : UInt8
  lbaM : UInt8
  lbaH : UInt8
  dev : UInt8
  cmd : UInt8
  deriving DecidableEq, Repr

/-- A channel and the threads using its disks. -/
structure IdeState (T : Type) where
  /-- The channel's lock, and where each thread is in its functions. -/
  lock : LockState T
  expectingIntr : Bool
  diskDone : Semaphore T
  regs : IdeRegs
  pc : T → IdePc
  cmds : Nat
  downs : Nat
  issuer : Option T

variable {T : Type}

/-- `BIT_DEV_MBS | BIT_DEV_LBA`, with `BIT_DEV_DEV` for the second disk. -/
def devBits (devNo : UInt8) : UInt8 := 0xa0 ||| 0x40 ||| (if devNo = 1 then 0x10 else 0)

/-- `select_disk`. -/
def selectDisk (r : IdeRegs) (devNo : UInt8) : IdeRegs := { r with dev := devBits devNo }

/-- `select_sector`. -/
def selectSector (r : IdeRegs) (devNo : UInt8) (lba secCnt : UInt32) : Except Func IdeRegs := do
  ensure (lba.toNat ≤ maxLba) .selectSector
  .ok { r with
    sectCnt := secCnt.toUInt8
    lbaL := lba.toUInt8
    lbaM := (lba >>> 8).toUInt8
    lbaH := (lba >>> 16).toUInt8
    dev := devBits devNo ||| (lba >>> 24).toUInt8 }

/-- `CMD_READ_SECTOR` or `CMD_WRITE_SECTOR`. -/
def IdeOp.cmd : IdeOp → UInt8
  | .read => 0x20
  | .write => 0x30

/-- The function whose assertion or panic stops a transfer. -/
def IdeOp.func : IdeOp → Func
  | .read => .ideRead
  | .write => .ideWrite

/-- The sectors of the next command: at most 256, which the 8-bit register
    counts as 0. -/
def secsOp (j : IdeJob) : UInt32 :=
  if j.secsDone + 256 ≤ j.secCnt then 256 else j.secCnt - j.secsDone

variable [DecidableEq T]

/-- Move a thread. -/
def IdeState.goto (s : IdeState T) (t : T) (pc : IdePc) : IdeState T :=
  { s with pc := Function.update s.pc t pc }

/-- `intr_hd_handler`: the `sema_up` wakes a thread that must be blocked. -/
def intrHdHandler (s : IdeState T) : Except Func (IdeState T) :=
  if s.expectingIntr then do
    let (sema, woken) ← semaUp s.diskDone
    let s := { s with expectingIntr := false, diskDone := sema }
    -- `thread_unblock` asserts that the thread is blocked.
    match woken with
    | none => .ok s
    | some u =>
        match s.pc u with
        | .waiting j => .ok (s.goto u (.down j))
        | _ => .error .threadUnblock
  else
    .ok s

/-- The statement of `lock_acquire` or `lock_release` that `t` executes next;
    after the last one the thread goes on. -/
def ideLock (s : IdeState T) (t : T) (after : IdePc) : Except Func (IdeState T) := do
  let l ← lockStep s.lock t
  let s := { s with lock := l }
  .ok (if l.pc t = .rest then s.goto t after else s)

/-- `sema_down` on `disk_done`, from the loop test on. A read goes on to
    `busy_wait` and a write to the end of its loop. -/
def ideDown (s : IdeState T) (t : T) (j : IdeJob) : Except Func (IdeState T) := do
  let (sema, blocks) ← semaDownIter t s.diskDone
  let s := { s with diskDone := sema }
  if blocks then
    .ok (s.goto t (.waiting j))
  else
    let s := { s with downs := s.downs + 1 }
    match j.op with
    | .read => .ok (s.goto t (.busyWait j))
    | .write => .ok (s.goto t (.advance j))

/-- The next statement of `t`; `ready` is what `busy_wait` returns. -/
def ideRun (s : IdeState T) (t : T) (ready : Bool) : Except Func (IdeState T) :=
  match s.pc t with
  | .rest => .ok s
  | .locking j => ideLock s t (.disk j)
  | .disk j => .ok ({ s with regs := selectDisk s.regs j.devNo }.goto t
      (.loop { j with secsDone := 0 }))
  | .loop j =>
      if j.secsDone < j.secCnt then
        .ok (s.goto t (.sector { j with secsOp := secsOp j }))
      else do
        let l ← lockEventStep s.lock (.release t)
        .ok ({ s with lock := l }.goto t (.unlocking j))
  -- `lba + secs_done` may pass the end of the disk: `select_sector` asserts it again.
  | .sector j => do
      let regs ← selectSector s.regs j.devNo (j.lba + j.secsDone) j.secsOp
      .ok ({ s with regs := regs }.goto t (.expect j))
  | .expect j => .ok ({ s with
      expectingIntr := true, cmds := s.cmds + 1, issuer := some t }.goto t (.command j))
  | .command j =>
      let s := { s with regs := { s.regs with cmd := j.op.cmd } }
      match j.op with
      -- A read waits for the data, a write first hands the data over.
      | .read => .ok (s.goto t (.down j))
      | .write => .ok (s.goto t (.busyWait j))
  | .down j => ideDown s t j
  | .waiting _ => .ok s
  | .busyWait j => do
      -- `PANIC`, with the lock held.
      ensure (ready = true) j.op.func
      .ok (s.goto t (.transfer j))
  | .transfer j =>
      match j.op with
      | .read => .ok (s.goto t (.advance j))
      | .write => .ok (s.goto t (.down j))
  | .advance j => .ok (s.goto t (.loop { j with secsDone := j.secsDone + j.secsOp }))
  | .unlocking _ => ideLock s t .rest

/-- A call of `ide_read` or `ide_write`, the next statement of a thread, or an
    interrupt of the disk. -/
inductive IdeEvent (T : Type)
  | call (t : T) (j : IdeJob)
  | run (t : T) (ready : Bool)
  | intr

/-- What an event does. -/
def ideStep (s : IdeState T) : IdeEvent T → Except Func (IdeState T)
  | .call t j => do
      ensure (j.lba.toNat ≤ maxLba) j.op.func
      ensure (0 < j.secCnt) j.op.func
      let l ← lockEventStep s.lock (.acquire t)
      .ok ({ s with lock := l }.goto t (.locking j))
  | .run t ready => ideRun s t ready
  | .intr => intrHdHandler s

/-- The thread is blocked in `sema_down` on `disk_done`. -/
def IdePc.asleep : IdePc → Bool
  | .waiting _ => true
  | _ => false

/-- Calls come from code outside the driver; a blocked thread does not run;
    the disk may interrupt at any time. -/
def ideEnabled (s : IdeState T) : IdeEvent T → Prop
  | .call t _ => s.pc t = .rest
  | .run t _ => s.pc t ≠ .rest ∧ (s.pc t).asleep = false ∧ s.lock.pc t ≠ .waiting
  | .intr => True

instance (s : IdeState T) (e : IdeEvent T) : Decidable (ideEnabled s e) :=
  match e with
  | .call _ _ => inferInstanceAs (Decidable (_ = _))
  | .run _ _ => inferInstanceAs (Decidable (_ ∧ _))
  | .intr => inferInstanceAs (Decidable True)

/-- A channel as `ide_init` sets it up, with nobody using it. -/
def ideInit (s : IdeState T) : Prop :=
  s.lock = { lock := lockInit, pc := fun _ => .rest, depth := fun _ => 0 } ∧
    s.expectingIntr = false ∧ s.diskDone = semaInit 0 ∧ (∀ t, s.pc t = .rest) ∧
    s.cmds = 0 ∧ s.downs = 0 ∧ s.issuer = none

/-- Any number of threads reading and writing the disks of one channel, with
    interrupts at any time. -/
def ideSystem (T : Type) [DecidableEq T] : System (IdeState T) (IdeEvent T) Func where
  init := ideInit
  enabled := ideEnabled
  step := ideStep

instance (s : IdeState T) (e : IdeEvent T) : Decidable ((ideSystem T).enabled s e) :=
  inferInstanceAs (Decidable (ideEnabled s e))

end ForikOS
