import ForikOS.Core.Ide

/-!
# The Data of a Transfer

`ide_read` and `ide_write` of `device/ide.c` again, now with the sectors and the
buffer, for a thread that has the channel to itself.

A request is split into commands of at most 256 sectors. The number goes through
`select_sector` and `read_from_sector` or `write2sector` as an `uint8_t`, where
256 becomes 0; the controller takes 0 for 256, and so do the last two. The
addresses of the sectors and of the part of the buffer are computed anew for each
command.

The controller has two disks, and bit 4 of its device register selects one. A
command fixes the sectors from the registers. Then the data port moves as many
words as these sectors have, one after another, in the direction of the command;
more words than that, or another command before they are moved, are a fault.

## Main definitions

* `IdeController`: The controller.
* `IdeController.command`, `IdeController.insw`, `IdeController.outsw`: Its
  ports.
* `readFromSector`, `write2sector`: The data of one command.
* `ideReadData`, `ideWriteData`: `ide_read` and `ide_write`.
-/

namespace ForikOS

/-- What can stop a transfer: an assertion, a misuse of the controller, or a
    loop that has not ended. -/
inductive IdeFault
  | assertion (f : Func)
  | device
  | hang
  deriving DecidableEq

/-- The controller of a channel: its registers, the bytes of its two disks, the
    command that is executed, where on the disk the next word lies, and how many
    words are left to be moved. -/
structure IdeController where
  regs : IdeRegs
  disks : Bool → Nat → Byte
  op : IdeOp
  pos : Nat
  left : Nat

namespace IdeController

/-- How many sectors the count register asks for. -/
def sectors (r : IdeRegs) : Nat := if r.sectCnt = 0 then 256 else r.sectCnt.toNat

/-- The address in the registers. -/
def lba (r : IdeRegs) : Nat :=
  r.lbaL.toNat + 256 * r.lbaM.toNat + 65536 * r.lbaH.toNat + 16777216 * (r.dev.toNat % 16)

/-- Whether the second disk is selected. -/
def second (r : IdeRegs) : Bool := r.dev.toNat / 16 % 2 = 1

/-- A command is written to the command register. -/
def command (c : IdeController) (op : IdeOp) : Except IdeFault IdeController := do
  let r := { c.regs with cmd := op.cmd }
  -- The words of the last command have to be moved first.
  if c.left = 0 then
    .ok { c with regs := r, op := op, pos := lba r * sectorSize, left := sectors r * (sectorSize / 2) }
  else
    .error .device

/-- `insw` of `n` words from the data port, to offset `off` of a buffer. -/
def insw : Nat → Nat → IdeController → (Nat → Byte) → Except IdeFault (IdeController × (Nat → Byte))
  | 0, _, c, buf => .ok (c, buf)
  | n + 1, off, c, buf =>
      -- The port is empty once the sectors of the command have been read.
      if c.op = .read ∧ 0 < c.left then
        let d := c.disks (second c.regs)
        insw n (off + 2) { c with pos := c.pos + 2, left := c.left - 1 }
          (Function.update (Function.update buf off (d c.pos)) (off + 1) (d (c.pos + 1)))
      else
        .error .device

/-- `outsw` of `n` words to the data port, from offset `off` of a buffer on. -/
def outsw : Nat → Nat → IdeController → (Nat → Byte) → Except IdeFault IdeController
  | 0, _, c, _ => .ok c
  | n + 1, off, c, buf =>
      if c.op = .write ∧ 0 < c.left then
        let d := c.disks (second c.regs)
        outsw n (off + 2)
          { c with
            disks := Function.update c.disks (second c.regs)
              (Function.update (Function.update d c.pos (buf off)) (c.pos + 1) (buf (off + 1)))
            pos := c.pos + 2
            left := c.left - 1 } buf
      else
        .error .device

end IdeController

/-- The bytes `read_from_sector` and `write2sector` move. -/
def sizeInByte (secCnt : UInt8) : Nat :=
  if secCnt = 0 then 256 * 512 else secCnt.toNat * 512

/-- `read_from_sector` to offset `off` of the buffer. -/
def readFromSector (c : IdeController) (off : Nat) (secCnt : UInt8) (buf : Nat → Byte) :
    Except IdeFault (IdeController × (Nat → Byte)) :=
  c.insw (sizeInByte secCnt / 2) off buf

/-- `write2sector` from offset `off` of the buffer. -/
def write2sector (c : IdeController) (off : Nat) (secCnt : UInt8) (buf : Nat → Byte) :
    Except IdeFault IdeController :=
  c.outsw (sizeInByte secCnt / 2) off buf

/-- `select_sector` and `cmd_out` for the next command of a transfer. -/
def nextCommand (c : IdeController) (j : IdeJob) : Except IdeFault IdeController :=
  match selectSector c.regs j.devNo (j.lba + j.secsDone) (secsOp j) with
  | .error f => .error (.assertion f)
  | .ok regs => { c with regs := regs }.command j.op

/-- A transfer once its next command has been executed. -/
def IdeJob.advance (j : IdeJob) : IdeJob :=
  let n := ForikOS.secsOp j
  { j with secsOp := n, secsDone := j.secsDone + n }

/-- The offset of the next command in the buffer. -/
def IdeJob.offset (j : IdeJob) : Nat := (j.secsDone * 512).toNat

/-- The loop of `ide_read`, of at most `n` rounds. -/
def ideReadLoop : Nat → IdeJob → IdeController → (Nat → Byte) →
    Except IdeFault (IdeController × (Nat → Byte))
  | 0, _, _, _ => .error .hang
  | n + 1, j, c, buf =>
      if j.secsDone < j.secCnt then do
        let c ← nextCommand c j
        let (c, buf) ← readFromSector c j.offset (secsOp j).toUInt8 buf
        ideReadLoop n j.advance c buf
      else
        .ok (c, buf)

/-- The loop of `ide_write`. -/
def ideWriteLoop : Nat → IdeJob → IdeController → (Nat → Byte) → Except IdeFault IdeController
  | 0, _, _, _ => .error .hang
  | n + 1, j, c, buf =>
      if j.secsDone < j.secCnt then do
        let c ← nextCommand c j
        let c ← write2sector c j.offset (secsOp j).toUInt8 buf
        ideWriteLoop n j.advance c buf
      else
        .ok c

/-- `ide_read` of `secCnt` sectors into a buffer. -/
def ideReadData (c : IdeController) (devNo : UInt8) (lba secCnt : UInt32) (buf : Nat → Byte) :
    Except IdeFault (IdeController × (Nat → Byte)) :=
  if lba.toNat ≤ maxLba ∧ 0 < secCnt then
    ideReadLoop (secCnt.toNat + 1) ⟨.read, devNo, lba, secCnt, 0, 0⟩
      { c with regs := selectDisk c.regs devNo } buf
  else
    .error (.assertion .ideRead)

/-- `ide_write` of `secCnt` sectors from a buffer. -/
def ideWriteData (c : IdeController) (devNo : UInt8) (lba secCnt : UInt32) (buf : Nat → Byte) :
    Except IdeFault IdeController :=
  if lba.toNat ≤ maxLba ∧ 0 < secCnt then
    ideWriteLoop (secCnt.toNat + 1) ⟨.write, devNo, lba, secCnt, 0, 0⟩
      { c with regs := selectDisk c.regs devNo } buf
  else
    .error (.assertion .ideWrite)

end ForikOS
