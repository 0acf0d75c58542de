import ForikOS.Core.FileSys
import ForikOS.Core.PartScan

/-!
# Formatting the Partitions

The first part of `filesys_init` of `fs/fs.c`: it looks at the partitions of the
slave disks and formats those without a file system. `filesysInit` has only what
becomes of the partition that gets mounted.

Three loops go over the channels, the two devices of a channel and the twelve
partitions of a disk: four primary ones and, from `part_idx` 4 on, eight logical
ones. `part_idx` is set to 0 once, before the loops.

The partitions are what `ide_init` has found. Disk `2c + d` is device `d` of
channel `c`, and there is no limit on the channels.

## Main definitions

* `Disks`: All disks, and the state of the file system.
* `checkPart`: One partition.
* `scanParts`, `scanDevice`, `scanDisks`: The loops.
* `formatDisks`: The scan.
-/

namespace ForikOS

/-- The bytes of the disks, and the rest of the state of the file system. -/
structure Disks where
  disks : Nat → Nat → Byte
  fs : Fs

/-- Execute a call for a partition, on the disk `hd`. -/
def Disks.onDisk {α : Type} (w : Disks) (hd : Nat) (part : PartRec) (x : FsM α) :
    Except FsFault (α × Disks) := do
  let (a, fs) ← x.run
    { w.fs with
      disk := w.disks hd
      part := { w.fs.part with startLba := part.startLba, secCnt := part.secCnt } }
  .ok (a, ⟨Function.update w.disks hd fs.disk, fs⟩)

/-- If the partition exists, format it unless it has a file system. -/
def checkPart (s : Scan) (t : PartTag) (w : Disks) : Except FsFault Disks :=
  let part := s.part t
  if part.secCnt ≠ 0 then do
    let (sbBuf, w) ← w.onDisk t.hd part (ideRead (add32 part.startLba 1) 1)
    if (decodeSb sbBuf).magic = 0x19590318 then
      .ok w
    else do
      let (_, w) ← w.onDisk part.myDisk part partitionFormat
      .ok w
  else
    .ok w

/-- The loop over the partitions of a disk, of at most `n` rounds, where `t` is
    what `part` points to. -/
def scanParts (s : Scan) : Nat → Nat → PartTag → Disks → Except FsFault (Nat × Disks)
  | 0, _, _, _ => .error .hang
  | n + 1, partIdx, t, w =>
      if partIdx < 12 then do
        let t := if partIdx = 4 then ⟨t.hd, true, 0⟩ else t
        let w ← checkPart s t w
        scanParts s n (partIdx + 1) { t with idx := t.idx + 1 } w
      else
        .ok (partIdx, w)

/-- One device. The first of a channel is skipped. -/
def scanDevice (s : Scan) (channelNo devNo partIdx : Nat) (w : Disks) :
    Except FsFault (Nat × Disks) :=
  if devNo = 0 then
    .ok (partIdx, w)
  else
    scanParts s 13 partIdx ⟨2 * channelNo + devNo, false, 0⟩ w

/-- The loop over `n` channels from `channelNo` on. -/
def scanDisks (s : Scan) : Nat → Nat → Nat → Disks → Except FsFault Disks
  | 0, _, _, w => .ok w
  | n + 1, channelNo, partIdx, w => do
      let (partIdx, w) ← scanDevice s channelNo 0 partIdx w
      let (partIdx, w) ← scanDevice s channelNo 1 partIdx w
      scanDisks s n (channelNo + 1) partIdx w

/-- The scan of `filesys_init` with `channelCnt` channels. -/
def formatDisks (s : Scan) (channelCnt : Nat) (w : Disks) : Except FsFault Disks := do
  let (_, fs) ← mallocOrPanic.run w.fs
  scanDisks s channelCnt 0 0 { w with fs := fs }

end ForikOS
